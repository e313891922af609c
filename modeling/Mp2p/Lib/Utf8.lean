import Mathlib.Data.List.Basic
import Mathlib.Tactic.Common

/-!
# Well-formed UTF-8

Sequences of bytes that encode characters. An ASCII byte is the whole encoding of a character
wherever it stands, so well-formedness can be checked on each side of one.
-/

namespace Utf8

def Valid (bytes : List UInt8) : Prop :=
  ∃ chars : List Char, chars.flatMap String.utf8EncodeChar = bytes

theorem valid_iff {bytes : List UInt8} : Valid bytes ↔ bytes.toByteArray.IsValidUTF8 := by
  constructor
  · rintro ⟨chars, rfl⟩
    exact .intro chars rfl
  · rintro ⟨chars, hchars⟩
    have hdata := congrArg (fun b : ByteArray => b.data.toList) hchars
    exact ⟨chars, by simpa [List.utf8Encode] using hdata.symm⟩

instance (bytes : List UInt8) : Decidable (Valid bytes) := decidable_of_iff _ valid_iff.symm

theorem utf8EncodeChar_of_ascii {c : Char} {byte : UInt8} (hmem : byte ∈ String.utf8EncodeChar c)
    (hascii : byte.toNat < 128) : String.utf8EncodeChar c = [byte] := by
  have hhigh : ∀ x : UInt8, ∀ y : UInt8, 128 ≤ y.toNat → byte = x ||| y → False := by
    rintro x y hy rfl
    rw [UInt8.toNat_or] at hascii
    have := @Nat.right_le_or x.toNat y.toNat
    omega
  obtain h | h | h | h := Char.utf8Size_eq c
  · rw [String.utf8EncodeChar_eq_singleton h, List.mem_singleton] at hmem
    rw [String.utf8EncodeChar_eq_singleton h, hmem]
  · rw [String.utf8EncodeChar_eq_cons_cons h] at hmem
    simp only [List.mem_cons, List.not_mem_nil, or_false] at hmem
    rcases hmem with h | h <;> exact (hhigh _ _ (by decide) h).elim
  · rw [String.utf8EncodeChar_eq_cons_cons_cons h] at hmem
    simp only [List.mem_cons, List.not_mem_nil, or_false] at hmem
    rcases hmem with h | h | h <;> exact (hhigh _ _ (by decide) h).elim
  · rw [String.utf8EncodeChar_eq_cons_cons_cons_cons h] at hmem
    simp only [List.mem_cons, List.not_mem_nil, or_false] at hmem
    rcases hmem with h | h | h | h <;> exact (hhigh _ _ (by decide) h).elim

theorem valid_append {a b : List UInt8} (ha : Valid a) (hb : Valid b) : Valid (a ++ b) := by
  obtain ⟨as, rfl⟩ := ha
  obtain ⟨bs, rfl⟩ := hb
  exact ⟨as ++ bs, List.flatMap_append⟩

theorem utf8EncodeChar_ofNat {byte : UInt8} (hascii : byte.toNat < 128) :
    String.utf8EncodeChar (Char.ofNat byte.toNat) = [byte] := by
  have hvalid : byte.toNat.isValidChar := .inl (by omega)
  have hval : (Char.ofNat byte.toNat).val.toNat = byte.toNat := by
    rw [Char.ofNat, dif_pos hvalid]
    rfl
  have hsize : (Char.ofNat byte.toNat).utf8Size = 1 := by
    rw [Char.utf8Size_eq_one_iff, UInt32.le_iff_toNat_le, hval]
    exact Nat.le_of_lt_succ hascii
  rw [String.utf8EncodeChar_eq_singleton hsize, List.cons.injEq, ← UInt8.toNat_inj,
    UInt32.toNat_toUInt8, hval]
  exact ⟨by omega, rfl⟩

theorem valid_of_ascii {bytes : List UInt8} (h : ∀ byte ∈ bytes, byte.toNat < 128) :
    Valid bytes := by
  induction bytes with
  | nil => exact ⟨[], rfl⟩
  | cons byte bytes ih =>
      have hone : Valid [byte] :=
        ⟨[Char.ofNat byte.toNat], by simpa using utf8EncodeChar_ofNat (h byte List.mem_cons_self)⟩
      exact valid_append hone (ih fun b hb => h b (List.mem_cons_of_mem _ hb))

/-- **Splitting at an ASCII byte.** -/
theorem valid_append_cons_iff {a b : List UInt8} {byte : UInt8} (hascii : byte.toNat < 128) :
    Valid (a ++ byte :: b) ↔ Valid a ∧ Valid b := by
  constructor
  · rintro ⟨chars, hchars⟩
    induction chars generalizing a with
    | nil => simp at hchars
    | cons c chars ih =>
        rw [List.flatMap_cons] at hchars
        obtain ⟨a', rfl, ha'⟩ | ⟨c', hc', hb⟩ := List.append_eq_append_iff.mp hchars
        · obtain ⟨hva, hvb⟩ := ih ha'
          exact ⟨valid_append ⟨[c], by simp⟩ hva, hvb⟩
        · cases c' with
          | nil =>
              rw [List.append_nil] at hc'
              obtain ⟨hva, hvb⟩ := @ih [] hb.symm
              exact ⟨⟨[c], by simpa using hc'⟩, hvb⟩
          | cons first c' =>
              rw [List.cons_append, List.cons.injEq] at hb
              obtain ⟨rfl, rfl⟩ := hb
              have hone := @utf8EncodeChar_of_ascii c byte (by rw [hc']; simp) hascii
              rw [hone] at hc'
              have hnil : a = [] ∧ c' = [] := by
                cases a with
                | nil => simpa using hc'
                | cons _ _ => simp at hc'
              exact ⟨⟨[], hnil.1.symm⟩, ⟨chars, by rw [hnil.2, List.nil_append]⟩⟩
  · rintro ⟨ha, hb⟩
    exact valid_append ha (@valid_append [byte] b (valid_of_ascii (by simpa using hascii)) hb)

end Utf8
