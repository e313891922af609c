import Mathlib.Data.List.Basic
import Mathlib.Tactic.Common
import Mathlib.Tactic.IntervalCases
import Mathlib.Tactic.NormNum

/-!
# Decimal numerals

A natural number written in ASCII digits, most significant first, and read back.
-/

namespace Decimal

/-- What holds along a list is decided along it, also over a type with few values. -/
instance (priority := high) decidableForallMem {α : Type} (l : List α) (p : α → Prop)
    [DecidablePred p] : Decidable (∀ a ∈ l, p a) :=
  List.decidableBAll p l

def digits (n : ℕ) : List UInt8 := (Nat.toDigits 10 n).map fun c => c.toNat.toUInt8

def IsDigit (byte : UInt8) : Prop := 48 ≤ byte.toNat ∧ byte.toNat ≤ 57

instance : DecidablePred IsDigit := fun byte => by
  unfold IsDigit
  infer_instance

def value (numeral : List UInt8) : ℕ :=
  numeral.foldl (fun acc byte => 10 * acc + (byte.toNat - 48)) 0

def read (numeral : List UInt8) : Option ℕ :=
  if numeral ≠ [] ∧ ∀ byte ∈ numeral, IsDigit byte then some (value numeral) else none

theorem toNat_of_mem_toDigits {n : ℕ} {c : Char} (h : c ∈ Nat.toDigits 10 n) :
    48 ≤ c.toNat ∧ c.toNat ≤ 57 := by
  have hdigit := Nat.isDigit_of_mem_toDigits (by omega) (by omega) h
  simpa [Char.isDigit, UInt32.le_iff_toNat_le] using hdigit

theorem isDigit_of_mem_digits {n : ℕ} {byte : UInt8} (h : byte ∈ digits n) : IsDigit byte := by
  obtain ⟨c, hc, rfl⟩ := List.mem_map.mp h
  have hc := toNat_of_mem_toDigits hc
  rw [IsDigit, Nat.toUInt8, UInt8.toNat_ofNat']
  omega

theorem digits_ne_nil (n : ℕ) : digits n ≠ [] := by
  simp [digits, Nat.toDigits_ne_nil]

theorem value_map {chars : List Char} (h : ∀ c ∈ chars, 48 ≤ c.toNat ∧ c.toNat ≤ 57) :
    value (chars.map fun c => c.toNat.toUInt8) = Nat.ofDigitChars 10 chars 0 := by
  rw [value, Nat.ofDigitChars, List.foldl_map]
  apply List.foldl_ext
  intro acc c hc
  have hc := h c hc
  rw [Nat.toUInt8, UInt8.toNat_ofNat', Nat.mod_eq_of_lt (by omega)]
  rfl

theorem value_digits (n : ℕ) : value (digits n) = n := by
  rw [digits, value_map fun _ => toNat_of_mem_toDigits, Nat.ofDigitChars_ten_toDigits]

theorem digits_injective : Function.Injective digits :=
  Function.LeftInverse.injective value_digits

@[simp] theorem read_digits (n : ℕ) : read (digits n) = some n := by
  rw [read, if_pos ⟨digits_ne_nil n, fun _ => isDigit_of_mem_digits⟩, value_digits]

theorem digits_leading (n : ℕ) :
    digits n = [48] ∨ ∃ byte rest, digits n = byte :: rest ∧ byte ≠ 48 := by
  induction n using Nat.strong_induction_on with
  | _ n ih =>
      by_cases hlt : n < 10
      · rw [digits, Nat.toDigits_of_lt_base hlt]
        interval_cases n
        · exact .inl rfl
        all_goals exact .inr ⟨_, _, rfl, by decide⟩
      · have hdigits : digits n = digits (n / 10) ++ [(n % 10).digitChar.toNat.toUInt8] := by
          rw [digits, Nat.toDigits_of_base_le (by omega) (by omega), List.map_append]
          rfl
        right
        rcases ih (n / 10) (by omega) with hzero | ⟨byte, rest, hfirst, hne⟩
        · have hvalue := congrArg value hzero
          rw [value_digits] at hvalue
          have : value [48] = 0 := rfl
          omega
        · exact ⟨byte, _, by rw [hdigits, hfirst]; rfl, hne⟩

end Decimal
