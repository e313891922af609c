import Mp2p.Lib.Decimal
import Mp2p.Lib.Utf8

/-!
# Reading JSON

A reader of JSON texts, as the grammar has them, into trees: a number or a literal is a leaf that
holds its text, a string a leaf that holds what it stands for, an array has children without keys and
an object children under its keys, in the order of the text. A text that is not well-formed UTF-8 is
refused before anything is read, so inside strings bytes beyond ASCII stand for themselves.
-/

namespace Json

inductive Tree where
  | node (data : List UInt8) (children : List (List UInt8 × Tree))

namespace Tree

def data : Tree → List UInt8
  | node data _ => data

def children : Tree → List (List UInt8 × Tree)
  | node _ children => children

def child (tree : Tree) (key : List UInt8) : Option Tree :=
  (tree.children.find? fun child => child.1 = key).map Prod.snd

@[simp] theorem data_node (data : List UInt8) (children : List (List UInt8 × Tree)) :
    (node data children).data = data := rfl

@[simp] theorem children_node (data : List UInt8) (children : List (List UInt8 × Tree)) :
    (node data children).children = children := rfl

end Tree

def quote : UInt8 := 0x22
def backslash : UInt8 := 0x5c
def comma : UInt8 := 0x2c
def colon : UInt8 := 0x3a
def beginArray : UInt8 := 0x5b
def endArray : UInt8 := 0x5d
def beginObject : UInt8 := 0x7b
def endObject : UInt8 := 0x7d

def isSpace (byte : UInt8) : Bool := byte = 0x20 ∨ byte = 0x09 ∨ byte = 0x0a ∨ byte = 0x0d

def skipSpace (inp : List UInt8) : List UInt8 := inp.dropWhile isSpace

/-! ### Strings -/

def hexDigit (byte : UInt8) : Option ℕ :=
  let n := byte.toNat
  if 48 ≤ n ∧ n ≤ 57 then some (n - 48)
  else if 65 ≤ n ∧ n ≤ 70 then some (n - 55)
  else if 97 ≤ n ∧ n ≤ 102 then some (n - 87)
  else none

def readHex : List UInt8 → Option (ℕ × List UInt8)
  | b₃ :: b₂ :: b₁ :: b₀ :: rest => do
      let d₃ ← hexDigit b₃
      let d₂ ← hexDigit b₂
      let d₁ ← hexDigit b₁
      let d₀ ← hexDigit b₀
      pure (4096 * d₃ + 256 * d₂ + 16 * d₁ + d₀, rest)
  | _ => none

/-- What follows the `u` of an escape: a code unit, or two that make a surrogate pair. -/
def readUnicode (inp : List UInt8) : Option (List UInt8 × List UInt8) := do
  let (high, rest) ← readHex inp
  if 0xd800 ≤ high ∧ high < 0xdc00 then
    match rest with
    | b :: u :: rest =>
        if b = backslash ∧ u = 0x75 then do
          let (low, rest) ← readHex rest
          if 0xdc00 ≤ low ∧ low < 0xe000 then
            pure (String.utf8EncodeChar
              (Char.ofNat (0x10000 + 0x400 * (high - 0xd800) + (low - 0xdc00))), rest)
          else none
        else none
    | _ => none
  else if 0xdc00 ≤ high ∧ high < 0xe000 then none
  else pure (String.utf8EncodeChar (Char.ofNat high), rest)

def simpleEscapes : List (UInt8 × UInt8) :=
  [(0x22, 0x22), (0x5c, 0x5c), (0x2f, 0x2f), (0x62, 0x08), (0x66, 0x0c), (0x6e, 0x0a),
    (0x72, 0x0d), (0x74, 0x09)]

/-- What follows a backslash, with the bytes it stands for. -/
def readEscape : List UInt8 → Option (List UInt8 × List UInt8)
  | [] => none
  | byte :: rest =>
      match simpleEscapes.find? fun escape => escape.1 = byte with
      | some escape => some ([escape.2], rest)
      | none => if byte = 0x75 then readUnicode rest else none

/-- A byte that may stand in a string as it is, a backslash or not. -/
def Ordinary (byte : UInt8) : Prop := 0x20 ≤ byte.toNat ∧ byte ≠ quote

instance (byte : UInt8) : Decidable (Ordinary byte) :=
  inferInstanceAs (Decidable (_ ∧ _))

theorem ordinary_of_hexDigit {byte : UInt8} {n : ℕ} (h : hexDigit byte = some n) :
    Ordinary byte := by
  refine ⟨?_, ?_⟩
  · simp only [hexDigit] at h
    split_ifs at h <;> omega
  · rintro rfl
    cases h

theorem readHex_spec {inp rest : List UInt8} {n : ℕ} (h : readHex inp = some (n, rest)) :
    ∃ used, inp = used ++ rest ∧ used.length = 4 ∧ ∀ byte ∈ used, Ordinary byte := by
  unfold readHex at h
  split at h
  · rename_i b₃ b₂ b₁ b₀ tail
    simp only [Option.bind_eq_bind, Option.bind_eq_some_iff, Option.pure_def, Option.some.injEq,
      Prod.mk.injEq] at h
    obtain ⟨_, h₃, _, h₂, _, h₁, _, h₀, -, rfl⟩ := h
    refine ⟨[b₃, b₂, b₁, b₀], rfl, rfl, ?_⟩
    simp only [List.mem_cons, List.not_mem_nil, or_false]
    rintro byte (rfl | rfl | rfl | rfl)
    · exact ordinary_of_hexDigit h₃
    · exact ordinary_of_hexDigit h₂
    · exact ordinary_of_hexDigit h₁
    · exact ordinary_of_hexDigit h₀
  · cases h

theorem readUnicode_spec {inp out rest : List UInt8} (h : readUnicode inp = some (out, rest)) :
    ∃ used, inp = used ++ rest ∧ out ≠ [] ∧ out.length ≤ used.length ∧
      ∀ byte ∈ used, Ordinary byte := by
  have hlength : ∀ c, (String.utf8EncodeChar c).length ≤ 4 := by
    intro c
    rw [String.length_utf8EncodeChar]
    exact Char.utf8Size_le_four c
  unfold readUnicode at h
  simp only [Option.bind_eq_bind, Option.bind_eq_some_iff, Prod.exists] at h
  obtain ⟨high, tail, hhigh, h⟩ := h
  obtain ⟨used, rfl, hused, hordinary⟩ := readHex_spec hhigh
  split_ifs at h with hpair hlow
  · split at h
    · rename_i b u tail'
      split_ifs at h with hbu
      simp only [Option.bind_eq_some_iff, Prod.exists] at h
      obtain ⟨low, tail, hlow, h⟩ := h
      obtain ⟨used', rfl, hused', hordinary'⟩ := readHex_spec hlow
      split_ifs at h
      simp only [Option.pure_def, Option.some.injEq, Prod.mk.injEq] at h
      obtain ⟨rfl, rfl⟩ := h
      refine ⟨used ++ b :: u :: used', by simp, String.utf8EncodeChar_ne_nil, ?_, ?_⟩
      · have := hlength (Char.ofNat (0x10000 + 0x400 * (high - 0xd800) + (low - 0xdc00)))
        simp only [List.length_append, List.length_cons]
        omega
      · intro byte hbyte
        rw [List.mem_append, List.mem_cons, List.mem_cons] at hbyte
        rcases hbyte with hbyte | rfl | rfl | hbyte
        · exact hordinary byte hbyte
        · rw [hbu.1]
          decide
        · rw [hbu.2]
          decide
        · exact hordinary' byte hbyte
    · cases h
  · simp only [Option.pure_def, Option.some.injEq, Prod.mk.injEq] at h
    obtain ⟨rfl, rfl⟩ := h
    refine ⟨used, rfl, String.utf8EncodeChar_ne_nil, ?_, hordinary⟩
    have := hlength (Char.ofNat high)
    omega

/-- **What an escape does.** It stands for no more bytes than it takes, and takes no quote but in the
escape of one. -/
theorem readEscape_spec {inp out rest : List UInt8} (h : readEscape inp = some (out, rest)) :
    ∃ used, inp = used ++ rest ∧ out ≠ [] ∧ out.length ≤ used.length ∧
      ((used = [quote] ∧ out = [quote]) ∨ ∀ byte ∈ used, Ordinary byte) := by
  unfold readEscape at h
  split at h
  · cases h
  · rename_i byte tail
    split at h
    · rename_i escape hescape
      rw [Option.some_inj, Prod.mk.injEq] at h
      obtain ⟨rfl, rfl⟩ := h
      have hbyte : escape.1 = byte := of_decide_eq_true (List.find?_some hescape :)
      have htable : ∀ e ∈ simpleEscapes, (e.1 = quote ∧ e.2 = quote) ∨ Ordinary e.1 := by decide
      refine ⟨[byte], rfl, List.cons_ne_nil _ _, le_rfl, ?_⟩
      rcases htable escape (List.mem_of_find?_eq_some hescape) with ⟨h₁, h₂⟩ | hordinary
      · exact .inl ⟨by rw [← hbyte, h₁], by rw [h₂]⟩
      · right
        intro b hb
        rw [List.mem_singleton.mp hb, ← hbyte]
        exact hordinary
    · split_ifs at h with hu
      obtain ⟨used, rfl, hout, hlength, hordinary⟩ := readUnicode_spec h
      refine ⟨byte :: used, rfl, hout, by rw [List.length_cons]; omega, .inr ?_⟩
      rintro b (_ | ⟨_, hb⟩)
      · rw [hu]
        decide
      · exact hordinary b hb

theorem length_le_of_readEscape {inp out rest : List UInt8}
    (h : readEscape inp = some (out, rest)) : rest.length ≤ inp.length := by
  obtain ⟨used, rfl, _⟩ := readEscape_spec h
  rw [List.length_append]
  exact Nat.le_add_left _ _

def readChars : List UInt8 → Option (List UInt8 × List UInt8)
  | [] => none
  | byte :: inp =>
      if byte = quote then some ([], inp)
      else if byte = backslash then
        match _h : readEscape inp with
        | none => none
        | some (out, rest) => (readChars rest).map fun r => (out ++ r.1, r.2)
      else if byte.toNat < 0x20 then none
      else (readChars inp).map fun r => (byte :: r.1, r.2)
termination_by inp => inp.length
decreasing_by
  · have := length_le_of_readEscape _h
    rw [List.length_cons]
    omega
  · exact Nat.lt_succ_self _

def Verbatim (byte : UInt8) : Prop := Ordinary byte ∧ byte ≠ backslash

instance (byte : UInt8) : Decidable (Verbatim byte) :=
  inferInstanceAs (Decidable (_ ∧ _))

theorem readChars_of_verbatim {s : List UInt8} (hs : ∀ byte ∈ s, Verbatim byte)
    (rest : List UInt8) : readChars (s ++ quote :: rest) = some (s, rest) := by
  induction s with
  | nil => rw [List.nil_append, readChars, if_pos rfl]
  | cons byte s ih =>
      have hbyte := hs byte List.mem_cons_self
      rw [List.cons_append, readChars, if_neg hbyte.1.2, if_neg hbyte.2,
        if_neg (Nat.not_lt.mpr hbyte.1.1), ih fun b hb => hs b (List.mem_cons_of_mem _ hb)]
      rfl

/-- **What is read back as it is was written as it is.** The bytes `s` are put between quotes without
a thought, and the string read there is `s` and perhaps more, up to a final zero. Then every byte of
`s` stands for itself and the string ends where `s` does: an escape takes more bytes than it stands
for, and what is read stays behind from there on. The bytes it is behind by are `lag`. -/
theorem verbatim_of_readChars {s out lag more missing rest after : List UInt8}
    (hread : readChars (s ++ quote :: after) = some (out, rest))
    (hout : out ++ missing = lag ++ s ++ more) (hlag : ∀ byte ∈ lag, Ordinary byte)
    (hmissing : missing = [] ∨ missing = [0] ∧ more = []) :
    (lag = [] ∧ missing = [] ∧ more = [] ∧ rest = after) ∧ ∀ byte ∈ s, Verbatim byte := by
  induction hn : s.length using Nat.strong_induction_on generalizing s out lag with
  | _ n ih =>
    subst hn
    cases s with
    | nil =>
        rw [List.nil_append, readChars, if_pos rfl, Option.some_inj, Prod.mk.injEq] at hread
        obtain ⟨rfl, rfl⟩ := hread
        rw [List.nil_append, List.append_nil] at hout
        rcases hmissing with rfl | ⟨rfl, rfl⟩
        · obtain ⟨rfl, rfl⟩ := List.append_eq_nil_iff.mp hout.symm
          exact ⟨⟨rfl, rfl, rfl, rfl⟩, nofun⟩
        · rw [List.append_nil] at hout
          have hzero := hlag 0 (by rw [← hout]; exact List.mem_cons_self)
          exact absurd hzero (by decide)
    | cons byte s =>
        rw [List.cons_append, readChars] at hread
        split_ifs at hread with hquote hbackslash hcontrol
        · -- A quote ends the string before all of `s` is read.
          subst hquote
          rw [Option.some_inj, Prod.mk.injEq] at hread
          obtain ⟨rfl, -⟩ := hread
          rw [List.nil_append] at hout
          rcases hmissing with rfl | ⟨rfl, rfl⟩
          · simp at hout
          · cases lag with
            | nil => simp [quote] at hout
            | cons _ lag => simp at hout
        · subst hbackslash
          split at hread
          · cases hread
          · rename_i escaped tail hescape
            rw [Option.map_eq_some_iff] at hread
            obtain ⟨⟨out', rest'⟩, hread', hpair⟩ := hread
            rw [Prod.mk.injEq] at hpair
            obtain ⟨rfl, rfl⟩ := hpair
            obtain ⟨used, hused, hne, hlength, ⟨-, rfl⟩ | hordinary⟩ := readEscape_spec hescape
            · -- The escape of a quote would have to match a byte before the first quote.
              exfalso
              cases lag with
              | nil => simp [quote, backslash] at hout
              | cons first lag =>
                  simp only [List.cons_append, List.nil_append, List.cons.injEq] at hout
                  exact (hlag first List.mem_cons_self).2 hout.1.symm
            · obtain ⟨s', rfl, htail⟩ : ∃ s', s = used ++ s' ∧ tail = s' ++ quote :: after := by
                obtain ⟨extra, rfl, hextra⟩ | ⟨s', rfl, htail⟩ := List.append_eq_append_iff.mp hused
                · cases extra with
                  | nil => exact ⟨[], by simp, by simpa using hextra.symm⟩
                  | cons first extra =>
                      rw [List.cons_append, List.cons.injEq] at hextra
                      exact absurd hextra.1.symm
                        (hordinary first (List.mem_append_right _ List.mem_cons_self)).2
                · exact ⟨s', rfl, htail⟩
              have hsplit : escaped ++ (out' ++ missing) =
                  (lag ++ backslash :: used) ++ (s' ++ more) := by simpa using hout
              obtain ⟨lag', hlag', hout'⟩ | ⟨_, hlong, _⟩ := List.append_eq_append_iff.mp hsplit
              · rw [htail] at hread'
                have hshorter : s'.length < (backslash :: (used ++ s')).length := by
                  rw [List.length_cons, List.length_append]
                  omega
                have hbehind := ih s'.length hshorter hread' (by simpa using hout')
                  (fun b hb => by
                    have hmem : b ∈ lag ++ backslash :: used := by
                      rw [hlag']
                      exact List.mem_append_right _ hb
                    rw [List.mem_append, List.mem_cons] at hmem
                    rcases hmem with hmem | rfl | hmem
                    · exact hlag b hmem
                    · decide
                    · exact hordinary b hmem) rfl
                have hlengths := congrArg List.length hlag'
                rw [hbehind.1.1] at hlengths
                simp at hlengths
                omega
              · have hlengths := congrArg List.length hlong
                simp at hlengths
                omega
        · rw [Option.map_eq_some_iff] at hread
          obtain ⟨⟨out', rest'⟩, hread', hpair⟩ := hread
          rw [Prod.mk.injEq] at hpair
          obtain ⟨rfl, rfl⟩ := hpair
          have hordinary : Ordinary byte := ⟨Nat.not_lt.mp hcontrol, hquote⟩
          cases lag with
          | nil =>
              have hout' : out' ++ missing = [] ++ s ++ more := by simpa using hout
              obtain ⟨hends, hs⟩ := ih s.length (Nat.lt_succ_self _) hread' hout' nofun rfl
              refine ⟨hends, ?_⟩
              rintro b (_ | ⟨_, hb⟩)
              · exact ⟨hordinary, hbackslash⟩
              · exact hs b hb
          | cons first lag =>
              simp only [List.cons_append, List.cons.injEq] at hout
              obtain ⟨rfl, hout⟩ := hout
              have hout' : out' ++ missing = (lag ++ [byte]) ++ s ++ more := by simpa using hout
              have hbehind := ih s.length (Nat.lt_succ_self _) hread' hout' (fun b hb => by
                  rw [List.mem_append, List.mem_singleton] at hb
                  rcases hb with hb | rfl
                  · exact hlag b (List.mem_cons_of_mem _ hb)
                  · exact hordinary) rfl
              exact absurd hbehind.1.1 (by simp)

/-! ### Numbers -/

def readDigits (inp : List UInt8) : List UInt8 × List UInt8 :=
  (inp.takeWhile fun byte => Decimal.IsDigit byte, inp.dropWhile fun byte => Decimal.IsDigit byte)

def readInt : List UInt8 → Option (List UInt8 × List UInt8)
  | [] => none
  | byte :: rest =>
      if byte = 0x30 then some ([byte], rest)
      else if Decimal.IsDigit byte then some (readDigits (byte :: rest))
      else none

def readFraction : List UInt8 → Option (List UInt8 × List UInt8)
  | [] => some ([], [])
  | byte :: rest =>
      if byte = 0x2e then
        if (readDigits rest).1 = [] then none
        else some (byte :: (readDigits rest).1, (readDigits rest).2)
      else some ([], byte :: rest)

def readSign (signs : List UInt8) : List UInt8 → List UInt8 × List UInt8
  | [] => ([], [])
  | byte :: rest => if byte ∈ signs then ([byte], rest) else ([], byte :: rest)

def readExponent : List UInt8 → Option (List UInt8 × List UInt8)
  | [] => some ([], [])
  | byte :: rest =>
      if byte = 0x65 ∨ byte = 0x45 then
        let (sign, rest) := readSign [0x2b, 0x2d] rest
        if (readDigits rest).1 = [] then none
        else some (byte :: sign ++ (readDigits rest).1, (readDigits rest).2)
      else some ([], byte :: rest)

def readNumber (inp : List UInt8) : Option (List UInt8 × List UInt8) := do
  let (sign, rest) := readSign [0x2d] inp
  let (int, rest) ← readInt rest
  let (fraction, rest) ← readFraction rest
  let (exponent, rest) ← readExponent rest
  pure (sign ++ int ++ fraction ++ exponent, rest)

/-- What may follow a value right away. -/
def Follows (rest : List UInt8) : Prop :=
  ∀ byte ∈ rest.head?, byte = comma ∨ byte = endArray ∨ byte = endObject

theorem follows_nil : Follows [] := nofun

theorem follows_cons {byte : UInt8} (h : byte = comma ∨ byte = endArray ∨ byte = endObject)
    (rest : List UInt8) : Follows (byte :: rest) := by
  intro b hb
  cases hb
  exact h

def Ends (rest : List UInt8) : Prop :=
  ∀ byte ∈ rest.head?, byte = comma ∨ byte = endArray ∨ byte = endObject ∨ isSpace byte

theorem Follows.ends {rest : List UInt8} (h : Follows rest) : Ends rest := fun byte hbyte =>
  (h byte hbyte).imp_right fun hclose => hclose.imp_right .inl

/-- No byte that may follow a value can be a part of a number. -/
theorem Ends.outside {rest : List UInt8} (h : Ends rest) : ∀ byte ∈ rest.head?,
    ¬Decimal.IsDigit byte ∧ byte ≠ 0x2e ∧ ¬(byte = 0x65 ∨ byte = 0x45) := by
  intro byte hbyte
  rcases h byte hbyte with rfl | rfl | rfl | hspace
  · decide
  · decide
  · decide
  · obtain rfl | rfl | rfl | rfl : byte = 0x20 ∨ byte = 0x09 ∨ byte = 0x0a ∨ byte = 0x0d :=
      of_decide_eq_true hspace
    all_goals decide

theorem readDigits_append {ds rest : List UInt8} (hds : ∀ byte ∈ ds, Decimal.IsDigit byte)
    (hrest : Ends rest) : readDigits (ds ++ rest) = (ds, rest) := by
  rw [readDigits, List.takeWhile_append_of_pos (by simpa using hds),
    List.dropWhile_append_of_pos (by simpa using hds)]
  cases rest with
  | nil => simp
  | cons byte rest =>
      have hbyte := (hrest.outside byte rfl).1
      rw [List.takeWhile_cons_of_neg (by simpa using hbyte),
        List.dropWhile_cons_of_neg (by simpa using hbyte), List.append_nil]

theorem readNumber_digits (n : ℕ) {rest : List UInt8} (hrest : Ends rest) :
    readNumber (Decimal.digits n ++ rest) = some (Decimal.digits n, rest) := by
  have hint : readInt (Decimal.digits n ++ rest) = some (Decimal.digits n, rest) := by
    rcases Decimal.digits_leading n with hzero | ⟨byte, ds, hds, hne⟩
    · rw [hzero]
      rfl
    · have hdigits := fun b hb => @Decimal.isDigit_of_mem_digits n b hb
      rw [hds] at hdigits ⊢
      rw [List.cons_append, readInt, if_neg hne, if_pos (hdigits byte List.mem_cons_self),
        ← List.cons_append, readDigits_append hdigits hrest]
  have hsign : readSign [0x2d] (Decimal.digits n ++ rest) = ([], Decimal.digits n ++ rest) := by
    have hdigits := fun b hb => @Decimal.isDigit_of_mem_digits n b hb
    cases hds : Decimal.digits n with
    | nil => exact absurd hds (Decimal.digits_ne_nil n)
    | cons byte ds =>
        rw [hds] at hdigits
        rw [List.cons_append, readSign, if_neg]
        intro hminus
        have := hdigits byte List.mem_cons_self
        rw [List.mem_singleton.mp hminus] at this
        exact absurd this (by decide)
  have hfraction : readFraction rest = some ([], rest) := by
    cases rest with
    | nil => rfl
    | cons byte rest => exact if_neg (hrest.outside byte rfl).2.1
  have hexponent : readExponent rest = some ([], rest) := by
    cases rest with
    | nil => rfl
    | cons byte rest => exact if_neg (hrest.outside byte rfl).2.2
  rw [readNumber, hsign]
  simp [hint, hfraction, hexponent]

/-! ### Values -/

def readWord (word inp : List UInt8) : Option (Tree × List UInt8) :=
  if word <+: inp then some (.node word [], inp.drop word.length) else none

def readScalar (inp : List UInt8) : Option (Tree × List UInt8) :=
  (readWord [0x74, 0x72, 0x75, 0x65] inp).orElse fun _ =>
    (readWord [0x66, 0x61, 0x6c, 0x73, 0x65] inp).orElse fun _ =>
      (readWord [0x6e, 0x75, 0x6c, 0x6c] inp).orElse fun _ =>
        (readNumber inp).map fun r => (.node r.1 [], r.2)

def readKey (inp : List UInt8) : Option (List UInt8 × List UInt8) :=
  match skipSpace inp with
  | [] => none
  | byte :: rest =>
      if byte = quote then do
        let (key, rest) ← readChars rest
        match skipSpace rest with
        | [] => none
        | byte :: rest => if byte = colon then some (key, rest) else none
      else none

def readChildren {α : Type} (child : List UInt8 → Option (α × List UInt8)) (close : UInt8) :
    ℕ → List UInt8 → Option (List α × List UInt8)
  | 0, _ => none
  | fuel + 1, inp =>
      match skipSpace inp with
      | [] => none
      | byte :: rest =>
          if byte = close then some ([], rest)
          else if byte = comma then
            (child rest).bind fun r =>
              (readChildren child close fuel r.2).map fun q => (r.1 :: q.1, q.2)
          else none

def readBody {α : Type} (child : List UInt8 → Option (α × List UInt8)) (close : UInt8) (fuel : ℕ)
    (inp : List UInt8) : Option (List α × List UInt8) :=
  match skipSpace inp with
  | [] => none
  | byte :: rest =>
      if byte = close then some ([], rest)
      else
        (child (byte :: rest)).bind fun r =>
          (readChildren child close fuel r.2).map fun q => (r.1 :: q.1, q.2)

def readValue : ℕ → List UInt8 → Option (Tree × List UInt8)
  | 0, _ => none
  | fuel + 1, inp =>
      match skipSpace inp with
      | [] => none
      | byte :: rest =>
          if byte = quote then (readChars rest).map fun r => (.node r.1 [], r.2)
          else if byte = beginArray then
            (readBody (fun inp => (readValue fuel inp).map fun r => (([], r.1), r.2)) endArray fuel
              rest).map fun r => (.node [] r.1, r.2)
          else if byte = beginObject then
            (readBody (fun inp => do
              let (key, rest) ← readKey inp
              let (value, rest) ← readValue fuel rest
              pure ((key, value), rest)) endObject fuel rest).map fun r => (.node [] r.1, r.2)
          else readScalar (byte :: rest)

def readElement (fuel : ℕ) (inp : List UInt8) : Option ((List UInt8 × Tree) × List UInt8) :=
  (readValue fuel inp).map fun r => (([], r.1), r.2)

def readMember (fuel : ℕ) (inp : List UInt8) : Option ((List UInt8 × Tree) × List UInt8) := do
  let (key, rest) ← readKey inp
  let (value, rest) ← readValue fuel rest
  pure ((key, value), rest)

section Children

variable {α : Type} (child : List UInt8 → Option (α × List UInt8)) {close : UInt8}

theorem readChildren_close (hclose : close = endArray ∨ close = endObject) (fuel : ℕ)
    (rest : List UInt8) :
    readChildren child close (fuel + 1) (close :: rest) = some ([], rest) := by
  rcases hclose with h | h <;> subst h <;> rfl

theorem readChildren_comma (hclose : close = endArray ∨ close = endObject) (fuel : ℕ)
    (rest : List UInt8) :
    readChildren child close (fuel + 1) (comma :: rest) = (child rest).bind fun r =>
      (readChildren child close fuel r.2).map fun q => (r.1 :: q.1, q.2) := by
  have hskip : skipSpace (comma :: rest) = comma :: rest := rfl
  have hne : comma ≠ close := by rcases hclose with rfl | rfl <;> decide
  rw [readChildren, hskip]
  simp only
  rw [if_neg hne, if_pos trivial]

theorem readBody_close (hclose : close = endArray ∨ close = endObject) (fuel : ℕ)
    (rest : List UInt8) : readBody child close fuel (close :: rest) = some ([], rest) := by
  rcases hclose with h | h <;> subst h <;> rfl

theorem readBody_child {first : UInt8} (hspace : isSpace first = false) (hne : first ≠ close)
    (fuel : ℕ) (rest : List UInt8) :
    readBody child close fuel (first :: rest) = (child (first :: rest)).bind fun r =>
      (readChildren child close fuel r.2).map fun q => (r.1 :: q.1, q.2) := by
  have hskip : skipSpace (first :: rest) = first :: rest := by
    rw [skipSpace, List.dropWhile_cons_of_neg (by rw [hspace]; nofun)]
  rw [readBody, hskip]
  simp only
  rw [if_neg hne]

end Children

theorem readValue_quote (fuel : ℕ) (rest : List UInt8) :
    readValue (fuel + 1) (quote :: rest) =
      (readChars rest).map fun r => (.node r.1 [], r.2) := rfl

theorem readValue_beginArray (fuel : ℕ) (rest : List UInt8) :
    readValue (fuel + 1) (beginArray :: rest) =
      (readBody (readElement fuel) endArray fuel rest).map fun r => (.node [] r.1, r.2) := rfl

theorem readValue_beginObject (fuel : ℕ) (rest : List UInt8) :
    readValue (fuel + 1) (beginObject :: rest) =
      (readBody (readMember fuel) endObject fuel rest).map fun r => (.node [] r.1, r.2) := rfl

theorem readValue_space (fuel : ℕ) (rest : List UInt8) :
    readValue fuel (0x20 :: rest) = readValue fuel rest := by
  cases fuel with
  | zero => rfl
  | succ fuel => rfl

theorem readValue_digits_of_ends (fuel n : ℕ) {rest : List UInt8} (hrest : Ends rest) :
    readValue (fuel + 1) (Decimal.digits n ++ rest) =
      some (.node (Decimal.digits n) [], rest) := by
  have hnumber := readNumber_digits n hrest
  cases hds : Decimal.digits n with
  | nil => exact absurd hds (Decimal.digits_ne_nil n)
  | cons byte ds =>
      have hdigit := @Decimal.isDigit_of_mem_digits n byte (by rw [hds]; exact List.mem_cons_self)
      rw [hds, List.cons_append] at hnumber
      have hne : ∀ other : UInt8, ¬Decimal.IsDigit other → byte ≠ other := by
        rintro other hother rfl
        exact hother hdigit
      have hskip : skipSpace (byte :: (ds ++ rest)) = byte :: (ds ++ rest) := by
        rw [skipSpace, List.dropWhile_cons_of_neg]
        simp only [isSpace, decide_eq_true_eq, not_or]
        exact ⟨hne _ (by decide), hne _ (by decide), hne _ (by decide), hne _ (by decide)⟩
      have hword : ∀ first word, ¬Decimal.IsDigit first →
          readWord (first :: word) (byte :: (ds ++ rest)) = none := by
        intro first word hfirst
        rw [readWord, if_neg]
        rintro ⟨tail, htail⟩
        rw [List.cons_append, List.cons.injEq] at htail
        exact hne first hfirst htail.1.symm
      rw [List.cons_append, readValue, hskip]
      simp only
      rw [if_neg (hne _ (by decide)), if_neg (hne _ (by decide)), if_neg (hne _ (by decide)),
        readScalar, hword _ _ (by decide), hword _ _ (by decide), hword _ _ (by decide), hnumber]
      rfl

theorem readValue_digits (fuel n : ℕ) {rest : List UInt8} (hrest : Follows rest) :
    readValue (fuel + 1) (Decimal.digits n ++ rest) =
      some (.node (Decimal.digits n) [], rest) :=
  readValue_digits_of_ends fuel n hrest.ends

/-- A text: a value with nothing but space around it. Every step takes a byte, so the length of the
text is fuel enough. -/
def read (text : List UInt8) : Option Tree :=
  if Utf8.Valid text then do
    let (tree, rest) ← readValue (text.length + 1) text
    if skipSpace rest = [] then some tree else none
  else none

end Json
