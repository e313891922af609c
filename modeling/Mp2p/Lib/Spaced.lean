import Mp2p.Lib.Unescaped

/-!
# JSON with space between the tokens

A text written by hand has space where that reads well. A reader skips it, so the text is read as the
tree it shows.
-/

namespace Json

def Blank (space : List UInt8) : Prop := ∀ byte ∈ space, isSpace byte

instance (space : List UInt8) : Decidable (Blank space) :=
  inferInstanceAs (Decidable (∀ byte ∈ space, isSpace byte))

theorem skipSpace_append {space : List UInt8} (hspace : Blank space) (rest : List UInt8) :
    skipSpace (space ++ rest) = skipSpace rest := by
  rw [skipSpace, List.dropWhile_append_of_pos hspace, ← skipSpace]

theorem ends_blank {space rest : List UInt8} (hspace : Blank space) (hrest : Ends rest) :
    Ends (space ++ rest) := by
  cases space with
  | nil => exact hrest
  | cons byte space =>
      intro b hb
      cases hb
      exact .inr (.inr (.inr (hspace byte List.mem_cons_self)))

theorem ends_close {close : UInt8} (hclose : close = endArray ∨ close = endObject)
    (rest : List UInt8) : Ends (close :: rest) := by
  intro b hb
  cases hb
  exact .inr (hclose.imp_right .inl)

/-- With fuel for its bytes a reader takes the text for the value and goes no further. -/
def Reads {α : Type} (reader : ℕ → List UInt8 → Option (α × List UInt8)) (bytes : List UInt8)
    (value : α) : Prop :=
  ∀ fuel rest, bytes.length < fuel → Ends rest → reader fuel (bytes ++ rest) = some (value, rest)

theorem reads_digits (n : ℕ) :
    Reads readValue (Decimal.digits n) (.node (Decimal.digits n) []) := by
  intro fuel rest hfuel hrest
  obtain ⟨fuel, rfl⟩ := Nat.exists_eq_succ_of_ne_zero (Nat.ne_zero_of_lt hfuel)
  exact readValue_digits_of_ends fuel n hrest

theorem reads_blank {space bytes : List UInt8} {value : Tree} (hspace : Blank space)
    (h : Reads readValue bytes value) : Reads readValue (space ++ bytes) value := by
  intro fuel rest hfuel hrest
  rw [List.length_append] at hfuel
  have hread := h fuel rest (by omega) hrest
  obtain ⟨fuel, rfl⟩ := Nat.exists_eq_succ_of_ne_zero (Nat.ne_zero_of_lt hfuel)
  rw [← hread, readValue, readValue, List.append_assoc, skipSpace_append hspace]

theorem reads_element {bytes : List UInt8} {value : Tree} (h : Reads readValue bytes value) :
    Reads readElement bytes ([], value) := by
  intro fuel rest hfuel hrest
  rw [readElement, h fuel rest hfuel hrest, Option.map_some]

theorem reads_member {space bytes : List UInt8} {value : Tree} (hspace : Blank space) (key : Key)
    (h : Reads readValue bytes value) :
    Reads readMember (space ++ keyBytes key false bytes) (key.bytes, value) := by
  intro fuel rest hfuel hrest
  have hlength : bytes.length < fuel := by
    simp only [keyBytes, List.length_append, List.length_cons, Bool.false_eq_true,
      if_false] at hfuel
    omega
  rw [readMember, readKey, List.append_assoc, skipSpace_append hspace, ← readKey, ← readMember,
    keyBytes_append, readMember_keyBytes, h fuel rest hlength hrest, Option.map_some]

section Children

variable {α : Type} {reader : ℕ → List UInt8 → Option (α × List UInt8)} {close : UInt8}

theorem readChildren_skip (fuel n : ℕ) {space : List UInt8} (hspace : Blank space)
    (rest : List UInt8) : readChildren (reader fuel) close n (space ++ rest) =
      readChildren (reader fuel) close n rest := by
  cases n with
  | zero => rfl
  | succ n => rw [readChildren, readChildren, skipSpace_append hspace]

def commaBytes (children : List (List UInt8)) : List UInt8 :=
  children.flatMap fun child => comma :: child

theorem ends_children (hclose : close = endArray ∨ close = endObject) {space : List UInt8}
    (hspace : Blank space) (children : List (List UInt8)) (rest : List UInt8) :
    Ends (commaBytes children ++ (space ++ close :: rest)) := by
  cases children with
  | nil =>
      rw [commaBytes, List.flatMap_nil, List.nil_append]
      exact ends_blank hspace (ends_close hclose rest)
  | cons _ _ =>
      intro byte hbyte
      exact .inl (Option.some_inj.mp hbyte).symm

theorem readChildren_of_reads (hclose : close = endArray ∨ close = endObject) {fuel : ℕ}
    {space : List UInt8} (hspace : Blank space) {children : List (List UInt8)} {values : List α}
    (hreads : List.Forall₂ (Reads reader) children values) :
    ∀ n rest, (commaBytes children).length < fuel → children.length < n →
      readChildren (reader fuel) close n (commaBytes children ++ (space ++ close :: rest)) =
        some (values, rest) := by
  induction hreads with
  | nil =>
      intro n rest _ hn
      obtain ⟨n, rfl⟩ := Nat.exists_eq_succ_of_ne_zero (Nat.ne_zero_of_lt hn)
      rw [commaBytes, List.flatMap_nil, List.nil_append, readChildren_skip fuel _ hspace,
        readChildren_close _ hclose]
  | @cons child value children values hchild _ ih =>
      intro n rest hfuel hn
      obtain ⟨n, rfl⟩ := Nat.exists_eq_succ_of_ne_zero (Nat.ne_zero_of_lt hn)
      rw [commaBytes, List.flatMap_cons, ← commaBytes] at hfuel ⊢
      rw [List.length_append, List.length_cons] at hfuel
      rw [List.cons_append, List.cons_append, List.append_assoc, readChildren_comma _ hclose,
        hchild fuel _ (by omega) (ends_children hclose hspace children rest), Option.bind_some,
        ih n rest (by omega) (Nat.lt_of_succ_lt_succ hn)]
      rfl

theorem length_le_commaBytes (children : List (List UInt8)) :
    children.length ≤ (commaBytes children).length := by
  induction children with
  | nil => exact Nat.zero_le _
  | cons child children ih =>
      rw [commaBytes, List.flatMap_cons, ← commaBytes, List.length_append, List.length_cons,
        List.length_cons]
      omega

/-- A list with space before its first child, which itself begins with none, and before its end. -/
def spacedBody (before first : List UInt8) (children : List (List UInt8)) (after : List UInt8) :
    List UInt8 :=
  before ++ (first ++ (commaBytes children ++ after))

theorem readBody_of_reads (hclose : close = endArray ∨ close = endObject) {fuel : ℕ}
    {before after : List UInt8} (hbefore : Blank before) (hafter : Blank after)
    {first : List UInt8} {children : List (List UInt8)} {value : α} {values : List α}
    (hopens : Opens first) (hfirst : Reads reader first value)
    (hchildren : List.Forall₂ (Reads reader) children values)
    (hfuel : (spacedBody before first children after).length < fuel) (rest : List UInt8) :
    readBody (reader fuel) close fuel (spacedBody before first children after ++ close :: rest) =
      some (value :: values, rest) := by
  obtain ⟨opening, tail, hbytes, hopening, hneArray, hneObject⟩ := hopens
  have hne : opening ≠ close := by
    rcases hclose with rfl | rfl
    · exact hneArray
    · exact hneObject
  simp only [spacedBody, List.length_append] at hfuel
  have hlength := length_le_commaBytes children
  have hread := hfirst fuel _ (by omega) (ends_children hclose hafter children rest)
  rw [spacedBody, List.append_assoc, List.append_assoc, List.append_assoc, readBody,
    skipSpace_append hbefore, ← readBody]
  rw [hbytes, List.cons_append] at hread ⊢
  rw [readBody_child _ hopening hne, hread, Option.bind_some,
    readChildren_of_reads hclose hafter hchildren fuel rest (by omega) (by omega)]
  rfl

end Children

section Containers

variable {before after first : List UInt8} {children : List (List UInt8)}
  {value : List UInt8 × Tree} {values : List (List UInt8 × Tree)} (hbefore : Blank before)
  (hafter : Blank after) (hopens : Opens first)
include hbefore hafter hopens

theorem reads_array (hfirst : Reads readElement first value)
    (hchildren : List.Forall₂ (Reads readElement) children values) :
    Reads readValue (beginArray :: (spacedBody before first children after ++ [endArray]))
      (.node [] (value :: values)) := by
  intro fuel rest hfuel hrest
  obtain ⟨fuel, rfl⟩ := Nat.exists_eq_succ_of_ne_zero (Nat.ne_zero_of_lt hfuel)
  rw [List.length_cons, List.length_append] at hfuel
  rw [List.cons_append, readValue_beginArray, List.append_assoc, List.singleton_append,
    readBody_of_reads (.inl rfl) hbefore hafter hopens hfirst hchildren (by omega) rest]
  rfl

theorem reads_object (hfirst : Reads readMember first value)
    (hchildren : List.Forall₂ (Reads readMember) children values) :
    Reads readValue (beginObject :: (spacedBody before first children after ++ [endObject]))
      (.node [] (value :: values)) := by
  intro fuel rest hfuel hrest
  obtain ⟨fuel, rfl⟩ := Nat.exists_eq_succ_of_ne_zero (Nat.ne_zero_of_lt hfuel)
  rw [List.length_cons, List.length_append] at hfuel
  rw [List.cons_append, readValue_beginObject, List.append_assoc, List.singleton_append,
    readBody_of_reads (.inr rfl) hbefore hafter hopens hfirst hchildren (by omega) rest]
  rfl

end Containers

theorem reads_emptyArray : Reads readValue [beginArray, endArray] (.node [] []) := by
  intro fuel rest hfuel hrest
  obtain ⟨fuel, rfl⟩ := Nat.exists_eq_succ_of_ne_zero (Nat.ne_zero_of_lt hfuel)
  rw [List.cons_append, readValue_beginArray, List.singleton_append,
    readBody_close _ (.inl rfl)]
  rfl

/-- A well-formed text with space behind it is read as what it shows. -/
theorem read_of_reads {bytes space : List UInt8} {value : Tree} (h : Reads readValue bytes value)
    (hspace : Blank space) (hvalid : Utf8.Valid (bytes ++ space)) :
    read (bytes ++ space) = some value := by
  have hends : Ends (space ++ []) := ends_blank hspace nofun
  have hskip : skipSpace (space ++ []) = [] := skipSpace_append hspace []
  rw [List.append_nil] at hends hskip
  have hread := h ((bytes ++ space).length + 1) space
    (by rw [List.length_append]; omega) hends
  rw [read, if_pos hvalid, hread]
  simp [hskip]

end Json
