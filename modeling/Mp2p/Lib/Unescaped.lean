import Mp2p.Lib.Json

/-!
# JSON written without escapes

Texts put together from numerals, strings between quotes, arrays and objects, by a writer that never
escapes anything. Read back, such a text gives the tree it was meant to be, as long as every byte of
its strings stands for itself; otherwise the reader refuses it, or the first string with another byte
in it is misread. Every piece of text carries these laws.
-/

namespace Json

def AllVerbatim (strings : List (List UInt8)) : Prop := ∀ s ∈ strings, ∀ byte ∈ s, Verbatim byte

def AllValid (strings : List (List UInt8)) : Prop := ∀ s ∈ strings, Utf8.Valid s

/-- The first byte is one no reader skips or takes for an end. -/
def Opens (bytes : List UInt8) : Prop :=
  ∃ first tail, bytes = first :: tail ∧ isSpace first = false ∧ first ≠ endArray ∧
    first ≠ endObject

/-- A text written for a reader, with what it is meant to be read as. The strings in it are all that
can go wrong; what is read when one does is `Misread`. -/
structure Piece {α : Type} (reader : ℕ → List UInt8 → Option (α × List UInt8)) where
  bytes : List UInt8
  value : α
  strings : List (List UInt8)
  Misread : α → Prop
  opens : Opens bytes
  complete : AllVerbatim strings → ∀ fuel rest, bytes.length < fuel → Follows rest →
    reader fuel (bytes ++ rest) = some (value, rest)
  sound : ∀ fuel rest read after, Follows rest → reader fuel (bytes ++ rest) = some (read, after) →
    (AllVerbatim strings ∧ read = value ∧ after = rest) ∨ Misread read
  valid : Utf8.Valid bytes ↔ AllValid strings

abbrev Text := Piece readValue

theorem valid_cons_iff {byte : UInt8} (hascii : byte.toNat < 128) {bytes : List UInt8} :
    Utf8.Valid (byte :: bytes) ↔ Utf8.Valid bytes := by
  have h := @Utf8.valid_append_cons_iff [] bytes byte hascii
  rw [List.nil_append] at h
  rw [h]
  exact and_iff_right ⟨[], rfl⟩

theorem valid_concat_iff {byte : UInt8} (hascii : byte.toNat < 128) {bytes : List UInt8} :
    Utf8.Valid (bytes ++ [byte]) ↔ Utf8.Valid bytes := by
  rw [Utf8.valid_append_cons_iff hascii]
  exact and_iff_left ⟨[], rfl⟩

theorem allVerbatim_append {a b : List (List UInt8)} :
    AllVerbatim (a ++ b) ↔ AllVerbatim a ∧ AllVerbatim b :=
  List.forall_mem_append

theorem allValid_append {a b : List (List UInt8)} :
    AllValid (a ++ b) ↔ AllValid a ∧ AllValid b :=
  List.forall_mem_append

/-! ### Numbers and strings -/

def number (n : ℕ) : Text where
  bytes := Decimal.digits n
  value := .node (Decimal.digits n) []
  strings := []
  Misread _ := False
  opens := by
    cases hds : Decimal.digits n with
    | nil => exact absurd hds (Decimal.digits_ne_nil n)
    | cons byte ds =>
        have hdigit := @Decimal.isDigit_of_mem_digits n byte
          (by rw [hds]; exact List.mem_cons_self)
        refine ⟨byte, ds, rfl, decide_eq_false ?_, ?_, ?_⟩
        · rintro (rfl | rfl | rfl | rfl) <;> exact absurd hdigit (by decide)
        · rintro rfl
          exact absurd hdigit (by decide)
        · rintro rfl
          exact absurd hdigit (by decide)
  complete _ fuel rest hfuel hrest := by
    cases fuel with
    | zero => omega
    | succ fuel => exact readValue_digits fuel n hrest
  sound fuel rest read after hrest hread := by
    cases fuel with
    | zero => cases hread
    | succ fuel =>
        rw [readValue_digits fuel n hrest, Option.some_inj, Prod.mk.injEq] at hread
        exact .inl ⟨nofun, hread.1.symm, hread.2.symm⟩
  valid := by
    refine iff_of_true (Utf8.valid_of_ascii fun byte hbyte => ?_) nofun
    have := (Decimal.isDigit_of_mem_digits hbyte).2
    omega

/-- What is read in place of `s` is neither `s`, nor begins with it, nor becomes it when a zero is
put after it. -/
def MisreadString (s read : List UInt8) : Prop := ¬(s <+: read ∨ s = read ++ [0])

def string (s : List UInt8) : Text where
  bytes := quote :: (s ++ [quote])
  value := .node s []
  strings := [s]
  Misread read := MisreadString s read.data
  opens := ⟨quote, _, rfl, rfl, by decide, by decide⟩
  complete hverbatim fuel rest hfuel hrest := by
    cases fuel with
    | zero => omega
    | succ fuel =>
        rw [List.cons_append, List.append_assoc, List.singleton_append, readValue_quote,
          readChars_of_verbatim (hverbatim s List.mem_cons_self), Option.map_some]
  sound fuel rest read after hrest hread := by
    cases fuel with
    | zero => cases hread
    | succ fuel =>
        rw [List.cons_append, List.append_assoc, List.singleton_append, readValue_quote,
          Option.map_eq_some_iff] at hread
        obtain ⟨⟨out, after'⟩, hout, hpair⟩ := hread
        rw [Prod.mk.injEq] at hpair
        obtain ⟨rfl, rfl⟩ := hpair
        by_cases hbegins : s <+: out
        · obtain ⟨more, rfl⟩ := hbegins
          have hbytes : (s ++ more) ++ [] = [] ++ s ++ more := by simp
          obtain ⟨⟨-, -, rfl, rfl⟩, hs⟩ := verbatim_of_readChars hout hbytes nofun (.inl rfl)
          left
          refine ⟨?_, by rw [List.append_nil], rfl⟩
          intro s' hs'
          rwa [List.mem_singleton.mp hs']
        · by_cases hzero : s = out ++ [0]
          · have hbytes : out ++ [0] = [] ++ s ++ [] := by simpa using hzero.symm
            obtain ⟨⟨-, h, -⟩, -⟩ := verbatim_of_readChars hout hbytes nofun (.inr ⟨rfl, rfl⟩)
            cases h
          · exact .inr (not_or.mpr ⟨hbegins, hzero⟩)
  valid := by
    rw [valid_cons_iff (by decide), valid_concat_iff (by decide)]
    exact ⟨fun h s' hs' => by rwa [List.mem_singleton.mp hs'], fun h => h s List.mem_cons_self⟩

/-! ### Arrays and objects -/

section Children

variable {α : Type} {reader : ℕ → List UInt8 → Option (α × List UInt8)}

def tailBytes (pieces : List (Piece reader)) : List UInt8 :=
  pieces.flatMap fun piece => comma :: piece.bytes

def bodyBytes : List (Piece reader) → List UInt8
  | [] => []
  | first :: pieces => first.bytes ++ tailBytes pieces

def allStrings (pieces : List (Piece reader)) : List (List UInt8) :=
  pieces.flatMap Piece.strings

/-- Some piece is misread, and those before it are not. -/
def MisreadOne : List (Piece reader) → List α → Prop
  | piece :: pieces, read :: reads =>
      piece.Misread read ∨ read = piece.value ∧ MisreadOne pieces reads
  | _, _ => False

theorem allStrings_cons (piece : Piece reader) (pieces : List (Piece reader)) :
    allStrings (piece :: pieces) = piece.strings ++ allStrings pieces := List.flatMap_cons

theorem valid_tailBytes (pieces : List (Piece reader)) :
    ∀ bytes, Utf8.Valid (bytes ++ tailBytes pieces) ↔
      Utf8.Valid bytes ∧ AllValid (allStrings pieces) := by
  induction pieces with
  | nil =>
      intro bytes
      rw [tailBytes, List.flatMap_nil, List.append_nil]
      exact (and_iff_left nofun).symm
  | cons piece pieces ih =>
      intro bytes
      rw [tailBytes, List.flatMap_cons, List.cons_append, ← tailBytes,
        Utf8.valid_append_cons_iff (by decide), ih, piece.valid, allStrings_cons,
        allValid_append]

theorem valid_bodyBytes (pieces : List (Piece reader)) :
    Utf8.Valid (bodyBytes pieces) ↔ AllValid (allStrings pieces) := by
  cases pieces with
  | nil => exact iff_of_true ⟨[], rfl⟩ nofun
  | cons piece pieces =>
      rw [bodyBytes, valid_tailBytes, piece.valid, allStrings_cons, allValid_append]

variable {close : UInt8}

theorem follows_tail (hclose : close = endArray ∨ close = endObject) (pieces : List (Piece reader))
    (rest : List UInt8) : Follows (tailBytes pieces ++ close :: rest) := by
  cases pieces with
  | nil => exact follows_cons (.inr hclose) rest
  | cons _ _ => exact follows_cons (.inl rfl) _

theorem tailBytes_cons (piece : Piece reader) (pieces : List (Piece reader))
    (rest : List UInt8) :
    tailBytes (piece :: pieces) ++ rest =
      comma :: (piece.bytes ++ (tailBytes pieces ++ rest)) := by
  simp [tailBytes]

theorem readChildren_tail (hclose : close = endArray ∨ close = endObject) {fuel : ℕ}
    {pieces : List (Piece reader)} (hverbatim : AllVerbatim (allStrings pieces))
    (hfuel : ∀ piece ∈ pieces, piece.bytes.length < fuel) :
    ∀ n rest, pieces.length < n →
      readChildren (reader fuel) close n (tailBytes pieces ++ close :: rest) =
        some (pieces.map Piece.value, rest) := by
  induction pieces with
  | nil =>
      intro n rest hn
      obtain ⟨n, rfl⟩ := Nat.exists_eq_succ_of_ne_zero (Nat.ne_zero_of_lt hn)
      exact readChildren_close _ hclose n rest
  | cons piece pieces ih =>
      intro n rest hn
      rw [allStrings_cons, allVerbatim_append] at hverbatim
      obtain ⟨n, rfl⟩ := Nat.exists_eq_succ_of_ne_zero (Nat.ne_zero_of_lt hn)
      rw [tailBytes_cons, readChildren_comma _ hclose,
        piece.complete hverbatim.1 fuel _ (hfuel piece List.mem_cons_self)
          (follows_tail hclose pieces rest),
        Option.bind_some,
        ih hverbatim.2 (fun p hp => hfuel p (List.mem_cons_of_mem _ hp)) n rest
          (Nat.lt_of_succ_lt_succ hn)]
      rfl

/-- What is read of a piece and of those after it is right, or one of them is misread. -/
theorem sound_cons (hclose : close = endArray ∨ close = endObject) {fuel n : ℕ}
    {piece : Piece reader} {pieces : List (Piece reader)} {rest after : List UInt8}
    {reads : List α}
    (htail : ∀ {more after'},
      readChildren (reader fuel) close n (tailBytes pieces ++ close :: rest) = some (more, after') →
        (AllVerbatim (allStrings pieces) ∧ more = pieces.map Piece.value ∧ after' = rest) ∨
          MisreadOne pieces more)
    (hread : ((reader fuel (piece.bytes ++ (tailBytes pieces ++ close :: rest))).bind fun r =>
      (readChildren (reader fuel) close n r.2).map fun q => (r.1 :: q.1, q.2)) =
        some (reads, after)) :
    (AllVerbatim (allStrings (piece :: pieces)) ∧ reads = (piece :: pieces).map Piece.value ∧
        after = rest) ∨
      MisreadOne (piece :: pieces) reads := by
  obtain ⟨⟨first, mid⟩, hfirst, hread⟩ := Option.bind_eq_some_iff.mp hread
  obtain ⟨⟨more, after'⟩, hmore, hpair⟩ := Option.map_eq_some_iff.mp hread
  rw [Prod.mk.injEq] at hpair
  obtain ⟨rfl, rfl⟩ := hpair
  obtain ⟨hverbatim, rfl, rfl⟩ | hmisread :=
    piece.sound fuel _ first mid (follows_tail hclose pieces rest) hfirst
  · obtain ⟨hverbatim', rfl, rfl⟩ | hmisread := htail hmore
    · left
      rw [allStrings_cons, allVerbatim_append]
      exact ⟨⟨hverbatim, hverbatim'⟩, rfl, rfl⟩
    · exact .inr (.inr ⟨rfl, hmisread⟩)
  · exact .inr (.inl hmisread)

theorem sound_tail (hclose : close = endArray ∨ close = endObject) {fuel : ℕ}
    {pieces : List (Piece reader)} :
    ∀ {n : ℕ} {rest after : List UInt8} {reads : List α},
      readChildren (reader fuel) close n (tailBytes pieces ++ close :: rest) =
        some (reads, after) →
      (AllVerbatim (allStrings pieces) ∧ reads = pieces.map Piece.value ∧ after = rest) ∨
        MisreadOne pieces reads := by
  induction pieces with
  | nil =>
      intro n rest after reads hread
      cases n with
      | zero => cases hread
      | succ n =>
          have hclosed := readChildren_close (reader fuel) hclose n rest
          rw [tailBytes, List.flatMap_nil, List.nil_append, hclosed, Option.some_inj,
            Prod.mk.injEq] at hread
          exact .inl ⟨nofun, hread.1.symm, hread.2.symm⟩
  | cons piece pieces ih =>
      intro n rest after reads hread
      cases n with
      | zero => cases hread
      | succ n =>
          rw [tailBytes_cons, readChildren_comma _ hclose] at hread
          exact sound_cons hclose ih hread

theorem length_le_tailBytes (pieces : List (Piece reader)) :
    pieces.length ≤ (tailBytes pieces).length := by
  induction pieces with
  | nil => exact Nat.zero_le _
  | cons piece pieces ih =>
      have h := congrArg List.length (tailBytes_cons piece pieces [])
      simp only [List.append_nil, List.length_cons, List.length_append] at h ⊢
      omega

theorem length_bytes_le_tailBytes {piece : Piece reader} {pieces : List (Piece reader)}
    (hmem : piece ∈ pieces) : piece.bytes.length ≤ (tailBytes pieces).length := by
  induction pieces with
  | nil => cases hmem
  | cons first pieces ih =>
      have h := congrArg List.length (tailBytes_cons first pieces [])
      simp only [List.append_nil, List.length_cons, List.length_append] at h
      rcases List.mem_cons.mp hmem with rfl | hmem
      · omega
      · have := ih hmem
        omega

theorem readBody_pieces (hclose : close = endArray ∨ close = endObject) {fuel : ℕ}
    {pieces : List (Piece reader)} (hverbatim : AllVerbatim (allStrings pieces))
    (hfuel : (bodyBytes pieces).length < fuel) (rest : List UInt8) :
    readBody (reader fuel) close fuel (bodyBytes pieces ++ close :: rest) =
      some (pieces.map Piece.value, rest) := by
  cases pieces with
  | nil => exact readBody_close _ hclose fuel rest
  | cons piece pieces =>
      rw [bodyBytes, List.length_append] at hfuel
      rw [allStrings_cons, allVerbatim_append] at hverbatim
      obtain ⟨first, tail, hbytes, hspace, hne⟩ := piece.opens
      have hne' : first ≠ close := by
        rcases hclose with rfl | rfl
        · exact hne.1
        · exact hne.2
      have hfirst := piece.complete hverbatim.1 fuel (tailBytes pieces ++ close :: rest) (by omega)
        (follows_tail hclose pieces rest)
      have hrest := readChildren_tail hclose hverbatim.2
        (fun p hp => Nat.lt_of_le_of_lt (length_bytes_le_tailBytes hp)
          (by omega : (tailBytes pieces).length < fuel)) fuel rest
        (Nat.lt_of_le_of_lt (length_le_tailBytes pieces) (by omega))
      rw [bodyBytes, List.append_assoc]
      rw [hbytes, List.cons_append] at hfirst ⊢
      rw [readBody_child _ hspace hne', hfirst, Option.bind_some, hrest]
      rfl

theorem sound_body (hclose : close = endArray ∨ close = endObject) {fuel n : ℕ}
    {pieces : List (Piece reader)} {rest after : List UInt8} {reads : List α}
    (hread : readBody (reader fuel) close n (bodyBytes pieces ++ close :: rest) =
      some (reads, after)) :
    (AllVerbatim (allStrings pieces) ∧ reads = pieces.map Piece.value ∧ after = rest) ∨
      MisreadOne pieces reads := by
  cases pieces with
  | nil =>
      rw [bodyBytes, List.nil_append, readBody_close _ hclose, Option.some_inj,
        Prod.mk.injEq] at hread
      exact .inl ⟨nofun, hread.1.symm, hread.2.symm⟩
  | cons piece pieces =>
      obtain ⟨first, tail, hbytes, hspace, hne⟩ := piece.opens
      have hne' : first ≠ close := by
        rcases hclose with rfl | rfl
        · exact hne.1
        · exact hne.2
      rw [bodyBytes, List.append_assoc, hbytes, List.cons_append,
        readBody_child _ hspace hne', ← List.cons_append, ← hbytes] at hread
      exact sound_cons hclose (sound_tail hclose) hread

end Children

/-- Pieces with commas between them, between two brackets. -/
def container {reader : ℕ → List UInt8 → Option ((List UInt8 × Tree) × List UInt8)}
    (first close : UInt8) (hfirst : first.toNat < 128)
    (hopens : isSpace first = false ∧ first ≠ endArray ∧ first ≠ endObject)
    (hclose : close = endArray ∨ close = endObject)
    (hreads : ∀ fuel rest, readValue (fuel + 1) (first :: rest) =
      (readBody (reader fuel) close fuel rest).map fun r => (.node [] r.1, r.2))
    (pieces : List (Piece reader)) : Text where
  bytes := first :: (bodyBytes pieces ++ [close])
  value := .node [] (pieces.map Piece.value)
  strings := allStrings pieces
  Misread read := MisreadOne pieces read.children
  opens := ⟨first, _, rfl, hopens⟩
  complete hverbatim fuel rest hfuel hrest := by
    cases fuel with
    | zero => omega
    | succ fuel =>
        have hlength : (bodyBytes pieces).length < fuel := by
          simp only [List.length_cons, List.length_append] at hfuel
          omega
        rw [List.cons_append, List.append_assoc, List.singleton_append, hreads,
          readBody_pieces hclose hverbatim hlength, Option.map_some]
  sound fuel rest read after hrest hread := by
    cases fuel with
    | zero => cases hread
    | succ fuel =>
        rw [List.cons_append, List.append_assoc, List.singleton_append, hreads,
          Option.map_eq_some_iff] at hread
        obtain ⟨⟨reads, after'⟩, hbody, hpair⟩ := hread
        rw [Prod.mk.injEq] at hpair
        obtain ⟨rfl, rfl⟩ := hpair
        obtain ⟨hverbatim, rfl, rfl⟩ | hmisread := sound_body hclose hbody
        · exact .inl ⟨hverbatim, rfl, rfl⟩
        · exact .inr hmisread
  valid := by
    have hascii : close.toNat < 128 := by rcases hclose with rfl | rfl <;> decide
    rw [valid_cons_iff hfirst, valid_concat_iff hascii, valid_bodyBytes]

def element (text : Text) : Piece readElement where
  bytes := text.bytes
  value := ([], text.value)
  strings := text.strings
  Misread read := text.Misread read.2
  opens := text.opens
  complete hverbatim fuel rest hfuel hrest := by
    rw [readElement, text.complete hverbatim fuel rest hfuel hrest, Option.map_some]
  sound fuel rest read after hrest hread := by
    obtain ⟨⟨tree, after'⟩, htree, hpair⟩ := Option.map_eq_some_iff.mp hread
    rw [Prod.mk.injEq] at hpair
    obtain ⟨rfl, rfl⟩ := hpair
    obtain ⟨hverbatim, rfl, rfl⟩ | hmisread := text.sound fuel rest tree after' hrest htree
    · exact .inl ⟨hverbatim, rfl, rfl⟩
    · exact .inr hmisread
  valid := text.valid

def array (texts : List Text) : Text :=
  container beginArray endArray (by decide) ⟨rfl, by decide, by decide⟩ (.inl rfl)
    readValue_beginArray (texts.map element)

structure Key where
  bytes : List UInt8
  plain : ∀ byte ∈ bytes, Verbatim byte ∧ byte.toNat < 128

theorem readKey_key (key : Key) (rest : List UInt8) :
    readKey (quote :: (key.bytes ++ quote :: colon :: rest)) = some (key.bytes, rest) := by
  have hskip : ∀ tail, skipSpace (quote :: tail) = quote :: tail := fun _ => rfl
  rw [readKey, hskip]
  simp only
  rw [if_pos trivial, readChars_of_verbatim fun byte hbyte => (key.plain byte hbyte).1]
  rfl

def keyBytes (key : Key) (spaced : Bool) (rest : List UInt8) : List UInt8 :=
  quote :: (key.bytes ++ quote :: colon :: (if spaced then 0x20 :: rest else rest))

theorem readMember_keyBytes (key : Key) (spaced : Bool) (fuel : ℕ) (rest : List UInt8) :
    readMember fuel (keyBytes key spaced rest) =
      (readValue fuel rest).map fun r => ((key.bytes, r.1), r.2) := by
  rw [readMember, keyBytes, readKey_key]
  cases spaced with
  | false => simp [Option.map_eq_bind]
  | true => simp [Option.map_eq_bind, readValue_space]

theorem keyBytes_append (key : Key) (spaced : Bool) (bytes rest : List UInt8) :
    keyBytes key spaced bytes ++ rest = keyBytes key spaced (bytes ++ rest) := by
  cases spaced <;> simp [keyBytes]

structure Field where
  key : Key
  spaced : Bool
  text : Text

def Field.member (field : Field) : Piece readMember where
  bytes := keyBytes field.key field.spaced field.text.bytes
  value := (field.key.bytes, field.text.value)
  strings := field.text.strings
  Misread read := read.1 = field.key.bytes ∧ field.text.Misread read.2
  opens := ⟨quote, _, rfl, rfl, by decide, by decide⟩
  complete hverbatim fuel rest hfuel hrest := by
    have hlength : field.text.bytes.length < fuel := by
      cases hspaced : field.spaced <;>
        simp only [hspaced, keyBytes, List.length_cons, List.length_append, Bool.false_eq_true,
          if_true, if_false] at hfuel <;> omega
    rw [keyBytes_append, readMember_keyBytes, field.text.complete hverbatim fuel rest hlength hrest,
      Option.map_some]
  sound fuel rest read after hrest hread := by
    rw [keyBytes_append, readMember_keyBytes] at hread
    obtain ⟨⟨tree, after'⟩, htree, hpair⟩ := Option.map_eq_some_iff.mp hread
    rw [Prod.mk.injEq] at hpair
    obtain ⟨rfl, rfl⟩ := hpair
    obtain ⟨hverbatim, rfl, rfl⟩ | hmisread := field.text.sound fuel rest tree after' hrest htree
    · exact .inl ⟨hverbatim, rfl, rfl⟩
    · exact .inr ⟨rfl, hmisread⟩
  valid := by
    have hkey : Utf8.Valid field.key.bytes :=
      Utf8.valid_of_ascii fun byte hbyte => (field.key.plain byte hbyte).2
    rw [keyBytes, valid_cons_iff (by decide), Utf8.valid_append_cons_iff (by decide),
      valid_cons_iff (by decide), and_iff_right hkey, ← field.text.valid]
    cases field.spaced with
    | false => rfl
    | true => exact valid_cons_iff (by decide)

def object (fields : List Field) : Text :=
  container beginObject endObject (by decide) ⟨rfl, by decide, by decide⟩ (.inr rfl)
    readValue_beginObject (fields.map Field.member)

def Keyed (fields : List Field) : Prop := (fields.map fun field => field.key.bytes).Nodup

theorem keyed_cons {first : Field} {fields : List Field} :
    Keyed (first :: fields) ↔
      (∀ field ∈ fields, first.key.bytes ≠ field.key.bytes) ∧ Keyed fields := by
  unfold Keyed
  rw [List.map_cons, List.nodup_cons, List.mem_map, not_exists]
  refine and_congr_left' (forall_congr' fun field => ?_)
  rw [not_and]
  exact imp_congr_right fun _ => ne_comm

/-- An object that is misread has a field that is, and it is the first under its key. -/
theorem exists_misread_field {fields : List Field} (hkeyed : Keyed fields) {tree : Tree}
    (hmisread : (object fields).Misread tree) :
    ∃ field ∈ fields, ∃ read, tree.child field.key.bytes = some read ∧ field.text.Misread read := by
  have hone : MisreadOne (fields.map Field.member) tree.children := hmisread
  unfold Tree.child
  clear hmisread
  generalize tree.children = children at hone
  induction fields generalizing children with
  | nil => exact hone.elim
  | cons first fields ih =>
      obtain ⟨hfirst, hrest⟩ := keyed_cons.mp hkeyed
      cases children with
      | nil => exact hone.elim
      | cons read children =>
          obtain ⟨hkey, hmisread'⟩ | ⟨hread, hone⟩ := hone
          · refine ⟨first, List.mem_cons_self, read.2, ?_, hmisread'⟩
            rw [List.find?_cons_of_pos (by simpa using hkey), Option.map_some]
          · obtain ⟨field, hmem, found, hfound, hmisread'⟩ := ih hrest children hone
            refine ⟨field, List.mem_cons_of_mem _ hmem, found, ?_, hmisread'⟩
            rw [List.find?_cons_of_neg]
            · exact hfound
            · intro h
              refine hfirst field hmem ?_
              rw [← of_decide_eq_true h, hread]
              rfl

theorem value_array (texts : List Text) :
    (array texts).value = .node [] (texts.map fun text => ([], text.value)) := by
  show Tree.node [] ((texts.map element).map Piece.value) = _
  rw [List.map_map]
  rfl

/-- An array that is misread has an element that is, behind elements that are read as they were
meant. -/
theorem exists_misread_element {texts : List Text} {tree : Tree}
    (hmisread : (array texts).Misread tree) :
    ∃ (before : List Text) (text : Text) (after : List Text) (read : List UInt8 × Tree)
      (rest : List (List UInt8 × Tree)), texts = before ++ text :: after ∧
        tree.children = (before.map fun text => ([], text.value)) ++ read :: rest ∧
        text.Misread read.2 := by
  have hone : MisreadOne (texts.map element) tree.children := hmisread
  clear hmisread
  generalize tree.children = children at hone
  induction texts generalizing children with
  | nil => exact hone.elim
  | cons first texts ih =>
      cases children with
      | nil => exact hone.elim
      | cons read children =>
          obtain hfirst | ⟨hread, hone⟩ := hone
          · exact ⟨[], first, texts, read, children, rfl, rfl, hfirst⟩
          · obtain ⟨before, text, after, read', rest, rfl, rfl, hmisread⟩ := ih children hone
            exact ⟨first :: before, text, after, read', rest, rfl, by rw [hread]; rfl, hmisread⟩

theorem not_misread_numbers {α : Type} {l : List α} {f : α → ℕ} {tree : Tree} :
    ¬(array (l.map fun a => number (f a))).Misread tree := by
  intro hmisread
  obtain ⟨before, text, after, read, rest, htexts, -, hread⟩ := exists_misread_element hmisread
  have htext : text ∈ l.map fun a => number (f a) := by
    rw [htexts]
    exact List.mem_append_right _ List.mem_cons_self
  obtain ⟨a, -, rfl⟩ := List.mem_map.mp htext
  exact hread

/-! ### The bytes and the strings of a text -/

theorem bytes_number (n : ℕ) : (number n).bytes = Decimal.digits n := rfl

theorem bytes_element (text : Text) : (element text).bytes = text.bytes := rfl

theorem bytes_string_append (s rest : List UInt8) :
    (string s).bytes ++ rest = quote :: (s ++ quote :: rest) :=
  congrArg (quote :: ·) (List.append_assoc s [quote] rest)

theorem bytes_array_append (texts : List Text) (rest : List UInt8) :
    (array texts).bytes ++ rest =
      beginArray :: (bodyBytes (texts.map element) ++ endArray :: rest) :=
  congrArg (beginArray :: ·) (List.append_assoc (bodyBytes (texts.map element)) [endArray] rest)

theorem bodyBytes_cons {α : Type} {reader : ℕ → List UInt8 → Option (α × List UInt8)}
    (piece : Piece reader) (pieces : List (Piece reader)) :
    bodyBytes (piece :: pieces) = piece.bytes ++ tailBytes pieces := rfl

def moreBytes : List Field → List UInt8
  | [] => [endObject]
  | field :: fields =>
      comma :: keyBytes field.key field.spaced (field.text.bytes ++ moreBytes fields)

theorem tailBytes_fields (fields : List Field) :
    tailBytes (fields.map Field.member) ++ [endObject] = moreBytes fields := by
  induction fields with
  | nil => rfl
  | cons field fields ih =>
      rw [List.map_cons, tailBytes_cons, ih, moreBytes, ← keyBytes_append]
      rfl

theorem bytes_object (field : Field) (fields : List Field) :
    (object (field :: fields)).bytes =
      beginObject :: keyBytes field.key field.spaced (field.text.bytes ++ moreBytes fields) := by
  rw [← keyBytes_append, ← tailBytes_fields]
  exact congrArg (beginObject :: ·) (List.append_assoc _ _ [endObject])

@[simp] theorem strings_number (n : ℕ) : (number n).strings = [] := rfl

@[simp] theorem strings_string (s : List UInt8) : (string s).strings = [s] := rfl

@[simp] theorem strings_array (texts : List Text) :
    (array texts).strings = texts.flatMap Piece.strings := by
  show (texts.map element).flatMap Piece.strings = _
  rw [List.flatMap_map]
  rfl

@[simp] theorem strings_object (fields : List Field) :
    (object fields).strings = fields.flatMap fun field => field.text.strings := by
  show (fields.map Field.member).flatMap Piece.strings = _
  rw [List.flatMap_map]
  rfl

/-! ### Whole texts -/

/-- **A text that needs no escape is read as it was meant.** -/
theorem read_text (text : Text) (hverbatim : AllVerbatim text.strings)
    (hvalid : AllValid text.strings) : read text.bytes = some text.value := by
  have hread := text.complete hverbatim (text.bytes.length + 1) [] (Nat.lt_succ_self _) follows_nil
  rw [List.append_nil] at hread
  rw [read, if_pos (text.valid.mpr hvalid), hread]
  rfl

/-- **A text that is read needed no escape, or its first string that did is misread.** -/
theorem sound_text (text : Text) {tree : Tree} (hread : read text.bytes = some tree) :
    (AllVerbatim text.strings ∧ AllValid text.strings ∧ tree = text.value) ∨
      text.Misread tree := by
  unfold read at hread
  split_ifs at hread with hvalid
  obtain ⟨⟨read, after⟩, hvalue, hread⟩ := Option.bind_eq_some_iff.mp hread
  dsimp only at hread
  split_ifs at hread
  cases hread
  have hsound := text.sound (text.bytes.length + 1) [] tree after follows_nil
  rw [List.append_nil] at hsound
  rcases hsound hvalue with ⟨hverbatim, rfl, -⟩ | hmisread
  · exact .inl ⟨hverbatim, text.valid.mp hvalid, rfl⟩
  · exact .inr hmisread

end Json
