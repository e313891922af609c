import Mp2p.Lib.Unescaped
import Mp2p.Master.Serialization

/-!
# Which items survive serialization

The serializers put strings between quotes as they are. An item comes back exactly when none of its
strings holds a byte that JSON would have escaped, and the record of the files only when it names
some file, because its serializer increments an iterator that may be at the end.
-/

namespace Mp2p.DB

open Json Utils.Misc

/-- Well-formed text without controls, quotes and backslashes. -/
def PlainString (s : Bytes) : Prop := Utf8.Valid s ∧ ∀ byte ∈ s, Verbatim byte

section RoundTrip

variable {boost : PropertyTree} (hboost : boost.Correct)
include hboost

theorem roundTrip_iff {α : Type} {text : Text} {decode : Json.Tree → Option α} {ok : α → Prop}
    (hdecode : ∃ y, decode text.value = some y ∧ ok y)
    (hmisread : ∀ tree y, text.Misread tree → decode tree = some y → ¬ok y) :
    (∃ y, (boost.readJson text.bytes).bind decode = some y ∧ ok y) ↔
      ∀ s ∈ text.strings, PlainString s := by
  rw [hboost.readJson]
  constructor
  · rintro ⟨y, hy, hok⟩
    obtain ⟨tree, hread, htree⟩ := Option.bind_eq_some_iff.mp hy
    rcases sound_text text hread with ⟨hverbatim, hvalid, -⟩ | hwrong
    · exact fun s hs => ⟨hvalid s hs, hverbatim s hs⟩
    · exact absurd hok (hmisread tree y hwrong htree)
  · intro hplain
    obtain ⟨y, hy, hok⟩ := hdecode
    refine ⟨y, ?_, hok⟩
    rw [read_text text (fun s hs => (hplain s hs).2) (fun s hs => (hplain s hs).1)]
    exact hy

theorem getUInt_of_child {pt : Json.Tree} {key : Bytes} {bits n : ℕ} (hn : n < 2 ^ bits)
    (hchild : pt.child key = some (number n).value) : getUInt boost bits pt key = some n := by
  rw [getUInt, getString, hboost.getChild, hchild]
  exact hboost.getInteger bits n hn

theorem getString_of_child {pt : Json.Tree} {key s : Bytes}
    (hchild : pt.child key = some (Json.string s).value) : getString boost pt key = some s := by
  rw [getString, hboost.getChild, hchild]
  rfl

theorem misread_of_getString {pt read : Json.Tree} {key s s' : Bytes}
    (hchild : pt.child key = some read) (hmisread : (Json.string s).Misread read)
    (hs' : getString boost pt key = some s') : MisreadString s s' := by
  rw [getString, hboost.getChild, hchild, Option.map_some, Option.some_inj] at hs'
  subst hs'
  exact hmisread

theorem getString_ne_of_misread {pt read : Json.Tree} {key s : Bytes}
    (hchild : pt.child key = some read) (hmisread : (Json.string s).Misread read) :
    getString boost pt key ≠ some s := fun hs =>
  misread_of_getString hboost hchild hmisread hs (.inl List.prefix_rfl)

end RoundTrip

theorem hashFrom_toList (digest : Masks.Sha1Type) : hashFrom digest.toList = some digest :=
  Layout.overlay_image [] digest [0]

theorem hashFrom_of_misread {read : Bytes} {digest : Masks.Sha1Type}
    (hmisread : MisreadString digest.toList read) : hashFrom read ≠ some digest := by
  intro hhash
  have hbegins : digest.toList <+: read ++ [0] := by
    simp only [hashFrom, Layout.overlay] at hhash
    split_ifs at hhash
    cases hhash
    exact List.take_prefix _ _
  exact hmisread (List.prefix_concat_iff.mp hbegins).symm

theorem mapM_map_some {α β γ : Type} {f : β → Option γ} {g : α → β} {h : α → γ} {l : List α}
    (hf : ∀ a ∈ l, f (g a) = some (h a)) : (l.map g).mapM f = some (l.map h) := by
  induction l with
  | nil => rfl
  | cons a l ih =>
      rw [List.map_cons, List.mapM_cons, hf a List.mem_cons_self,
        ih fun b hb => hf b (List.mem_cons_of_mem _ hb)]
      rfl

theorem mapM_append_cons {β γ : Type} {f : β → Option γ} {before after : List β} {b : β}
    {out : List γ} (h : (before ++ b :: after).mapM f = some out) :
    ∃ outs c rest, before.mapM f = some outs ∧ f b = some c ∧ out = outs ++ c :: rest := by
  rw [List.mapM_append, List.mapM_cons] at h
  simp only [Option.bind_eq_bind, Option.bind_eq_some_iff, Option.pure_def,
    Option.some_inj] at h
  obtain ⟨outs, houts, _, ⟨c, hc, rest, -, rfl⟩, rfl⟩ := h
  exact ⟨outs, c, rest, houts, hc, rfl⟩

theorem mapM_decode {α β : Type} {text : α → Text} {decode : Json.Tree → Option β} {f : α → β}
    (hdecode : ∀ a, decode (text a).value = some (f a)) (l : List α) :
    (l.map fun a => (([], (text a).value) : Bytes × Json.Tree)).mapM (fun v => decode v.2) =
      some (l.map f) :=
  mapM_map_some fun a _ => hdecode a

/-- The entries of an array that are in front of the first misread one are read as they were. -/
theorem exists_misread_entry {α β : Type} {text : α → Text} {decode : Json.Tree → Option β}
    {f : α → β} (hdecode : ∀ a, decode (text a).value = some (f a)) {l : List α} {tree : Json.Tree}
    {out : List β} (hmisread : (array (l.map text)).Misread tree)
    (hout : tree.children.mapM (fun v => decode v.2) = some out) :
    ∃ before a after read b others, l = before ++ a :: after ∧ (text a).Misread read ∧
      decode read = some b ∧ out = before.map f ++ b :: others := by
  obtain ⟨texts₁, _, texts₂, read, rest, htexts, hchildren, hread⟩ :=
    exists_misread_element hmisread
  obtain ⟨before, l', rfl, rfl, htexts'⟩ := List.map_eq_append_iff.mp htexts
  obtain ⟨a, after, rfl, rfl, -⟩ := List.map_eq_cons_iff.mp htexts'
  rw [hchildren, List.map_map] at hout
  obtain ⟨outs, b, others, houts, hb, rfl⟩ := mapM_append_cons hout
  obtain rfl := Option.some_inj.mp ((mapM_decode hdecode before).symm.trans houts)
  exact ⟨before, a, after, read.2, b, others, rfl, hread, hb, rfl⟩

/-! ### Parts -/

def partFields (part : PartItem) : List Field :=
  [⟨⟨ascii "partid_fid", by decide⟩, false, number part.partid.fid.toNat⟩,
    ⟨⟨ascii "partid_partnum", by decide⟩, false, number part.partid.partnum.toNat⟩,
    ⟨⟨ascii "hash", by decide⟩, false, Json.string part.hash.toList⟩,
    ⟨⟨ascii "locations", by decide⟩, false,
      array (part.locations.map fun stid => number stid.toNat)⟩]

theorem keyed_partFields (part : PartItem) : Keyed (partFields part) :=
  (by decide : [ascii "partid_fid", ascii "partid_partnum", ascii "hash",
    ascii "locations"].Nodup)

def partText (part : PartItem) : Text := object (partFields part)

theorem bodyBytes_numbers {α : Type} (l : List α) (f : α → ℕ) :
    bodyBytes ((l.map fun a => number (f a)).map element) =
      separate (l.map fun a => stringFromUInt (f a)) (ascii ",") := by
  induction l with
  | nil => rfl
  | cons first l ih =>
      cases l with
      | nil => exact List.append_nil _
      | cons second l =>
          simp only [List.map_cons, separate] at ih ⊢
          rw [← ih]
          simp [bodyBytes, tailBytes, bytes_element, bytes_number, stringFromUInt, ascii, comma]

theorem bytes_partText (part : PartItem) : (partText part).bytes = part.serialize := by
  simp only [partText, partFields, bytes_object, moreBytes, bytes_number, bytes_string_append,
    bytes_array_append, bodyBytes_numbers]
  unfold PartItem.serialize
  simp only [stringFrom, List.append_assoc]
  rfl

theorem strings_partText (part : PartItem) : (partText part).strings = [part.hash.toList] := by
  simp [partText, partFields]

section Part

variable {boost : PropertyTree} (hboost : boost.Correct)
include hboost

theorem ofTree_partText (part : PartItem) :
    PartItem.ofTree boost (partText part).value = some part := by
  have hlocs : boost.getChild (partText part).value (ascii "locations") =
      some (array (part.locations.map fun stid => number stid.toNat)).value :=
    hboost.getChild _ _
  have hlocations := @mapM_map_some _ _ _ (fun it : Bytes × Json.Tree =>
    boost.getInteger 32 it.2.data) (fun stid : Masks.StidType => ([], (number stid.toNat).value))
    UInt32.toNat part.locations fun stid _ => hboost.getInteger 32 stid.toNat stid.toNat_lt
  rw [PartItem.ofTree, getUInt_of_child hboost part.partid.fid.toNat_lt rfl,
    getUInt_of_child hboost part.partid.partnum.toNat_lt rfl,
    @getString_of_child _ hboost _ _ part.hash.toList rfl, hlocs]
  simp [value_array, List.map_map, Function.comp_def, hlocations, hashFrom_toList]

theorem ofTree_ne_of_misread {part : PartItem} {tree : Json.Tree}
    (hmisread : (partText part).Misread tree) : PartItem.ofTree boost tree ≠ some part := by
  intro hpart
  obtain ⟨field, hmem, read, hchild, hread⟩ := exists_misread_field (keyed_partFields part) hmisread
  simp only [PartItem.ofTree, Option.bind_eq_bind, Option.bind_eq_some_iff, Option.pure_def,
    Option.some_inj] at hpart
  obtain ⟨_, -, _, -, hash, hhash, _, -, _, -, digest, hdigest, rfl⟩ := hpart
  simp only [partFields, List.mem_cons, List.not_mem_nil, or_false] at hmem
  rcases hmem with rfl | rfl | rfl | rfl
  · exact hread
  · exact hread
  · exact hashFrom_of_misread (misread_of_getString hboost hchild hread hhash) hdigest
  · exact not_misread_numbers hread

end Part

/-! ### Files -/

def fileFields (fi : FileItem) : List Field :=
  [⟨⟨ascii "id", by decide⟩, false, number fi.id.toNat⟩,
    ⟨⟨ascii "name", by decide⟩, true, Json.string fi.name⟩,
    ⟨⟨ascii "file_size", by decide⟩, false, number fi.fileSize.toNat⟩,
    ⟨⟨ascii "redundancy", by decide⟩, false, number fi.redundancy.toNat⟩,
    ⟨⟨ascii "current_redundancy", by decide⟩, false, number fi.currentRedundancy.toNat⟩,
    ⟨⟨ascii "hash", by decide⟩, false, Json.string fi.hash.toList⟩,
    ⟨⟨ascii "uploaded", by decide⟩, false, number (if fi.uploaded then 1 else 0)⟩,
    ⟨⟨ascii "parts", by decide⟩, false, array (fi.parts.map partText)⟩]

theorem keyed_fileFields (fi : FileItem) : Keyed (fileFields fi) :=
  (by decide : [ascii "id", ascii "name", ascii "file_size", ascii "redundancy",
    ascii "current_redundancy", ascii "hash", ascii "uploaded", ascii "parts"].Nodup)

def fileText (fi : FileItem) : Text := object (fileFields fi)

theorem tailBytes_texts {α : Type} (l : List α) {text : α → Text} {bytes : α → Bytes}
    (h : ∀ a, (text a).bytes = bytes a) :
    tailBytes ((l.map text).map element) = l.flatMap fun a => ascii "," ++ bytes a := by
  induction l with
  | nil => rfl
  | cons a l ih =>
      rw [List.map_cons, List.map_cons, tailBytes, List.flatMap_cons, ← tailBytes, ih,
        List.flatMap_cons, bytes_element, h]
      rfl

theorem bodyBytes_parts (parts : List PartItem) :
    bodyBytes ((parts.map partText).map element) = serializeParts parts := by
  cases parts with
  | nil => rfl
  | cons it rest =>
      rw [List.map_cons, List.map_cons, bodyBytes_cons, tailBytes_texts rest bytes_partText,
        bytes_element, bytes_partText, serializeParts]

theorem bytes_fileText (fi : FileItem) : (fileText fi).bytes = fi.serialize := by
  simp only [fileText, fileFields, bytes_object, moreBytes, bytes_number, bytes_string_append,
    bytes_array_append, bodyBytes_parts]
  unfold FileItem.serialize
  simp only [stringFrom, List.append_assoc]
  rfl

theorem strings_fileText (fi : FileItem) :
    (fileText fi).strings =
      fi.name :: fi.hash.toList :: fi.parts.map fun part => part.hash.toList := by
  have hparts : (fi.parts.map partText).flatMap Piece.strings =
      fi.parts.map fun part => part.hash.toList := by
    rw [List.flatMap_map, List.map_eq_flatMap]
    exact congrArg (fun f => fi.parts.flatMap f) (funext strings_partText)
  rw [fileText, strings_object]
  simp only [fileFields, List.flatMap_cons, List.flatMap_nil, strings_number, strings_string,
    strings_array, hparts, List.nil_append, List.cons_append, List.append_nil]

section File

variable {boost : PropertyTree} (hboost : boost.Correct)
include hboost

theorem ofTree_fileText (fi : FileItem) :
    FileItem.ofTree boost (fileText fi).value = some fi := by
  have huploaded : getString boost (fileText fi).value (ascii "uploaded") =
      some (Decimal.digits (if fi.uploaded then 1 else 0)) := by
    rw [getString, hboost.getChild]
    rfl
  have hlocs : boost.getChild (fileText fi).value (ascii "parts") =
      some (array (fi.parts.map partText)).value :=
    hboost.getChild _ _
  have hparts := mapM_decode (ofTree_partText hboost) fi.parts
  rw [FileItem.ofTree, getUInt_of_child hboost fi.id.toNat_lt rfl,
    @getString_of_child _ hboost _ _ fi.name rfl,
    getUInt_of_child hboost fi.fileSize.toNat_lt rfl,
    getUInt_of_child hboost fi.redundancy.toNat_lt rfl,
    getUInt_of_child hboost fi.currentRedundancy.toNat_lt rfl,
    @getString_of_child _ hboost _ _ fi.hash.toList rfl, huploaded, hlocs]
  simp [value_array, List.map_map, Function.comp_def, hparts, hashFrom_toList, hboost.getBool]

theorem ofTree_ne_of_misread_file {fi : FileItem} {tree : Json.Tree}
    (hmisread : (fileText fi).Misread tree) : FileItem.ofTree boost tree ≠ some fi := by
  intro hfile
  obtain ⟨field, hmem, read, hchild, hread⟩ := exists_misread_field (keyed_fileFields fi) hmisread
  simp only [FileItem.ofTree, Option.bind_eq_bind, Option.bind_eq_some_iff, Option.pure_def,
    Option.some_inj] at hfile
  obtain ⟨_, -, name, hname, _, -, _, -, _, -, hash, hhash, _, -, locs, hlocs, parts, hparts,
    digest, hdigest, rfl⟩ := hfile
  simp only [fileFields, List.mem_cons, List.not_mem_nil, or_false] at hmem
  rcases hmem with rfl | rfl | rfl | rfl | rfl | rfl | rfl | rfl
  · exact hread
  · exact getString_ne_of_misread hboost hchild hread hname
  · exact hread
  · exact hread
  · exact hread
  · exact hashFrom_of_misread (misread_of_getString hboost hchild hread hhash) hdigest
  · exact hread
  · rw [hboost.getChild, hchild, Option.some_inj] at hlocs
    subst hlocs
    obtain ⟨before, part, after, read', part', others, rfl, hread', hpart, hout⟩ :=
      exists_misread_entry (ofTree_partText hboost) hread hparts
    rw [List.map_id', List.append_cancel_left_eq, List.cons.injEq] at hout
    rw [← hout.1] at hpart
    exact ofTree_ne_of_misread hboost hread' hpart

end File

/-! ### Masters and storages -/

def masterFields (mi : MasterItem) : List Field :=
  [⟨⟨ascii "id", by decide⟩, false, number mi.id.toNat⟩,
    ⟨⟨ascii "host_addr", by decide⟩, false, Json.string mi.hostAddr⟩]

def masterText (mi : MasterItem) : Text := object (masterFields mi)

def storageFields (si : StorageItem) : List Field :=
  [⟨⟨ascii "id", by decide⟩, false, number si.id.toNat⟩,
    ⟨⟨ascii "host_addr", by decide⟩, false, Json.string si.hostAddr⟩,
    ⟨⟨ascii "port", by decide⟩, false, number si.port.toNat⟩,
    ⟨⟨ascii "available_space", by decide⟩, false, number si.availableSpace.toNat⟩]

def storageText (si : StorageItem) : Text := object (storageFields si)

def storagesFields (mos : MetaOnStoragesItem) : List Field :=
  [⟨⟨ascii "count", by decide⟩, false, number mos.count.toNat⟩,
    ⟨⟨ascii "available_space", by decide⟩, false, number mos.availableSpace.toNat⟩]

def storagesText (mos : MetaOnStoragesItem) : Text := object (storagesFields mos)

theorem keyed_masterFields (mi : MasterItem) : Keyed (masterFields mi) :=
  (by decide : [ascii "id", ascii "host_addr"].Nodup)

theorem keyed_storageFields (si : StorageItem) : Keyed (storageFields si) :=
  (by decide : [ascii "id", ascii "host_addr", ascii "port", ascii "available_space"].Nodup)

theorem keyed_storagesFields (mos : MetaOnStoragesItem) : Keyed (storagesFields mos) :=
  (by decide : [ascii "count", ascii "available_space"].Nodup)

theorem bytes_masterText (mi : MasterItem) : (masterText mi).bytes = mi.serialize := by
  simp only [masterText, masterFields, bytes_object, moreBytes, bytes_number, bytes_string_append]
  unfold MasterItem.serialize
  simp only [stringFrom, List.append_assoc]
  rfl

theorem bytes_storageText (si : StorageItem) : (storageText si).bytes = si.serialize := by
  simp only [storageText, storageFields, bytes_object, moreBytes, bytes_number,
    bytes_string_append]
  unfold StorageItem.serialize
  simp only [stringFrom, List.append_assoc]
  rfl

theorem bytes_storagesText (mos : MetaOnStoragesItem) :
    (storagesText mos).bytes = mos.serialize := by
  simp only [storagesText, storagesFields, bytes_object, moreBytes, bytes_number]
  unfold MetaOnStoragesItem.serialize
  simp only [List.append_assoc]
  rfl

section Storage

variable {boost : PropertyTree} (hboost : boost.Correct)
include hboost

theorem ofTree_masterText (mi : MasterItem) :
    MasterItem.ofTree boost (masterText mi).value = some mi := by
  rw [MasterItem.ofTree, getUInt_of_child hboost mi.id.toNat_lt rfl,
    @getString_of_child _ hboost _ _ mi.hostAddr rfl]
  simp

theorem ofTree_ne_of_misread_master {mi : MasterItem} {tree : Json.Tree}
    (hmisread : (masterText mi).Misread tree) : MasterItem.ofTree boost tree ≠ some mi := by
  intro hmaster
  obtain ⟨field, hmem, read, hchild, hread⟩ :=
    exists_misread_field (keyed_masterFields mi) hmisread
  simp only [MasterItem.ofTree, Option.bind_eq_bind, Option.bind_eq_some_iff, Option.pure_def,
    Option.some_inj] at hmaster
  obtain ⟨_, -, hostAddr, hhost, rfl⟩ := hmaster
  simp only [masterFields, List.mem_cons, List.not_mem_nil, or_false] at hmem
  rcases hmem with rfl | rfl
  · exact hread
  · exact getString_ne_of_misread hboost hchild hread hhost

theorem ofTree_storageText (si : StorageItem) :
    StorageItem.ofTree boost (storageText si).value = some si := by
  rw [StorageItem.ofTree, getUInt_of_child hboost si.id.toNat_lt rfl,
    @getString_of_child _ hboost _ _ si.hostAddr rfl,
    getUInt_of_child hboost si.port.toNat_lt rfl,
    getUInt_of_child hboost si.availableSpace.toNat_lt rfl]
  simp

theorem ofTree_ne_of_misread_storage {si : StorageItem} {tree : Json.Tree}
    (hmisread : (storageText si).Misread tree) : StorageItem.ofTree boost tree ≠ some si := by
  intro hstorage
  obtain ⟨field, hmem, read, hchild, hread⟩ :=
    exists_misread_field (keyed_storageFields si) hmisread
  simp only [StorageItem.ofTree, Option.bind_eq_bind, Option.bind_eq_some_iff, Option.pure_def,
    Option.some_inj] at hstorage
  obtain ⟨_, -, hostAddr, hhost, _, -, _, -, rfl⟩ := hstorage
  simp only [storageFields, List.mem_cons, List.not_mem_nil, or_false] at hmem
  rcases hmem with rfl | rfl | rfl | rfl
  · exact hread
  · exact getString_ne_of_misread hboost hchild hread hhost
  · exact hread
  · exact hread

theorem ofTree_storagesText (mos : MetaOnStoragesItem) :
    MetaOnStoragesItem.ofTree boost (storagesText mos).value = some mos := by
  rw [MetaOnStoragesItem.ofTree, getUInt_of_child hboost mos.count.toNat_lt rfl,
    getUInt_of_child hboost mos.availableSpace.isLt rfl]
  simp

omit hboost in
theorem not_misread_storagesText {mos : MetaOnStoragesItem} {tree : Json.Tree} :
    ¬(storagesText mos).Misread tree := by
  intro hmisread
  obtain ⟨field, hmem, read, -, hread⟩ := exists_misread_field (keyed_storagesFields mos) hmisread
  simp only [storagesFields, List.mem_cons, List.not_mem_nil, or_false] at hmem
  rcases hmem with rfl | rfl
  · exact hread
  · exact hread

end Storage

/-! ### The record of the files -/

def nameFields (entry : Σ _ : Masks.FidType, Bytes) : List Field :=
  [⟨⟨ascii "id", by decide⟩, false, number entry.1.toNat⟩,
    ⟨⟨ascii "name", by decide⟩, false, Json.string entry.2⟩]

def nameText (entry : Σ _ : Masks.FidType, Bytes) : Text := object (nameFields entry)

theorem bytes_nameText (entry : Σ _ : Masks.FidType, Bytes) :
    (nameText entry).bytes = serializeName entry := by
  simp only [nameText, nameFields, bytes_object, moreBytes, bytes_number, bytes_string_append]
  unfold serializeName
  simp only [stringFrom, List.append_assoc]
  rfl

def filesFields (mof : MetaOnFilesItem) : List Field :=
  [⟨⟨ascii "count", by decide⟩, false, number mof.count.toNat⟩,
    ⟨⟨ascii "total_size", by decide⟩, false, number mof.totalSize.toNat⟩,
    ⟨⟨ascii "name_by_id", by decide⟩, false, array (mof.nameById.entries.map nameText)⟩]

def filesText (mof : MetaOnFilesItem) : Text := object (filesFields mof)

theorem keyed_filesFields (mof : MetaOnFilesItem) : Keyed (filesFields mof) :=
  (by decide : [ascii "count", ascii "total_size", ascii "name_by_id"].Nodup)

theorem serialize_files (mof : MetaOnFilesItem) :
    mof.serialize = if mof.nameById.entries = [] then none else some (filesText mof).bytes := by
  unfold MetaOnFilesItem.serialize
  cases hentries : mof.nameById.entries with
  | nil => rfl
  | cons it rest =>
      rw [if_neg (List.cons_ne_nil _ _), serializeNames, Option.map_some]
      simp only [filesText, filesFields, bytes_object, moreBytes, bytes_number,
        bytes_array_append, hentries, List.map_cons, bodyBytes_cons]
      rw [tailBytes_texts rest bytes_nameText, bytes_element, bytes_nameText]
      simp only [List.append_assoc]
      rfl

theorem strings_filesText (mof : MetaOnFilesItem) :
    (filesText mof).strings = mof.nameById.entries.map Sigma.snd := by
  have hnames : (mof.nameById.entries.map nameText).flatMap Piece.strings =
      mof.nameById.entries.map Sigma.snd := by
    rw [List.flatMap_map, List.map_eq_flatMap]
    exact congrArg (fun f => mof.nameById.entries.flatMap f) (funext fun entry => by
      simp [nameText, nameFields])
  rw [filesText, strings_object]
  simp only [filesFields, List.flatMap_cons, List.flatMap_nil, strings_number, strings_array,
    hnames, List.nil_append, List.append_nil]

/-- A map filled by `emplace` has the first name that was given for an identifier. -/
theorem lookup_foldl_emplace (names : List (Masks.FidType × Bytes)) (nameById : NameById)
    (id : Masks.FidType) :
    (names.foldl (fun nameById v => nameById.emplace v.1 v.2) nameById).lookup id =
      (nameById.lookup id).or ((names.find? fun v => v.1 = id).map Prod.snd) := by
  induction names generalizing nameById with
  | nil => simp
  | cons v names ih =>
      rw [List.foldl_cons, ih, NameById.lookup_emplace, Option.or_assoc]
      congr 1
      by_cases hid : v.1 = id
      · rw [if_pos hid, List.find?_cons, decide_eq_true hid]
        rfl
      · rw [if_neg hid, List.find?_cons, decide_eq_false hid, Option.none_or]

theorem find_of_nodup {before after : List (Masks.FidType × Bytes)} {v : Masks.FidType × Bytes}
    (hbefore : ∀ u ∈ before, u.1 ≠ v.1) :
    (before ++ v :: after).find? (fun u => u.1 = v.1) = some v := by
  rw [List.find?_append, List.find?_eq_none.mpr, Option.none_or, List.find?_cons_of_pos]
  · exact decide_eq_true rfl
  · intro u hu
    simpa using hbefore u hu

def namePairs (entries : List (Σ _ : Masks.FidType, Bytes)) : List (Masks.FidType × Bytes) :=
  entries.map fun entry => (entry.1, entry.2)

theorem dlookup_eq_find (entries : List (Σ _ : Masks.FidType, Bytes)) (id : Masks.FidType) :
    entries.dlookup id = ((namePairs entries).find? fun v => v.1 = id).map Prod.snd := by
  induction entries with
  | nil => rfl
  | cons entry entries ih =>
      rw [namePairs, List.map_cons, List.find?_cons]
      by_cases hid : entry.1 = id
      · subst hid
        rw [decide_eq_true rfl]
        exact List.dlookup_cons_eq _ _ _
      · rw [decide_eq_false hid, List.dlookup_cons_ne _ _ (Ne.symm hid), ih]
        rfl

section Files

variable {boost : PropertyTree} (hboost : boost.Correct)
include hboost

theorem deserializeName_nameText (entry : Σ _ : Masks.FidType, Bytes) :
    deserializeName boost (nameText entry).value = some (entry.1, entry.2) := by
  rw [deserializeName, getUInt_of_child hboost entry.1.toNat_lt rfl,
    @getString_of_child _ hboost _ _ entry.2 rfl]
  simp

/-- A misread entry has its own identifier, which is in front of the name, and another name. -/
theorem deserializeName_of_misread {entry : Σ _ : Masks.FidType, Bytes} {tree : Json.Tree}
    (hmisread : (nameText entry).Misread tree) {v : Masks.FidType × Bytes}
    (hv : deserializeName boost tree = some v) : v.1 = entry.1 ∧ v.2 ≠ entry.2 := by
  have hone : MisreadOne ((nameFields entry).map Field.member) tree.children := hmisread
  simp only [deserializeName, Option.bind_eq_bind, Option.bind_eq_some_iff, Option.pure_def,
    Option.some_inj] at hv
  obtain ⟨id, hid, name, hname, rfl⟩ := hv
  cases hchildren : tree.children with
  | nil =>
      rw [hchildren] at hone
      exact hone.elim
  | cons first others =>
      rw [hchildren] at hone
      obtain ⟨-, hfirst⟩ | ⟨rfl, hone⟩ := hone
      · exact hfirst.elim
      cases others with
      | nil => exact hone.elim
      | cons second others =>
          obtain ⟨hkey, hsecond⟩ | ⟨-, hone⟩ := hone
          · have hfirst : tree.child (ascii "id") = some (number entry.1.toNat).value := by
              rw [Tree.child, hchildren]
              rfl
            have hchild : tree.child (ascii "name") = some second.2 := by
              rw [Tree.child, hchildren, List.find?_cons_of_neg, List.find?_cons_of_pos]
              · rfl
              · exact decide_eq_true hkey
              · exact fun h => absurd (of_decide_eq_true h) (by decide : ascii "id" ≠ ascii "name")
            rw [getUInt_of_child hboost entry.1.toNat_lt hfirst, Option.some_inj] at hid
            rw [getString, hboost.getChild, hchild, Option.map_some, Option.some_inj] at hname
            subst hid hname
            refine ⟨UInt64.ofNat_toNat, fun h => hsecond (.inl ?_)⟩
            exact h ▸ List.prefix_rfl
          · exact hone.elim

theorem ofTree_filesText (mof : MetaOnFilesItem) :
    ∃ y, MetaOnFilesItem.ofTree boost (filesText mof).value = some y ∧ y.count = mof.count ∧
      y.totalSize = mof.totalSize ∧ ∀ id, y.nameById.lookup id = mof.nameById.lookup id := by
  have hlocs : boost.getChild (filesText mof).value (ascii "name_by_id") =
      some (array (mof.nameById.entries.map nameText)).value :=
    hboost.getChild _ _
  have hnames := mapM_decode (deserializeName_nameText hboost) mof.nameById.entries
  refine ⟨⟨mof.count, mof.totalSize,
    (namePairs mof.nameById.entries).foldl (fun nameById v => nameById.emplace v.1 v.2) ∅⟩,
    ?_, rfl, rfl, ?_⟩
  · rw [MetaOnFilesItem.ofTree, getUInt_of_child hboost mof.count.toNat_lt rfl,
      getUInt_of_child hboost mof.totalSize.isLt rfl, hlocs]
    simp [value_array, List.map_map, Function.comp_def, hnames, namePairs]
  · intro id
    rw [lookup_foldl_emplace, AList.lookup_empty, Option.none_or]
    exact (dlookup_eq_find mof.nameById.entries id).symm

theorem not_ok_of_misread_files {mof : MetaOnFilesItem} {tree : Json.Tree}
    (hmisread : (filesText mof).Misread tree) {y : MetaOnFilesItem}
    (hy : MetaOnFilesItem.ofTree boost tree = some y) :
    ¬∀ id, y.nameById.lookup id = mof.nameById.lookup id := by
  intro hlookup
  obtain ⟨field, hmem, read, hchild, hread⟩ := exists_misread_field (keyed_filesFields mof) hmisread
  simp only [MetaOnFilesItem.ofTree, Option.bind_eq_bind, Option.bind_eq_some_iff, Option.pure_def,
    Option.some_inj] at hy
  obtain ⟨_, -, _, -, locs, hlocs, names, hnames, rfl⟩ := hy
  simp only [filesFields, List.mem_cons, List.not_mem_nil, or_false] at hmem
  rcases hmem with rfl | rfl | rfl
  · exact hread
  · exact hread
  · rw [hboost.getChild, hchild, Option.some_inj] at hlocs
    subst hlocs
    obtain ⟨entries₁, entry, entries₂, read', v, others, hentries, hread', hv, rfl⟩ :=
      exists_misread_entry (deserializeName_nameText hboost) hread hnames
    obtain ⟨hid, hname⟩ := deserializeName_of_misread hboost hread' hv
    -- No entry in front has the identifier, so the wrong name is the one that is found.
    have hnodup := mof.nameById.nodupKeys
    rw [hentries, List.NodupKeys, List.keys, List.map_append, List.map_cons] at hnodup
    have hbefore : ∀ u ∈ namePairs entries₁, u.1 ≠ entry.1 := by
      intro u hu hsame
      obtain ⟨entry', hmem', rfl⟩ := List.mem_map.mp hu
      refine List.disjoint_of_nodup_append hnodup (List.mem_map_of_mem hmem') ?_
      rw [← hsame]
      exact List.mem_cons_self
    have hfound := hlookup entry.1
    rw [lookup_foldl_emplace, AList.lookup_empty, Option.none_or, ← namePairs, ← hid,
      find_of_nodup (hid ▸ hbefore), hid, AList.lookup, hentries, dlookup_eq_find, namePairs,
      List.map_append, List.map_cons, ← namePairs,
      @find_of_nodup _ _ (entry.1, entry.2) hbefore] at hfound
    exact hname (Option.some_inj.mp hfound)

end Files

/-! ### All items -/

inductive Item where
  | part (part : PartItem)
  | file (fi : FileItem)
  | master (mi : MasterItem)
  | storage (si : StorageItem)
  | files (mof : MetaOnFilesItem)
  | storages (mos : MetaOnStoragesItem)

/-- The same record of the files, with the maps compared as maps. -/
def MetaOnFilesItem.Same (y mof : MetaOnFilesItem) : Prop :=
  y.count = mof.count ∧ y.totalSize = mof.totalSize ∧
    ∀ id, y.nameById.lookup id = mof.nameById.lookup id

/-- Deserializing what the serializer made gives the item back. -/
def Item.RoundTrips (boost : PropertyTree) : Item → Prop
  | .part it => PartItem.deserialize boost it.serialize = some it
  | .file fi => FileItem.deserialize boost fi.serialize = some fi
  | .master mi => MasterItem.deserialize boost mi.serialize = some mi
  | .storage si => StorageItem.deserialize boost si.serialize = some si
  | .files mof => ∃ y, mof.serialize.bind (MetaOnFilesItem.deserialize boost) = some y ∧ y.Same mof
  | .storages mos => MetaOnStoragesItem.deserialize boost mos.serialize = some mos

/-- The strings of the item are plain, and a record of the files names one. -/
def Item.Plain : Item → Prop
  | .part it => PlainString it.hash.toList
  | .file fi => PlainString fi.name ∧ PlainString fi.hash.toList ∧
      ∀ it ∈ fi.parts, PlainString it.hash.toList
  | .master mi => PlainString mi.hostAddr
  | .storage si => PlainString si.hostAddr
  | .files mof => mof.nameById.entries ≠ [] ∧ ∀ entry ∈ mof.nameById.entries, PlainString entry.2
  | .storages _ => True

section All

variable {boost : PropertyTree} (hboost : boost.Correct)
include hboost

/-- A text that decodes to `x` when it is read as it was meant, and not when it is misread. -/
theorem deserialize_iff {α : Type} {text : Text} {ofTree : Json.Tree → Option α} {x : α}
    (hdecode : ofTree text.value = some x)
    (hmisread : ∀ tree, text.Misread tree → ofTree tree ≠ some x) :
    deserialize boost ofTree text.bytes = some x ↔ ∀ s ∈ text.strings, PlainString s := by
  have hiff := @roundTrip_iff _ hboost _ text ofTree (· = x) ⟨x, hdecode, rfl⟩ ?_
  · rw [← hiff]
    constructor
    · intro h
      exact ⟨x, h, rfl⟩
    · rintro ⟨y, h, rfl⟩
      exact h
  · rintro tree y hwrong hy rfl
    exact hmisread tree hwrong hy

theorem roundTrips_part (part : PartItem) :
    (Item.part part).RoundTrips boost ↔ (Item.part part).Plain := by
  simp only [Item.RoundTrips, Item.Plain, PartItem.deserialize]
  rw [← bytes_partText, deserialize_iff hboost (ofTree_partText hboost part)
    fun _ => ofTree_ne_of_misread hboost, strings_partText, List.forall_mem_singleton]

theorem roundTrips_file (fi : FileItem) :
    (Item.file fi).RoundTrips boost ↔ (Item.file fi).Plain := by
  simp only [Item.RoundTrips, Item.Plain, FileItem.deserialize]
  rw [← bytes_fileText, deserialize_iff hboost (ofTree_fileText hboost fi)
    fun _ => ofTree_ne_of_misread_file hboost, strings_fileText, List.forall_mem_cons,
    List.forall_mem_cons, List.forall_mem_map]

theorem roundTrips_master (mi : MasterItem) :
    (Item.master mi).RoundTrips boost ↔ (Item.master mi).Plain := by
  simp only [Item.RoundTrips, Item.Plain, MasterItem.deserialize]
  rw [← bytes_masterText, deserialize_iff hboost
    (ofTree_masterText hboost mi) fun _ => ofTree_ne_of_misread_master hboost]
  exact List.forall_mem_singleton

theorem roundTrips_storage (si : StorageItem) :
    (Item.storage si).RoundTrips boost ↔ (Item.storage si).Plain := by
  simp only [Item.RoundTrips, Item.Plain, StorageItem.deserialize]
  rw [← bytes_storageText, deserialize_iff hboost
    (ofTree_storageText hboost si) fun _ => ofTree_ne_of_misread_storage hboost]
  exact List.forall_mem_singleton

theorem roundTrips_storages (mos : MetaOnStoragesItem) :
    (Item.storages mos).RoundTrips boost ↔ (Item.storages mos).Plain := by
  simp only [Item.RoundTrips, Item.Plain, MetaOnStoragesItem.deserialize]
  rw [← bytes_storagesText, deserialize_iff hboost
    (ofTree_storagesText hboost mos) fun _ hmisread => (not_misread_storagesText hmisread).elim]
  exact iff_of_true nofun trivial

theorem roundTrips_files (mof : MetaOnFilesItem) :
    (Item.files mof).RoundTrips boost ↔ (Item.files mof).Plain := by
  simp only [Item.RoundTrips, Item.Plain, MetaOnFilesItem.deserialize]
  rw [serialize_files]
  by_cases hnil : mof.nameById.entries = []
  · rw [if_pos hnil]
    constructor
    · rintro ⟨y, hy, -⟩
      cases hy
    · exact fun h => absurd hnil h.1
  · rw [if_neg hnil, Option.bind_some, and_iff_right hnil]
    have hiff := @roundTrip_iff _ hboost _ (filesText mof) (MetaOnFilesItem.ofTree boost)
      (fun y => y.Same mof) (ofTree_filesText hboost mof) fun tree y hmisread hy hsame =>
        not_ok_of_misread_files hboost hmisread hy hsame.2.2
    rw [strings_filesText, List.forall_mem_map] at hiff
    exact hiff

/-- **Which items survive.** With a correct property tree library an item is deserialized to itself
exactly when its strings are plain and, for the record of the files, some file is in it. -/
theorem itemRoundTrips_iff (item : Item) : item.RoundTrips boost ↔ item.Plain := by
  cases item with
  | part part => exact roundTrips_part hboost part
  | file fi => exact roundTrips_file hboost fi
  | master mi => exact roundTrips_master hboost mi
  | storage si => exact roundTrips_storage hboost si
  | files mof => exact roundTrips_files hboost mof
  | storages mos => exact roundTrips_storages hboost mos

end All

def referenceTree : PropertyTree where
  readJson := Json.read
  getChild := Tree.child
  getInteger bits numeral := (Decimal.read numeral).filter (· < 2 ^ bits)
  getBool numeral :=
    if numeral = Decimal.digits 1 then some true
    else if numeral = Decimal.digits 0 then some false else none

theorem correct_referenceTree : referenceTree.Correct where
  readJson _ := rfl
  getChild _ _ := rfl
  getInteger bits n hn := by
    simp only [referenceTree, Decimal.read_digits, Option.filter_some, decide_eq_true hn, if_true]
  getBool b := by cases b <;> rfl

theorem roundTrips_loopback :
    (Item.master ⟨1, ascii "127.0.0.1"⟩).RoundTrips referenceTree :=
  (itemRoundTrips_iff correct_referenceTree _).mpr ⟨Utf8.valid_of_ascii (by decide), by decide⟩

/-- A file whose name has a quote in it does not survive, nor does the record of no files. -/
theorem not_roundTrips_quote_empty :
    ¬(Item.file ⟨0, ascii "\"", 0, 0, 0, blankHash, false, []⟩).RoundTrips referenceTree ∧
      ¬(Item.files ⟨0, 0, ∅⟩).RoundTrips referenceTree := by
  rw [roundTrips_file correct_referenceTree, roundTrips_files correct_referenceTree]
  constructor
  · intro hplain
    exact absurd (hplain.1.2 quote (by decide)) (by decide)
  · intro hplain
    exact hplain.1 rfl

end Mp2p.DB
