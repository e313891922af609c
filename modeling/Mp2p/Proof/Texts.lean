import Mp2p.Lib.Spaced
import Mp2p.Master.Texts
import Mp2p.Proof.Serialization

/-!
# Texts that stand for records

A text stands for a record when every decoder makes of it what it would make of the record: its own
item of a text of its kind, and nothing of any other. So does what the serializers write of plain
items, and so do the texts the master puts into an empty database.
-/

namespace Mp2p.Texts

open Json DB Masks Utils.Misc

/-- What the decoders make of a tree and of a record is the same. -/
structure Matches (boost : PropertyTree) (pt : Json.Tree) (record : Record) : Prop where
  storageSizes : sizesOfTree boost pt = Coding.storageSizes? record
  storages : MetaOnStoragesItem.ofTree boost pt = Coding.storages? record
  files : Option.Rel MetaOnFilesItem.Same (MetaOnFilesItem.ofTree boost pt) (Coding.files? record)
  file : FileItem.ofTree boost pt = Coding.file? record
  storage : StorageItem.ofTree boost pt = Coding.storage? record

def Plain : Record → Prop
  | .storageSizes _ => True
  | .storages _ => True
  | .files mof => ∀ id name, mof.nameById.lookup id = some name → PlainString name
  | .file fi => (Item.file fi).Plain
  | .storage si => (Item.storage si).Plain

/-- The text stands for the record. -/
structure Represents (boost : PropertyTree) (text : Bytes) (record : Record) : Prop where
  reads : ∃ pt, boost.readJson text = some pt ∧ Matches boost pt record
  plain : Plain record

section Decode

variable {boost : PropertyTree} {text : Bytes} {record : Record}

theorem Represents.storageSizes (h : Represents boost text record) :
    deserialize boost (sizesOfTree boost) text = Coding.storageSizes? record := by
  obtain ⟨pt, hread, hmatches⟩ := h.reads
  rw [deserialize, hread]
  exact hmatches.storageSizes

theorem Represents.storages (h : Represents boost text record) :
    MetaOnStoragesItem.deserialize boost text = Coding.storages? record := by
  obtain ⟨pt, hread, hmatches⟩ := h.reads
  rw [MetaOnStoragesItem.deserialize, deserialize, hread]
  exact hmatches.storages

theorem Represents.files (h : Represents boost text record) :
    Option.Rel MetaOnFilesItem.Same (MetaOnFilesItem.deserialize boost text)
      (Coding.files? record) := by
  obtain ⟨pt, hread, hmatches⟩ := h.reads
  rw [MetaOnFilesItem.deserialize, deserialize, hread]
  exact hmatches.files

theorem Represents.file (h : Represents boost text record) :
    FileItem.deserialize boost text = Coding.file? record := by
  obtain ⟨pt, hread, hmatches⟩ := h.reads
  rw [FileItem.deserialize, deserialize, hread]
  exact hmatches.file

theorem Represents.storage (h : Represents boost text record) :
    StorageItem.deserialize boost text = Coding.storage? record := by
  obtain ⟨pt, hread, hmatches⟩ := h.reads
  rw [StorageItem.deserialize, deserialize, hread]
  exact hmatches.storage

end Decode

section Lacks

variable {boost : PropertyTree} (hboost : boost.Correct) {pt : Json.Tree}
include hboost

/-! ### A decoder that misses a key -/

theorem getUInt_of_lacks {key : Bytes} (h : pt.child key = none) (bits : ℕ) :
    getUInt boost bits pt key = none := by
  rw [getUInt, getString, hboost.getChild, h]
  rfl

theorem sizesOfTree_of_lacks (h : pt.child (ascii "values") = none) :
    sizesOfTree boost pt = none := by
  rw [sizesOfTree, hboost.getChild, h]
  rfl

theorem storagesOfTree_of_lacks_count (h : pt.child (ascii "count") = none) :
    MetaOnStoragesItem.ofTree boost pt = none := by
  rw [MetaOnStoragesItem.ofTree, getUInt_of_lacks hboost h]
  rfl

theorem storagesOfTree_of_lacks_space (h : pt.child (ascii "available_space") = none) :
    MetaOnStoragesItem.ofTree boost pt = none := by
  simp [MetaOnStoragesItem.ofTree, getUInt_of_lacks hboost h]

theorem filesOfTree_of_lacks (h : pt.child (ascii "total_size") = none) :
    MetaOnFilesItem.ofTree boost pt = none := by
  simp [MetaOnFilesItem.ofTree, getUInt_of_lacks hboost h]

theorem fileOfTree_of_lacks (h : pt.child (ascii "name") = none) :
    FileItem.ofTree boost pt = none := by
  simp [FileItem.ofTree, getString, hboost.getChild, h]

theorem storageOfTree_of_lacks (h : pt.child (ascii "host_addr") = none) :
    StorageItem.ofTree boost pt = none := by
  simp [StorageItem.ofTree, getString, hboost.getChild, h]

/-! ### What the serializers write -/

omit pt in
theorem readJson_of_plain {text : Text} (h : ∀ s ∈ text.strings, PlainString s) :
    boost.readJson text.bytes = some text.value := by
  rw [hboost.readJson]
  exact read_text text (fun s hs => (h s hs).2) fun s hs => (h s hs).1

omit pt

theorem represents_file {fi : FileItem} (hplain : (Item.file fi).Plain) :
    Represents boost fi.serialize (.file fi) where
  reads := by
    have hread : boost.readJson (fileText fi).bytes = some (fileText fi).value := by
      refine readJson_of_plain hboost ?_
      rw [strings_fileText, List.forall_mem_cons, List.forall_mem_cons, List.forall_mem_map]
      exact hplain
    rw [bytes_fileText] at hread
    refine ⟨_, hread, ?_, ?_, ?_, ofTree_fileText hboost fi, ?_⟩
    · exact sizesOfTree_of_lacks hboost rfl
    · exact storagesOfTree_of_lacks_count hboost rfl
    · rw [filesOfTree_of_lacks hboost rfl]
      exact .none
    · exact storageOfTree_of_lacks hboost rfl
  plain := hplain

theorem represents_storage {si : StorageItem} (hplain : (Item.storage si).Plain) :
    Represents boost si.serialize (.storage si) where
  reads := by
    have hread : boost.readJson (storageText si).bytes = some (storageText si).value :=
      readJson_of_plain hboost (List.forall_mem_singleton.mpr hplain)
    rw [bytes_storageText] at hread
    refine ⟨_, hread, ?_, ?_, ?_, ?_, ofTree_storageText hboost si⟩
    · exact sizesOfTree_of_lacks hboost rfl
    · exact storagesOfTree_of_lacks_count hboost rfl
    · rw [filesOfTree_of_lacks hboost rfl]
      exact .none
    · exact fileOfTree_of_lacks hboost rfl
  plain := hplain

theorem represents_storages (mos : MetaOnStoragesItem) :
    Represents boost mos.serialize (.storages mos) where
  reads := by
    have hread : boost.readJson (storagesText mos).bytes = some (storagesText mos).value :=
      readJson_of_plain hboost nofun
    rw [bytes_storagesText] at hread
    refine ⟨_, hread, ?_, ofTree_storagesText hboost mos, ?_, ?_, ?_⟩
    · exact sizesOfTree_of_lacks hboost rfl
    · rw [filesOfTree_of_lacks hboost rfl]
      exact .none
    · exact fileOfTree_of_lacks hboost rfl
    · exact storageOfTree_of_lacks hboost rfl
  plain := trivial

/-- The record of the files is written by its entries and read as a map. -/
theorem represents_files {mof' mof : MetaOnFilesItem} (hsame : mof'.Same mof)
    (hplain : Plain (.files mof)) (hne : mof'.nameById.entries ≠ []) :
    ∃ text, mof'.serialize = some text ∧ Represents boost text (.files mof) := by
  obtain ⟨hcount, htotal, hlookup⟩ := hsame
  have hread : boost.readJson (filesText mof').bytes = some (filesText mof').value := by
    refine readJson_of_plain hboost ?_
    rw [strings_filesText, List.forall_mem_map]
    intro entry hentry
    refine hplain entry.1 entry.2 ?_
    rw [← hlookup]
    exact AList.mem_lookup_iff.mpr hentry
  obtain ⟨mof'', hfiles, hcount', htotal', hlookup'⟩ := ofTree_filesText hboost mof'
  refine ⟨(filesText mof').bytes, by rw [serialize_files, if_neg hne],
    ⟨_, hread, ?_, ?_, ?_, ?_, ?_⟩, hplain⟩
  · exact sizesOfTree_of_lacks hboost rfl
  · exact storagesOfTree_of_lacks_space hboost rfl
  · rw [hfiles]
    exact .some ⟨hcount'.trans hcount, htotal'.trans htotal,
      fun id => (hlookup' id).trans (hlookup id)⟩
  · exact fileOfTree_of_lacks hboost rfl
  · exact storageOfTree_of_lacks hboost rfl

end Lacks

/-! ### The first texts -/

theorem separate_cons (first : Bytes) (rest : List Bytes) (separator : Bytes) :
    separate (first :: rest) separator = first ++ rest.flatMap fun text => separator ++ text := by
  induction rest generalizing first with
  | nil => exact (List.append_nil first).symm
  | cons second rest ih =>
      rw [separate, ih, List.flatMap_cons, List.append_assoc, List.append_assoc]

def keyOf (name : String)
    (hplain : (ascii name).all (fun byte => Json.Verbatim byte ∧ byte.toNat < 128) = true) : Key :=
  ⟨ascii name, fun byte hbyte => of_decide_eq_true (List.all_eq_true.mp hplain byte hbyte)⟩

def fileSizeKey : Key := keyOf "file_size" (by decide)
def nbPartKey : Key := keyOf "nb_part" (by decide)
def valuesKey : Key := keyOf "values" (by decide)
def countKey : Key := keyOf "count" (by decide)
def availableSpaceKey : Key := keyOf "available_space" (by decide)
def totalSizeKey : Key := keyOf "total_size" (by decide)
def nameByIdKey : Key := keyOf "name_by_id" (by decide)

def numeral (n : ℕ) : Json.Tree := .node (Decimal.digits n) []

def rowTree (value : FsizeType × PartnumType) : Json.Tree :=
  .node [] [(fileSizeKey.bytes, numeral value.1.toNat), (nbPartKey.bytes, numeral value.2.toNat)]

def sizesTree (values : List (FsizeType × PartnumType)) : Json.Tree :=
  .node [] [(valuesKey.bytes, .node [] (values.map fun value => ([], rowTree value)))]

def rowBytes (value : FsizeType × PartnumType) : Bytes :=
  beginObject ::
    (spacedBody [] (keyBytes fileSizeKey false ([0x20] ++ Decimal.digits value.1.toNat))
      [[0x20] ++ keyBytes nbPartKey false ([0x20] ++ Decimal.digits value.2.toNat)] [0x20] ++
    [endObject])

theorem sizeRow_eq (value : FsizeType × PartnumType) :
    sizeRow value = [0x0a, 0x20, 0x20] ++ rowBytes value := by
  simp only [sizeRow, rowBytes, spacedBody, commaBytes, keyBytes, List.append_assoc,
    List.flatMap_cons, List.flatMap_nil, List.nil_append, List.cons_append, Bool.false_eq_true,
    if_false]
  rfl

theorem opens_rowBytes (value : FsizeType × PartnumType) : Opens (rowBytes value) :=
  ⟨beginObject, _, rfl, by decide, by decide, by decide⟩

theorem opens_keyBytes (key : Key) (bytes : Bytes) : Opens (keyBytes key false bytes) :=
  ⟨quote, _, rfl, by decide, by decide, by decide⟩

theorem reads_numeral (key : Key) (n : ℕ) :
    Reads readMember (keyBytes key false (Decimal.digits n)) (key.bytes, numeral n) :=
  @reads_member [] _ _ (by decide) key (reads_digits n)

theorem reads_rowBytes (value : FsizeType × PartnumType) :
    Reads readValue (rowBytes value) (rowTree value) := by
  have hspace : Blank [0x20] := by decide
  refine reads_object (by decide) hspace (opens_keyBytes ..)
    (@reads_member [] _ _ (by decide) fileSizeKey (reads_blank hspace (reads_digits _)))
    (.cons ?_ .nil)
  exact reads_member hspace nbPartKey (reads_blank hspace (reads_digits _))

/-- The text of a table that has rows. -/
def sizesBytes (first : FsizeType × PartnumType) (rest : List (FsizeType × PartnumType)) : Bytes :=
  beginObject ::
    (spacedBody [0x20] (keyBytes valuesKey false ([0x20] ++ (beginArray ::
      (spacedBody [0x0a, 0x20, 0x20] (rowBytes first) (rest.map sizeRow) [0x0a] ++
        [endArray])))) [] [] ++ [endObject])

theorem sizesBytes_eq (first : FsizeType × PartnumType) (rest : List (FsizeType × PartnumType)) :
    ascii "\x7b \"values\": [" ++ separate ((first :: rest).map sizeRow) (ascii ",") ++
      ascii "\n]\x7d\n" = sizesBytes first rest ++ [0x0a] := by
  rw [List.map_cons, separate_cons, sizeRow_eq]
  simp only [sizesBytes, spacedBody, commaBytes, keyBytes, List.append_assoc, List.flatMap_nil,
    List.nil_append, List.cons_append, Bool.false_eq_true, if_false]
  rfl

theorem reads_sizesBytes (first : FsizeType × PartnumType)
    (rest : List (FsizeType × PartnumType)) :
    Reads readValue (sizesBytes first rest) (sizesTree (first :: rest)) := by
  have hrow (value : FsizeType × PartnumType) :
      Reads readElement (sizeRow value) ([], rowTree value) := by
    rw [sizeRow_eq]
    exact reads_element (reads_blank (by decide) (reads_rowBytes value))
  have hrows : List.Forall₂ (Reads readElement) (rest.map sizeRow)
      (rest.map fun value => (([] : Bytes), rowTree value)) := by
    rw [List.forall₂_map_left_iff, List.forall₂_map_right_iff, List.forall₂_same]
    exact fun value _ => hrow value
  refine reads_object (by decide) (by decide) (opens_keyBytes ..)
    (@reads_member [] _ _ (by decide) valuesKey (reads_blank (by decide) ?_)) .nil
  exact reads_array (by decide) (by decide) (opens_rowBytes first)
    (reads_element (reads_rowBytes first)) hrows

theorem ascii_lt_of_digits (n : ℕ) : ∀ byte ∈ Decimal.digits n, byte.toNat < 128 := by
  intro byte hbyte
  have := (Decimal.isDigit_of_mem_digits hbyte).2
  omega

/-- A table is written in ASCII. -/
theorem valid_sizesBytes (first : FsizeType × PartnumType)
    (rest : List (FsizeType × PartnumType)) : Utf8.Valid (sizesBytes first rest ++ [0x0a]) := by
  have hrow (value : FsizeType × PartnumType) : ∀ byte ∈ sizeRow value, byte.toNat < 128 := by
    simp only [sizeRow, List.forall_mem_append]
    exact ⟨⟨⟨⟨by decide, ascii_lt_of_digits _⟩, by decide⟩, ascii_lt_of_digits _⟩, by decide⟩
  refine Utf8.valid_of_ascii ?_
  rw [← sizesBytes_eq, List.forall_mem_append, List.forall_mem_append]
  refine ⟨⟨by decide, ?_⟩, by decide⟩
  rw [List.map_cons, separate_cons, List.forall_mem_append]
  refine ⟨hrow _, fun byte hbyte => ?_⟩
  obtain ⟨text, htext, hbyte⟩ := List.mem_flatMap.mp hbyte
  obtain ⟨value, -, rfl⟩ := List.mem_map.mp htext
  rcases List.mem_append.mp hbyte with hbyte | hbyte
  · exact (by decide : ∀ byte ∈ ascii ",", byte.toNat < 128) byte hbyte
  · exact hrow value byte hbyte

theorem read_sizesBytes (first : FsizeType × PartnumType)
    (rest : List (FsizeType × PartnumType)) :
    Json.read (sizesBytes first rest ++ [0x0a]) = some (sizesTree (first :: rest)) :=
  read_of_reads (reads_sizesBytes _ _) (by decide) (valid_sizesBytes first rest)

def storagesTree : Json.Tree :=
  .node [] [(countKey.bytes, numeral 0), (availableSpaceKey.bytes, numeral 0)]

def filesTree : Json.Tree :=
  .node [] [(countKey.bytes, numeral 0), (totalSizeKey.bytes, numeral 0),
    (nameByIdKey.bytes, .node [] [])]

theorem read_storagesJson : Json.read storagesJson = some storagesTree := by
  have hreads : Reads readValue storagesJson storagesTree :=
    @reads_object [] [] _ _ _ _ (by decide) (by decide) (opens_keyBytes ..)
      (reads_numeral countKey 0)
      (.cons (@reads_member [0x20] _ _ (by decide) availableSpaceKey (reads_digits 0)) .nil)
  have hread := @read_of_reads _ [] _ hreads (by decide)
    (Utf8.valid_of_ascii (by decide))
  rwa [List.append_nil] at hread

theorem read_filesJson : Json.read filesJson = some filesTree := by
  have hspace : Blank [0x20] := by decide
  have hreads : Reads readValue filesJson filesTree :=
    @reads_object [] [] _ _ _ _ (by decide) (by decide) (opens_keyBytes ..)
      (reads_numeral countKey 0)
      (.cons (@reads_member [0x20] _ _ hspace totalSizeKey (reads_digits 0))
        (.cons (@reads_member [0x20] _ _ hspace nameByIdKey reads_emptyArray) .nil))
  have hread := @read_of_reads _ [] _ hreads (by decide)
    (Utf8.valid_of_ascii (by decide))
  rwa [List.append_nil] at hread

section First

variable {boost : PropertyTree} (hboost : boost.Correct)
include hboost

theorem getUInt_of_numeral {pt : Json.Tree} {key : Bytes} {bits n : ℕ} (hn : n < 2 ^ bits)
    (hchild : pt.child key = some (numeral n)) : getUInt boost bits pt key = some n :=
  getUInt_of_child hboost hn hchild

theorem sizeOfTree_rowTree (value : FsizeType × PartnumType) :
    sizeOfTree boost (rowTree value) = some value := by
  rw [sizeOfTree, getUInt_of_numeral hboost value.1.toNat_lt rfl,
    getUInt_of_numeral hboost value.2.toNat_lt rfl]
  simp

theorem sizesOfTree_sizesTree (values : List (FsizeType × PartnumType)) :
    sizesOfTree boost (sizesTree values) = some values := by
  have hchild : boost.getChild (sizesTree values) (ascii "values") =
      some (.node [] (values.map fun value => ([], rowTree value))) := hboost.getChild _ _
  have hvalues := @mapM_map_some _ _ _ (fun it : Bytes × Json.Tree => sizeOfTree boost it.2)
    (fun value => ([], rowTree value)) id values fun value _ => sizeOfTree_rowTree hboost value
  rw [List.map_id] at hvalues
  rw [sizesOfTree, hchild]
  exact hvalues

theorem represents_sizesBytes (first : FsizeType × PartnumType)
    (rest : List (FsizeType × PartnumType)) :
    Represents boost (sizesBytes first rest ++ [0x0a]) (.storageSizes (first :: rest)) where
  reads := by
    refine ⟨_, (hboost.readJson _).trans (read_sizesBytes first rest), ?_, ?_, ?_, ?_, ?_⟩
    · exact sizesOfTree_sizesTree hboost _
    · exact storagesOfTree_of_lacks_count hboost rfl
    · rw [filesOfTree_of_lacks hboost rfl]
      exact .none
    · exact fileOfTree_of_lacks hboost rfl
    · exact storageOfTree_of_lacks hboost rfl
  plain := trivial

theorem represents_storageSizesJson :
    Represents boost storageSizesJson (.storageSizes Master.storageSizes) := by
  rw [storageSizesJson, Master.storageSizes, sizesBytes_eq]
  exact represents_sizesBytes hboost _ _

theorem represents_storagesJson : Represents boost storagesJson (.storages ⟨0, 0⟩) where
  reads := by
    refine ⟨_, (hboost.readJson _).trans read_storagesJson, ?_, ?_, ?_, ?_, ?_⟩
    · exact sizesOfTree_of_lacks hboost rfl
    · rw [MetaOnStoragesItem.ofTree, getUInt_of_numeral hboost (by decide) rfl,
        getUInt_of_numeral hboost (by decide) rfl]
      rfl
    · rw [filesOfTree_of_lacks hboost rfl]
      exact .none
    · exact fileOfTree_of_lacks hboost rfl
    · exact storageOfTree_of_lacks hboost rfl
  plain := trivial

theorem represents_filesJson : Represents boost filesJson (.files ⟨0, 0, ∅⟩) where
  reads := by
    have hchild : boost.getChild filesTree (ascii "name_by_id") = some (.node [] []) :=
      hboost.getChild _ _
    refine ⟨_, (hboost.readJson _).trans read_filesJson, ?_, ?_, ?_, ?_, ?_⟩
    · exact sizesOfTree_of_lacks hboost rfl
    · exact storagesOfTree_of_lacks_space hboost rfl
    · rw [MetaOnFilesItem.ofTree, getUInt_of_numeral hboost (by decide) rfl,
        getUInt_of_numeral hboost (by decide) rfl, hchild]
      exact .some ⟨rfl, rfl, fun _ => rfl⟩
    · exact fileOfTree_of_lacks hboost rfl
    · exact storageOfTree_of_lacks hboost rfl
  plain := by
    intro id name hname
    rw [AList.lookup_empty] at hname
    cases hname

end First

end Mp2p.Texts
