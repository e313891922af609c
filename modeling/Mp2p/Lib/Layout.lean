import Mathlib.Data.Vector.Defs
import Mp2p.Lib.LittleEndian
import Mp2p.Lib.Window

/-!
# Packed layouts

The memory image of a value of fixed size and the value a range of bytes overlays to. A record is
packed: its image is the images of its fields one after the other, so a layout of a record is built
from a layout of the product of its fields (`Layout.ofEquiv`), and the one law a layout carries,
that an image overlays back to the value wherever it lies, is inherited.
-/

/-- Values of a fixed size in memory. The overlay of a range that leaves the buffer has no value. -/
class Layout (α : Type) where
  size : ℕ
  image : α → List UInt8
  overlay : List UInt8 → ℕ → Option α
  length_image : ∀ x, (image x).length = size
  overlay_image : ∀ (before : List UInt8) (x : α) (after : List UInt8),
    overlay (before ++ (image x ++ after)) before.length = some x

namespace Layout

theorem read_append (before data after : List UInt8) :
    Window.read (before ++ (data ++ after)) before.length data.length = some data := by
  rw [Window.read_eq_some_iff]
  refine ⟨by simp only [List.length_append]; omega, ?_⟩
  rw [List.drop_left, List.take_left]

theorem image_injective {α : Type} [Layout α] : Function.Injective (image : α → List UInt8) := by
  intro x y h
  have hx := overlay_image [] x []
  rw [h, overlay_image [] y [], Option.some_inj] at hx
  exact hx.symm

section Integers

variable {α : Type} (w : ℕ) (toNat : α → ℕ) (ofNat : ℕ → α)

abbrev ofNatWidth (hlt : ∀ x, toNat x < 256 ^ w) (hof : ∀ x, ofNat (toNat x) = x) : Layout α where
  size := w
  image x := LittleEndian.encode w (toNat x)
  overlay body off := (Window.read body off w).map fun data => ofNat (LittleEndian.decode data)
  length_image x := LittleEndian.length_encode w (toNat x)
  overlay_image before x after := by
    have h := read_append before (LittleEndian.encode w (toNat x)) after
    rw [LittleEndian.length_encode] at h
    rw [h, Option.map_some, LittleEndian.decode_encode (hlt x), hof]

end Integers

instance : Layout UInt8 := ofNatWidth 1 UInt8.toNat UInt8.ofNat UInt8.toNat_lt fun _ => by simp
instance : Layout UInt16 := ofNatWidth 2 UInt16.toNat UInt16.ofNat UInt16.toNat_lt fun _ => by simp
instance : Layout UInt32 := ofNatWidth 4 UInt32.toNat UInt32.ofNat UInt32.toNat_lt fun _ => by simp
instance : Layout UInt64 := ofNatWidth 8 UInt64.toNat UInt64.ofNat UInt64.toNat_lt fun _ => by simp

instance (n : ℕ) : Layout (List.Vector UInt8 n) where
  size := n
  image v := v.toList
  overlay body off :=
    if h : off + n ≤ body.length then
      some ⟨(body.drop off).take n, by simp only [List.length_take, List.length_drop]; omega⟩
    else none
  length_image v := v.toList_length
  overlay_image before v after := by
    have hlen : v.toList.length = n := v.toList_length
    rw [dif_pos (by simp only [List.length_append, hlen]; omega)]
    refine congrArg some (Subtype.ext ?_)
    show ((before ++ (v.toList ++ after)).drop before.length).take n = v.toList
    rw [List.drop_left, List.take_left' hlen]

variable {α β : Type} [Layout α] [Layout β]

instance : Layout (α × β) where
  size := size α + size β
  image x := image x.1 ++ image x.2
  overlay body off :=
    (overlay body off).bind fun a => (overlay body (off + size α)).map fun b => (a, b)
  length_image x := by rw [List.length_append, length_image, length_image]
  overlay_image before x after := by
    have hfst := overlay_image before x.1 (image x.2 ++ after)
    have hsnd := overlay_image (before ++ image x.1) x.2 after
    rw [List.length_append, length_image, List.append_assoc] at hsnd
    rw [List.append_assoc, hfst, Option.bind_some, hsnd, Option.map_some]

abbrev ofEquiv {γ : Type} (e : γ ≃ α) : Layout γ where
  size := size α
  image x := image (e x)
  overlay body off := (overlay body off).map e.symm
  length_image x := length_image (e x)
  overlay_image before x after := by rw [overlay_image, Option.map_some, e.symm_apply_apply]

theorem overlay_prod_eq_some_iff {body : List UInt8} {off : ℕ} {x : α × β} :
    overlay body off = some x ↔
      overlay body off = some x.1 ∧ overlay body (off + size α) = some x.2 := by
  obtain ⟨a, b⟩ := x
  change ((overlay body off).bind fun a => (overlay body (off + size α)).map fun b => (a, b)) =
    some (a, b) ↔ _
  simp only [Option.bind_eq_some_iff, Option.map_eq_some_iff, Prod.mk.injEq]
  constructor
  · rintro ⟨_, ha, _, hb, rfl, rfl⟩
    exact ⟨ha, hb⟩
  · intro h
    exact ⟨a, h.1, b, h.2, rfl, rfl⟩

theorem overlay_image_append (x : α) (after : List UInt8) :
    overlay (image x ++ after) 0 = some x :=
  overlay_image [] x after

def imageList (xs : List α) : List UInt8 := xs.flatMap image

def overlayList (α : Type) [Layout α] (body : List UInt8) (off : ℕ) : ℕ → Option (List α)
  | 0 => some []
  | n + 1 =>
      (overlay body off).bind fun x =>
        (overlayList α body (off + size α) n).map fun rest => x :: rest

theorem length_imageList (xs : List α) : (imageList xs).length = xs.length * size α := by
  induction xs with
  | nil => simp [imageList]
  | cons x xs ih =>
      rw [imageList, List.flatMap_cons, List.length_append, length_image, ← imageList, ih,
        List.length_cons]
      ring

theorem overlayList_imageList (before : List UInt8) (xs : List α) (after : List UInt8) :
    overlayList α (before ++ (imageList xs ++ after)) before.length xs.length = some xs := by
  induction xs generalizing before with
  | nil => rfl
  | cons x xs ih =>
      have hrest := ih (before ++ image x)
      rw [List.length_append, length_image, List.append_assoc] at hrest
      rw [imageList, List.flatMap_cons, ← imageList, List.append_assoc, List.length_cons, overlayList,
        overlay_image, Option.bind_some, hrest, Option.map_some]

/-! ### What a buffer must hold -/

/-- A value overlays a range exactly when the range is inside the buffer. -/
class Exact (α : Type) [Layout α] : Prop where
  isSome_overlay (α) (body : List UInt8) (off : ℕ) :
    (overlay (α := α) body off).isSome ↔ off + size α ≤ body.length

export Exact (isSome_overlay)

theorem isSome_map_read {γ : Type} (body : List UInt8) (off w : ℕ) (f : List UInt8 → γ) :
    ((Window.read body off w).map f).isSome ↔ off + w ≤ body.length := by
  rw [Option.isSome_map, Window.read]
  split_ifs with h
  · exact iff_of_true rfl h
  · exact iff_of_false nofun h

instance : Exact UInt8 := ⟨fun body off => isSome_map_read body off 1 _⟩
instance : Exact UInt16 := ⟨fun body off => isSome_map_read body off 2 _⟩
instance : Exact UInt32 := ⟨fun body off => isSome_map_read body off 4 _⟩
instance : Exact UInt64 := ⟨fun body off => isSome_map_read body off 8 _⟩

instance (n : ℕ) : Exact (List.Vector UInt8 n) where
  isSome_overlay body off := by
    change (if h : off + n ≤ body.length then some _ else none : Option (List.Vector UInt8 n)).isSome
      ↔ off + n ≤ body.length
    split_ifs with h
    · exact iff_of_true rfl h
    · exact iff_of_false nofun h

instance [Exact α] [Exact β] : Exact (α × β) where
  isSome_overlay body off := by
    have hfst := isSome_overlay α body off
    have hsnd := isSome_overlay β body (off + size α)
    change ((overlay body off).bind fun a => (overlay body (off + size α)).map fun b =>
      (a, b)).isSome ↔ off + (size α + size β) ≤ body.length
    rw [← Nat.add_assoc, ← hsnd]
    cases hoverlay : (overlay body off : Option α) with
    | none =>
        rw [hoverlay] at hfst
        refine iff_of_false nofun fun hread => ?_
        have hlength := hsnd.mp hread
        exact absurd (hfst.mpr (by omega)) nofun
    | some a => rw [Option.bind_some, Option.isSome_map]

theorem eq_of_overlay_take [Exact α] (before : List UInt8) {after : List UInt8} {x y : α} {n : ℕ}
    (h : overlay (before ++ (image x ++ after).take n) before.length = some y) :
    size α ≤ n ∧ y = x := by
  have hsize := (isSome_overlay α _ _).mp (by rw [h]; rfl)
  rw [List.length_append, List.length_take, List.length_append, length_image] at hsize
  have hle : size α ≤ n := by omega
  rw [List.take_append, length_image, List.take_of_length_le (by rwa [length_image]),
    overlay_image, Option.some_inj] at h
  exact ⟨hle, h.symm⟩

/-- What can be read of an array that was cut off is the front of it. -/
theorem isPrefix_of_overlayList_take [Exact α] (hpos : 0 < size α) {before : List UInt8}
    {xs ys : List α} {m n : ℕ}
    (h : overlayList α (before ++ (imageList xs).take m) before.length n = some ys) :
    ys <+: xs := by
  induction n generalizing before xs ys m with
  | zero =>
      rw [overlayList, Option.some_inj] at h
      exact h ▸ List.nil_prefix
  | succ n ih =>
      obtain ⟨y, hy, hrest⟩ := Option.bind_eq_some_iff.mp h
      obtain ⟨rest, hread, rfl⟩ := Option.map_eq_some_iff.mp hrest
      cases xs with
      | nil =>
          have hsize := (isSome_overlay α _ _).mp (by rw [hy]; rfl)
          rw [imageList, List.flatMap_nil, List.take_nil, List.append_nil] at hsize
          omega
      | cons x xs =>
          rw [imageList, List.flatMap_cons] at hy hread
          obtain ⟨hle, rfl⟩ := eq_of_overlay_take before hy
          rw [List.take_append, length_image, List.take_of_length_le (by rwa [length_image]),
            ← List.append_assoc, ← length_image y, ← List.length_append] at hread
          exact List.cons_prefix_cons.mpr ⟨rfl, ih hread⟩

theorem exact_ofEquiv [Exact α] {γ : Type} (e : γ ≃ α) : @Exact γ (ofEquiv e) := by
  let := ofEquiv e
  constructor
  intro body off
  change ((overlay body off).map e.symm).isSome ↔ _
  rw [Option.isSome_map]
  exact isSome_overlay α body off

/-! ### Layouts without unused patterns -/

/-- Every string of the right size is the image of a value. -/
class Full (α : Type) [Layout α] : Prop where
  exists_image (α) : ∀ bytes, bytes.length = size α → ∃ x : α, image x = bytes

export Full (exists_image)

theorem full_ofNatWidth {γ : Type} {w : ℕ} {toNat : γ → ℕ} {ofNat : ℕ → γ}
    (hlt : ∀ x, toNat x < 256 ^ w) (hof : ∀ x, ofNat (toNat x) = x)
    (hto : ∀ n < 256 ^ w, toNat (ofNat n) = n) : @Full γ (ofNatWidth w toNat ofNat hlt hof) := by
  let := ofNatWidth w toNat ofNat hlt hof
  constructor
  intro bytes hbytes
  have hlength : bytes.length = w := hbytes
  refine ⟨ofNat (LittleEndian.decode bytes), ?_⟩
  change LittleEndian.encode w (toNat (ofNat (LittleEndian.decode bytes))) = bytes
  rw [hto _ (hlength ▸ LittleEndian.decode_lt bytes), ← hlength, LittleEndian.encode_decode]

instance : Full UInt8 :=
  full_ofNatWidth UInt8.toNat_lt (fun _ => by simp) fun _ hn => UInt8.toNat_ofNat_of_lt hn
instance : Full UInt32 :=
  full_ofNatWidth UInt32.toNat_lt (fun _ => by simp) fun _ hn => UInt32.toNat_ofNat_of_lt hn

instance [Full α] [Full β] : Full (α × β) where
  exists_image bytes hbytes := by
    have hlength : bytes.length = size α + size β := hbytes
    obtain ⟨a, ha⟩ := exists_image α (bytes.take (size α)) (by rw [List.length_take]; omega)
    obtain ⟨b, hb⟩ := exists_image β (bytes.drop (size α)) (by rw [List.length_drop]; omega)
    refine ⟨(a, b), ?_⟩
    change image a ++ image b = bytes
    rw [ha, hb, List.take_append_drop]

theorem full_ofEquiv [Full α] {γ : Type} (e : γ ≃ α) : @Full γ (ofEquiv e) := by
  let := ofEquiv e
  constructor
  intro bytes hbytes
  obtain ⟨x, hx⟩ := exists_image α bytes hbytes
  refine ⟨e.symm x, ?_⟩
  change image (e (e.symm x)) = bytes
  rw [e.apply_symm_apply, hx]

theorem exists_image_append [Full α] {bytes : List UInt8} (h : size α ≤ bytes.length) :
    ∃ (x : α) (rest : List UInt8), bytes = image x ++ rest := by
  obtain ⟨x, hx⟩ := exists_image α (bytes.take (size α)) (List.length_take_of_le h)
  exact ⟨x, bytes.drop (size α), by rw [hx, List.take_append_drop]⟩

end Layout
