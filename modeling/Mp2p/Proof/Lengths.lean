import Mp2p.Network.Session
import Mp2p.Storage.Callbacks

/-!
# How much of a body a handler reads

A handler overlays a struct on the body, and some read a tail up to the size of the packet. On a
delivered packet each read succeeds exactly when the body is as long as what is read, and a tail is
then what follows the struct.
-/

namespace Mp2p

open Masks Network

instance : Layout.Exact PartId := Layout.exact_ofEquiv (α := FidType × PartnumType) _
instance : Layout.Exact CM.UpReq := Layout.exact_ofEquiv (α := FsizeType × RdcyType) _
instance : Layout.Exact CS.UpAct := Layout.exact_ofEquiv (α := PartId × Sha1Type) _
instance : Layout.Exact CS.DownAct := Layout.exact_ofEquiv (α := PartId) _
instance : Layout.Exact SM.IdReq := Layout.exact_ofEquiv (α := PortType × AvspaceType) _

section Reads

variable {packet : Packet}

theorem isSome_overlay_front (hdelivered : Delivered packet) (α : Type) [Layout α]
    [Layout.Exact α] (off : ℕ) : (Layout.overlay (α := α) packet.front off).isSome ↔
      off + sizeof α ≤ packet.sizeGet.toNat := by
  rw [Layout.isSome_overlay, hdelivered]

theorem toNat_tailSize {size : ℕ} (hsize : size ≤ packet.sizeGet.toNat) :
    (packet.sizeT - UInt64.ofNat size).toNat = packet.sizeGet.toNat - size := by
  have hlt := packet.sizeGet.toNat_lt
  have hofNat : (UInt64.ofNat size).toNat = size := by
    rw [UInt64.toNat_ofNat', Nat.mod_eq_of_lt (by omega)]
  have hsizeT : packet.sizeT.toNat = packet.sizeGet.toNat := UInt32.toNat_toUInt64 _
  rw [UInt64.toNat_sub_of_le _ _ (by rwa [UInt64.le_iff_toNat_le, hofNat, hsizeT]), hofNat, hsizeT]

theorem read_tail_eq_some_iff (hdelivered : Delivered packet) {α : Type} [Layout α]
    [Layout.Exact α] {len : UInt64}
    (hlen : sizeof α ≤ packet.sizeGet.toNat → len.toNat = packet.sizeGet.toNat - sizeof α)
    {x : α} {tail : Bytes} :
    ((Layout.overlay (α := α) packet.front 0).bind fun x =>
        (Window.read packet.front (sizeof α) len.toNat).bind fun tail => some (x, tail)) =
        some (x, tail) ↔
      Layout.overlay packet.front 0 = some x ∧ tail = packet.front.drop (sizeof α) := by
  simp only [Option.bind_eq_some_iff, Option.some.injEq, Prod.mk.injEq]
  constructor
  · rintro ⟨x', hx, tail', htail, rfl, rfl⟩
    have hsize := (isSome_overlay_front hdelivered α 0).mp (by rw [hx]; rfl)
    rw [zero_add] at hsize
    rw [Window.read_eq_some_iff, hlen hsize] at htail
    refine ⟨hx, ?_⟩
    rw [htail.2, List.take_of_length_le (by rw [List.length_drop, hdelivered])]
  · rintro ⟨hx, rfl⟩
    have hsize := (isSome_overlay_front hdelivered α 0).mp (by rw [hx]; rfl)
    rw [zero_add] at hsize
    refine ⟨x, hx, _, ?_, rfl, rfl⟩
    rw [Window.read_eq_some_iff, hlen hsize, hdelivered]
    refine ⟨by omega, ?_⟩
    rw [List.take_of_length_le (by rw [List.length_drop, hdelivered])]

theorem readUpAct_eq_some_iff (hdelivered : Delivered packet) {part : CS.UpAct} {data : Bytes} :
    Storage.readUpAct packet = some (part, data) ↔
      Layout.overlay packet.front 0 = some part ∧ data = packet.front.drop (sizeof CS.UpAct) :=
  read_tail_eq_some_iff hdelivered toNat_tailSize

theorem readUpReq_eq_some_iff (hdelivered : Delivered packet) {req : CM.UpReq} {fname : Bytes} :
    Master.readUpReq packet = some (req, fname) ↔
      Layout.overlay packet.front 0 = some req ∧ fname = packet.front.drop (sizeof CM.UpReq) := by
  refine read_tail_eq_some_iff hdelivered fun hsize => ?_
  have hsub : packet.sizeT - UInt64.ofNat (sizeof FsizeType) - UInt64.ofNat (sizeof RdcyType) =
      packet.sizeT - UInt64.ofNat (sizeof CM.UpReq) := by
    have hsum : UInt64.ofNat (sizeof CM.UpReq) =
        UInt64.ofNat (sizeof FsizeType) + UInt64.ofNat (sizeof RdcyType) := rfl
    rw [hsum]
    grind
  rw [hsub, toNat_tailSize hsize]

theorem readFname_eq (hdelivered : Delivered packet) :
    Master.readFname packet = some packet.front := by
  have hsizeT : packet.sizeT.toNat = packet.sizeGet.toNat := UInt32.toNat_toUInt64 _
  rw [Master.readFname, Window.read_eq_some_iff, hsizeT, hdelivered, List.drop_zero, zero_add]
  exact ⟨le_rfl, (List.take_of_length_le hdelivered.le).symm⟩

theorem isSome_of_read_tail (hdelivered : Delivered packet) {α : Type} [Layout α] [Layout.Exact α]
    {read : Option (α × Bytes)} (hread : ∀ {x tail}, read = some (x, tail) ↔
      Layout.overlay packet.front 0 = some x ∧ tail = packet.front.drop (sizeof α)) :
    read.isSome ↔ sizeof α ≤ packet.sizeGet.toNat := by
  have hoverlay := isSome_overlay_front hdelivered α 0
  rw [zero_add] at hoverlay
  rw [← hoverlay, Option.isSome_iff_exists, Option.isSome_iff_exists]
  constructor
  · rintro ⟨⟨x, tail⟩, h⟩
    exact ⟨x, (hread.mp h).1⟩
  · rintro ⟨x, hx⟩
    exact ⟨(x, _), hread.mpr ⟨hx, rfl⟩⟩

theorem isSome_readUpAct (hdelivered : Delivered packet) :
    (Storage.readUpAct packet).isSome ↔ 32 ≤ packet.sizeGet.toNat :=
  isSome_of_read_tail hdelivered (readUpAct_eq_some_iff hdelivered)

theorem isSome_readUpReq (hdelivered : Delivered packet) :
    (Master.readUpReq packet).isSome ↔ 9 ≤ packet.sizeGet.toNat :=
  isSome_of_read_tail hdelivered (readUpReq_eq_some_iff hdelivered)

/-- The payload of an upload is what is left of the body, and its length in `size_t` is its own. -/
theorem length_of_readUpAct (hdelivered : Delivered packet) {part : CS.UpAct} {data : Bytes}
    (hread : Storage.readUpAct packet = some (part, data)) :
    data.length + 32 = packet.sizeGet.toNat ∧
      packet.sizeT - UInt64.ofNat (sizeof CS.UpAct) = UInt64.ofNat data.length := by
  have hsize := (isSome_readUpAct hdelivered).mp (by rw [hread]; rfl)
  have hlt := packet.sizeGet.toNat_lt
  have hlength : data.length = packet.sizeGet.toNat - 32 := by
    rw [((readUpAct_eq_some_iff hdelivered).mp hread).2, List.length_drop, hdelivered,
      sizeof_upAct]
  refine ⟨by omega, ?_⟩
  rw [sizeof_upAct, ← UInt64.toNat_inj, toNat_tailSize hsize, UInt64.toNat_ofNat',
    Nat.mod_eq_of_lt (by omega), hlength]

theorem isSome_readPartAckFid (hdelivered : Delivered packet) :
    (Master.readPartAckFid packet).isSome ↔ 12 ≤ packet.sizeGet.toNat :=
  isSome_overlay_front hdelivered FidType (sizeof StidType)

theorem isSome_readPartAck (hdelivered : Delivered packet) :
    (Master.readPartAck packet).isSome ↔ 16 ≤ packet.sizeGet.toNat := by
  have h := isSome_overlay_front hdelivered (StidType × PartId) 0
  rw [← show 0 + sizeof (StidType × PartId) = 16 from rfl, ← h]
  change ((Layout.overlay (α := StidType × PartId) packet.front 0).bind fun req => some _).isSome ↔ _
  cases (Layout.overlay packet.front 0 : Option (StidType × PartId)) with
  | none => rfl
  | some req => rfl

theorem isSome_readIdReq (hdelivered : Delivered packet) :
    (Master.readIdReq packet).isSome ↔ 10 ≤ packet.sizeGet.toNat :=
  isSome_overlay_front hdelivered SM.IdReq 0

theorem isSome_readPartId (hdelivered : Delivered packet) :
    (Storage.readPartId packet).isSome ↔ 12 ≤ packet.sizeGet.toNat :=
  isSome_overlay_front hdelivered PartId 0

theorem readPartId_of_readUpAct (hdelivered : Delivered packet) {part : CS.UpAct} {data : Bytes}
    (hread : Storage.readUpAct packet = some (part, data)) :
    Storage.readPartId packet = some part.partid := by
  have hoverlay := ((readUpAct_eq_some_iff hdelivered).mp hread).1
  obtain ⟨x, hx, rfl⟩ := Option.map_eq_some_iff.mp hoverlay
  exact (Layout.overlay_prod_eq_some_iff.mp hx).1

theorem isSome_readDownAct (hdelivered : Delivered packet) :
    (Storage.readDownAct packet).isSome ↔ 12 ≤ packet.sizeGet.toNat :=
  isSome_overlay_front hdelivered CS.DownAct 0

end Reads

end Mp2p
