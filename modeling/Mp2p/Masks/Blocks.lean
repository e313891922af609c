import Mp2p.Lib.Layout

/-!
# Basic blocks of the protocol

The integer types and the packed structs every message is made of, each struct laid out as the
product of its fields in the order of its declaration.
-/

namespace Mp2p

abbrev Bytes := List UInt8

namespace Masks

abbrev AvspaceType := UInt64
abbrev FidType := UInt64
abbrev FromtoType := UInt8
abbrev FsizeType := UInt64
abbrev MtidType := UInt32
abbrev PartnumType := UInt32
abbrev PartsizeType := UInt64
abbrev PortType := UInt16
abbrev RdcyType := UInt8
abbrev SizeType := UInt32
abbrev StidType := UInt32
abbrev WhatType := UInt8

abbrev Ipv6Type := List.Vector UInt8 16
abbrev Sha1Type := List.Vector UInt8 20

structure Addr where
  ipv6 : Ipv6Type
  port : PortType
  deriving DecidableEq

structure PartId where
  fid : FidType
  partnum : PartnumType
  deriving DecidableEq, Repr

/-- `nb` is a part number or a number of parts. -/
structure StpField where
  addr : Addr
  nb : PartnumType
  deriving DecidableEq

structure PacketType where
  fromto : FromtoType
  what : WhatType
  deriving DecidableEq, Repr

structure PacketHeader where
  size : SizeType
  type : PacketType
  deriving DecidableEq, Repr

instance : Layout Addr := Layout.ofEquiv (α := Ipv6Type × PortType)
  { toFun a := (a.ipv6, a.port), invFun p := ⟨p.1, p.2⟩, left_inv _ := rfl, right_inv _ := rfl }

instance : Layout PartId := Layout.ofEquiv (α := FidType × PartnumType)
  { toFun p := (p.fid, p.partnum), invFun p := ⟨p.1, p.2⟩, left_inv _ := rfl, right_inv _ := rfl }

instance : Layout StpField := Layout.ofEquiv (α := Addr × PartnumType)
  { toFun f := (f.addr, f.nb), invFun p := ⟨p.1, p.2⟩, left_inv _ := rfl, right_inv _ := rfl }

instance : Layout PacketType := Layout.ofEquiv (α := FromtoType × WhatType)
  { toFun t := (t.fromto, t.what), invFun p := ⟨p.1, p.2⟩, left_inv _ := rfl, right_inv _ := rfl }

instance : Layout PacketHeader := Layout.ofEquiv (α := SizeType × PacketType)
  { toFun h := (h.size, h.type), invFun p := ⟨p.1, p.2⟩, left_inv _ := rfl, right_inv _ := rfl }

abbrev sizeof (α : Type) [Layout α] : ℕ := Layout.size α

@[simp] theorem sizeof_addr : sizeof Addr = 18 := rfl
@[simp] theorem sizeof_partId : sizeof PartId = 12 := rfl
@[simp] theorem sizeof_stpField : sizeof StpField = 22 := rfl
@[simp] theorem sizeof_packetHeader : sizeof PacketHeader = 6 := rfl

end Masks

end Mp2p
