import Mp2p.Masks.Blocks

/-!
# Message structs

The fixed part of every message, under the namespace of its direction; the tail a `[0]` array stands
for starts right after it. `fromto` names the direction and the `…W` constants the message.
-/

namespace Mp2p.Masks

def ackW : WhatType := 0

/-! ### Client to master -/

namespace CM

def fromto : FromtoType := 0
def upReqW : WhatType := 1
def downReqW : WhatType := 2
def delReqW : WhatType := 3

/-- Followed by `fname`. -/
structure UpReq where
  fsize : FsizeType
  rdcy : RdcyType
  deriving DecidableEq, Repr

instance : Layout UpReq := Layout.ofEquiv (α := FsizeType × RdcyType)
  { toFun r := (r.fsize, r.rdcy), invFun p := ⟨p.1, p.2⟩, left_inv _ := rfl, right_inv _ := rfl }

end CM

/-! ### Master to client -/

namespace MC

def fromto : FromtoType := 1
def upPiecesLocW : WhatType := 1
def downPiecesLocW : WhatType := 2

/-- Followed by the `stplist` of its `FDETAILS`. -/
structure UpPiecesLoc where
  fid : FidType
  deriving DecidableEq, Repr

/-- Followed by the `stplist` of its `FDETAILS`. -/
structure DownPiecesLoc where
  fsize : FsizeType
  fid : FidType
  deriving DecidableEq, Repr

instance : Layout UpPiecesLoc := Layout.ofEquiv (α := FidType)
  { toFun r := r.fid, invFun p := ⟨p⟩, left_inv _ := rfl, right_inv _ := rfl }

instance : Layout DownPiecesLoc := Layout.ofEquiv (α := FsizeType × FidType)
  { toFun r := (r.fsize, r.fid), invFun p := ⟨p.1, p.2⟩, left_inv _ := rfl, right_inv _ := rfl }

end MC

/-! ### Client to storage -/

namespace CS

def fromto : FromtoType := 2
def upActW : WhatType := 1
def downActW : WhatType := 2

/-- Followed by `data`. -/
structure UpAct where
  partid : PartId
  sha1 : Sha1Type
  deriving DecidableEq

structure DownAct where
  partid : PartId
  deriving DecidableEq, Repr

instance : Layout UpAct := Layout.ofEquiv (α := PartId × Sha1Type)
  { toFun r := (r.partid, r.sha1), invFun p := ⟨p.1, p.2⟩, left_inv _ := rfl, right_inv _ := rfl }

instance : Layout DownAct := Layout.ofEquiv (α := PartId)
  { toFun r := r.partid, invFun p := ⟨p⟩, left_inv _ := rfl, right_inv _ := rfl }

end CS

/-! ### Storage to client -/

namespace SC

def fromto : FromtoType := 3
def upActW : WhatType := 2

/-- Followed by `data`. -/
structure UpAct where
  partid : PartId
  sha1 : Sha1Type
  deriving DecidableEq

instance : Layout UpAct := Layout.ofEquiv (α := PartId × Sha1Type)
  { toFun r := (r.partid, r.sha1), invFun p := ⟨p.1, p.2⟩, left_inv _ := rfl, right_inv _ := rfl }

end SC

/-! ### Master to storage -/

namespace MS

def fromto : FromtoType := 4
def delActW : WhatType := 1
def partLocW : WhatType := 3
def fidInfoW : WhatType := 4

structure PartLoc where
  partid : PartId
  addr : Addr
  deriving DecidableEq

structure FidInfo where
  stid : StidType
  deriving DecidableEq, Repr

instance : Layout PartLoc := Layout.ofEquiv (α := PartId × Addr)
  { toFun r := (r.partid, r.addr), invFun p := ⟨p.1, p.2⟩, left_inv _ := rfl, right_inv _ := rfl }

instance : Layout FidInfo := Layout.ofEquiv (α := StidType)
  { toFun r := r.stid, invFun p := ⟨p⟩, left_inv _ := rfl, right_inv _ := rfl }

end MS

/-! ### Storage to master -/

namespace SM

def fromto : FromtoType := 5
def partAckW : WhatType := 2
def idReqW : WhatType := 3

structure PartAck where
  stid : StidType
  partid : PartId
  avspace : AvspaceType
  deriving DecidableEq, Repr

structure IdReq where
  port : PortType
  avspace : AvspaceType
  deriving DecidableEq, Repr

instance : Layout PartAck := Layout.ofEquiv (α := StidType × PartId × AvspaceType)
  { toFun r := (r.stid, r.partid, r.avspace), invFun p := ⟨p.1, p.2.1, p.2.2⟩
    left_inv _ := rfl, right_inv _ := rfl }

instance : Layout IdReq := Layout.ofEquiv (α := PortType × AvspaceType)
  { toFun r := (r.port, r.avspace), invFun p := ⟨p.1, p.2⟩, left_inv _ := rfl, right_inv _ := rfl }

end SM

@[simp] theorem sizeof_upReq : sizeof CM.UpReq = 9 := rfl
@[simp] theorem sizeof_upPiecesLoc : sizeof MC.UpPiecesLoc = 8 := rfl
@[simp] theorem sizeof_downPiecesLoc : sizeof MC.DownPiecesLoc = 16 := rfl
@[simp] theorem sizeof_upAct : sizeof CS.UpAct = 32 := rfl
@[simp] theorem sizeof_partData : sizeof SC.UpAct = 32 := rfl
@[simp] theorem sizeof_partAck : sizeof SM.PartAck = 24 := rfl
@[simp] theorem sizeof_idReq : sizeof SM.IdReq = 10 := rfl

end Mp2p.Masks
