import Mp2p.Proof.Losses
import Mp2p.Proof.Once

/-!
# What the master has recorded

An acknowledged part is on its way to the master or listed in the record of its file, once in all. An
item of a record has one location, and the storage there holds what it is asked for.
-/

namespace Mp2p.System

open Masks Network DB DB.Tools Master Texts

section Recording

variable {S : Type} {hashBufferHex : Bytes → Sha1Type} {setup : S → Storage.Setup}
  {st : State Record S}

/-! ### What is recorded -/

/-- How many items of the file are of the part, as the master would decode it. -/
def listed {V : Type} [Coding V] (w : World V) (partid : PartId) : ℕ :=
  (nameOf w partid.fid).elim 0 fun fname =>
    (partsOf w.database fname).countP fun part => part.numGet = partid.partnum

end Recording

/-! ### Runs over texts -/

section Runs

variable {S : Type} [DecidableEq S] {hashBufferHex : Bytes → Sha1Type} {setup : S → Storage.Setup}
  {directory : S → Storage.Directory} {boost : PropertyTree} (hboost : boost.Correct)
  {st : State (Value boost) S}
include hboost

end Runs

/-! ### One upload, recorded -/

end Mp2p.System
