import Mp2p.Lib.Rounding
import Mp2p.Masks.Blocks

/-!
# The size of a part

`get_part_size` divides in single precision: both operands are converted to `float`, so is the
quotient, and the ceiling of that is the size of every part but the last.
-/

namespace Mp2p.Network

open Masks

/-- The `float` nearest to an integer or to a quotient of two `float`s. -/
def toFloat (x : ℚ) : ℚ := Rounding.round 24 x

/-- `std::ceil((float)fsize / parts)`. -/
def ceilFloatDiv (fsize parts : ℕ) : ℕ := ⌈toFloat (toFloat fsize / toFloat parts)⌉₊

def getPartSize (fsize : FsizeType) (partnum parts : PartnumType) : PartsizeType :=
  let partSize := UInt64.ofNat (ceilFloatDiv fsize.toNat parts.toNat)
  if partnum = parts - 1 then
    let offset := partnum.toUInt64 * partSize
    if offset + partSize > fsize then partSize - (offset + partSize - fsize) else partSize
  else partSize

end Mp2p.Network
