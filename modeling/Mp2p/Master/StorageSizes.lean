import Mp2p.Masks.Blocks

/-!
# The number of parts of a file

The table the `storage_sizes` key holds, and the search for the first row a file fits in.
-/

namespace Mp2p.Master

open Masks

/-- The loop of `number_of_parts` over the values of `storage_sizes`. -/
def numberOfParts (values : List (FsizeType × PartnumType)) (fileSize : FsizeType) : PartnumType :=
  match values with
  | [] => 0
  | value :: rest => if fileSize ≤ value.1 then value.2 else numberOfParts rest fileSize

/-- `ressources/data/storage_sizes.json`. -/
def storageSizes : List (FsizeType × PartnumType) :=
  [(2097151, 1), (4194303, 2), (8388607, 4), (16777215, 4), (33554431, 8), (67108863, 16),
    (134217727, 16), (268435455, 32), (536870911, 64), (1073741823, 64), (2147483647, 128),
    (4294967295, 256), (8589934591, 256), (17179869183, 512), (34359738367, 1024),
    (68719476735, 1024), (137438953471, 2048), (274877906943, 4096), (549755813887, 4096),
    (1099511627775, 8192), (2199023255551, 16384), (4398046511103, 16384),
    (8796093022207, 32768), (17592186044415, 65535), (35184372088831, 65535),
    (70368744177663, 131072), (140737488355327, 262144), (281474976710655, 262144),
    (562949953421311, 524288), (1125899906842623, 1048576), (2251799813685247, 1048576),
    (4503599627370495, 2097152), (9007199254740991, 4194304), (18014398509481983, 4194304),
    (36028797018963967, 8388608), (72057594037927935, 16777216), (144115188075855871, 16777216),
    (288230376151711743, 33554432), (576460752303423487, 67108864), (1152921504606846975, 67108864),
    (2305843009213693951, 134217728), (4611686018427387903, 268435456),
    (9223372036854775807, 268435456), (18446744073709551615, 536870912)]

end Mp2p.Master
