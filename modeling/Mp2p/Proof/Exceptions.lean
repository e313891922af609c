import Mp2p.Proof.Races
import Mp2p.Proof.TextThreads

/-!
# Exceptions over texts

What ends a handler over records ends the one beside it over texts, for the same reason. A name that
needs an escape is one more reason, which leaves a text behind that nobody can read.
-/

namespace Mp2p.Texts

open Masks Network DB DB.Tools Master

section Explained

variable {boost : PropertyTree} {h : CommandHistory (Value boost)} {h' : CommandHistory Record}

end Explained

/-! ### All threads, stopped and started again -/

section Threads

variable {boost : PropertyTree} (hboost : boost.Correct)
include hboost

end Threads

/-! ### A master that is stopped in the middle -/

inductive UploadStep where
  | registration
  | upload
  | acknowledgement
  deriving DecidableEq

def UploadStep.request : UploadStep → Request
  | .registration => oneUpload.get ⟨0, by decide⟩
  | .upload => oneUpload.get ⟨1, by decide⟩
  | .acknowledgement => oneUpload.get ⟨2, by decide⟩

section Stopped

variable {V : Type} [Coding V]

end Stopped

end Mp2p.Texts
