import Mp2p.Masks.Blocks

/-!
# Shared buffers

A `shared_buffer` shows a view `buf_` of some bytes to the transport. The owning implementation also
keeps a container, and points the view at it when it copies or allocates; the one that takes over a
moved container leaves the view as it was built, empty.
-/

namespace Mp2p

inductive Copy where
  | yes
  | no
  deriving DecidableEq, Repr

structure SharedBuffer where
  /-- `data_` of the owning implementation; the weak one has none. -/
  container : Option Bytes
  /-- The bytes `buf_` shows. -/
  buf : Bytes
  deriving DecidableEq, Repr

namespace SharedBuffer

def ofSize (size : ℕ) : SharedBuffer :=
  { container := some (List.replicate size 0), buf := List.replicate size 0 }

/-- `owning_impl(container_type&&)` does not set `buf_`. -/
def ofContainer (container : Bytes) : SharedBuffer :=
  { container := some container, buf := [] }

def ofData (data : Bytes) (toCopy : Copy) : SharedBuffer :=
  match toCopy with
  | .yes => { container := some data, buf := data }
  | .no => { container := none, buf := data }

def size (b : SharedBuffer) : ℕ := b.buf.length

@[simp]
theorem buf_ofSize (size : ℕ) : (ofSize size).buf = List.replicate size 0 := rfl

@[simp]
theorem buf_ofData (data : Bytes) (toCopy : Copy) : (ofData data toCopy).buf = data := by
  cases toCopy <;> rfl

@[simp]
theorem size_ofData (data : Bytes) (toCopy : Copy) : (ofData data toCopy).size = data.length := by
  cases toCopy <;> rfl

end SharedBuffer

end Mp2p
