import Mathlib.Data.List.AList
import Mathlib.Data.List.Induction
import Mathlib.Tactic.Common

/-!
# Keyed stores

A store keeps a value under the code of its key. As long as no two keys share a code it represents a
function of the keys, and what it holds behind a sequence of writes is the last one to each key.
-/

namespace KeyedStore

variable {κ code α : Type} [DecidableEq κ] [DecidableEq code] {encode : κ → code}
  {entries : AList fun _ : code => α} {store : κ → Option α}

def Represents (encode : κ → code) (entries : AList fun _ : code => α) (store : κ → Option α) :
    Prop :=
  ∀ key, entries.lookup (encode key) = store key

theorem Represents.insert (h : Represents encode entries store)
    (hencode : Function.Injective encode) (key : κ) (value : α) :
    Represents encode (entries.insert (encode key) value)
      (Function.update store key (some value)) := by
  intro other
  by_cases hkey : other = key
  · rw [hkey, AList.lookup_insert, Function.update_self]
  · rw [AList.lookup_insert_ne (hencode.ne hkey), Function.update_of_ne hkey]
    exact h other

/-- What a sequence of writes leaves under each key. -/
def last (writes : List (κ × α)) (key : κ) : Option α := writes.reverse.lookup key

theorem last_concat (writes : List (κ × α)) (key : κ) (value : α) :
    last (writes ++ [(key, value)]) = Function.update (last writes) key (some value) := by
  funext other
  rw [last, List.reverse_append, List.reverse_singleton, List.singleton_append, List.lookup_cons]
  by_cases hkey : other = key
  · rw [hkey, beq_self_eq_true, Function.update_self]
  · rw [beq_false_of_ne hkey, Function.update_of_ne hkey, last]

theorem mem_of_last {writes : List (κ × α)} {key : κ} {value : α}
    (h : last writes key = some value) : (key, value) ∈ writes := by
  induction writes using List.reverseRecOn with
  | nil => cases h
  | append_singleton writes write ih =>
      rw [last_concat] at h
      by_cases hkey : key = write.1
      · rw [hkey, Function.update_self, Option.some_inj] at h
        exact List.mem_append_right _ (by rw [hkey, ← h]; exact List.mem_singleton_self _)
      · rw [Function.update_of_ne hkey] at h
        exact List.mem_append_left _ (ih h)

end KeyedStore
