import Mp2p.Lib.Interleaving
import Mp2p.Master.Callbacks

/-!
# The threads of the master

Several threads run the handlers of different sessions. A command is atomic under the mutex of the
database, and between two commands of a handler those of any other may come. The static variables
have no lock: a thread may read anything there.
-/

namespace Mp2p.Master

open DB Network

inductive Job where
  /-- `cm_up_req`. -/
  | upload (r : Request)
  /-- `sm_id_req`. -/
  | register (r : Request)

section

variable {V : Type}

/-- How a command may be answered and what it does. -/
def may : (command : Command V) → World V → command.Answer → World V → Prop
  | .statics, w, _, w' => w' = w
  | command, w, answer, w' => (answer, w') = exec command w

abbrev CommandHistory (V : Type) := Program.History (Command V) Command.Answer

abbrev Threads (V ι : Type) := Program.Pool ι (Command V) Command.Answer Halt KeepAlive (World V)

/-- What a thread knows of a key: what it read or wrote there last, nothing at first. -/
def lastRead : CommandHistory V → Bytes → Option V
  | [], _ => none
  | ⟨.get key, value⟩ :: h, key' => if key' = key then value else lastRead h key'
  | ⟨.put key value, _⟩ :: h, key' => if key' = key then some value else lastRead h key'
  | _ :: h, key' => lastRead h key'

variable [Coding V]

def Job.handler : Job → Handler V KeepAlive
  | .upload r => cmUpReq r
  | .register r => smIdReq r

def startJobs {ι : Type} (w : World V) (jobs : ι → Job) : Threads V ι :=
  .start w fun i => (jobs i).handler

def startRequests {ι : Type} (requests : ι → Request) (w : World V) : Threads V ι :=
  .start w fun i => recvDispatcher (requests i)

def NotWrapped (value : V) : Prop :=
  (∀ mof, Coding.files? value = some mof → mof.count ≠ 0) ∧
    ∀ mos, Coding.storages? value = some mos → mos.count ≠ 0

/-- The database still holds what the thread that writes knows of the key: a compare-and-swap in
place of the write would succeed. -/
def CasSucceeds (w : World V) (h : CommandHistory V) : Command V → Prop
  | .put key value => w.database.lookup key = lastRead h key ∧ NotWrapped value
  | _ => True

theorem notWrapped_iff {value : V} : NotWrapped value ↔
    (Coding.files? value).all (fun mof => mof.count ≠ 0) ∧
      (Coding.storages? value).all fun mos => mos.count ≠ 0 := by
  simp only [NotWrapped, Option.all_eq_true, decide_eq_true_eq]

instance [DecidableEq V] (w : World V) (h : CommandHistory V) :
    (command : Command V) → Decidable (CasSucceeds w h command)
  | .put key _ => decidable_of_iff (w.database.lookup key = lastRead h key ∧ _)
      (and_congr_right fun _ => notWrapped_iff.symm)
  | .get _ => .isTrue trivial
  | .statics => .isTrue trivial
  | .setStatics _ => .isTrue trivial
  | .send _ => .isTrue trivial

end

end Mp2p.Master
