import Skyline.Steps.Basic

/-!
This module contains the blocking mutex of `mutex.cpp`.
-/

namespace Mutex

inductive Pc where
  | idle
  | tryLock
  | failed
  | blocked
  | appended
  | own
  | holding
  | release
  | dequeue
  | wake (u : Option Nat)
deriving DecidableEq

structure Thread where
  pc : Pc
  isBlocked : Bool
  current : Bool
  onRq : Bool
deriving DecidableEq

structure State where
  lock : Bool
  owner : Option Nat
  queue : List Nat
  thread : Nat → Thread

def State.set (s : State) (t : Nat) (th : Thread) : State :=
  { s with thread := Function.update s.thread t th }

def State.goto (s : State) (t : Nat) (pc : Pc) : State := s.set t { s.thread t with pc := pc }

def init : State where
  lock := false
  owner := none
  queue := []
  thread := fun _ => ⟨.idle, false, false, true⟩

def wakeThread (s : State) (u : Nat) : State :=
  let th := s.thread u
  if th.isBlocked then s.set u { th with isBlocked := false, onRq := true } else s

def yield (s : State) (t : Nat) : State :=
  let th := s.thread t
  s.set t { th with pc := .tryLock, current := false, onRq := th.onRq || !th.isBlocked }

def advance (s : State) (t : Nat) : Option State :=
  let th := s.thread t
  if th.current then
    match th.pc with
    | .idle => some (s.goto t .tryLock)
    | .tryLock =>
      if s.lock then
        some (s.goto t .failed)
      else
        some ({ s with lock := true }.goto t .own)
    | .failed => some (s.set t { th with pc := .blocked, isBlocked := true })
    | .blocked => some ({ s with queue := s.queue ++ [t] }.goto t .appended)
    | .appended => some (yield s t)
    | .own => some ({ s with owner := some t }.goto t .holding)
    | .holding =>
      -- the `ASSERT` of `MutexRelease`
      if s.owner = some t then
        some ({ s with owner := none }.goto t .release)
      else
        none
    | .release => some ({ s with lock := false }.goto t .dequeue)
    | .dequeue =>
      match s.queue with
      | [] => some (s.goto t (.wake none))
      | u :: rest => some ({ s with queue := rest }.goto t (.wake (some u)))
    | .wake none => some (s.goto t .idle)
    | .wake (some u) => some ((wakeThread s u).goto t .idle)
  else
    none

def dispatch (s : State) (t : Nat) : Option State :=
  let th := s.thread t
  if th.onRq then some (s.set t { th with current := true, onRq := false }) else none

inductive Event where
  | advance (t : Nat)
  | dispatch (t : Nat)

def step (n : Nat) (s : State) : Event → Option State
  | .advance t => if t < n then advance s t else none
  | .dispatch t => if t < n then dispatch s t else none

def Pc.Between : Pc → Prop
  | .failed | .blocked | .appended => True
  | _ => False

instance (pc : Pc) : Decidable pc.Between := by
  cases pc <;> simp only [Pc.Between] <;> infer_instance

def Thread.Asleep (th : Thread) : Prop :=
  th.pc = .tryLock ∧ th.isBlocked = true ∧ th.current = false ∧ th.onRq = false

instance (th : Thread) : Decidable th.Asleep := by
  unfold Thread.Asleep
  infer_instance

def Stuck (n : Nat) (s : State) : Prop :=
  s.lock = false ∧ s.queue ≠ [] ∧ ∀ t < n, (s.thread t).pc = .idle ∨ (s.thread t).Asleep

instance (n : Nat) (s : State) : Decidable (Stuck n s) := by
  unfold Stuck
  infer_instance

/--
No thread takes the first waiter from the queue while another one is between its failed test and set
and the end of its `Yield`.
-/
def Calm (n : Nat) (s : State) : Event → Prop
  | .advance t => (s.thread t).pc = .dequeue → ∀ u < n, ¬ (s.thread u).pc.Between
  | .dispatch _ => True

instance (n : Nat) (s : State) (e : Event) : Decidable (Calm n s e) := by
  cases e <;> simp only [Calm] <;> infer_instance

end Mutex
