import Mathlib

/-!
This module contains the states and the steps of the scheduler.
-/

namespace Sched

open Function

def stealBatch : Nat := 8

def zombieThreshold : Nat := 8

def zombieBatch : Nat := 16

inductive ThreadState where
  | init
  | running
  | blocked
  | sleeping
  | transfer
  | zombie
deriving DecidableEq, Repr

structure Thread (n : Nat) where
  state : ThreadState
  cpuNum : Fin n
  timerCpu : Fin n
  timerBucket : Option (Fin n)
  onRq : Bool
  pinned : Bool
  weight : Nat
  deadline : Nat
deriving DecidableEq, Repr

inductive Phase where
  | ready
  | picked (curr next : Option Nat)
  | stealing (curr : Option Nat) (batch : List Nat)
deriving DecidableEq, Repr

def Phase.curr : Phase → Option Nat
  | .ready => none
  | .picked curr _ => curr
  | .stealing curr _ => curr

def Phase.next : Phase → Option Nat
  | .picked _ next => next
  | _ => none

def Phase.batch : Phase → List Nat
  | .stealing _ batch => batch
  | _ => []

namespace Phase

variable (curr next : Option Nat) (batch : List Nat)

@[simp]
theorem curr_ready : ready.curr = none := rfl

@[simp]
theorem curr_picked : (picked curr next).curr = curr := rfl

@[simp]
theorem curr_stealing : (stealing curr batch).curr = curr := rfl

@[simp]
theorem next_ready : ready.next = none := rfl

@[simp]
theorem next_picked : (picked curr next).next = next := rfl

@[simp]
theorem next_stealing : (stealing curr batch).next = none := rfl

@[simp]
theorem batch_ready : ready.batch = [] := rfl

@[simp]
theorem batch_picked : (picked curr next).batch = [] := rfl

@[simp]
theorem batch_stealing : (stealing curr batch).batch = batch := rfl

variable (p : Prop) [Decidable p] (x y : Phase)

@[simp]
theorem curr_ite : (if p then x else y).curr = if p then x.curr else y.curr := apply_ite ..

@[simp]
theorem next_ite : (if p then x else y).next = if p then x.next else y.next := apply_ite ..

@[simp]
theorem batch_ite : (if p then x else y).batch = if p then x.batch else y.batch := apply_ite ..

end Phase

structure Queue where
  runqueue : List Nat
  threadCount : Nat
  totalWeight : Nat
  hasRunnableThread : Bool
  hasSurplus : Bool
deriving DecidableEq, Repr

structure Cpu where
  currentThread : Nat
  idleThread : Nat
  zombieList : List Nat
  phase : Phase
deriving DecidableEq, Repr

structure State (n : Nat) where
  thread : Nat → Thread n
  queue : Fin n → Queue
  cpu : Fin n → Cpu
  making : List Nat
  killed : List Nat
  appended : List (Fin n × Nat)

namespace State

variable {n : Nat}

def setThread (s : State n) (t : Nat) (th : Thread n) : State n :=
  { s with thread := update s.thread t th }

def setQueue (s : State n) (c : Fin n) (q : Queue) : State n :=
  { s with queue := update s.queue c q }

def setCpu (s : State n) (c : Fin n) (q : Cpu) : State n :=
  { s with cpu := update s.cpu c q }

def setPhase (s : State n) (c : Fin n) (phase : Phase) : State n :=
  s.setCpu c { s.cpu c with phase := phase }

def setState (s : State n) (t : Nat) (state : ThreadState) : State n :=
  s.setThread t { s.thread t with state := state }

def Idle (s : State n) (t : Nat) : Prop :=
  ∃ c, (s.cpu c).idleThread = t

instance (s : State n) (t : Nat) : Decidable (s.Idle t) :=
  inferInstanceAs (Decidable (∃ c, (s.cpu c).idleThread = t))

section

variable (s : State n)
include s

@[simp]
theorem setThread_thread (t u : Nat) (th : Thread n)
    : (s.setThread t th).thread u = if u = t then th else s.thread u := by
  simp [setThread, update_apply]

section

variable (t : Nat) (th : Thread n)
include t th

@[simp]
theorem setThread_queue : (s.setThread t th).queue = s.queue := rfl

@[simp]
theorem setThread_cpu : (s.setThread t th).cpu = s.cpu := rfl

@[simp]
theorem setThread_making : (s.setThread t th).making = s.making := rfl

end

@[simp]
theorem setQueue_queue (c d : Fin n) (q : Queue)
    : (s.setQueue c q).queue d = if d = c then q else s.queue d := by
  simp [setQueue, update_apply]

section

variable (c : Fin n) (q : Queue)
include c q

@[simp]
theorem setQueue_thread : (s.setQueue c q).thread = s.thread := rfl

@[simp]
theorem setQueue_cpu : (s.setQueue c q).cpu = s.cpu := rfl

end

@[simp]
theorem setCpu_cpu (c d : Fin n) (q : Cpu)
    : (s.setCpu c q).cpu d = if d = c then q else s.cpu d := by
  simp [setCpu, update_apply]

section

variable (c : Fin n) (q : Cpu)
include c q

@[simp]
theorem setCpu_thread : (s.setCpu c q).thread = s.thread := rfl

end

@[simp]
theorem setPhase_phase (c d : Fin n) (phase : Phase)
    : ((s.setPhase c phase).cpu d).phase = if d = c then phase else (s.cpu d).phase := by
  unfold setPhase
  rw [setCpu_cpu]
  split <;> rfl

@[simp]
theorem setPhase_currentThread (c d : Fin n) (phase : Phase)
    : ((s.setPhase c phase).cpu d).currentThread = (s.cpu d).currentThread := by
  unfold setPhase
  rw [setCpu_cpu]
  split
  next h => rw [h]
  next => rfl

@[simp]
theorem setPhase_idleThread (c d : Fin n) (phase : Phase)
    : ((s.setPhase c phase).cpu d).idleThread = (s.cpu d).idleThread := by
  unfold setPhase
  rw [setCpu_cpu]
  split
  next h => rw [h]
  next => rfl

section

variable (c : Fin n) (phase : Phase)
include c phase

@[simp]
theorem setPhase_thread
    : (s.setPhase c phase).thread = s.thread := rfl

@[simp]
theorem setPhase_queue
    : (s.setPhase c phase).queue = s.queue := rfl

@[simp]
theorem setPhase_making
    : (s.setPhase c phase).making = s.making := rfl

end

@[simp]
theorem idle_setThread (t u : Nat) (th : Thread n)
    : (s.setThread t th).Idle u ↔ s.Idle u := by
  simp [Idle]

@[simp]
theorem idle_setPhase (c : Fin n) (phase : Phase) (u : Nat)
    : (s.setPhase c phase).Idle u ↔ s.Idle u := by
  simp [Idle]

end

end State

def boot (n : Nat) (home : Fin n) : State n where
  thread := fun t =>
    if h : t < n then
      ⟨.running, ⟨t, h⟩, ⟨t, h⟩, none, false, false, 1024, 0⟩
    else
      ⟨.init, home, home, none, false, false, 0, 0⟩
  queue := fun _ => ⟨[], 0, 0, false, false⟩
  cpu := fun c => ⟨c.val, c.val, [], .ready⟩
  making := []
  killed := []
  appended := []

variable {n : Nat}

def threadRbCmp (s : State n) (t u : Nat) : Bool :=
  (s.thread t).deadline < (s.thread u).deadline
    || ((s.thread t).deadline == (s.thread u).deadline && t < u)

def insertToQueue (dl : Nat → Nat) (s : State n) (c : Fin n) (t : Nat) : State n :=
  if (s.thread t).onRq then
    s
  else
    let s := s.setThread t { s.thread t with deadline := dl t, onRq := true }
    let q := s.queue c
    let count := q.threadCount + 1
    s.setQueue c
      { q with
        runqueue := q.runqueue.orderedInsert (fun a b => threadRbCmp s a b) t
        threadCount := count
        totalWeight := q.totalWeight + (s.thread t).weight
        hasRunnableThread := if count = 1 then true else q.hasRunnableThread
        hasSurplus := if count = 2 then true else q.hasSurplus }

def removeFromQueue (s : State n) (c : Fin n) (t : Nat) : State n :=
  if (s.thread t).onRq then
    let q := s.queue c
    let count := q.threadCount - 1
    let s := s.setThread t { s.thread t with onRq := false }
    s.setQueue c
      { q with
        runqueue := q.runqueue.erase t
        threadCount := count
        totalWeight := q.totalWeight - (s.thread t).weight
        hasSurplus := if count = 1 then false else q.hasSurplus
        hasRunnableThread := if count = 0 then false else q.hasRunnableThread }
  else
    s

def firstRunnable (s : State n) (c : Fin n) : Option Nat :=
  (s.queue c).runqueue.find? fun t => (s.thread t).state = .running

def best (found : Option Nat) (s : State n) (c : Fin n) : Option Nat :=
  match found with
  | some t =>
    if t ∈ (s.queue c).runqueue ∧ (s.thread t).state = .running then some t else firstRunnable s c
  | none => firstRunnable s c

def pick (found : Option Nat) (s : State n) (c : Fin n) : Option Nat × State n :=
  match best found s c with
  | some t => (some t, removeFromQueue s c t)
  | none => (none, s)

def timerRemove (s : State n) (t : Nat) : State n :=
  s.setThread t { s.thread t with timerBucket := none }

def pushZombie (s : State n) (c : Fin n) (t : Nat) : State n :=
  { s.setCpu c { s.cpu c with zombieList := t :: (s.cpu c).zombieList } with
    appended := (c, t) :: s.appended }

def reclaimZombieList (s : State n) (zombies : List Nat) : State n :=
  zombies.foldl timerRemove s

def moveZombies (s : State n) (c : Fin n) : State n :=
  let q := s.cpu c
  if q.zombieList.length ≥ zombieThreshold then
    reclaimZombieList (s.setCpu c { q with zombieList := q.zombieList.drop zombieBatch })
      (q.zombieList.take zombieBatch)
  else
    s

def keepsCurrent (s : State n) (c : Fin n) (yieldReq : Bool) : Bool :=
  let q := s.cpu c
  (s.queue c).threadCount == 0
    && (q.currentThread == q.idleThread
      || (!yieldReq && (s.thread q.currentThread).state == .running))

def putCurrent (dl : Nat → Nat) (s : State n) (c : Fin n) : Option Nat × State n :=
  let curr := (s.cpu c).currentThread
  if curr = (s.cpu c).idleThread then
    (some curr, s)
  else
    match (s.thread curr).state with
    | .zombie => (none, pushZombie s c curr)
    | .running => (some curr, insertToQueue dl s c curr)
    | _ => (some curr, s)

def switchLocked (dl : Nat → Nat) (found : Option Nat) (s : State n) (c : Fin n) : State n :=
  let (curr, s) := putCurrent dl (moveZombies s c) c
  let (next, s) := pick found s c
  s.setPhase c (.picked curr next)

def stealSkips (s : State n) (victim : Fin n) (t : Nat) : Bool :=
  t == (s.cpu victim).currentThread || t == (s.cpu victim).idleThread
    || (s.thread t).state != .running || (s.thread t).timerBucket != none

def stealLoop (victim : Fin n) (s : State n) (batch : List Nat) : List Nat → State n × List Nat
  | [] => (s, batch)
  | t :: ts =>
    if batch.length < stealBatch ∧ 1 < (s.queue victim).threadCount then
      if stealSkips s victim t then
        stealLoop victim s batch ts
      else
        stealLoop victim (removeFromQueue s victim t) (batch ++ [t]) ts
    else
      (s, batch)

def stealFrom (s : State n) (c victim : Fin n) (curr : Option Nat) : State n :=
  let (s', batch) := stealLoop victim s [] (s.queue victim).runqueue.reverse
  match batch with
  | [] => s
  | batch => (batch.foldl (fun s t => s.setState t .transfer) s').setPhase c (.stealing curr batch)

def arrive (dl : Nat → Nat) (c : Fin n) (s : State n) (t : Nat) : State n :=
  insertToQueue dl
    (s.setThread t { s.thread t with cpuNum := c, timerCpu := c, state := .running }) c t

def stealEnd (dl : Nat → Nat) (found : Option Nat) (s : State n) (c : Fin n) (curr : Option Nat)
    (batch : List Nat) : State n :=
  let s := s.setPhase c (.picked curr none)
  let (next, s) := pick found (batch.foldl (arrive dl c) s) c
  s.setPhase c (.picked curr next)

def load (s : State n) (c : Fin n) : Nat :=
  (s.queue c).totalWeight + (s.thread (s.cpu c).currentThread).weight

def pushSkips (s : State n) (c : Fin n) (t : Nat) : Bool :=
  t == (s.cpu c).currentThread || t == (s.cpu c).idleThread
    || (s.thread t).timerBucket != none || (s.thread t).pinned

def pushLoop (dl : Nat → Nat) (c target : Fin n) (s : State n) (pushed : Nat) : List Nat → State n
  | [] => s
  | t :: ts =>
    if pushed < stealBatch ∧ load s target < load s c then
      if pushSkips s c t then
        pushLoop dl c target s pushed ts
      else
        let s := removeFromQueue (s.setState t .transfer) c t
        pushLoop dl c target (arrive dl target s t) (pushed + 1) ts
    else
      s

def tryPush (dl : Nat → Nat) (s : State n) (c target : Fin n) : State n :=
  let s := pushLoop dl c target s 0 (s.queue c).runqueue.reverse
  if (s.queue c).threadCount < 2 then
    s.setQueue c { s.queue c with hasSurplus := false }
  else
    s

def commit (s : State n) (c : Fin n) (curr next : Option Nat) : State n :=
  let next := next.getD (s.cpu c).idleThread
  let s := if curr = some next then s else s.setCpu c { s.cpu c with currentThread := next }
  s.setPhase c .ready

def sleep (s : State n) (c : Fin n) : State n :=
  let t := (s.cpu c).currentThread
  s.setThread t { s.thread t with state := .sleeping, timerBucket := some c, timerCpu := c }

def wakeupTimerThread (dl : Nat → Nat) (c : Fin n) (s : State n) (t : Nat) : State n :=
  let s := timerRemove s t
  if (s.thread t).state = .sleeping then
    insertToQueue dl (s.setState t .running) c t
  else
    s

def killThreadBatch (s : State n) (t : Nat) (c : Fin n) (timer : Option (Fin n)) : State n :=
  let th := s.thread t
  if th.state = .zombie ∨ th.cpuNum ≠ c ∨ (th.timerBucket ≠ none ∧ th.timerCpu ≠ timer.getD c) then
    s
  else
    let s := { s.setState t .zombie with killed := t :: s.killed }
    let s :=
      match timer with
      | some d =>
        if d = c then
          if th.onRq then removeFromQueue s c t
          else if th.timerBucket ≠ none then timerRemove s t else s
        else
          removeFromQueue (if th.timerBucket ≠ none then timerRemove s t else s) c t
      | none =>
        if th.onRq then removeFromQueue s c t
        else if th.timerBucket ≠ none then timerRemove s t else s
    if (s.cpu c).currentThread = t then s else pushZombie s c t

def killThread (s : State n) (t : Nat) (c : Fin n) : State n :=
  let s := { s.setState t .zombie with killed := t :: s.killed }
  if (s.thread t).onRq then
    pushZombie (removeFromQueue s c t) c t
  else if (s.thread t).timerBucket ≠ none then
    pushZombie (timerRemove s t) c t
  else
    s

def newThread (s : State n) (t : Nat) (c : Fin n) (weight : Nat) : State n :=
  { s.setThread t ⟨.running, c, c, none, false, false, weight, 0⟩ with making := t :: s.making }

def startThread (dl : Nat → Nat) (s : State n) (t : Nat) : State n :=
  let c := (s.thread t).cpuNum
  let s := s.setQueue c { s.queue c with hasRunnableThread := true }
  insertToQueue dl { s with making := s.making.erase t } c t

inductive Event (n : Nat) where
  | newThread (t : Nat) (c : Fin n) (weight : Nat)
  | startThread (t : Nat) (dl : Nat → Nat)
  | pin (t : Nat)
  | switch (c : Fin n) (yieldReq : Bool) (dl : Nat → Nat) (found : Option Nat)
  | tryPush (c target : Fin n) (dl : Nat → Nat)
  | steal (c victim : Fin n)
  | stealEnd (c : Fin n) (dl : Nat → Nat) (found : Option Nat)
  | commit (c : Fin n)
  | idle (c : Fin n)
  | sleep (c : Fin n)
  | tick (c : Fin n) (expired : List Nat) (dl : Nat → Nat)
  | killThreadBatch (t : Nat) (c : Fin n) (timer : Option (Fin n))
  | killThread (t : Nat) (c : Fin n)
  | transferTimeout (t : Nat)
  | exit (c : Fin n)

def step (s : State n) : Event n → Option (State n)
  | .newThread t c weight =>
    if (s.thread t).state = .init then some (newThread s t c weight) else none
  | .startThread t dl => if t ∈ s.making then some (startThread dl s t) else none
  | .pin t =>
    -- a driver sets the flag of a thread it has created
    if (s.thread t).state = .init then none
      else some (s.setThread t { s.thread t with pinned := true })
  | .switch c yieldReq dl found =>
    match (s.cpu c).phase with
    | .ready => some (if keepsCurrent s c yieldReq then s else switchLocked dl found s c)
    | _ => none
  | .tryPush c target dl =>
    match (s.cpu c).phase with
    | .stealing _ _ => none
    | _ => if target = c then none else some (tryPush dl s c target)
  | .steal c victim =>
    match (s.cpu c).phase with
    | .picked curr none => if victim = c then none else some (stealFrom s c victim curr)
    | _ => none
  | .stealEnd c dl found =>
    match (s.cpu c).phase with
    | .stealing curr batch => some (stealEnd dl found s c curr batch)
    | _ => none
  | .commit c =>
    match (s.cpu c).phase with
    | .picked curr next => some (commit s c curr next)
    | _ => none
  | .idle c =>
    let q := s.cpu c
    if q.phase = .ready ∧ q.currentThread = q.idleThread then
      some (reclaimZombieList (s.setCpu c { q with zombieList := [] }) q.zombieList)
    else
      none
  | .sleep c =>
    let q := s.cpu c
    if q.phase = .ready ∧ q.currentThread ≠ q.idleThread then some (sleep s c) else none
  | .tick c expired dl =>
    if (s.cpu c).phase = .ready ∧ ∀ t ∈ expired, (s.thread t).timerBucket = some c then
      some (expired.foldl (wakeupTimerThread dl c) s)
    else
      none
  | .killThreadBatch t c timer => some (killThreadBatch s t c timer)
  | .killThread t c => some (killThread s t c)
  | .transferTimeout t =>
    if (s.thread t).state = .transfer then some (s.setState t .running) else none
  | .exit c =>
    let q := s.cpu c
    if q.phase = .ready ∧ q.currentThread ≠ q.idleThread then
      some (s.setState q.currentThread .zombie)
    else
      none

end Sched
