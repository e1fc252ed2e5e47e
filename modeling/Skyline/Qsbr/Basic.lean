import Skyline.Steps.Basic

/-!
This module contains the reclamation of control blocks in `allocator.c`.
-/

namespace Qsbr

open Function

def qsbrSlots : Nat := 64

def flushThreshold : Nat := 4

def listMaxSteps : Nat := 4096

def deferBudget : Nat := 2048

def minEpochGap : Nat := 8

def failLimit : Nat := 64

structure Lists where
  small : List Nat
  large : List Nat
  deriving DecidableEq, Repr

namespace Lists

def empty : Lists := ⟨[], []⟩

def all (l : Lists) : List Nat := l.small ++ l.large

def get (l : Lists) (isLarge : Bool) : List Nat :=
  if isLarge then l.large else l.small

def set (l : Lists) (isLarge : Bool) (bs : List Nat) : Lists :=
  if isLarge then { l with large := bs } else { l with small := bs }

def append (young old : Lists) : Lists :=
  ⟨appendList young.small old.small, appendList young.large old.large⟩
where
  appendList (young old : List Nat) : List Nat :=
    if young.length ≤ listMaxSteps then young ++ old else old

def count (l : List Nat) : Nat :=
  if l.length ≤ listMaxSteps then l.length else 0

end Lists

inductive Act where
  | idle
  | detached (b : Nat) (isLarge : Bool)
  | lock
  | take
  | scan (l : Lists) (i slotsInUse generation agedOut : Nat)
  | decide (l : Lists) (quiescent : Bool)
  | unlock
  deriving DecidableEq, Repr

structure Thread where
  slot : Option Nat
  pending : Bool → Nat
  tls : Lists
  mode : Option Bool
  act : Act
  entries : Nat
  reads : List Nat

inductive Status where
  | fresh
  | attached (isLarge : Bool)
  | detached
  | unmapped
  deriving DecidableEq, Repr

structure Unmap where
  block : Nat
  collector : Nat
  watched : Nat → Option Nat
  present : Nat → Option Nat

structure State where
  count : Nat → Nat
  lastEpoch : Nat → Nat
  slotAlloc : Nat
  generation : Nat
  gcLock : Bool
  failStreak : Nat
  deferred : Lists
  old : Lists
  pendingCount : Bool → Nat
  status : Nat → Status
  thread : Nat → Thread
  watched : Nat → Nat → Option Nat
  cleaners : List Nat
  unmaps : List Unmap

def init : State where
  count := fun _ => 0
  lastEpoch := fun _ => 0
  slotAlloc := 0
  generation := 0
  gcLock := false
  failStreak := 0
  deferred := .empty
  old := .empty
  pendingCount := fun _ => 0
  status := fun _ => .fresh
  thread := fun _ => ⟨none, fun _ => 0, .empty, none, .idle, 0, []⟩
  watched := fun _ _ => none
  cleaners := []
  unmaps := []

def State.present (s : State) (t : Nat) : Option Nat :=
  match (s.thread t).mode with
  | none => none
  | some _ => some (s.thread t).entries

def setThread (s : State) (t : Nat) (th : Thread) : State :=
  { s with thread := update s.thread t th }

def setAct (s : State) (t : Nat) (act : Act) : State :=
  setThread s t { s.thread t with act }

def qsbrEnter (s : State) (t : Nat) : State :=
  let th := s.thread t
  let slot := th.slot.getD (s.slotAlloc % qsbrSlots)
  { setThread s t { th with
    slot := some slot, mode := some true, entries := th.entries + 1, reads := [] } with
    slotAlloc := if th.slot = none then s.slotAlloc + 1 else s.slotAlloc
    count := update s.count slot (s.count slot + 1)
    lastEpoch := update s.lastEpoch slot s.generation }

def qsbrLeave (s : State) (t slot : Nat) : State :=
  let th := s.thread t
  { setThread s t { th with mode := none, reads := [] } with
    count := update s.count slot (s.count slot - 1)
    lastEpoch := update s.lastEpoch slot s.generation }

def cleanup (s : State) (t : Nat) : State :=
  let th := s.thread t
  { setThread s t { th with mode := some false, entries := th.entries + 1, reads := [] } with
    cleaners := t :: s.cleaners }

def cleanupDone (s : State) (t : Nat) : State :=
  { setThread s t { s.thread t with
    mode := none, reads := [] } with cleaners := s.cleaners.filter (· ≠ t) }

def detach (s : State) (t b : Nat) (isLarge : Bool) : State :=
  { setAct s t (.detached b isLarge) with
    status := update s.status b .detached
    watched := update s.watched b s.present }

def flushTlsList (s : State) (t : Nat) (isLarge : Bool) : State :=
  let th := s.thread t
  let l := th.tls.get isLarge
  if l = [] ∨ listMaxSteps < l.length then
    s
  else
    { setThread s t { th with
        tls := th.tls.set isLarge []
        pending := update th.pending isLarge 0 } with
      deferred := s.deferred.set isLarge (l ++ s.deferred.get isLarge)
      pendingCount := update s.pendingCount isLarge (s.pendingCount isLarge + th.pending isLarge) }

def flushTlsScbAll (s : State) (t : Nat) : State :=
  flushTlsList (flushTlsList s t false) t true

def pushDeferredScb (s : State) (t b : Nat) (isLarge : Bool) : State :=
  let th := s.thread t
  let s := setThread s t { th with
    tls := th.tls.set isLarge (b :: th.tls.get isLarge)
    pending := update th.pending isLarge (th.pending isLarge + 1)
    act := .idle }
  if th.pending isLarge + 1 ≥ flushThreshold then
    setAct (flushTlsList s t isLarge) t .lock
  else
    s

def agedOut (pendingDepth : Nat) : Nat :=
  let aged := if pendingDepth > 0 then min (deferBudget / pendingDepth) minEpochGap else minEpochGap
  if aged = 0 then 1 else aged

def slotQuiescent (s : State) (i generation aged : Nat) : Bool :=
  if s.count i ≠ 0 then
    false
  else if generation - s.lastEpoch i ≥ aged then
    true
  else
    true

def takeLists (s : State) (t : Nat) : State :=
  let s := flushTlsScbAll s t
  let l := s.deferred.append s.old
  let s := { s with deferred := .empty, old := .empty }
  if l.small = [] ∧ l.large = [] then
    setAct s t .unlock
  else
    let nSmall := Lists.count l.small
    let nLarge := Lists.count l.large
    if (l.small ≠ [] ∧ nSmall = 0) ∨ (l.large ≠ [] ∧ nLarge = 0) then
      -- The list is too long: nothing of this batch is reclaimed, ever.
      setAct s t .unlock
    else
      setAct s t (.scan l 0 s.slotAlloc s.generation (agedOut (nSmall + nLarge)))

def unmapBlocks (s : State) (t : Nat) (bs : List Nat) : State :=
  { s with
    status := fun b => if b ∈ bs then .unmapped else s.status b
    unmaps := bs.map (fun b => ⟨b, t, s.watched b, s.present⟩) ++ s.unmaps }

def reclaim (s : State) (t : Nat) (l : Lists) (quiescent : Bool) : State :=
  let nSmall := Lists.count l.small
  let nLarge := Lists.count l.large
  let forced := !quiescent && decide (nSmall + nLarge > 0) && decide (s.failStreak + 1 ≥ failLimit)
  let failStreak := if quiescent || forced then 0
    else if nSmall + nLarge > 0 then s.failStreak + 1 else s.failStreak
  let s := { s with failStreak }
  if quiescent || forced then
    let s := unmapBlocks s t l.all
    setAct { s with
      pendingCount := fun _ => 0
      generation := s.generation + 1 } t .unlock
  else
    setAct { s with
      old := l.append s.old
      pendingCount := fun isLarge => s.pendingCount isLarge + if isLarge then nLarge
        else nSmall } t .unlock

def tryGc (s : State) (t : Nat) : Option State :=
  match (s.thread t).act with
  | .idle | .detached _ _ => none
  | .lock =>
    if s.gcLock then some (setAct s t .idle) else some { setAct s t .take with gcLock := true }
  | .take => some (takeLists s t)
  | .scan l i slotsInUse generation aged =>
    if i < qsbrSlots ∧ i < slotsInUse then
      if slotQuiescent s i generation aged then
        some (setAct s t (.scan l (i + 1) slotsInUse generation aged))
      else
        some (setAct s t (.decide l false))
    else
      some (setAct s t (.decide l true))
  | .decide l quiescent => some (reclaim s t l quiescent)
  | .unlock => some { setAct s t .idle with gcLock := false }

inductive Event where
  | enter (t : Nat)
  | leave (t : Nat)
  | cleanup (t : Nat)
  | cleanupDone (t : Nat)
  | attach (t b : Nat) (isLarge : Bool)
  | read (t b : Nat)
  | detach (t b : Nat) (isLarge : Bool)
  | push (t : Nat)
  | collect (t : Nat)
  | gc (t : Nat)
  deriving DecidableEq, Repr

def State.Ready (s : State) (t : Nat) : Prop :=
  (s.thread t).mode ≠ none ∧ (s.thread t).act = .idle

instance (s : State) (t : Nat) : Decidable (s.Ready t) :=
  inferInstanceAs (Decidable (_ ∧ _))

def step (s : State) : Event → Option State
  | .enter t => if (s.thread t).mode = none then some (qsbrEnter s t) else none
  | .leave t =>
    match (s.thread t).slot with
    | none => none
    | some slot =>
      if (s.thread t).mode = some true ∧ (s.thread t).act = .idle then some (qsbrLeave s t slot)
        else none
  | .cleanup t => if (s.thread t).mode = none then some (cleanup s t) else none
  | .cleanupDone t =>
    if (s.thread t).mode = some false ∧ (s.thread t).act = .idle then some (cleanupDone s t)
      else none
  | .attach t b isLarge =>
    if s.Ready t ∧ s.status b = .fresh then
      some { s with status := update s.status b (.attached isLarge) }
    else
      none
  | .read t b =>
    if s.Ready t ∧ (s.status b = .attached false ∨ s.status b = .attached true) then
      some (setThread s t { s.thread t with reads := b :: (s.thread t).reads })
    else
      none
  | .detach t b isLarge =>
    if s.Ready t ∧ s.status b = .attached isLarge then some (detach s t b isLarge) else none
  | .push t =>
    match (s.thread t).act with
    | .detached b isLarge => some (pushDeferredScb s t b isLarge)
    | _ => none
  -- `malloc` collects when it finds no memory. The other operations collect in `push_deferred_scb`.
  | .collect t =>
    if (s.thread t).mode = some true ∧ (s.thread t).act = .idle then
      some (setAct s t .lock)
    else
      none
  | .gc t => tryGc s t

def Unmap.Late (u : Unmap) : Prop :=
  ∀ (t n : Nat), t ≠ u.collector → u.watched t = some n → u.present t ≠ some n

def Sound (s : State) : Prop :=
  ∀ u ∈ s.unmaps, u.Late

def Act.Waits (act : Act) (failStreak : Nat) (cleaners : List Nat) (t : Nat) : Prop :=
  match act with
  | .decide _ true => ∀ t' ∈ cleaners, t' = t
  | .decide _ false => failStreak + 1 < failLimit
  | _ => True

instance (act : Act) (failStreak : Nat) (cleaners : List Nat) (t : Nat)
    : Decidable (act.Waits failStreak cleaners t) :=
  match act with
  | .decide _ true => inferInstanceAs (Decidable (∀ t' ∈ cleaners, t' = t))
  | .decide _ false => inferInstanceAs (Decidable (failStreak + 1 < failLimit))
  | .idle | .detached _ _ | .lock | .take | .scan _ _ _ _ _ | .unlock => .isTrue trivial

def Orderly (s : State) : Event → Prop
  | .gc t => (s.thread t).act.Waits s.failStreak s.cleaners t
  | _ => True

instance (s : State) (e : Event) : Decidable (Orderly s e) :=
  match e with
  | .gc t => inferInstanceAs (Decidable ((s.thread t).act.Waits s.failStreak s.cleaners t))
  | .enter _ | .leave _ | .cleanup _ | .cleanupDone _ | .attach _ _ _ | .read _ _ | .detach _ _ _
  | .push _
  | .collect _ => .isTrue trivial

end Qsbr
