import Skyline.Steps.Basic

/-!
This module contains the timer wheel of a CPU as `timer.cpp` has it.
-/

namespace Timer

open Function

def tvBits : Nat := 6

def tvSize : Nat := 1 <<< tvBits

def tvMask : Nat := tvSize - 1

def timerMaxTimeoutMs : Nat := tvSize * tvSize * tvSize

inductive Level where
  | tv1
  | tv2
  | tv3
deriving DecidableEq

structure Timer where
  thread : Nat
  wakeup : Nat
  id : Nat
deriving DecidableEq

structure State where
  clock : Nat
  last : Nat
  bucket : Level → Nat → List Timer
  timerBucket : Nat → Option (Level × Nat)
  sleeping : Nat → Bool
  inserted : List Timer
  removed : List Timer
  woken : List (Timer × Nat)

def State.setBucket (s : State) (l : Level) (i : Nat) (ts : List Timer) : State :=
  { s with bucket := update s.bucket l (update (s.bucket l) i ts) }

def State.setTimerBucket (s : State) (t : Nat) (b : Option (Level × Nat)) : State :=
  { s with timerBucket := update s.timerBucket t b }

def wakeupTimerThread (s : State) (x : Timer) : State :=
  let s := s.setTimerBucket x.thread none
  if s.sleeping x.thread then
    { s with
      sleeping := update s.sleeping x.thread false
      woken := s.woken ++ [(x, s.last)] }
  else
    s

def bucketOf (expires now : Nat) : Level × Nat :=
  let delta := expires - now
  if delta < tvSize then
    (.tv1, expires &&& tvMask)
  else if delta < 1 <<< (2 * tvBits) then
    (.tv2, (expires >>> tvBits) &&& tvMask)
  else
    (.tv3, (expires >>> (2 * tvBits)) &&& tvMask)

def timerAdd (s : State) (x : Timer) (now : Nat) : State :=
  let b := bucketOf x.wakeup now
  (s.setBucket b.1 b.2 (x :: s.bucket b.1 b.2)).setTimerBucket x.thread (some b)

def timerRemove (s : State) (t : Nat) : State :=
  match s.timerBucket t with
  | none => s
  | some (l, i) =>
    match (s.bucket l i).find? fun x => x.thread = t with
    | none => s.setTimerBucket t none
    | some x =>
      { (s.setBucket l i ((s.bucket l i).erase x)).setTimerBucket t none with
        removed := x :: s.removed }

def cascadeOne (now : Nat) (s : State) (x : Timer) : State :=
  if x.wakeup ≤ now then
    wakeupTimerThread s x
  else
    timerAdd (s.setTimerBucket x.thread none) x now

def timerCascade (s : State) (l : Level) (i now : Nat) : State :=
  (s.bucket l i).foldl (cascadeOne now) (s.setBucket l i [])

def runTv1 (s : State) : State :=
  let i := s.last &&& tvMask
  (s.bucket .tv1 i).foldl wakeupTimerThread (s.setBucket .tv1 i [])

def runTv3 (s : State) : State :=
  if (s.last >>> tvBits) &&& tvMask = 0 then
    timerCascade s .tv3 ((s.last >>> (2 * tvBits)) &&& tvMask) s.last
  else
    s

def runTv2 (s : State) : State :=
  if s.last &&& tvMask = 0 then
    runTv3 (timerCascade s .tv2 ((s.last >>> tvBits) &&& tvMask) s.last)
  else
    s

def processTick (s : State) : State := runTv2 (runTv1 { s with last := s.last + 1 })

def processTicks : Nat → State → State
  | 0, s => s
  | n + 1, s => processTicks n (processTick s)

def tick (s : State) : State := processTicks (s.clock - s.last) s

def sleep (s : State) (t chunk : Nat) : State :=
  let x : Timer := ⟨t, s.clock + chunk, s.inserted.length⟩
  let s := { s with sleeping := update s.sleeping t true, inserted := x :: s.inserted }
  timerAdd s x s.clock

def init : State where
  clock := 0
  last := 0
  bucket := fun _ _ => []
  timerBucket := fun _ => none
  sleeping := fun _ => false
  inserted := []
  removed := []
  woken := []

inductive Event where
  | clock (ms : Nat)
  | sleep (t chunk : Nat)
  | remove (t : Nat)
  | tick

def step (s : State) : Event → Option State
  | .clock ms => some { s with clock := s.clock + ms }
  | .sleep t chunk =>
    if 0 < chunk ∧ chunk < timerMaxTimeoutMs then some (sleep s t chunk) else none
  | .remove t => some (timerRemove s t)
  | .tick => some (tick s)

end Timer
