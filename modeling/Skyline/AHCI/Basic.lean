import Skyline.Steps.Basic

/-!
This module contains `Port::Read` and `Port::Write` of the AHCI driver.
-/

namespace AHCI

open Function

/--
The bits of `PxCMD` that software writes.
-/
structure PxCmd where
  st : Bool
  fre : Bool
deriving DecidableEq

/--
The changes that `StopCMD` and `StartCMD` make to `PxCMD`.
-/
inductive Change where
  | stopSt
  | stopFre
  | startFre
  | startSt
deriving DecidableEq

def Change.apply : Change → PxCmd → PxCmd
  | .stopSt, cmd => { cmd with st := false }
  | .stopFre, cmd => { cmd with fre := false }
  | .startFre, cmd => { cmd with fre := true }
  | .startSt, cmd => { cmd with st := true }

inductive Pc where
  | clear
  | lock
  | find
  | unlockNone
  | fill (slot : Nat)
  | busy (slot : Nat)
  | issue (slot : Nat)
  | unlock (slot : Nat)
  | poll (slot : Nat)
  | pollIs (slot : Nat)
  | checkIs (slot : Nat)
  | checkCi (slot : Nat)
  | recover
  | recoverIs
  | readCmd (change : Change)
  | writeCmd (change : Change) (cmd : PxCmd)
  | stopWait
  | clearCi
  | startWait
  | done (result : Bool)
deriving DecidableEq

structure Thread where
  pc : Pc
  cmd : Nat
deriving DecidableEq

inductive Status where
  | unused
  | inFlight (slot : Nat)
  | failed (slot : Nat)
  | completed
  | aborted
deriving DecidableEq

structure State where
  cmdStatus : PxCmd
  commandIssue : Nat → Bool
  sataActive : Nat → Bool
  tfes : Bool
  slotLock : Option Nat
  recoverAttempts : Nat
  thread : Nat → Thread
  table : Nat → Option Nat
  status : Nat → Status
  next : Nat

def init : State where
  cmdStatus := ⟨true, true⟩
  commandIssue := fun _ => false
  sataActive := fun _ => false
  tfes := false
  slotLock := none
  recoverAttempts := 0
  thread := fun _ => ⟨.done false, 0⟩
  table := fun _ => none
  status := fun _ => .unused
  next := 0

def State.goto (s : State) (t : Nat) (pc : Pc) : State :=
  { s with thread := update s.thread t { s.thread t with pc := pc } }

def findCommandSlot (s : State) : Option Nat :=
  (List.range 32).find? fun i => !(s.sataActive i || s.commandIssue i)

def fillTable (s : State) (t slot : Nat) : State :=
  { s with
    table := update s.table slot (some s.next)
    thread := update s.thread t ⟨.busy slot, s.next⟩
    next := s.next + 1 }

/--
The controller takes no command while its engine is stopped.
-/
def issueCommand (s : State) (t slot : Nat) : State :=
  if s.cmdStatus.st then
    { s with
      commandIssue := update s.commandIssue slot true
      status := update s.status (s.thread t).cmd (.inFlight slot) }
  else
    s

def Status.abort : Status → Status
  | .inFlight _ => .aborted
  | .failed _ => .aborted
  | status => status

/--
`PxCI` and `PxSACT` are cleared when `PxCMD.ST` changes from one to zero.
-/
def writeCmdStatus (s : State) (cmd : PxCmd) : State :=
  if s.cmdStatus.st && !cmd.st then
    { s with
      cmdStatus := cmd
      commandIssue := fun _ => false
      sataActive := fun _ => false
      status := fun c => (s.status c).abort }
  else
    { s with cmdStatus := cmd }

def Change.next : Change → Pc
  | .stopSt => .readCmd .stopFre
  | .stopFre => .stopWait
  | .startFre => .readCmd .startSt
  | .startSt => .done false

def advance (s : State) (t : Nat) : Option State :=
  match (s.thread t).pc with
  | .clear => some ({ s with tfes := false }.goto t .lock)
  | .lock =>
    if s.slotLock = none then
      some ({ s with slotLock := some t }.goto t .find)
    else
      none
  | .find =>
    match findCommandSlot s with
    | some slot => some (s.goto t (.fill slot))
    | none => some (s.goto t .unlockNone)
  | .unlockNone => some ({ s with slotLock := none }.goto t (.done false))
  | .fill slot => some (fillTable s t slot)
  | .busy slot => some (s.goto t (.issue slot))
  | .issue slot => some ((issueCommand s t slot).goto t (.unlock slot))
  | .unlock slot => some ({ s with slotLock := none }.goto t (.poll slot))
  | .poll slot => some (s.goto t (if s.commandIssue slot then .pollIs slot else .checkIs slot))
  | .pollIs slot => some (s.goto t (if s.tfes then .recover else .poll slot))
  | .checkIs slot => some (s.goto t (if s.tfes then .recover else .checkCi slot))
  | .checkCi slot =>
    if s.commandIssue slot then
      some (s.goto t .recover)
    else
      some ({ s with recoverAttempts := 0 }.goto t (.done true))
  | .recover =>
    if 2 ≤ s.recoverAttempts then
      some (s.goto t (.done false))
    else
      some ({ s with recoverAttempts := s.recoverAttempts + 1 }.goto t .recoverIs)
  | .recoverIs => some ({ s with tfes := false }.goto t (.readCmd .stopSt))
  | .readCmd change => some (s.goto t (.writeCmd change (change.apply s.cmdStatus)))
  | .writeCmd change cmd => some ((writeCmdStatus s cmd).goto t change.next)
  -- both loops end when the engine has stopped or their time is over
  | .stopWait => some (s.goto t .clearCi)
  -- writing zeros to `PxCI` has no effect
  | .clearCi => some (s.goto t .startWait)
  | .startWait => some (s.goto t (.readCmd .startFre))
  | .done _ => none

def complete (s : State) (slot : Nat) : Option State :=
  match s.table slot with
  | some c =>
    if s.commandIssue slot = true ∧ s.status c = .inFlight slot then
      some { s with
        commandIssue := update s.commandIssue slot false
        status := update s.status c .completed }
    else
      none
  | none => none

def error (s : State) (slot : Nat) : Option State :=
  match s.table slot with
  | some c =>
    if s.commandIssue slot = true ∧ s.status c = .inFlight slot then
      some { s with tfes := true, status := update s.status c (.failed slot) }
    else
      none
  | none => none

inductive Event where
  | call (t sectorCount : Nat)
  | step (t : Nat)
  | spinOut (t : Nat)
  | expire (t : Nat)
  | complete (slot : Nat)
  | error (slot : Nat)

def step (s : State) : Event → Option State
  | .call t sectorCount =>
    match (s.thread t).pc with
    | .done _ => some (s.goto t (if 248 * 16 < sectorCount then .done false else .clear))
    | _ => none
  | .step t => advance s t
  | .spinOut t =>
    match (s.thread t).pc with
    -- returns without giving `slot_lock` back
    | .busy _ => some (s.goto t (.done false))
    | _ => none
  | .expire t =>
    match (s.thread t).pc with
    | .poll slot => some (s.goto t (.checkIs slot))
    | _ => none
  | .complete slot => complete s slot
  | .error slot => error s slot

def Pc.waits : Pc → Option Nat
  | .unlock slot | .poll slot | .pollIs slot | .checkIs slot | .checkCi slot => some slot
  | _ => none

/--
The device becomes ready before a command is issued, the engine runs when a command is issued, and
nobody waits for a command that is not complete when a thread stops the engine.
-/
def Calm (s : State) (e : Event) : Prop :=
  match e with
  | .spinOut _ => False
  | .step t =>
    match (s.thread t).pc with
    | .issue _ => s.cmdStatus.st = true
    | .writeCmd _ cmd =>
      s.cmdStatus.st = true → cmd.st = false →
        ∀ (u : Nat), (s.thread u).pc.waits ≠ none → s.status (s.thread u).cmd = .completed
    | _ => True
  | _ => True

end AHCI
