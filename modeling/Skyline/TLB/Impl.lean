import Mathlib

/-!
This module contains the states and the steps of the TLB shootdown protocol.
-/

namespace TLB

open Function

abbrev maxCpu : Nat := 128

def qMax : Nat := 64

def batchMax : Nat := 64

abbrev Cpu := Fin maxCpu

inductive Kind where
  | page
  | full
  | global
deriving DecidableEq, Repr

structure Req where
  pm : Option Nat
  vaddr : Nat
  type : Kind
  ackCpu : Option Cpu
deriving DecidableEq, Repr

def Req.covers (f r : Req) : Bool :=
  match f.type, r.type with
  | .global, _ => true
  | .full, .full => f.pm == r.pm
  | .full, .page => f.pm == r.pm
  | .page, .page => f.pm == r.pm && f.vaddr == r.vaddr
  | _, _ => false

def Req.drops (f : Req) (pm : Nat) : Bool :=
  match f.type with
  | .page => false
  | .full => f.pm == some pm
  | .global => true

inductive Call where
  | page (pm vaddr : Nat)
  | full (pm : Nat)
  | fence (pm : Nat)
  | commit
deriving DecidableEq, Repr

inductive RoundKind where
  | page
  | full
  | fullCleared
  | fence
  | commit
deriving DecidableEq, Repr

inductive Phase where
  | send (targets : List Cpu)
  | put (t : Cpu) (targets : List Cpu)
  | spin (t : Cpu) (targets : List Cpu)
  | ack (discarded : List Req) (targets : List Cpu)
deriving DecidableEq, Repr

structure Round where
  kind : RoundKind
  pm : Nat
  type : Kind
  addrs : List Nat
  phase : Phase
  unserved : List (Cpu × Req)
deriving DecidableEq, Repr

def Round.wantAck (r : Round) : Bool :=
  match r.kind with
  | .page | .full | .fullCleared => false
  | .fence | .commit => true

inductive Stage where
  | popped
  | flushed
  | cleared
deriving DecidableEq, Repr

inductive SwitchPhase where
  | load
  | detach
  | attach
deriving DecidableEq, Repr

inductive Ctx where
  | round (r : Round)
  | service (q : Req) (stage : Stage)
  | switch (old : Option Nat) (pm : Nat) (phase : SwitchPhase)
deriving DecidableEq, Repr

structure Batch where
  pm : Nat
  addrs : List Nat
  active : Bool
  needFull : Bool
deriving DecidableEq, Repr

structure Config where
  hasPcid : Bool
  present : Cpu → Bool
  lastCpu : Nat

structure State where
  queue : Cpu → List Req
  acks : Cpu → Nat
  stack : Cpu → List Ctx
  batch : Cpu → Batch
  pagemap : Cpu → Option Nat
  mask : Nat → Cpu → Bool
  cr3 : Cpu → Nat
  held : Cpu → Nat → Bool

namespace State

def setQueue (s : State) (t : Cpu) (qs : List Req) : State :=
  { s with queue := update s.queue t qs }

def setAcks (s : State) (c : Cpu) (n : Nat) : State :=
  { s with acks := update s.acks c n }

def setMask (s : State) (pm : Nat) (cpus : Cpu → Bool) : State :=
  { s with mask := update s.mask pm cpus }

def enter (s : State) (c : Cpu) (x : Ctx) : State :=
  { s with stack := update s.stack c (x :: s.stack c) }

def advance (s : State) (c : Cpu) (x : Ctx) : State :=
  { s with stack := update s.stack c (x :: (s.stack c).tail) }

def leave (s : State) (c : Cpu) : State :=
  { s with stack := update s.stack c (s.stack c).tail }

end State

def Round.flush (t : Cpu) (f : Req) (r : Round) : Round :=
  { r with unserved := r.unserved.filter fun p => !(p.1 == t && f.covers p.2) }

def Ctx.flush (t : Cpu) (f : Req) (x : Ctx) : Ctx :=
  match x with
  | .round r => .round (r.flush t f)
  | x => x

def State.flush (s : State) (t : Cpu) (f : Req) : State :=
  { s with
    stack := fun c => (s.stack c).map (Ctx.flush t f)
    held := update s.held t fun pm => s.held t pm && !f.drops pm }

def forEachTarget (cfg : Config) (s : State) (me : Cpu) (pm : Nat) : List Cpu :=
  (List.finRange maxCpu).filter fun i => s.mask pm i && i != me && cfg.present i

def fenceTargets (cfg : Config) (me : Cpu) : List Cpu :=
  (List.finRange maxCpu).filter fun i => decide (i.val ≤ cfg.lastCpu) && cfg.present i && i != me

def doAck (cfg : Config) (s : State) (initiator : Option Cpu) : State :=
  match initiator with
  | none => s
  | some i => if cfg.present i then s.setAcks i (s.acks i - 1) else s

def pageReqs (pm : Nat) (ack : Option Cpu) (addrs : List Nat) : List Req :=
  match addrs with
  | [] => []
  | [a] => [⟨some pm, a, .page, ack⟩]
  | a :: as => ⟨some pm, a, .page, none⟩ :: pageReqs pm ack as

def Round.whole (r : Round) (me : Cpu) : Req where
  pm := some r.pm
  vaddr := 0
  type := if r.type = .global then .global else .full
  ackCpu := if r.wantAck then some me else none

def Round.requests (r : Round) (me : Cpu) (used : Nat) : List Req :=
  match r.type with
  | .page =>
    if r.addrs.length > qMax - used then
      [r.whole me]
    else
      pageReqs r.pm (if r.wantAck then some me else none) r.addrs
  | .full | .global => [r.whole me]

def pushed (s : State) (c : Cpu) (r : Round) (t : Cpu) (qs : List Req) (targets : List Cpu)
    : State :=
  (s.setQueue t (s.queue t ++ qs)).advance c (.round
    { r with phase := .send targets, unserved := r.unserved ++ qs.map fun q => (t, q) })

def finishRound (cfg : Config) (s : State) (c : Cpu) (r : Round) : Option State :=
  match r.kind with
  | .page => some (s.leave c)
  | .full =>
    if cfg.hasPcid then
      some (s.leave c)
    else
      some ((s.setMask r.pm fun _ => false).advance c (.round { r with kind := .fullCleared }))
  | .fullCleared => some ((s.setMask r.pm (update (s.mask r.pm) c true)).leave c)
  | .fence | .commit => if s.acks c = 0 then some (s.leave c) else none

def stepRound (cfg : Config) (s : State) (c : Cpu) (r : Round) : Option State :=
  match r.phase with
  | .send [] => finishRound cfg s c r
  | .send (t :: ts) =>
    let s := if r.wantAck then s.setAcks c (s.acks c + 1) else s
    some (s.advance c (.round { r with phase := .put t ts }))
  | .put t ts =>
    let qs := r.requests c (s.queue t).length
    if (s.queue t).length + qs.length ≤ qMax then
      some (pushed s c r t qs ts)
    else
      some (s.advance c (.round { r with phase := .spin t ts }))
  | .spin t ts =>
    if (s.queue t).length < qMax then
      some (pushed s c r t [r.whole c] ts)
    else
      none
  | .ack [] ts => some (s.advance c (.round { r with phase := .send ts }))
  | .ack (q :: qs) ts =>
    some ((doAck cfg s q.ackCpu).advance c (.round { r with phase := .ack qs ts }))

def expireRound (s : State) (c : Cpu) (r : Round) : Option State :=
  match r.phase with
  | .spin t ts =>
    some ((s.setQueue t [⟨none, 0, .global, (r.whole c).ackCpu⟩]).advance c (.round
      { r with phase := .ack (s.queue t) ts, unserved := r.unserved ++ [(t, r.whole c)] }))
  | .send [] =>
    if r.wantAck && decide (s.acks c ≠ 0) then
      some ((s.setAcks c 0).leave c)
    else
      none
  | _ => none

def stepService (cfg : Config) (s : State) (c : Cpu) (q : Req) (stage : Stage) : State :=
  match stage with
  | .popped => (s.advance c (.service q .flushed)).flush c q
  | .flushed =>
    let s :=
      match q.type, q.pm with
      | .full, some pm => s.setMask pm (update (s.mask pm) c false)
      | _, _ => s
    s.advance c (.service q .cleared)
  | .cleared => (doAck cfg s q.ackCpu).leave c

def stepSwitch (cfg : Config) (s : State) (c : Cpu) (old : Option Nat) (pm : Nat)
    (phase : SwitchPhase) : State :=
  match phase with
  | .load =>
    { s with
      cr3 := update s.cr3 c pm
      held := update s.held c fun p => s.held c p && cfg.hasPcid
    }.advance c (.switch old pm .detach)
  | .detach =>
    let s :=
      match old with
      | some o => if cfg.hasPcid then s else s.setMask o (update (s.mask o) c false)
      | none => s
    s.advance c (.switch old pm .attach)
  | .attach => (s.setMask pm (update (s.mask pm) c true)).leave c

def switchPageMap (s : State) (c : Cpu) (pm : Nat) : State :=
  { s with pagemap := update s.pagemap c (some pm) }.enter c (.switch (s.pagemap c) pm .load)

def batchBegin (s : State) (c : Cpu) (pm : Nat) : State :=
  { s with batch := update s.batch c ⟨pm, [], true, false⟩ }

def batchAbort (s : State) (c : Cpu) : State :=
  { s with batch := update s.batch c { s.batch c with active := false } }

def deferredPage (s : State) (c : Cpu) (pm vaddr : Nat) : State :=
  let s := s.flush c ⟨some pm, vaddr, .page, none⟩
  let b := s.batch c
  if b.active && b.pm == pm then
    if b.addrs.length < batchMax then
      { s with batch := update s.batch c { b with addrs := b.addrs ++ [vaddr] } }
    else
      { s with batch := update s.batch c { b with needFull := true } }
  else
    s

def startCall (cfg : Config) (s : State) (c : Cpu) (call : Call) : State :=
  match call with
  | .page pm vaddr =>
    let s := s.flush c ⟨some pm, vaddr, .page, none⟩
    s.enter c (.round ⟨.page, pm, .page, [vaddr], .send (forEachTarget cfg s c pm), []⟩)
  | .full pm =>
    let s := s.flush c ⟨some pm, 0, .full, none⟩
    s.enter c (.round ⟨.full, pm, .full, [], .send (forEachTarget cfg s c pm), []⟩)
  | .fence pm =>
    let s := s.setAcks c 0
    s.enter c (.round ⟨.fence, pm, .full, [], .send (fenceTargets cfg c), []⟩)
  | .commit =>
    let b := s.batch c
    if b.active then
      let s := batchAbort s c
      let targets := forEachTarget cfg s c b.pm
      if b.needFull then
        s.enter c (.round ⟨.commit, b.pm, .full, [], .send targets, []⟩)
      else if b.addrs.length > 0 then
        s.enter c (.round ⟨.commit, b.pm, .page, b.addrs, .send targets, []⟩)
      else
        s.enter c (.round ⟨.commit, b.pm, .page, [], .send [], []⟩)
    else
      s

inductive Action where
  | call (c : Cpu) (call : Call)
  | batchBegin (c : Cpu) (pm : Nat)
  | batchAbort (c : Cpu)
  | deferredPage (c : Cpu) (pm vaddr : Nat)
  | switchPageMap (c : Cpu) (pm : Nat)
  | drain (c : Cpu)
  | next (c : Cpu)
  | expire (c : Cpu)
  | touch (c : Cpu)
deriving DecidableEq, Repr

def Action.cpu (a : Action) : Cpu :=
  match a with
  | .call c _ | .batchBegin c _ | .batchAbort c | .deferredPage c _ _ | .switchPageMap c _
  | .drain c
  | .next c | .expire c | .touch c => c

def State.interruptible (s : State) (c : Cpu) : Bool :=
  match s.stack c with
  | .switch .. :: _ => false
  | _ => true

def stepNext (cfg : Config) (s : State) (c : Cpu) : Option State :=
  match s.stack c with
  | [] => none
  | .round r :: _ => stepRound cfg s c r
  | .service q stage :: _ => some (stepService cfg s c q stage)
  | .switch old pm phase :: _ => some (stepSwitch cfg s c old pm phase)

def stepExpire (s : State) (c : Cpu) : Option State :=
  match s.stack c with
  | .round r :: _ => expireRound s c r
  | _ => none

def stepDrain (s : State) (c : Cpu) : Option State :=
  match s.queue c with
  | [] => none
  | q :: qs => some ((s.setQueue c qs).enter c (.service q .popped))

def touch (s : State) (c : Cpu) : State :=
  { s with held := update s.held c (update (s.held c) (s.cr3 c) true) }

def enabled (cfg : Config) (s : State) (a : Action) : Bool :=
  cfg.present a.cpu &&
    match a with
    | .next _ | .expire _ | .touch _ => true
    | _ => s.interruptible a.cpu

def step (cfg : Config) (s : State) (a : Action) : Option State :=
  if enabled cfg s a then
    match a with
    | .call c call => some (startCall cfg s c call)
    | .batchBegin c pm => some (batchBegin s c pm)
    | .batchAbort c => some (batchAbort s c)
    | .deferredPage c pm vaddr => some (deferredPage s c pm vaddr)
    | .switchPageMap c pm => some (switchPageMap s c pm)
    | .drain c => stepDrain s c
    | .next c => stepNext cfg s c
    | .expire c => stepExpire s c
    | .touch c => some (touch s c)
  else
    none

def boot (kernelPagemap : Nat) : State where
  queue := fun _ => []
  acks := fun _ => 0
  stack := fun _ => []
  batch := fun _ => ⟨0, [], false, false⟩
  pagemap := fun _ => some kernelPagemap
  mask := fun _ _ => false
  cr3 := fun _ => kernelPagemap
  held := fun _ pm => pm == kernelPagemap

end TLB
