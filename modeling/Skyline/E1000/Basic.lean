import Skyline.Steps.Basic

/-!
This module contains the receive ring of the network driver in `e1000.cpp`.
-/

namespace E1000

open Function

@[irreducible]
def rxRingLen : Nat := 256

theorem rxRingLen_pos : 0 < rxRingLen := by
  unfold rxRingLen
  decide

structure Frame where
  length : Nat
  eop : Bool
  data : List UInt8
deriving DecidableEq

def Frame.complete (f : Frame) : Bool := f.length != 0 && f.eop

structure RxDesc where
  dd : Bool
  frame : Frame
deriving DecidableEq

def RxDesc.clear (d : RxDesc) : RxDesc := ⟨false, { d.frame with eop := false }⟩

inductive DescState where
  | hardware
  | consumed
  | lent
deriving DecidableEq

inductive Phase where
  | idle
  | polling (guard : Nat)
  | callback (guard : Nat)
deriving DecidableEq

structure State where
  inited : Bool
  input : Bool
  ring : Nat → RxDesc
  descState : Nat → DescState
  rxArmed : Nat
  rxTail : Nat
  rdh : Nat
  rdt : Nat
  phase : Phase
  received : List Frame
  polled : Nat
  skipped : Nat
  offered : List Frame
  lent : Nat → Bool
  mark : Nat

def init : State where
  inited := false
  input := false
  ring := fun _ => ⟨false, ⟨0, false, []⟩⟩
  descState := fun _ => .hardware
  rxArmed := rxRingLen - 1
  rxTail := 0
  rdh := 0
  rdt := rxRingLen - 1
  phase := .idle
  received := []
  polled := 0
  skipped := 0
  offered := []
  lent := fun _ => false
  mark := 0

def armFrom (s : State) (i : Nat) : Nat → State
  | 0 => s
  | fuel + 1 =>
    if i = s.rxTail then
      s
    else if s.descState i ≠ .consumed then
      -- lent out, or with the card already
      s
    else
      armFrom { s with descState := update s.descState i .hardware, rxArmed := i }
        ((i + 1) % rxRingLen) fuel

def rxArmAdvance (s : State) : State :=
  let s := armFrom s ((s.rxArmed + 1) % rxRingLen) rxRingLen
  { s with rdt := s.rxArmed }

def consume (s : State) (guard : Nat) (new : DescState) : State :=
  { s with
    descState := update s.descState s.rxTail new
    ring := update s.ring s.rxTail (s.ring s.rxTail).clear
    rxTail := (s.rxTail + 1) % rxRingLen
    phase := .polling (guard + 1)
    polled := s.polled + 1
    lent := if new = .lent then update s.lent s.rxTail true else s.lent }

def poll (s : State) (guard : Nat) : State :=
  let d := s.ring s.rxTail
  if d.dd && decide (guard < rxRingLen) then
    if d.frame.complete then
      if s.input then
        { s with phase := .callback guard, offered := s.offered ++ [d.frame] }
      else
        consume s guard .consumed
    else
      consume s guard .consumed
  else
    { rxArmAdvance s with phase := .idle }

def recycleRx (s : State) (idx : Nat) : State :=
  if !s.inited || decide (rxRingLen ≤ idx) then
    s
  else
    let s := { s with lent := update s.lent idx false }
    if s.descState idx = .lent then
      rxArmAdvance { s with descState := update s.descState idx .consumed }
    else
      rxArmAdvance s

inductive Event where
  | receive (f : Frame)
  | ready
  | setInputCallback
  | pollRX
  | poll
  | ret (keep : Bool)
  | recycleRx (idx : Nat)

def step (s : State) : Event → Option State
  | .receive f =>
    -- from the head up to but excluding the published tail
    if s.rdh = s.rdt then
      none
    else
      some { s with
        ring := update s.ring s.rdh ⟨true, f⟩
        rdh := (s.rdh + 1) % rxRingLen
        received := s.received ++ [f] }
  | .ready => some { s with inited := true }
  | .setInputCallback =>
    if s.input then
      some s
    else
      some { s with input := true, skipped := s.polled }
  | .pollRX =>
    if s.phase = .idle then
      if s.inited then
        some { s with phase := .polling 0, mark := s.received.length }
      else
        some s
    else
      none
  | .poll =>
    match s.phase with
    | .polling guard => some (poll s guard)
    | _ => none
  | .ret keep =>
    match s.phase with
    | .callback guard => some (consume s guard (if keep then .lent else .consumed))
    | _ => none
  | .recycleRx idx =>
    match s.phase with
    | .polling _ => none
    | _ => some (recycleRx s idx)

def State.WithCard (s : State) (i : Nat) : Prop :=
  (i + rxRingLen - s.rdh) % rxRingLen ≤ (s.rdt + rxRingLen - s.rdh) % rxRingLen

def State.AllBack (s : State) : Prop :=
  (∀ (i : Nat), i < rxRingLen → s.lent i = false) →
  ∀ (i : Nat), i < rxRingLen → s.descState i = .hardware ∧ (s.WithCard i ∨ (s.ring i).dd = true)

end E1000
