import Skyline.Steps.Basic
import Skyline.Cyclic.Basic

/-!
This module contains the keyboard events of `kbd.cpp` and their readers.
-/

namespace Kbd

open Function

@[irreducible]
def ringCap : Nat := 256

def maxReaders : Nat := 8

def actionDown : UInt8 := 1

structure KbdEvent where
  key : UInt16
  action : UInt8
  mods : UInt8
  deriving DecidableEq, Repr

inductive Stage where
  | key
  | action
  | mods
  | publish
  deriving DecidableEq, Repr

structure Posting where
  h : Nat
  event : KbdEvent
  stage : Stage
  deriving DecidableEq, Repr

inductive Pc where
  | out
  | load
  | resync (h : Nat)
  | focus (h : Nat)
  | read (h : Nat) (allowed : Bool)
  | advance (h : Nat) (allowed : Bool) (e : KbdEvent)
  deriving DecidableEq, Repr

structure Reader where
  slot : Option Nat
  pos : Nat
  pc : Pc
  start : Nat
  returned : List KbdEvent
  deriving DecidableEq, Repr

structure State where
  head : Nat
  consumer : Nat → Nat
  focusOwner : Int
  ring : Nat → KbdEvent
  lost : Nat
  posting : Option Posting
  reader : Nat → Reader
  posted : List KbdEvent

def init : State where
  head := 0
  consumer := fun _ => 0
  focusOwner := 0
  ring := fun _ => ⟨0, 0, 0⟩
  lost := 0
  posting := none
  reader := fun _ => ⟨none, 0, .out, 0, []⟩
  posted := []

def slowest (s : State) : Option Nat :=
  (List.range maxReaders).foldl observe none
where
  observe (acc : Option Nat) (i : Nat) : Option Nat :=
    let c := s.consumer i
    if c = 0 then
      acc
    else
      match acc with
      | none => some (c - 1)
      | some m => if c - 1 < m then some (c - 1) else some m

def post (s : State) (e : KbdEvent) : State :=
  let h := s.head
  let overwrites :=
    match slowest s with
    | none => false
    | some m => decide (ringCap ≤ h) && decide (m ≤ h - ringCap)
  { s with
    lost := if overwrites then s.lost + 1 else s.lost
    posting := some ⟨h, e, .key⟩ }

def store (s : State) (p : Posting) : State :=
  let i := p.h % ringCap
  let e := s.ring i
  match p.stage with
  | .key =>
    { s with
      ring := update s.ring i { e with key := p.event.key }
      posting := some { p with stage := .action } }
  | .action =>
    { s with
      ring := update s.ring i { e with action := p.event.action }
      posting := some { p with stage := .mods } }
  | .mods =>
    { s with
      ring := update s.ring i { e with mods := p.event.mods }
      posting := some { p with stage := .publish } }
  | .publish =>
    { s with
      head := (p.h + 1) % 2 ^ 64
      posting := none
      posted := s.posted ++ [p.event] }

def focusSlot (s : State) : Int :=
  if 0 < s.focusOwner then (s.focusOwner - 1).bmod (2 ^ 32) else -1

def focusAllows (s : State) (slot : Nat) : Bool :=
  let f := focusSlot s
  decide (f < 0) || decide (f = slot)

def readerResync (s : State) (cursor : Nat) : Nat :=
  let h := s.head
  if cursor < h ∧ ringCap < h - cursor then h - ringCap else cursor

def readerSetpos (s : State) (slot : Option Nat) (seq : Nat) : Nat → Nat :=
  match slot with
  | none => s.consumer
  | some i => update s.consumer i ((seq + 1) % 2 ^ 64)

def setReader (s : State) (r : Nat) (rd : Reader) : State :=
  { s with reader := update s.reader r rd }

def readerRegister (s : State) (r : Nat) : State :=
  let slot := (List.range maxReaders).find? fun i => s.consumer i = 0
  { setReader s r ⟨slot, s.head, .load, s.head, []⟩ with consumer := readerSetpos s slot s.head }

def readerUnregister (s : State) (r : Nat) : State :=
  let rd := s.reader r
  let consumer :=
    match rd.slot with
    | none => s.consumer
    | some i => update s.consumer i 0
  { setReader s r { rd with pc := .out } with consumer }

def nextKey (s : State) (r : Nat) : State :=
  let rd := s.reader r
  match rd.pc with
  | .out => s
  | .load => setReader s r { rd with pc := .resync s.head }
  | .resync h => setReader s r { rd with pos := readerResync s rd.pos, pc := .focus h }
  | .focus h =>
    let allowed :=
      match rd.slot with
      | none => true
      | some i => focusAllows s i
    setReader s r { rd with pc := .read h allowed }
  | .read h allowed =>
    if rd.pos < h then
      setReader s r { rd with pc := .advance h allowed (s.ring (rd.pos % ringCap)) }
    else
      -- `sys_yield`, and the next round
      setReader s r { rd with pc := .load }
  | .advance h allowed e =>
    let pos := (rd.pos + 1) % 2 ^ 64
    let rd :=
      if allowed && e.action == actionDown then { rd with
        pos, pc := .load, returned := rd.returned ++ [e] }
      else { rd with pos, pc := .read h allowed }
    { setReader s r rd with consumer := readerSetpos s rd.slot pos }

inductive Event where
  | post (e : KbdEvent)
  | store
  | setFocus (owner : Int)
  | register (r : Nat)
  | unregister (r : Nat)
  | nextKey (r : Nat)
  deriving DecidableEq, Repr

def step (s : State) : Event → Option State
  | .post e => if s.posting = none then some (post s e) else none
  | .store => s.posting.map (store s)
  | .setFocus owner => some { s with focusOwner := owner }
  | .register r => if (s.reader r).pc = .out then some (readerRegister s r) else none
  | .unregister r => if (s.reader r).pc = .out then none else some (readerUnregister s r)
  | .nextKey r => some (nextKey s r)

/--
The events that the reader has returned are among those that were posted since it registered, in
their order and none of them more often than it was posted.
-/
def Sound (s : State) (r : Nat) : Prop :=
  (s.reader r).returned.Sublist (s.posted.drop (s.reader r).start)

instance (s : State) (r : Nat) : Decidable (Sound s r) :=
  inferInstanceAs (Decidable (List.Sublist _ _))

def State.written (s : State) : Nat :=
  match s.posting with
  | none => s.head
  | some p => if p.stage = .key then s.head else s.head + 1

def Pc.InTime (pc : Pc) (pos written : Nat) : Prop :=
  match pc with
  | .read h _ => pos < h → written ≤ pos + ringCap
  | _ => True

instance (pc : Pc) (pos written : Nat) : Decidable (pc.InTime pos written) :=
  match pc with
  | .read h _ => inferInstanceAs (Decidable (pos < h → written ≤ pos + ringCap))
  | .out | .load | .resync _ | .focus _ | .advance _ _ _ => .isTrue trivial

def Orderly (s : State) : Event → Prop
  | .store => s.head + 1 < 2 ^ 64
  | .nextKey r => (s.reader r).pc.InTime (s.reader r).pos s.written
  | _ => True

instance (s : State) (e : Event) : Decidable (Orderly s e) :=
  match e with
  | .store => inferInstanceAs (Decidable (s.head + 1 < 2 ^ 64))
  | .nextKey r => inferInstanceAs (Decidable ((s.reader r).pc.InTime (s.reader r).pos s.written))
  | .post _ | .setFocus _ | .register _ | .unregister _ => .isTrue trivial

end Kbd
