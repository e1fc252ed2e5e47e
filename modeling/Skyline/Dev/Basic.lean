import Skyline.Bytes.Basic

/-!
This module contains block devices as far as their byte access knows them.
-/

namespace Dev

open Bytes

structure DevOps where
  read : Bool
  write : Bool
  read_ : Bool
  write_ : Bool
  readBytes : Bool
  writeBytes : Bool
  readBytes_ : Bool
  writeBytes_ : Bool
deriving DecidableEq

structure Device where
  undefined : Bool
  ops : DevOps
  maxSectorCount : Nat
  maxSectorCount_lt : maxSectorCount < 2 ^ 64

structure World where
  disk : Row
  mem : Row
  answers : Nat → Bool
  calls : Nat

def World.called (w : World) : World := { w with calls := w.calls + 1 }

/--
A driver has no `ReadBytes_` or `WriteBytes_`, so nothing is known about a call of them.
-/
inductive Fault where
  | nullOp
  | unknownOp
  | nullBuffer
  | overrun
deriving DecidableEq

abbrev Outcome := Except Fault (Bool × World)

variable (d : Device) (w : World)

def Device.readSectors (lba cnt : Nat) : Option Row × World :=
  if lba + cnt ≤ d.maxSectorCount ∧ w.answers w.calls = true then
    (some (w.disk.drop (lba * 512)), w.called)
  else
    (none, w.called)

def Device.writeSectors (lba cnt : Nat) (src : Row) : Bool × World :=
  if lba + cnt ≤ d.maxSectorCount ∧ w.answers w.calls = true then
    (true, { w.called with disk := w.disk.put (lba * 512) (cnt * 512) src })
  else
    (false, w.called)

def Device.Inside (address count : Nat) : Prop :=
  count = 0 ∨ address + count ≤ d.maxSectorCount * 512

instance (address count : Nat) : Decidable (d.Inside address count) :=
  inferInstanceAs (Decidable (_ ∨ _))

def World.afterRead (address count buf : Nat) : World :=
  { w with mem := w.mem.put buf count (w.disk.drop address) }

def World.afterWrite (address count buf : Nat) : World :=
  { w with disk := w.disk.put address count (w.mem.drop buf) }

inductive Way where
  | read
  | write
deriving DecidableEq

def World.after (way : Way) (address count buf : Nat) : World :=
  match way with
  | .read => w.afterRead address count buf
  | .write => w.afterWrite address count buf

def World.Same (w w' : World) : Prop := w'.disk = w.disk ∧ w'.mem = w.mem

def Meets (way : Way) (address count buf : Nat) (w : World) : Outcome → Prop
  | .error _ => False
  | .ok (done, w') =>
    (done = true → (w.after way address count buf).Same w') ∧
    (d.Inside address count → (∀ (n : Nat), w.answers n = true) → done = true) ∧
    (¬ d.Inside address count → done = false ∧ w.Same w')

def Exact (way : Way) (address count buf : Nat) (run : World → Outcome) : Prop :=
  ∀ (w : World), Meets d way address count buf w (run w)

end Dev
