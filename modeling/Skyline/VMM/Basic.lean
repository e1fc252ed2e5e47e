import Skyline.PMM.Impl.Api

/-!
This module contains the data model of the virtual memory manager.
-/

namespace VMM

def mmRead : BitVec 64 := 1#64

def mmWrite : BitVec 64 := 2#64

def mmUser : BitVec 64 := 4#64

def mmNx : BitVec 64 := 1#64 <<< 63

def vmmPsBit : BitVec 64 := 1#64 <<< 7

def vmmCowBit : BitVec 64 := 1#64 <<< 55

def vmmSharedBit : BitVec 64 := 1#64 <<< 56

def pteKeep : BitVec 64 := 0xFFF0000000000FFF#64

/--
`HIGHER_HALF(0)`: the macro casts the sum back to the type of the literal, which is `int`.
-/
def higherHalfZero (hhdmOffset : Nat) : Nat :=
  if hhdmOffset % 2 ^ 32 < 2 ^ 31 then hhdmOffset % 2 ^ 32
  else hhdmOffset % 2 ^ 32 + (2 ^ 64 - 2 ^ 32)

def has (flags bit : BitVec 64) : Bool :=
  flags &&& bit != 0#64

inductive Entry where
  | none
  | leaf (phys : Nat) (flags : BitVec 64)
  | table (frame : Nat) (entries : Nat → Entry)

def span (height : Nat) : Nat :=
  4096 * 512 ^ height

def index (height vaddr : Nat) : Nat :=
  vaddr / span height % 512

structure PageInfo where
  phys : Nat
  size : Nat
  flags : BitVec 64
  deriving DecidableEq, Repr

structure Region where
  node : Nat
  start : Nat
  pageCount : Nat
  flags : BitVec 64
  deriving DecidableEq, Repr

structure Mapping where
  start : Nat
  pageCount : Nat
  flags : BitVec 64
  next : Nat
  prev : Nat
  deriving DecidableEq, Repr

/--
The regions stand in the order of their list, and once more in that of their red-black tree. The
shape of the tree is left out, since every walk depends on the order only.
-/
structure Pagemap where
  toplvl : Nat
  entries : Nat → Entry
  vmMappings : Nat
  vmaHead : Option Region
  regions : List Region
  vmaTree : List Region
  vmaCursor : Nat

def Pagemap.empty : Pagemap where
  toplvl := 0
  entries := fun _ => .none
  vmMappings := 0
  vmaHead := none
  regions := []
  vmaTree := []
  vmaCursor := 0

structure State where
  pmm : PMM.State
  cpu : Option Nat
  hhdmOffset : Nat
  pagemap : Nat → Pagemap
  kernelPagemap : Nat
  rcTree : Nat → Option Nat
  nodeFreeList : List Nat
  nodePages : List Nat
  mapping : Nat → Mapping
  mapFreeList : Nat
  mapPages : List Nat
  live : List (Nat × Nat)
  heap : List Bool
  freed : List Nat

inductive Fault where
  | null
  | leafAsTable
  | nodePage
  | endless
  deriving DecidableEq, Repr

namespace State

def setPagemap (s : State) (pm : Nat) (map : Pagemap) : State :=
  { s with pagemap := fun a => if a = pm then map else s.pagemap a }

def setEntries (s : State) (pm : Nat) (entries : Nat → Entry) : State :=
  s.setPagemap pm { s.pagemap pm with entries }

def setMapping (s : State) (ptr : Nat) (m : Mapping) : State :=
  { s with mapping := fun a => if a = ptr then m else s.mapping a }

end State

def handOut (s : State) (n : Nat) (res : Option Nat × PMM.State)
    : Except Fault (Option Nat × State) :=
  match res with
  | (none, pmm) => .ok (none, { s with pmm })
  | (some ptr, pmm) =>
    if s.nodePages.any fun p => ptr / 4096 ≤ p && p < ptr / 4096 + n then .error .nodePage
    else .ok (some ptr, { s with pmm })

def request (s : State) : Except Fault (Option Nat × State) :=
  handOut s 1 (PMM.request s.pmm s.cpu 1)

def request2MB (s : State) : Except Fault (Option Nat × State) :=
  handOut s 512 (PMM.request2MB s.pmm)

def request2GB (s : State) : Except Fault (Option Nat × State) :=
  handOut s 524288 (PMM.request2GB s.pmm)

def requestUnchecked (s : State) : Except Fault (Nat × State) :=
  match request s with
  | .error e => .error e
  | .ok (none, _) => .error .null
  | .ok (some ptr, s) => .ok (ptr, s)

def pmmFree (s : State) (ptr : Nat) : State :=
  { s with
    pmm := PMM.free s.pmm s.cpu ptr 1
    freed := ptr :: s.freed
  }

theorem bind_ok {ε α β : Type} {x : Except ε α} {f : α → Except ε β} {b : β}
    : (x >>= f) = .ok b ↔ ∃ (a : α), x = .ok a ∧ f a = .ok b := by
  cases x with
  | error => simp [bind, Except.bind]
  | ok => simp [bind, Except.bind]

theorem request_rest {s s' : State} {ptr : Option Nat} (h : request s = .ok (ptr, s'))
    : s' = { s with pmm := s'.pmm } := by
  unfold request handOut at h
  split at h
  next => cases h; rfl
  next =>
    split at h
    next => cases h
    next => cases h; rfl

theorem ok_of_toOption {ε α : Type} {x : Except ε α} {a : α} (h : x.toOption = some a)
    : x = .ok a := by
  cases x with
  | error => cases h
  | ok => exact congrArg _ (Option.some.inj h)

theorem exists_ok {ε α : Type} {x : Except ε α} {P : α → Prop} (h : ∃ a ∈ x.toOption, P a)
    : ∃ (a : α), x = .ok a ∧ P a := by
  cases x with
  | error => simp [Except.toOption] at h
  | ok => simpa [Except.toOption] using h

end VMM
