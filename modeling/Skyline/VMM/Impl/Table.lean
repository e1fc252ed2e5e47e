import Skyline.VMM.Basic

/-!
This module contains the page tables: the walk, the maps of the three page sizes, and the unmap.
-/

namespace VMM

def Entry.walk (height : Nat) (e : Entry) (vaddr : Nat) : PageInfo :=
  match height, e with
  | _, .none => ⟨0, 0, 0#64⟩
  | height, .leaf phys flags => ⟨phys, span height, flags⟩
  | 0, .table _ _ => ⟨0, 0, 0#64⟩
  | height + 1, .table _ entries => (entries (index height vaddr)).walk height vaddr

def Entry.unmap (height : Nat) (e : Entry) (vaddr : Nat) : Entry :=
  match height, e with
  | _, .none => .none
  | _, .leaf _ _ => .none
  | 0, .table frame entries => .table frame entries
  | height + 1, .table frame entries =>
    .table frame fun i =>
      if i = index height vaddr then (entries i).unmap height vaddr else entries i

def Entry.entries (e : Entry) : Nat → Entry :=
  match e with
  | .table _ entries => entries
  | _ => fun _ => .none

def Entry.isLeaf (e : Entry) : Bool :=
  match e with
  | .leaf _ _ => true
  | _ => false

def Entry.find (height : Nat) (e : Entry) (k vaddr : Nat) : Entry :=
  match height with
  | 0 => e
  | height + 1 =>
    if k ≤ height then (e.entries (index height vaddr)).find height k vaddr else e

def Entry.set (height : Nat) (e : Entry) (k vaddr : Nat) (x : Entry) : Entry :=
  match height with
  | 0 => x
  | height + 1 =>
    if k ≤ height then
      match e with
      | .table frame entries =>
        .table frame fun i =>
          if i = index height vaddr then (entries i).set height k vaddr x else entries i
      | e => e
    else
      x

def Pagemap.root (map : Pagemap) : Entry :=
  .table map.toplvl map.entries

def getPageInfo (s : State) (pm vaddr : Nat) : PageInfo :=
  (s.pagemap pm).root.walk 4 vaddr

def getPhysics (s : State) (pm vaddr : Nat) : Nat :=
  (getPageInfo s pm vaddr).phys

def setEntry (s : State) (pm k vaddr : Nat) (x : Entry) : State :=
  s.setEntries pm ((s.pagemap pm).root.set 4 k vaddr x).entries

def newLevel (s : State) (pm vaddr k : Nat) : Except Fault State :=
  match (s.pagemap pm).root.find 4 k vaddr with
  | .table _ _ => .ok s
  | .leaf _ _ => .error .leafAsTable
  | .none => do
    let (frame, s) ← requestUnchecked s
    return setEntry s pm k vaddr (.table frame fun _ => .none)

def newLevels (s : State) (pm vaddr k n : Nat) : Except Fault State :=
  match n with
  | 0 => .ok s
  | n + 1 => do
    let s ← newLevel s pm vaddr (k + n + 1)
    newLevels s pm vaddr k n

def leafEntry (height paddr : Nat) (flags : BitVec 64) : Entry :=
  let flags := (flags &&& pteKeep) ||| (if height = 0 then 0#64 else vmmPsBit)
  if has flags mmRead then .leaf (paddr % 2 ^ 52 / span height * span height) flags else .none

def mapPage (s : State) (height pm vaddr paddr : Nat) (flags : BitVec 64) : Except Fault State := do
  let s ← newLevels s pm vaddr height (3 - height)
  return setEntry s pm height vaddr (leafEntry height paddr flags)

def map4K (s : State) (pm vaddr paddr : Nat) (flags : BitVec 64) : Except Fault State :=
  mapPage s 0 pm vaddr paddr flags

def map2M (s : State) (pm vaddr paddr : Nat) (flags : BitVec 64) : Except Fault State :=
  mapPage s 1 pm vaddr paddr flags

def map1G (s : State) (pm vaddr paddr : Nat) (flags : BitVec 64) : Except Fault State :=
  mapPage s 2 pm vaddr paddr flags

def rangeHeight (cv cp rem : Nat) : Nat :=
  if cv % 1073741824 = 0 ∧ cp % 1073741824 = 0 ∧ rem ≥ 262144 then 2
  else if cv % 2097152 = 0 ∧ cp % 2097152 = 0 ∧ rem ≥ 512 then 1
  else 0

def mapRangeFrom (s : State) (pm vaddr paddr : Nat) (flags : BitVec 64) (count mapped fuel : Nat)
    : Except Fault State :=
  match fuel with
  | 0 => .ok s
  | fuel + 1 =>
    if mapped < count then do
      let cv := vaddr + mapped * 4096
      let cp := paddr + mapped * 4096
      let height := rangeHeight cv cp (count - mapped)
      let s ← mapPage s height pm cv cp flags
      mapRangeFrom s pm vaddr paddr flags count (mapped + 512 ^ height) fuel
    else
      .ok s

def mapRange (s : State) (pm vaddr paddr : Nat) (flags : BitVec 64) (count : Nat)
    : Except Fault State :=
  mapRangeFrom s pm vaddr paddr flags count 0 count

def unmapNoFlush (s : State) (pm vaddr : Nat) : State :=
  s.setEntries pm ((s.pagemap pm).root.unmap 4 vaddr).entries

end VMM
