import Skyline.VMM.Basic

/-!
This module contains the mapping records of a page map: a pool of records and a ring of them.
-/

namespace VMM

def setNext (s : State) (ptr next : Nat) : Except Fault State :=
  if ptr = 0 then .error .null else .ok (s.setMapping ptr { s.mapping ptr with next })

def setPrev (s : State) (ptr prev : Nat) : Except Fault State :=
  if ptr = 0 then .error .null else .ok (s.setMapping ptr { s.mapping ptr with prev })

def chainPage (mapping : Nat → Mapping) (pg : Nat) : Nat → Mapping :=
  fun a =>
    if pg < a ∧ a < pg + 102 * 40 ∧ (a - pg) % 40 = 0 then
      { mapping a with next := if a + 40 < pg + 102 * 40 then a + 40 else 0 }
    else
      mapping a

def mapAllocNode (s : State) : Except Fault (Nat × State) := do
  if s.mapFreeList = 0 then
    match ← request s with
    | (none, s) => return (0, s)
    | (some pg, s) =>
      return (pg, { s with
        mapping := chainPage s.mapping pg
        mapFreeList := pg + 40
        mapPages := pg :: s.mapPages
      })
  else
    return (s.mapFreeList, { s with mapFreeList := (s.mapping s.mapFreeList).next })

def mapFreeNode (s : State) (ptr : Nat) : Except Fault State := do
  let s ← setNext s ptr s.mapFreeList
  return { s with mapFreeList := ptr }

def newMapping (s : State) (pm start pageCount : Nat) (flags : BitVec 64) : Except Fault State := do
  let (m, s) ← mapAllocNode s
  if m = 0 then
    return s
  else
    let s := s.setMapping m { s.mapping m with start, pageCount, flags }
    let s := { s with live := s.live ++ [(pm, m)] }
    let head := (s.pagemap pm).vmMappings
    if head ≠ 0 then
      let s ← setPrev s m (s.mapping head).prev
      let s ← setNext s m head
      let s ← setNext s (s.mapping head).prev m
      setPrev s head m
    else
      let s ← setPrev s m m
      let s ← setNext s m m
      return s.setPagemap pm { s.pagemap pm with vmMappings := m }

def removeMapping (s : State) (m : Nat) : Except Fault State := do
  let s ← setPrev s (s.mapping m).next (s.mapping m).prev
  let s ← setNext s (s.mapping m).prev (s.mapping m).next
  mapFreeNode { s with live := s.live.filter fun x => x.2 != m } m

def walkFuel (s : State) : Nat :=
  102 * s.mapPages.length + 1

def removeMappingAt (s : State) (ptr stop : Nat) (fuel : Nat) (m : Nat) : Except Fault State :=
  match fuel with
  | 0 => .error .endless
  | fuel + 1 =>
    if m = 0 then
      .error .null
    else if (s.mapping m).start = ptr then
      removeMapping s m
    else if (s.mapping m).next = stop then
      .ok s
    else
      removeMappingAt s ptr stop fuel (s.mapping m).next

def countMappings (s : State) (stop : Nat) (fuel : Nat) (m : Nat) : Except Fault Nat :=
  match fuel with
  | 0 => .error .endless
  | fuel + 1 =>
    if m = 0 then
      .error .null
    else if (s.mapping m).next = stop then
      .ok 1
    else do
      let n ← countMappings s stop fuel (s.mapping m).next
      return n + 1

def removeMappings (s : State) (n m : Nat) : Except Fault State :=
  match n with
  | 0 => .ok s
  | n + 1 =>
    if m = 0 then
      .error .null
    else do
      let next := (s.mapping m).next
      let s ← removeMapping s m
      removeMappings s n next

end VMM
