import Mathlib

/-!
This module contains the SLUB object caches as `slub.cpp` has them.
-/

namespace SLUB

open Function

def pageSize : Nat := 4096

def maxCpu : Nat := 128

def slubPageMagic : Nat := 0x534C5542

structure Slab where
  magic : Nat
  cache : Nat
  freelist : List Nat
  foreignHead : List Nat
  inuse : Nat
  objects : Nat
  cpuOwner : Option Nat
  onPartial : Bool

structure Cache where
  objSize : Nat
  areaOff : Nat
  objsPerSlab : Nat
  partialList : List Nat
  nrPartial : Nat
  cpuActive : Nat → Option Nat
  allocCount : Nat
  freeCount : Nat
  refillCount : Nat
  pages : List Nat

structure State where
  caches : List Nat
  cache : Nat → Cache
  slab : Nat → Slab
  live : List Nat
  taken : Nat → Nat
  returned : Nat → Nat
  lost : List Nat

namespace State

def setSlab (s : State) (p : Nat) (sl : Slab) : State :=
  { s with slab := update s.slab p sl }

def setCache (s : State) (c : Nat) (k : Cache) : State :=
  { s with cache := update s.cache c k }

variable (s : State) (p q c d : Nat) (sl : Slab) (k : Cache)

@[simp]
theorem setSlab_slab : (s.setSlab p sl).slab q = if q = p then sl else s.slab q := by
  simp [setSlab, update_apply]

@[simp]
theorem setSlab_cache : (s.setSlab p sl).cache = s.cache := rfl

@[simp]
theorem setSlab_live : (s.setSlab p sl).live = s.live := rfl

@[simp]
theorem setSlab_taken : (s.setSlab p sl).taken = s.taken := rfl

@[simp]
theorem setSlab_returned : (s.setSlab p sl).returned = s.returned := rfl

@[simp]
theorem setCache_cache : (s.setCache c k).cache d = if d = c then k else s.cache d := by
  simp [setCache, update_apply]

@[simp]
theorem setCache_slab : (s.setCache c k).slab = s.slab := rfl

@[simp]
theorem setCache_live : (s.setCache c k).live = s.live := rfl

@[simp]
theorem setCache_taken : (s.setCache c k).taken = s.taken := rfl

@[simp]
theorem setCache_returned : (s.setCache c k).returned = s.returned := rfl

end State

def slubPageOf (obj : Nat) : Nat := obj - obj % pageSize

def Cache.slots (k : Cache) (p : Nat) : List Nat :=
  (List.range k.objsPerSlab).map fun i => p + (k.areaOff + i * k.objSize)

def State.liveOn (s : State) (p : Nat) : List Nat := s.live.filter fun obj => slubPageOf obj = p

def carve (k : Cache) (base : Nat) : Nat → Nat → List Nat × Nat → List Nat × Nat
  | 0, _, acc => acc
  | fuel + 1, off, (head, n) =>
    if off + k.objSize ≤ pageSize then
      carve k base fuel (off + k.objSize) ((base + off) :: head, n + 1)
    else
      (head, n)

def slubNewSlab (s : State) (c : Nat) (page : Option Nat) : Option (Nat × State) :=
  match page with
  | none => none
  | some p =>
    let k := s.cache c
    let (head, n) := carve k p (pageSize + 1) k.areaOff ([], 0)
    let s := s.setSlab p ⟨slubPageMagic, c, head, [], 0, n, none, false⟩
    let s := s.setCache c { k with pages := p :: k.pages }
    some (p, { s with taken := update s.taken p (s.taken p + 1) })

def vmmFree (s : State) (c p : Nat) : State :=
  let k := s.cache c
  let s := s.setSlab p { s.slab p with magic := 0 }
  let s := s.setCache c { k with pages := k.pages.erase p }
  { s with returned := update s.returned p (s.returned p + 1) }

def slubStackPop (s : State) (p : Nat) : Option Nat × State :=
  match (s.slab p).freelist with
  | [] => (none, s)
  | obj :: rest => (some obj, s.setSlab p { s.slab p with freelist := rest })

def link (s : State) (c p : Nat) : State :=
  let k := s.cache c
  let s := s.setSlab p { s.slab p with onPartial := true }
  s.setCache c { k with partialList := p :: k.partialList, nrPartial := k.nrPartial + 1 }

def cpuSlot (cpu : Option Nat) : Option Nat := cpu.filter (· < maxCpu)

def detach (s : State) (c : Nat) (cpu : Option Nat) (old : Nat) : State :=
  let k := s.cache c
  let s :=
    match cpu with
    | none => s
    | some i =>
      if k.cpuActive i = some old then
        s.setCache c { k with cpuActive := update k.cpuActive i none }
      else
        s
  s.setSlab old { s.slab old with cpuOwner := none }

def refill (s : State) (c : Nat) (page : Option Nat) : Option (Nat × State) :=
  let k := s.cache c
  match k.partialList with
  | [] => slubNewSlab s c page
  | p :: rest =>
    let s := s.setCache c
      { k with
        partialList := rest
        nrPartial := k.nrPartial - 1
        refillCount := k.refillCount + 1 }
    some (p, s.setSlab p { s.slab p with onPartial := false })

def adopt (s : State) (c : Nat) (cpu : Option Nat) (p : Nat) : State :=
  let k := s.cache c
  let s :=
    match cpu with
    | none => s
    | some i => s.setCache c { k with cpuActive := update k.cpuActive i (some p) }
  s.setSlab p { s.slab p with cpuOwner := cpu }

def giveBack (s : State) (c : Nat) (cpu : Option Nat) (p : Nat) : State :=
  match cpu with
  | some _ => s
  | none => if (s.slab p).freelist ≠ [] then link s c p else s

def slowRefill (s : State) (c : Nat) (cpu : Option Nat) (page : Option Nat) : Option Nat × State :=
  match refill s c page with
  | none => (none, s)
  | some (p, s) =>
    let (obj, s) := slubStackPop (adopt s c cpu p) p
    (obj, giveBack s c cpu p)

def slowAlloc (s : State) (c : Nat) (cpu old page : Option Nat) : Option Nat × State :=
  match old with
  | none => slowRefill s c cpu page
  | some p =>
    match slubStackPop s p with
    | (some revived, s) => (some revived, s)
    | (none, s) => slowRefill (detach s c cpu p) c cpu page

def harvest (s : State) (p : Nat) : State :=
  let sl := s.slab p
  s.setSlab p { sl with freelist := sl.foreignHead ++ sl.freelist, foreignHead := [] }

def popActive (s : State) (p : Nat) : Option Nat × State :=
  match slubStackPop s p with
  | (some obj, s) => (some obj, s)
  | (none, s) => slubStackPop (harvest s p) p

def countAlloc (s : State) (c obj : Nat) : State :=
  let p := slubPageOf obj
  let k := s.cache c
  let s := s.setSlab p { s.slab p with inuse := (s.slab p).inuse + 1 }
  { s.setCache c { k with allocCount := k.allocCount + 1 } with live := obj :: s.live }

def takeObject (s : State) (c : Nat) (cpu page : Option Nat) : Option Nat × State :=
  match cpu.bind (s.cache c).cpuActive with
  | none => slowAlloc s c cpu none page
  | some p =>
    match popActive s p with
    | (some obj, s) => (some obj, s)
    | (none, s) => slowAlloc s c cpu (some p) page

def alloc (s : State) (c : Nat) (cpu page : Option Nat) : Option Nat × State :=
  if c = 0 then
    (none, s)
  else
    match takeObject s c (cpuSlot cpu) page with
    | (none, s) => (none, s)
    | (some obj, s) => (some obj, countAlloc s c obj)

def linkPartialLocked (s : State) (c p : Nat) : State :=
  let sl := s.slab p
  if sl.magic ≠ slubPageMagic then
    s
  else if sl.cpuOwner = none ∧ sl.onPartial = false ∧ 0 < sl.inuse ∧ sl.inuse < sl.objects then
    link s c p
  else if sl.cpuOwner = none ∧ sl.onPartial = false ∧ sl.inuse = 0 then
    vmmFree s c p
  else
    s

def unlink (s : State) (c p : Nat) : State :=
  let k := s.cache c
  let k :=
    if p ∈ k.partialList then
      { k with partialList := k.partialList.erase p, nrPartial := k.nrPartial - 1 }
    else
      k
  (s.setCache c k).setSlab p { s.slab p with onPartial := false }

def reclaimSlab (s : State) (c p : Nat) : State :=
  let sl := s.slab p
  if sl.magic ≠ slubPageMagic then
    s
  else if sl.cpuOwner ≠ none ∨ sl.inuse ≠ 0 then
    s
  else
    vmmFree (if sl.onPartial then unlink s c p else s) c p

def push (s : State) (c p obj cpu : Nat) : State :=
  let sl := s.slab p
  let k := s.cache c
  let sl := { sl with inuse := sl.inuse - 1 }
  let sl :=
    if sl.cpuOwner = some cpu then
      { sl with freelist := obj :: sl.freelist }
    else
      { sl with foreignHead := obj :: sl.foreignHead }
  let s := (s.setSlab p sl).setCache c { k with freeCount := k.freeCount + 1 }
  { s with live := s.live.erase obj }

def free (s : State) (c obj cpu : Nat) : Option State :=
  if c = 0 ∨ obj = 0 then
    some s
  else
    let p := slubPageOf obj
    let sl := s.slab p
    if sl.magic ≠ slubPageMagic ∨ sl.cache ≠ c then
      none
    else if sl.inuse = 0 then
      none
    else
      let s := push s c p obj cpu
      if sl.inuse - 1 = 0 then
        some (if sl.cpuOwner = none then reclaimSlab s c p else s)
      else if sl.inuse = sl.objects then
        some (if sl.cpuOwner = none then linkPartialLocked s c p else s)
      else
        some s

def dropPartial (s : State) (c : Nat) : State :=
  let s := (s.cache c).partialList.foldl (fun s p => vmmFree s c p) s
  s.setCache c { s.cache c with partialList := [], nrPartial := 0 }

def dropActive (c : Nat) (s : State) (i : Nat) : State :=
  match (s.cache c).cpuActive i with
  | none => s
  | some p =>
    let s := vmmFree s c p
    let k := s.cache c
    s.setCache c { k with cpuActive := update k.cpuActive i none }

def destroy (s : State) (c : Nat) : State :=
  if c = 0 then
    s
  else
    let live := s.live.filter fun obj => slubPageOf obj ∉ (s.cache c).pages
    let s := (List.range maxCpu).foldl (dropActive c) (dropPartial s c)
    { s with caches := s.caches.erase c, live := live, lost := (s.cache c).pages ++ s.lost }

def slabAlignUp (x a : UInt64) : UInt64 := (x + (a - 1)) &&& ~~~(a - 1)

def sizeofSlab : UInt64 := 56

def create (s : State) (objSize align : UInt64) (addr : Option Nat) : Option (Option Nat × State) :=
  if objSize = 0 then
    some (none, s)
  else if align = 0 ∨ align &&& (align - 1) ≠ 0 then
    some (none, s)
  else
    let align := if align < 8 then 8 else align
    let os := (slabAlignUp objSize align).toNat % 2 ^ 32
    let off := (slabAlignUp sizeofSlab align).toNat % 2 ^ 32
    if pageSize < off + os then
      some (none, s)
    else
      match addr with
      | none => some (none, s)
      | some c =>
        if os = 0 then
          none
        else
          let k : Cache := ⟨os, off, (pageSize - off) / os, [], 0, fun _ => none, 0, 0, 0, []⟩
          some (some c, { s.setCache c k with caches := c :: s.caches })

inductive Event where
  | create (objSize align : UInt64) (addr : Option Nat)
  | alloc (c : Nat) (cpu page : Option Nat)
  | free (c obj cpu : Nat)
  | destroy (c : Nat)

def step (s : State) : Event → Option State
  | .create objSize align addr =>
    if ∀ c ∈ addr, c ≠ 0 ∧ c ∉ s.caches then
      (create s objSize align addr).map (·.2)
    else
      none
  | .alloc c cpu page =>
    if (c = 0 ∨ c ∈ s.caches) ∧ ∀ p ∈ page, p % pageSize = 0 ∧ s.taken p = s.returned p then
      some (alloc s c cpu page).2
    else
      none
  | .free c obj cpu => free s c obj cpu
  | .destroy c => if c = 0 ∨ c ∈ s.caches then some (destroy s c) else none

def init : State where
  caches := []
  cache _ := ⟨0, 0, 0, [], 0, fun _ => none, 0, 0, 0, []⟩
  slab _ := ⟨0, 0, [], [], 0, 0, none, false⟩
  live := []
  taken _ := 0
  returned _ := 0
  lost := []

end SLUB
