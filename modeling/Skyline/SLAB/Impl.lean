import Mathlib

/-!
This module contains the SLAB allocator as `slab.cpp` has it.
-/

namespace SLAB

open Function

def pageSize : Nat := 4096

def maxSlabOrder : Nat := 7

def maxSlabSize : Nat := 16 <<< (maxSlabOrder - 1)

def slabBatch : Nat := 16

def drainHighWatermark : Nat := slabBatch * 4

def drainLowWatermark : Nat := slabBatch * 2

def emptyCacheLimit : Nat := 4

def pagePoolHighWatermark : Nat := 16

def pagePoolLowWatermark : Nat := 4

def slabPageMagic : Nat := 0x50414745

def largePageMagic : Nat := 0x51424D55

def sizeofSlabPage : Nat := 48

structure Page where
  magic : Nat
  cache : Nat
  freelist : List Nat
  inuse : Nat
  objects : Nat

inductive Kind where
  | part
  | full
  | empty
deriving DecidableEq

structure Cache where
  globalFreeList : List Nat
  globalFreeCount : Nat
  partialList : List Nat
  full : List Nat
  empty : List Nat
  emptyCount : Nat
  totalPages : Nat

def Cache.pages (k : Cache) : Kind → List Nat
  | .part => k.partialList
  | .full => k.full
  | .empty => k.empty

structure Magazine where
  freelist : List Nat
  count : Nat

structure State where
  cache : Nat → Cache
  page : Nat → Page
  pool : List Nat
  poolCount : Nat
  magazine : Nat → Nat → Magazine
  live : List Nat
  large : List (Nat × Nat)
  taken : List Nat
  lost : List Nat

namespace State

def setPage (s : State) (p : Nat) (pg : Page) : State :=
  { s with page := update s.page p pg }

def setCache (s : State) (c : Nat) (k : Cache) : State :=
  { s with cache := update s.cache c k }

def setMagazine (s : State) (cpu c : Nat) (m : Magazine) : State :=
  { s with magazine := update s.magazine cpu (update (s.magazine cpu) c m) }

end State

def objSize (c : Nat) : Nat := 16 <<< c

def slabAlignUp (x a : Nat) : Nat := (x + (a - 1)) / a * a

def headerSize (c : Nat) : Nat := slabAlignUp sizeofSlabPage (objSize c)

def objectsPer (c : Nat) : Nat := (pageSize - headerSize c) / objSize c

def slots (c p : Nat) : List Nat :=
  (List.range (objectsPer c)).map fun i => p + (headerSize c + i * objSize c)

def pageOf (obj : Nat) : Nat := obj - obj % pageSize

def Page.kind (pg : Page) : Kind :=
  if pg.inuse = 0 then .empty else if pg.inuse = pg.objects then .full else .part

inductive Place where
  | live
  | magazine (cpu c : Nat)
  | globalFree (c : Nat)
  | page (p : Nat)
deriving DecidableEq

def State.items (s : State) : Place → List Nat
  | .live => s.live
  | .magazine cpu c => (s.magazine cpu c).freelist
  | .globalFree c => (s.cache c).globalFreeList
  | .page p => if p ∈ s.taken then (s.page p).freelist else []

def vmmFree (s : State) (p : Nat) : State := { s with taken := s.taken.erase p }

def poolPopOldest (s : State) : Option Nat × State :=
  match s.pool with
  | [] => (none, s)
  | p :: rest => (some p, { s with pool := rest, poolCount := s.poolCount - 1 })

def popExcess : List Nat → Nat → List Nat → List Nat × Nat × List Nat
  | [], count, toFree => ([], count, toFree)
  | p :: rest, count, toFree =>
    if pagePoolLowWatermark < count then
      popExcess rest (count - 1) (p :: toFree)
    else
      (p :: rest, count, toFree)

def poolReleaseExcess (s : State) : State :=
  let (pool, count, toFree) := popExcess s.pool s.poolCount []
  toFree.foldl vmmFree { s with pool := pool, poolCount := count }

def releasePage (c : Nat) (s : State) (p : Nat) : State :=
  let k := s.cache c
  { s.setCache c { k with totalPages := k.totalPages - 1 } with
    pool := s.pool ++ [p]
    poolCount := s.poolCount + 1 }

def slabReleasePages (s : State) (c : Nat) (pages : List Nat) : State :=
  if pages = [] then
    s
  else
    let s := pages.foldl (releasePage c) s
    if pagePoolHighWatermark ≤ s.poolCount then poolReleaseExcess s else s

def poolOrVmm (s : State) (answers : List Nat) : Option Nat × List Nat × State :=
  match poolPopOldest s with
  | (some p, s) => (some p, answers, s)
  | (none, s) =>
    match answers with
    | [] => (none, [], s)
    | p :: rest => (some p, rest, { s with taken := p :: s.taken })

def slabAllocPage (s : State) (c : Nat) (answers : List Nat) : Option Nat × List Nat × State :=
  match poolOrVmm s answers with
  | (none, answers, s) => (none, answers, s)
  | (some p, answers, s) =>
    let k := s.cache c
    let n := objectsPer c
    let s := s.setPage p ⟨slabPageMagic, c, slots c p, 0, n⟩
    if n = 0 then
      (none, answers, vmmFree s p)
    else
      (some p, answers, s.setCache c { k with totalPages := k.totalPages + 1 })

def slabFpOk (c p : Nat) : Option Nat → Bool
  | none => true
  | some next =>
    let hdr := headerSize c
    let off := next - p
    p ≤ next && hdr ≤ off && off + objSize c ≤ pageSize && (off - hdr) % objSize c = 0

def fillPartial (s : State) (c : Nat) (answers : List Nat) : Option Nat × List Nat × State :=
  let k := s.cache c
  match k.partialList with
  | p :: _ => (some p, answers, s)
  | [] =>
    match k.empty with
    | p :: rest =>
      (some p, answers,
        s.setCache c { k with partialList := [p], empty := rest, emptyCount := k.emptyCount - 1 })
    | [] =>
      match slabAllocPage s c answers with
      | (none, answers, s) => (none, answers, s)
      | (some p, answers, s) =>
        (some p, answers, s.setCache c { s.cache c with partialList := [p] })

def takeSlot (s : State) (c p : Nat) : Option (Nat × State) :=
  let pg := s.page p
  let k := s.cache c
  match pg.freelist with
  | [] => none
  | obj :: rest =>
    if ¬ slabFpOk c p rest.head? then
      none
    else if pg.objects ≤ pg.inuse then
      none
    else
      let s := s.setPage p { pg with freelist := rest, inuse := pg.inuse + 1 }
      if rest = [] then
        some (obj, s.setCache c
          { k with partialList := k.partialList.erase p, full := p :: k.full })
      else
        some (obj, s)

def fillBatch (c : Nat) : Nat → State → List Nat → List Nat → Option (List Nat × State)
  | 0, s, _, batch => some (batch, s)
  | n + 1, s, answers, batch =>
    let k := s.cache c
    match k.globalFreeList with
    | obj :: rest =>
      let s := s.setCache c
        { k with globalFreeList := rest, globalFreeCount := k.globalFreeCount - 1 }
      fillBatch c n s answers (batch ++ [obj])
    | [] =>
      match fillPartial s c answers with
      | (none, _, s) => some (batch, s)
      | (some p, answers, s) =>
        match takeSlot s c p with
        | none => none
        | some (obj, s) => fillBatch c n s answers (batch ++ [obj])

def pushMagazine (cpu c : Nat) (s : State) (obj : Nat) : State :=
  let m := s.magazine cpu c
  s.setMagazine cpu c ⟨obj :: m.freelist, m.count + 1⟩

def pushGlobal (c : Nat) (s : State) (obj : Nat) : State :=
  let k := s.cache c
  s.setCache c
    { k with globalFreeList := obj :: k.globalFreeList, globalFreeCount := k.globalFreeCount + 1 }

def allocSlow (s : State) (c : Nat) (cpu : Option Nat) (answers : List Nat)
    : Option (Option Nat × State) :=
  let target := if cpu.isSome then slabBatch else 1
  match fillBatch c target s answers [] with
  | none => none
  | some ([], s) => some (none, s)
  | some (obj :: rest, s) =>
    match cpu with
    | some cpu => some (some obj, rest.foldl (pushMagazine cpu c) s)
    | none => some (some obj, rest.foldl (pushGlobal c) s)

def getCache (size : Nat) : Option Nat :=
  if maxSlabSize < size then
    none
  else if size ≤ 16 then
    some 0
  else
    let idx := Nat.log2 (size - 1) - 3
    if maxSlabOrder ≤ idx then none else some idx

def allocClass (s : State) (c : Nat) (cpu : Option Nat) (answers : List Nat)
    : Option (Option Nat × State) :=
  match cpu with
  | none => allocSlow s c none answers
  | some i =>
    let m := s.magazine i c
    if 0 < m.count then
      match m.freelist with
      | [] => none
      | obj :: rest => some (some obj, s.setMagazine i c ⟨rest, m.count - 1⟩)
    else
      allocSlow s c (some i) answers

def allocLarge (s : State) (size : Nat) (answers : List Nat) : Option Nat × State :=
  let total := size + sizeofSlabPage
  if 2 ^ 64 ≤ total then
    (none, s)
  else
    let pages := (total + (pageSize - 1)) % 2 ^ 64 / pageSize
    match answers with
    | [] => (none, s)
    | p :: _ =>
      let s := s.setPage p { s.page p with magic := largePageMagic, cache := pages }
      (some (p + sizeofSlabPage), { s with large := (p, pages) :: s.large })

def allocSized (s : State) (size : Nat) (cpu : Option Nat) (answers : List Nat)
    : Option (Option Nat × State) :=
  if maxSlabSize < size then
    some (allocLarge s size answers)
  else
    match getCache size with
    | none => some (none, s)
    | some c =>
      match allocClass s c cpu answers with
      | none => none
      | some (none, s) => some (none, s)
      | some (some obj, s) => some (some obj, { s with live := obj :: s.live })

def alloc (s : State) (size : Nat) (cpu : Option Nat) (answers : List Nat)
    : Option (Option Nat × State) :=
  allocSized s (if size = 0 then 1 else size) cpu answers

def unfull (k : Cache) (p : Nat) : Cache :=
  { k with full := k.full.erase p, partialList := p :: k.partialList }

def toEmpty (k : Cache) (p : Nat) : Cache :=
  { k with
    partialList := k.partialList.erase p
    emptyCount := k.emptyCount + 1
    empty := k.empty ++ [p] }

def trimEmpty (s : State) (c : Nat) : State :=
  let k := s.cache c
  if emptyCacheLimit < k.emptyCount then
    match k.empty with
    | [] => s
    | q :: rest =>
      { s.setCache c { k with empty := rest, emptyCount := k.emptyCount - 1 } with
        lost := q :: s.lost }
  else
    s

def relist (s : State) (c p : Nat) : State :=
  let pg := s.page p
  let s := if pg.inuse = pg.objects - 1 then s.setCache c (unfull (s.cache c) p) else s
  if pg.inuse = 0 then trimEmpty (s.setCache c (toEmpty (s.cache c) p)) c else s

def putSlot (s : State) (c obj : Nat) : Option State :=
  let p := pageOf obj
  let pg := s.page p
  if pg.magic ≠ slabPageMagic ∨ pg.cache ≠ c then
    none
  else if pg.inuse = 0 then
    none
  else
    some (relist
      (s.setPage p { pg with freelist := obj :: pg.freelist, inuse := pg.inuse - 1 }) c p)

def drainLoop (c : Nat) : Nat → State → List Nat → Option (List Nat × State)
  | 0, s, pagesToFree => some (pagesToFree, s)
  | n + 1, s, pagesToFree =>
    let k := s.cache c
    match k.globalFreeList with
    | [] => some (pagesToFree, s)
    | obj :: rest =>
      let s := s.setCache c
        { k with globalFreeList := rest, globalFreeCount := k.globalFreeCount - 1 }
      match putSlot s c obj with
      | none => none
      | some s => drainLoop c n s pagesToFree

def drainGlobalFreeListLocked (s : State) (c : Nat) : Option (List Nat × State) :=
  let n := (s.cache c).globalFreeCount
  if n < drainHighWatermark then
    some ([], s)
  else
    drainLoop c (n - drainLowWatermark) s []

def slabFlushBatchAndRelease (s : State) (c : Nat) (batch : List Nat) : Option State :=
  if batch = [] then
    some s
  else
    match drainGlobalFreeListLocked (batch.foldl (pushGlobal c) s) c with
    | none => none
    | some (pages, s) => some (slabReleasePages s c pages)

def popMagazine (cpu c : Nat) : Nat → State → List Nat → List Nat × State
  | 0, s, batch => (batch, s)
  | n + 1, s, batch =>
    let m := s.magazine cpu c
    match m.freelist with
    | [] => (batch, s)
    | obj :: rest =>
      popMagazine cpu c n (s.setMagazine cpu c ⟨rest, m.count - 1⟩) (batch ++ [obj])

def freeClass (s : State) (c obj : Nat) (cpu : Option Nat) : Option State :=
  match cpu with
  | none => slabFlushBatchAndRelease s c [obj]
  | some i =>
    -- the walk over the magazine looks at the first `SLAB_BATCH * 2 + 2` objects
    if obj ∈ (s.magazine i c).freelist.take (slabBatch * 2 + 2) then
      none
    else
      let s := pushMagazine i c s obj
      if slabBatch * 2 < (s.magazine i c).count then
        let (batch, s) := popMagazine i c slabBatch s []
        slabFlushBatchAndRelease s c batch
      else
        some s

def freeLarge (s : State) (p obj : Nat) : Option State :=
  if p + sizeofSlabPage ≠ obj then
    none
  else
    let s := s.setPage p { s.page p with magic := 0 }
    some { s with large := s.large.filter fun b => b.1 ≠ p }

def free (s : State) (obj : Nat) (cpu : Option Nat) : Option State :=
  if obj = 0 then
    some s
  else
    let p := pageOf obj
    let pg := s.page p
    if pg.magic = largePageMagic then
      freeLarge s p obj
    else if pg.magic ≠ slabPageMagic then
      none
    else
      let c := pg.cache
      let hdr := headerSize c
      let off := obj - p
      if off < hdr ∨ (off - hdr) % objSize c ≠ 0 then
        none
      else
        freeClass { s with live := s.live.erase obj } c obj cpu

def drainMagazine (cpu c : Nat) : Nat → State → Option State
  | 0, s => some s
  | fuel + 1, s =>
    if 0 < (s.magazine cpu c).count then
      let (batch, s) := popMagazine cpu c (min slabBatch (s.magazine cpu c).count) s []
      match slabFlushBatchAndRelease s c batch with
      | none => none
      | some s => drainMagazine cpu c fuel s
    else
      some s

def drainClasses (cpu : Nat) : List Nat → State → Option State
  | [], s => some s
  | c :: rest, s =>
    match drainMagazine cpu c (s.magazine cpu c).count s with
    | none => none
    | some s => drainClasses cpu rest s

def drainCpuCache (s : State) (cpu : Nat) : Option State :=
  drainClasses cpu (List.range maxSlabOrder) s

def init : State where
  cache := fun _ => ⟨[], 0, [], [], [], 0, 0⟩
  page := fun _ => ⟨0, 0, [], 0, 0⟩
  pool := []
  poolCount := 0
  magazine := fun _ _ => ⟨[], 0⟩
  live := []
  large := []
  taken := []
  lost := []

inductive Event where
  | alloc (size : Nat) (cpu : Option Nat) (answers : List Nat)
  | free (obj : Nat) (cpu : Option Nat)
  | drainCpuCache (cpu : Nat)

def step (s : State) : Event → Option State
  | .alloc size cpu answers => (alloc s size cpu answers).map Prod.snd
  | .free obj cpu => free s obj cpu
  | .drainCpuCache cpu => drainCpuCache s cpu

end SLAB
