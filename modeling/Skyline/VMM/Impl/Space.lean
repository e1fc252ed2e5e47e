import Skyline.VMM.Impl.Table
import Skyline.VMM.Impl.Region
import Skyline.VMM.Impl.Mapping

/-!
This module contains the operations on whole address spaces and the reference counts of their shared
frames.
-/

namespace VMM

def kmalloc (s : State) : Bool × State :=
  match s.heap with
  | [] => (true, s)
  | ok :: heap => (ok, { s with heap })

def setCount (s : State) (phys : Nat) (count : Option Nat) : State :=
  { s with rcTree := fun a => if a = phys then count else s.rcTree a }

def refSharedPhys (s : State) (phys : Nat) : Bool × State :=
  match kmalloc s with
  | (false, s) => (false, s)
  | (true, s) =>
    match s.rcTree phys with
    | some count => (true, setCount s phys (some ((count + 1) % 2 ^ 32)))
    | none => (true, setCount s phys (some 2))

def refDecPhys (s : State) (phys : Nat) : Bool × State :=
  match s.rcTree phys with
  | none => (true, s)
  | some count =>
    let count := (count + 2 ^ 32 - 1) % 2 ^ 32
    if count = 0 then (true, setCount s phys none) else (false, setCount s phys (some count))

def unrefSharedPhys (s : State) (phys : Nat) : State :=
  match refDecPhys s phys with
  | (true, s) => pmmFree s phys
  | (false, s) => s

def heightOf (size : Nat) : Nat :=
  if size = 1073741824 then 2 else if size = 2097152 then 1 else 0

/--
The entries of the upper half of the kernel page map are copied, so that the tables below them are
shared.
-/
def kernelHalf (entries : Nat → Entry) : Nat → Entry :=
  fun i => if 256 ≤ i then entries i else .none

def emptySpace (s : State) (toplvl : Nat) : Pagemap :=
  { Pagemap.empty with toplvl, entries := kernelHalf (s.pagemap s.kernelPagemap).entries }

def newPM (s : State) : Except Fault (Nat × State) := do
  let (pm, s) ← requestUnchecked s
  let (toplvl, s) ← requestUnchecked s
  let s := s.setPagemap pm (emptySpace s toplvl)
  let s ← setStart s pm ((s.hhdmOffset + 0x100000000000) % 2 ^ 64)
  return (pm, s)

def freeSharedRegion (s : State) (pm start stop : Nat) : State :=
  (Loop.whileDo freeSharedPage ((stop - start) / 4096 + 2) (start, s)).2
where
  freeSharedPage (acc : Nat × State) : (Nat × State) × Bool :=
    let (v, s) := acc
    if v < stop then
      let info := getPageInfo s pm v
      if info.size = 0 then
        ((v + 4096, s), true)
      else
        let s := unmapNoFlush s pm v
        -- The inner loop ends at `stop` too, should the page go beyond it.
        let sub := min (info.size / 4096) ((stop - v + 4095) / 4096)
        let s := Loop.forRange (fun k s => unrefSharedPhys s (info.phys + k * 4096)) 0 sub s
        ((v + info.size, s), true)
    else
      ((v, s), false)

def flushBatch (s : State) (physList : List Nat) : State :=
  physList.foldl pmmFree s

def pushPhys (acc : List Nat × State) (phys : Nat) : List Nat × State :=
  let (physList, s) := acc
  if physList.length + 1 > 256 then ([phys], flushBatch s physList) else (physList ++ [phys], s)

def freeOwnedRegion (s : State) (pm start stop : Nat) : State :=
  let (_, physList, s) := Loop.whileDo freeOwnedPage ((stop - start) / 4096 + 2) (start, [], s)
  flushBatch s physList
where
  freeOwnedPage (acc : Nat × List Nat × State) : (Nat × List Nat × State) × Bool :=
    let (v, physList, s) := acc
    if v < stop then
      let info := getPageInfo s pm v
      if info.size = 0 then
        ((v + 4096, physList, s), true)
      else if info.size = 1073741824 then
        let next := getPageInfo s pm (v + 1073741824)
        if next.size = 1073741824 ∧ next.phys = info.phys + 1073741824 then
          let (physList, s) := pushPhys (physList, s) info.phys
          let s := unmapNoFlush (unmapNoFlush s pm v) pm (v + 1073741824)
          ((v + 2147483648, physList, s), true)
        else
          let (physList, s) := Loop.forRange (fun j acc => pushPhys acc (info.phys + j * 2097152))
            0 512 (physList, s)
          ((v + 1073741824, physList, unmapNoFlush s pm v), true)
      else
        let (physList, s) := pushPhys (physList, s) info.phys
        ((v + info.size, physList, unmapNoFlush s pm v), true)
    else
      ((v, physList, s), false)

def freeRegion (s : State) (pm : Nat) (r : Region) : State :=
  if has r.flags vmmSharedBit then freeSharedRegion s pm r.start (r.start + r.pageCount * 4096)
  else freeOwnedRegion s pm r.start (r.start + r.pageCount * 4096)

def requestIf (cond : Prop) [Decidable cond] (req : State → Except Fault (Option Nat × State))
    (s : State)
    : Except Fault (Option Nat × State) :=
  if cond then req s else .ok (none, s)

def allocPages (s : State) (pm addr pc : Nat) (flags : BitVec 64) : Except Fault (Nat × State) :=
  Loop.whileDoE allocPage (pc + 1) (0, s)
where
  allocPage (acc : Nat × State) : Except Fault ((Nat × State) × Bool) := do
    let (mapped, s) := acc
    if mapped < pc then
      let cv := addr + mapped * 4096
      let rem := pc - mapped
      let (p, s) ← requestIf (rem ≥ 524288 ∧ cv % 2147483648 = 0) request2GB s
      match p with
      | some p =>
        let s ← map1G s pm cv p flags
        let s ← map1G s pm (cv + 1073741824) (p + 1073741824) flags
        return ((mapped + 524288, s), true)
      | none =>
        let (p, s) ← requestIf (rem ≥ 512 ∧ cv % 2097152 = 0) request2MB s
        match p with
        | some p =>
          let s ← map2M s pm cv p flags
          return ((mapped + 512, s), true)
        | none =>
          let (p, s) ← request s
          match p with
          | some p =>
            let s ← map4K s pm cv p flags
            return ((mapped + 1, s), true)
          | none => return ((mapped, s), false)
    else
      return ((mapped, s), false)

def ensureRegion (s : State) (pm addr pc : Nat) (flags : BitVec 64) : Except Fault State :=
  match findRegion s pm addr with
  | none => addRegion s pm addr pc flags
  | some _ => .ok s

def undoAlloc (s : State) (pm addr mapped : Nat) : State :=
  let s := freeOwnedRegion s pm addr (addr + mapped * 4096)
  match findRegion s pm addr with
  | none => s
  | some r => removeRegion s pm r.node

def alloc (s : State) (pm pc : Nat) (user : Bool) (rand : Nat) : Except Fault (Nat × State) := do
  let flags := mmRead ||| mmWrite ||| (if user then mmUser else 0#64)
  if pc = 0 then
    return (0, s)
  else
    let (addr, s) ← internalAlloc s pm pc flags 0 rand
    if addr = 0 then
      return (0, s)
    else
      let s ← ensureRegion s pm addr pc flags
      let (mapped, s) ← allocPages s pm addr pc flags
      if mapped < pc then
        return (0, undoAlloc s pm addr mapped)
      else
        let s ← newMapping s pm addr pc flags
        return (addr, s)

def dropMapping (s : State) (pm ptr : Nat) : Except Fault State :=
  let m := (s.pagemap pm).vmMappings
  if m = 0 then .ok s else removeMappingAt s ptr m (walkFuel s) m

def free (s : State) (pm ptr : Nat) : Except Fault State := do
  if pm = 0 ∨ ptr = 0 ∨ ptr % 4096 ≠ 0 then
    return s
  else
    let map := s.pagemap pm
    match findRegion s pm ptr, map.vmaHead with
    | some region, some head =>
      if region.start ≠ ptr then
        return s
      else
        let s := s.setPagemap pm
          { map with vmaCursor := prevNode head.node map.regions region.node }
        let s := freeRegion s pm region
        let s ← dropMapping s pm ptr
        return removeRegion s pm region.node
    | _, _ => return s

def refPages (s : State) (phys n : Nat) : Nat × State :=
  match n with
  | 0 => (0, s)
  | n + 1 =>
    match refSharedPhys s phys with
    | (false, s) => (0, s)
    | (true, s) =>
      let (count, s) := refPages s (phys + 4096) n
      (count + 1, s)

def forkPage (s : State) (parent child v : Nat) (info : PageInfo) : Except Fault (Bool × State) :=
  do
  let nf := (info.flags &&& ~~~mmWrite) ||| vmmCowBit
  let height := heightOf info.size
  let s ← mapPage s height child v info.phys nf
  let s ← mapPage s height parent v info.phys nf
  let (okCount, s) := refPages s info.phys (info.size / 4096)
  if okCount < info.size / 4096 then
    let s := Loop.forRange (fun k s => unrefSharedPhys s (info.phys + k * 4096)) 0 okCount s
    let s := unmapNoFlush (unmapNoFlush s child v) parent v
    let s ← mapPage s height parent v info.phys info.flags
    return (false, s)
  else
    return (true, s)

def forkPages (s : State) (parent child : Nat) (r : Region) : Except Fault (Bool × State) := do
  let (_, _, ok, s) ← Loop.whileDoE next (r.pageCount + 1) (r.start, 0, true, s)
  return (ok, s)
where
  next (acc : Nat × Nat × Bool × State) : Except Fault ((Nat × Nat × Bool × State) × Bool) := do
    let (v, mapped, _, s) := acc
    if mapped < r.pageCount then
      let info := getPageInfo s parent v
      if info.size = 0 then
        return ((v, mapped, true, s), false)
      else
        match ← forkPage s parent child v info with
        | (false, s) => return ((v, mapped, false, s), false)
        | (true, s) => return ((v + info.size, mapped + info.size / 4096, true, s), true)
    else
      return ((v, mapped, true, s), false)

def markShared (map : Pagemap) (node : Nat) : Pagemap :=
  { updateRegion map node mark with
    vmaHead := map.vmaHead.map fun r => if r.node = node then mark r else r
  }
where
  mark (r : Region) : Region :=
    { r with flags := r.flags ||| vmmSharedBit }

def forkRegions (s : State) (parent child : Nat) (regions : List Region)
    : Except Fault (Bool × State) :=
  match regions with
  | [] => .ok (true, s)
  | r :: rest =>
    if r.start ≥ higherHalfZero s.hhdmOffset then
      forkRegions s parent child rest
    else do
      match ← forkPages s parent child r with
      | (false, s) => return (false, s)
      | (true, s) =>
        let s := s.setPagemap parent (markShared (s.pagemap parent) r.node)
        let s ← addRegion s child r.start r.pageCount (r.flags ||| vmmSharedBit)
        let s ← newMapping s child r.start r.pageCount (r.flags ||| vmmSharedBit)
        forkRegions s parent child rest

def cleanRegions (s : State) (pm : Nat) : State :=
  let map := s.pagemap pm
  match map.vmaHead with
  | none => s
  | some head =>
    let s := map.regions.foldl cleanRegion s
    let s := pmmFree s head.node
    s.setPagemap pm { s.pagemap pm with vmaHead := none, vmaCursor := 0 }
where
  cleanRegion (s : State) (r : Region) : State :=
    let s := if r.start < higherHalfZero s.hhdmOffset then freeRegion s pm r else s
    removeRegion s pm r.node

def cleanMappings (s : State) (pm : Nat) : Except Fault State :=
  let m := (s.pagemap pm).vmMappings
  if m = 0 then
    .ok s
  else do
    let n ← countMappings s m (walkFuel s) m
    removeMappings s n m

def cleanPM (s : State) (pm : Nat) : Except Fault State := do
  let s ← cleanMappings (cleanRegions s pm) pm
  return s.setPagemap pm { s.pagemap pm with vmMappings := 0 }

def freePageTables (level : Nat) (entries : Nat → Entry) (s : State) : State :=
  match level with
  | 0 => s
  | 1 => s
  | level + 2 =>
    Loop.forRange (fun i s =>
      match entries i with
      | .table frame below => pmmFree (freePageTables (level + 1) below s) frame
      | _ => s) 0 256 s

def destroyPM (s : State) (pm : Nat) : Except Fault State := do
  let s ← cleanPM s pm
  let map := s.pagemap pm
  let s := freePageTables 4 map.entries s
  let s := pmmFree (pmmFree s map.toplvl) pm
  return s.setPagemap pm Pagemap.empty

def fork (s : State) (parent : Nat) : Except Fault (Option Nat × State) := do
  let (child, s) ← requestUnchecked s
  let (toplvl, s) ← requestUnchecked s
  let s := s.setPagemap child (emptySpace s toplvl)
  match (s.pagemap parent).vmaHead with
  | none => return (some child, s)
  | some head =>
    let s ← setStart s child head.start
    match ← forkRegions s parent child (head :: (s.pagemap parent).regions) with
    | (true, s) => return (some child, s)
    | (false, s) =>
      let s ← destroyPM s child
      return (none, s)

def efault : Nat := 2 ^ 64 - 14

def einval : Nat := 2 ^ 64 - 22

def pagesOf (length : Nat) : Nat :=
  if length % 4096 ≠ 0 then length / 4096 + 1 else length / 4096

def cutTail (s : State) (pm : Nat) (r : Region) (stop : Nat) : Except Fault State :=
  if stop < regionEnd r then splitRegion s pm r stop else .ok s

def sysMunmap (s : State) (pm addr length : Nat) : Except Fault (Nat × State) := do
  if pm = 0 then
    return (efault, s)
  else if pagesOf length = 0 then
    return (0, s)
  else if addr % 4096 ≠ 0 then
    return (einval, s)
  else
    let stop := (addr + pagesOf length * 4096) % 2 ^ 64
    if stop < addr then
      return (einval, s)
    else
      match findRegion s pm addr with
      | none => return (einval, s)
      | some r =>
        if addr < r.start then
          return (einval, s)
        else
          -- A failed split is not noticed here.
          let s ← cutTail s pm r stop
          let s ← free s pm addr
          return (0, s)

end VMM
