import Skyline.PMM.Impl.Api

/-!
This module contains the initialisation of the physical memory manager from the boot memory map.
-/

namespace PMM

def truncate (e : MemmapEntry) : MemmapEntry :=
  e.shrink (e.length / 4096 * 4096) (by omega)

def maxEnd (p : MemmapEntry → Bool) (entries : List MemmapEntry) : Nat :=
  entries.foldl (fun acc e => if p e ∧ e.base + e.length > acc then e.base + e.length else acc) 0

def maxPhys (entries : List MemmapEntry) : Nat :=
  let top := maxEnd (fun e => e.type = .usable) entries
  if top = 0 then maxEnd (fun _ => true) entries else top

def divRoundUp (x y : Nat) : Nat :=
  (x + (y - 1)) / y

def alignUp (x y : Nat) : Nat :=
  divRoundUp x y * y

def totalMeta (totalL2Bits totalL3Bits : Nat) : Nat :=
  alignUp (totalL2Bits * 8 * 8) 4096
    + alignUp (totalL3Bits * 16 * 8) 4096
    + alignUp ((totalL3Bits + 63) / 64 * 8) 4096
    + alignUp ((totalL2Bits + 63) / 64 * 8) 4096
    + alignUp (totalL3Bits * 64) 4096

def place (size : Nat) (entries : List MemmapEntry) : Option (List MemmapEntry × Nat) :=
  match entries with
  | [] => none
  | e :: rest =>
    if e.type ≠ .usable ∨ e.length < size then
      match place size rest with
      | none => none
      | some (rest, base) => some (e :: rest, base)
    else
      let e := e.shrink (e.length - size) (by omega)
      some (e :: rest, e.base + e.length)

def clearUsableL2 (l2Map : Bitmap) (e : MemmapEntry) : Bitmap :=
  let stop := e.base + e.length
  if e.type ≠ .usable ∨ e.length = 0 then
    l2Map
  else if stop = 0 then
    l2Map
  else
    bitsClear l2Map (e.base / 2097152) ((stop - 1) / 2097152 + 1)

def clearL3 (l3 : Nat) (s : State) : State :=
  if wordsAll s.l2Map (l3 * 16) 16 (BitVec.allOnes 64) then
    s
  else
    { s with l3Map := bitClear s.l3Map l3 }

def reserveBootloaderMemory (s : State) : State :=
  s.memmap.foldl reserve s
where
  reserve (s : State) (e : MemmapEntry) : State :=
    let first := e.base / 4096
    let count := (e.length + 4095) / 4096
    if e.type ≠ .bootloaderReclaimable then
      s
    else if e.length = 0 then
      s
    else if first ≥ s.bitmapPages then
      s
    else
      markAllocated s first (if count > s.bitmapPages - first then s.bitmapPages - first else count)

def recomputeL2 (l2 : Nat) (s : State) : State :=
  let s := ensureL2Init s l2
  if l2BlockFull s l2 then
    { s with l2Map := bitSet s.l2Map l2 }
  else
    { s with l2Map := bitClear s.l2Map l2 }

def recomputeL3 (l3 : Nat) (s : State) : State :=
  if wordsAll s.l2Map (l3 * 16) 16 (BitVec.allOnes 64) then
    { s with l3Map := bitSet s.l3Map l3 }
  else
    { s with l3Map := bitClear s.l3Map l3 }

def countBlock (l2 : Nat) (s : State) : State :=
  if bitTest s.l2Map l2 then
    s
  else
    let cnt := clearBits s.l1Map (l2 * 8) 8
    let si := l2 / 1024
    let s := s.setShard si { s.shards si with freePages := (s.shards si).freePages + cnt }
    { s with freePages := s.freePages + cnt }

def freshState (memmap : List MemmapEntry) (bitmapPages metaBase : Nat) : State :=
  let totalL2Bits := (bitmapPages + 511) / 512
  let totalL3Bits := (totalL2Bits + 1023) / 1024
  {
    memmap
    l1Map := fun _ => BitVec.allOnes 64
    l2Map := fun _ => BitVec.allOnes 64
    l3Map := fun _ => BitVec.allOnes 64
    initMap := fun _ => 0#64
    totalL2Bits
    totalL3Bits
    bitmapPages
    metaBase
    metaSize := totalMeta totalL2Bits totalL3Bits
    shards := fun si =>
      let firstPage := si * 524288
      let np := bitmapPages - firstPage
      { firstPage, npages := if np < 524288 then np else 524288, hint := firstPage, freePages := 0 }
    shardCount := totalL3Bits
    rrSeq := 0
    freePages := 0
    slowHint := 1
    pmmCache := fun _ => []
  }

def initMaps (s : State) : State :=
  let s := { s with l2Map := s.memmap.foldl clearUsableL2 s.l2Map }
  let s := Loop.forRange clearL3 0 s.totalL3Bits s
  let s := markAllocated s 0 1
  let s := reserveBootloaderMemory s
  let s := Loop.forRange recomputeL2 0 s.totalL2Bits s
  let s := Loop.forRange recomputeL3 0 s.totalL3Bits s
  Loop.forRange countBlock 0 s.totalL2Bits s

def init (m : Memmap) : Option State :=
  let entries := m.entries.map truncate
  let top := maxPhys entries
  if top = 0 then
    none
  else
    let bitmapPages := (top + 4095) / 4096
    let totalL2Bits := (bitmapPages + 511) / 512
    let totalL3Bits := (totalL2Bits + 1023) / 1024
    match place (totalMeta totalL2Bits totalL3Bits) entries with
    | none => none
    | some (entries, metaBase) => some (initMaps (freshState entries bitmapPages metaBase))

end PMM
