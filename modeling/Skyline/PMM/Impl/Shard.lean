import Skyline.PMM.Bitmap
import Skyline.Loop.Basic

/-!
This module contains the data model of the physical memory manager and the operations on the bitmaps
that a caller runs under the locks of the shards they touch.
-/

namespace PMM

inductive MemmapType where
  | usable
  | bootloaderReclaimable
  | other
  deriving DecidableEq, Repr

structure MemmapEntry where
  base : Nat
  length : Nat
  type : MemmapType
  fits : base + length ≤ 2 ^ 52
  deriving DecidableEq

namespace MemmapEntry

def shrink (e : MemmapEntry) (length : Nat) (h : length ≤ e.length) : MemmapEntry :=
  { e with
    length
    fits := by
      have := e.fits
      omega
  }

def Disjoint (e1 e2 : MemmapEntry) : Prop :=
  e1.base + e1.length ≤ e2.base ∨ e2.base + e2.length ≤ e1.base ∨ e1.length = 0 ∨ e2.length = 0

instance (e1 e2 : MemmapEntry) : Decidable (e1.Disjoint e2) := by
  unfold Disjoint
  infer_instance

def Covers (e : MemmapEntry) (p : Nat) : Prop :=
  e.base ≤ p * 4096 ∧ (p + 1) * 4096 ≤ e.base + e.length

def Touches (e : MemmapEntry) (p : Nat) : Prop :=
  e.base < (p + 1) * 4096 ∧ p * 4096 < e.base + e.length

end MemmapEntry

/--
The bootloader's memory map. The fields are what Limine and the CPU guarantee: an entry ends within
the physical addresses of 52 bits, usable entries do not overlap, and the entries of the bootloader
consist of whole pages.
-/
structure Memmap where
  entries : List MemmapEntry
  usable_disjoint : entries.Pairwise fun e1 e2 =>
    e1.type = .usable → e2.type = .usable → e1.Disjoint e2
  bootloader_aligned : ∀ (e : MemmapEntry), e ∈ entries → e.type = .bootloaderReclaimable →
    e.base % 4096 = 0 ∧ e.length % 4096 = 0

structure Shard where
  firstPage : Nat
  npages : Nat
  hint : Nat
  freePages : Nat
  deriving DecidableEq, Repr, Inhabited

structure State where
  memmap : List MemmapEntry
  l1Map : Bitmap
  l2Map : Bitmap
  l3Map : Bitmap
  initMap : Bitmap
  totalL2Bits : Nat
  totalL3Bits : Nat
  bitmapPages : Nat
  metaBase : Nat
  metaSize : Nat
  shards : Nat → Shard
  shardCount : Nat
  rrSeq : Nat
  freePages : Nat
  slowHint : Nat
  pmmCache : Nat → List Nat

def fetchAdd (x n : Nat) : Nat :=
  (x + n) % 2 ^ 64

def fetchSub (x n : Nat) : Nat :=
  (x + 2 ^ 64 - n % 2 ^ 64) % 2 ^ 64

namespace State

def setShard (s : State) (si : Nat) (shard : Shard) : State :=
  { s with shards := fun idx => if idx = si then shard else s.shards idx }

def setHint (s : State) (si hint : Nat) : State :=
  s.setShard si { s.shards si with hint }

def setCache (s : State) (cpu : Nat) (pages : List Nat) : State :=
  { s with pmmCache := fun idx => if idx = cpu then pages else s.pmmCache idx }

end State

def shardFreeAdd (s : State) (si n : Nat) : State :=
  let s := s.setShard si { s.shards si with freePages := fetchAdd (s.shards si).freePages n }
  { s with freePages := fetchAdd s.freePages n }

def shardFreeSub (s : State) (si n : Nat) : State :=
  let s := s.setShard si { s.shards si with freePages := fetchSub (s.shards si).freePages n }
  { s with freePages := fetchSub s.freePages n }

def shardRrFirst (s : State) : Nat × State :=
  (s.rrSeq % s.shardCount, { s with rrSeq := fetchAdd s.rrSeq 1 })

def shardAt (s : State) (first t : Nat) : Nat :=
  if first + t ≥ s.shardCount then first + t - s.shardCount else first + t

def clearUsable (l1Map : Bitmap) (l2 : Nat) (e : MemmapEntry) : Bitmap :=
  let regionStart := l2 * 2097152
  let regionEnd := regionStart + 2097152
  let eStart := e.base
  let eEnd := e.base + e.length
  if e.type ≠ .usable then
    l1Map
  else if eEnd ≤ regionStart ∨ eStart ≥ regionEnd then
    l1Map
  else
    let s := if eStart > regionStart then eStart else regionStart
    let t := if eEnd < regionEnd then eEnd else regionEnd
    let s := (s + 4095) / 4096 * 4096
    let t := t / 4096 * 4096
    if s < t then bitsClear l1Map (s / 4096) (t / 4096) else l1Map

def ensureL2Init (s : State) (l2 : Nat) : State :=
  if bitTest s.initMap l2 then
    s
  else
    let l1Map := fillWords s.l1Map (l2 * 8) 8 (BitVec.allOnes 64)
    { s with
      l1Map := s.memmap.foldl (fun l1Map e => clearUsable l1Map l2 e) l1Map
      initMap := bitSet s.initMap l2
    }

def wordsAll (map : Bitmap) (w n : Nat) (val : BitVec 64) : Bool :=
  match n with
  | 0 => true
  | n + 1 => map w == val && wordsAll map (w + 1) n val

def l2BlockFull (s : State) (l2 : Nat) : Bool :=
  wordsAll s.l1Map (l2 * 8) 8 (BitVec.allOnes 64)

def l2FullPropagate (s : State) (l2 : Nat) : State :=
  let l3 := l2 / 1024
  if wordsAll s.l2Map (l3 * 16) 16 (BitVec.allOnes 64) then
    { s with l3Map := bitSet s.l3Map l3 }
  else
    s

def blockRange (start stop l2 : Nat) : Nat × Nat :=
  let b0 := if l2 = start / 512 then start else l2 * 512
  let b1 := if l2 = (stop - 1) / 512 then stop else (l2 + 1) * 512
  (b0, b1)

def markAllocated (s : State) (start n : Nat) : State :=
  let stop := start + n
  Loop.forRange (block stop) (start / 512) ((stop - 1) / 512 + 1 - start / 512) s
where
  block (stop l2 : Nat) (s : State) : State :=
    let s := ensureL2Init s l2
    let (b0, b1) := blockRange start stop l2
    let s := { s with l1Map := bitsSet s.l1Map b0 b1 }
    if l2BlockFull s l2 then
      l2FullPropagate { s with l2Map := bitSet s.l2Map l2 } l2
    else
      s

def markFree (s : State) (start n : Nat) : State :=
  let stop := start + n
  Loop.forRange (block stop) (start / 512) ((stop - 1) / 512 + 1 - start / 512) s
where
  block (stop l2 : Nat) (s : State) : State :=
    let s := ensureL2Init s l2
    let (b0, b1) := blockRange start stop l2
    { s with
      l1Map := bitsClear s.l1Map b0 b1
      l2Map := bitClear s.l2Map l2
      l3Map := bitClear s.l3Map (l2 / 1024)
    }

structure Scan where
  run : Nat
  runStart : Nat
  bit : Nat
  initedL2 : Option Nat
  deriving Repr

inductive ScanStep where
  | found (start : Nat)
  | next (scan : Scan)
  deriving Repr

namespace Scan

def skipBlock (s : State) (c : Scan) : Option Nat :=
  if c.run ≠ 0 then
    none
  else if c.bit % 524288 = 0 ∧ c.bit / 524288 < s.totalL3Bits
    ∧ bitTest s.l3Map (c.bit / 524288) then
    some 524288
  else if c.bit % 512 = 0 ∧ c.bit / 512 < s.totalL2Bits ∧ bitTest s.l2Map (c.bit / 512) then
    some 512
  else
    none

def clip (stop n : Nat) (c : Scan) (take : Nat) : Nat :=
  let take := if c.run + take > n then n - c.run else take
  if c.bit + take > stop then stop - c.bit else take

def take (n : Nat) (c : Scan) (k : Nat) : ScanStep :=
  if c.run + k = n then
    .found c.runStart
  else
    .next { c with run := c.run + k, bit := c.bit + k }

def word (s : State) (stop n : Nat) (c : Scan) : Option ScanStep :=
  let w := s.l1Map (c.bit / 64)
  if c.run = 0 then
    if w = BitVec.allOnes 64 then
      some (.next { c with bit := c.bit + 64 })
    else
      let skip := (~~~w).ctz.toNat
      if skip ≠ 0 then some (.next { c with bit := c.bit + skip }) else none
  else if w = 0#64 then
    some (c.take n (c.clip stop n 64))
  else
    let k := c.clip stop n w.ctz.toNat
    if k ≠ 0 then some (c.take n k) else none

def single (s : State) (n : Nat) (c : Scan) : ScanStep :=
  if bitTest s.l1Map c.bit then
    .next { c with run := 0, bit := c.bit + 1 }
  else
    let runStart := if c.run = 0 then c.bit else c.runStart
    if c.run + 1 = n then
      .found runStart
    else
      .next { c with run := c.run + 1, runStart, bit := c.bit + 1 }

def step (s : State) (stop n : Nat) (c : Scan) : ScanStep × State :=
  match c.skipBlock s with
  | some k => (.next { c with bit := c.bit + k }, s)
  | none =>
    let curL2 := c.bit / 512
    let s := if c.initedL2 ≠ some curL2 then ensureL2Init s curL2 else s
    let c := { c with initedL2 := some curL2 }
    let wordStep := if c.bit % 64 = 0 then c.word s stop n else none
    match wordStep with
    | some res => (res, s)
    | none => (c.single s n, s)

end Scan

def scanForRun (s : State) (start stop n : Nat) : Option Nat × State :=
  if n = 0 ∨ start ≥ stop then
    (none, s)
  else
    go (stop - start) s { run := 0, runStart := 0, bit := start, initedL2 := none }
where
  go (fuel : Nat) (s : State) (c : Scan) : Option Nat × State :=
    match fuel with
    | 0 => (none, s)
    | fuel + 1 =>
      if c.bit < stop then
        match c.step s stop n with
        | (.found start, s) => (some start, s)
        | (.next c, s) => go fuel s c
      else
        (none, s)

def scanAround (s : State) (start hint stop n : Nat) : Option Nat × State :=
  match scanForRun s hint stop n with
  | (some bit, s) => (some bit, s)
  | (none, s) => if hint > start then scanForRun s start hint n else (none, s)

def allocInShardLocked (s : State) (si n : Nat) : Option Nat × State :=
  let shard := s.shards si
  if shard.freePages < n then
    (none, s)
  else
    let base := shard.firstPage
    let stop := base + shard.npages
    let hint := if shard.hint < base ∨ shard.hint > stop then base else shard.hint
    match scanAround s base hint stop n with
    | (none, s) => (none, s)
    | (some bit, s) =>
      let s := markAllocated s bit n
      (some (bit * 4096), s.setHint si (if bit + n ≥ stop then base else bit + n))

def freeInShardLocked (s : State) (si start n : Nat) : State :=
  let s := markFree s start n
  let s := if start < (s.shards si).hint then s.setHint si start else s
  shardFreeAdd s si n

def shardRange (start stop si : Nat) : Nat × Nat :=
  let lo := if start > si * 524288 then start else si * 524288
  let hi := if stop < (si + 1) * 524288 then stop else (si + 1) * 524288
  (lo, hi)

def allocGlobalSlowpath (s : State) (n : Nat) : Option Nat × State :=
  let hint := if s.slowHint > s.bitmapPages then s.bitmapPages else s.slowHint
  match scanAround s 0 hint s.bitmapPages n with
  | (none, s) => (none, s)
  | (some bit, s) =>
    let s := markAllocated s bit n
    let s := { s with slowHint := bit + n }
    let stop := bit + n
    let s := Loop.forRange (sub bit stop) (bit / 524288) ((stop - 1) / 524288 + 1 - bit / 524288) s
    (some (bit * 4096), s)
where
  sub (start stop si : Nat) (s : State) : State :=
    let (lo, hi) := shardRange start stop si
    shardFreeSub s si (hi - lo)

def pcpFill (s : State) (cpu si n : Nat) : Nat × State :=
  match n with
  | 0 => (0, s)
  | n + 1 =>
    if (s.pmmCache cpu).length < 256 then
      match allocInShardLocked s si 1 with
      | (none, s) => (0, s)
      | (some extra, s) =>
        let (k, s) := pcpFill (s.setCache cpu (extra :: s.pmmCache cpu)) cpu si n
        (k + 1, s)
    else
      (0, s)

def pcpRefill (s : State) (cpu : Nat) : Option Nat × State :=
  let (first, s) := shardRrFirst s
  Loop.search (refillFrom first) 0 s.shardCount s
where
  refillFrom (first t : Nat) (s : State) : Option Nat × State :=
    let si := shardAt s first t
    if (s.shards si).freePages = 0 then
      (none, s)
    else
      match allocInShardLocked s si 1 with
      | (none, s) => (none, s)
      | (some page, s) =>
        let (k, s) := pcpFill s cpu si 64
        (some page, shardFreeSub s si (1 + k))

end PMM
