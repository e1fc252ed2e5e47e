import Skyline.PMM.Impl.Shard

/-!
This module contains the public operations of the physical memory manager.
-/

namespace PMM

def requestShared (s : State) (n : Nat) : Option Nat × State :=
  if n ≤ 524288 then
    let (first, s) := shardRrFirst s
    match Loop.search (requestFrom first) 0 s.shardCount s with
    | (some page, s) => (some page, s)
    | (none, s) => allocGlobalSlowpath s n
  else
    allocGlobalSlowpath s n
where
  requestFrom (first t : Nat) (s : State) : Option Nat × State :=
    let si := shardAt s first t
    if (s.shards si).freePages < n then
      (none, s)
    else
      match allocInShardLocked s si n with
      | (none, s) => (none, s)
      | (some page, s) => (some page, shardFreeSub s si n)

def request (s : State) (cpu : Option Nat) (n : Nat) : Option Nat × State :=
  if n = 0 ∨ n > s.bitmapPages then
    (none, s)
  else
    match (if n = 1 then cpu else none) with
    | none => requestShared s n
    | some cpu =>
      match s.pmmCache cpu with
      | page :: rest => (some page, s.setCache cpu rest)
      | [] =>
        match pcpRefill s cpu with
        | (some page, s) => (some page, s)
        | (none, s) => requestShared s n

def pcpDrain (s : State) (cpu n : Nat) : State :=
  match n with
  | 0 => s
  | n + 1 =>
    match s.pmmCache cpu with
    | [] => s
    | page :: rest =>
      let s := s.setCache cpu rest
      let bit := page / 4096
      let s := if bit ≥ s.bitmapPages then s else freeInShardLocked s (bit / 524288) bit 1
      pcpDrain s cpu n

def freeShared (s : State) (ptr n : Nat) : State :=
  let start := ptr / 4096
  if start ≥ s.bitmapPages then
    s
  else
    let n := if n > s.bitmapPages - start then s.bitmapPages - start else n
    let stop := start + n
    Loop.forRange (freeFrom start stop) (start / 524288)
      ((stop - 1) / 524288 + 1 - start / 524288) s
where
  freeFrom (start stop si : Nat) (s : State) : State :=
    let (lo, hi) := shardRange start stop si
    freeInShardLocked s si lo (hi - lo)

def free (s : State) (cpu : Option Nat) (ptr n : Nat) : State :=
  if ptr = 0 ∨ n = 0 then
    s
  else
    match (if n = 1 then cpu else none) with
    | none => freeShared s ptr n
    | some cpu =>
      let s := if (s.pmmCache cpu).length < 256 then s else pcpDrain s cpu 64
      s.setCache cpu (ptr :: s.pmmCache cpu)

def request2MBWord (s : State) (w : Nat) (fuel : Nat) (pending : BitVec 64) : Option Nat × State :=
  match fuel with
  | 0 => (none, s)
  | fuel + 1 =>
    if pending = 0#64 then
      (none, s)
    else
      let l2 := w * 64 + pending.ctz.toNat
      let pending := pending &&& (pending - 1)
      if l2 * 512 + 512 > s.bitmapPages then
        request2MBWord s w fuel pending
      else
        let s := ensureL2Init s l2
        if wordsAll s.l1Map (l2 * 8) 8 0#64 then
          (some l2, s)
        else
          request2MBWord s w fuel pending

def request2MB (s : State) : Option Nat × State :=
  let (first, s) := shardRrFirst s
  Loop.search (request2MBFrom first) 0 s.shardCount s
where
  request2MBFrom (first t : Nat) (s : State) : Option Nat × State :=
    let si := shardAt s first t
    if (s.shards si).freePages < 512 then
      (none, s)
    else
      match Loop.search (fun w s => request2MBWord s w 64 (~~~(s.l2Map w))) (si * 16) 16 s with
      | (none, s) => (none, s)
      | (some l2, s) =>
        let start := l2 * 512
        let s := { s with l1Map := bitsSet s.l1Map start (start + 512), l2Map := bitSet s.l2Map l2 }
        let s := l2FullPropagate s l2
        let s := if start < (s.shards si).hint then s.setHint si start else s
        (some (start * 4096), shardFreeSub s si 512)

def blocksClear (s : State) (l2 n : Nat) : Bool × State :=
  match n with
  | 0 => (true, s)
  | n + 1 =>
    let s := ensureL2Init s l2
    if wordsAll s.l1Map (l2 * 8) 8 0#64 then blocksClear s (l2 + 1) n else (false, s)

def request2GB (s : State) : Option Nat × State :=
  let (first, s) := shardRrFirst s
  Loop.search (request2GBFrom first) 0 s.shardCount s
where
  request2GBFrom (first t : Nat) (s : State) : Option Nat × State :=
    let si := shardAt s first t
    if (s.shards si).npages < 524288 then
      (none, s)
    else if (s.shards si).freePages < 524288 then
      (none, s)
    else if !wordsAll s.l2Map (si * 16) 16 0#64 then
      (none, s)
    else
      match blocksClear s (si * 1024) 1024 with
      | (false, s) => (none, s)
      | (true, s) =>
        let start := si * 524288
        let s := { s with
          l1Map := bitsSet s.l1Map start (start + 524288)
          l2Map := bitsSet s.l2Map (si * 1024) (si * 1024 + 1024)
          l3Map := bitSet s.l3Map si
        }
        let s := if start < (s.shards si).hint then s.setHint si start else s
        (some (start * 4096), shardFreeSub s si 524288)

def freeBlock (s : State) (ptr n : Nat) : State :=
  let start := ptr / 4096
  if ptr = 0 then
    s
  else if start % n ≠ 0 then
    s
  else if start + n > s.bitmapPages then
    s
  else
    freeInShardLocked s (start / 524288) start n

def free2MB (s : State) (ptr : Nat) : State :=
  freeBlock s ptr 512

def free2GB (s : State) (ptr : Nat) : State :=
  freeBlock s ptr 524288

def clearBits (map : Bitmap) (w n : Nat) : Nat :=
  match n with
  | 0 => 0
  | n + 1 => (~~~(map w)).cpop.toNat + clearBits map (w + 1) n

def verifyFreeCount (s : State) : Nat × State :=
  let (recount, s) := Loop.forRange countBlock 0 s.totalL2Bits (0, s)
  let cur := s.freePages
  (if recount > cur then recount - cur else cur - recount, s)
where
  countBlock (l2 : Nat) (acc : Nat × State) : Nat × State :=
    let (recount, s) := acc
    if bitTest s.l2Map l2 then
      (recount, s)
    else
      let s := ensureL2Init s l2
      (recount + clearBits s.l1Map (l2 * 8) 8, s)

end PMM
