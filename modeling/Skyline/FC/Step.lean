import Skyline.FC.Impl

/-!
This module contains the runs of the file cache.
-/

namespace FC

def leBytes (n : UInt64) : List UInt8 :=
  (List.range 8).map fun i => (n >>> UInt64.ofNat (8 * i)).toUInt8

def fcBlockKey (fileId block : UInt64) : Key := leBytes fileId ++ leBytes block

inductive Event where
  | get (t c : Nat) (key : Key) (ioLen : UInt64)
  | getRemote (t : Nat)
  | getInsert (t : Nat)
  | put (c : Nat) (p : Ptr)
  | recordIo (c : Nat) (key : Key) (ioLen fileSize fileId : UInt64)
  | promote (t c : Nat) (a : State.Promotion)
  | broadcast (t : Nat)
  | written (t : Nat) (ok : Bool)
  | readahead (t c : Nat) (a : State.Promotion)
  | readaheadInsert (t : Nat)
  | invalidate (t c : Nat) (key : Key)
  | invalidateFile (t c : Nat) (fileId fileSize : UInt64)
  | dropBlock (t : Nat)
  | fsync (t : Nat) (fileId : UInt64)
  | fsyncCollect (t : Nat)
  | idleCollect (t c : Nat) (max : Nat) (now : UInt64)
  | write (t : Nat) (ok : Bool)
  | flushEnd (t : Nat)
  | idleStats (c : Nat)
  | idleOrphans (c : Nat) (batch : Nat)
  | idleQuota (c : Nat) (batch : Nat)
  | idleEvict (c : Nat) (batch : Nat)
  | reclaim (c : Nat) (pages : Nat)
  | checkLoad (src dst : Nat)
  | tick (c : Nat)
  | setLimits (c : Nat) (softLimit hardLimit : UInt64)
  | store (p : Ptr) (data : List UInt8)

namespace State

def isReady (s : State) (t : Nat) : Bool :=
  match s.task t with
  | .ready => true
  | _ => false

def nextBlock (s : State) (t c : Nat) (fileId block blocks : UInt64) : State :=
  if block < blocks then
    s.setTask t (.broadcast ⟨c, fcBlockKey fileId block, 0, .file fileId block blocks⟩)
  else
    s.setTask t .ready

def noteDropped (s : State) (b : Broadcast) : State :=
  match b.after, (s.cache b.cpu).index.lookup b.key with
  | .file _ _ _, some p => s.record fun h => { h with dropped := (s.entry p).stamp :: h.dropped }
  | _, _ => s

def stepBroadcast (s : State) (t : Nat) (b : Broadcast) : State :=
  let next : Task := .broadcast { b with cpu := b.cpu + 1 }
  if b.cpu < s.ncpu then
    if b.cpu = b.src then
      s.setTask t next
    else
      match (s.noteDropped b).broadcastVisit b.cpu b.key with
      | (s, some p) => s.setTask t (.writeback b p)
      | (s, none) => s.setTask t next
  else
    match b.after with
    | .promote stamp => (s.returnPromote b.key stamp).setTask t .ready
    | .invalidate => s.setTask t .ready
    | .file fileId block blocks => s.setTask t (.dropBlock b.src fileId block blocks)

def step (s : State) : Event → State
  | .get t c key ioLen =>
    if s.isReady t ∧ c < s.ncpu ∧ key ≠ [] then
      match s.getLocal c key ioLen with
      | (s, .miss) => s.setTask t (.scan c key 1 (s.history.returned key))
      | (s, _) => s
    else
      s
  | .getRemote t =>
    match s.task t with
    | .scan c key k since =>
      if k < s.ncpu then
        match s.getRemote c ((c + k) % s.ncpu) key with
        | (s, some p) => s.setTask t (.migrate c p since)
        | (s, none) => s.setTask t (.scan c key (k + 1) since)
      else
        s.setTask t .ready
    | _ => s
  | .getInsert t =>
    match s.task t with
    | .migrate c p since => (s.getInsert c p since).setTask t .ready
    | _ => s
  | .put c p => if p ∈ s.held ∧ p ∈ (s.cache c).lru then s.fileCachePut c p else s
  | .recordIo c key ioLen fileSize fileId =>
    if c < s.ncpu ∧ key ≠ [] ∧ ioLen ≠ 0 then s.recordIo c key ioLen fileSize fileId else s
  | .promote t c a =>
    if s.isReady t ∧ c < s.ncpu then
      match { s with next := s.next + 1 }.promoteLocked c a s.next with
      | (s, rc) =>
        if rc = 0 ∧ a.isDirty then
          s.setTask t (.broadcast ⟨c, a.key, 0, .promote s.history.stamps⟩)
        else
          s
    else
      s
  | .broadcast t =>
    match s.task t with
    | .broadcast b => s.stepBroadcast t b
    | _ => s
  | .written t ok =>
    match s.task t with
    | .writeback b p =>
      (s.broadcastWritten b.cpu b.key p ok).setTask t (.broadcast { b with cpu := b.cpu + 1 })
    | _ => s
  | .readahead t c a =>
    if s.isReady t ∧ c < s.ncpu then
      match { s with next := s.next + 1 }.readaheadBuild c a s.next with
      | (s, some p) => s.setTask t (.readahead c p)
      | (s, none) => s
    else
      s
  | .readaheadInsert t =>
    match s.task t with
    | .readahead c p => (s.readaheadInsert c p).setTask t .ready
    | _ => s
  | .invalidate t c key =>
    if s.isReady t ∧ key ≠ [] then s.setTask t (.broadcast ⟨c, key, 0, .invalidate⟩) else s
  | .invalidateFile t c fileId fileSize =>
    if s.isReady t ∧ c < s.ncpu ∧ fileId ≠ 0 then
      let blocks := (fileSize + 4095) / 4096
      s.nextBlock t c fileId 0 (if blocks = 0 then 1 else blocks)
    else
      s
  | .dropBlock t =>
    match s.task t with
    | .dropBlock c fileId block blocks =>
      (s.dropBlock c (fcBlockKey fileId block)).nextBlock t c fileId (block + 1) blocks
    | _ => s
  | .fsync t fileId => if s.isReady t then s.setTask t (.fsync fileId 0) else s
  | .fsyncCollect t =>
    match s.task t with
    | .fsync fileId i =>
      if i < s.ncpu then
        match s.collect (fsyncWants fileId) fsyncBatchSize (s.cache i).lru with
        | (s, []) => s.setTask t (.fsync fileId (i + 1))
        | (s, list) => s.setTask t (.flush (.fsync fileId) i [] list)
      else
        s.setTask t .ready
    | _ => s
  | .idleCollect t c max now =>
    if s.isReady t ∧ c < s.ncpu then
      match s.collect (idleWants now) max (s.cache c).lru with
      | (s, list) => s.setTask t (.flush .idle c [] list)
    else
      s
  | .write t ok =>
    match s.task t with
    | .flush who c done (p :: todo) =>
      if (s.cache c).writebackCb then
        (s.flushWrote c p ok).setTask t (.flush who c (p :: done) todo)
      else
        s
    | _ => s
  | .flushEnd t =>
    match s.task t with
    | .flush who c done todo =>
      if todo = [] ∨ (s.cache c).writebackCb = false then
        let s := (done ++ todo).foldl (flushEnd c) s
        match who with
        | .fsync fileId => s.setTask t (.fsync fileId c)
        | .idle => s.setTask t .ready
      else
        s
    | _ => s
  | .idleStats c => if c < s.ncpu then s.idleStats c else s
  | .idleOrphans c batch => if c < s.ncpu then idleOrphans c batch s (s.cache c).lru else s
  | .idleQuota c batch => if c < s.ncpu then s.idleQuotaPhase c batch else s
  | .idleEvict c batch => if c < s.ncpu then s.idleEvictPhase c batch else s
  | .reclaim c pages => if c < s.ncpu then s.reclaim c pages else s
  | .checkLoad src dst => if src < s.ncpu ∧ dst < s.ncpu ∧ src ≠ dst then s.checkLoad src dst else s
  | .tick c => if c < s.ncpu then s.fileCacheTick c else s
  | .setLimits c softLimit hardLimit =>
    if c < s.ncpu then s.fileCacheSetLimits c softLimit hardLimit else s
  | .store p data =>
    if p ∈ s.held ∧ data.length = (s.entry p).data.length then s.store p data else s

end State

end FC
