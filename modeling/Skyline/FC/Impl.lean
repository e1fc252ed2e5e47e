import Mathlib

/-!
This module contains the state and the functions of the file cache.
-/

namespace FC

open Function

abbrev Key := List UInt8

abbrev Ptr := Nat

inductive Status where
  | cached
  | evicting
  | invalid
  | writebackFailed
  | flushing
deriving DecidableEq

structure Oscillate where
  freq : UInt64
  ioLen : UInt64
  oscCount : UInt64
  fileSize : UInt64
  fileId : UInt64

structure Entry where
  key : Key
  data : List UInt8
  buffer : Option Ptr
  objSize : Nat
  crc32 : UInt32
  accessFreq : UInt64
  totalIoLen : UInt64
  lastAccessTick : UInt64
  createTick : UInt64
  fileSize : UInt64
  oscCount : UInt64
  fileId : UInt64
  state : Status
  pinCount : Nat
  isDirty : Bool
  pendingReclaim : Bool
  writebackRetries : UInt8
  stamp : Nat

instance : Inhabited Entry where
  default :=
    { key := [], data := [], buffer := none, objSize := 0, crc32 := 0,
      accessFreq := 0, totalIoLen := 0,
      lastAccessTick := 0, createTick := 0, fileSize := 0, oscCount := 0,
        fileId := 0, state := .cached,
      pinCount := 0, isDirty := false, pendingReclaim := false, writebackRetries := 0, stamp := 0 }

def Entry.dataLen (e : Entry) : UInt64 := UInt64.ofNat e.data.length

structure Cache where
  index : AList fun _ : Key => Ptr
  oscillateTree : AList fun _ : Key => Oscillate
  lru : List Ptr
  decayCursor : Option Ptr
  totalCacheIo : UInt64
  totalCacheFreq : UInt64
  totalOscillations : UInt64
  maxFileSize : UInt64
  totalCacheBytes : UInt64
  dirtyCacheBytes : UInt64
  smoothedCacheBytes : UInt64
  tinyCacheBytes : UInt64
  softLimit : UInt64
  hardLimit : UInt64
  avgIoCache : UInt64
  avgFreqCache : UInt64
  avgOscCache : UInt64
  totalEntries : UInt32
  evictScanWindow : UInt32
  evictMissCount : UInt32
  clock : UInt64
  lastDecayTick : UInt64
  ioCongestion : UInt32
  writebackCb : Bool

def fileCacheCpuInit (writebackCb : Bool) : Cache :=
  { index := ∅, oscillateTree := ∅, lru := [], decayCursor := none, totalCacheIo := 0,
    totalCacheFreq := 0, totalOscillations := 0, maxFileSize := 0, totalCacheBytes := 0,
    dirtyCacheBytes := 0, smoothedCacheBytes := 0, tinyCacheBytes := 0,
      softLimit := 0, hardLimit := 0,
    avgIoCache := 4096, avgFreqCache := 2, avgOscCache := 0, totalEntries := 0,
      evictScanWindow := 16,
    evictMissCount := 0, clock := 0, lastDecayTick := 0, ioCongestion := 0, writebackCb }

inductive After where
  | promote (stamp : Nat)
  | invalidate
  | file (fileId block blocks : UInt64)

structure Broadcast where
  src : Nat
  key : Key
  cpu : Nat
  after : After

inductive Flusher where
  | fsync (fileId : UInt64)
  | idle

inductive Task where
  | ready
  | scan (cpu : Nat) (key : Key) (k : Nat) (since : Nat)
  | migrate (cpu : Nat) (p : Ptr) (since : Nat)
  | broadcast (b : Broadcast)
  | writeback (b : Broadcast) (p : Ptr)
  | dropBlock (cpu : Nat) (fileId block blocks : UInt64)
  | readahead (cpu : Nat) (p : Ptr)
  | fsync (fileId : UInt64) (cpu : Nat)
  | flush (who : Flusher) (cpu : Nat) (done todo : List Ptr)

inductive Obj where
  | entry (p : Ptr)
  | key (p : Ptr)
  | data (buffer : Ptr)
  | interior (p : Ptr)
deriving DecidableEq

def Entry.dataObjs (e : Entry) : List Obj := e.buffer.toList.map Obj.data

structure Got where
  key : Key
  stamp : Nat
  since : Nat

structure History where
  stamps : Nat
  newest : Key → Nat
  returned : Key → Nat
  dirtied : List (Key × Nat)
  written : List Nat
  dropped : List Nat
  gets : List Got
  owned : List Obj
  frees : List Obj

structure State where
  ncpu : Nat
  cache : Nat → Cache
  entry : Ptr → Entry
  next : Ptr
  held : List Ptr
  flushed : List Ptr
  loose : List Ptr
  task : Nat → Task
  history : History

namespace State

def modCache (s : State) (c : Nat) (f : Cache → Cache) : State :=
  { s with cache := update s.cache c (f (s.cache c)) }

def modEntry (s : State) (p : Ptr) (f : Entry → Entry) : State :=
  { s with entry := update s.entry p (f (s.entry p)) }

def setTask (s : State) (t : Nat) (task : Task) : State :=
  { s with task := update s.task t task }

def record (s : State) (f : History → History) : State := { s with history := f s.history }

def kfree (s : State) (os : List Obj) : State :=
  s.record fun h => { h with frees := os ++ h.frees }

end State

def boot (ncpu : Nat) : State :=
  { ncpu, cache := fun _ => fileCacheCpuInit true, entry := fun _ => default, next := 0, held := [],
    flushed := [], loose := [],
    task := fun _ => .ready,
    history :=
      { stamps := 0, newest := fun _ => 0, returned := fun _ => 0, dirtied := [], written := [],
        dropped := [], gets := [], owned := [], frees := [] } }

def tinyFileThreshold : UInt64 := 4096

def inlineDataSize : Nat := 64

def fsyncBatchSize : Nat := 256

def entrySize : Nat := 128

def errInvalid : Int := -1

def errNoMemory : Int := -2

def errFlushing : Int := -3

def fcCrc32Partial (data : List UInt8) : UInt32 :=
  if data.isEmpty then 0 else ~~~((data.take 256).foldl byte 0xFFFFFFFF)
where
  bit (crc : UInt32) : UInt32 := if crc &&& 1 = 1 then (crc >>> 1) ^^^ 0xEDB88320 else crc >>> 1
  byte (crc : UInt32) (b : UInt8) : UInt32 := bit^[8] (crc ^^^ b.toUInt32)

def fcUpdateAveragesInternal (x : Cache) : Cache :=
  let size := UInt64.ofNat x.oscillateTree.entries.length
  let window := x.totalEntries / 4
  let window := if window < 16 then 16 else window
  { x with
    avgOscCache := if size > 0 then x.totalOscillations / size else 0
    smoothedCacheBytes := (x.smoothedCacheBytes * 7 + x.totalCacheBytes) / 8
    evictScanWindow := if window > 256 then 256 else window }

def oscillating (x : Cache) (e : Entry) : Bool :=
  e.oscCount > 0 && x.avgOscCache > 0 && e.oscCount > x.avgOscCache

def fileCacheShouldEvict (x : Cache) (e : Entry) : Bool :=
  let residence : UInt64 := if x.clock - x.lastDecayTick > 100 then 100 else 10
  if e.accessFreq = 0 then
    true
  else if oscillating x e then
    false
  else if x.clock - e.createTick < residence then
    false
  else
    !decide (e.accessFreq ≥ x.avgFreqCache ∨ e.totalIoLen ≥ x.avgIoCache)

namespace Cache

def lruNext (x : Cache) (p : Ptr) : Option Ptr := (x.lru.dropWhile (· != p)).tail.head?

def fcLruRemove (x : Cache) (p : Ptr) : Cache :=
  { x with
    lru := x.lru.erase p
    decayCursor := if x.decayCursor = some p then x.lruNext p else x.decayCursor }

def fcLruPushBack (x : Cache) (p : Ptr) : Cache := { x with lru := x.lru ++ [p] }

def fcLruPushFront (x : Cache) (p : Ptr) : Cache := { x with lru := p :: x.lru }

def fcLruMoveToBack (x : Cache) (p : Ptr) : Cache :=
  if x.lru.getLast? = some p then x else (x.fcLruRemove p).fcLruPushBack p

def addTiny (x : Cache) (len : UInt64) : Cache :=
  { x with
    tinyCacheBytes := if len < tinyFileThreshold then x.tinyCacheBytes + len else x.tinyCacheBytes }

def subTiny (x : Cache) (len : UInt64) : Cache :=
  { x with
    tinyCacheBytes := if len < tinyFileThreshold then x.tinyCacheBytes - len else x.tinyCacheBytes }

def seeFileSize (x : Cache) (fileSize : UInt64) : Cache :=
  { x with maxFileSize := if fileSize > x.maxFileSize then fileSize else x.maxFileSize }

def unlink (x : Cache) (p : Ptr) (e : Entry) (dirty : Bool) : Cache :=
  let x := (x.fcLruRemove p).subTiny e.dataLen
  { x with
    index := x.index.erase e.key
    totalCacheBytes := x.totalCacheBytes - e.dataLen
    dirtyCacheBytes := if dirty && e.isDirty then x.dirtyCacheBytes - e.dataLen
      else x.dirtyCacheBytes
    totalCacheIo := x.totalCacheIo - e.totalIoLen
    totalCacheFreq := x.totalCacheFreq - e.accessFreq
    totalEntries := x.totalEntries - 1 }

def link (x : Cache) (p : Ptr) (e : Entry) : Cache :=
  let x := x.addTiny e.dataLen
  { x with
    index := x.index.insert e.key p
    totalCacheBytes := x.totalCacheBytes + e.dataLen
    dirtyCacheBytes := if e.isDirty then x.dirtyCacheBytes + e.dataLen else x.dirtyCacheBytes
    totalCacheIo := x.totalCacheIo + e.totalIoLen
    totalCacheFreq := x.totalCacheFreq + e.accessFreq
    totalEntries := x.totalEntries + 1 }

def dropOscillate (x : Cache) (key : Key) : Cache :=
  let count :=
    match x.oscillateTree.lookup key with
    | some osc => osc.oscCount
    | none => 0
  { x with
    oscillateTree := x.oscillateTree.erase key
    totalOscillations := x.totalOscillations - count }

def fcUpdateOscillate (x : Cache) (e : Entry) : Cache :=
  let old := x.oscillateTree.lookup e.key
  let osc : Oscillate :=
    match old with
    | none => ⟨e.accessFreq, e.totalIoLen, e.oscCount + 1, e.fileSize, e.fileId⟩
    | some osc =>
      { freq := osc.freq + e.accessFreq
        ioLen := osc.ioLen + e.totalIoLen
        oscCount := osc.oscCount + (e.oscCount + 1)
        fileSize := if e.fileSize > 0 then e.fileSize else osc.fileSize
        fileId := e.fileId }
  { x with
    oscillateTree := x.oscillateTree.insert e.key osc
    totalOscillations := x.totalOscillations - (old.elim 0 Oscillate.oscCount) + osc.oscCount }

def recordOscillate (x : Cache) (key : Key) (ioLen fileSize fileId : UInt64) : Cache :=
  let osc : Oscillate :=
    match x.oscillateTree.lookup key with
    | none => ⟨1, ioLen, 0, fileSize, fileId⟩
    | some osc => { osc with freq := osc.freq + 1, ioLen := osc.ioLen + ioLen }
  { x with oscillateTree := x.oscillateTree.insert key osc }

def has (x : Cache) (key : Key) : Bool := (x.index.lookup key).isSome

def dirtyLimit (x : Cache) : UInt32 :=
  let limit := 80 - x.ioCongestion / 2
  if limit < 20 then 20 else limit

def evictHit (x : Cache) : Cache := { x with evictMissCount := 0 }

def evictMiss (x : Cache) : Cache := { x with evictMissCount := x.evictMissCount + 1 }

def countHit (x : Cache) (p : Ptr) (ioLen : UInt64) : Cache :=
  { x.fcLruMoveToBack p with
    totalCacheIo := x.totalCacheIo + ioLen
    totalCacheFreq := x.totalCacheFreq + 1 }

end Cache

def Entry.hit (e : Entry) (ioLen : UInt64) : Entry :=
  { e with
    accessFreq := if e.accessFreq = 0 then 1 else e.accessFreq + 1
    totalIoLen := e.totalIoLen + ioLen }

def Entry.cap (e : Entry) : Nat := if e.objSize = 0 then entrySize else e.objSize

def Entry.resume (e : Entry) : Option Oscillate → Entry
  | some osc => { e with accessFreq := osc.freq, oscCount := osc.oscCount }
  | none => e

def Entry.idle (e : Entry) : Bool := e.pinCount = 0 && e.state = .cached && !e.isDirty

namespace State

def fcEntryFree (s : State) (p : Ptr) : State :=
  { s with loose := s.loose.erase p }.kfree (.entry p :: .key p :: (s.entry p).dataObjs)

def unlink (s : State) (c : Nat) (p : Ptr) (dirty : Bool) : State :=
  { s.modCache c fun x => x.unlink p (s.entry p) dirty with loose := p :: s.loose }

def link (s : State) (c : Nat) (p : Ptr) (push : Cache → Ptr → Cache) : State :=
  { s.modCache c fun x => push (x.link p (s.entry p)) p with loose := s.loose.erase p }

def flushPin (s : State) (p : Ptr) : State :=
  let s := s.modEntry p fun e => { e with state := .flushing, pinCount := e.pinCount + 1 }
  { s with flushed := p :: s.flushed }

def flushUnpin (s : State) (p : Ptr) : State :=
  let s := s.modEntry p fun e => { e with pinCount := e.pinCount - 1 }
  { s with flushed := s.flushed.erase p }

def setState (s : State) (p : Ptr) (state : Status) : State :=
  s.modEntry p fun e => { e with state }

def setPending (s : State) (p : Ptr) : State :=
  s.modEntry p fun e => { e with pendingReclaim := true }

def has (s : State) (c : Nat) (p : Ptr) : Bool := (s.cache c).has (s.entry p).key

def fcPickAndUnlinkVictim.go (c : Nat) (hit : Bool) (fallback : Option Ptr) (scanCnt : UInt32)
    (s : State)
    : List Ptr → State × Option Ptr
  | [] => stop s
  | cur :: rest =>
    let x := s.cache c
    let e := s.entry cur
    if scanCnt ≥ x.evictScanWindow then
      stop s
    else if e.pendingReclaim ∧ e.pinCount = 0 then
      if s.has c cur then (s.unlink c cur false, some cur) else go c hit fallback scanCnt s rest
    else if e.idle then
      let fallback :=
        if oscillating x e = false ∧ ¬x.clock - e.createTick < 100 ∧ fallback = none then some cur
        else fallback
      if fileCacheShouldEvict x e then
        let s := s.modCache c Cache.evictHit
        if s.has c cur then (s.unlink c cur false, some cur)
        else go c true fallback (scanCnt + 1) (s.setPending cur) rest
      else
        go c hit fallback (scanCnt + 1) s rest
    else
      go c hit fallback scanCnt s rest
where
  stop (s : State) : State × Option Ptr :=
    match hit, fallback with
    | false, some p =>
      let s := s.modCache c Cache.evictMiss
      if s.has c p then (s.unlink c p false, some p) else (s, none)
    | _, _ => (s, none)

def fcPickAndUnlinkVictim (s : State) (c : Nat) : State × Option Ptr :=
  fcPickAndUnlinkVictim.go c false none 0 s (s.cache c).lru

def evict (s : State) (c : Nat) : State × Bool :=
  match s.fcPickAndUnlinkVictim c with
  | (s, some p) => ((s.modCache c fun x => x.fcUpdateOscillate (s.entry p)).fcEntryFree p, true)
  | (s, none) => (s, false)

def reclaim (s : State) (c : Nat) : Nat → State
  | 0 => s
  | pages + 1 =>
    match s.evict c with
    | (s, true) => reclaim s c pages
    | (s, false) => s

def fcTryEvictForSpace (s : State) (c : Nat) (needSpace : UInt64) : Nat → State
  | 0 => s
  | n + 1 =>
    if (s.cache c).hardLimit > 0
      ∧ (s.cache c).totalCacheBytes + needSpace > (s.cache c).hardLimit then
      match s.evict c with
      | (s, true) => fcTryEvictForSpace s c needSpace n
      | (s, false) => s
    else
      s

inductive Lookup where
  | hit (p : Ptr)
  | refused
  | miss

def pin (s : State) (p : Ptr) (since : Nat) : State :=
  let s := s.modEntry p fun e => { e with pinCount := e.pinCount + 1 }
  let e := s.entry p
  { s with held := p :: s.held }.record
  fun h => { h with gets := ⟨e.key, e.stamp, since⟩ :: h.gets }

def getLocal (s : State) (c : Nat) (key : Key) (ioLen : UInt64) : State × Lookup :=
  match (s.cache c).index.lookup key with
  | none => (s, .miss)
  | some p =>
    let e := s.entry p
    if e.state ≠ .cached then
      (s, .refused)
    else if e.buffer.isSome ∧ fcCrc32Partial e.data ≠ e.crc32 then
      (s.modEntry p fun e => { e with state := .invalid, pendingReclaim := true }, .refused)
    else
      let clock := (s.cache c).clock
      let s := s.modEntry p fun e => { e.hit ioLen with lastAccessTick := clock }
      let s := s.modCache c fun x => x.countHit p ioLen
      (s.pin p (s.history.returned key), .hit p)

def getRemote (s : State) (c i : Nat) (key : Key) : State × Option Ptr :=
  match (s.cache i).index.lookup key with
  | none => (s, none)
  | some p =>
    let e := s.entry p
    let x := s.cache c
    if e.idle = false ∨ x.softLimit > 0 ∧ x.smoothedCacheBytes + e.dataLen > x.softLimit
        ∨ s.has i p = false then
      (s, none)
    else
      (s.unlink i p false, some p)

def getInsert (s : State) (c : Nat) (p : Ptr) (since : Nat) : State :=
  let fileSize := (s.entry p).fileSize
  let s := (s.link c p Cache.fcLruPushBack).modCache c fun x => x.seeFileSize fileSize
  s.pin p since

def unpin (s : State) (p : Ptr) : State :=
  let s := s.modEntry p fun e =>
    { e with
      pinCount := e.pinCount - 1
      crc32 := if e.isDirty ∧ e.buffer.isSome then fcCrc32Partial e.data else e.crc32 }
  { s with held := s.held.erase p }

def fileCachePut (s : State) (c : Nat) (p : Ptr) : State :=
  let s := s.unpin p
  let e := s.entry p
  if e.pinCount = 0 ∧ (e.state = .invalid ∨ e.pendingReclaim) then
    if s.has c p then (s.unlink c p true).fcEntryFree p
    else if e.pendingReclaim then s
    else s.setPending p
  else
    s

def recordHit (s : State) (c : Nat) (p : Ptr) (ioLen fileSize fileId : UInt64) : State :=
  let s := s.modEntry p fun e =>
    { e.hit ioLen with
      fileSize := if fileSize > 0 then fileSize else e.fileSize
      fileId := if fileId ≠ 0 then fileId else e.fileId }
  s.modCache c fun x => x.countHit p ioLen

def recordIo (s : State) (c : Nat) (key : Key) (ioLen fileSize fileId : UInt64) : State :=
  let s := s.modCache c fun x => x.seeFileSize fileSize
  match (s.cache c).index.lookup key with
  | some p => s.recordHit c p ioLen fileSize fileId
  | none => s.modCache c fun x => x.recordOscillate key ioLen fileSize fileId

structure Promotion where
  key : Key
  data : List UInt8
  isDirty : Bool
  fileSize : UInt64
  fileId : UInt64
  objSize : Nat

def Promotion.useInline (a : Promotion) : Bool := a.data.length ≤ inlineDataSize

def Promotion.dataLen (a : Promotion) : UInt64 := UInt64.ofNat a.data.length

def allocEntry (s : State) : State × Ptr :=
  let p := s.next
  let s := { s.modEntry p fun _ => default with next := p + 1, loose := p :: s.loose }
  (s.record fun h => { h with owned := .entry p :: .key p :: h.owned }, p)

def dropEntry (s : State) (p : Ptr) : State :=
  { s with loose := s.loose.erase p }.kfree [.entry p, .key p]

def takeData (s : State) (a : Promotion) (buffer : Ptr) : State :=
  s.record fun h => { h with owned := if a.useInline then h.owned else .data buffer :: h.owned }

def stampData (s : State) (a : Promotion) : State :=
  s.record fun h =>
    { h with
      stamps := h.stamps + 1
      newest := update h.newest a.key (h.stamps + 1)
      dirtied := if a.isDirty then (a.key, h.stamps + 1) :: h.dirtied else h.dirtied }

def reuseEntry (e : Entry) (a : Promotion) (buffer : Ptr) (stamp : Nat) : Entry :=
  { e with
    data := a.data
    buffer := if a.useInline then none else some buffer
    crc32 := if a.useInline then e.crc32 else fcCrc32Partial a.data
    totalIoLen := e.totalIoLen + a.dataLen
    isDirty := a.isDirty
    writebackRetries := 0
    state := .cached
    pendingReclaim := false
    accessFreq := if e.accessFreq = 0 then 1 else e.accessFreq + 1
    fileSize := if a.fileSize > 0 then a.fileSize else e.fileSize
    fileId := if a.fileId ≠ 0 then a.fileId else e.fileId
    stamp }

def reuseTotals (x : Cache) (p : Ptr) (old : Entry) (a : Promotion) : Cache :=
  let dirty := if old.isDirty then x.dirtyCacheBytes - old.dataLen else x.dirtyCacheBytes
  { ((x.subTiny old.dataLen).addTiny a.dataLen).fcLruMoveToBack p with
    totalCacheBytes := x.totalCacheBytes - old.dataLen + a.dataLen
    dirtyCacheBytes := if a.isDirty then dirty + a.dataLen else dirty
    totalCacheIo := x.totalCacheIo - old.totalIoLen + (old.totalIoLen + a.dataLen) }

def promoteReuse (s : State) (c : Nat) (exist : Ptr) (a : Promotion) (buffer : Ptr) : State :=
  let old := s.entry exist
  let s := ((s.takeData a buffer).stampData a).kfree old.dataObjs
  let s := s.modEntry exist fun e => reuseEntry e a buffer s.history.stamps
  s.modCache c fun x => reuseTotals x exist old a

def promoteDiscard (s : State) (c : Nat) (exist : Ptr) : State :=
  let e := s.entry exist
  let freq := if e.accessFreq = 0 then 1 else e.accessFreq + 1
  let s := s.modCache c fun x => x.unlink exist { e with accessFreq := freq } true
  ({ s with loose := exist :: s.loose }).fcEntryFree exist

def newEntry (x : Cache) (a : Promotion) (buffer : Ptr) (stamp : Nat) : Entry :=
  { key := a.key
    data := a.data
    buffer := if a.useInline then none else some buffer
    objSize := a.objSize
    crc32 := if a.useInline then 0 else fcCrc32Partial a.data
    accessFreq := 1
    totalIoLen := a.dataLen
    lastAccessTick := x.clock
    createTick := x.clock
    fileSize := a.fileSize
    oscCount := 0
    fileId := a.fileId
    state := .cached
    pinCount := 0
    isDirty := a.isDirty
    pendingReclaim := false
    writebackRetries := 0
    stamp }

def promoteInsert (s : State) (c : Nat) (p : Ptr) (a : Promotion) (buffer : Ptr) : State × Int :=
  let x := s.cache c
  if a.isDirty ∧ x.totalCacheBytes > 0
      ∧ x.dirtyCacheBytes * 100 / x.totalCacheBytes > x.dirtyLimit.toUInt64 then
    (s.dropEntry p, errNoMemory)
  else
    let s := s.fcTryEvictForSpace c a.dataLen 8
    let x := s.cache c
    if x.hardLimit > 0 ∧ x.totalCacheBytes + a.dataLen > x.hardLimit then
      (s.dropEntry p, errNoMemory)
    else
      let s := (s.takeData a buffer).stampData a
      let e := (newEntry x a buffer s.history.stamps).resume (x.oscillateTree.lookup a.key)
      ((s.modEntry p fun _ => e).link c p Cache.fcLruPushBack, 0)

def promoteAllocated (s : State) (c : Nat) (p : Ptr) (a : Promotion) (buffer : Ptr) : State × Int :=
  if a.isDirty ∧ (s.cache c).ioCongestion ≥ 90 then
    (s.dropEntry p, errNoMemory)
  else
    match (s.cache c).index.lookup a.key with
    | none => s.promoteInsert c p a buffer
    | some exist =>
      let e := s.entry exist
      if e.pinCount > 0 then
        (s.dropEntry p, if e.state = .flushing then errFlushing else errNoMemory)
      else if a.useInline ∧ a.data.length > e.cap - entrySize then
        (s.promoteDiscard c exist).promoteInsert c p a buffer
      else
        ((s.promoteReuse c exist a buffer).dropEntry p, 0)

def Promotion.need (a : Promotion) : UInt64 :=
  let allocSize := if a.useInline then entrySize + a.data.length else entrySize
  UInt64.ofNat (allocSize + a.key.length + if a.useInline then 0 else a.data.length)

def promoteLocked (s : State) (c : Nat) (a : Promotion) (buffer : Ptr) : State × Int :=
  let x := s.cache c
  if a.key = [] ∨ a.data = [] then
    (s, errInvalid)
  else if x.hardLimit > 0 ∧ x.totalCacheBytes + a.need > x.hardLimit then
    (s, errNoMemory)
  else
    let (s, p) := s.allocEntry
    (s.modCache c fun x => x.seeFileSize a.fileSize).promoteAllocated c p a buffer

def returnPromote (s : State) (key : Key) (stamp : Nat) : State :=
  s.record fun h => { h with returned := update h.returned key (max (h.returned key) stamp) }

def readaheadBuild (s : State) (c : Nat) (a : Promotion) (buffer : Ptr) : State × Option Ptr :=
  let x := s.cache c
  if a.key = [] ∨ a.data = [] ∨ x.softLimit > 0 ∧ x.totalCacheBytes > x.softLimit * 80 / 100
      ∨ x.has a.key then
    (s, none)
  else
    let s := s.fcTryEvictForSpace c a.dataLen 8
    let x := s.cache c
    if x.hardLimit > 0 ∧ x.totalCacheBytes + a.dataLen > x.hardLimit then
      (s, none)
    else
      let (s, p) := s.allocEntry
      let s := s.takeData a buffer
      let s := s.modEntry p fun _ =>
        { newEntry x a buffer 0 with
          accessFreq := 0, totalIoLen := 0, lastAccessTick := 0, isDirty := false }
      (s, some p)

def readaheadInsert (s : State) (c : Nat) (p : Ptr) : State :=
  s.link c p Cache.fcLruPushFront

def broadcastVisit (s : State) (i : Nat) (key : Key) : State × Option Ptr :=
  let drop (s : State) : State := s.modCache i fun x => x.dropOscillate key
  match (s.cache i).index.lookup key with
  | none => (drop s, none)
  | some p =>
    let e := s.entry p
    if e.pinCount > 0 then
      (drop (s.setState p .invalid), none)
    else if e.isDirty ∧ (s.cache i).writebackCb ∧ e.state ≠ .writebackFailed then
      (s.flushPin p, some p)
    else if s.has i p then
      (drop ((s.unlink i p true).fcEntryFree p), none)
    else
      (drop (s.setPending p), none)

def wrote (s : State) (p : Ptr) : State :=
  let stamp := (s.entry p).stamp
  s.record fun h => { h with written := stamp :: h.written }

def broadcastWritten (s : State) (i : Nat) (key : Key) (p : Ptr) (ok : Bool) : State :=
  let s := s.flushUnpin p
  if ok then
    let s := s.wrote p
    let s := if s.has i p then (s.unlink i p true).fcEntryFree p else s.setPending p
    s.modCache i fun x => x.dropOscillate key
  else
    s.modEntry p fun e => { e with state := .writebackFailed, writebackRetries := 5 }

def freeRaw (s : State) (p : Ptr) : State :=
  let data := if (s.entry p).buffer.isSome then (s.entry p).dataObjs else [.interior p]
  { s with loose := s.loose.erase p }.kfree (.entry p :: data)

def dropBlock (s : State) (c : Nat) (key : Key) : State :=
  match (s.cache c).index.lookup key with
  | none => s
  | some p =>
    let e := s.entry p
    let s := s.record fun h => { h with dropped := e.stamp :: h.dropped }
    if e.pinCount = 0 then (s.unlink c p true).freeRaw p else s.setState p .invalid

def collect (s : State) (cond : Entry → Bool) (max : Nat) : List Ptr → State × List Ptr
  | [] => (s, [])
  | cur :: rest =>
    if max = 0 then
      (s, [])
    else if cond (s.entry cur) then
      let (s, list) := collect (s.flushPin cur) cond (max - 1) rest
      (s, cur :: list)
    else
      collect s cond max rest

def fsyncWants (fileId : UInt64) (e : Entry) : Bool :=
  e.fileId = fileId ∧ e.isDirty ∧ e.state = .cached ∧ e.pinCount = 0

def idleWants (now : UInt64) (e : Entry) : Bool :=
  e.isDirty ∧ e.pinCount = 0 ∧ (e.state = .cached ∧ e.writebackRetries < 5
    ∨ e.state = .writebackFailed ∧ now - e.lastAccessTick > 30000)

def flushWrote (s : State) (c : Nat) (p : Ptr) (ok : Bool) : State :=
  if ok then
    let s := (s.wrote p).modEntry p fun e => { e with writebackRetries := 0 }
    s.modCache c fun x =>
      { x with ioCongestion := if x.ioCongestion > 0 then x.ioCongestion - 1 else x.ioCongestion }
  else
    let s := s.modEntry p fun e => { e with writebackRetries := e.writebackRetries + 1 }
    s.modCache c fun x =>
      { x with ioCongestion := if x.ioCongestion + 10 > 100 then 100 else x.ioCongestion + 10 }

def flushEnd (c : Nat) (s : State) (p : Ptr) : State :=
  let e := s.entry p
  let s := (s.flushUnpin p).modEntry p fun e =>
    { e with
      state := if e.writebackRetries ≥ 5 then .writebackFailed else .cached
      isDirty := if e.writebackRetries = 0 then false else e.isDirty }
  s.modCache c fun x =>
    { x with
      dirtyCacheBytes :=
        if e.writebackRetries = 0 ∧ e.isDirty then x.dirtyCacheBytes - e.dataLen
          else x.dirtyCacheBytes }

def idleStats (s : State) (c : Nat) : State :=
  s.modCache c fun x =>
    let oscs := x.oscillateTree.entries.map Sigma.snd
    let count := UInt64.ofNat oscs.length
    let meanFreq := (oscs.map Oscillate.freq).sum / count
    let meanIo := (oscs.map Oscillate.ioLen).sum / count
    fcUpdateAveragesInternal
      { x with
        avgFreqCache := if count > 0 then meanFreq + meanFreq / 4 else 2
        avgIoCache := if count > 0 then meanIo + meanIo / 4 else 4096
        ioCongestion := if x.ioCongestion > 5 then x.ioCongestion - 5 else 0 }

def idleOrphans (c : Nat) (batch : Nat) (s : State) : List Ptr → State
  | [] => s
  | cur :: rest =>
    let e := s.entry cur
    if batch = 0 then
      s
    else if e.pendingReclaim ∧ e.pinCount = 0 ∧ s.has c cur then
      idleOrphans c (batch - 1) ((s.unlink c cur true).fcEntryFree cur) rest
    else
      idleOrphans c batch s rest

def idleRemove (s : State) (c : Nat) (p : Ptr) : State :=
  if s.has c p then
    ((s.unlink c p false).modCache c fun x => x.fcUpdateOscillate (s.entry p)).fcEntryFree p
  else
    s.setPending p

def idleQuota (c : Nat) (scans batch : Nat) (stats : List (UInt64 × UInt64 × UInt64)) (s : State)
    : List Ptr → State
  | [] => s
  | cur :: rest =>
    let x := s.cache c
    let e := s.entry cur
    if scans = 0 ∨ batch = 0 then
      s
    else if e.fileId ≠ 0 ∧ e.idle then
      let (cached, quota) :=
        (stats.lookup e.fileId).getD (0, x.smoothedCacheBytes * e.fileSize / x.maxFileSize)
      if cached + e.dataLen > quota ∧ oscillating x e = false then
        idleQuota c (scans - 1) (if s.has c cur then batch - 1 else batch)
          ((e.fileId, cached, quota) :: stats) (s.idleRemove c cur) rest
      else
        idleQuota c (scans - 1) batch ((e.fileId, cached + e.dataLen, quota) :: stats) s rest
    else
      idleQuota c (scans - 1) batch stats s rest

def idleEvict (c : Nat) (scans batch : Nat) (largest : UInt64) (s : State)
    : List Ptr → State × UInt64
  | [] => (s, largest)
  | cur :: rest =>
    let e := s.entry cur
    if scans = 0 ∨ batch = 0 then
      (s, largest)
    else
      let largest := if e.fileSize > largest then e.fileSize else largest
      if e.idle ∧ fileCacheShouldEvict (s.cache c) e then
        idleEvict c (scans - 1) (if s.has c cur then batch - 1 else batch) largest
          (s.idleRemove c cur) rest
      else
        idleEvict c (scans - 1) batch largest s rest

def idleFinish (s : State) (c : Nat) (largest : UInt64) : State :=
  s.modCache c fun x =>
    let window := x.evictScanWindow + x.evictScanWindow / 2
    let window := if window > 512 then 512 else window
    { x with
      maxFileSize := if largest > 0 then (x.maxFileSize * 7 + largest) / 8 else x.maxFileSize
      evictScanWindow := if x.evictMissCount ≥ 3 then window else x.evictScanWindow
      evictMissCount := if x.evictMissCount ≥ 3 then 0 else x.evictMissCount }

def clamp (n lo hi : Nat) : Nat := max lo (min n hi)

def idleQuotaPhase (s : State) (c : Nat) (batch : Nat) : State :=
  let x := s.cache c
  if x.maxFileSize > 0 ∧ x.smoothedCacheBytes > 0 then
    idleQuota c (clamp (x.totalEntries.toNat / 2) 64 512) batch [] s x.lru.reverse
  else
    s

def idleEvictPhase (s : State) (c : Nat) (batch : Nat) : State :=
  let x := s.cache c
  let (s, largest) := idleEvict c (max 32 (x.totalEntries.toNat / 4)) batch 0 s x.lru
  s.idleFinish c largest

def moveOscillate (s : State) (src dst : Nat) (key : Key) (merge : Bool) : State :=
  match (s.cache src).oscillateTree.lookup key with
  | none => s
  | some osc =>
    let s := s.modCache src fun x => x.dropOscillate key
    s.modCache dst fun x =>
      let new :=
        match merge, x.oscillateTree.lookup key with
        | true, some old =>
          { old with
            freq := old.freq + osc.freq, ioLen := old.ioLen + osc.ioLen,
            oscCount := old.oscCount + osc.oscCount }
        | _, _ => osc
      { x with
        oscillateTree := x.oscillateTree.insert key new
        totalOscillations := x.totalOscillations + osc.oscCount }

def checkLoad.go (src dst : Nat) (batch scanned : Nat) (s : State) : List Ptr → State
  | [] => s
  | cur :: rest =>
    let e := s.entry cur
    let d := s.cache dst
    if batch = 0 ∨ scanned ≥ (s.cache src).totalEntries.toNat then
      s
    else if e.idle = false then
      go src dst batch (scanned + 1) s rest
    else if d.softLimit > 0 ∧ d.smoothedCacheBytes + e.dataLen > d.softLimit then
      s
    else if s.has src cur = false then
      go src dst batch (scanned + 1) (s.setPending cur) rest
    else if d.has e.key then
      let s := (s.unlink src cur false).moveOscillate src dst e.key true
      go src dst batch (scanned + 1) (s.fcEntryFree cur) rest
    else
      let s := (s.unlink src cur false).moveOscillate src dst e.key false
      let s := (s.link dst cur Cache.fcLruPushBack).modCache dst fun x => x.seeFileSize e.fileSize
      go src dst (batch - 1) (scanned + 1) s rest

def checkLoad (s : State) (src dst : Nat) : State :=
  let batch := clamp ((s.cache src).totalEntries.toNat / 16) 8 64
  checkLoad.go src dst batch 0 s (s.cache src).lru

def decay (s : State) (c : Nat) : Nat → State
  | 0 => s
  | batch + 1 =>
    match (s.cache c).decayCursor with
    | none => s
    | some p =>
      let old := s.entry p
      let s := s.modEntry p fun e =>
        { e with
          accessFreq := if e.accessFreq > 1 then e.accessFreq / 2 else e.accessFreq
          totalIoLen := e.totalIoLen / 2 }
      let e := s.entry p
      let s := s.modCache c fun x =>
        { x with
          decayCursor := x.lruNext p
          totalCacheIo := x.totalCacheIo - old.totalIoLen + e.totalIoLen
          totalCacheFreq := x.totalCacheFreq - old.accessFreq + e.accessFreq }
      decay s c batch

def decayOscillations (x : Cache) : Cache :=
  (x.oscillateTree.entries.foldl halve (x, 128)).1
where
  halve (acc : Cache × Nat) (o : (_ : Key) × Oscillate) : Cache × Nat :=
    let osc := { o.2 with
      freq := o.2.freq / 2, ioLen := o.2.ioLen / 2, oscCount := o.2.oscCount / 2 }
    let x := acc.1
    let x := { x with totalOscillations := x.totalOscillations - (o.2.oscCount - osc.oscCount) }
    if osc.oscCount = 0 ∧ osc.freq = 0 ∧ acc.2 > 0 then
      ({ x with oscillateTree := x.oscillateTree.erase o.1 }, acc.2 - 1)
    else
      ({ x with oscillateTree := x.oscillateTree.insert o.1 osc }, acc.2)

def fileCacheTick (s : State) (c : Nat) : State :=
  let s := s.modCache c fun x => fcUpdateAveragesInternal { x with clock := x.clock + 1 }
  let x := s.cache c
  let ticks : UInt64 := if x.totalEntries > 10000 then 500 else 1000
  if x.clock - x.lastDecayTick ≥ ticks then
    let s := s.modCache c fun x =>
      { x with
        lastDecayTick := x.clock
        decayCursor := if x.decayCursor = none then x.lru.head? else x.decayCursor }
    let s := s.decay c (clamp (x.totalEntries.toNat / 8) 32 256)
    s.modCache c decayOscillations
  else
    s

def fileCacheSetLimits (s : State) (c : Nat) (softLimit hardLimit : UInt64) : State :=
  s.modCache c fun x => { x with softLimit, hardLimit }

def store (s : State) (p : Ptr) (data : List UInt8) : State :=
  s.modEntry p fun e => { e with data }

end State

end FC
