import Skyline.FC.Lemmas.Ok

/-!
This module contains the moves of which the functions of the file cache are made.
-/

namespace FC

open Function

structure Cache.Same (x y : Cache) : Prop where
  index : y.index = x.index
  lru : y.lru.Perm x.lru
  bytes : y.totalCacheBytes = x.totalCacheBytes
  dirty : y.dirtyCacheBytes = x.dirtyCacheBytes
  io : y.totalCacheIo = x.totalCacheIo
  freq : y.totalCacheFreq = x.totalCacheFreq
  entries : y.totalEntries = x.totalEntries
  cb : y.writebackCb = x.writebackCb
  cursor : ∀ p, y.decayCursor = some p → x.decayCursor = some p ∨ p ∈ x.lru

structure Cache.Shifted (x y : Cache) (e e' : Entry) : Prop where
  index : y.index = x.index
  lru : y.lru.Perm x.lru
  bytes : y.totalCacheBytes = x.totalCacheBytes
  dirty : y.dirtyCacheBytes = x.dirtyCacheBytes
  io : y.totalCacheIo = x.totalCacheIo - e.totalIoLen + e'.totalIoLen
  freq : y.totalCacheFreq = x.totalCacheFreq - e.accessFreq + e'.accessFreq
  entries : y.totalEntries = x.totalEntries
  cb : y.writebackCb = x.writebackCb
  cursor : ∀ p, y.decayCursor = some p → x.decayCursor = some p ∨ p ∈ x.lru

structure Entry.Stat (e e' : Entry) : Prop where
  key : e'.key = e.key
  data : e'.data = e.data
  buffer : e'.buffer = e.buffer
  crc32 : e'.crc32 = e.crc32
  state : e'.state = e.state
  pinCount : e'.pinCount = e.pinCount
  isDirty : e'.isDirty = e.isDirty
  pendingReclaim : e'.pendingReclaim = e.pendingReclaim
  writebackRetries : e'.writebackRetries = e.writebackRetries
  stamp : e'.stamp = e.stamp

variable {e : Entry} {tag : Tag} {x : Cache} {a : State.Promotion} {l : List Ptr} {buffer : Ptr}

theorem Entry.idle_iff : e.idle ↔ e.pinCount = 0 ∧ e.state = .cached ∧ e.isDirty = false := by
  simp [Entry.idle, and_assoc]

inductive Tag where
  | plain
  | invalidate (p : Ptr)
  | flush (p : Ptr)
  | retry (p : Ptr)
  | settle (p : Ptr)
  | fail (p : Ptr)
  | writtenOut (p : Ptr)
  | detach (p : Ptr)
  | alloc (p : Ptr)
  | drop (p : Ptr)
  | build (p : Ptr)
  | attach (p : Ptr)
  | insert (p : Ptr)
  | reuse (p : Ptr)
  | discard (p : Ptr)
  | overrule (p : Ptr)
  | raw
  | store (p : Ptr)
  | returned (key : Key) (stamp : Nat)

structure Entry.Filled (e : Entry) (a : State.Promotion) (buffer : Ptr) : Prop where
  key : e.key = a.key
  data : e.data = a.data
  buffer : e.buffer = if a.useInline then none else some buffer
  crc32 : e.buffer.isSome → e.crc32 = fcCrc32Partial e.data
  state : e.state = .cached
  pinCount : e.pinCount = 0
  pendingReclaim : e.pendingReclaim = false

inductive Move (s : State) : Tag → State → Prop where
  | tune (c : Nat) (g : Cache → Cache) (h : (s.cache c).Same (g (s.cache c)))
    : Move s .plain (s.modCache c g)
  | stat (c : Nat) (p : Ptr) (f : Entry → Entry) (g : Cache → Cache) (hp : p ∈ (s.cache c).lru)
      (hf : (s.entry p).Stat (f (s.entry p)))
      (hg : (s.cache c).Shifted (g (s.cache c)) (s.entry p) (f (s.entry p)))
    : Move s .plain ((s.modEntry p f).modCache c g)
  | pin (c : Nat) (p : Ptr) (since : Nat) (hp : p ∈ (s.cache c).lru)
    (hstate : (s.entry p).state = .cached)
    : Move s .plain (s.pin p since)
  | unpin (c : Nat) (p : Ptr) (hp : p ∈ (s.cache c).lru) (hheld : p ∈ s.held)
      (hstays : (s.entry p).pinCount = 1 → (s.entry p).state ≠ .invalid)
    : Move s .plain (s.unpin p)
  | putLast (c : Nat) (p : Ptr) (hp : p ∈ (s.cache c).lru) (hheld : p ∈ s.held)
      (hpin : (s.entry p).pinCount = 1) (hstate : (s.entry p).state = .invalid)
    : Move s .plain (((s.unpin p).unlink c p true).fcEntryFree p)
  | refuse (c : Nat) (p : Ptr) (hp : p ∈ (s.cache c).lru) (hstate : (s.entry p).state = .cached)
      (hbuffer : (s.entry p).buffer.isSome)
      (hcrc : fcCrc32Partial (s.entry p).data ≠ (s.entry p).crc32)
    : Move s .plain (s.modEntry p fun e => { e with state := .invalid, pendingReclaim := true })
  | invalidate (c : Nat) (p : Ptr) (hp : p ∈ (s.cache c).lru) (hpin : 0 < (s.entry p).pinCount)
    : Move s (.invalidate p) (s.setState p .invalid)
  | flushPin (c : Nat) (p : Ptr) (hp : p ∈ (s.cache c).lru) (hpin : (s.entry p).pinCount = 0)
      (hdirty : (s.entry p).isDirty)
    : Move s (.flush p) (s.flushPin p)
  | wrote (p : Ptr) (hp : p ∈ s.flushed) : Move s .plain (s.wrote p)
  | retry (c : Nat) (p : Ptr) (n : UInt8) (hp : p ∈ (s.cache c).lru) (hflushed : p ∈ s.flushed)
    : Move s (.retry p) (s.modEntry p fun e => { e with writebackRetries := n })
  | settle (c : Nat) (p : Ptr) (hp : p ∈ (s.cache c).lru) (hflushed : p ∈ s.flushed)
    : Move s (.settle p) (State.flushEnd c s p)
  | fail (c : Nat) (p : Ptr) (hp : p ∈ (s.cache c).lru) (hflushed : p ∈ s.flushed)
    : Move s (.fail p)
        ((s.flushUnpin p).modEntry p
          fun e => { e with state := .writebackFailed, writebackRetries := 5 })
  | writtenOut (c : Nat) (p : Ptr) (hp : p ∈ (s.cache c).lru) (hflushed : p ∈ s.flushed)
      (hwritten : (s.entry p).stamp ∈ s.history.written)
    : Move s (.writtenOut p) (((s.flushUnpin p).unlink c p true).fcEntryFree p)
  | remove (c : Nat) (p : Ptr) (dirty : Bool) (hp : p ∈ (s.cache c).lru)
      (hpin : (s.entry p).pinCount = 0) (hclean : (s.entry p).isDirty = false)
    : Move s .plain ((s.unlink c p dirty).fcEntryFree p)
  | overrule (c : Nat) (p : Ptr) (hp : p ∈ (s.cache c).lru) (hpin : (s.entry p).pinCount = 0)
    : Move s (.overrule p) ((s.unlink c p true).fcEntryFree p)
  | raw (c : Nat) (p : Ptr) (hp : p ∈ (s.cache c).lru) (hpin : (s.entry p).pinCount = 0)
      (hdropped : (s.entry p).stamp ∈ s.history.dropped)
    : Move s .raw ((s.unlink c p true).freeRaw p)
  | detach (c : Nat) (p : Ptr) (hp : p ∈ (s.cache c).lru) (hidle : (s.entry p).idle)
    : Move s (.detach p) (s.unlink c p false)
  | attach (c : Nat) (p : Ptr) (push : Cache → Ptr → Cache) (hp : p ∈ s.loose)
      (hpush : push = Cache.fcLruPushBack ∨ push = Cache.fcLruPushFront)
      (hnew : (s.cache c).index.lookup (s.entry p).key = none)
    : Move s (.attach p) (s.link c p push)
  | alloc : Move s (.alloc s.next) s.allocEntry.1
  | dropEntry (p : Ptr) (hp : p ∈ s.loose) (hbuffer : (s.entry p).buffer = none)
    : Move s (.drop p) (s.dropEntry p)
  | build (p : Ptr) (a : State.Promotion) (buffer : Ptr) (e : Entry) (hp : p ∈ s.loose)
      (hempty : (s.entry p).buffer = none) (hbuffer : buffer < s.next)
      (hfresh : .data buffer ∉ s.history.owned)
      (he : e.Filled a buffer) (hclean : e.isDirty = false)
    : Move s (.build p) ((s.takeData a buffer).modEntry p fun _ => e)
  | insert (c : Nat) (p : Ptr) (a : State.Promotion) (buffer : Ptr) (e : Entry) (hp : p ∈ s.loose)
      (hempty : (s.entry p).buffer = none) (hbuffer : buffer < s.next)
      (hfresh : .data buffer ∉ s.history.owned)
      (he : e.Filled a buffer) (hdirty : e.isDirty = a.isDirty)
      (hstamp : e.stamp = s.history.stamps + 1)
      (hnew : (s.cache c).index.lookup a.key = none)
    : Move s (.insert p)
        ((((s.takeData a buffer).stampData a).modEntry p fun _ => e).link c p Cache.fcLruPushBack)
  | reuse (c : Nat) (p : Ptr) (a : State.Promotion) (buffer : Ptr) (hp : p ∈ (s.cache c).lru)
      (hpin : (s.entry p).pinCount = 0) (hkey : (s.entry p).key = a.key) (hbuffer : buffer < s.next)
      (hfresh : .data buffer ∉ s.history.owned)
    : Move s (.reuse p) (s.promoteReuse c p a buffer)
  | discard (c : Nat) (p : Ptr) (hp : p ∈ (s.cache c).lru) (hpin : (s.entry p).pinCount = 0)
    : Move s (.discard p) (s.promoteDiscard c p)
  | store (p : Ptr) (data : List UInt8) (hp : p ∈ s.held)
      (hlength : data.length = (s.entry p).data.length)
    : Move s (.store p) (s.store p data)
  | note (v : Nat) : Move s .plain (s.record fun h => { h with dropped := v :: h.dropped })
  | fresh : Move s .plain { s with next := s.next + 1 }
  | returned (key : Key) (stamp : Nat) : Move s (.returned key stamp) (s.returnPromote key stamp)

inductive Moves (allowed : State → Tag → Prop) (s : State) : State → Prop where
  | refl : Moves allowed s s
  | tail {s' s'' : State} (h : Moves allowed s s') (tag : Tag) (hallowed : allowed s' tag)
      (hmove : Move s' tag s'') : Moves allowed s s''

def Plain (_ : State) (tag : Tag) : Prop := tag = .plain

def PlainOr (other : Tag) (_ : State) (tag : Tag) : Prop := tag = .plain ∨ tag = other

namespace Moves

variable {allowed allowed' : State → Tag → Prop} {s s' s'' : State}

theorem trans (h : Moves allowed s s') (h' : Moves allowed s' s'') : Moves allowed s s'' := by
  induction h' with
  | refl => exact h
  | tail _ tag hallowed hmove ih => exact ih.tail tag hallowed hmove

theorem single (hallowed : allowed s tag) (h : Move s tag s') : Moves allowed s s' :=
  .tail .refl tag hallowed h

theorem mono (hmono : ∀ s tag, allowed s tag → allowed' s tag) (h : Moves allowed s s')
    : Moves allowed' s s' := by
  induction h with
  | refl => exact .refl
  | tail _ tag hallowed hmove ih => exact ih.tail tag (hmono _ tag hallowed) hmove

end Moves

namespace Cache

theorem fcLruMoveToBack_lru {p : Ptr} (hp : p ∈ x.lru)
    : (x.fcLruMoveToBack p).lru.Perm x.lru := by
  unfold fcLruMoveToBack
  split
  . exact .refl _
  . apply List.perm_append_comm.trans
    exact (List.perm_cons_erase hp).symm

end Cache

theorem Cache.reuseTotals_lru {p : Ptr} {old : Entry} (hp : p ∈ x.lru)
    : (State.reuseTotals x p old a).lru.Perm x.lru :=
  fcLruMoveToBack_lru (x := (x.subTiny old.dataLen).addTiny a.dataLen) hp

@[simp]
theorem Cache.fcLruMoveToBack_index (x : Cache) (p : Ptr)
    : (x.fcLruMoveToBack p).index = x.index := by
  unfold fcLruMoveToBack
  split <;> rfl

namespace Ok

variable {s s' : State} {c : Nat} {p : Ptr}

theorem modEntry (h : Ok s) (hp : p ∈ (s.cache c).lru) (f : Entry → Entry)
    (hkey : (f (s.entry p)).key = (s.entry p).key)
    (hok : EntryOk (f (s.entry p)) (s.held.count p) (s.flushed.count p))
    : Ok (s.modEntry p f) := by
  refine h.edit hp (fun _ _ => rfl) rfl (.refl _) (fun q hq => update_of_ne hq _ _) ?_
    (fun _ _ => rfl) (fun _ _ => rfl) rfl rfl ?_
  . rw [State.modEntry_entry, update_self, hkey]
  . rw [State.modEntry_entry, update_self]
    exact hok

theorem modCache (h : Ok s) (g : Cache → Cache) (hindex : (g (s.cache c)).index = (s.cache c).index)
    (hlru : (g (s.cache c)).lru.Perm (s.cache c).lru) : Ok (s.modCache c g) := by
  refine h.congr ?_ ?_ rfl rfl rfl rfl (Nat.le_refl _)
  . intro d
    by_cases hd : d = c
    . rw [hd, State.modCache_cache, update_self, hindex]
    . rw [State.modCache_cache, update_of_ne hd]
  . intro d
    by_cases hd : d = c
    . rw [hd, State.modCache_cache, update_self]
      exact hlru
    . rw [State.modCache_cache, update_of_ne hd]

section

variable (h : Ok s) (hp : p ∈ (s.cache c).lru)
include h hp

theorem flushed_count (hflushed : p ∈ s.flushed)
    : s.flushed.count p = 1 ∧ s.held.count p = 0 ∧ (s.entry p).pinCount = 1
        ∧ (s.entry p).state ≠ .cached ∧ (s.entry p).isDirty := by
  have hok := h.entries c p hp
  have hflush := hok.flush (Nat.ne_of_gt (List.count_pos_iff.mpr hflushed))
  have hpins := hok.pins
  exact ⟨hflush.1, hflush.2.1, by omega, hflush.2.2⟩

theorem held_count (hheld : p ∈ s.held)
    : s.flushed.count p = 0 ∧ (s.entry p).pinCount = s.held.count p := by
  have hok := h.entries c p hp
  have hpos := List.count_pos_iff.mpr hheld
  have hpins := hok.pins
  have hflush := hok.flush
  omega

theorem pin (hstate : (s.entry p).state = .cached) (since : Nat)
    : Ok (s.pin p since) := by
  have hok := h.entries c p hp
  have hflushed : s.flushed.count p = 0 := by
    by_contra hne
    exact (hok.flush hne).2.2.1 hstate
  refine h.edit hp (fun _ _ => rfl) rfl (.refl _) (fun q hq => update_of_ne hq _ _) ?_ ?_
    (fun _ _ => rfl) rfl rfl ?_
  . simp [State.pin, State.record]
  . intro q hq
    exact List.count_cons_of_ne hq.symm
  . have hcount : (s.pin p since).held.count p = s.held.count p + 1 := List.count_cons_self
    have hentry : (s.pin p since).entry p
        = { s.entry p with pinCount := (s.entry p).pinCount + 1 } := by
      simp [State.pin, State.record]
    have hsame : (s.pin p since).flushed = s.flushed := rfl
    rw [hcount, hentry, hsame, hflushed]
    have hpins := hok.pins
    refine ⟨?_, ?_, ?_, hok.pending, ?_⟩
    . dsimp only
      omega
    . intro hne
      exact absurd rfl hne
    . intro _ hzero
      omega
    . intro hzero
      cases hzero

end

theorem unpin_entry (p : Ptr) : (s.unpin p).entry = update s.entry p
    { s.entry p with
      pinCount := (s.entry p).pinCount - 1
      crc32 := if (s.entry p).isDirty
        ∧ (s.entry p).buffer.isSome then fcCrc32Partial (s.entry p).data
        else (s.entry p).crc32 } := rfl

theorem unpin (h : Ok s) (hp : p ∈ (s.cache c).lru) (hheld : p ∈ s.held)
    (hstays : (s.entry p).pinCount = 1 → (s.entry p).state ≠ .invalid)
    : Ok (s.unpin p) := by
  have hok := h.entries c p hp
  have hcount := h.held_count hp hheld
  have hpos := List.count_pos_iff.mpr hheld
  refine h.edit hp (fun _ _ => rfl) rfl (.refl _) (fun q hq => update_of_ne hq _ _) ?_ ?_
    (fun _ _ => rfl) rfl rfl ?_
  . rw [unpin_entry, update_self]
  . intro q hq
    exact List.count_erase_of_ne hq
  . have herase : (s.unpin p).held.count p = s.held.count p - 1 := List.count_erase_self
    have hsame : (s.unpin p).flushed = s.flushed := rfl
    rw [unpin_entry, update_self, herase, hsame, hcount.1]
    refine ⟨?_, ?_, ?_, hok.pending, ?_⟩
    . dsimp only
      omega
    . intro hne
      exact absurd rfl hne
    . intro hdirty hzero
      constructor
      . intro hbuffer
        exact if_pos ⟨hdirty, hbuffer⟩
      . rw [← Bool.not_eq_true]
        intro hpending
        exact hstays (by omega) (hok.pending hpending)
    . intro hzero hstate
      dsimp only at hzero
      exact absurd hstate (hstays (by omega))

theorem unlinked (h : Ok s) (s₁ : State) (hp : p ∈ (s.cache c).lru) (hcache : s₁.cache = s.cache)
    (hentries : ∀ q, q ≠ p → s₁.entry q = s.entry q) (hkey : (s₁.entry p).key = (s.entry p).key)
    (hheld : ∀ q, s₁.held.count q = if q = p then 0 else s.held.count q)
    (hflushed : ∀ q, s₁.flushed.count q = if q = p then 0 else s.flushed.count q)
    (hloose : s₁.loose = s.loose) (hnext : s₁.next = s.next) (dirty : Bool)
    : Ok { s₁.unlink c p dirty with loose := s₁.loose } := by
  refine h.remove hp ?_ ?_ ?_ hentries hheld hflushed hloose hnext
  . intro d hd
    have : (s₁.unlink c p dirty).cache d = s₁.cache d := update_of_ne hd _ _
    rw [← hcache]
    exact this
  . have : (s₁.unlink c p dirty).cache c = (s₁.cache c).unlink p (s₁.entry p) dirty :=
      update_self ..
    dsimp only
    rw [this, Cache.unlink, hkey, hcache]
    rfl
  . have : (s₁.unlink c p dirty).cache c = (s₁.cache c).unlink p (s₁.entry p) dirty :=
      update_self ..
    dsimp only
    rw [this, Cache.unlink, hcache]
    exact .refl _

theorem count_ite_of_zero (hzero : l.count p = 0) (q : Ptr)
    : l.count q = if q = p then 0 else l.count q := by
  split
  next hq => rw [hq, hzero]
  next => rfl

theorem count_erase_ite (hone : l.count p = 1) (q : Ptr)
    : (l.erase p).count q = if q = p then 0 else l.count q := by
  split
  next hq => rw [hq, List.count_erase_self, hone]
  next hq => exact List.count_erase_of_ne hq

section

variable (h : Ok s) (hp : p ∈ (s.cache c).lru) (hpin : (s.entry p).pinCount = 0) (dirty : Bool)
include h hp hpin dirty

theorem unlinked_self : Ok { s.unlink c p dirty with loose := s.loose } := by
  have hnot := h.not_held hp hpin
  exact h.unlinked s hp rfl (fun _ _ => rfl) rfl (count_ite_of_zero hnot.1)
    (count_ite_of_zero hnot.2) rfl
    rfl dirty

theorem detach
    : Ok (s.unlink c p dirty) := by
  have hnot := h.not_held hp hpin
  have hok := h.entries c p hp
  rw [hnot.1, hnot.2] at hok
  refine (h.unlinked_self hp hpin dirty).loosen ?_ ?_ (h.bound c p hp) hok
  . intro d hd
    by_cases hdc : d = c
    . subst hdc
      have hcache : (s.unlink d p dirty).cache d = (s.cache d).unlink p (s.entry p) dirty :=
        update_self ..
      rw [hcache] at hd
      exact ((h.nodup d).mem_erase_iff.mp hd).1 rfl
    . have hcache : (s.unlink c p dirty).cache d = s.cache d := update_of_ne hdc _ _
      rw [hcache] at hd
      exact hdc (h.apart d c p hd hp)
  . intro hmem
    exact h.loose_apart p hmem c hp

end

theorem freed (h : Ok s) (hcache : s'.cache = s.cache) (hentry : s'.entry = s.entry)
    (hheld : s'.held = s.held) (hflushed : s'.flushed = s.flushed) (hloose : s'.loose = s.loose)
    (hnext : s'.next = s.next) : Ok s' := by
  refine h.congr ?_ ?_ hentry hheld hflushed hloose (Nat.le_of_eq hnext.symm)
  . intro d
    rw [hcache]
  . intro d
    rw [hcache]

section

variable {s₁ : State} {dirty : Bool} (h : Ok { s₁.unlink c p dirty with loose := s₁.loose })
include h

theorem fcEntryFree_unlink : Ok ((s₁.unlink c p dirty).fcEntryFree p) := by
  refine h.freed rfl rfl rfl rfl ?_ rfl
  simp [State.unlink, State.fcEntryFree, State.kfree, State.record]

theorem freeRaw_unlink : Ok ((s₁.unlink c p dirty).freeRaw p) := by
  refine h.freed rfl rfl rfl rfl ?_ rfl
  simp [State.unlink, State.freeRaw, State.kfree, State.record]

end

section

variable (h : Ok s) (hp : p ∈ (s.cache c).lru)
include h hp

theorem putLast (hheld : p ∈ s.held)
    (hpin : (s.entry p).pinCount = 1) : Ok (((s.unpin p).unlink c p true).fcEntryFree p) := by
  have hcount := h.held_count hp hheld
  have hone : s.held.count p = 1 := by omega
  apply fcEntryFree_unlink
  refine h.unlinked (s.unpin p) hp rfl (fun q hq => update_of_ne hq _ _) ?_
    (count_erase_ite hone) (count_ite_of_zero hcount.1) rfl rfl true
  rw [unpin_entry, update_self]

theorem flushPin (hpin : (s.entry p).pinCount = 0)
    (hdirty : (s.entry p).isDirty) : Ok (s.flushPin p) := by
  have hnot := h.not_held hp hpin
  have hok := h.entries c p hp
  rw [hnot.1, hnot.2] at hok
  have hentry : (s.flushPin p).entry p
      = { s.entry p with state := .flushing, pinCount := (s.entry p).pinCount + 1 } :=
    update_self ..
  refine h.edit hp (fun _ _ => rfl) rfl (.refl _) (fun q hq => update_of_ne hq _ _) ?_
    (fun _ _ => rfl) ?_ rfl rfl ?_
  . rw [hentry]
  . intro q hq
    exact List.count_cons_of_ne hq.symm
  . have hcount : (s.flushPin p).flushed.count p = s.flushed.count p + 1 := List.count_cons_self
    have hsame : (s.flushPin p).held = s.held := rfl
    have hsound := hok.sound hdirty rfl
    rw [hentry, hcount, hsame, hnot.1, hnot.2]
    refine ⟨?_, ?_, ?_, ?_, ?_⟩
    . dsimp only
      rw [hpin]
    . intro _
      exact ⟨rfl, rfl, by simp, hdirty⟩
    . intro _ _
      exact hsound
    . intro hpending
      dsimp only at hpending
      rw [hsound.2] at hpending
      cases hpending
    . intro hzero
      cases hzero

section

variable (hflushed : p ∈ s.flushed)
include hflushed

theorem flushUnpin (f : Entry → Entry)
    (hkey : ∀ e, (f e).key = e.key) (hpin : ∀ e, (f e).pinCount = e.pinCount)
    (hdata : ∀ e, (f e).data = e.data ∧ (f e).buffer = e.buffer ∧ (f e).crc32 = e.crc32)
    (hpending : ∀ e, (f e).pendingReclaim = e.pendingReclaim) (hstate : ∀ e, (f e).state ≠ .invalid)
    : Ok ((s.flushUnpin p).modEntry p f) := by
  have hcount := h.flushed_count hp hflushed
  have hok := h.entries c p hp
  have hentry : ((s.flushUnpin p).modEntry p f).entry
      = update s.entry p (f { s.entry p with pinCount := (s.entry p).pinCount - 1 }) := by
    simp [State.flushUnpin, State.modEntry]
  refine h.edit hp (fun _ _ => rfl) rfl (.refl _) ?_ ?_ (fun _ _ => rfl) ?_ rfl rfl ?_
  . intro q hq
    rw [hentry, update_of_ne hq]
  . rw [hentry, update_self, hkey]
  . intro q hq
    exact List.count_erase_of_ne hq
  . have herase : ((s.flushUnpin p).modEntry p f).flushed.count p = s.flushed.count p - 1 :=
      List.count_erase_self
    have hsame : ((s.flushUnpin p).modEntry p f).held = s.held := rfl
    have hsound := hok.sound hcount.2.2.2.2 hcount.2.1
    rw [hentry, update_self, herase, hsame, hcount.1, hcount.2.1]
    refine ⟨?_, ?_, ?_, ?_, fun _ hinvalid => absurd hinvalid (hstate _)⟩
    . rw [hpin]
      dsimp only
      rw [hcount.2.2.1]
    . intro hne
      exact absurd rfl hne
    . intro _ _
      rw [(hdata _).1, (hdata _).2.1, (hdata _).2.2, hpending]
      exact hsound
    . rw [hpending]
      dsimp only
      rw [hsound.2]
      intro hfalse
      cases hfalse

theorem writtenOut
    : Ok (((s.flushUnpin p).unlink c p true).fcEntryFree p) := by
  have hcount := h.flushed_count hp hflushed
  apply fcEntryFree_unlink
  refine h.unlinked (s.flushUnpin p) hp rfl (fun q hq => update_of_ne hq _ _) ?_
    (count_ite_of_zero hcount.2.1) (count_erase_ite hcount.1) rfl rfl true
  simp [State.flushUnpin]

theorem settle
    : Ok (State.flushEnd c s p) := by
  unfold State.flushEnd
  apply Ok.modCache
  . apply h.flushUnpin hp hflushed
    . intro e
      rfl
    . intro e
      rfl
    . intro e
      exact ⟨rfl, rfl, rfl⟩
    . intro e
      rfl
    . intro e
      dsimp only
      split <;> simp
  . rfl
  . exact .refl _

theorem fail
    : Ok ((s.flushUnpin p).modEntry p fun e =>
        { e with state := .writebackFailed, writebackRetries := 5 }) := by
  apply h.flushUnpin hp hflushed
  . intro e
    rfl
  . intro e
    rfl
  . intro e
    exact ⟨rfl, rfl, rfl⟩
  . intro e
    rfl
  . intro e
    simp

end

end

theorem link_push (h : Ok s) (push : Cache → Ptr → Cache)
    (hpush : push = Cache.fcLruPushBack ∨ push = Cache.fcLruPushFront) (hp : p ∈ s.loose)
    (hnew : (s.cache c).index.lookup (s.entry p).key = none) : Ok (s.link c p push) := by
  have hcache : (s.link c p push).cache c = push ((s.cache c).link p (s.entry p)) p :=
    update_self ..
  refine h.link hp hnew (fun d hd => update_of_ne hd _ _) ?_ ?_ rfl rfl rfl rfl rfl
  . rw [hcache]
    rcases hpush with rfl | rfl
    . rfl
    . rfl
  . rw [hcache]
    rcases hpush with rfl | rfl
    . exact List.perm_append_comm
    . exact .refl _

theorem of_filled (he : e.Filled a buffer)
    : EntryOk e 0 0 where
  pins := he.pinCount
  flush hne := absurd rfl hne
  sound _ _ := ⟨he.crc32, he.pendingReclaim⟩
  pending hpending := by
    rw [he.pendingReclaim] at hpending
    cases hpending
  settled _ hstate := by
    rw [he.state] at hstate
    cases hstate

theorem build (h : Ok s) (hp : p ∈ s.loose)
    (he : e.Filled a buffer) (s₁ : State) (hcache : s₁.cache = s.cache)
    (hentry : s₁.entry = s.entry)
    (hheld : s₁.held = s.held) (hflushed : s₁.flushed = s.flushed) (hloose : s₁.loose = s.loose)
    (hnext : s₁.next = s.next) : Ok (s₁.modEntry p fun _ => e) := by
  apply (h.freed hcache hentry hheld hflushed hloose hnext).fill
  . rw [hcache]
    exact h.loose_apart p hp
  . exact of_filled he

theorem reuse (h : Ok s) (a : State.Promotion) (buffer : Ptr) (hp : p ∈ (s.cache c).lru)
    (hpin : (s.entry p).pinCount = 0) : Ok (s.promoteReuse c p a buffer) := by
  have hnot := h.not_held hp hpin
  have hcache : (s.promoteReuse c p a buffer).cache c = _ := update_self ..
  have hentry : (s.promoteReuse c p a buffer).entry p = _ := update_self ..
  refine h.edit hp (fun _ hd => update_of_ne hd _ _) ?_ ?_
    (fun q hq => update_of_ne hq _ _) ?_ (fun _ _ => rfl) (fun _ _ => rfl) rfl rfl ?_
  . rw [hcache]
    apply Cache.fcLruMoveToBack_index
  . rw [hcache]
    exact Cache.reuseTotals_lru hp
  . rw [hentry]
    rfl
  . have hheld : (s.promoteReuse c p a buffer).held = s.held := rfl
    have hflushed : (s.promoteReuse c p a buffer).flushed = s.flushed := rfl
    rw [hentry, hheld, hflushed, hnot.1, hnot.2]
    refine ⟨hpin, fun hne => absurd rfl hne, ?_, ?_, ?_⟩
    . intro _ _
      refine ⟨?_, rfl⟩
      intro hbuffer
      unfold State.reuseEntry at hbuffer ⊢
      dsimp only at hbuffer ⊢
      split
      next hinline => simp [hinline] at hbuffer
      next => rfl
    . intro hpending
      cases hpending
    . intro _ hstate
      cases hstate

theorem discard (h : Ok s) (hp : p ∈ (s.cache c).lru) (hpin : (s.entry p).pinCount = 0)
    : Ok (s.promoteDiscard c p) := by
  have hnot := h.not_held hp hpin
  have hcache : (s.promoteDiscard c p).cache c = _ := update_self ..
  refine h.remove hp (fun _ hd => update_of_ne hd _ _) ?_ ?_ (fun _ _ => rfl)
    (count_ite_of_zero hnot.1) (count_ite_of_zero hnot.2) ?_ rfl
  . rw [hcache]
    rfl
  . rw [hcache]
    exact .refl _
  . exact List.erase_cons_head ..

theorem store (h : Ok s) (hp : p ∈ s.held) (data : List UInt8) : Ok (s.store p data) := by
  obtain ⟨c, hc⟩ := h.refs p (.inl hp)
  apply h.modEntry hc _ rfl
  have hok := h.entries c p hc
  refine ⟨hok.pins, hok.flush, ?_, hok.pending, hok.settled⟩
  intro _ hzero
  exact absurd hzero (Nat.ne_of_gt (List.count_pos_iff.mpr hp))

theorem move (h : Ok s) (hmove : Move s tag s') : Ok s' := by
  cases hmove with
  | tune _ g hsame => exact h.modCache g hsame.index hsame.lru
  | stat c p f g hp hf hg =>
    refine Ok.modCache ?_ g hg.index hg.lru
    apply h.modEntry hp f hf.key
    have hok := h.entries c p hp
    refine ⟨?_, ?_, ?_, ?_, ?_⟩
    . rw [hf.pinCount]
      exact hok.pins
    . rw [hf.state, hf.isDirty]
      exact hok.flush
    . rw [hf.isDirty, hf.buffer, hf.crc32, hf.data, hf.pendingReclaim]
      exact hok.sound
    . rw [hf.pendingReclaim, hf.state]
      exact hok.pending
    . rw [hf.pinCount, hf.state, hf.pendingReclaim]
      exact hok.settled
  | pin _ _ since hp hstate => exact h.pin hp hstate since
  | unpin _ _ hp hheld hstays => exact h.unpin hp hheld hstays
  | putLast _ _ hp hheld hpin => exact h.putLast hp hheld hpin
  | refuse c p hp hstate hbuffer hcrc =>
    apply h.modEntry hp _ rfl
    have hok := h.entries c p hp
    refine ⟨hok.pins, ?_, ?_, fun _ => rfl, fun _ _ => rfl⟩
    . intro hne
      exact absurd hstate (hok.flush hne).2.2.1
    . intro hdirty hzero
      exact absurd ((hok.sound hdirty hzero).1 hbuffer).symm hcrc
  | invalidate c p hp hpin =>
    apply h.modEntry hp _ rfl
    have hok := h.entries c p hp
    refine ⟨hok.pins, ?_, hok.sound, fun _ => rfl, fun hzero => absurd hzero (Nat.ne_of_gt hpin)⟩
    intro hne
    have hflush := hok.flush hne
    exact ⟨hflush.1, hflush.2.1, by simp, hflush.2.2.2⟩
  | flushPin _ _ hp hpin hdirty => exact h.flushPin hp hpin hdirty
  | wrote => exact h.freed rfl rfl rfl rfl rfl rfl
  | retry c p _ hp =>
    apply h.modEntry hp _ rfl
    have hok := h.entries c p hp
    exact ⟨hok.pins, hok.flush, hok.sound, hok.pending, hok.settled⟩
  | settle _ _ hp hflushed => exact h.settle hp hflushed
  | fail _ _ hp hflushed => exact h.fail hp hflushed
  | writtenOut _ _ hp hflushed => exact h.writtenOut hp hflushed
  | remove _ _ dirty hp hpin => exact fcEntryFree_unlink (h.unlinked_self hp hpin dirty)
  | overrule _ _ hp hpin => exact fcEntryFree_unlink (h.unlinked_self hp hpin true)
  | raw _ _ hp hpin => exact freeRaw_unlink (h.unlinked_self hp hpin true)
  | detach _ _ hp hidle =>
    rw [Entry.idle_iff] at hidle
    exact h.detach hp hidle.1 false
  | attach _ _ push hp hpush hnew => exact h.link_push push hpush hp hnew
  | alloc => exact h.alloc.freed rfl rfl rfl rfl rfl rfl
  | dropEntry p => exact (h.forget p).freed rfl rfl rfl rfl rfl rfl
  | build _ _ _ _ hp _ _ _ he => exact h.build hp he _ rfl rfl rfl rfl rfl rfl
  | insert _ _ a buffer _ hp _ _ _ he _ _ hnew =>
    have hbuild := h.build hp he ((s.takeData a buffer).stampData a) rfl rfl rfl rfl rfl rfl
    apply hbuild.link_push _ (.inl rfl) hp
    rw [State.modEntry_entry, update_self, he.key]
    exact hnew
  | reuse _ _ a buffer hp hpin => exact h.reuse a buffer hp hpin
  | discard _ _ hp hpin => exact h.discard hp hpin
  | store _ data hp => exact h.store hp data
  | note => exact h.freed rfl rfl rfl rfl rfl rfl
  | fresh => exact h.congr (fun _ => rfl) (fun _ => .refl _) rfl rfl rfl rfl (Nat.le_succ _)
  | returned => exact h.freed rfl rfl rfl rfl rfl rfl

theorem moves {allowed : State → Tag → Prop} (h : Ok s) (hmoves : Moves allowed s s') : Ok s' := by
  induction hmoves with
  | refl => exact h
  | tail _ _ _ hmove ih => exact ih.move hmove

end Ok

end FC
