import Skyline.FC.Lemmas.Evict

/-!
This module contains the moves of the accesses to the file cache and of its promotions.
-/

namespace FC

open Function

variable {e : Entry} {s' s₁ : State} {found : Option Ptr} {a : Promotion} {tag : Tag}

namespace Cache

variable {x : Cache} {p q : Ptr}

theorem mem_of_lruNext (h : x.lruNext p = some q) : q ∈ x.lru := by
  apply (List.dropWhile_sublist (· != p)).subset
  apply List.mem_of_mem_tail
  exact List.mem_of_mem_head? h

theorem fcLruRemove_cursor (h : (x.fcLruRemove p).decayCursor = some q)
    : x.decayCursor = some q ∨ q ∈ x.lru := by
  unfold fcLruRemove at h
  dsimp only at h
  split at h
  . exact .inr (mem_of_lruNext h)
  . exact .inl h

theorem fcLruMoveToBack_cursor (h : (x.fcLruMoveToBack p).decayCursor = some q)
    : x.decayCursor = some q ∨ q ∈ x.lru := by
  unfold fcLruMoveToBack at h
  split at h
  . exact .inl h
  . exact fcLruRemove_cursor h

theorem fcLruMoveToBack_same (hp : p ∈ x.lru) : x.Same (x.fcLruMoveToBack p) := by
  have hlru := fcLruMoveToBack_lru hp
  refine ⟨fcLruMoveToBack_index x p, hlru, ?_, ?_, ?_, ?_, ?_, ?_, fun _ => fcLruMoveToBack_cursor⟩
  all_goals
    unfold fcLruMoveToBack
    split <;> rfl

theorem countHit_shifted {e' : Entry} {ioLen : UInt64} (hp : p ∈ x.lru)
    (hio : e'.totalIoLen = e.totalIoLen + ioLen)
    (hfreq : e'.accessFreq = if e.accessFreq = 0 then 1 else e.accessFreq + 1)
    : x.Shifted (x.countHit p ioLen) e e' := by
  have hsame := fcLruMoveToBack_same hp
  refine ⟨hsame.index, hsame.lru, hsame.bytes, hsame.dirty, ?_, ?_, hsame.entries,
    hsame.cb, hsame.cursor⟩
  . rw [hio]
    show x.totalCacheIo + ioLen = _
    abel
  . have hraised : e'.accessFreq = e.accessFreq + 1 := by
      rw [hfreq]
      split
      next hzero => rw [hzero, zero_add]
      next => rfl
    rw [hraised]
    show x.totalCacheFreq + 1 = _
    abel

theorem seeFileSize_same (x : Cache) (fileSize : UInt64) : x.Same (x.seeFileSize fileSize) :=
  ⟨rfl, .refl _, rfl, rfl, rfl, rfl, rfl, rfl, fun _ => .inl⟩

theorem recordOscillate_same (x : Cache) (key : Key) (ioLen fileSize fileId : UInt64)
    : x.Same (x.recordOscillate key ioLen fileSize fileId) :=
  ⟨rfl, .refl _, rfl, rfl, rfl, rfl, rfl, rfl, fun _ => .inl⟩

end Cache

namespace State

variable {s : State} {c : Nat} {p : Ptr}

theorem getLocal_moves (h : Ok s) (c : Nat) (key : Key) (ioLen : UInt64)
    : Moves Plain s (s.getLocal c key ioLen).1 := by
  unfold getLocal
  split
  . exact .refl
  next p hlookup =>
    have hp := h.mem_of_lookup hlookup
    dsimp only
    split
    . exact .refl
    next hstate =>
      rw [not_not] at hstate
      split
      next hcrc => exact .single rfl (.refuse c p hp hstate hcrc.1 hcrc.2)
      next =>
        dsimp only
        refine .tail (.single rfl (.stat c p _ _ hp ?_ ?_)) .plain rfl (.pin c p _ ?_ ?_)
        . exact ⟨rfl, rfl, rfl, rfl, rfl, rfl, rfl, rfl, rfl, rfl⟩
        . exact Cache.countHit_shifted hp rfl rfl
        . rw [modCache_cache, update_self]
          exact (Cache.fcLruMoveToBack_same hp).lru.mem_iff.mpr hp
        . rw [modCache_entry, modEntry_entry, update_self]
          exact hstate

theorem getRemote_eq (h : Ok s) {i : Nat} {key : Key}
    (hget : s.getRemote c i key = (s', found))
    : s' = s ∧ found = none
      ∨ ∃ p, found = some p ∧ s' = s.unlink i p false ∧ (s.cache i).index.lookup key = some p
          ∧ p ∈ (s.cache i).lru ∧ (s.entry p).idle := by
  unfold getRemote at hget
  split at hget
  . cases hget
    exact .inl ⟨rfl, rfl⟩
  next p hlookup =>
    dsimp only at hget
    split at hget
    . cases hget
      exact .inl ⟨rfl, rfl⟩
    next hcond =>
      cases hget
      rw [not_or, Bool.not_eq_false] at hcond
      exact .inr ⟨p, rfl, rfl, hlookup, h.mem_of_lookup hlookup, hcond.1⟩

theorem getInsert_moves (hp : p ∈ s.loose) (hnew : (s.cache c).index.lookup (s.entry p).key = none)
    (hstate : (s.entry p).state = .cached) (since : Nat)
    : Moves (PlainOr (.attach p)) s (s.getInsert c p since) := by
  have hattach : Moves (PlainOr (.attach p)) s (s.link c p Cache.fcLruPushBack) :=
    .single (.inr rfl) (.attach c p Cache.fcLruPushBack hp (.inl rfl) hnew)
  have hsee := hattach.tail .plain (.inl rfl)
    (.tune c (fun x => x.seeFileSize (s.entry p).fileSize) (Cache.seeFileSize_same _ _))
  refine hsee.tail .plain (.inl rfl) (.pin c p since ?_ hstate)
  have hlink : (s.link c p Cache.fcLruPushBack).cache c
      = ((s.cache c).link p (s.entry p)).fcLruPushBack p := update_self ..
  rw [modCache_cache, update_self, hlink]
  exact List.mem_append_right _ List.mem_cons_self

theorem unpin_has (s : State) (c : Nat) (p : Ptr) : (s.unpin p).has c p = s.has c p := by
  unfold has
  rw [Ok.unpin_entry, update_self]
  rfl

theorem fileCachePut_moves (h : Ok s) (hp : p ∈ (s.cache c).lru) (hheld : p ∈ s.held)
    : Moves Plain s (s.fileCachePut c p) := by
  have hok := h.entries c p hp
  have hpins := h.held_count hp hheld
  have hpos := List.count_pos_iff.mpr hheld
  unfold fileCachePut
  dsimp only
  rw [Ok.unpin_entry, update_self, unpin_has, if_pos (h.has hp)]
  dsimp only
  split
  next hlast =>
    have hstate : (s.entry p).state = .invalid := by
      rcases hlast.2 with hstate | hpending
      . exact hstate
      . exact hok.pending hpending
    exact .single rfl (.putLast c p hp hheld (by omega) hstate)
  next hlast =>
    refine .single rfl (.unpin c p hp hheld ?_)
    intro hone hstate
    exact hlast ⟨by omega, .inl hstate⟩

theorem recordHit_moves (hp : p ∈ (s.cache c).lru) (ioLen fileSize fileId : UInt64)
    : Moves Plain s (s.recordHit c p ioLen fileSize fileId) := by
  unfold recordHit
  dsimp only
  refine .single rfl (.stat c p _ _ hp ?_ ?_)
  . exact ⟨rfl, rfl, rfl, rfl, rfl, rfl, rfl, rfl, rfl, rfl⟩
  . exact Cache.countHit_shifted hp rfl rfl

theorem recordIo_moves (h : Ok s) (c : Nat) (key : Key) (ioLen fileSize fileId : UInt64)
    : Moves Plain s (s.recordIo c key ioLen fileSize fileId) := by
  have hsee : Moves Plain s (s.modCache c fun x => x.seeFileSize fileSize) :=
    .single rfl (.tune c _ (Cache.seeFileSize_same _ _))
  have h' := h.moves hsee
  unfold recordIo
  dsimp only
  split
  next p hlookup =>
    exact hsee.trans (recordHit_moves (h'.mem_of_lookup hlookup) ioLen fileSize fileId)
  next => exact hsee.tail .plain rfl (.tune c _ (Cache.recordOscillate_same _ _ _ _ _))

def Replaces (s : State) (c : Nat) (a : Promotion) (p : Ptr) (s₁ : State) : Tag → Prop
  | .plain => True
  | .drop q => q = p
  | .insert q => q = p
  | .reuse q => (s.cache c).index.lookup a.key = some q ∧ (s.entry q).pinCount = 0
  | .discard q =>
    (s.cache c).index.lookup a.key = some q ∧ (s.entry q).pinCount = 0 ∧ s₁.entry q = s.entry q
  | _ => False

def Promotes (s : State) (c : Nat) (a : Promotion) (s₁ : State) (tag : Tag) : Prop :=
  tag = .alloc s.next ∨ Replaces s c a s.next s₁ tag

structure Promoted (s s' : State) (c : Nat) (a : Promotion) : Prop where
  stamps : s'.history.stamps = s.history.stamps + 1
  newest : s'.history.newest a.key = s'.history.stamps
  stored : ∃ p, (s'.cache c).index.lookup a.key = some p ∧ (s'.entry p).stamp = s'.history.stamps
    ∧ (s'.entry p).isDirty = a.isDirty

def Inserts (p : Ptr) (_ : State) (tag : Tag) : Prop :=
  tag = .plain ∨ tag = .drop p ∨ tag = .insert p

theorem newEntry_filled (x : Cache) (a : Promotion) (buffer stamp : Nat)
    : (newEntry x a buffer stamp).Filled a buffer := by
  refine ⟨rfl, rfl, rfl, ?_, rfl, rfl, rfl⟩
  intro hbuffer
  unfold newEntry at hbuffer ⊢
  dsimp only at hbuffer ⊢
  split
  next hinline => simp [hinline] at hbuffer
  next => rfl

theorem resume_filled {buffer : Ptr} (h : e.Filled a buffer)
    (osc : Option Oscillate) : (e.resume osc).Filled a buffer := by
  cases osc with
  | none => exact h
  | some => exact ⟨h.key, h.data, h.buffer, h.crc32, h.state, h.pinCount, h.pendingReclaim⟩

@[simp]
theorem resume_isDirty (e : Entry) (osc : Option Oscillate)
    : (e.resume osc).isDirty = e.isDirty := by
  cases osc <;> rfl

@[simp]
theorem resume_stamp (e : Entry) (osc : Option Oscillate) : (e.resume osc).stamp = e.stamp := by
  cases osc <;> rfl

theorem promoted_link (s : State) (c : Nat) (p : Ptr) (a : Promotion) (buffer : Ptr)
    (hkey : e.key = a.key) (hdirty : e.isDirty = a.isDirty)
    (hstamp : e.stamp = s.history.stamps + 1)
    : Promoted s ((((s.takeData a buffer).stampData a).modEntry p fun _ => e).link c p
        Cache.fcLruPushBack) c a := by
  refine ⟨rfl, ?_, p, ?_, ?_, ?_⟩
  . exact update_self ..
  . have hcache : (((((s.takeData a buffer).stampData a).modEntry p fun _ => e).link c p
        Cache.fcLruPushBack).cache c) = _ := update_self ..
    rw [hcache, modEntry_entry, update_self]
    show AList.lookup a.key (AList.insert e.key p (s.cache c).index) = some p
    rw [hkey, AList.lookup_insert]
  . show (update s.entry p e p).stamp = s.history.stamps + 1
    rw [update_self, hstamp]
  . show (update s.entry p e p).isDirty = a.isDirty
    rw [update_self, hdirty]

theorem promoteInsert_moves (h : Ok s) (a : Promotion) (buffer : Ptr) (hp : p ∈ s.loose)
    (hempty : (s.entry p).buffer = none) (hbuffer : buffer < s.next)
    (hfresh : .data buffer ∉ s.history.owned) (hnew : (s.cache c).index.lookup a.key = none)
    : Moves (Inserts p) s (s.promoteInsert c p a buffer).1
      ∧ (s.promoteInsert c p a buffer).1.loose = s.loose.erase p
      ∧ ((s.promoteInsert c p a buffer).2 = 0
        → Promoted s (s.promoteInsert c p a buffer).1 c a) := by
  unfold promoteInsert
  dsimp only
  split
  . refine ⟨.single (.inr (.inl rfl)) (.dropEntry p hp hempty), rfl, ?_⟩
    intro hzero
    cases hzero
  obtain ⟨hmoves, hfewer⟩ := fcTryEvictForSpace_evicts h c a.dataLen 8
  generalize s.fcTryEvictForSpace c a.dataLen 8 = s₁ at hmoves hfewer ⊢
  have hmoves : Moves (Inserts p) s s₁ := hmoves.mono fun _ _ => .inl
  have hp' : p ∈ s₁.loose := by rwa [hfewer.loose]
  have hempty' : (s₁.entry p).buffer = none := by rwa [hfewer.entry]
  obtain ⟨frees, hfrees⟩ := hfewer.history
  split
  . refine ⟨hmoves.tail (.drop p) (.inr (.inl rfl)) (.dropEntry p hp' hempty'), ?_, ?_⟩
    . show s₁.loose.erase p = _
      rw [hfewer.loose]
    . intro hzero
      cases hzero
  have hfilled := resume_filled (newEntry_filled (s₁.cache c) a buffer
    ((s₁.takeData a buffer).stampData a).history.stamps) ((s₁.cache c).oscillateTree.lookup a.key)
  have hdirty := resume_isDirty (newEntry (s₁.cache c) a buffer
    ((s₁.takeData a buffer).stampData a).history.stamps) ((s₁.cache c).oscillateTree.lookup a.key)
  have hstamp := resume_stamp (newEntry (s₁.cache c) a buffer
    ((s₁.takeData a buffer).stampData a).history.stamps) ((s₁.cache c).oscillateTree.lookup a.key)
  refine ⟨hmoves.tail (.insert p) (.inr (.inr rfl))
    (.insert c p a buffer _ hp' hempty' ?_ ?_ hfilled
    hdirty hstamp (hfewer.lookup c _ hnew)), ?_, ?_⟩
  . rw [hfewer.next]
    exact hbuffer
  . rw [hfrees]
    exact hfresh
  . show s₁.loose.erase p = _
    rw [hfewer.loose]
  . intro _
    have hpromoted := promoted_link s₁ c p a buffer hfilled.key hdirty hstamp
    refine ⟨?_, hpromoted.newest, hpromoted.stored⟩
    rw [hpromoted.stamps, hfrees]

theorem promoted_reuse (a : Promotion) (buffer : Ptr)
    (hlookup : (s.cache c).index.lookup a.key = some p)
    : Promoted s (s.promoteReuse c p a buffer) c a := by
  have hcache : (s.promoteReuse c p a buffer).cache c = _ := update_self ..
  have hentry : (s.promoteReuse c p a buffer).entry p = _ := update_self ..
  refine ⟨rfl, update_self .., p, ?_, ?_, ?_⟩
  . rw [hcache, ← hlookup]
    show AList.lookup a.key (Cache.fcLruMoveToBack _ p).index = _
    rw [Cache.fcLruMoveToBack_index]
    rfl
  . rw [hentry]
    rfl
  . rw [hentry]
    rfl

theorem promoteDiscard_lookup (hp : (s.entry p).key = key)
    : ((s.promoteDiscard c p).cache c).index.lookup key = none := by
  have hcache : (s.promoteDiscard c p).cache c = _ := update_self ..
  rw [hcache, ← hp]
  apply AList.lookup_erase

theorem promoteDiscard_loose (s : State) (c : Nat) (p : Ptr)
    : (s.promoteDiscard c p).loose = s.loose :=
  List.erase_cons_head ..

theorem replaces_of_inserts (h : Inserts p s₁ tag)
    : Replaces s c a p s₁ tag := by
  rcases h with rfl | rfl | rfl
  . trivial
  . rfl
  . rfl

theorem promoteAllocated_moves (h : Ok s) (c : Nat) (a : Promotion) (buffer : Ptr)
    (hp : p ∈ s.loose) (hempty : (s.entry p).buffer = none) (hbuffer : buffer < s.next)
    (hfresh : .data buffer ∉ s.history.owned)
    : Moves (Replaces s c a p) s (s.promoteAllocated c p a buffer).1
      ∧ (s.promoteAllocated c p a buffer).1.loose = s.loose.erase p
      ∧ ((s.promoteAllocated c p a buffer).2 = 0
        → Promoted s (s.promoteAllocated c p a buffer).1 c a) := by
  have hdrop : Moves (Replaces s c a p) s (s.dropEntry p) :=
    .tail .refl (.drop p) rfl (.dropEntry p hp hempty)
  unfold promoteAllocated
  split
  . refine ⟨hdrop, rfl, ?_⟩
    intro hzero
    cases hzero
  split
  next hlookup =>
    obtain ⟨hmoves, hloose, hpromoted⟩ :=
      promoteInsert_moves h a buffer hp hempty hbuffer hfresh hlookup
    exact ⟨hmoves.mono fun _ _ => replaces_of_inserts, hloose, hpromoted⟩
  next exist hlookup =>
    have hexist := h.mem_of_lookup hlookup
    have hne : p ≠ exist := by
      rintro rfl
      exact h.loose_apart p hp c hexist
    dsimp only
    split
    . refine ⟨hdrop, rfl, ?_⟩
      intro hzero
      dsimp only at hzero
      split at hzero <;> cases hzero
    next hpin =>
      have hpin : (s.entry exist).pinCount = 0 := Nat.eq_zero_of_not_pos hpin
      split
      . have hdiscard : Moves (Replaces s c a p) s (s.promoteDiscard c exist) :=
          .tail .refl (.discard exist) ⟨hlookup, hpin, rfl⟩ (.discard c exist hexist hpin)
        have hp' : p ∈ (s.promoteDiscard c exist).loose := by rwa [promoteDiscard_loose]
        obtain ⟨hmoves, hloose, hpromoted⟩ :=
          promoteInsert_moves (h.moves hdiscard) a buffer hp' hempty
          hbuffer hfresh (promoteDiscard_lookup (h.keyed c _ _ hlookup))
        refine ⟨hdiscard.trans (hmoves.mono fun _ _ => replaces_of_inserts), ?_, ?_⟩
        . rw [hloose, promoteDiscard_loose]
        . intro hzero
          obtain ⟨hstamps, hnewest, hstored⟩ := hpromoted hzero
          exact ⟨hstamps, hnewest, hstored⟩
      . have hreuse : Moves (Replaces s c a p) s (s.promoteReuse c exist a buffer) :=
          .tail .refl (.reuse exist) ⟨hlookup, hpin⟩
            (.reuse c exist a buffer hexist hpin (h.keyed c _ _ hlookup) hbuffer hfresh)
        have hempty' : ((s.promoteReuse c exist a buffer).entry p).buffer = none := by
          have hentry : (s.promoteReuse c exist a buffer).entry p = s.entry p :=
            update_of_ne hne _ _
          rwa [hentry]
        refine ⟨hreuse.tail (.drop p) rfl (.dropEntry p hp hempty'), rfl, ?_⟩
        intro _
        obtain ⟨hstamps, hnewest, hstored⟩ := promoted_reuse a buffer hlookup
        exact ⟨hstamps, hnewest, hstored⟩

theorem replaces_of_alloc (h : Ok s)
    (hallowed : Replaces (s.allocEntry.1.modCache c fun x => x.seeFileSize a.fileSize)
      c a s.next s₁ tag)
    : Replaces s c a s.next s₁ tag := by
  have hindex : ((s.allocEntry.1.modCache c fun x => x.seeFileSize a.fileSize).cache c).index
      = (s.cache c).index := by
    rw [modCache_cache, update_self]
    rfl
  have hentry : ∀ q, (s.cache c).index.lookup a.key = some q
      → (s.allocEntry.1.modCache c fun x => x.seeFileSize a.fileSize).entry q = s.entry q := by
    intro q hq
    exact update_of_ne (Nat.ne_of_lt (h.bound c q (h.mem_of_lookup hq))) _ _
  cases tag with
  | reuse q =>
    unfold Replaces at hallowed ⊢
    rw [hindex] at hallowed
    refine ⟨hallowed.1, ?_⟩
    rw [← hentry q hallowed.1]
    exact hallowed.2
  | discard q =>
    unfold Replaces at hallowed ⊢
    rw [hindex] at hallowed
    refine ⟨hallowed.1, ?_⟩
    rw [← hentry q hallowed.1]
    exact hallowed.2
  | _ => exact hallowed

theorem promoteLocked_moves (h : Ok s) (c : Nat) (a : Promotion) (buffer : Ptr)
    (hbuffer : buffer < s.next) (hfresh : .data buffer ∉ s.history.owned)
    : Moves (Promotes s c a) s (s.promoteLocked c a buffer).1
      ∧ (s.promoteLocked c a buffer).1.loose = s.loose
      ∧ ((s.promoteLocked c a buffer).2 = 0 → Promoted s (s.promoteLocked c a buffer).1 c a) := by
  unfold promoteLocked
  dsimp only
  split
  . refine ⟨.refl, rfl, ?_⟩
    intro hzero
    cases hzero
  split
  . refine ⟨.refl, rfl, ?_⟩
    intro hzero
    cases hzero
  have halloc : Moves (Promotes s c a) s
      (s.allocEntry.1.modCache c fun x => x.seeFileSize a.fileSize) :=
    .tail (.single (.inl rfl) .alloc) .plain (.inr trivial) (.tune c _ (Cache.seeFileSize_same _ _))
  have hempty : ((s.allocEntry.1.modCache c fun x => x.seeFileSize a.fileSize).entry s.next).buffer
      = none := by
    show (update s.entry s.next default s.next).buffer = none
    rw [update_self]
    rfl
  have hfresh' : .data buffer
      ∉ (s.allocEntry.1.modCache c fun x => x.seeFileSize a.fileSize).history.owned := by
    show .data buffer ∉ .entry s.next :: .key s.next :: s.history.owned
    simpa using hfresh
  obtain ⟨hmoves, hloose, hpromoted⟩ := promoteAllocated_moves (h.moves halloc) c a buffer
    List.mem_cons_self hempty (Nat.lt_succ_of_lt hbuffer) hfresh'
  refine ⟨halloc.trans (hmoves.mono ?_), ?_, ?_⟩
  . intro s₁ tag hallowed
    exact .inr (replaces_of_alloc h hallowed)
  . rw [show s.allocEntry.2 = s.next from rfl, hloose]
    exact List.erase_cons_head ..
  . intro hzero
    obtain ⟨hstamps, hnewest, hstored⟩ := hpromoted hzero
    exact ⟨hstamps, hnewest, hstored⟩

def Builds (p : Ptr) (_ : State) (tag : Tag) : Prop :=
  tag = .plain ∨ tag = .alloc p ∨ tag = .build p

theorem readaheadBuild_moves (h : Ok s) (a : Promotion) (buffer : Ptr) (hbuffer : buffer < s.next)
    (hfresh : .data buffer ∉ s.history.owned)
    (hbuild : s.readaheadBuild c a buffer = (s', found))
    : Moves (Builds s.next) s s'
      ∧ (found = none ∧ s'.loose = s.loose
        ∨ found = some s.next ∧ s'.loose = s.next :: s.loose ∧ (s'.entry s.next).idle) := by
  unfold readaheadBuild at hbuild
  dsimp only at hbuild
  split at hbuild
  . cases hbuild
    exact ⟨.refl, .inl ⟨rfl, rfl⟩⟩
  obtain ⟨hmoves, hfewer⟩ := fcTryEvictForSpace_evicts h c a.dataLen 8
  have hok := h.moves hmoves
  generalize s.fcTryEvictForSpace c a.dataLen 8 = s₁ at hmoves hfewer hok hbuild
  have hmoves : Moves (Builds s.next) s s₁ := hmoves.mono fun _ _ => .inl
  split at hbuild
  . cases hbuild
    exact ⟨hmoves, .inl ⟨rfl, hfewer.loose⟩⟩
  cases hbuild
  obtain ⟨frees, hfrees⟩ := hfewer.history
  have halloc : Moves (Builds s.next) s s₁.allocEntry.1 :=
    hmoves.tail (.alloc s₁.next) (.inr (.inl (hfewer.next ▸ rfl))) .alloc
  have hempty : (s₁.allocEntry.1.entry s₁.next).buffer = none := by
    show (update s₁.entry s₁.next default s₁.next).buffer = none
    rw [update_self]
    rfl
  have hfresh' : .data buffer ∉ s₁.allocEntry.1.history.owned := by
    show .data buffer ∉ .entry s₁.next :: .key s₁.next :: s₁.history.owned
    rw [hfrees]
    simpa using hfresh
  have hbuffer' : buffer < s₁.allocEntry.1.next := by
    show buffer < s₁.next + 1
    rw [hfewer.next]
    exact Nat.lt_succ_of_lt hbuffer
  have hfilled := newEntry_filled (s₁.cache c) a buffer 0
  constructor
  . refine halloc.tail (.build s₁.next) (.inr (.inr (hfewer.next ▸ rfl)))
      (.build s₁.next a buffer _ List.mem_cons_self hempty hbuffer' hfresh' ?_ rfl)
    exact ⟨rfl, rfl, rfl, hfilled.crc32, rfl, rfl, rfl⟩
  . refine .inr ⟨?_, ?_, ?_⟩
    . rw [← hfewer.next]
      rfl
    . show s₁.next :: s₁.loose = _
      rw [hfewer.next, hfewer.loose]
    . rw [← hfewer.next]
      simp [allocEntry, Entry.idle, newEntry]

end State

end FC
