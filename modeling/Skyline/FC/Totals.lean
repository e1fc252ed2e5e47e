import Skyline.FC.Lemmas.Advance

/-!
This module contains that the totals of a cache are the sums over its entries.
-/

namespace FC

open Function

abbrev Weight := UInt64 × UInt64 × UInt64 × UInt64 × UInt32

def Entry.weight (e : Entry) : Weight :=
  (e.dataLen, if e.isDirty then e.dataLen else 0, e.totalIoLen, e.accessFreq, 1)

def Cache.totals (x : Cache) : Weight :=
  (x.totalCacheBytes, x.dirtyCacheBytes, x.totalCacheIo, x.totalCacheFreq, x.totalEntries)

def Weighed (s : State) : Prop :=
  ∀ c, (s.cache c).totals = ((s.cache c).lru.map fun p => (s.entry p).weight).sum

theorem sum_map_erase_sub {ι M : Type} [DecidableEq ι] [AddCommGroup M] (f : ι → M) {a : ι}
    {l : List ι}
    (ha : a ∈ l) : ((l.erase a).map f).sum = (l.map f).sum - f a := by
  rw [← List.sum_map_erase f ha]
  abel

variable {e : Entry} {push : Cache → Ptr → Cache} {x y : Cache} {event : Event}

namespace Weighed

variable {s s' : State} {c : Nat} {p : Ptr}

theorem congr (h : Weighed s) (htotals : ∀ d, (s'.cache d).totals = (s.cache d).totals)
    (hlru : ∀ d, (s'.cache d).lru.Perm (s.cache d).lru)
    (hweight : ∀ d, ∀ q ∈ (s.cache d).lru, (s'.entry q).weight = (s.entry q).weight)
    : Weighed s' := by
  intro d
  rw [htotals, h d, ((hlru d).map _).sum_eq]
  congr 1
  apply List.map_congr_left
  intro q hq
  exact (hweight d q hq).symm

theorem others (h : Weighed s) (hok : Ok s) (hp : p ∈ (s.cache c).lru)
    (hother : ∀ d, d ≠ c → s'.cache d = s.cache d) (hentry : ∀ q, q ≠ p → s'.entry q = s.entry q)
    (hsum : ((s.cache c).lru.erase p).map (fun q => (s'.entry q).weight)
        = ((s.cache c).lru.erase p).map (fun q => (s.entry q).weight)
      → (s'.cache c).totals = ((s'.cache c).lru.map fun q => (s'.entry q).weight).sum)
    : Weighed s' := by
  intro d
  by_cases hd : d = c
  . subst hd
    apply hsum
    apply List.map_congr_left
    intro q hq
    rw [hentry q ((hok.nodup d).mem_erase_iff.mp hq).1]
  . rw [hother d hd, h d]
    congr 1
    apply List.map_congr_left
    intro q hq
    rw [hentry q]
    rintro rfl
    exact hd (hok.apart d c q hq hp)

theorem edit (h : Weighed s) (hok : Ok s) (hp : p ∈ (s.cache c).lru)
    (hother : ∀ d, d ≠ c → s'.cache d = s.cache d)
    (htotals : (s'.cache c).totals = (s.cache c).totals - (s.entry p).weight + (s'.entry p).weight)
    (hlru : (s'.cache c).lru.Perm (s.cache c).lru) (hentry : ∀ q, q ≠ p → s'.entry q = s.entry q)
    : Weighed s' := by
  refine h.others hok hp hother hentry fun hrest => ?_
  rw [htotals, h c, (hlru.map _).sum_eq, ← List.sum_map_erase _ hp,
    ← List.sum_map_erase _ hp, hrest]
  abel

theorem remove (h : Weighed s) (hok : Ok s) (hp : p ∈ (s.cache c).lru)
    (hother : ∀ d, d ≠ c → s'.cache d = s.cache d)
    (htotals : (s'.cache c).totals = (s.cache c).totals - (s.entry p).weight)
    (hlru : (s'.cache c).lru = (s.cache c).lru.erase p)
    (hentry : ∀ q, q ≠ p → s'.entry q = s.entry q)
    : Weighed s' := by
  refine h.others hok hp hother hentry fun hrest => ?_
  rw [htotals, h c, hlru, hrest, sum_map_erase_sub _ hp]

theorem insert (h : Weighed s) (hp : ∀ d, p ∉ (s.cache d).lru)
    (hother : ∀ d, d ≠ c → s'.cache d = s.cache d)
    (htotals : (s'.cache c).totals = (s.cache c).totals + (s'.entry p).weight)
    (hlru : (s'.cache c).lru.Perm (p :: (s.cache c).lru))
    (hentry : ∀ q, q ≠ p → s'.entry q = s.entry q)
    : Weighed s' := by
  have hsame : ∀ d, (s.cache d).lru.map (fun q => (s'.entry q).weight)
      = (s.cache d).lru.map fun q => (s.entry q).weight := by
    intro d
    apply List.map_congr_left
    intro q hq
    rw [hentry q]
    rintro rfl
    exact hp d hq
  intro d
  by_cases hd : d = c
  . subst hd
    rw [htotals, h d, (hlru.map _).sum_eq, List.map_cons, List.sum_cons, hsame, add_comm]
  . rw [hother d hd, h d, hsame]

theorem modEntry (h : Weighed s) (hcache : s'.cache = s.cache)
    (hentry : s'.entry = update s.entry p e)
    (hweight : (∃ c, p ∈ (s.cache c).lru) → e.weight = (s.entry p).weight) : Weighed s' := by
  refine h.congr ?_ ?_ ?_
  . intro d
    rw [hcache]
  . intro d
    rw [hcache]
  . intro d q hq
    rw [hentry]
    by_cases hqp : q = p
    . subst hqp
      rw [update_self]
      exact hweight ⟨d, hq⟩
    . rw [update_of_ne hqp]

theorem of_eq (h : Weighed s) (hcache : s'.cache = s.cache) (hentry : s'.entry = s.entry)
    : Weighed s' := by
  intro d
  rw [hcache, hentry]
  exact h d

end Weighed

namespace Cache

theorem unlink_totals (x : Cache) (p : Ptr) (e : Entry) {dirty : Bool}
    (hdirty : dirty = true ∨ e.isDirty = false)
    : (x.unlink p e dirty).totals = x.totals - e.weight := by
  have hbytes : (if dirty && e.isDirty then x.dirtyCacheBytes - e.dataLen else x.dirtyCacheBytes)
      = x.dirtyCacheBytes - if e.isDirty then e.dataLen else 0 := by
    rcases hdirty with rfl | hclean
    . cases e.isDirty <;> simp
    . simp [hclean]
  show (x.totalCacheBytes - e.dataLen,
    if dirty && e.isDirty then x.dirtyCacheBytes - e.dataLen else x.dirtyCacheBytes,
    x.totalCacheIo - e.totalIoLen, x.totalCacheFreq - e.accessFreq, x.totalEntries - 1) = _
  rw [hbytes]
  rfl

theorem link_totals (x : Cache) (p : Ptr) (e : Entry)
    (hpush : push = Cache.fcLruPushBack ∨ push = Cache.fcLruPushFront)
    : (push (x.link p e) p).totals = x.totals + e.weight := by
  have hbytes : (if e.isDirty then x.dirtyCacheBytes + e.dataLen else x.dirtyCacheBytes)
      = x.dirtyCacheBytes + if e.isDirty then e.dataLen else 0 := by
    cases e.isDirty <;> simp
  have hlink : (x.link p e).totals = x.totals + e.weight := by
    show (x.totalCacheBytes + e.dataLen,
      if e.isDirty then x.dirtyCacheBytes + e.dataLen else x.dirtyCacheBytes,
      x.totalCacheIo + e.totalIoLen, x.totalCacheFreq + e.accessFreq, x.totalEntries + 1) = _
    rw [hbytes]
    rfl
  rcases hpush with rfl | rfl
  . exact hlink
  . exact hlink

theorem Same.totals (h : x.Same y) : y.totals = x.totals := by
  unfold Cache.totals
  rw [h.bytes, h.dirty, h.io, h.freq, h.entries]

theorem Shifted.totals {e' : Entry} (h : x.Shifted y e e') (hstat : e.Stat e')
    : y.totals = x.totals - e.weight + e'.weight := by
  have hlen : e'.dataLen = e.dataLen := by
    unfold Entry.dataLen
    rw [hstat.data]
  unfold Cache.totals Entry.weight
  rw [h.bytes, h.dirty, h.io, h.freq, h.entries, hlen, hstat.isDirty]
  simp only [Prod.mk_sub_mk, Prod.mk_add_mk, sub_add_cancel]

end Cache

section Moves

variable {s s' : State} {tag : Tag} {c : Nat} {p : Ptr}

theorem Weighed.tune (h : Weighed s)
    (hcache : s'.cache = update s.cache c x) (hsame : (s.cache c).Same x)
    (hentry : s'.entry = s.entry) : Weighed s' := by
  refine h.congr ?_ ?_ ?_
  . intro d
    rw [hcache]
    by_cases hd : d = c
    . rw [hd, update_self, hsame.totals]
    . rw [update_of_ne hd]
  . intro d
    rw [hcache]
    by_cases hd : d = c
    . rw [hd, update_self]
      exact hsame.lru
    . rw [update_of_ne hd]
  . intro d q _
    rw [hentry]

theorem Weighed.unlink (h : Weighed s) (hok : Ok s) (hp : p ∈ (s.cache c).lru) (s₁ : State)
    (dirty : Bool) (hcache : s₁.cache = s.cache) (hentry : ∀ q, q ≠ p → s₁.entry q = s.entry q)
    (hweight : (s₁.entry p).weight = (s.entry p).weight)
    (hdirty : dirty = true ∨ (s₁.entry p).isDirty = false) : Weighed (s₁.unlink c p dirty) := by
  have hself : (s₁.unlink c p dirty).cache c = (s₁.cache c).unlink p (s₁.entry p) dirty :=
    update_self ..
  refine h.remove hok hp ?_ ?_ ?_ hentry
  . intro d hd
    rw [← hcache]
    exact update_of_ne hd _ _
  . rw [hself, Cache.unlink_totals _ _ _ hdirty, hweight, hcache]
  . rw [hself, hcache]
    rfl

theorem Weighed.link (h : Weighed s) (hp : ∀ d, p ∉ (s.cache d).lru) (s₁ : State)
    (hpush : push = Cache.fcLruPushBack ∨ push = Cache.fcLruPushFront)
    (hcache : s₁.cache = s.cache) (hentry : ∀ q, q ≠ p → s₁.entry q = s.entry q)
    : Weighed (s₁.link c p push) := by
  have hself : (s₁.link c p push).cache c = push ((s₁.cache c).link p (s₁.entry p)) p :=
    update_self ..
  refine h.insert (c := c) hp ?_ ?_ ?_ hentry
  . intro d hd
    rw [← hcache]
    exact update_of_ne hd _ _
  . rw [hself, Cache.link_totals _ _ _ hpush, hcache]
    rfl
  . rw [hself, hcache]
    rcases hpush with rfl | rfl
    . exact List.perm_append_comm
    . exact .refl _

theorem Weighed.settle (h : Weighed s) (hok : Ok s) (hp : p ∈ (s.cache c).lru)
    : Weighed (State.flushEnd c s p) := by
  have hlru := State.flushEnd_lru s c p c
  have htotals : ((State.flushEnd c s p).cache c).totals
      = ((s.cache c).totalCacheBytes,
        if (s.entry p).writebackRetries = 0 ∧ (s.entry p).isDirty
        then (s.cache c).dirtyCacheBytes - (s.entry p).dataLen else (s.cache c).dirtyCacheBytes,
        (s.cache c).totalCacheIo, (s.cache c).totalCacheFreq, (s.cache c).totalEntries) := by
    unfold State.flushEnd
    rw [State.modCache_cache, update_self]
    rfl
  have hweight : ((State.flushEnd c s p).entry p).weight
      = ((s.entry p).dataLen,
        if (if (s.entry p).writebackRetries = 0 then false else (s.entry p).isDirty)
        then (s.entry p).dataLen else 0,
        (s.entry p).totalIoLen, (s.entry p).accessFreq, 1) := by
    simp [State.flushEnd, State.flushUnpin, Entry.weight, Entry.dataLen]
  refine h.edit hok hp (fun _ hd => update_of_ne hd _ _) ?_ (hlru ▸ .refl _)
    fun q hq => State.flushEnd_entry s c hq
  rw [htotals, hweight]
  unfold Cache.totals Entry.weight
  simp only [Prod.mk_sub_mk, Prod.mk_add_mk, sub_add_cancel, Prod.mk.injEq, true_and, and_true]
  by_cases hretries : (s.entry p).writebackRetries = 0
  . cases (s.entry p).isDirty <;> simp [hretries]
  . simp [hretries]

theorem Move.weighed (hok : Ok s) (h : Weighed s) (hmove : Move s tag s')
    (hreuse : ∀ p, tag ≠ .reuse p)
    (hdiscard : ∀ p, tag ≠ .discard p) : Weighed s' := by
  cases hmove with
  | tune _ _ hsame => exact h.tune rfl hsame rfl
  | stat c p f g hp hf hg =>
    have hself : ((s.modEntry p f).modCache c g).cache c = g (s.cache c) := update_self ..
    have hentry : ((s.modEntry p f).modCache c g).entry p = f (s.entry p) := update_self ..
    refine h.edit hok hp (fun _ hd => update_of_ne hd _ _) ?_ ?_
      fun _ hq => update_of_ne hq _ _
    . rw [hself, hentry]
      exact hg.totals hf
    . rw [hself]
      exact hg.lru
  | pin => exact h.modEntry rfl rfl fun _ => rfl
  | unpin => exact h.modEntry rfl rfl fun _ => rfl
  | putLast _ p hp =>
    have hunlink := h.unlink hok hp (s.unpin p) true rfl
      (fun _ hq => update_of_ne hq _ _) (by rw [Ok.unpin_entry, update_self]; rfl) (.inl rfl)
    exact hunlink.of_eq rfl rfl
  | refuse => exact h.modEntry rfl rfl fun _ => rfl
  | invalidate => exact h.modEntry rfl rfl fun _ => rfl
  | flushPin => exact h.modEntry rfl rfl fun _ => rfl
  | wrote => exact h.of_eq rfl rfl
  | retry => exact h.modEntry rfl rfl fun _ => rfl
  | settle _ _ hp => exact h.settle hok hp
  | fail _ p =>
    have hunpin : Weighed (s.flushUnpin p) := h.modEntry rfl rfl fun _ => rfl
    exact hunpin.modEntry rfl rfl fun _ => rfl
  | writtenOut _ p hp =>
    have hunlink := h.unlink hok hp (s.flushUnpin p) true rfl
      (fun _ hq => update_of_ne hq _ _) (by simp [State.flushUnpin, Entry.weight, Entry.dataLen])
      (.inl rfl)
    exact hunlink.of_eq rfl rfl
  | remove _ _ dirty hp _ hclean =>
    exact (h.unlink hok hp s dirty rfl (fun _ _ => rfl) rfl (.inr hclean)).of_eq rfl rfl
  | overrule _ _ hp =>
    exact (h.unlink hok hp s true rfl (fun _ _ => rfl) rfl (.inl rfl)).of_eq rfl rfl
  | raw _ _ hp =>
    exact (h.unlink hok hp s true rfl (fun _ _ => rfl) rfl (.inl rfl)).of_eq rfl rfl
  | detach _ _ hp hidle =>
    exact h.unlink hok hp s false rfl (fun _ _ => rfl) rfl (.inr (Entry.idle_iff.mp hidle).2.2)
  | attach _ p _ hp hpush => exact h.link (hok.loose_apart p hp) s hpush rfl fun _ _ => rfl
  | alloc =>
    refine h.modEntry (p := s.next) rfl rfl ?_
    rintro ⟨c, hc⟩
    exact absurd (hok.bound c _ hc) (Nat.lt_irrefl _)
  | dropEntry => exact h.of_eq rfl rfl
  | build p _ _ _ hp =>
    refine h.modEntry (p := p) rfl rfl ?_
    rintro ⟨c, hc⟩
    exact absurd hc (hok.loose_apart p hp c)
  | insert _ p a buffer e hp =>
    exact h.link (hok.loose_apart p hp) (((s.takeData a buffer).stampData a).modEntry p fun _ => e)
      (.inl rfl) rfl fun _ hq => update_of_ne hq _ _
  | reuse _ p => exact absurd rfl (hreuse p)
  | discard _ p => exact absurd rfl (hdiscard p)
  | store _ _ _ hlength =>
    refine h.modEntry rfl rfl fun _ => ?_
    simp [Entry.weight, Entry.dataLen, hlength]
  | note => exact h.of_eq rfl rfl
  | fresh => exact h.of_eq rfl rfl
  | returned => exact h.of_eq rfl rfl

end Moves

/--
No promotion finds an entry for its key that nobody has a reference to.
-/
def NewOrBusy (s : State) : Event → Prop
  | .promote _ c a =>
    match (s.cache c).index.lookup a.key with
    | some p => 0 < (s.entry p).pinCount
    | none => True
  | _ => True

instance (s : State) (event : Event) : Decidable (NewOrBusy s event) := by
  unfold NewOrBusy
  split
  . split <;> infer_instance
  . infer_instance

theorem Allows.pinned_of_replaces {s s₁ : State} {tag : Tag} {p : Ptr}
    (hallowed : Allows s event s₁ tag) (htag : tag = .reuse p ∨ tag = .discard p)
    : ¬NewOrBusy s event := by
  have hpromote : ∀ (t c : Nat) (a : State.Promotion), (s.cache c).index.lookup a.key = some p
      → (s.entry p).pinCount = 0 → ¬NewOrBusy s (.promote t c a) := by
    intro t c a hlookup hpin hnew
    simp only [NewOrBusy, hlookup] at hnew
    exact absurd hpin (Nat.ne_of_gt hnew)
  cases hallowed with
  | promote hpromotes =>
    rcases hpromotes with rfl | hreplaces
    . rcases htag with htag | htag <;> cases htag
    . rcases htag with rfl | rfl
      . exact hpromote _ _ _ hreplaces.1 hreplaces.2
      . exact hpromote _ _ _ hreplaces.1 hreplaces.2.1
  | build hbuilds =>
    rcases hbuilds with rfl | rfl | rfl <;> rcases htag with htag | htag <;> cases htag
  | visit _ hvisits => rcases htag with rfl | rfl <;> exact absurd hvisits id
  | written _ hwrites => rcases htag with rfl | rfl <;> exact absurd hwrites id
  | drop _ hdrops => rcases htag with rfl | rfl <;> exact absurd hdrops id
  | settle _ hsettles =>
    obtain ⟨q, _, rfl, _⟩ := hsettles
    rcases htag with htag | htag <;> cases htag
  | migrate hmigrates =>
    rcases hmigrates with rfl | ⟨q, _, rfl | rfl, _⟩ <;> rcases htag with htag | htag <;> cases htag
  | _ => rcases htag with htag | htag <;> cases htag

theorem Weighed.step {s : State} (h : Weighed s) (hinv : Inv s) (hfits : Fits s event)
    (hnew : NewOrBusy s event) : Weighed (s.step event) := by
  obtain ⟨s₁, t, task, hmoves, heq, _⟩ := hinv.advances hfits
  have hmoved : Weighed s₁ := by
    clear heq
    induction hmoves with
    | refl => exact h
    | tail hmoves _ hallowed hmove ih =>
      apply hmove.weighed (hinv.ok.moves hmoves) ih
      . intro p htag
        exact hallowed.pinned_of_replaces (.inl htag) hnew
      . intro p htag
        exact hallowed.pinned_of_replaces (.inr htag) hnew
  rw [heq]
  exact hmoved.of_eq rfl rfl

def Cache.indexed (x : Cache) : List Ptr := x.index.entries.map Sigma.snd

structure Balanced (s : State) (x : Cache) : Prop where
  bytes : x.totalCacheBytes = (x.indexed.map fun p => (s.entry p).dataLen).sum
  dirty : x.dirtyCacheBytes
    = (x.indexed.map fun p => if (s.entry p).isDirty then (s.entry p).dataLen else 0).sum
  io : x.totalCacheIo = (x.indexed.map fun p => (s.entry p).totalIoLen).sum
  freq : x.totalCacheFreq = (x.indexed.map fun p => (s.entry p).accessFreq).sum
  entries : x.totalEntries = UInt32.ofNat x.indexed.length
  nodup : x.lru.Nodup
  listed : ∀ p, p ∈ x.lru ↔ p ∈ x.indexed

theorem sum_weight (s : State) (l : List Ptr)
    : (l.map fun p => (s.entry p).weight).sum
      = ((l.map fun p => (s.entry p).dataLen).sum,
        (l.map fun p => if (s.entry p).isDirty then (s.entry p).dataLen else 0).sum,
        (l.map fun p => (s.entry p).totalIoLen).sum, (l.map fun p => (s.entry p).accessFreq).sum,
        UInt32.ofNat l.length) := by
  induction l with
  | nil => rfl
  | cons _ l ih =>
    simp only [List.map_cons, List.sum_cons, List.length_cons,
      Nat.add_comm l.length 1, UInt32.ofNat_add]
    rw [ih]
    rfl

theorem Ok.mem_indexed {s : State} (h : Ok s) {c : Nat} {p : Ptr}
    : p ∈ (s.cache c).lru ↔ p ∈ (s.cache c).indexed := by
  rw [h.listed]
  constructor
  . intro hlookup
    exact List.mem_map.mpr ⟨_, AList.mem_lookup_iff.mp hlookup, rfl⟩
  . intro hp
    obtain ⟨⟨k, q⟩, hk, rfl⟩ := List.mem_map.mp hp
    have hlookup : (s.cache c).index.lookup k = some q := AList.mem_lookup_iff.mpr hk
    rw [h.keyed c k q hlookup]
    exact hlookup

theorem Ok.indexed_nodup {s : State} (h : Ok s) (c : Nat) : (s.cache c).indexed.Nodup := by
  have hkeys : ((s.cache c).index.entries.map Sigma.fst).Nodup := (s.cache c).index.nodupKeys
  refine List.Nodup.map_on ?_ (List.Nodup.of_map _ hkeys)
  rintro ⟨k, p⟩ hk ⟨k', q⟩ hk' hpq
  dsimp only at hpq
  subst hpq
  have hkey := h.keyed c k p (AList.mem_lookup_iff.mpr hk)
  have hkey' := h.keyed c k' p (AList.mem_lookup_iff.mpr hk')
  rw [← hkey, ← hkey']

theorem Weighed.balanced {s : State} (h : Weighed s) (hok : Ok s) (c : Nat)
    : Balanced s (s.cache c) := by
  have hperm : (s.cache c).lru.Perm (s.cache c).indexed := by
    rw [List.perm_ext_iff_of_nodup (hok.nodup c) (hok.indexed_nodup c)]
    exact fun p => hok.mem_indexed
  have htotals := h c
  rw [(hperm.map _).sum_eq, sum_weight] at htotals
  simp only [Cache.totals, Prod.mk.injEq] at htotals
  obtain ⟨hbytes, hdirty, hio, hfreq, hentries⟩ := htotals
  exact ⟨hbytes, hdirty, hio, hfreq, hentries, hok.nodup c, fun p => hok.mem_indexed⟩

/--
In every run whose steps meet the conditions, the totals of each cache are the sums over its index
and its list has the entries of the index, each once.
-/
theorem totals_balanced (ncpu : Nat) (s : State)
    (h : Reachable (fun s event => Fits s event ∧ NewOrBusy s event) ncpu s) (c : Nat)
    : Balanced s (s.cache c) := by
  obtain ⟨hinv, hweighed⟩ := h.invariant Weighed (fun _ _ hok => hok.1) (fun _ => rfl)
    fun s event hinv hs hok => hs.step hinv hok.1 hok.2
  exact hweighed.balanced hinv.ok c

/--
A byte has room in the entry, which `kmalloc` takes from the class of 256 bytes.
-/
def oneByte (key data : UInt8) (isDirty : Bool) : State.Promotion :=
  ⟨[key], [data], isDirty, 1, 1, 256⟩

def promoteAndGet : List Event :=
  [.promote 0 0 (oneByte 1 5 false), .get 0 1 [1] 1, .getRemote 0, .getInsert 0]

theorem totals_balanced_migrated
    : ∃ s, Reachable (fun s event => Fits s event ∧ NewOrBusy s event) 2 s
        ∧ (s.cache 1).totalEntries = 1 ∧ Balanced s (s.cache 1) := by
  obtain ⟨s, hreach, hentries⟩ :=
    Steps.Reach.exists_of_run (fun s event => some (State.step s event))
    (fun s event => Fits s event ∧ NewOrBusy s event) (boot 2) promoteAndGet
    (fun s => (s.cache 1).totalEntries = 1) (by decide +kernel)
  exact ⟨s, hreach, hentries, totals_balanced 2 s hreach 1⟩

theorem entries_owned (ncpu : Nat) (s : State) (h : Reachable Fits ncpu s) : Ok s ∧ TasksOk s := by
  obtain ⟨hinv, -⟩ := h.invariant (fun _ => True) (fun _ _ => id) trivial fun _ _ _ _ _ => trivial
  exact ⟨hinv.ok, hinv.tasks⟩

def promoteDirty : List Event :=
  [.promote 0 0 (oneByte 2 6 true), .broadcast 0, .broadcast 0, .broadcast 0]

/--
After a migration one thread flushes an entry and another one has taken an entry from its cache.
-/
theorem entries_owned_migrating
    : ∃ s, Reachable Fits 2 s
        ∧ (((s.task 1).flushes ≠ [] ∧ (s.task 2).owns.isSome = true) ∧ Ok s ∧ TasksOk s) := by
  obtain ⟨s, hreach, hbusy⟩ := Steps.Reach.exists_of_run (fun s event => some (State.step s event))
    Fits (boot 2)
    (promoteAndGet ++ promoteDirty
      ++ [.idleCollect 1 0 8 1000, .put 1 1, .get 2 0 [1] 1, .getRemote 2])
    (fun s => (s.task 1).flushes ≠ [] ∧ (s.task 2).owns.isSome = true) (by decide +kernel)
  exact ⟨s, hreach, hbusy, entries_owned 2 s hreach⟩

/--
The second promotion of a key raises the frequency of the entry, but not the total.
-/
theorem totals_unbalanced_after_reuse
    : ∃ s, Reachable (fun _ _ => True) 1 s ∧ ¬Balanced s (s.cache 0) := by
  obtain ⟨s, hreach, hfreq⟩ := Steps.Reach.exists_of_run (fun s event => some (State.step s event))
    (fun _ _ => True) (boot 1) [.promote 0 0 (oneByte 1 5 false), .promote 0 0 (oneByte 1 6 false)]
    (fun s => (s.cache 0).totalCacheFreq
      ≠ ((s.cache 0).indexed.map fun p => (s.entry p).accessFreq).sum) (by decide +kernel)
  exact ⟨s, hreach, fun hbalanced => hfreq hbalanced.freq⟩

end FC
