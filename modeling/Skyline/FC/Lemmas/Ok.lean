import Skyline.FC.Impl

/-!
This module contains the invariant of the indices, the lists and the entries.
-/

namespace FC

open Function

namespace State

section Fields

variable (s : State) (c p : Nat)

@[simp]
theorem modCache_cache (g : Cache → Cache)
    : (s.modCache c g).cache = update s.cache c (g (s.cache c)) := rfl

@[simp]
theorem modCache_entry (g : Cache → Cache) : (s.modCache c g).entry = s.entry := rfl

@[simp]
theorem modEntry_entry (f : Entry → Entry)
    : (s.modEntry p f).entry = update s.entry p (f (s.entry p)) := rfl

@[simp]
theorem modEntry_cache (f : Entry → Entry) : (s.modEntry p f).cache = s.cache := rfl

end Fields

end State

structure EntryOk (e : Entry) (h f : Nat) : Prop where
  pins : e.pinCount = h + f
  flush : f ≠ 0 → f = 1 ∧ h = 0 ∧ e.state ≠ .cached ∧ e.isDirty
  sound : e.isDirty → h = 0
    → (e.buffer.isSome → e.crc32 = fcCrc32Partial e.data) ∧ e.pendingReclaim = false
  pending : e.pendingReclaim → e.state = .invalid
  settled : e.pinCount = 0 → e.state = .invalid → e.pendingReclaim

structure Ok (s : State) : Prop where
  keyed : ∀ c k p, (s.cache c).index.lookup k = some p → (s.entry p).key = k
  listed : ∀ c p, p ∈ (s.cache c).lru ↔ (s.cache c).index.lookup (s.entry p).key = some p
  nodup : ∀ c, (s.cache c).lru.Nodup
  apart : ∀ c d p, p ∈ (s.cache c).lru → p ∈ (s.cache d).lru → c = d
  bound : ∀ c, ∀ p ∈ (s.cache c).lru, p < s.next
  loose_nodup : s.loose.Nodup
  loose_apart : ∀ p ∈ s.loose, ∀ c, p ∉ (s.cache c).lru
  loose_bound : ∀ p ∈ s.loose, p < s.next
  loose_ok : ∀ p ∈ s.loose, EntryOk (s.entry p) 0 0
  entries : ∀ c, ∀ p ∈ (s.cache c).lru, EntryOk (s.entry p) (s.held.count p) (s.flushed.count p)
  refs : ∀ p, p ∈ s.held ∨ p ∈ s.flushed → ∃ c, p ∈ (s.cache c).lru

namespace Ok

variable {s : State} {c : Nat} {p : Ptr}

section

variable (h : Ok s)
include h

theorem has (hp : p ∈ (s.cache c).lru) : s.has c p = true := by
  unfold State.has Cache.has
  rw [(h.listed c p).mp hp]
  rfl

theorem mem_of_lookup {k : Key} (hk : (s.cache c).index.lookup k = some p)
    : p ∈ (s.cache c).lru := by
  rw [h.listed, h.keyed c k p hk]
  exact hk

theorem edit {s' : State} {c : Nat} {p : Ptr} (hp : p ∈ (s.cache c).lru)
    (hcaches : ∀ d, d ≠ c → s'.cache d = s.cache d)
    (hindex : (s'.cache c).index = (s.cache c).index) (hlru : (s'.cache c).lru.Perm (s.cache c).lru)
    (hentries : ∀ q, q ≠ p → s'.entry q = s.entry q) (hkey : (s'.entry p).key = (s.entry p).key)
    (hheld : ∀ q, q ≠ p → s'.held.count q = s.held.count q)
    (hflushed : ∀ q, q ≠ p → s'.flushed.count q = s.flushed.count q)
    (hloose : s'.loose = s.loose) (hnext : s'.next = s.next)
    (hentry : EntryOk (s'.entry p) (s'.held.count p) (s'.flushed.count p))
    : Ok s' := by
  have hkeys : ∀ q, (s'.entry q).key = (s.entry q).key := by
    intro q
    by_cases hq : q = p
    . rw [hq, hkey]
    . rw [hentries q hq]
  have hindices : ∀ d, (s'.cache d).index = (s.cache d).index := by
    intro d
    by_cases hd : d = c
    . rw [hd, hindex]
    . rw [hcaches d hd]
  have hlrus : ∀ d, (s'.cache d).lru.Perm (s.cache d).lru := by
    intro d
    by_cases hd : d = c
    . rw [hd]
      exact hlru
    . rw [hcaches d hd]
  refine ⟨?_, ?_, ?_, ?_, ?_, ?_, ?_, ?_, ?_, ?_, ?_⟩
  . intro d k q hk
    rw [hkeys]
    apply h.keyed d
    rwa [← hindices]
  . intro d q
    rw [(hlrus d).mem_iff, hkeys, hindices]
    exact h.listed d q
  . intro d
    exact (hlrus d).nodup_iff.mpr (h.nodup d)
  . intro d d' q hd hd'
    rw [(hlrus _).mem_iff] at hd hd'
    exact h.apart d d' q hd hd'
  . intro d q hq
    rw [hnext]
    exact h.bound d q ((hlrus d).mem_iff.mp hq)
  . rw [hloose]
    exact h.loose_nodup
  . intro q hq d
    rw [(hlrus d).mem_iff]
    rw [hloose] at hq
    exact h.loose_apart q hq d
  . intro q hq
    rw [hloose] at hq
    rw [hnext]
    exact h.loose_bound q hq
  . intro q hq
    rw [hloose] at hq
    have hne : q ≠ p := by
      rintro rfl
      exact h.loose_apart q hq c hp
    rw [hentries q hne]
    exact h.loose_ok q hq
  . intro d q hq
    by_cases hne : q = p
    . rw [hne]
      exact hentry
    . rw [hentries q hne, hheld q hne, hflushed q hne]
      exact h.entries d q ((hlrus d).mem_iff.mp hq)
  . intro q hq
    by_cases hne : q = p
    . refine ⟨c, ?_⟩
      rw [hne, (hlrus c).mem_iff]
      exact hp
    . rw [← List.count_pos_iff, ← List.count_pos_iff, hheld q hne, hflushed q hne,
        List.count_pos_iff, List.count_pos_iff] at hq
      obtain ⟨d, hd⟩ := h.refs q hq
      exact ⟨d, (hlrus d).mem_iff.mpr hd⟩

theorem congr {s' : State} (hcaches : ∀ d, (s'.cache d).index = (s.cache d).index)
    (hlrus : ∀ d, (s'.cache d).lru.Perm (s.cache d).lru) (hentry : s'.entry = s.entry)
    (hheld : s'.held = s.held) (hflushed : s'.flushed = s.flushed) (hloose : s'.loose = s.loose)
    (hnext : s.next ≤ s'.next)
    : Ok s' where
  keyed d k q hk := by
    rw [hcaches] at hk
    rw [hentry]
    exact h.keyed d k q hk
  listed d q := by
    rw [(hlrus d).mem_iff, hentry, hcaches]
    exact h.listed d q
  nodup d := (hlrus d).nodup_iff.mpr (h.nodup d)
  apart d d' q hd hd' := h.apart d d' q ((hlrus d).mem_iff.mp hd) ((hlrus d').mem_iff.mp hd')
  bound d q hq := Nat.lt_of_lt_of_le (h.bound d q ((hlrus d).mem_iff.mp hq)) hnext
  loose_nodup := hloose ▸ h.loose_nodup
  loose_apart q hq d hd := h.loose_apart q (hloose ▸ hq) d ((hlrus d).mem_iff.mp hd)
  loose_bound q hq := Nat.lt_of_lt_of_le (h.loose_bound q (hloose ▸ hq)) hnext
  loose_ok q hq := hentry ▸ h.loose_ok q (hloose ▸ hq)
  entries d q hq := by
    rw [hentry, hheld, hflushed]
    exact h.entries d q ((hlrus d).mem_iff.mp hq)
  refs q hq := by
    rw [hheld, hflushed] at hq
    obtain ⟨d, hd⟩ := h.refs q hq
    exact ⟨d, (hlrus d).mem_iff.mpr hd⟩

theorem not_held (hp : p ∈ (s.cache c).lru) (hpin : (s.entry p).pinCount = 0)
    : s.held.count p = 0 ∧ s.flushed.count p = 0 := by
  have := (h.entries c p hp).pins
  omega

theorem not_held_of_loose (hp : p ∈ s.loose) : s.held.count p = 0 ∧ s.flushed.count p = 0 := by
  rw [List.count_eq_zero, List.count_eq_zero, ← not_or]
  intro href
  obtain ⟨c, hc⟩ := h.refs p href
  exact h.loose_apart p hp c hc

theorem remove {s' : State} (hp : p ∈ (s.cache c).lru)
    (hcaches : ∀ d, d ≠ c → s'.cache d = s.cache d)
    (hindex : (s'.cache c).index = (s.cache c).index.erase (s.entry p).key)
    (hlru : (s'.cache c).lru.Perm ((s.cache c).lru.erase p))
    (hentries : ∀ q, q ≠ p → s'.entry q = s.entry q)
    (hheld : ∀ q, s'.held.count q = if q = p then 0 else s.held.count q)
    (hflushed : ∀ q, s'.flushed.count q = if q = p then 0 else s.flushed.count q)
    (hloose : s'.loose = s.loose) (hnext : s'.next = s.next)
    : Ok s' := by
  have hlrus : ∀ d q, q ∈ (s'.cache d).lru ↔ q ≠ p ∧ q ∈ (s.cache d).lru := by
    intro d q
    by_cases hd : d = c
    . rw [hd, hlru.mem_iff, (h.nodup c).mem_erase_iff]
    . rw [hcaches d hd]
      constructor
      . intro hq
        refine ⟨?_, hq⟩
        rintro rfl
        exact hd (h.apart d c q hq hp)
      . exact And.right
  have hlookup : ∀ d k q, (s'.cache d).index.lookup k = some q
      ↔ q ≠ p ∧ (s.cache d).index.lookup k = some q := by
    intro d k q
    by_cases hd : d = c
    . rw [hd, hindex]
      by_cases hkey : k = (s.entry p).key
      . rw [hkey, AList.lookup_erase, (h.listed c p).mp hp]
        simp [eq_comm]
      . rw [AList.lookup_erase_ne hkey, and_iff_right_of_imp]
        rintro hk rfl
        exact hkey (h.keyed c k q hk).symm
    . rw [hcaches d hd, and_iff_right_of_imp]
      rintro hk rfl
      exact hd (h.apart d c q (h.mem_of_lookup hk) hp)
  refine ⟨?_, ?_, ?_, ?_, ?_, ?_, ?_, ?_, ?_, ?_, ?_⟩
  . intro d k q hk
    rw [hlookup] at hk
    rw [hentries q hk.1]
    exact h.keyed d k q hk.2
  . intro d q
    rw [hlrus, hlookup]
    by_cases hq : q = p
    . simp [hq]
    . rw [hentries q hq, h.listed]
  . intro d
    by_cases hd : d = c
    . rw [hd, hlru.nodup_iff]
      exact (h.nodup c).erase p
    . rw [hcaches d hd]
      exact h.nodup d
  . intro d d' q hd hd'
    exact h.apart d d' q ((hlrus d q).mp hd).2 ((hlrus d' q).mp hd').2
  . intro d q hq
    rw [hnext]
    exact h.bound d q ((hlrus d q).mp hq).2
  . rw [hloose]
    exact h.loose_nodup
  . intro q hq d hd
    rw [hloose] at hq
    exact h.loose_apart q hq d ((hlrus d q).mp hd).2
  . intro q hq
    rw [hloose] at hq
    rw [hnext]
    exact h.loose_bound q hq
  . intro q hq
    rw [hloose] at hq
    have hne : q ≠ p := by
      rintro rfl
      exact h.loose_apart q hq c hp
    rw [hentries q hne]
    exact h.loose_ok q hq
  . intro d q hq
    rw [hlrus] at hq
    rw [hentries q hq.1, hheld, hflushed, if_neg hq.1, if_neg hq.1]
    exact h.entries d q hq.2
  . intro q hq
    rw [← List.count_pos_iff, ← List.count_pos_iff, hheld, hflushed] at hq
    have hne : q ≠ p := by
      rintro rfl
      simp at hq
    rw [if_neg hne, if_neg hne, List.count_pos_iff, List.count_pos_iff] at hq
    obtain ⟨d, hd⟩ := h.refs q hq
    exact ⟨d, (hlrus d q).mpr ⟨hne, hd⟩⟩

theorem loosen (hp : ∀ c, p ∉ (s.cache c).lru) (hloose : p ∉ s.loose) (hbound : p < s.next)
    (hok : EntryOk (s.entry p) 0 0) : Ok { s with loose := p :: s.loose } where
  __ := h
  loose_nodup := List.nodup_cons.mpr ⟨hloose, h.loose_nodup⟩
  loose_apart := by
    intro q hq
    rcases List.mem_cons.mp hq with rfl | hq
    . exact hp
    . exact h.loose_apart q hq
  loose_bound := by
    intro q hq
    rcases List.mem_cons.mp hq with rfl | hq
    . exact hbound
    . exact h.loose_bound q hq
  loose_ok := by
    intro q hq
    rcases List.mem_cons.mp hq with rfl | hq
    . exact hok
    . exact h.loose_ok q hq

theorem link {s' : State} (hp : p ∈ s.loose)
    (hnew : (s.cache c).index.lookup (s.entry p).key = none)
    (hcaches : ∀ d, d ≠ c → s'.cache d = s.cache d)
    (hindex : (s'.cache c).index = (s.cache c).index.insert (s.entry p).key p)
    (hlru : (s'.cache c).lru.Perm (p :: (s.cache c).lru))
    (hentry : s'.entry = s.entry) (hheld : s'.held = s.held) (hflushed : s'.flushed = s.flushed)
    (hloose : s'.loose = s.loose.erase p) (hnext : s'.next = s.next)
    : Ok s' := by
  have hnot := h.not_held_of_loose hp
  have hlrus : ∀ d q, q ∈ (s'.cache d).lru ↔ d = c ∧ q = p ∨ q ∈ (s.cache d).lru := by
    intro d q
    by_cases hd : d = c
    . rw [hd, hlru.mem_iff, List.mem_cons]
      simp
    . rw [hcaches d hd]
      simp [hd]
  refine ⟨?_, ?_, ?_, ?_, ?_, ?_, ?_, ?_, ?_, ?_, ?_⟩
  . intro d k q hk
    rw [hentry]
    by_cases hd : d = c
    . rw [hd, hindex] at hk
      by_cases hkey : k = (s.entry p).key
      . rw [hkey, AList.lookup_insert] at hk
        cases hk
        exact hkey.symm
      . rw [AList.lookup_insert_ne hkey] at hk
        exact h.keyed c k q hk
    . rw [hcaches d hd] at hk
      exact h.keyed d k q hk
  . intro d q
    rw [hlrus, hentry]
    by_cases hd : d = c
    . rw [hd, hindex]
      by_cases hkey : (s.entry q).key = (s.entry p).key
      . rw [hkey, AList.lookup_insert, h.listed c q, hkey, hnew]
        simp [eq_comm]
      . rw [AList.lookup_insert_ne hkey, ← h.listed]
        have hne : q ≠ p := by
          rintro rfl
          exact hkey rfl
        simp [hne]
    . rw [hcaches d hd, ← h.listed]
      simp [hd]
  . intro d
    by_cases hd : d = c
    . rw [hd, hlru.nodup_iff, List.nodup_cons]
      exact ⟨h.loose_apart p hp c, h.nodup c⟩
    . rw [hcaches d hd]
      exact h.nodup d
  . intro d d' q hd hd'
    rw [hlrus] at hd hd'
    rcases hd with ⟨rfl, rfl⟩ | hd
    . rcases hd' with ⟨rfl, _⟩ | hd'
      . rfl
      . exact absurd hd' (h.loose_apart q hp d')
    . rcases hd' with ⟨rfl, rfl⟩ | hd'
      . exact absurd hd (h.loose_apart q hp d)
      . exact h.apart d d' q hd hd'
  . intro d q hq
    rw [hnext]
    rcases (hlrus d q).mp hq with ⟨_, rfl⟩ | hq
    . exact h.loose_bound q hp
    . exact h.bound d q hq
  . rw [hloose]
    exact h.loose_nodup.erase p
  . intro q hq d hd
    rw [hloose, h.loose_nodup.mem_erase_iff] at hq
    rcases (hlrus d q).mp hd with ⟨_, rfl⟩ | hd
    . exact hq.1 rfl
    . exact h.loose_apart q hq.2 d hd
  . intro q hq
    rw [hloose] at hq
    rw [hnext]
    exact h.loose_bound q (List.mem_of_mem_erase hq)
  . intro q hq
    rw [hloose] at hq
    rw [hentry]
    exact h.loose_ok q (List.mem_of_mem_erase hq)
  . intro d q hq
    rw [hentry, hheld, hflushed]
    rcases (hlrus d q).mp hq with ⟨_, rfl⟩ | hq
    . rw [hnot.1, hnot.2]
      exact h.loose_ok q hp
    . exact h.entries d q hq
  . intro q hq
    rw [hheld, hflushed] at hq
    obtain ⟨d, hd⟩ := h.refs q hq
    exact ⟨d, (hlrus d q).mpr (.inr hd)⟩

theorem forget (p : Ptr) : Ok { s with loose := s.loose.erase p } where
  __ := h
  loose_nodup := h.loose_nodup.erase p
  loose_apart q hq := h.loose_apart q (List.mem_of_mem_erase hq)
  loose_bound q hq := h.loose_bound q (List.mem_of_mem_erase hq)
  loose_ok q hq := h.loose_ok q (List.mem_of_mem_erase hq)

theorem fill {f : Entry → Entry} (hp : ∀ d, p ∉ (s.cache d).lru)
    (hnew : EntryOk (f (s.entry p)) 0 0) : Ok (s.modEntry p f) := by
  have hentry : ∀ d, ∀ q ∈ (s.cache d).lru, (s.modEntry p f).entry q = s.entry q := by
    intro d q hq
    rw [State.modEntry_entry, update_of_ne]
    rintro rfl
    exact hp d hq
  refine ⟨?_, ?_, h.nodup, h.apart, h.bound, h.loose_nodup, h.loose_apart,
    h.loose_bound, ?_, ?_, h.refs⟩
  . intro d k q hk
    rw [hentry d q (h.mem_of_lookup hk)]
    exact h.keyed d k q hk
  . intro d q
    by_cases hq : q ∈ (s.cache d).lru
    . rw [State.modEntry_cache, hentry d q hq]
      exact h.listed d q
    . rw [State.modEntry_cache, iff_false_left hq]
      intro hk
      exact hq (h.mem_of_lookup hk)
  . intro q hq
    rw [State.modEntry_entry]
    by_cases hne : q = p
    . rw [hne, update_self]
      exact hnew
    . rw [update_of_ne hne]
      exact h.loose_ok q hq
  . intro d q hq
    rw [hentry d q hq]
    exact h.entries d q hq

theorem alloc : Ok { s.modEntry s.next fun _ => default with
    next := s.next + 1, loose := s.next :: s.loose } := by
  have hfresh : ∀ d, s.next ∉ (s.cache d).lru := by
    intro d hd
    exact Nat.lt_irrefl _ (h.bound d _ hd)
  have hdefault : EntryOk default 0 0 := by
    refine ⟨rfl, fun hf => absurd rfl hf, ?_, ?_, ?_⟩
    . intro hdirty
      cases hdirty
    . intro hpending
      cases hpending
    . intro _ hstate
      cases hstate
  have hfill : Ok (s.modEntry s.next fun _ => default) := h.fill hfresh hdefault
  have hnext : Ok { s.modEntry s.next fun _ => default with next := s.next + 1 } :=
    hfill.congr (fun _ => rfl) (fun _ => .refl _) rfl rfl rfl rfl (Nat.le_succ _)
  apply hnext.loosen hfresh
  . intro hmem
    exact Nat.lt_irrefl _ (h.loose_bound _ hmem)
  . exact Nat.lt_succ_self _
  . dsimp only
    rw [State.modEntry_entry, update_self]
    exact hdefault

end

end Ok

end FC
