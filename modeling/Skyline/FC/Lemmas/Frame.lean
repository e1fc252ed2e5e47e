import Skyline.FC.Lemmas.Moves

/-!
This module contains what a move leaves alone of an entry that a flush has a reference to.
-/

namespace FC

open Function

variable {s s' s'' : State} {c : Nat} {p q : Ptr} {tag : Tag}

theorem mem_update_lru {caches : Nat → Cache} {x : Cache} (d : Nat)
    (h : q ∈ (caches c).lru → q ∈ x.lru) (hq : q ∈ (caches d).lru)
    : q ∈ (update caches c x d).lru := by
  by_cases hd : d = c
  . subst hd
    rw [update_self]
    exact h hq
  . rwa [update_of_ne hd]

theorem mem_unlink_lru (s : State) (c : Nat) (dirty : Bool) (hne : q ≠ p) (d : Nat)
    (hq : q ∈ (s.cache d).lru) : q ∈ ((s.unlink c p dirty).cache d).lru := by
  refine mem_update_lru d ?_ hq
  exact (List.mem_erase_of_ne hne).mpr

theorem mem_link_lru (s : State) (c : Nat) {push : Cache → Ptr → Cache}
    (hpush : push = Cache.fcLruPushBack ∨ push = Cache.fcLruPushFront) (d : Nat)
    (hq : q ∈ (s.cache d).lru) : q ∈ ((s.link c p push).cache d).lru := by
  refine mem_update_lru d ?_ hq
  intro hc
  rcases hpush with rfl | rfl
  . exact List.mem_append_left _ hc
  . exact List.mem_cons_of_mem _ hc

namespace Ok

section

variable (h : Ok s) (hq : q ∈ s.flushed)
include h hq

theorem ne_of_unpinned (hp : p ∈ (s.cache c).lru)
    (hpin : (s.entry p).pinCount = 0) : q ≠ p := by
  rintro rfl
  exact List.count_eq_zero.mp (h.not_held hp hpin).2 hq

theorem ne_of_held (hp : p ∈ s.held) : q ≠ p := by
  rintro rfl
  obtain ⟨c, hc⟩ := h.refs q (.inl hp)
  exact List.count_eq_zero.mp (h.held_count hc hp).1 hq

end

theorem loose_ne (h : Ok s) (hq : q ∈ s.loose) (hp : p ∈ (s.cache c).lru) : q ≠ p := by
  rintro rfl
  exact h.loose_apart q hq c hp

end Ok

def Tag.FlushOf (q : Ptr) : Tag → Prop
  | .retry p => p = q
  | .settle p => p = q
  | .fail p => p = q
  | .writtenOut p => p = q
  | _ => False

def Tag.flushedAfter (flushed : List Ptr) : Tag → List Ptr
  | .flush p => p :: flushed
  | .settle p => flushed.erase p
  | .fail p => flushed.erase p
  | .writtenOut p => flushed.erase p
  | _ => flushed

theorem Move.flushed_eq (hmove : Move s tag s') : s'.flushed = tag.flushedAfter s.flushed := by
  cases hmove <;> rfl

theorem Tag.mem_flushedAfter {flushed : List Ptr} (hq : q ∈ flushed) (hne : ¬tag.FlushOf q)
    : q ∈ tag.flushedAfter flushed := by
  cases tag with
  | flush => exact List.mem_cons_of_mem _ hq
  | settle => exact (List.mem_erase_of_ne fun heq => hne heq.symm).mpr hq
  | fail => exact (List.mem_erase_of_ne fun heq => hne heq.symm).mpr hq
  | writtenOut => exact (List.mem_erase_of_ne fun heq => hne heq.symm).mpr hq
  | _ => exact hq

/-
An entry leaves its list only when nobody has a reference to it, or with the last one.
-/
theorem Move.mem_lru (h : Ok s) (hmove : Move s tag s') (hq : q ∈ s.flushed) (hne : ¬tag.FlushOf q)
    (d : Nat) (hd : q ∈ (s.cache d).lru) : q ∈ (s'.cache d).lru := by
  cases hmove with
  | tune _ _ hsame => exact mem_update_lru d hsame.lru.mem_iff.mpr hd
  | stat _ _ _ _ _ _ hg => exact mem_update_lru d hg.lru.mem_iff.mpr hd
  | putLast c p _ hheld => exact mem_unlink_lru (s.unpin p) c true (h.ne_of_held hq hheld) d hd
  | settle => exact mem_update_lru d (fun h => h) hd
  | writtenOut c p =>
    exact mem_unlink_lru (s.flushUnpin p) c true (fun heq => hne heq.symm) d hd
  | remove c _ dirty hp hpin => exact mem_unlink_lru s c dirty (h.ne_of_unpinned hq hp hpin) d hd
  | overrule c _ hp hpin => exact mem_unlink_lru s c true (h.ne_of_unpinned hq hp hpin) d hd
  | raw c _ hp hpin => exact mem_unlink_lru s c true (h.ne_of_unpinned hq hp hpin) d hd
  | detach c _ hp hidle =>
    rw [Entry.idle_iff] at hidle
    exact mem_unlink_lru s c false (h.ne_of_unpinned hq hp hidle.1) d hd
  | attach c _ _ _ hpush => exact mem_link_lru s c hpush d hd
  | insert c p a buffer e =>
    exact mem_link_lru (((s.takeData a buffer).stampData a).modEntry p fun _ => e) c (.inl rfl) d hd
  | reuse _ _ _ _ hp => exact mem_update_lru d (Cache.reuseTotals_lru hp).mem_iff.mpr hd
  | discard _ _ hp hpin =>
    exact mem_update_lru d (List.mem_erase_of_ne (h.ne_of_unpinned hq hp hpin)).mpr hd
  | _ => exact hd

def Tag.Owns (q : Ptr) : Tag → Prop
  | .drop p => p = q
  | .build p => p = q
  | .attach p => p = q
  | .insert p => p = q
  | _ => False

def Tag.looseAfter (loose : List Ptr) : Tag → List Ptr
  | .alloc p => p :: loose
  | .detach p => p :: loose
  | .drop p => loose.erase p
  | .attach p => loose.erase p
  | .insert p => loose.erase p
  | _ => loose

theorem Move.loose_eq (hmove : Move s tag s') : s'.loose = tag.looseAfter s.loose := by
  cases hmove with
  | putLast => exact List.erase_cons_head ..
  | writtenOut => exact List.erase_cons_head ..
  | remove => exact List.erase_cons_head ..
  | overrule => exact List.erase_cons_head ..
  | raw => exact List.erase_cons_head ..
  | discard => exact List.erase_cons_head ..
  | _ => rfl

theorem Tag.mem_looseAfter {loose : List Ptr} (hq : q ∈ loose) (hne : ¬tag.Owns q)
    : q ∈ tag.looseAfter loose := by
  cases tag with
  | alloc => exact List.mem_cons_of_mem _ hq
  | detach => exact List.mem_cons_of_mem _ hq
  | drop => exact (List.mem_erase_of_ne fun heq => hne heq.symm).mpr hq
  | attach => exact (List.mem_erase_of_ne fun heq => hne heq.symm).mpr hq
  | insert => exact (List.mem_erase_of_ne fun heq => hne heq.symm).mpr hq
  | _ => exact hq

theorem Move.entry_of_loose (h : Ok s) (hmove : Move s tag s') (hq : q ∈ s.loose)
    (hne : ¬tag.Owns q)
    : s'.entry q = s.entry q := by
  have hlru : ∀ {c p} (e : Entry), p ∈ (s.cache c).lru → update s.entry p e q = s.entry q :=
    fun _ hp => update_of_ne (h.loose_ne hq hp) _ _
  cases hmove with
  | stat _ _ _ _ hp => exact hlru _ hp
  | pin _ _ _ hp => exact hlru _ hp
  | unpin _ _ hp => exact hlru _ hp
  | putLast _ _ hp => exact hlru _ hp
  | refuse _ _ hp => exact hlru _ hp
  | invalidate _ _ hp => exact hlru _ hp
  | flushPin _ _ hp => exact hlru _ hp
  | retry _ _ _ hp => exact hlru _ hp
  | settle _ _ hp => simp [State.flushEnd, State.flushUnpin, h.loose_ne hq hp]
  | fail _ _ hp => simp [State.flushUnpin, h.loose_ne hq hp]
  | writtenOut _ _ hp => exact hlru _ hp
  | alloc => exact update_of_ne (Nat.ne_of_lt (h.loose_bound q hq)) _ _
  | build => exact update_of_ne (fun heq => hne heq.symm) _ _
  | insert =>
    exact update_of_ne (fun heq => hne heq.symm) _ _
  | reuse _ _ _ _ hp => exact hlru _ hp
  | store p _ hp =>
    obtain ⟨c, hc⟩ := h.refs p (.inl hp)
    exact hlru _ hc
  | _ => rfl

theorem Move.loose (h : Ok s) (hmove : Move s tag s') (hq : q ∈ s.loose) (hne : ¬tag.Owns q)
    : q ∈ s'.loose ∧ s'.entry q = s.entry q := by
  refine ⟨?_, hmove.entry_of_loose h hq hne⟩
  rw [hmove.loose_eq]
  exact Tag.mem_looseAfter hq hne

variable {allowed : State → Tag → Prop}

theorem Moves.flushed (h : Ok s) (hmoves : Moves allowed s s') (hq : q ∈ s.flushed)
    (hne : ∀ s tag, allowed s tag → ¬tag.FlushOf q)
    : q ∈ s'.flushed ∧ ∀ d, q ∈ (s.cache d).lru → q ∈ (s'.cache d).lru := by
  induction hmoves with
  | refl => exact ⟨hq, fun _ hd => hd⟩
  | tail hmoves tag hallowed hmove ih =>
    have hstill := hne _ tag hallowed
    refine ⟨?_, fun d hd => hmove.mem_lru (h.moves hmoves) ih.1 hstill d (ih.2 d hd)⟩
    rw [hmove.flushed_eq]
    exact Tag.mem_flushedAfter ih.1 hstill

theorem Moves.loose (h : Ok s) (hmoves : Moves allowed s s') (hq : q ∈ s.loose)
    (hne : ∀ s tag, allowed s tag → ¬tag.Owns q) : q ∈ s'.loose ∧ s'.entry q = s.entry q := by
  induction hmoves with
  | refl => exact ⟨hq, rfl⟩
  | tail hmoves tag hallowed hmove ih =>
    have hstep := hmove.loose (h.moves hmoves) ih.1 (hne _ tag hallowed)
    exact ⟨hstep.1, hstep.2.trans ih.2⟩

theorem Moves.loose_eq (hmoves : Moves allowed s s')
    (hsame : ∀ s tag, allowed s tag → ∀ loose, tag.looseAfter loose = loose)
    : s'.loose = s.loose := by
  induction hmoves with
  | refl => rfl
  | tail _ tag hallowed hmove ih => rw [hmove.loose_eq, hsame _ tag hallowed, ih]

theorem Move.task_eq (hmove : Move s tag s') : s'.task = s.task ∧ s'.ncpu = s.ncpu := by
  cases hmove <;> exact ⟨rfl, rfl⟩

theorem Moves.task_eq (hmoves : Moves allowed s s')
    : s'.task = s.task ∧ s'.ncpu = s.ncpu := by
  induction hmoves with
  | refl => exact ⟨rfl, rfl⟩
  | tail _ _ _ hmove ih => exact ⟨hmove.task_eq.1.trans ih.1, hmove.task_eq.2.trans ih.2⟩

end FC
