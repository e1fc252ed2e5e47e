import Skyline.FC.Lemmas.Access
import Skyline.FC.Lemmas.Frame

/-!
This module contains the moves of the broadcasts, the flushes, the idle handler and the decay.
-/

namespace FC

open Function

namespace Cache

theorem dropOscillate_same (x : Cache) (key : Key) : x.Same (x.dropOscillate key) :=
  ⟨rfl, .refl _, rfl, rfl, rfl, rfl, rfl, rfl, fun _ => .inl⟩

theorem fcUpdateOscillate_same (x : Cache) (e : Entry) : x.Same (x.fcUpdateOscillate e) :=
  ⟨rfl, .refl _, rfl, rfl, rfl, rfl, rfl, rfl, fun _ => .inl⟩

end Cache

def Cache.CursorOk (x : Cache) : Prop := ∀ p, x.decayCursor = some p → p ∈ x.lru

namespace Cache.CursorOk

variable {x y : Cache} {p : Ptr}

theorem of_cursor (h : x.CursorOk) (hlru : y.lru.Perm x.lru)
    (hcursor : ∀ p, y.decayCursor = some p → x.decayCursor = some p ∨ p ∈ x.lru) : y.CursorOk := by
  intro p hp
  rw [hlru.mem_iff]
  rcases hcursor p hp with hp | hp
  . exact h p hp
  . exact hp

theorem ne_of_lruNext {q : Ptr} (hnodup : x.lru.Nodup) (hnext : x.lruNext p = some q) : q ≠ p := by
  unfold lruNext at hnext
  cases hdrop : x.lru.dropWhile (· != p) with
  | nil =>
    rw [hdrop] at hnext
    cases hnext
  | cons r rest =>
    have hr : r = p := by
      have hhead := List.head?_dropWhile_not (· != p) x.lru
      rw [hdrop] at hhead
      simpa using hhead
    rw [hdrop] at hnext
    have hsub : (r :: rest).Sublist x.lru := hdrop ▸ List.dropWhile_sublist _
    have hnot := (List.nodup_cons.mp (hnodup.sublist hsub)).1
    rintro rfl
    rw [hr] at hnot
    exact hnot (List.mem_of_mem_head? hnext)

theorem unlink (h : x.CursorOk) (hnodup : x.lru.Nodup) (p : Ptr) (e : Entry) (dirty : Bool)
    : (x.unlink p e dirty).CursorOk := by
  intro q hq
  have hcursor : (if x.decayCursor = some p then x.lruNext p else x.decayCursor) = some q := hq
  show q ∈ x.lru.erase p
  rw [hnodup.mem_erase_iff]
  split at hcursor
  . exact ⟨ne_of_lruNext hnodup hcursor, mem_of_lruNext hcursor⟩
  next hne =>
    refine ⟨?_, h q hcursor⟩
    rintro rfl
    exact hne hcursor

theorem link (h : x.CursorOk) (p : Ptr) (e : Entry) {push : Cache → Ptr → Cache}
    (hpush : push = Cache.fcLruPushBack ∨ push = Cache.fcLruPushFront)
    : (push (x.link p e) p).CursorOk := by
  intro q hq
  rcases hpush with rfl | rfl
  . exact List.mem_append_left _ (h q hq)
  . exact List.mem_cons_of_mem _ (h q hq)

theorem update {caches : Nat → Cache} (h : ∀ d, (caches d).CursorOk) (c : Nat) (hx : x.CursorOk)
    : ∀ d, (update caches c x d).CursorOk := by
  intro d
  by_cases hd : d = c
  . rw [hd, update_self]
    exact hx
  . rw [update_of_ne hd]
    exact h d

end Cache.CursorOk

theorem Move.cursor {s s' : State} {tag : Tag} (h : Ok s) (hcursor : ∀ c, (s.cache c).CursorOk)
    (hmove : Move s tag s') : ∀ c, (s'.cache c).CursorOk := by
  cases hmove with
  | tune c _ hsame => exact .update hcursor c ((hcursor c).of_cursor hsame.lru hsame.cursor)
  | stat c _ _ _ _ _ hg => exact .update hcursor c ((hcursor c).of_cursor hg.lru hg.cursor)
  | putLast c => exact .update hcursor c ((hcursor c).unlink (h.nodup c) _ _ _)
  | settle c => exact .update hcursor c (hcursor c)
  | writtenOut c => exact .update hcursor c ((hcursor c).unlink (h.nodup c) _ _ _)
  | remove c => exact .update hcursor c ((hcursor c).unlink (h.nodup c) _ _ _)
  | overrule c => exact .update hcursor c ((hcursor c).unlink (h.nodup c) _ _ _)
  | raw c => exact .update hcursor c ((hcursor c).unlink (h.nodup c) _ _ _)
  | detach c => exact .update hcursor c ((hcursor c).unlink (h.nodup c) _ _ _)
  | discard c => exact .update hcursor c ((hcursor c).unlink (h.nodup c) _ _ _)
  | attach c _ _ _ hpush => exact .update hcursor c ((hcursor c).link _ _ hpush)
  | insert c =>
    exact .update hcursor c ((hcursor c).link _ _ (.inl rfl))
  | reuse c _ _ _ hp =>
    refine .update hcursor c ((hcursor c).of_cursor (Cache.reuseTotals_lru hp) ?_)
    intro q hq
    exact Cache.fcLruMoveToBack_cursor (x := ((s.cache c).subTiny _).addTiny _) hq
  | _ => exact hcursor

theorem Moves.cursor {s s' : State} {allowed : State → Tag → Prop} (h : Ok s)
    (hcursor : ∀ c, (s.cache c).CursorOk) (hmoves : Moves allowed s s')
    : ∀ c, (s'.cache c).CursorOk := by
  induction hmoves with
  | refl => exact hcursor
  | tail hmoves _ _ hmove ih => exact hmove.cursor (h.moves hmoves) ih

namespace State

variable {s s' : State} {c i : Nat} {p : Ptr} {key : Key}

def Visits (s : State) (i : Nat) (key : Key) (s₁ : State) : Tag → Prop
  | .plain => True
  | .invalidate p => s₁ = s ∧ (s.cache i).index.lookup key = some p
  | .flush p => s₁ = s ∧ (s.cache i).index.lookup key = some p
  | .overrule p =>
    s₁ = s ∧ (s.cache i).index.lookup key = some p
      ∧ ((s.entry p).isDirty → (s.cache i).writebackCb = false
        ∨ (s.entry p).state = .writebackFailed)
  | _ => False

theorem lookup_unlink_self (hkey : (s.entry p).key = key) (dirty : Bool)
    : ((s.unlink i p dirty).cache i).index.lookup key = none := by
  have hcache : (s.unlink i p dirty).cache i = _ := update_self ..
  rw [hcache, ← hkey]
  apply AList.lookup_erase

theorem broadcastVisit_moves (h : Ok s) {found : Option Ptr}
    (hvisit : s.broadcastVisit i key = (s', found))
    : Moves (Visits s i key) s s'
      ∧ ((∃ p, found = some p ∧ s' = s.flushPin p ∧ p ∈ (s.cache i).lru ∧ (s.entry p).pinCount = 0)
        ∨ found = none ∧ ∀ p, (s'.cache i).index.lookup key = some p
            → 0 < (s.entry p).pinCount ∧ (s'.entry p).state = .invalid) := by
  have hdrop : ∀ {s' : State}, Moves (Visits s i key) s s'
      → Moves (Visits s i key) s (s'.modCache i fun x => x.dropOscillate key) := by
    intro s' hmoves
    exact hmoves.tail .plain trivial (.tune i _ (Cache.dropOscillate_same _ _))
  have hindex : ∀ s' : State, ((s'.modCache i fun x => x.dropOscillate key).cache i).index
      = (s'.cache i).index := by
    intro s'
    rw [modCache_cache, update_self]
    rfl
  unfold broadcastVisit at hvisit
  dsimp only at hvisit
  split at hvisit
  next hlookup =>
    cases hvisit
    refine ⟨hdrop .refl, .inr ⟨rfl, ?_⟩⟩
    intro p hp
    rw [hindex, hlookup] at hp
    cases hp
  next p hlookup =>
    have hp := h.mem_of_lookup hlookup
    have hkey := h.keyed i key p hlookup
    split at hvisit
    next hpin =>
      cases hvisit
      refine ⟨hdrop (.tail .refl (.invalidate p) ⟨rfl, hlookup⟩ (.invalidate i p hp hpin)),
        .inr ⟨rfl, ?_⟩⟩
      intro q hq
      rw [hindex] at hq
      have hpq : p = q := Option.some.inj (hlookup.symm.trans hq)
      subst hpq
      refine ⟨hpin, ?_⟩
      rw [modCache_entry, setState, modEntry_entry, update_self]
    next hpin =>
      have hpin : (s.entry p).pinCount = 0 := Nat.eq_zero_of_not_pos hpin
      split at hvisit
      next hdirty =>
        cases hvisit
        exact ⟨.tail .refl (.flush p) ⟨rfl, hlookup⟩ (.flushPin i p hp hpin hdirty.1),
          .inl ⟨p, rfl, rfl, hp, hpin⟩⟩
      next hdirty =>
        rw [if_pos (h.has hp)] at hvisit
        cases hvisit
        have hoverrule : Moves (Visits s i key) s ((s.unlink i p true).fcEntryFree p) := by
          refine .tail .refl (.overrule p) ⟨rfl, hlookup, ?_⟩ (.overrule i p hp hpin)
          intro hd
          by_contra hnot
          rw [not_or, Bool.not_eq_false] at hnot
          exact hdirty ⟨hd, hnot.1, hnot.2⟩
        refine ⟨hdrop hoverrule, .inr ⟨rfl, ?_⟩⟩
        intro q hq
        rw [hindex] at hq
        have hnone := lookup_unlink_self (i := i) hkey true
        rw [show ((s.unlink i p true).fcEntryFree p).cache = (s.unlink i p true).cache from rfl,
          hnone] at hq
        cases hq

def Writes (s : State) (p : Ptr) (ok : Bool) (s₁ : State) : Tag → Prop
  | .plain => True
  | .writtenOut q => q = p ∧ ok = true
  | .fail q => q = p ∧ ok = false ∧ s₁ = s
  | _ => False

theorem flushUnpin_wrote (s : State) (p : Ptr)
    : (s.flushUnpin p).wrote p = (s.wrote p).flushUnpin p := by
  simp [flushUnpin, wrote, record, modEntry]

theorem flushUnpin_has (s : State) (c : Nat) (p : Ptr) : (s.flushUnpin p).has c p = s.has c p := by
  simp [flushUnpin, has]

theorem broadcastWritten_moves (h : Ok s) (hp : p ∈ (s.cache i).lru) (hflushed : p ∈ s.flushed)
    (key : Key)
    (ok : Bool) : Moves (Writes s p ok) s (s.broadcastWritten i key p ok) := by
  unfold broadcastWritten
  dsimp only
  cases ok with
  | true =>
    have hwrote : Moves (Writes s p true) s (s.wrote p) :=
      .tail .refl .plain trivial (.wrote p hflushed)
    have hout := hwrote.tail (.writtenOut p) ⟨rfl, rfl⟩
      (.writtenOut i p hp hflushed List.mem_cons_self)
    have hhas : (s.wrote p).has i p = true := h.has hp
    rw [if_pos rfl, flushUnpin_wrote, flushUnpin_has, if_pos hhas]
    exact hout.tail .plain trivial (.tune i _ (Cache.dropOscillate_same _ _))
  | false => exact .tail .refl (.fail p) ⟨rfl, rfl, rfl⟩ (.fail i p hp hflushed)

def Drops (s : State) (c : Nat) (key : Key) (s₁ : State) : Tag → Prop
  | .plain => True
  | .raw => ∃ p, (s.cache c).index.lookup key = some p ∧ (s.entry p).pinCount = 0
  | .invalidate p => (s₁.entry p).stamp ∈ s₁.history.dropped
  | _ => False

theorem dropBlock_moves (h : Ok s) (c : Nat) (key : Key)
    : Moves (Drops s c key) s (s.dropBlock c key) := by
  unfold dropBlock
  split
  . exact .refl
  next p hlookup =>
    have hp := h.mem_of_lookup hlookup
    have hnote : Moves (Drops s c key) s
        (s.record fun h => { h with dropped := (s.entry p).stamp :: h.dropped }) :=
      .tail .refl .plain trivial (.note _)
    dsimp only
    split
    next hpin => exact hnote.tail .raw ⟨p, hlookup, hpin⟩ (.raw c p hp hpin List.mem_cons_self)
    next hpin =>
      exact hnote.tail (.invalidate p) List.mem_cons_self
        (.invalidate c p hp (Nat.pos_of_ne_zero hpin))

structure Sweep (lru l : List Ptr) : Prop where
  nodup : l.Nodup
  mem : ∀ p ∈ l, p ∈ lru

namespace Sweep

variable {lru l : List Ptr}

theorem head (h : Sweep lru (p :: l)) : p ∈ lru := h.mem p List.mem_cons_self

theorem rest (h : Sweep lru (p :: l)) : Sweep lru l :=
  ⟨h.nodup.of_cons, fun q hq => h.mem q (List.mem_cons_of_mem _ hq)⟩

theorem unlink (h : Sweep (s.cache c).lru (p :: l)) (dirty : Bool)
    : Sweep ((s.unlink c p dirty).cache c).lru l := by
  refine ⟨h.rest.nodup, fun q hq => ?_⟩
  refine mem_unlink_lru s c dirty ?_ c (h.rest.mem q hq)
  rintro rfl
  exact (List.nodup_cons.mp h.nodup).1 hq

end Sweep

def Collects (_ : State) (tag : Tag) : Prop := ∃ p, tag = .flush p

theorem collect_moves (h : Ok s) (cond : Entry → Bool)
    (hcond : ∀ e, cond e → e.pinCount = 0 ∧ e.isDirty) (max : Nat) (l : List Ptr)
    (hl : Sweep (s.cache c).lru l) {list : List Ptr} (hcollect : s.collect cond max l = (s', list))
    : Moves Collects s s' ∧ s'.cache = s.cache ∧ list.Sublist l ∧ (∀ p ∈ list, p ∉ s.flushed)
      ∧ ∀ p, p ∈ s'.flushed ↔ p ∈ list ∨ p ∈ s.flushed := by
  induction l generalizing s max list with
  | nil =>
    cases hcollect
    exact ⟨.refl, rfl, .refl _, by simp, by simp⟩
  | cons cur rest ih =>
    unfold collect at hcollect
    split at hcollect
    . cases hcollect
      exact ⟨.refl, rfl, List.nil_sublist _, by simp, by simp⟩
    split at hcollect
    next hwants =>
      obtain ⟨hpin, hdirty⟩ := hcond _ hwants
      have hflush : Move s (.flush cur) (s.flushPin cur) := .flushPin c cur hl.head hpin hdirty
      cases hlater : (s.flushPin cur).collect cond (max - 1) rest with | mk s₁ list₁ =>
      rw [hlater] at hcollect
      cases hcollect
      obtain ⟨hmoves, hcache, hsub, hnew, hmem⟩ := ih (h.move hflush) (max - 1) hl.rest hlater
      refine ⟨(Moves.single ⟨cur, rfl⟩ hflush).trans hmoves, hcache, hsub.cons_cons cur, ?_, ?_⟩
      . intro p hp
        rcases List.mem_cons.mp hp with rfl | hp
        . exact List.count_eq_zero.mp (h.not_held hl.head hpin).2
        . intro hflushed
          exact hnew p hp (List.mem_cons_of_mem _ hflushed)
      . intro p
        rw [hmem, List.mem_cons]
        show _ ∨ p ∈ cur :: s.flushed ↔ _
        rw [List.mem_cons]
        tauto
    next =>
      obtain ⟨hmoves, hcache, hsub, hnew, hmem⟩ := ih h max hl.rest hcollect
      exact ⟨hmoves, hcache, hsub.cons cur, hnew, hmem⟩

theorem fsyncWants_cond (fileId : UInt64) (e : Entry) (h : fsyncWants fileId e)
    : e.pinCount = 0 ∧ e.isDirty := by
  simp only [fsyncWants, Bool.decide_and, Bool.and_eq_true, decide_eq_true_eq] at h
  exact ⟨h.2.2.2, h.2.1⟩

theorem idleWants_cond (now : UInt64) (e : Entry) (h : idleWants now e)
    : e.pinCount = 0 ∧ e.isDirty := by
  rw [idleWants, decide_eq_true_eq] at h
  exact ⟨h.2.1, h.1⟩

theorem flushWrote_moves (hp : p ∈ (s.cache c).lru) (hflushed : p ∈ s.flushed) (ok : Bool)
    : Moves (PlainOr (.retry p)) s (s.flushWrote c p ok) := by
  have hcongestion : ∀ (x : Cache) (n : UInt32), x.Same { x with ioCongestion := n } := by
    intro x n
    exact ⟨rfl, .refl _, rfl, rfl, rfl, rfl, rfl, rfl, fun _ => .inl⟩
  cases ok with
  | true =>
    rw [flushWrote, if_pos rfl]
    have hwrote : Moves (PlainOr (.retry p)) s (s.wrote p) := .single (.inl rfl) (.wrote p hflushed)
    have hretry := hwrote.tail (.retry p) (.inr rfl) (.retry c p 0 hp hflushed)
    exact hretry.tail .plain (.inl rfl) (.tune c _ (hcongestion _ _))
  | false =>
    rw [flushWrote, if_neg Bool.false_ne_true]
    have hretry : Moves (PlainOr (.retry p)) s (s.modEntry p fun e =>
        { e with writebackRetries := e.writebackRetries + 1 }) :=
      .single (.inr rfl) (.retry c p _ hp hflushed)
    exact hretry.tail .plain (.inl rfl) (.tune c _ (hcongestion _ _))

def Settles (s : State) (l : List Ptr) (s₁ : State) (tag : Tag) : Prop :=
  ∃ p ∈ l, tag = .settle p ∧ s₁.entry p = s.entry p ∧ s₁.history = s.history

theorem flushEnd_entry (s : State) (c : Nat) {q : Ptr} (hq : q ≠ p)
    : (flushEnd c s p).entry q = s.entry q := by
  simp [flushEnd, flushUnpin, hq]

theorem flushEnd_lru (s : State) (c : Nat) (p : Ptr) (d : Nat)
    : ((flushEnd c s p).cache d).lru = (s.cache d).lru := by
  unfold flushEnd
  rw [modCache_cache]
  by_cases hd : d = c
  . rw [hd, update_self]
    rfl
  . rw [update_of_ne hd]
    rfl

theorem flushEnd_moves (h : Ok s) (l : List Ptr) (hnodup : l.Nodup)
    (hl : ∀ p ∈ l, p ∈ (s.cache c).lru ∧ p ∈ s.flushed)
    : Moves (Settles s l) s (l.foldl (flushEnd c) s) := by
  induction l generalizing s with
  | nil => exact .refl
  | cons p rest ih =>
    rw [List.nodup_cons] at hnodup
    have hp := hl p List.mem_cons_self
    have hmove : Move s (.settle p) (flushEnd c s p) := .settle c p hp.1 hp.2
    have hne : ∀ q ∈ rest, q ≠ p := by
      rintro q hq rfl
      exact hnodup.1 hq
    have hrest : ∀ q ∈ rest, q ∈ ((flushEnd c s p).cache c).lru ∧ q ∈ (flushEnd c s p).flushed := by
      intro q hq
      have hq' := hl q (List.mem_cons_of_mem _ hq)
      rw [flushEnd_lru]
      exact ⟨hq'.1, (List.mem_erase_of_ne (hne q hq)).mpr hq'.2⟩
    refine (Moves.single ⟨p, List.mem_cons_self, rfl, rfl, rfl⟩ hmove).trans ?_
    apply (ih (h.move hmove) hnodup.2 hrest).mono
    rintro s₁ tag ⟨q, hq, htag, hentry, hhistory⟩
    refine ⟨q, List.mem_cons_of_mem _ hq, htag, ?_, hhistory⟩
    rw [hentry, flushEnd_entry s c (hne q hq)]

theorem idleStats_moves (s : State) (c : Nat) : Moves Plain s (s.idleStats c) :=
  .single rfl (.tune c _ ⟨rfl, .refl _, rfl, rfl, rfl, rfl, rfl, rfl, fun _ => .inl⟩)

theorem idleFinish_moves (s : State) (c : Nat) (largest : UInt64)
    : Moves Plain s (s.idleFinish c largest) :=
  .single rfl (.tune c _ ⟨rfl, .refl _, rfl, rfl, rfl, rfl, rfl, rfl, fun _ => .inl⟩)

section

variable (h : Ok s)
include h

theorem idleOrphans_moves (batch : Nat) (l : List Ptr) (hl : Sweep (s.cache c).lru l)
    : Moves Plain s (idleOrphans c batch s l) := by
  induction l generalizing s batch with
  | nil => exact .refl
  | cons cur rest ih =>
    unfold idleOrphans
    dsimp only
    split
    . exact .refl
    split
    next hpending =>
      have hmove : Move s .plain ((s.unlink c cur true).fcEntryFree cur) :=
        .remove c cur true hl.head hpending.2.1 (h.clean_of_pending hl.head hpending.1 hpending.2.1)
      exact (Moves.single rfl hmove).trans (ih (h.move hmove) _ (hl.unlink true))
    next => exact ih h batch hl.rest

theorem idleRemove_moves {rest : List Ptr} (hl : Sweep (s.cache c).lru (p :: rest))
    (hidle : (s.entry p).idle)
    : Moves Plain s (s.idleRemove c p) ∧ Sweep ((s.idleRemove c p).cache c).lru rest := by
  rw [Entry.idle_iff] at hidle
  have hremove : Moves Plain s ((s.unlink c p false).fcEntryFree p) :=
    .single rfl (.remove c p false hl.head hidle.1 hidle.2.2)
  unfold idleRemove
  rw [if_pos (h.has hl.head), fcEntryFree_modCache]
  refine ⟨hremove.tail .plain rfl (.tune c _ (Cache.fcUpdateOscillate_same _ _)), ?_⟩
  rw [modCache_cache, update_self]
  exact hl.unlink false

theorem idleQuota_moves (scans batch : Nat) (stats : List (UInt64 × UInt64 × UInt64))
    (l : List Ptr) (hl : Sweep (s.cache c).lru l)
    : Moves Plain s (idleQuota c scans batch stats s l) := by
  induction l generalizing s scans batch stats with
  | nil => exact .refl
  | cons cur rest ih =>
    unfold idleQuota
    dsimp only
    split
    . exact .refl
    split
    next hidle =>
      split
      . obtain ⟨hmoves, hkept⟩ := idleRemove_moves h hl hidle.2
        exact hmoves.trans (ih (h.moves hmoves) _ _ _ hkept)
      . exact ih h _ _ _ hl.rest
    next => exact ih h _ _ _ hl.rest

theorem idleEvict_moves (scans batch : Nat) (largest : UInt64) (l : List Ptr)
    (hl : Sweep (s.cache c).lru l)
    : Moves Plain s (idleEvict c scans batch largest s l).1 := by
  induction l generalizing s scans batch largest with
  | nil => exact .refl
  | cons cur rest ih =>
    unfold idleEvict
    dsimp only
    generalize (if (s.entry cur).fileSize > largest then (s.entry cur).fileSize
      else largest) = largest
    split
    . exact .refl
    split
    next hidle =>
      obtain ⟨hmoves, hkept⟩ := idleRemove_moves h hl hidle.1
      exact hmoves.trans (ih (h.moves hmoves) _ _ _ hkept)
    next => exact ih h _ _ _ hl.rest

theorem idleQuotaPhase_moves (c batch : Nat) : Moves Plain s (s.idleQuotaPhase c batch) := by
  unfold idleQuotaPhase
  dsimp only
  split
  . apply idleQuota_moves h
    exact ⟨List.nodup_reverse.mpr (h.nodup c), fun _ => List.mem_reverse.mp⟩
  . exact .refl

theorem idleEvictPhase_moves (c batch : Nat) : Moves Plain s (s.idleEvictPhase c batch) := by
  unfold idleEvictPhase
  dsimp only
  exact (idleEvict_moves h _ _ _ _ ⟨h.nodup c, fun _ => id⟩).trans (idleFinish_moves _ _ _)

end

def Migrates (s : State) (l : List Ptr) (s₁ : State) (tag : Tag) : Prop :=
  tag = .plain ∨ ∃ p ∈ l, (tag = .detach p ∨ tag = .attach p) ∧ s₁.entry = s.entry

theorem moveOscillate_moves (s : State) (src dst : Nat) (key : Key) (merge : Bool)
    : Moves Plain s (s.moveOscillate src dst key merge) := by
  unfold moveOscillate
  split
  . exact .refl
  . dsimp only
    refine .tail (.single rfl (.tune src _ (Cache.dropOscillate_same _ _))) .plain
      rfl (.tune dst _ ?_)
    exact ⟨rfl, .refl _, rfl, rfl, rfl, rfl, rfl, rfl, fun _ => .inl⟩

theorem update_frame (caches : Nat → Cache) (c : Nat) (x : Cache) (hlru : x.lru = (caches c).lru)
    (hindex : x.index = (caches c).index) (d : Nat)
    : (update caches c x d).lru = (caches d).lru
      ∧ (update caches c x d).index = (caches d).index := by
  by_cases hd : d = c
  . rw [hd, update_self]
    exact ⟨hlru, hindex⟩
  . rw [update_of_ne hd]
    exact ⟨rfl, rfl⟩

theorem moveOscillate_eq (s : State) (src dst : Nat) (key : Key) (merge : Bool)
    : ∃ caches, s.moveOscillate src dst key merge = { s with cache := caches }
      ∧ ∀ d, (caches d).lru = (s.cache d).lru ∧ (caches d).index = (s.cache d).index := by
  unfold moveOscillate
  split
  . exact ⟨_, rfl, fun _ => ⟨rfl, rfl⟩⟩
  . refine ⟨_, rfl, ?_⟩
    intro d
    have hdrop := update_frame s.cache src ((s.cache src).dropOscillate key) rfl rfl d
    rw [← hdrop.1, ← hdrop.2]
    refine update_frame _ dst _ ?_ ?_ d
    . rfl
    . rfl

theorem moveOscillate_fcEntryFree (s : State) (src dst : Nat) (key : Key) (merge : Bool) (p : Ptr)
    : (s.moveOscillate src dst key merge).fcEntryFree p
      = (s.fcEntryFree p).moveOscillate src dst key merge := by
  have hcache : (s.fcEntryFree p).cache = s.cache := rfl
  unfold moveOscillate
  rw [hcache]
  split
  . rfl
  . rfl

theorem checkLoad.go_moves (h : Ok s) {src dst : Nat} (hne : src ≠ dst) (batch scanned : Nat)
    (l : List Ptr) (hl : Sweep (s.cache src).lru l)
    : Moves (Migrates s l) s (checkLoad.go src dst batch scanned s l)
      ∧ (checkLoad.go src dst batch scanned s l).loose = s.loose := by
  induction l generalizing s batch scanned with
  | nil => exact ⟨.refl, rfl⟩
  | cons cur rest ih =>
    have hcur := hl.head
    have hmono : ∀ {s' s'' : State}, s'.entry = s.entry → Moves (Migrates s' rest) s' s''
        → Moves (Migrates s (cur :: rest)) s' s'' := by
      intro s' s'' hentry hmoves
      apply hmoves.mono
      rintro s₁ tag (hplain | ⟨p, hp, htag, hsame⟩)
      . exact .inl hplain
      . exact .inr ⟨p, List.mem_cons_of_mem _ hp, htag, hsame.trans hentry⟩
    have hplain : ∀ {s' s'' : State}, Moves Plain s' s''
        → Moves (Migrates s (cur :: rest)) s' s'' :=
      fun hmoves => hmoves.mono fun _ _ => .inl
    unfold checkLoad.go
    dsimp only
    split
    . exact ⟨.refl, rfl⟩
    split
    . obtain ⟨hmoves, hloose⟩ := ih h batch (scanned + 1) hl.rest
      exact ⟨hmono rfl hmoves, hloose⟩
    next hidle =>
      rw [Bool.not_eq_false] at hidle
      have hclean := Entry.idle_iff.mp hidle
      split
      . exact ⟨.refl, rfl⟩
      rw [if_neg (by simp [h.has hcur])]
      split
      next hhas =>
        -- The other CPU has an entry for the key: this one is freed.
        rw [moveOscillate_fcEntryFree]
        have hremove : Moves Plain s ((s.unlink src cur false).fcEntryFree cur) :=
          .single rfl (.remove src cur false hcur hclean.1 hclean.2.2)
        have hmove := hremove.trans (moveOscillate_moves _ src dst (s.entry cur).key true)
        obtain ⟨caches, heq, hcaches⟩ :=
          moveOscillate_eq ((s.unlink src cur false).fcEntryFree cur) src dst
          (s.entry cur).key true
        have hrest : Sweep ((((s.unlink src cur false).fcEntryFree cur).moveOscillate src dst
            (s.entry cur).key true).cache src).lru rest := by
          rw [heq]
          dsimp only
          rw [(hcaches src).1]
          exact hl.unlink false
        obtain ⟨hmoves, hloose⟩ := ih (h.moves hmove) batch (scanned + 1) hrest
        refine ⟨(hplain hmove).trans (hmono ?_ hmoves), ?_⟩
        . rw [heq]
          rfl
        . rw [hloose, heq]
          exact List.erase_cons_head ..
      next hhas =>
        obtain ⟨caches, heq, hcaches⟩ :=
          moveOscillate_eq (s.unlink src cur false) src dst (s.entry cur).key
          false
        have hdetach : Moves (Migrates s (cur :: rest)) s (s.unlink src cur false) :=
          .single (.inr ⟨cur, List.mem_cons_self, .inl rfl, rfl⟩) (.detach src cur hcur hidle)
        have hmove := hdetach.trans (hplain (moveOscillate_moves _ src dst (s.entry cur).key false))
        have hother : (s.unlink src cur false).cache dst = s.cache dst :=
          update_of_ne hne.symm _ _
        have hnew : (((s.unlink src cur false).moveOscillate src dst (s.entry cur).key false).cache
            dst).index.lookup (s.entry cur).key = none := by
          rw [heq]
          dsimp only
          rw [(hcaches dst).2, hother]
          simpa [Cache.has] using hhas
        have hself : ((s.unlink src cur false).moveOscillate src dst (s.entry cur).key false).entry
            = s.entry := by
          rw [heq]
          rfl
        have hloose' : ((s.unlink src cur false).moveOscillate src dst
          (s.entry cur).key false).loose
            = cur :: s.loose := by
          rw [heq]
          rfl
        have hrest : Sweep (((s.unlink src cur false).moveOscillate src dst (s.entry cur).key
            false).cache src).lru rest := by
          rw [heq]
          dsimp only
          rw [(hcaches src).1]
          exact hl.unlink false
        generalize (s.unlink src cur false).moveOscillate src dst (s.entry cur).key false = s₁ at *
        have hattach := hmove.tail (.attach cur) (.inr ⟨cur, List.mem_cons_self, .inr rfl, hself⟩)
          (.attach dst cur Cache.fcLruPushBack
            (by rw [hloose']; exact List.mem_cons_self) (.inl rfl)
            (by rw [hself]; exact hnew))
        have hsee := hattach.tail .plain (.inl rfl)
          (.tune dst (fun x => x.seeFileSize (s.entry cur).fileSize) (Cache.seeFileSize_same _ _))
        have hrest' : Sweep (((s₁.link dst cur Cache.fcLruPushBack).modCache dst fun x =>
            x.seeFileSize (s.entry cur).fileSize).cache src).lru rest := by
          rw [modCache_cache, update_of_ne hne]
          exact ⟨hrest.nodup, fun p hp => mem_link_lru s₁ dst (.inl rfl) src (hrest.mem p hp)⟩
        obtain ⟨hmoves, hloose⟩ := ih (h.moves hsee) (batch - 1) (scanned + 1) hrest'
        refine ⟨hsee.trans (hmono hself hmoves), ?_⟩
        rw [hloose]
        show s₁.loose.erase cur = s.loose
        rw [hloose']
        exact List.erase_cons_head ..

theorem checkLoad_moves (h : Ok s) {src dst : Nat} (hne : src ≠ dst)
    : Moves (Migrates s (s.cache src).lru) s (s.checkLoad src dst)
      ∧ (s.checkLoad src dst).loose = s.loose :=
  checkLoad.go_moves h hne _ _ _ ⟨h.nodup src, fun _ => id⟩

theorem decay_moves (h : Ok s) (hcursor : ∀ c, (s.cache c).CursorOk) (c batch : Nat)
    : Moves Plain s (s.decay c batch) := by
  induction batch generalizing s with
  | zero => exact .refl
  | succ _ ih =>
    unfold decay
    split
    . exact .refl
    next p hp =>
      have hstat := Move.stat (s := s) c p
        (fun e =>
          { e with
            accessFreq := if e.accessFreq > 1 then e.accessFreq / 2 else e.accessFreq
            totalIoLen := e.totalIoLen / 2 })
        (fun x =>
          { x with
            decayCursor := x.lruNext p
            totalCacheIo := x.totalCacheIo - (s.entry p).totalIoLen + (s.entry p).totalIoLen / 2
            totalCacheFreq := x.totalCacheFreq - (s.entry p).accessFreq
              + if (s.entry p).accessFreq > 1 then (s.entry p).accessFreq / 2
                else (s.entry p).accessFreq })
        (hcursor c p hp) ⟨rfl, rfl, rfl, rfl, rfl, rfl, rfl, rfl, rfl, rfl⟩
        ⟨rfl, .refl _, rfl, rfl, rfl, rfl, rfl, rfl, fun _ hq => .inr (Cache.mem_of_lruNext hq)⟩
      dsimp only
      rw [modEntry_entry, update_self]
      exact (Moves.single rfl hstat).trans (ih (h.move hstat) (hstat.cursor h hcursor))

theorem decayOscillations_same (x : Cache) : x.Same (decayOscillations x) := by
  have hfold : ∀ (l : List ((_ : Key) × Oscillate)) (acc : Cache × Nat), x.Same acc.1
      → x.Same (l.foldl decayOscillations.halve acc).1 := by
    intro l
    induction l with
    | nil => exact fun _ h => h
    | cons _ _ ih =>
      intro acc h
      apply ih
      unfold decayOscillations.halve
      dsimp only
      split
      . exact ⟨h.index, h.lru, h.bytes, h.dirty, h.io, h.freq, h.entries, h.cb, h.cursor⟩
      . exact ⟨h.index, h.lru, h.bytes, h.dirty, h.io, h.freq, h.entries, h.cb, h.cursor⟩
  exact hfold _ _ ⟨rfl, .refl _, rfl, rfl, rfl, rfl, rfl, rfl, fun _ => .inl⟩

theorem fileCacheTick_moves (h : Ok s) (hcursor : ∀ c, (s.cache c).CursorOk) (c : Nat)
    : Moves Plain s (s.fileCacheTick c) := by
  have hclock : Moves Plain s
      (s.modCache c fun x => fcUpdateAveragesInternal { x with clock := x.clock + 1 }) :=
    .single rfl (.tune c _ ⟨rfl, .refl _, rfl, rfl, rfl, rfl, rfl, rfl, fun _ => .inl⟩)
  unfold fileCacheTick
  dsimp only
  generalize (if (_ : UInt32) > 10000 then (500 : UInt64) else 1000) = ticks
  split
  . have hstart := hclock.tail .plain rfl (.tune c (fun x =>
        { x with
          lastDecayTick := x.clock
          decayCursor := if x.decayCursor = none then x.lru.head? else x.decayCursor })
        ⟨rfl, .refl _, rfl, rfl, rfl, rfl, rfl, rfl, ?_⟩)
    . have hdecay := fun batch =>
        hstart.trans (decay_moves (h.moves hstart) (hstart.cursor h hcursor) c batch)
      exact (hdecay _).tail .plain rfl (.tune c _ (decayOscillations_same _))
    . intro p hp
      dsimp only at hp
      split at hp
      . exact .inr (List.mem_of_mem_head? hp)
      . exact .inl hp
  . exact hclock

theorem fileCacheSetLimits_moves (s : State) (c : Nat) (softLimit hardLimit : UInt64)
    : Moves Plain s (s.fileCacheSetLimits c softLimit hardLimit) :=
  .single rfl (.tune c _ ⟨rfl, .refl _, rfl, rfl, rfl, rfl, rfl, rfl, fun _ => .inl⟩)

end State

end FC
