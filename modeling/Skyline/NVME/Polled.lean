import Mathlib

/-!
This module contains the requests to a controller without MSI-X, whose completions are polled.
-/

namespace NVME

open Function

def cmplQueSz (mqes : Nat) : Nat := min 256 (mqes + 1)

def subQueSz (mqes : Nat) : Nat := min 64 (mqes + 1)

structure CmplQueEntry where
  phase : Bool
  subQueHdrPtr : Nat
  cmdIden : Nat

/--
A submission queue, its completion queue and what the controller knows of them. Only `MSIXHandler`
writes `cmplDB`.
-/
structure Pair where
  load : Nat := 0
  tail : Nat := 0
  head : Nat := 0
  req : Nat → Option Nat := fun _ => none
  retiredCids : Nat → Bool := fun _ => false
  locked : Bool := false
  pos : Nat := 0
  phase : Bool := true
  entries : Nat → CmplQueEntry := fun _ => ⟨false, 0, 0⟩
  pending : List Nat := []
  fetched : Nat := 0
  posted : Nat := 0
  postPhase : Bool := true
  cmplDB : Nat := 0
  done : List Nat := []

variable (m n : Nat)

def tryInsertRequest (s : Pair) (r : Nat) : Option Pair :=
  if s.load + 1 > n then
    none
  else
    some { s with
      load := s.load + 1
      req := update s.req s.tail (some r)
      pending := s.pending ++ [s.tail]
      tail := if s.tail + 1 = n then 0 else s.tail + 1 }

def post (s : Pair) : Pair :=
  match s.pending with
  | [] => s
  | cid :: pending =>
    if (s.posted + 1) % m = s.cmplDB then
      s
    else
      { s with
        pending
        fetched := (s.fetched + 1) % n
        entries := update s.entries s.posted ⟨s.postPhase, (s.fetched + 1) % n, cid⟩
        posted := (s.posted + 1) % m
        postPhase := if s.posted + 1 = m then !s.postPhase else s.postPhase }

def pollCQ : Nat → Pair → Pair
  | 0, s => s
  | fuel + 1, s =>
    let entry := s.entries s.pos
    if entry.phase ≠ s.phase ∨ s.locked then
      s
    else
      let consumed := min ((entry.subQueHdrPtr + n - s.head) % n) s.load
      let s := { s with
        pos := if s.pos + 1 = m then 0 else s.pos + 1
        phase := if s.pos + 1 = m then !s.phase else s.phase
        head := entry.subQueHdrPtr
        load := s.load - consumed }
      if s.retiredCids entry.cmdIden then
        -- the loop goes on without giving the lock back
        pollCQ fuel { s with
          retiredCids := update s.retiredCids entry.cmdIden false, locked := true }
      else
        pollCQ fuel { s with done := (s.req entry.cmdIden).toList ++ s.done }

def request (s : Pair) (r : Nat) : Pair × Bool :=
  if s.locked then
    (s, false)
  else
    match tryInsertRequest n s r with
    | none => (s, false)
    | some t =>
      let t := pollCQ m n m ((post m n)^[t.pending.length] t)
      if r ∈ t.done then (t, true)
      else ({ t with retiredCids := update t.retiredCids s.tail true }, false)

/--
The queue pairs after requests to the given ones, the last of which comes first.
-/
def after (mqes : Nat) : List Nat → Nat → Pair
  | [] => fun _ => {}
  | q :: qs => update (after mqes qs) q
    (request (cmplQueSz mqes) (subQueSz mqes) (after mqes qs q) qs.length).1

def Completes (mqes : Nat) (qs : List Nat) (q : Nat) : Prop :=
  (request (cmplQueSz mqes) (subQueSz mqes) (after mqes qs q) qs.length).2 = true

structure Ready (j r : Nat) (s : Pair) : Prop where
  locked : s.locked = false
  load : s.load = 0
  tail : s.tail = j % n
  head : s.head = j % n
  fetched : s.fetched = j % n
  pending : s.pending = []
  pos : s.pos = j
  posted : s.posted = j
  phase : s.phase = true
  postPhase : s.postPhase = true
  cmplDB : s.cmplDB = 0
  fresh : ∀ i, j ≤ i → (s.entries i).phase = false
  retired : ∀ cid, s.retiredCids cid = false
  old : ∀ x ∈ s.done, x < r

structure Full (r : Nat) (s : Pair) : Prop where
  pos : s.pos = m - 1
  posted : s.posted = m - 1
  phase : s.phase = true
  cmplDB : s.cmplDB = 0
  fresh : (s.entries (m - 1)).phase = false
  old : ∀ x ∈ s.done, x < r

variable {m n} {j r : Nat} {s : Pair}

theorem wrap_eq (hn : 2 ≤ n) : (if j % n + 1 = n then 0 else j % n + 1) = (j + 1) % n := by
  have := Nat.mod_lt j (by omega : n > 0)
  rw [Nat.add_mod j 1, Nat.mod_eq_of_lt (by omega : 1 < n)]
  split
  next h => rw [h, Nat.mod_self]
  next => rw [Nat.mod_eq_of_lt (by omega : j % n + 1 < n)]

theorem consumed_eq (hn : 2 ≤ n) : ((j + 1) % n + n - j % n) % n = 1 := by
  have := Nat.mod_lt j (by omega : n > 0)
  rw [← wrap_eq hn]
  split
  next h => rw [show 0 + n - j % n = 1 by omega, Nat.mod_eq_of_lt (by omega)]
  next =>
    rw [show j % n + 1 + n - j % n = 1 + n by omega, Nat.add_mod_right, Nat.mod_eq_of_lt (by omega)]

theorem pollCQ_of_phase (fuel : Nat) (h : (s.entries s.pos).phase ≠ s.phase)
    : pollCQ m n fuel s = s := by
  cases fuel with
  | zero => rfl
  | succ => exact if_pos (.inl h)

theorem Ready.insert (h : Ready n j r s) (hn : 2 ≤ n)
    : tryInsertRequest n s r = some { s with
        load := 1
        req := update s.req (j % n) (some r)
        pending := [j % n]
        tail := (j + 1) % n } := by
  unfold tryInsertRequest
  rw [if_neg (by rw [h.load]; omega), h.load, h.pending, h.tail, wrap_eq hn]
  rfl

theorem Ready.request (h : Ready n j r s) (hj : j + 1 < m) (hn : 2 ≤ n)
    : (request m n s r).2 = true ∧ Ready n (j + 1) (r + 1) (NVME.request m n s r).1 := by
  obtain ⟨k, rfl⟩ : ∃ k, m = k + 1 := ⟨m - 1, by omega⟩
  have hlt : (j + 1) % (k + 1) = j + 1 := Nat.mod_eq_of_lt hj
  have hfetched : (j % n + 1) % n = (j + 1) % n := by simp
  have hpost : j + 1 ≠ 0 := by omega
  have hwrap : j + 1 ≠ k + 1 := by omega
  unfold NVME.request
  rw [h.locked, h.insert hn]
  simp only [Bool.false_eq_true, if_false, List.length_singleton, iterate_one]
  unfold post
  simp only [h.cmplDB, h.posted, h.fetched, h.postPhase, hlt, if_neg hpost, hfetched, if_neg hwrap]
  rw [pollCQ]
  simp only [h.pos, h.phase, h.head, h.locked, h.retired, update_self, consumed_eq hn, if_neg hwrap,
    Option.toList_some, ne_eq, not_true_eq_false, Bool.false_eq_true, or_self, if_false,
    Nat.min_self, Nat.sub_self]
  -- the entry after the new one has not been written
  rw [pollCQ_of_phase k (by simp [h.fresh (j + 1) (by omega)])]
  simp only [List.singleton_append, List.mem_cons, true_or, if_true, true_and]
  refine ⟨rfl, rfl, rfl, rfl, rfl, rfl, rfl, rfl, rfl, rfl, rfl, fun i hi => ?_,
    h.retired, fun x hx => ?_⟩
  . show (update s.entries j _ i).phase = false
    rw [update_of_ne (by omega)]
    exact h.fresh i (by omega)
  . rcases List.mem_cons.mp hx with rfl | hx
    . omega
    . exact Nat.lt_succ_of_lt (h.old x hx)

theorem Full.post (h : Full m r s) (hm : 0 < m) : NVME.post m n s = s := by
  unfold NVME.post
  split
  . rfl
  . rw [if_pos]
    rw [h.posted, h.cmplDB, Nat.sub_add_cancel hm, Nat.mod_self]

theorem Full.later (h : Full m r s) : Full m (r + 1) s :=
  { h with old := fun x hx => Nat.lt_succ_of_lt (h.old x hx) }

theorem Full.request (h : Full m r s) (hm : 0 < m)
    : (request m n s r).2 = false ∧ Full m (r + 1) (NVME.request m n s r).1 := by
  unfold NVME.request
  split
  . exact ⟨rfl, h.later⟩
  . split
    . exact ⟨rfl, h.later⟩
    . next t ht =>
      have hfull : Full m r t := by
        unfold tryInsertRequest at ht
        split at ht
        . cases ht
        . cases ht
          exact ⟨h.pos, h.posted, h.phase, h.cmplDB, h.fresh, h.old⟩
      have hserve : (NVME.post m n)^[t.pending.length] t = t := iterate_fixed (hfull.post hm) _
      have hpoll : pollCQ m n m t = t := by
        apply pollCQ_of_phase
        rw [hfull.pos, hfull.fresh, hfull.phase]
        decide
      have hnew : r ∉ t.done := fun hr => Nat.lt_irrefl r (hfull.old r hr)
      dsimp only
      rw [hserve, hpoll, if_neg hnew]
      exact ⟨rfl, hfull.pos, hfull.posted, hfull.phase, hfull.cmplDB, hfull.fresh, hfull.later.old⟩

theorem Ready.later (h : Ready n j r s) : Ready n j (r + 1) s :=
  { h with old := fun x hx => Nat.lt_succ_of_lt (h.old x hx) }

theorem Ready.full (h : Ready n (m - 1) r s) : Full m r s :=
  ⟨h.pos, h.posted, h.phase, h.cmplDB, h.fresh _ (Nat.le_refl _), h.old⟩

def Used (m n j r : Nat) (s : Pair) : Prop := j < m - 1 ∧ Ready n j r s ∨ m - 1 ≤ j ∧ Full m r s

theorem Ready.used (h : Ready n j r s) (hj : j ≤ m - 1) : Used m n j r s := by
  rcases Nat.lt_or_eq_of_le hj with hlt | rfl
  . exact .inl ⟨hlt, h⟩
  . exact .inr ⟨Nat.le_refl _, h.full⟩

theorem Used.request (h : Used m n j r s) (hm : 0 < m) (hn : 1 < m → 2 ≤ n)
    : ((request m n s r).2 = true ↔ j < m - 1)
      ∧ Used m n (j + 1) (r + 1) (NVME.request m n s r).1 := by
  rcases h with ⟨hj, h⟩ | ⟨hj, h⟩
  . have hlt : j + 1 < m := by omega
    obtain ⟨hdone, hready⟩ := h.request hlt (hn (by omega))
    exact ⟨iff_of_true hdone hj, hready.used (by omega)⟩
  . obtain ⟨hdone, hfull⟩ := h.request (n := n) hm
    refine ⟨iff_of_false (by simp [hdone]) (by omega), .inr ⟨by omega, hfull⟩⟩

theorem sizes (mqes : Nat) : 0 < cmplQueSz mqes ∧ (1 < cmplQueSz mqes → 2 ≤ subQueSz mqes) := by
  unfold cmplQueSz subQueSz
  omega

theorem used_after (mqes : Nat) (qs : List Nat) (q : Nat)
    : Used (cmplQueSz mqes) (subQueSz mqes) (qs.count q) qs.length (after mqes qs q) := by
  induction qs with
  | nil =>
    apply Ready.used
    . have hzero : 0 = 0 % subQueSz mqes := (Nat.zero_mod _).symm
      exact ⟨rfl, rfl, hzero, hzero, hzero, rfl, rfl, rfl, rfl, rfl, rfl, fun _ _ => rfl,
        fun _ => rfl, nofun⟩
    . exact Nat.zero_le _
  | cons q' _ ih =>
    unfold after
    by_cases hq : q = q'
    . subst hq
      rw [update_self, List.count_cons_self]
      exact (ih.request (sizes mqes).1 (sizes mqes).2).2
    . rw [update_of_ne hq, List.count_cons_of_ne (Ne.symm hq)]
      exact ih.imp (And.imp_right Ready.later) (And.imp_right Full.later)

/--
A request completes if and only if fewer were made to its queue pair before it than the completion
queue can hold.
-/
theorem polled_completes_iff (mqes : Nat) (qs : List Nat) (q : Nat)
    : Completes mqes qs q ↔ qs.count q < cmplQueSz mqes - 1 :=
  ((used_after mqes qs q).request (sizes mqes).1 (sizes mqes).2).1

theorem polled_timesOut : Completes 1 [] 1 ∧ ¬ Completes 1 [1] 1 := by
  unfold Completes
  decide +kernel

end NVME
