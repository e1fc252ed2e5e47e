import Skyline.Timer.Basic
import Skyline.Places.Basic

/-!
This module contains when the timers of the wheel are woken.
-/

namespace Timer

open Function

variable {s s' : State} {x y : Timer} {hand : List Timer} {f : Level → Nat} {l : Level}
variable {i t now expires : Nat}

theorem and_tvMask (n : Nat) : n &&& tvMask = n % 64 := Nat.and_two_pow_sub_one_eq_mod n 6

theorem shiftRight_tvBits (n : Nat) : n >>> tvBits = n / 64 := Nat.shiftRight_eq_div_pow n 6

theorem shiftRight_two_tvBits (n : Nat) : n >>> (2 * tvBits) = n / 4096 :=
  Nat.shiftRight_eq_div_pow n 12

theorem bucketOf_eq
    : bucketOf expires now
        = if expires - now < 64 then (.tv1, expires % 64)
          else if expires - now < 4096 then (.tv2, expires / 64 % 64)
          else (.tv3, expires / 4096 % 64) := by
  unfold bucketOf
  rw [and_tvMask, and_tvMask, and_tvMask, shiftRight_tvBits, shiftRight_two_tvBits]
  rfl

def Placed (n : Nat) (l : Level) (i : Nat) (x : Timer) : Prop :=
  match l with
  | .tv1 => i = x.wakeup % 64 ∧ n < x.wakeup ∧ x.wakeup ≤ n + 64
  | .tv2 => i = x.wakeup / 64 % 64 ∧ n / 64 < x.wakeup / 64
  | .tv3 => i = x.wakeup / 4096 % 64 ∧ n / 4096 < x.wakeup / 4096

variable {n : Nat} {g : Level → Nat}

theorem Placed.lt (h : Placed n l i x) : n < x.wakeup := by
  cases l <;> simp only [Placed] at h <;> omega

theorem placed_bucketOf (hlt : now < x.wakeup) (hf : ∀ l, f l ≤ now)
    (hnear : x.wakeup - now < 64 → x.wakeup ≤ f .tv1 + 64)
    : Placed (f (bucketOf x.wakeup now).1) (bucketOf x.wakeup now).1
      (bucketOf x.wakeup now).2 x := by
  have h1 := hf .tv1
  have h2 := hf .tv2
  have h3 := hf .tv3
  rw [bucketOf_eq]
  split
  next hd =>
    refine ⟨rfl, ?_, hnear hd⟩
    exact Nat.lt_of_le_of_lt h1 hlt
  next hd =>
    split
    . refine ⟨rfl, ?_⟩
      show f .tv2 / 64 < x.wakeup / 64
      omega
    . refine ⟨rfl, ?_⟩
      show f .tv3 / 4096 < x.wakeup / 4096
      omega

inductive Place where
  | bucket (l : Level) (i : Nat)
  | removed
  | woken
deriving DecidableEq

def State.around (s : State) (hand : List Timer) : Option Place → List Timer
  | none => hand
  | some (.bucket l i) => s.bucket l i
  | some .removed => s.removed
  | some .woken => s.woken.map Prod.fst

def State.Waiting (s : State) (hand : List Timer) (x : Timer) : Prop :=
  (∃ l i, x ∈ s.bucket l i) ∨ x ∈ hand

structure Inv (s : State) (f : Level → Nat) (hand : List Timer) : Prop where
  placed : ∀ l i x, x ∈ s.bucket l i → Placed (f l) l i x
  apart : Apart (s.around hand)
  total : ∀ x, (∃ pl, x ∈ s.around hand pl) ↔ x ∈ s.inserted
  woken : ∀ w ∈ s.woken, w.2 = w.1.wakeup ∧ w.1.wakeup ≤ s.last
  owner : ∀ l i x, x ∈ s.bucket l i → s.timerBucket x.thread = some (l, i)
  sleeping : ∀ x, s.Waiting hand x → s.sleeping x.thread = true
  threads : ∀ x y, s.Waiting hand x → s.Waiting hand y → x.thread = y.thread → x = y
  ids : ∀ x ∈ s.inserted, x.id < s.inserted.length
  clock : s.last ≤ s.clock

theorem setBucket_bucket (l' : Level) (i' : Nat) (ts : List Timer)
    : (s.setBucket l i ts).bucket l' i' = if l' = l ∧ i' = i then ts else s.bucket l' i' := by
  simp only [State.setBucket, update_apply]
  by_cases hl : l' = l
  . by_cases hi : i' = i <;> simp [hl, hi]
  . simp [hl]

theorem setTimerBucket_timerBucket (b : Option (Level × Nat)) (t' : Nat)
    : (s.setTimerBucket t b).timerBucket t' = if t' = t then b else s.timerBucket t' := by
  simp [State.setTimerBucket, update_apply]

theorem around_setBucket (ts hand' : List Timer) {k : Option Place} (hk : k ≠ some (.bucket l i))
    (hnone : k ≠ none)
    : (s.setBucket l i ts).around hand' k = s.around hand k := by
  rcases k with _ | ⟨l', i'⟩ | _ | _
  . exact absurd rfl hnone
  . have hne : ¬ (l' = l ∧ i' = i) := by
      intro heq
      rw [heq.1, heq.2] at hk
      exact hk rfl
    simp only [State.around, setBucket_bucket, hne, if_false]
  . rfl
  . rfl

theorem Inv.waiting_of_cons (hx : s.Waiting hand x) : s.Waiting (y :: hand) x :=
  hx.imp id (List.mem_cons_of_mem y)

namespace Inv

theorem thread_ne (h : Inv s f (x :: hand)) (hy : s.Waiting hand y) : y.thread ≠ x.thread := by
  intro heq
  have hwx : s.Waiting (x :: hand) x := .inr List.mem_cons_self
  have hyx := h.threads y x (waiting_of_cons hy) hwx heq
  rw [hyx] at hy
  rcases hy with ⟨l, i, hin⟩ | hin
  . cases h.apart.eq_of_mem none (some (.bucket l i)) x List.mem_cons_self hin
  . exact (List.nodup_cons.mp (h.apart.nodup none)).1 hin

theorem wakeup (h : Inv s f (x :: hand)) (hx : x.wakeup = s.last)
    : Inv (wakeupTimerThread s x) f hand := by
  have hsleep : s.sleeping x.thread = true := h.sleeping x (.inr List.mem_cons_self)
  have heq : wakeupTimerThread s x
      = { s.setTimerBucket x.thread none with
          sleeping := update s.sleeping x.thread false
          woken := s.woken ++ [(x, s.last)] } := by
    unfold wakeupTimerThread
    simp only
    rw [if_pos]
    . rfl
    . exact hsleep
  have hmoved : Moved (s.around (x :: hand)) ((wakeupTimerThread s x).around hand) x none
      (some .woken) := by
    rw [heq]
    refine ⟨nofun, List.Perm.refl _, ?_, ?_⟩
    . simp only [State.around, List.map_append, List.map_cons, List.map_nil]
      exact List.perm_append_singleton x _
    . intro k hk hk'
      rcases k with _ | _ | _ | _
      . exact absurd rfl hk
      . rfl
      . rfl
      . exact absurd rfl hk'
  refine ⟨?_, hmoved.apart h.apart, ?_, ?_, ?_, ?_, ?_, ?_, ?_⟩
  . rw [heq]
    exact h.placed
  . intro y
    rw [hmoved.exists_mem_iff, h.total, heq]
    rfl
  . rw [heq]
    intro w hw
    cases List.mem_append.mp hw with
    | inl hin => exact h.woken w hin
    | inr hin =>
      rw [List.mem_singleton.mp hin]
      exact ⟨hx.symm, Nat.le_of_eq hx⟩
  . rw [heq]
    intro l i y hy
    have hne := h.thread_ne (.inl ⟨l, i, hy⟩)
    show update s.timerBucket x.thread none y.thread = _
    rw [update_of_ne hne]
    exact h.owner l i y hy
  . rw [heq]
    intro y hy
    have hne := h.thread_ne hy
    show update s.sleeping x.thread false y.thread = true
    rw [update_of_ne hne]
    exact h.sleeping y (waiting_of_cons hy)
  . rw [heq]
    exact fun y z hy hz => h.threads y z (waiting_of_cons hy) (waiting_of_cons hz)
  . rw [heq]
    exact h.ids
  . rw [heq]
    exact h.clock

theorem timerAdd (h : Inv s f (x :: hand))
    (hplaced : Placed (f (bucketOf x.wakeup now).1) (bucketOf x.wakeup now).1
      (bucketOf x.wakeup now).2 x)
    : Inv (timerAdd s x now) f hand := by
  unfold Timer.timerAdd
  generalize hb : bucketOf x.wakeup now = b at hplaced
  obtain ⟨l, i⟩ := b
  simp only at hplaced ⊢
  have hmoved : Moved (s.around (x :: hand))
      (((s.setBucket l i (x :: s.bucket l i)).setTimerBucket x.thread (some (l, i))).around hand) x
      none
      (some (.bucket l i)) := by
    refine ⟨nofun, List.Perm.refl _, ?_, ?_⟩
    . show ((s.setBucket l i (x :: s.bucket l i)).bucket l i).Perm _
      rw [setBucket_bucket, if_pos ⟨rfl, rfl⟩]
      exact List.Perm.refl _
    . intro k hk hk'
      exact around_setBucket (x :: s.bucket l i) hand hk' hk
  -- what waits now waited before
  have hwait : ∀ y, ((s.setBucket l i (x :: s.bucket l i)).setTimerBucket x.thread
      (some (l, i))).Waiting hand y → s.Waiting (x :: hand) y := by
    rintro y (⟨l', i', hy⟩ | hy)
    . change y ∈ (s.setBucket l i (x :: s.bucket l i)).bucket l' i' at hy
      rw [setBucket_bucket] at hy
      split at hy
      next =>
        cases List.mem_cons.mp hy with
        | inl heq => exact .inr (List.mem_cons.mpr (.inl heq))
        | inr hin => exact .inl ⟨l, i, hin⟩
      next => exact .inl ⟨l', i', hy⟩
    . exact .inr (List.mem_cons_of_mem x hy)
  refine ⟨?_, hmoved.apart h.apart, ?_, h.woken, ?_, ?_, ?_, h.ids, h.clock⟩
  . intro l' i' y hy
    change y ∈ (s.setBucket l i (x :: s.bucket l i)).bucket l' i' at hy
    rw [setBucket_bucket] at hy
    split at hy
    next heq =>
      rw [heq.1, heq.2]
      cases List.mem_cons.mp hy with
      | inl hyx =>
        rw [hyx]
        exact hplaced
      | inr hin => exact h.placed l i y hin
    next => exact h.placed l' i' y hy
  . intro y
    rw [hmoved.exists_mem_iff, h.total]
    rfl
  . intro l' i' y hy
    change y ∈ (s.setBucket l i (x :: s.bucket l i)).bucket l' i' at hy
    rw [setTimerBucket_timerBucket]
    rw [setBucket_bucket] at hy
    split at hy
    next heq =>
      rw [heq.1, heq.2]
      cases List.mem_cons.mp hy with
      | inl hyx => rw [hyx, if_pos rfl]
      | inr hin =>
        rw [if_neg (h.thread_ne (.inl ⟨l, i, hin⟩))]
        exact h.owner l i y hin
    next =>
      rw [if_neg (h.thread_ne (.inl ⟨l', i', hy⟩))]
      exact h.owner l' i' y hy
  . exact fun y hy => h.sleeping y (hwait y hy)
  . exact fun y z hy hz => h.threads y z (hwait y hy) (hwait z hz)

theorem take (h : Inv s f [])
    (hg : ∀ l' i' x, ¬ (l' = l ∧ i' = i) → Placed (f l') l' i' x → Placed (g l') l' i' x)
    : Inv (s.setBucket l i []) g (s.bucket l i) := by
  have hold : ∀ l' i' x, x ∈ (s.setBucket l i []).bucket l' i' →
      ¬ (l' = l ∧ i' = i) ∧ x ∈ s.bucket l' i' := by
    intro l' i' x hx
    rw [setBucket_bucket] at hx
    split at hx
    next => cases hx
    next hne => exact ⟨hne, hx⟩
  have hwait : ∀ x, (s.setBucket l i []).Waiting (s.bucket l i) x → s.Waiting [] x := by
    rintro x (⟨l', i', hx⟩ | hx)
    . exact .inl ⟨l', i', (hold l' i' x hx).2⟩
    . exact .inl ⟨l, i, hx⟩
  have hrel : Relocated (s.around []) ((s.setBucket l i []).around (s.bucket l i))
      (some (.bucket l i)) none := by
    refine ⟨rfl, ?_, rfl, fun k hk hk' => around_setBucket [] _ hk hk'⟩
    show (s.setBucket l i []).bucket l i = []
    rw [setBucket_bucket, if_pos ⟨rfl, rfl⟩]
  refine ⟨?_, hrel.apart h.apart, ?_, h.woken, ?_, ?_, ?_, h.ids, h.clock⟩
  . intro l' i' x hx
    obtain ⟨hne, hin⟩ := hold l' i' x hx
    exact hg l' i' x hne (h.placed l' i' x hin)
  . intro x
    rw [hrel.exists_mem_iff]
    exact h.total x
  . exact fun l' i' x hx => h.owner l' i' x (hold l' i' x hx).2
  . exact fun x hx => h.sleeping x (hwait x hx)
  . exact fun x y hx hy => h.threads x y (hwait x hx) (hwait y hy)

theorem clear (h : Inv s f (x :: hand)) : Inv (s.setTimerBucket x.thread none) f (x :: hand) := by
  refine ⟨h.placed, h.apart, h.total, h.woken, ?_, h.sleeping, h.threads, h.ids, h.clock⟩
  intro l i y hy
  rw [setTimerBucket_timerBucket, if_neg (h.thread_ne (.inl ⟨l, i, hy⟩))]
  exact h.owner l i y hy

theorem floor (h : Inv s f hand)
    (hg : ∀ l i x, Placed (f l) l i x → Placed (g l) l i x)
    : Inv s g hand :=
  { h with placed := fun l i x hx => hg l i x (h.placed l i x hx) }

end Inv

theorem last_wakeupTimerThread : (wakeupTimerThread s x).last = s.last := by
  unfold wakeupTimerThread
  simp only
  split <;> rfl

theorem last_cascadeOne : (cascadeOne now s x).last = s.last := by
  unfold cascadeOne
  split
  . exact last_wakeupTimerThread
  . rfl

theorem Inv.foldl_wakeup (h : Inv s f hand) (hhand : ∀ x ∈ hand, x.wakeup = s.last)
    : Inv (hand.foldl wakeupTimerThread s) f []
      ∧ (hand.foldl wakeupTimerThread s).last = s.last := by
  induction hand generalizing s with
  | nil => exact ⟨h, rfl⟩
  | cons x _ ih =>
    have hw := h.wakeup (hhand x List.mem_cons_self)
    have hlast : (wakeupTimerThread s x).last = s.last := last_wakeupTimerThread
    obtain ⟨hinv, heq⟩ := ih hw (by
      intro y hy
      rw [hlast]
      exact hhand y (List.mem_cons_of_mem x hy))
    exact ⟨hinv, heq.trans hlast⟩

theorem Inv.foldl_cascade (h : Inv s f hand) (hhand : ∀ x ∈ hand, s.last ≤ x.wakeup)
    (hf : ∀ l, f l ≤ s.last) (htv1 : f .tv1 = s.last)
    : Inv (hand.foldl (cascadeOne s.last) s) f []
        ∧ (hand.foldl (cascadeOne s.last) s).last = s.last := by
  induction hand generalizing s with
  | nil => exact ⟨h, rfl⟩
  | cons x rest ih =>
    have hge := hhand x List.mem_cons_self
    have hone : Inv (cascadeOne s.last s x) f rest := by
      unfold cascadeOne
      split
      next hle => exact h.wakeup (Nat.le_antisymm hle hge)
      next hgt =>
        apply h.clear.timerAdd
        apply placed_bucketOf (Nat.lt_of_not_le hgt) hf
        omega
    have hlast : (cascadeOne s.last s x).last = s.last := last_cascadeOne
    obtain ⟨hinv, heq⟩ := ih hone (by
      intro y hy
      rw [hlast]
      exact hhand y (List.mem_cons_of_mem x hy)) (by rwa [hlast]) (by rwa [hlast])
    rw [hlast] at hinv heq
    exact ⟨hinv, heq⟩

def floors (a b c : Nat) : Level → Nat
  | .tv1 => a
  | .tv2 => b
  | .tv3 => c

theorem Inv.runTv1 (h : Inv s (floors n n n) []) (hlast : s.last = n + 1)
    : Inv (runTv1 s) (floors (n + 1) n n) [] ∧ (runTv1 s).last = s.last := by
  unfold Timer.runTv1
  simp only [and_tvMask]
  apply Inv.foldl_wakeup
  . apply h.take
    intro l i x hne hx
    cases l with
    | tv1 =>
      simp only [true_and, hlast] at hne
      simp only [Placed, floors] at hx ⊢
      omega
    | tv2 => exact hx
    | tv3 => exact hx
  . intro x hx
    have hx := h.placed _ _ x hx
    show x.wakeup = s.last
    simp only [Placed, floors, hlast] at hx ⊢
    omega

theorem Inv.runTv3 (h : Inv s (floors (n + 1) (n + 1) n) []) (hlast : s.last = n + 1)
    (htick : (n + 1) % 64 = 0)
    : Inv (runTv3 s) (floors (n + 1) (n + 1) (n + 1)) [] ∧ (runTv3 s).last = s.last := by
  unfold Timer.runTv3
  simp only [and_tvMask, shiftRight_tvBits, shiftRight_two_tvBits]
  split
  next hzero =>
    rw [hlast] at hzero
    unfold timerCascade
    have htake : Inv (s.setBucket .tv3 (s.last / 4096 % 64) []) (floors (n + 1) (n + 1) (n + 1))
        (s.bucket .tv3 (s.last / 4096 % 64)) := by
      apply h.take
      intro l i x hne hx
      cases l with
      | tv1 => exact hx
      | tv2 => exact hx
      | tv3 =>
        simp only [true_and, hlast] at hne
        simp only [Placed, floors] at hx ⊢
        omega
    apply htake.foldl_cascade
    . intro x hx
      have hx := h.placed _ _ x hx
      show s.last ≤ x.wakeup
      simp only [Placed, floors, hlast] at hx ⊢
      omega
    . intro l
      show _ ≤ s.last
      rw [hlast]
      cases l <;> exact Nat.le_refl _
    . exact hlast.symm
  next hnot =>
    rw [hlast] at hnot
    refine ⟨h.floor ?_, rfl⟩
    intro l i x hx
    cases l with
    | tv1 => exact hx
    | tv2 => exact hx
    | tv3 =>
      simp only [Placed, floors] at hx ⊢
      omega

theorem Inv.runTv2 (h : Inv s (floors (n + 1) n n) []) (hlast : s.last = n + 1)
    : Inv (runTv2 s) (floors (n + 1) (n + 1) (n + 1)) [] ∧ (runTv2 s).last = s.last := by
  unfold Timer.runTv2
  simp only [and_tvMask, shiftRight_tvBits]
  split
  next hzero =>
    rw [hlast] at hzero
    have htake : Inv (s.setBucket .tv2 (s.last / 64 % 64) []) (floors (n + 1) (n + 1) n)
        (s.bucket .tv2 (s.last / 64 % 64)) := by
      apply h.take
      intro l i x hne hx
      cases l with
      | tv1 => exact hx
      | tv2 =>
        simp only [true_and, hlast] at hne
        simp only [Placed, floors] at hx ⊢
        omega
      | tv3 => exact hx
    have hcascade : Inv (timerCascade s .tv2 (s.last / 64 % 64) s.last)
          (floors (n + 1) (n + 1) n) []
        ∧ (timerCascade s .tv2 (s.last / 64 % 64) s.last).last = s.last := by
      apply htake.foldl_cascade
      . intro x hx
        have hx := h.placed _ _ x hx
        show s.last ≤ x.wakeup
        simp only [Placed, floors, hlast] at hx ⊢
        omega
      . intro l
        show _ ≤ s.last
        rw [hlast]
        cases l <;> simp [floors]
      . exact hlast.symm
    obtain ⟨hinv, heq⟩ := hcascade
    obtain ⟨hinv3, heq3⟩ := hinv.runTv3 (heq.trans hlast) hzero
    exact ⟨hinv3, heq3.trans heq⟩
  next hnot =>
    rw [hlast] at hnot
    refine ⟨h.floor ?_, rfl⟩
    intro l i x hx
    cases l with
    | tv1 => exact hx
    | tv2 =>
      simp only [Placed, floors] at hx ⊢
      omega
    | tv3 =>
      simp only [Placed, floors] at hx ⊢
      omega

abbrev Ok (s : State) : Prop := Inv s (floors s.last s.last s.last) []

theorem clock_wakeupTimerThread : (wakeupTimerThread s x).clock = s.clock := by
  unfold wakeupTimerThread
  simp only
  split <;> rfl

theorem clock_foldl (g : State → Timer → State) (hg : ∀ s x, (g s x).clock = s.clock)
    (ts : List Timer)
    : (ts.foldl g s).clock = s.clock := by
  induction ts generalizing s with
  | nil => rfl
  | cons x _ ih => exact ih.trans (hg s x)

theorem clock_timerCascade : (timerCascade s l i now).clock = s.clock := by
  apply clock_foldl
  intro s x
  unfold cascadeOne
  split
  . exact clock_wakeupTimerThread
  . rfl

theorem clock_processTick : (processTick s).clock = s.clock := by
  have h1 : (runTv1 { s with last := s.last + 1 }).clock = s.clock :=
    clock_foldl _ (fun s x => clock_wakeupTimerThread) _
  have h3 : ∀ s : State, (runTv3 s).clock = s.clock := by
    intro s
    unfold runTv3
    split
    . exact clock_timerCascade
    . rfl
  unfold processTick runTv2
  split
  . rw [h3, clock_timerCascade, h1]
  . exact h1

theorem Ok.processTick (h : Ok s) (hlt : s.last < s.clock)
    : Ok (processTick s) ∧ (processTick s).last = s.last + 1 := by
  have hnext : Inv { s with last := s.last + 1 } (floors s.last s.last s.last) [] := by
    refine { h with woken := ?_, clock := hlt }
    intro w hw
    have := h.woken w hw
    exact ⟨this.1, Nat.le_succ_of_le this.2⟩
  obtain ⟨h1, hlast1⟩ := hnext.runTv1 rfl
  obtain ⟨h2, hlast2⟩ := h1.runTv2 hlast1
  have hlast : (Timer.processTick s).last = s.last + 1 := hlast2.trans hlast1
  refine ⟨?_, hlast⟩
  unfold Ok
  rw [hlast]
  exact h2

theorem Ok.processTicks (h : Ok s) (hn : s.last + n ≤ s.clock) : Ok (processTicks n s) := by
  induction n generalizing s with
  | zero => exact h
  | succ _ ih =>
    obtain ⟨hok, hlast⟩ := h.processTick (by omega)
    apply ih hok
    rw [hlast, clock_processTick]
    omega

theorem Ok.tick (h : Ok s) : Ok (tick s) := by
  apply h.processTicks
  have := h.clock
  omega

theorem Ok.timerRemove (h : Ok s) : Ok (timerRemove s t) := by
  unfold Timer.timerRemove
  split
  next => exact h
  next l i hbucket =>
    split
    next hnone =>
      -- no timer of this thread is in a bucket
      refine { h with owner := ?_ }
      intro l' i' y hy
      rw [setTimerBucket_timerBucket]
      split
      next heq =>
        have howner := h.owner l' i' y hy
        rw [heq, hbucket] at howner
        cases howner
        have := List.find?_eq_none.mp hnone y hy
        simp [heq] at this
      next => exact h.owner l' i' y hy
    next x hfind =>
      have hx : x ∈ s.bucket l i := List.mem_of_find?_eq_some hfind
      have hthread : x.thread = t := by simpa using List.find?_some hfind
      have hmem : ∀ l' i' y, y ∈ (s.setBucket l i ((s.bucket l i).erase x)).bucket l' i' →
          y ∈ s.bucket l' i' ∧ y ≠ x := by
        intro l' i' y hy
        rw [setBucket_bucket] at hy
        have hnodup : (s.bucket l i).Nodup := h.apart.nodup (some (.bucket l i))
        split at hy
        next heq =>
          rw [heq.1, heq.2]
          exact (hnodup.mem_erase_iff.mp hy).symm
        next hne =>
          refine ⟨hy, ?_⟩
          intro hyx
          rw [hyx] at hy
          have heq := h.apart.eq_of_mem (some (.bucket l' i')) (some (.bucket l i)) x hy hx
          simp only [Option.some.injEq, Place.bucket.injEq] at heq
          exact hne heq
      have hwait : ∀ y, (s.setBucket l i ((s.bucket l i).erase x)).Waiting [] y
          → s.Waiting [] y := by
        rintro y (⟨l', i', hy⟩ | hy)
        . exact .inl ⟨l', i', (hmem l' i' y hy).1⟩
        . cases hy
      have hmoved : Moved (s.around [])
          (({ (s.setBucket l i ((s.bucket l i).erase x)).setTimerBucket t none with
            removed := x :: s.removed } : State).around []) x (some (.bucket l i))
              (some .removed) := by
        refine ⟨nofun, ?_, List.Perm.refl _, ?_⟩
        . show (s.bucket l i).Perm (x :: (s.setBucket l i ((s.bucket l i).erase x)).bucket l i)
          rw [setBucket_bucket, if_pos ⟨rfl, rfl⟩]
          exact List.perm_cons_erase hx
        . intro k hk hk'
          rcases k with _ | ⟨l', i'⟩ | _ | _
          . rfl
          . exact around_setBucket ((s.bucket l i).erase x) [] hk nofun
          . exact absurd rfl hk'
          . rfl
      refine ⟨?_, hmoved.apart h.apart, ?_, h.woken, ?_, ?_, ?_, h.ids, h.clock⟩
      . exact fun l' i' y hy => h.placed l' i' y (hmem l' i' y hy).1
      . intro y
        rw [hmoved.exists_mem_iff, h.total]
        rfl
      . intro l' i' y hy
        obtain ⟨hin, hne⟩ := hmem l' i' y hy
        show update s.timerBucket t none y.thread = _
        rw [update_of_ne]
        . exact h.owner l' i' y hin
        . intro heq
          exact hne (h.threads y x (.inl ⟨l', i', hin⟩) (.inl ⟨l, i, hx⟩) (heq.trans hthread.symm))
      . exact fun y hy => h.sleeping y (hwait y hy)
      . exact fun y z hy hz => h.threads y z (hwait y hy) (hwait z hz)

/--
A thread goes to sleep only if it is not in the wheel, and a timer comes to the first level only if
the wheel has not fallen behind so far that the bucket comes up before.
-/
def Timely (s : State) : Event → Prop
  | .sleep t chunk => s.timerBucket t = none ∧ (chunk < tvSize → s.clock + chunk ≤ s.last + tvSize)
  | _ => True

instance (s : State) (e : Event) : Decidable (Timely s e) := by
  cases e <;> simp only [Timely] <;> infer_instance

theorem Ok.sleep {chunk : Nat} (h : Ok s) (hpos : 0 < chunk) (hfree : s.timerBucket t = none)
    (hnear : chunk < 64 → s.clock + chunk ≤ s.last + 64)
    : Ok (sleep s t chunk) := by
  -- the new timer is in the hand first
  have hhand : Inv { s with
      sleeping := update s.sleeping t true
      inserted := ⟨t, s.clock + chunk, s.inserted.length⟩ :: s.inserted }
      (floors s.last s.last s.last) [⟨t, s.clock + chunk, s.inserted.length⟩] := by
    have hnew : ∀ pl, (⟨t, s.clock + chunk, s.inserted.length⟩ : Timer) ∉ s.around [] pl := by
      intro pl hin
      have := h.ids _ ((h.total _).mp ⟨pl, hin⟩)
      simp at this
    have hthread : ∀ l i y, y ∈ s.bucket l i → y.thread ≠ t := by
      intro l i y hy heq
      have := h.owner l i y hy
      rw [heq, hfree] at this
      cases this
    refine ⟨h.placed, ?_, ?_, h.woken, h.owner, ?_, ?_, ?_, h.clock⟩
    . apply h.apart.add (j := none) (List.nodup_singleton _) _ rfl
      . rintro (_ | ⟨l, i⟩ | _ | _) hk
        . exact absurd rfl hk
        . rfl
        . rfl
        . rfl
      . intro a ha
        rw [List.mem_singleton.mp ha]
        exact hnew
    . intro y
      rw [List.mem_cons, ← h.total y]
      constructor
      . rintro ⟨_ | ⟨l, i⟩ | _ | _, hy⟩
        . exact .inl (List.mem_singleton.mp hy)
        . exact .inr ⟨some (.bucket l i), hy⟩
        . exact .inr ⟨some .removed, hy⟩
        . exact .inr ⟨some .woken, hy⟩
      . rintro (heq | ⟨_ | ⟨l, i⟩ | _ | _, hy⟩)
        . exact ⟨none, List.mem_singleton.mpr heq⟩
        . cases hy
        . exact ⟨some (.bucket l i), hy⟩
        . exact ⟨some .removed, hy⟩
        . exact ⟨some .woken, hy⟩
    . rintro y (⟨l, i, hy⟩ | hy)
      . show update s.sleeping t true y.thread = true
        rw [update_of_ne (hthread l i y hy)]
        exact h.sleeping y (.inl ⟨l, i, hy⟩)
      . rw [List.mem_singleton.mp hy]
        exact update_self t true s.sleeping
    . rintro y z (⟨l, i, hy⟩ | hy) (⟨l', i', hz⟩ | hz) heq
      . exact h.threads y z (.inl ⟨l, i, hy⟩) (.inl ⟨l', i', hz⟩) heq
      . rw [List.mem_singleton.mp hz] at heq
        exact absurd heq (hthread l i y hy)
      . rw [List.mem_singleton.mp hy] at heq
        exact absurd heq.symm (hthread l' i' z hz)
      . rw [List.mem_singleton.mp hy, List.mem_singleton.mp hz]
    . intro y hy
      cases List.mem_cons.mp hy with
      | inl heq => simp [heq]
      | inr hin => exact Nat.lt_succ_of_lt (h.ids y hin)
  apply hhand.timerAdd
  have hclock := h.clock
  apply placed_bucketOf
  . show s.clock < s.clock + chunk
    omega
  . intro l
    cases l <;> exact hclock
  . intro hlt
    apply hnear
    simp only at hlt
    omega

theorem ok_init : Ok init := by
  have haround : ∀ pl, init.around [] pl = [] := by
    rintro (_ | _ | _ | _) <;> rfl
  have hwait : ∀ x, ¬ init.Waiting [] x := by
    rintro x (⟨l, i, hx⟩ | hx)
    . cases hx
    . cases hx
  refine ⟨nofun, ⟨?_, ?_⟩, ?_, nofun, nofun, ?_, ?_, nofun, Nat.le_refl _⟩
  . simp [haround]
  . simp [haround]
  . intro x
    have hins : init.inserted = [] := rfl
    simp [haround, hins]
  . exact fun x hx => absurd hx (hwait x)
  . exact fun x y hx => absurd hx (hwait x)

theorem Ok.step {e : Event} (h : Ok s) (htimely : Timely s e) (hs : step s e = some s')
    : Ok s' := by
  cases e with
  | clock =>
    cases hs
    exact { h with clock := Nat.le_add_right_of_le h.clock }
  | sleep =>
    simp only [Timer.step, Option.ite_none_right_eq_some, Option.some.injEq] at hs
    obtain ⟨hchunk, rfl⟩ := hs
    exact h.sleep hchunk.1 htimely.1 htimely.2
  | remove =>
    cases hs
    exact h.timerRemove
  | tick =>
    cases hs
    exact h.tick

/--
Every timer that was inserted and not removed has been woken once, while the tick of its expiry was
processed, or its expiry is still to come and it has not been woken.
-/
def Punctual (s : State) : Prop :=
  ∀ x ∈ s.inserted, x ∉ s.removed →
    s.woken.filter (fun w => w.1 = x) = if x.wakeup ≤ s.last then [(x, x.wakeup)] else []

theorem Ok.punctual (h : Ok s) : Punctual s := by
  intro x hx hremoved
  obtain ⟨pl, hpl⟩ := (h.total x).mpr hx
  have hnodup : (s.woken.map Prod.fst).Nodup := h.apart.nodup (some .woken)
  split
  next hle =>
    -- the buckets hold only timers to come, so it has been woken
    have hin : x ∈ s.woken.map Prod.fst := by
      rcases pl with _ | ⟨l, i⟩ | _ | _
      . cases hpl
      . have hlt := (h.placed l i x hpl).lt
        have hfloor : floors s.last s.last s.last l = s.last := by cases l <;> rfl
        omega
      . exact absurd hpl hremoved
      . exact hpl
    obtain ⟨w, hw, rfl⟩ := List.mem_map.mp hin
    have hpair : w = (w.1, w.1.wakeup) := Prod.ext rfl (h.woken w hw).1
    have hall : ∀ v ∈ s.woken, v.1 = w.1 → v = w := fun v hv heq =>
      List.inj_on_of_nodup_map hnodup hv hw heq
    rw [← hpair]
    have hfilter : s.woken.filter (fun v => v.1 = w.1) = s.woken.filter (fun v => v = w) := by
      apply List.filter_congr
      intro v hv
      have hiff : v.1 = w.1 ↔ v = w := ⟨hall v hv, fun heq => by rw [heq]⟩
      simp [hiff]
    rw [hfilter, List.filter_eq, List.count_eq_one_of_mem hnodup.of_map hw]
    rfl
  next hgt =>
    rw [List.filter_eq_nil_iff]
    intro w hw heq
    have := h.woken w hw
    simp only [decide_eq_true_eq] at heq
    rw [heq] at this
    exact hgt this.2

/--
In every run in which `Sleep` meets the condition the timers are woken at their time.
-/
theorem timers_punctual (s : State) (h : Steps.Reach step Timely init s) : Punctual s :=
  Ok.punctual (h.invariant Ok ok_init fun _ _ _ hi ht hs => hi.step ht hs)

theorem timers_punctual_two_levels
    : ∃ s, Steps.Reach step Timely init s ∧ s.last = 113 ∧ s.inserted = [⟨2, 103, 1⟩, ⟨1, 5, 0⟩]
        ∧ Punctual s := by
  obtain ⟨s, hreach, hlast, hinserted⟩ := Steps.Reach.exists_of_run step Timely init
    [.sleep 1 5, .clock 3, .tick, .sleep 2 100, .clock 110, .tick]
    (fun s => s.last = 113 ∧ s.inserted = [⟨2, 103, 1⟩, ⟨1, 5, 0⟩]) (by decide +kernel)
  exact ⟨s, hreach, hlast, hinserted, timers_punctual s hreach⟩

/--
The wheel is 60 ticks behind the clock when a thread goes to sleep for 10 ms: it is woken at the
tick 6, not at the tick 70.
-/
theorem timer_woken_early_behind_clock
    : ∃ s, Steps.Reach step (fun _ _ => True) init s ∧ ⟨1, 70, 0⟩ ∈ s.inserted ∧ s.removed = []
        ∧ s.woken = [(⟨1, 70, 0⟩, 6)] :=
  Steps.Reach.exists_of_run step (fun _ _ => True) init [.clock 60, .sleep 1 10, .tick]
    (fun s => ⟨1, 70, 0⟩ ∈ s.inserted ∧ s.removed = [] ∧ s.woken = [(⟨1, 70, 0⟩, 6)])
    (by decide +kernel)

end Timer
