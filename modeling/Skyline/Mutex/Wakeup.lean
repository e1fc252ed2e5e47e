import Skyline.Mutex.Basic

/-!
This module contains the conditions under which no wake-up of the mutex gets lost and no current
thread is inserted in a run queue.
-/

namespace Mutex

variable {n t u : Nat} {s s' : State} {e : Event}

@[simp]
theorem set_thread (th : Thread)
    : (s.set t th).thread u = if u = t then th else s.thread u := by
  simp [State.set, Function.update_apply]

@[simp]
theorem set_queue (th : Thread) : (s.set t th).queue = s.queue := rfl

@[simp]
theorem goto_thread (pc : Pc)
    : (s.goto t pc).thread u = if u = t then { s.thread t with pc := pc } else s.thread u := by
  simp [State.goto]

@[simp]
theorem goto_queue (pc : Pc) : (s.goto t pc).queue = s.queue := rfl

def Thread.Ok (th : Thread) : Prop :=
  match th.pc with
  | .idle => th.isBlocked = false ∧ th.current = !th.onRq
  | .tryLock => th.isBlocked = false ∧ th.current = (!th.onRq) ∨ th.Asleep
  | .blocked | .appended => th.isBlocked = true ∧ th.current = true ∧ th.onRq = false
  | _ => th.isBlocked = false ∧ th.current = true ∧ th.onRq = false

def Thread.Active (th : Thread) : Prop :=
  th.pc = .dequeue ∨ (∃ u, th.pc = .wake (some u)) ∨ th.pc = .tryLock ∧ th.isBlocked = false

structure Inv (n : Nat) (s : State) : Prop where
  thread : ∀ t, (s.thread t).Ok
  bound : ∀ t, (s.thread t).pc ≠ .idle → t < n
  queue : ∀ t ∈ s.queue, (s.thread t).pc = .appended ∨ (s.thread t).Asleep
  nodup : s.queue.Nodup
  wake : ∀ t u, (s.thread t).pc = .wake (some u) → (s.thread u).Asleep ∧ u ∉ s.queue
  wake_inj : ∀ t t' u, (s.thread t).pc = .wake (some u) → (s.thread t').pc = .wake (some u) → t = t'
  active : (s.queue ≠ [] ∨ ∃ t, (s.thread t).pc.Between) →
    s.lock = true ∨ ∃ t, (s.thread t).Active

theorem inv_init : Inv n init := by
  constructor <;> simp [init, Thread.Ok, Pc.Between]

/--
The step writes the thread `t`, and of the queue only what the last four conditions say.
-/
theorem Inv.write (h : Inv n s) (t : Nat) (th : Thread) (ht : t < n) (hok : th.Ok)
    (hthread : ∀ u, s'.thread u = if u = t then th else s.thread u) (hnodup : s'.queue.Nodup)
    (hqueue : ∀ u ∈ s'.queue, u ∈ s.queue ∨ u = t ∧ ¬ (s.thread t).Asleep)
    (hin : t ∈ s'.queue → th.pc = .appended ∨ th.Asleep)
    (hasleep : (s.thread t).Asleep → th.Asleep ∨ ∀ r, (s.thread r).pc ≠ .wake (some t))
    (hwake : ∀ u, th.pc = .wake (some u) →
      (u ≠ t ∧ (s.thread u).Asleep ∧ u ∉ s'.queue) ∧ ∀ r, (s.thread r).pc ≠ .wake (some u))
    (hactive : (s'.queue ≠ [] ∨ ∃ u, (s'.thread u).pc.Between) →
      s'.lock = true ∨ ∃ u, (s'.thread u).Active)
    : Inv n s' := by
  have hself : s'.thread t = th := by rw [hthread, if_pos rfl]
  have hother : ∀ u, u ≠ t → s'.thread u = s.thread u := by
    intro u hu
    rw [hthread, if_neg hu]
  refine ⟨?_, ?_, ?_, hnodup, ?_, ?_, hactive⟩
  . intro u
    rw [hthread]
    split
    . exact hok
    . exact h.thread u
  . intro u hu
    by_cases heq : u = t
    . rw [heq]
      exact ht
    . rw [hother u heq] at hu
      exact h.bound u hu
  . intro u hu
    by_cases heq : u = t
    . rw [heq, hself]
      exact hin (heq ▸ hu)
    . rw [hother u heq]
      exact h.queue u ((hqueue u hu).resolve_right fun hnew => heq hnew.1)
  . intro r u hr
    by_cases heq : r = t
    . rw [heq, hself] at hr
      obtain ⟨⟨hne, hu⟩, -⟩ := hwake u hr
      rw [hother u hne]
      exact hu
    . rw [hother r heq] at hr
      obtain ⟨hu, hnot⟩ := h.wake r u hr
      refine ⟨?_, fun hmem => ?_⟩
      . by_cases hut : u = t
        . cases hut
          rw [hself]
          exact (hasleep hu).resolve_right fun hnone => hnone r hr
        . rw [hother u hut]
          exact hu
      . rcases hqueue u hmem with hmem | ⟨rfl, hawake⟩
        . exact hnot hmem
        . exact hawake hu
  . intro r r' u hr hr'
    -- nobody else wakes the thread that `t` now wakes
    have hnew : ∀ r', (s'.thread t).pc = .wake (some u)
        → (s'.thread r').pc = .wake (some u) → t = r' := by
      intro r' ht hr'
      by_contra hne
      rw [hother r' (Ne.symm hne)] at hr'
      exact (hwake u (hself ▸ ht)).2 r' hr'
    by_cases heq : r = t
    . cases heq
      exact hnew r' hr hr'
    . by_cases heq' : r' = t
      . cases heq'
        exact (hnew r hr' hr).symm
      . rw [hother r heq] at hr
        rw [hother r' heq'] at hr'
        exact h.wake_inj r r' u hr hr'

theorem Inv.change (h : Inv n s) (t : Nat) (th : Thread) (ht : t < n)
    (hout : ¬ ((s.thread t).pc = .appended ∨ (s.thread t).Asleep)) (hok : th.Ok)
    (hwake : ∀ u, th.pc ≠ .wake (some u)) (hqueue : s'.queue = s.queue)
    (hthread : ∀ u, s'.thread u = if u = t then th else s.thread u)
    (hactive : (s'.queue ≠ [] ∨ ∃ u, (s'.thread u).pc.Between) →
      s'.lock = true ∨ ∃ u, (s'.thread u).Active)
    : Inv n s' :=
  h.write t th ht hok hthread (hqueue ▸ h.nodup) (fun _ hu => .inl (hqueue ▸ hu))
    (fun hin => absurd (h.queue t (hqueue ▸ hin)) hout) (fun hsleep => absurd (.inr hsleep) hout)
    (fun u hu => absurd hu (hwake u)) hactive

theorem Inv.active_of_change (h : Inv n s) (t : Nat) (th : Thread)
    (hinactive : ¬ (s.thread t).Active)
    (hthread : ∀ u, s'.thread u = if u = t then th else s.thread u) (hlock : s'.lock = s.lock)
    (hwait : s.queue ≠ [] ∨ ∃ u, (s.thread u).pc.Between)
    : s'.lock = true ∨ ∃ u, (s'.thread u).Active := by
  cases h.active hwait with
  | inl hl => exact .inl (hlock.trans hl)
  | inr hex =>
    obtain ⟨u, hu⟩ := hex
    have hne : u ≠ t := fun heq => hinactive (heq ▸ hu)
    refine .inr ⟨u, ?_⟩
    rw [hthread, if_neg hne]
    exact hu

theorem between_of_change {th : Thread} (hbetween : th.pc.Between → (s.thread t).pc.Between)
    (hthread : ∀ u, s'.thread u = if u = t then th else s.thread u)
    (hex : ∃ u, (s'.thread u).pc.Between)
    : ∃ u, (s.thread u).pc.Between := by
  obtain ⟨u, hu⟩ := hex
  rw [hthread] at hu
  split at hu
  . exact ⟨t, hbetween hu⟩
  . exact ⟨u, hu⟩

section

variable (h : Inv n s)
include h

theorem Inv.quiet (t : Nat) (th : Thread) (ht : t < n)
    (hout : ¬ ((s.thread t).pc = .appended ∨ (s.thread t).Asleep)) (hok : th.Ok)
    (hwake : ∀ u, th.pc ≠ .wake (some u)) (hinactive : ¬ (s.thread t).Active)
    (hbetween : th.pc.Between → (s.thread t).pc.Between) (hqueue : s'.queue = s.queue)
    (hlock : s'.lock = s.lock) (hthread : ∀ u, s'.thread u = if u = t then th else s.thread u)
    : Inv n s' := by
  apply h.change t th ht hout hok hwake hqueue hthread
  intro hwait
  apply h.active_of_change t th hinactive hthread hlock
  rw [hqueue] at hwait
  exact hwait.imp id (between_of_change hbetween hthread)

theorem Inv.tryLock (ht : t < n) (hpc : (s.thread t).pc = .tryLock)
    (hcur : (s.thread t).current = true) (hs : advance s t = some s')
    : Inv n s' := by
  have hok := h.thread t
  simp only [Thread.Ok, Thread.Asleep, hpc, hcur] at hok
  have hrun : (s.thread t).isBlocked = false ∧ (s.thread t).onRq = false := by simpa using hok
  have hout : ¬ ((s.thread t).pc = .appended ∨ (s.thread t).Asleep) := by
    simp [Thread.Asleep, hpc, hcur]
  simp only [advance, hcur, hpc, if_true] at hs
  split at hs
  next hlock =>
    cases hs
    refine h.change t { s.thread t with pc := .failed } ht hout ?_ (by simp) rfl
      (fun u => goto_thread .failed) ?_
    . simp [Thread.Ok, hcur, hrun]
    . exact fun _ => .inl hlock
  next =>
    cases hs
    refine h.change t { s.thread t with pc := .own } ht hout ?_ (by simp) rfl
      (fun u => goto_thread .own) ?_
    . simp [Thread.Ok, hcur, hrun]
    . exact fun _ => .inl rfl

theorem Inv.blocked (ht : t < n) (hpc : (s.thread t).pc = .blocked)
    : Inv n ({ s with queue := s.queue ++ [t] }.goto t .appended) := by
  have hout : ¬ (s.thread t).Asleep := by simp [Thread.Asleep, hpc]
  refine h.write t { s.thread t with pc := .appended } ht ?_ (fun u => goto_thread _) ?_ ?_
    (fun _ => .inl rfl) (fun hsleep => absurd hsleep hout) nofun fun _ => ?_
  . simpa [Thread.Ok, hpc] using h.thread t
  . rw [goto_queue, List.nodup_append_comm]
    refine List.nodup_cons.mpr ⟨fun hin => ?_, h.nodup⟩
    exact (h.queue t hin).elim (by simp [hpc]) hout
  . intro u hu
    rw [goto_queue, List.mem_append, List.mem_singleton] at hu
    exact hu.imp_right fun heq => ⟨heq, hout⟩
  . -- the thread was already between, so somebody is active
    refine h.active_of_change t { s.thread t with pc := .appended } ?_
      (fun u => goto_thread .appended) rfl (.inr ⟨t, ?_⟩)
    . simp [Thread.Active, hpc]
    . simp [hpc, Pc.Between]

theorem Inv.appended (ht : t < n) (hpc : (s.thread t).pc = .appended)
    : Inv n (yield s t) := by
  have hok := h.thread t
  simp only [Thread.Ok, hpc] at hok
  have hthread : ∀ u, (yield s t).thread u
      = if u = t then ⟨.tryLock, true, false, false⟩ else s.thread u := by
    intro u
    simp [yield, hok]
  have hasleep : Thread.Asleep ⟨.tryLock, true, false, false⟩ := ⟨rfl, rfl, rfl, rfl⟩
  refine h.write t ⟨.tryLock, true, false, false⟩ ht (Or.inr hasleep) hthread h.nodup
    (fun _ hu => .inl hu)
    (fun _ => .inr hasleep) (fun _ => .inl hasleep) nofun fun _ => ?_
  refine h.active_of_change t _ ?_ hthread rfl (.inr ⟨t, ?_⟩)
  . simp [Thread.Active, hpc]
  . simp [hpc, Pc.Between]

theorem Inv.not_between (hcalm : ∀ u < n, ¬ (s.thread u).pc.Between) (u : Nat)
    : ¬ (s.thread u).pc.Between := by
  intro hu
  apply hcalm u _ hu
  apply h.bound
  intro hidle
  rw [hidle] at hu
  exact hu

theorem Inv.dequeue_nil (ht : t < n) (hpc : (s.thread t).pc = .dequeue)
    (hcalm : ∀ u < n, ¬ (s.thread u).pc.Between) (hqueue : s.queue = [])
    : Inv n (s.goto t (.wake none)) := by
  have hok := h.thread t
  simp only [Thread.Ok, hpc] at hok
  refine h.change t { s.thread t with pc := .wake none } ht ?_ ?_ (by simp) rfl
    (fun u => goto_thread _) ?_
  . simp [Thread.Asleep, hpc]
  . simpa [Thread.Ok] using hok
  . -- nobody waits
    rintro (hne | ⟨u, hu⟩)
    . exact absurd hqueue hne
    . rw [goto_thread] at hu
      split at hu
      . exact hu.elim
      . exact absurd hu (h.not_between hcalm u)

end

theorem Inv.dequeue_cons {rest : List Nat} (h : Inv n s) (ht : t < n)
    (hpc : (s.thread t).pc = .dequeue) (hcalm : ∀ u < n, ¬ (s.thread u).pc.Between)
    (hqueue : s.queue = u :: rest)
    : Inv n ({ s with queue := rest }.goto t (.wake (some u))) := by
  have hnodup := h.nodup
  rw [hqueue, List.nodup_cons] at hnodup
  have hmem : ∀ v, v = u ∨ v ∈ rest → v ∈ s.queue := fun v hv => hqueue ▸ List.mem_cons.2 hv
  -- the waiters have left their CPUs
  have hasleep : ∀ v ∈ s.queue, (s.thread v).Asleep := by
    intro v hv
    refine (h.queue v hv).resolve_left fun hpc' => h.not_between hcalm v ?_
    rw [hpc']
    trivial
  have hout : ¬ (s.thread t).Asleep := by simp [Thread.Asleep, hpc]
  refine h.write t { s.thread t with pc := .wake (some u) } ht ?_ (fun v => goto_thread _) hnodup.2
    (fun v hv => .inl (hmem v (.inr hv))) (fun hin => absurd (hasleep t (hmem t (.inr hin))) hout)
    (fun hsleep => absurd hsleep hout) ?_ fun _ => ?_
  . simpa [Thread.Ok, hpc] using h.thread t
  . intro v hv
    cases hv
    have hu := hasleep u (hmem u (.inl rfl))
    refine ⟨⟨fun heq => hout (heq ▸ hu), hu, hnodup.1⟩, fun r hr => ?_⟩
    exact (h.wake r u hr).2 (hmem u (.inl rfl))
  . refine .inr ⟨t, .inr (.inl ⟨u, ?_⟩)⟩
    rw [goto_thread, if_pos rfl]

section

variable (h : Inv n s)
include h

theorem Inv.wakeUp (ht : t < n) (hpc : (s.thread t).pc = .wake (some u))
    : Inv n ((wakeThread s u).goto t .idle) := by
  obtain ⟨hsleep, hmem⟩ := h.wake t u hpc
  obtain ⟨hupc, hublocked, hucur, hurq⟩ := hsleep
  have hne : u ≠ t := by
    rintro rfl
    rw [hpc] at hupc
    cases hupc
  -- first the waker goes on, as if the mutex were taken, then the thread it wakes
  have hfirst : Inv n ({ s with lock := true }.goto t .idle) := by
    refine h.change t { s.thread t with pc := .idle } ht ?_ ?_ nofun rfl
      (fun v => goto_thread _) fun _ => .inl rfl
    . simp [Thread.Asleep, hpc]
    . have hok := h.thread t
      simp only [Thread.Ok, hpc] at hok
      simp [Thread.Ok, hok]
  have hthread : ∀ v, ((wakeThread s u).goto t .idle).thread v
      = if v = u then ⟨.tryLock, false, false, true⟩
        else ({ s with lock := true }.goto t .idle).thread v := by
    intro v
    by_cases hvu : v = u
    . simp [wakeThread, hublocked, hupc, hucur, hvu, hne]
    . simp [wakeThread, hublocked, hvu, Ne.symm hne]
  have hqueue : ((wakeThread s u).goto t .idle).queue = s.queue := by
    simp [wakeThread, hublocked]
  refine hfirst.write u ⟨.tryLock, false, false, true⟩ (h.bound u (by simp [hupc]))
    (Or.inl ⟨rfl, rfl⟩) hthread
    (hqueue ▸ h.nodup) (fun v hv => .inl (hqueue ▸ hv)) (fun hin => absurd (hqueue ▸ hin) hmem)
    (fun _ => .inr fun r hr => ?_)
    nofun fun _ => ?_
  . rw [goto_thread] at hr
    split at hr
    . cases hr
    . next hrt => exact hrt (h.wake_inj r t u hr hpc)
  . refine .inr ⟨u, .inr (.inr ?_)⟩
    rw [hthread, if_pos rfl]
    exact ⟨rfl, rfl⟩

theorem Inv.dispatch (ht : t < n) (hs : dispatch s t = some s') : Inv n s' := by
  simp only [Mutex.dispatch, Option.ite_none_right_eq_some, Option.some.injEq] at hs
  obtain ⟨hrq, rfl⟩ := hs
  have hok := h.thread t
  have hthread := fun u => set_thread (s := s) (t := t) (u := u)
    { s.thread t with current := true, onRq := false }
  refine h.change t { s.thread t with current := true, onRq := false } ht ?_ ?_ ?_ rfl hthread ?_
  . rintro (hpc | hsleep)
    . simp [Thread.Ok, hpc, hrq] at hok
    . simp [Thread.Asleep, hrq] at hsleep
  . unfold Thread.Ok at hok ⊢
    cases hpc : (s.thread t).pc <;> simp_all [Thread.Asleep]
  . intro u hpc
    simp only at hpc
    simp [Thread.Ok, hpc, hrq] at hok
  . intro hwait
    have hwait' : s.queue ≠ [] ∨ ∃ u, (s.thread u).pc.Between := by
      refine hwait.imp id (between_of_change ?_ hthread)
      exact id
    cases h.active hwait' with
    | inl hl => exact .inl hl
    | inr hex =>
      obtain ⟨u, hu⟩ := hex
      refine .inr ⟨u, ?_⟩
      rw [hthread]
      split
      next heq => exact heq ▸ hu
      next => exact hu

theorem Inv.advance (ht : t < n) (hcalm : Calm n s (.advance t))
    (hs : advance s t = some s')
    : Inv n s' := by
  have hok := h.thread t
  have hadvance := hs
  simp only [Mutex.advance, Option.ite_none_right_eq_some] at hs
  obtain ⟨hcur, hs⟩ := hs
  split at hs
  next hpc =>
    cases hs
    simp only [Thread.Ok, hpc, hcur] at hok
    refine h.change t { s.thread t with pc := .tryLock } ht ?_ ?_ nofun rfl
      (fun u => goto_thread _) fun _ => ?_
    . simp [Thread.Asleep, hpc]
    . simp [Thread.Ok, hcur, hok]
    . refine .inr ⟨t, .inr (.inr ?_)⟩
      rw [goto_thread, if_pos rfl]
      exact ⟨rfl, hok.1⟩
  next hpc => exact h.tryLock ht hpc hcur hadvance
  next hpc =>
    cases hs
    refine h.quiet t ⟨.blocked, true, true, (s.thread t).onRq⟩ ht ?_ ?_ nofun ?_ ?_
      rfl rfl fun u => ?_
    . simp [Thread.Asleep, hpc]
    . simp only [Thread.Ok, hpc] at hok
      simp [Thread.Ok, hok]
    . simp [Thread.Active, hpc]
    . simp [hpc, Pc.Between]
    . rw [set_thread, hcur]
  next hpc =>
    cases hs
    exact h.blocked ht hpc
  next hpc =>
    cases hs
    exact h.appended ht hpc
  next hpc =>
    cases hs
    refine h.quiet t { s.thread t with pc := .holding } ht ?_ ?_ nofun ?_ nofun rfl rfl
      fun u => goto_thread _
    . simp [Thread.Asleep, hpc]
    . simpa [Thread.Ok, hpc] using hok
    . simp [Thread.Active, hpc]
  next hpc =>
    simp only [Option.ite_none_right_eq_some, Option.some.injEq] at hs
    obtain ⟨-, rfl⟩ := hs
    refine h.quiet t { s.thread t with pc := .release } ht ?_ ?_ nofun ?_ nofun rfl rfl
      fun u => goto_thread _
    . simp [Thread.Asleep, hpc]
    . simpa [Thread.Ok, hpc] using hok
    . simp [Thread.Active, hpc]
  next hpc =>
    cases hs
    refine h.change t { s.thread t with pc := .dequeue } ht ?_ ?_ nofun rfl
      (fun u => goto_thread _) fun _ => ?_
    . simp [Thread.Asleep, hpc]
    . simpa [Thread.Ok, hpc] using hok
    . refine .inr ⟨t, .inl ?_⟩
      rw [goto_thread, if_pos rfl]
  next hpc =>
    split at hs
    next hqueue =>
      cases hs
      exact h.dequeue_nil ht hpc (hcalm hpc) hqueue
    next u rest hqueue =>
      cases hs
      exact h.dequeue_cons ht hpc (hcalm hpc) hqueue
  next hpc =>
    cases hs
    refine h.quiet t { s.thread t with pc := .idle } ht ?_ ?_ nofun ?_ nofun rfl rfl
      fun u => goto_thread _
    . simp [Thread.Asleep, hpc]
    . simp only [Thread.Ok, hpc] at hok
      simp [Thread.Ok, hok]
    . simp [Thread.Active, hpc]
  next hpc =>
    cases hs
    exact h.wakeUp ht hpc

theorem Inv.step (hcalm : Calm n s e) (hs : step n s e = some s') : Inv n s' := by
  cases e with
  | advance =>
    simp only [Mutex.step, Option.ite_none_right_eq_some] at hs
    exact h.advance hs.1 hcalm hs.2
  | dispatch =>
    simp only [Mutex.step, Option.ite_none_right_eq_some] at hs
    exact h.dispatch hs.1 hs.2

theorem Inv.not_stuck : ¬ Stuck n s := by
  intro ⟨hlock, hqueue, hall⟩
  cases h.active (.inl hqueue) with
  | inl hl =>
    rw [hlock] at hl
    cases hl
  | inr hex =>
    obtain ⟨t, hactive⟩ := hex
    have ht : t < n := by
      apply h.bound
      rcases hactive with hpc | ⟨u, hpc⟩ | ⟨hpc, _⟩ <;> simp [hpc]
    cases hall t ht with
    | inl hidle => simp [Thread.Active, hidle] at hactive
    | inr hsleep => simp [Thread.Active, hsleep.1, hsleep.2.1] at hactive

theorem Inv.one_place (t : Nat)
    : ¬ ((s.thread t).current = true ∧ (s.thread t).onRq = true) := by
  intro ⟨hcur, hrq⟩
  have hok := h.thread t
  unfold Thread.Ok at hok
  cases hpc : (s.thread t).pc <;> simp_all [Thread.Asleep]

end

/--
In every run of calm steps no wake-up is lost and no thread is current and in a run queue.
-/
theorem no_lost_wakeup (n : Nat) (s : State) (h : Steps.Reach (step n) (Calm n) init s)
    : ¬ Stuck n s ∧ ∀ t, ¬ ((s.thread t).current = true ∧ (s.thread t).onRq = true) := by
  have hinv := h.invariant (Inv n) inv_init fun _ _ _ hi hc hs => hi.step hc hs
  exact ⟨hinv.not_stuck, hinv.one_place⟩

def handOver : List Event :=
  [Event.dispatch 0, .dispatch 1] ++ List.replicate 3 (Event.advance 0)
    ++ List.replicate 5 (Event.advance 1) ++ List.replicate 4 (Event.advance 0)
    ++ [Event.dispatch 1] ++ List.replicate 2 (Event.advance 1)

theorem no_lost_wakeup_handOver
    : ∃ s, Steps.Reach (step 2) (Calm 2) init s ∧ s.owner = some 1 ∧ ¬ Stuck 2 s := by
  obtain ⟨s, hreach, howner⟩ := Steps.Reach.exists_of_run (step 2) (Calm 2) init handOver
    (fun s => s.owner = some 1) (by decide)
  exact ⟨s, hreach, howner, (no_lost_wakeup 2 s hreach).1⟩

def Pc.Inside : Pc → Prop
  | .own | .holding | .release => True
  | _ => False

structure Exclusive (s : State) : Prop where
  lock : ∀ t, (s.thread t).pc.Inside → s.lock = true
  one : ∀ t u, (s.thread t).pc.Inside → (s.thread u).pc.Inside → t = u
  /-- the `ASSERT` of `MutexRelease` -/
  owner : ∀ t, (s.thread t).pc = .holding → s.owner = some t

theorem Exclusive.step (h : Exclusive s) (hs : step n s e = some s') : Exclusive s' := by
  obtain ⟨hlock, hone, howner⟩ := h
  cases e with
  | advance =>
    simp only [Mutex.step, advance, Option.ite_none_right_eq_some] at hs
    obtain ⟨-, -, hs⟩ := hs
    -- only the test and set lets a thread in, and then the lock was free
    split at hs
    all_goals constructor <;> grind [set_thread, State.set, State.goto, Pc.Inside,
      yield, wakeThread]
  | dispatch =>
    simp only [Mutex.step, dispatch, Option.ite_none_right_eq_some, Option.some.injEq] at hs
    obtain ⟨-, -, rfl⟩ := hs
    constructor <;> grind [set_thread, State.set]

theorem mutual_exclusion (h : Steps.Reach (step n) (fun _ _ => True) init s) : Exclusive s := by
  apply h.invariant Exclusive _ fun _ _ _ hs _ hstep => hs.step hstep
  constructor <;> simp [init, Pc.Inside]

theorem mutual_exclusion_handOver
    : ∃ s, Steps.Reach (step 2) (fun _ _ => True) init s ∧ s.owner = some 1 ∧ Exclusive s := by
  obtain ⟨s, hreach, howner⟩ := Steps.Reach.exists_of_run (step 2) (fun _ _ => True) init handOver
    (fun s => s.owner = some 1) (by decide)
  exact ⟨s, hreach, howner, mutual_exclusion hreach⟩

/--
Thread 1 fails to take the mutex, thread 0 releases it and finds nobody in the queue, then thread 1
goes to sleep.
-/
theorem wakeup_lost_between_test_and_append
    : (∃ s, Steps.Reach (step 2) (fun _ _ => True) init s ∧ Stuck 2 s)
      ∧ ∃ s, Steps.Reach (step 2) (fun _ _ => True) init s
        ∧ (s.thread 1).current = true ∧ (s.thread 1).onRq = true := by
  refine ⟨?_, ?_⟩
  . exact Steps.Reach.exists_of_run (step 2) (fun _ _ => True) init
      ([Event.dispatch 0, .dispatch 1] ++ List.replicate 3 (Event.advance 0)
        ++ List.replicate 2 (Event.advance 1) ++ List.replicate 4 (Event.advance 0)
        ++ List.replicate 3 (Event.advance 1)) (Stuck 2) (by decide)
  . exact Steps.Reach.exists_of_run (step 2) (fun _ _ => True) init
      ([Event.dispatch 0, .dispatch 1] ++ List.replicate 3 (Event.advance 0)
        ++ List.replicate 4 (Event.advance 1) ++ List.replicate 4 (Event.advance 0))
      (fun s => (s.thread 1).current = true ∧ (s.thread 1).onRq = true) (by decide)

end Mutex
