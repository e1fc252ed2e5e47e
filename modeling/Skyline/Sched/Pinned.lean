import Skyline.Sched.Places

/-!
This module contains what the load balancer does to pinned threads.
-/

namespace Sched

variable {n : Nat} {s s' : State n} {c : Fin n} {t u : Nat}

/--
No thief looks at a queue with a pinned thread in it, and no thread is pinned while a thief has it.
-/
def SparesPinned (s : State n) : Event n → Prop
  | .steal _ victim => ∀ t ∈ (s.queue victim).runqueue, (s.thread t).pinned = false
  | .pin t => ∀ c, t ∉ (s.cpu c).phase.batch
  | e => e.Ordinary

instance (s : State n) (e : Event n) : Decidable (SparesPinned s e) :=
  match e with
  | .steal _ victim =>
    inferInstanceAs (Decidable (∀ t ∈ (s.queue victim).runqueue, (s.thread t).pinned = false))
  | .pin t => inferInstanceAs (Decidable (∀ c, t ∉ (s.cpu c).phase.batch))
  | .killThreadBatch .. | .killThread .. | .transferTimeout .. | .exit .. => isFalse not_false
  | .newThread .. | .startThread .. | .switch .. | .tryPush .. | .stealEnd .. | .commit ..
  | .idle ..
  | .sleep .. | .tick .. => isTrue trivial

theorem SparesPinned.ordinary {e : Event n} (h : SparesPinned s e) : e.Ordinary := by
  cases e <;> first | exact trivial | exact h

structure PinnedInv (s : State n) : Prop where
  inv : Inv ∅ s
  created (t : Nat) : (s.thread t).pinned = true → (s.thread t).state ≠ .init
  batch (c : Fin n) (t : Nat) : t ∈ (s.cpu c).phase.batch → (s.thread t).pinned = false

namespace PinnedInv

theorem commit {curr next : Option Nat} (h : PinnedInv s)
    (hphase : (s.cpu c).phase = .picked curr next)
    : PinnedInv (Sched.commit s c curr next) := by
  refine ⟨h.inv.commit hphase, fun t => ?_, fun d t ht => ?_⟩
  . rw [commit_thread]
    exact h.created t
  . rw [commit_cpu s curr next fun u hu => h.inv.outgoing c u (by rw [hphase]; exact hu)] at ht
    rw [commit_thread]
    split at ht
    next => simp at ht
    next => exact h.batch d t ht

theorem step {e : Event n} (h : PinnedInv s) (hok : SparesPinned s e) (hs : step s e = some s')
    : PinnedInv s' := by
  by_cases hcommit : ∃ c, e = .commit c
  . obtain ⟨c, rfl⟩ := hcommit
    simp only [Sched.step] at hs
    split at hs
    next hphase =>
      cases hs
      exact h.commit hphase
    next => cases hs
  have hdoes := step_does hok.ordinary (fun c hc => hcommit ⟨c, hc⟩) hs
  refine ⟨h.inv.step hok.ordinary hs, fun t ht hi => ?_, fun c t hc => ?_⟩
  . have hinit := hdoes.init t hi
    rcases hdoes.pinned t with heq | hmarks
    . exact h.created t (heq ▸ ht) hinit
    . cases e with
      | newThread =>
        simp only [Sched.step, Option.ite_none_right_eq_some, Option.some.injEq] at hs
        obtain ⟨-, rfl⟩ := hs
        cases hmarks
        simp [newThread] at hi
      | pin =>
        simp only [Sched.step, Option.ite_none_left_eq_some] at hs
        cases hmarks
        exact hs.1 hinit
      | _ => exact hmarks
  . rcases hdoes.pinned t with heq | hmarks
    . rw [heq]
      rcases hdoes.batch c t hc with hin | htakes
      . exact h.batch c t hin
      . cases e with
        | steal => exact hok t htakes
        | _ => exact htakes.elim
    . cases e with
      | newThread =>
        simp only [Sched.step, Option.ite_none_right_eq_some, Option.some.injEq] at hs
        obtain ⟨-, rfl⟩ := hs
        cases hmarks
        simp [newThread]
      | pin =>
        cases hmarks
        exact ((hdoes.batch c t hc).elim (hok c) id).elim
      | _ => exact hmarks.elim

theorem kept {e : Event n} (h : PinnedInv s) (hok : SparesPinned s e)
    (hs : Sched.step s e = some s') (ht : (s.thread t).pinned = true)
    : (s'.thread t).pinned = true ∧ (s'.thread t).cpuNum = (s.thread t).cpuNum := by
  by_cases hcommit : ∃ c, e = .commit c
  . obtain ⟨c, rfl⟩ := hcommit
    simp only [Sched.step] at hs
    split at hs
    next =>
      cases hs
      rw [commit_thread]
      exact ⟨ht, rfl⟩
    next => cases hs
  have hdoes := step_does hok.ordinary (fun c hc => hcommit ⟨c, hc⟩) hs
  cases e with
  | newThread u =>
    simp only [Sched.step, Option.ite_none_right_eq_some] at hs
    have hne : t ≠ u := by
      rintro rfl
      exact h.created t ht hs.1
    exact ⟨((hdoes.pinned t).resolve_right hne).trans ht, (hdoes.cpuNum t).resolve_right hne⟩
  | pin u =>
    refine ⟨?_, (hdoes.cpuNum t).resolve_right id⟩
    simp only [Sched.step, Option.ite_none_left_eq_some, Option.some.injEq] at hs
    obtain ⟨-, rfl⟩ := hs
    rw [State.setThread_thread]
    split
    next => rfl
    next => exact ht
  | tryPush =>
    refine ⟨((hdoes.pinned t).resolve_right id).trans ht,
      (hdoes.cpuNum t).resolve_right fun hmove => ?_⟩
    simp [hmove.2] at ht
  | stealEnd c =>
    refine ⟨((hdoes.pinned t).resolve_right id).trans ht,
      (hdoes.cpuNum t).resolve_right fun hmove => ?_⟩
    simp [h.batch c t hmove] at ht
  | _ => exact ⟨((hdoes.pinned t).resolve_right id).trans ht, (hdoes.cpuNum t).resolve_right id⟩

theorem boot (home : Fin n) : PinnedInv (boot n home) where
  inv := boot_inv home
  created t := by
    simp only [Sched.boot]
    split
    . simp
    . simp
  batch c t := by simp [Sched.boot]

end PinnedInv

/--
As long as no thief looks at a queue with a pinned thread, a pinned thread keeps its CPU and is in
no other queue.
-/
theorem pinned_stays (n : Nat) (home : Fin n) (s s' : State n)
    (h : Steps.Reach step SparesPinned (boot n home) s) (h' : Steps.Reach step SparesPinned s s')
    (t : Nat) (ht : (s.thread t).pinned = true)
    : (s'.thread t).cpuNum = (s.thread t).cpuNum
      ∧ ∀ c, t ∈ (s'.queue c).runqueue → c = (s.thread t).cpuNum := by
  have hinv := h.invariant PinnedInv (.boot home) fun _ _ _ hp hok hs => hp.step hok hs
  obtain ⟨hinv', _, hcpu⟩ := h'.invariant
    (fun u => PinnedInv u ∧ (u.thread t).pinned = true
      ∧ (u.thread t).cpuNum = (s.thread t).cpuNum)
    ⟨hinv, ht, rfl⟩ fun u e u' ⟨hu, hpinned, hcpu⟩ hok hs => by
      obtain ⟨hpinned', hcpu'⟩ := hu.kept hok hs hpinned
      exact ⟨hu.step hok hs, hpinned', hcpu'.trans hcpu⟩
  refine ⟨hcpu, fun c hc => ?_⟩
  rw [← hcpu, (((hinv'.inv.queues c).mem_iff t).mp hc).2]

/--
Thread 3 is pinned to CPU 0, and CPU 1 is about to steal from CPU 2.
-/
def stealElsewhere : List (Event 3) :=
  [.newThread 3 0 1024, .startThread 3 fun _ => 5, .newThread 5 0 1024,
    .startThread 5 fun _ => 6, .pin 3,
    .newThread 6 2 1024, .startThread 6 fun _ => 5, .newThread 7 2 1024, .startThread 7 fun _ => 6,
    .newThread 4 1 1024, .startThread 4
    fun _ => 5, .switch 1 false (fun _ => 5) none, .commit 1, .sleep 1,
    .switch 1 false (fun _ => 5) none]

theorem pinned_stays_stealElsewhere
    : ∃ s s' : State 3, Steps.Reach step SparesPinned (boot 3 0) s
      ∧ Steps.Reach step SparesPinned s s'
        ∧ (s.thread 3).pinned = true ∧ (s.thread 7).cpuNum = 2 ∧ (s'.thread 7).cpuNum = 1
        ∧ (s'.thread 3).cpuNum = (s.thread 3).cpuNum
        ∧ ∀ c, 3 ∈ (s'.queue c).runqueue → c = (s.thread 3).cpuNum := by
  obtain ⟨s, hreach, hpinned, hcpu, hrun⟩ :=
    Steps.Reach.exists_of_run step SparesPinned (boot 3 0) stealElsewhere
    (fun s => (s.thread 3).pinned = true ∧ (s.thread 7).cpuNum = 2
      ∧ (Steps.run step SparesPinned s [.steal 1 2, .stealEnd 1 (fun _ => 5) none]).any
        fun s' => (s'.thread 7).cpuNum = 1)
    (by decide +kernel)
  obtain ⟨s', hreach', hmoved⟩ := Steps.Reach.exists_of_run step _ s _ _ hrun
  exact ⟨s, s', hreach, hreach', hpinned, hcpu, hmoved,
    pinned_stays 3 0 s s' hreach hreach' 3 hpinned⟩

/--
`StealThread` on CPU 1 takes the pinned thread 3 from CPU 0.
-/
theorem pinned_stolen
    : ∃ s s' : State 2, Steps.Reach step (fun _ e => e.Ordinary) (boot 2 0) s
        ∧ Steps.Reach step (fun _ e => e.Ordinary) s s' ∧ (s.thread 3).pinned = true
        ∧ (s.thread 3).cpuNum = 0 ∧ (s'.thread 3).pinned = true ∧ (s'.thread 3).cpuNum = 1
        ∧ 3 ∈ (s'.queue 1).runqueue := by
  obtain ⟨s, hreach, hpinned, hcpu, hrun⟩ := Steps.Reach.exists_of_run step
    (fun _ e => e.Ordinary) (boot 2 0)
    [.newThread 2 0 1024, .startThread 2 fun _ => 5, .newThread 3 0 1024, .startThread 3 fun _ => 6,
      .pin 2, .pin 3, .newThread 4 1 1024, .startThread 4 fun _ => 5,
      .switch 1 false (fun _ => 5) none, .commit 1, .sleep 1, .switch 1 false (fun _ => 5) none,
      .newThread 5 0 1024, .startThread 5 fun _ => 7]
    (fun s => (s.thread 3).pinned = true ∧ (s.thread 3).cpuNum = 0
      ∧ (Steps.run step (fun _ e => e.Ordinary) s [.steal 1 0,
        .stealEnd 1 (fun t => 9 - t) none]).any
        fun s' => (s'.thread 3).pinned = true ∧ (s'.thread 3).cpuNum = 1
          ∧ 3 ∈ (s'.queue 1).runqueue)
    (by decide +kernel)
  obtain ⟨s', hreach', hmoved⟩ := Steps.Reach.exists_of_run step _ s _ _ hrun
  exact ⟨s, s', hreach, hreach', hpinned, hcpu, hmoved⟩

end Sched
