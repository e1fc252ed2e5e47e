import Skyline.Sched.Lemmas.Effect
import Skyline.Steps.Basic

/-!
This module contains where a runnable thread is.
-/

namespace Sched

variable {n : Nat} {s s' : State n} {c : Fin n} {t : Nat}

inductive Place (n : Nat) where
  | queue (c : Fin n)
  | current (c : Fin n)
  | transfer (c : Fin n)
deriving DecidableEq

def State.At (s : State n) (t : Nat) : Place n → Prop
  | .queue c => t ∈ (s.queue c).runqueue
  | .current c => (s.cpu c).currentThread = t
  | .transfer c => t ∈ (s.cpu c).phase.batch

def State.Live (s : State n) (t : Nat) : Prop :=
  ((s.thread t).state = .running ∨ (s.thread t).state = .transfer) ∧ ¬s.Idle t ∧ t ∉ s.making

namespace Inv

section

variable (h : Inv ∅ s)
include h

theorem current_cpuNum (hidle : ¬s.Idle t) (hcurrent : (s.cpu c).currentThread = t)
    : (s.thread t).cpuNum = c ∧ (s.thread t).state.Active := by
  rcases h.current c t hcurrent with hi | ⟨_, hc, hact, _⟩
  . exact absurd ⟨c, hi.symm⟩ hidle
  . exact ⟨hc, hact⟩

theorem not_at_transfer (hstate : (s.thread t).state ≠ .transfer) (d : Fin n)
    : ¬s.At t (.transfer d) :=
  fun hd => hstate (h.batch d t hd).2.2.1

theorem at_queue_iff
    : s.At t (.queue c) ↔ (s.thread t).onRq = true ∧ (s.thread t).cpuNum = c :=
  (h.queues c).mem_iff t

theorem current_inj {c d : Fin n} (heq : (s.cpu c).currentThread = (s.cpu d).currentThread)
    : c = d := by
  rcases h.current c _ rfl with hc | ⟨hidle, hc, -⟩
  . rcases h.current d _ heq.symm with hd | ⟨hidle, -⟩
    . exact h.idle_inj c d (hc.symm.trans hd)
    . exact absurd ⟨c, hc.symm⟩ hidle
  . exact hc.symm.trans (h.current_cpuNum hidle heq.symm).1

end

end Inv

/--
The current thread of a CPU is in no queue, unless the CPU has picked the next one.
-/
def Apart (s : State n) : Prop :=
  ∀ c, (s.cpu c).phase.next = none → (s.thread (s.cpu c).currentThread).onRq = false

/--
A tick wakes only threads that have been switched away from.
-/
def Orderly (s : State n) : Event n → Prop
  | .tick _ expired _ => ∀ t ∈ expired, ∀ c, (s.cpu c).currentThread ≠ t
  | e => e.Ordinary

instance (s : State n) (e : Event n) : Decidable (Orderly s e) :=
  match e with
  | .tick _ expired _ =>
    inferInstanceAs (Decidable (∀ t ∈ expired, ∀ c, (s.cpu c).currentThread ≠ t))
  | .killThreadBatch .. | .killThread .. | .transferTimeout .. | .exit .. => isFalse not_false
  | .newThread .. | .startThread .. | .pin .. | .switch .. | .tryPush .. | .steal .. | .stealEnd ..
  | .commit .. | .idle .. | .sleep .. => isTrue trivial

theorem Orderly.ordinary {e : Event n} (h : Orderly s e) : e.Ordinary := by
  cases e <;> first | exact trivial | exact h

theorem putCurrent_onRq (dl : Nat → Nat) (s : State n) (c : Fin n)
    (hrq : (s.thread (s.cpu c).currentThread).onRq = false)
    (hin : ((putCurrent dl s c).2.thread (s.cpu c).currentThread).onRq = true)
    : ((putCurrent dl s c).2.thread (s.cpu c).currentThread).state = .running := by
  unfold putCurrent at hin ⊢
  simp only at hin ⊢
  split at hin
  next => simp [hrq] at hin
  next hne =>
    rw [if_neg hne]
    split at hin
    next => simp [pushZombie, hrq] at hin
    next hrun => simp [hrun]
    next => simp [hrq] at hin

theorem switchLocked_current (h : Inv ∅ s) (dl : Nat → Nat) (found : Option Nat)
    (hphase : (s.cpu c).phase = .ready) (hrq : (s.thread (s.cpu c).currentThread).onRq = false)
    (hnext : ((switchLocked dl found s c).cpu c).phase.next = none)
    : ((switchLocked dl found s c).thread (s.cpu c).currentThread).onRq = false := by
  have hmove : Does {} s (moveZombies s c) := .moveZombies s c
  have hput : Does { inserts := fun _ => True } (moveZombies s c) _ := .putCurrent dl
    (moveZombies s c) c trivial
  have hinv : Inv ∅ (putCurrent dl (moveZombies s c) c).2 :=
    ((h.moveZombies c).putCurrent dl (by rw [moveZombies_phase]; exact hphase) Prod.mk.eta.symm).1
  have hrq' : ((moveZombies s c).thread (s.cpu c).currentThread).onRq = false := by
    rw [Bool.eq_false_iff]
    intro hin
    exact (hmove.onRq _ hin).elim (by simp [hrq]) id
  unfold switchLocked at hnext ⊢
  rw [← hmove.current c] at hrq' ⊢
  rcases pick_cases found (putCurrent dl (moveZombies s c) c).2 c with ⟨u, hpick, -⟩
    | ⟨hpick, hnone⟩
  . simp [hpick] at hnext
  . rw [Bool.eq_false_iff]
    intro hin
    simp only [hpick, State.setPhase_thread] at hin
    -- it was put back, so it is in the queue and `Pick` finds it
    rcases hinv.current c _ (hput.current c) with hidle | ⟨-, hc, -⟩
    . simp [(hinv.idle _ ⟨c, hidle.symm⟩).2.1] at hin
    . exact hnone _ (hinv.at_queue_iff.mpr ⟨hin, hc⟩) (putCurrent_onRq dl _ c hrq' hin)

theorem Apart.commit (h : Apart s) (hinv : Inv ∅ s) (hs : step s (.commit c) = some s')
    : Apart s' := by
  simp only [Sched.step] at hs
  split at hs
  next curr next hphase =>
    cases hs
    have hcpu := commit_cpu s curr next fun u hu => hinv.outgoing c u (by rw [hphase]; exact hu)
    intro d hd
    rw [hcpu] at hd ⊢
    rw [commit_thread]
    split
    next =>
      cases next with
      | none => exact (hinv.idle _ ⟨c, rfl⟩).2.1
      | some t => exact (hinv.next c t (by rw [hphase]; rfl)).2.1
    next hne =>
      rw [if_neg hne] at hd
      exact h d hd
  next => cases hs

theorem next_of_own {e : Event n} (hs : step s e = some s') (hcommit : ∀ c, e ≠ .commit c)
    (hown : (effect s e).own c)
    : (s.cpu c).phase.next = none := by
  cases e with
  | switch | steal | stealEnd =>
    cases hown
    simp only [Sched.step] at hs
    split at hs
    next hphase => rw [hphase]; rfl
    next => cases hs
  | commit d => exact absurd rfl (hcommit d)
  | _ => exact hown.elim

theorem Apart.step {e : Event n} (h : Apart s) (hinv : Inv ∅ s) (he : Orderly s e)
    (hs : step s e = some s')
    : Apart s' := by
  by_cases hcommit : ∃ c, e = .commit c
  . obtain ⟨c, rfl⟩ := hcommit
    exact h.commit hinv hs
  have hcommit : ∀ c, e ≠ .commit c := fun c hc => hcommit ⟨c, hc⟩
  have hdoes := step_does he.ordinary hcommit hs
  intro c hc
  have hrq : (s.thread (s.cpu c).currentThread).onRq = false := by
    apply h
    by_cases hown : (effect s e).own c
    . exact next_of_own hs hcommit hown
    . rw [← hdoes.phase c hown]
      exact hc
  rw [hdoes.current, Bool.eq_false_iff]
  intro hin
  rcases hdoes.onRq _ hin with hin | hins
  . simp [hrq] at hin
  cases e with
  | startThread t =>
    simp only [Sched.step, Option.ite_none_right_eq_some] at hs
    cases hins
    rcases hinv.current c _ rfl with hi | ⟨-, -, -, hnot⟩
    . exact (hinv.idle _ ⟨c, hi.symm⟩).2.2.2.1 hs.1
    . exact hnot hs.1
  | switch d _ dl found =>
    cases hinv.current_inj hins
    simp only [Sched.step] at hs
    split at hs
    next hphase =>
      cases hs
      split at hin
      next => simp [hrq] at hin
      next hkeep =>
        rw [if_neg hkeep] at hc
        simp [switchLocked_current hinv dl found hphase hrq hc] at hin
    next => cases hs
  | tryPush d =>
    have := (((hinv.queues d).mem_iff _).mp hins).1
    simp [hrq] at this
  | stealEnd d =>
    have hbatch := hinv.batch d _ hins
    rcases hinv.current c _ rfl with hi | ⟨-, -, hact, -⟩
    . exact hbatch.1 ⟨c, hi.symm⟩
    . exact hact.2 hbatch.2.2.1
  | tick => exact he _ hins c rfl
  | _ => exact hins

theorem Inv.exactly_one (h : Inv ∅ s) (hapart : Apart s) (hnext : ∀ c, (s.cpu c).phase.next = none)
    (hlive : s.Live t)
    : ∃! p, s.At t p := by
  obtain ⟨hstate, hidle, hmaking⟩ := hlive
  have hcurrent : ∀ d, s.At t (.current d) → (s.thread t).onRq = false :=
    fun d hd => hd ▸ hapart d (hnext d)
  rcases hstate with hrun | htransfer
  . have hnot := h.not_at_transfer (t := t) (by simp [hrun])
    rcases h.runnable t hrun with hi | hm | hh | hq | ⟨c, hc⟩
    . exact absurd hi hidle
    . exact absurd hm hmaking
    . exact absurd hh id
    . refine ⟨.queue (s.thread t).cpuNum, h.at_queue_iff.mpr ⟨hq, rfl⟩, fun p hp => ?_⟩
      cases p with
      | queue d => rw [(h.at_queue_iff.mp hp).2]
      | current d => simp [hcurrent d hp] at hq
      | transfer d => exact absurd hp (hnot d)
    . obtain ⟨-, hc, hrq, -⟩ := hc.resolve_right (by simp [hnext])
      refine ⟨.current c, hc, fun p hp => ?_⟩
      cases p with
      | queue d => simp [(h.at_queue_iff.mp hp).1] at hrq
      | current d => rw [h.current_inj (hc.trans hp.symm)]
      | transfer d => exact absurd hp (hnot d)
  . obtain ⟨c, hc⟩ := (h.transfer t htransfer).resolve_left id
    refine ⟨.transfer c, hc, fun p hp => ?_⟩
    cases p with
    | queue d => simpa [(h.batch c t hc).2.1] using (h.at_queue_iff.mp hp).1
    | current d => exact absurd htransfer (h.current_cpuNum hidle hp).2.2
    | transfer d => rw [h.batch_disjoint d c t hp hc]

/--
The step leaves no CPU between its choice of a thread and its store of `current_thread`.
-/
def Settles (s : State n) : Event n → Prop
  | .switch _ _ _ _ | .stealEnd _ _ _ => False
  | .commit c => ∀ d, d ≠ c → (s.cpu d).phase.next = none
  | _ => ∀ d, (s.cpu d).phase.next = none

theorem Settles.next {e : Event n} (h : Settles s e) (hinv : Inv ∅ s) (he : e.Ordinary)
    (hs : step s e = some s') (d : Fin n)
    : (s'.cpu d).phase.next = none := by
  cases e with
  | switch | stealEnd => exact h.elim
  | commit c =>
    simp only [step] at hs
    split at hs
    next curr next hphase =>
      cases hs
      rw [commit_cpu s curr next fun u hu => hinv.outgoing c u (by rw [hphase]; exact hu)]
      split
      next => rfl
      next hne => exact h d hne
    next => cases hs
  | steal c victim =>
    by_cases hown : d = c
    . simp only [step] at hs
      split at hs
      next hphase =>
        simp only [Option.ite_none_left_eq_some, Option.some.injEq] at hs
        obtain ⟨-, rfl⟩ := hs
        unfold stealFrom
        generalize stealLoop victim s [] (s.queue victim).runqueue.reverse = r
        obtain ⟨s', batch⟩ := r
        cases batch with
        | nil => exact h d
        | cons => simp [hown]
      next => cases hs
    . rw [(step_does he (by simp) hs).phase d hown]
      exact h d
  | _ =>
    rw [(step_does he (by simp) hs).phase d id]
    exact h d

theorem reach_inv {home : Fin n} {ok : State n → Event n → Prop} (hok : ∀ s e, ok s e → e.Ordinary)
    (h : Steps.Reach step ok (boot n home) s)
    : Inv ∅ s :=
  h.invariant (Inv ∅) (boot_inv home) fun _ _ _ hinv he hs => hinv.step (hok _ _ he) hs

/--
CPU 1 is about to steal from CPU 0, on which thread 2 runs and the threads 3 and 5 wait.
-/
def beforeSteal : List (Event 2) :=
  [.newThread 2 0 1024, .startThread 2 fun _ => 5, .newThread 3 0 1024, .startThread 3 fun _ => 6,
    .newThread 5 0 1024, .startThread 5 fun _ => 7, .switch 0 false (fun _ => 5) none, .commit 0,
    .newThread 4 1 1024, .startThread 4
    fun _ => 5, .switch 1 false (fun _ => 5) none, .commit 1, .sleep 1,
    .switch 1 false (fun _ => 5) none]

def midSwitch : List (Event 1) :=
  [.newThread 1 0 1024, .startThread 1 fun _ => 5, .switch 0 false (fun _ => 5) none,
    .commit 0, .newThread 2 0 1024, .startThread 2 fun _ => 3,
    .switch 0 false (fun _ => 5) none]

theorem currentThread_injective (home : Fin n)
    (h : Steps.Reach step (fun _ e => e.Ordinary) (boot n home) s)
    : Function.Injective fun c => (s.cpu c).currentThread :=
  fun _ _ heq => (reach_inv (fun _ _ => id) h).current_inj heq

theorem currentThread_injective_stolen
    : ∃ s : State 2, Steps.Reach step (fun _ e => e.Ordinary) (boot 2 0) s
        ∧ (s.cpu 0).phase = .picked (some 2) (some 3) ∧ (s.cpu 1).phase = .stealing (some 4) [5]
        ∧ Function.Injective fun c => (s.cpu c).currentThread := by
  obtain ⟨s, hreach, hpicked, hstealing⟩ :=
    Steps.Reach.exists_of_run step (fun _ e => e.Ordinary) (boot 2 0)
    (beforeSteal ++ [.steal 1 0, .switch 0 false (fun _ => 9) none])
    (fun s => (s.cpu 0).phase = .picked (some 2) (some 3)
      ∧ (s.cpu 1).phase = .stealing (some 4) [5])
    (by decide +kernel)
  exact ⟨s, hreach, hpicked, hstealing, currentThread_injective 0 hreach⟩

end Sched
