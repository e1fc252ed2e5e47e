import Skyline.Sched.Lemmas.Inv

/-!
This module contains what the sections of the scheduler do to the invariant.
-/

namespace Sched

open Function

variable {n : Nat} {s : State n} {c : Fin n} {t : Nat}

theorem pick_cases (found : Option Nat) (s : State n) (c : Fin n)
    : (∃ t, pick found s c = (some t, removeFromQueue s c t) ∧ t ∈ (s.queue c).runqueue
        ∧ (s.thread t).state = .running)
      ∨ (pick found s c = (none, s)
        ∧ ∀ t ∈ (s.queue c).runqueue, (s.thread t).state ≠ .running) := by
  have hfirst : ∀ t, firstRunnable s c = some t
      → t ∈ (s.queue c).runqueue ∧ (s.thread t).state = .running := by
    intro t ht
    exact ⟨List.mem_of_find?_eq_some ht, by simpa using List.find?_some ht⟩
  have hnone : firstRunnable s c = none
      → ∀ t ∈ (s.queue c).runqueue, (s.thread t).state ≠ .running := by
    intro hf
    simpa [firstRunnable] using hf
  have hbest : ∀ t, best found s c = some t
      → t ∈ (s.queue c).runqueue ∧ (s.thread t).state = .running := by
    intro t ht
    unfold best at ht
    split at ht
    next u =>
      split at ht
      next hu =>
        cases ht
        exact hu
      next => exact hfirst t ht
    next => exact hfirst t ht
  unfold pick
  cases hb : best found s c with
  | some t => exact .inl ⟨t, rfl, hbest t hb⟩
  | none =>
    refine .inr ⟨rfl, hnone ?_⟩
    unfold best at hb
    split at hb
    next =>
      split at hb
      next => cases hb
      next => exact hb
    next => exact hb

namespace Inv

theorem pick (h : Inv ∅ s) (found curr : Option Nat) (hbatch : (s.cpu c).phase.batch = [])
    (hcurr : ∀ u, curr = some u → (s.cpu c).currentThread = u)
    (hheld : ∀ u, Held s c u → (s.thread u).state ≠ .running)
    : Inv ∅ ((Sched.pick found s c).2.setPhase c (.picked curr (Sched.pick found s c).1)) := by
  rcases pick_cases found s c with ⟨t, hpick, ht, hrun⟩ | ⟨hpick, _⟩
  . rw [hpick]
    obtain ⟨hrq, hc⟩ := ((h.queues c).mem_iff t).mp ht
    have hrem := h.removeFromQueue hrq hc
    have hput := hrem.picked curr (some t) (by simpa using hbatch)
      (by simpa using hcurr) (c := c) ?_ ?_
    . have hempty : insert t (∅ : Set Nat) \ {u | some t = some u} = ∅ := by
        ext u
        simp
      rwa [hempty] at hput
    . intro u hu
      cases hu
      exact ⟨.inl rfl, by simpa using hc, by simp [hrun, ThreadState.Active]⟩
    . intro u hu hstate
      by_cases hut : u = t
      . rw [hut]
      . refine absurd ?_ (hheld u ?_)
        . simpa using hstate
        . simpa [Held, hut] using hu
  . rw [hpick]
    have hput := h.picked curr none hbatch hcurr (c := c) ?_ ?_
    . simpa using hput
    . intro u hu
      cases hu
    . exact fun u hu hstate => absurd hstate (hheld u hu)

theorem setZombieList (h : Inv hand s) (c : Fin n) (zombies : List Nat)
    : Inv hand (s.setCpu c { s.cpu c with zombieList := zombies }) := by
  apply h.congr
  . rfl
  . rfl
  . rfl
  all_goals
    intro d
    simp only [State.setCpu_cpu]
    split
    next heq => rw [heq]
    next => rfl

theorem pushZombie (h : Inv hand s) (c : Fin n) (t : Nat) : Inv hand (Sched.pushZombie s c t) :=
  (h.setZombieList c (t :: (s.cpu c).zombieList)).congr rfl rfl rfl (fun _ => rfl) (fun _ => rfl)
    (fun _ => rfl)

end Inv

@[simp]
theorem timerRemove_cpu (s : State n) (t : Nat) : (timerRemove s t).cpu = s.cpu := rfl

@[simp]
theorem reclaimZombieList_cpu (s : State n) (zombies : List Nat)
    : (reclaimZombieList s zombies).cpu = s.cpu := by
  unfold reclaimZombieList
  induction zombies generalizing s with
  | nil => rfl
  | cons z _ ih => exact ih (timerRemove s z)

theorem moveZombies_phase (s : State n) (c d : Fin n)
    : ((moveZombies s c).cpu d).phase = (s.cpu d).phase := by
  unfold moveZombies
  simp only
  split
  . simp only [reclaimZombieList_cpu, State.setCpu_cpu]
    split
    next heq => rw [heq]
    next => rfl
  . rfl

theorem commit_cpu (s : State n) (curr next : Option Nat)
    (hcurr : ∀ u, curr = some u → (s.cpu c).currentThread = u) (d : Fin n)
    : (commit s c curr next).cpu d = if d = c then
        { s.cpu c with currentThread := next.getD (s.cpu c).idleThread, phase := .ready }
      else
        s.cpu d := by
  unfold commit State.setPhase
  by_cases hd : d = c
  . subst hd
    simp only [State.setCpu_cpu, if_pos]
    split
    next heq => rw [← hcurr _ heq]
    next => simp
  . simp only [State.setCpu_cpu, if_neg hd]
    split
    next => rfl
    next => simp [hd]

theorem commit_thread (s : State n) (c : Fin n) (curr next : Option Nat)
    : (commit s c curr next).thread = s.thread := by
  unfold commit
  simp only [State.setPhase_thread]
  split <;> rfl

theorem commit_queue (s : State n) (c : Fin n) (curr next : Option Nat)
    : (commit s c curr next).queue = s.queue := by
  unfold commit
  simp only [State.setPhase_queue]
  split <;> rfl

theorem commit_making (s : State n) (c : Fin n) (curr next : Option Nat)
    : (commit s c curr next).making = s.making := by
  unfold commit
  simp only [State.setPhase_making]
  split <;> rfl

variable {curr : Option Nat} {s' : State n} {hand : Set Nat} {batch : List Nat}

namespace Inv

theorem moveZombies (h : Inv hand s) (c : Fin n) : Inv hand (Sched.moveZombies s c) := by
  unfold Sched.moveZombies
  simp only
  split
  . apply reclaimZombieList
    exact h.setZombieList c _
  . exact h

theorem next_of_ready (h : Inv hand s) (hphase : (s.cpu c).phase = .ready)
    (hc : (s.thread t).cpuNum = c) (d : Fin n)
    : (s.cpu d).phase.next ≠ some t := by
  intro hd
  have hdc : d = c := (h.next d t hd).2.2.1.symm.trans hc
  subst hdc
  simp [hphase] at hd

theorem putCurrent (h : Inv ∅ s) (dl : Nat → Nat) (hphase : (s.cpu c).phase = .ready)
    (hput : Sched.putCurrent dl s c = (curr, s'))
    : Inv ∅ s' ∧ (s'.cpu c).phase = .ready ∧ (∀ u, curr = some u → (s'.cpu c).currentThread = u)
      ∧ ∀ u, Held s' c u → (s'.thread u).state ≠ .running := by
  have hready : ∀ u, Held s c u → (s.cpu c).currentThread = u ∧ ¬s.Idle u := by
    rintro u (⟨_, hu, _, hi⟩ | hu)
    . exact ⟨hu, hi⟩
    . simp [hphase] at hu
  unfold Sched.putCurrent at hput
  simp only at hput
  split at hput
  next hidle =>
    cases hput
    refine ⟨h, hphase, by simp, ?_⟩
    intro u hu
    obtain ⟨rfl, hi⟩ := hready u hu
    exact absurd ⟨c, hidle.symm⟩ hi
  next hidle =>
    obtain ⟨hi, hc, hact, hmaking⟩ := (h.current c _ rfl).resolve_left hidle
    split at hput
    next hz =>
      cases hput
      refine ⟨h.pushZombie c _, by simp [Sched.pushZombie, hphase], by simp, ?_⟩
      rintro u (⟨_, hu, _, _⟩ | hu)
      . simp only [Sched.pushZombie, State.setCpu_cpu, if_pos] at hu
        rw [← hu]
        simp [Sched.pushZombie, hz]
      . simp [Sched.pushZombie, hphase] at hu
    next hrun =>
      cases hput
      refine ⟨?_, by simpa using hphase, by simp, ?_⟩
      . by_cases hrq : (s.thread (s.cpu c).currentThread).onRq = true
        . unfold Sched.insertToQueue
          rw [if_pos hrq]
          exact h
        . have hins := h.insertToQueue dl (Bool.not_eq_true _ ▸ hrq) hi hmaking hc hact
            (h.next_of_ready hphase hc)
          simpa using hins
      . rintro u (⟨_, hu, hrq, _⟩ | hu)
        . simp only [insertToQueue_cpu] at hu
          simp [hu] at hrq
        . simp [hphase] at hu
    next hz hrun =>
      cases hput
      refine ⟨h, hphase, by simp, ?_⟩
      intro u hu
      obtain ⟨rfl, _⟩ := hready u hu
      exact hrun

theorem switchLocked (h : Inv ∅ s) (dl : Nat → Nat) (found : Option Nat)
    (hphase : (s.cpu c).phase = .ready)
    : Inv ∅ (Sched.switchLocked dl found s c) := by
  unfold Sched.switchLocked
  obtain ⟨hinv, hready, hcurr, hheld⟩ := (h.moveZombies c).putCurrent dl
    (by rw [moveZombies_phase]; exact hphase) (c := c) rfl
  exact hinv.pick found _ (by simp [hready]) hcurr hheld

theorem commit (h : Inv ∅ s) {next : Option Nat} (hphase : (s.cpu c).phase = .picked curr next)
    : Inv ∅ (Sched.commit s c curr next) := by
  have hcpu := commit_cpu s curr next fun u hu =>
    h.outgoing c u (by simpa [hphase] using hu)
  have hidleThread : ∀ d, ((Sched.commit s c curr next).cpu d).idleThread
      = (s.cpu d).idleThread := by
    intro d
    rw [hcpu]
    split
    next heq => rw [heq]
    next => rfl
  have hIdle : ∀ u, (Sched.commit s c curr next).Idle u ↔ s.Idle u := by
    intro u
    simp [State.Idle, hidleThread]
  have hbatch : ∀ d, ((Sched.commit s c curr next).cpu d).phase.batch = (s.cpu d).phase.batch := by
    intro d
    rw [hcpu]
    split
    next heq => simp [heq, hphase]
    next => rfl
  have hnext : ∀ d u, ((Sched.commit s c curr next).cpu d).phase.next = some u
      → (s.cpu d).phase.next = some u := by
    intro d u hu
    rw [hcpu] at hu
    split at hu
    next => cases hu
    next => exact hu
  have hthread := commit_thread s c curr next
  have hmaking := commit_making s c curr next
  constructor
  case queues =>
    intro d
    apply (h.queues d).congr
    . rw [commit_queue]
    . simp [hthread]
    . simp [hthread]
  case outgoing =>
    intro d u hu
    rw [hcpu] at hu ⊢
    split at hu
    next => cases hu
    next hd =>
      rw [if_neg hd]
      exact h.outgoing d u hu
  all_goals simp only [hthread, hmaking, hIdle, hidleThread, hbatch]
  case idle_inj => exact h.idle_inj
  case idle => exact h.idle
  case inHand =>
    intro u hu
    cases hu
  case current =>
    intro d u hu
    rw [hcpu] at hu
    split at hu
    next heq =>
      subst heq
      cases next with
      | none => exact .inl hu.symm
      | some v =>
        cases hu
        obtain ⟨hi, _, hc, hact, hmk⟩ := h.next d v (by simp [hphase])
        exact .inr ⟨hi, hc, hact, hmk⟩
    next => exact h.current d u hu
  case next => exact fun d u hu => h.next d u (hnext d u hu)
  case batch => exact h.batch
  case batch_nodup => exact h.batch_nodup
  case batch_disjoint => exact h.batch_disjoint
  case transfer => exact h.transfer
  case runnable =>
    intro u hu
    refine (h.runnable u hu).imp_right (.imp_right (.imp_right (.imp_right ?_)))
    rintro ⟨d, hd⟩
    refine ⟨d, ?_⟩
    by_cases hdc : d = c
    . subst hdc
      have hn : next = some u := by simpa [Held, hphase] using hd
      subst hn
      obtain ⟨hi, hrq, _, _, _⟩ := h.next d u (by simp [hphase])
      left
      rw [hcpu, hthread, hIdle]
      simpa using ⟨hrq, hi⟩
    . unfold Held at hd ⊢
      rw [hcpu, hthread, hIdle, if_neg hdc]
      exact hd
  case timer => exact h.timer
  case queued => exact h.queued
  case making => exact h.making
  case making_nodup => exact h.making_nodup

theorem foldl_arrive (dl : Nat → Nat) (c : Fin n) (batch : List Nat)
    (h : Inv hand s) (hhand : ∀ u, u ∈ hand ↔ u ∈ batch) (hnodup : batch.Nodup)
    (htimer : ∀ u ∈ batch, (s.thread u).timerBucket = none)
    (hcurrent : ∀ u ∈ batch, ∀ d, (s.cpu d).currentThread ≠ u)
    : Inv ∅ (batch.foldl (Sched.arrive dl c) s)
      ∧ (batch.foldl (Sched.arrive dl c) s).cpu = s.cpu := by
  induction batch generalizing s hand with
  | nil =>
    have hempty : hand = ∅ := by
      ext u
      simp [hhand]
    rw [hempty] at h
    exact ⟨h, rfl⟩
  | cons t _ ih =>
    rw [List.nodup_cons] at hnodup
    have harr := h.arrive ((hhand t).mpr (by simp)) (htimer t (by simp)) (hcurrent t (by simp)) dl c
    have hcpu : (Sched.arrive dl c s t).cpu = s.cpu := by simp [Sched.arrive]
    have hrest := ih harr ?_ hnodup.2 ?_ ?_
    . exact ⟨hrest.1, hrest.2.trans hcpu⟩
    . intro u
      simp only [Set.mem_sdiff, hhand, List.mem_cons, Set.mem_singleton_iff]
      grind
    . intro u hu
      have hut : u ≠ t := fun heq => hnodup.1 (heq ▸ hu)
      simpa [Sched.arrive, hut] using htimer u (by simp [hu])
    . intro u hu d
      rw [hcpu]
      exact hcurrent u (by simp [hu]) d

theorem stealEnd (h : Inv ∅ s) (dl : Nat → Nat) (found : Option Nat)
    (hphase : (s.cpu c).phase = .stealing curr batch)
    : Inv ∅ (Sched.stealEnd dl found s c curr batch) := by
  have hmem : ∀ u ∈ batch, u ∈ (s.cpu c).phase.batch := by simp [hphase]
  have hcurrent : ∀ u ∈ batch, ∀ d, (s.cpu d).currentThread ≠ u := by
    intro u hu d hd
    obtain ⟨hi, _, hstate, _⟩ := h.batch c u (hmem u hu)
    rcases h.current d u hd with hidle | ⟨_, _, hact, _⟩
    . exact hi ⟨d, hidle.symm⟩
    . exact hact.2 hstate
  obtain ⟨hinv, hcpu⟩ := foldl_arrive dl c batch (h.release curr batch hphase) (by simp)
    (by simpa [hphase] using h.batch_nodup c)
    (fun u hu => (h.batch c u (hmem u hu)).2.2.2.1) (by simpa using hcurrent)
  unfold Sched.stealEnd
  have hphase' : (((batch.foldl (Sched.arrive dl c) (s.setPhase c (.picked curr none)))).cpu
    c).phase
      = .picked curr none := by
    rw [hcpu]
    simp
  apply hinv.pick found curr
  . simp [hphase']
  . intro u hu
    rw [hcpu]
    simpa using h.outgoing c u (by simpa [hphase] using hu)
  . rintro u (⟨hr, _⟩ | hu)
    . rw [hphase'] at hr
      cases hr
    . simp [hphase'] at hu

theorem not_current (h : Inv hand s) (hrq : (s.thread t).onRq = true) (hc : (s.thread t).cpuNum = c)
    (hcurrent : t ≠ (s.cpu c).currentThread) (d : Fin n)
    : (s.cpu d).currentThread ≠ t := by
  intro hd
  rcases h.current d t hd with hidle | ⟨_, hd', _, _⟩
  . have := (h.idle t ⟨d, hidle.symm⟩).2.1
    simp [hrq] at this
  . rw [hc] at hd'
    subst hd'
    exact hcurrent hd.symm

end Inv

structure Stolen (s : State n) (batch : List Nat) : Prop where
  inv : Inv {u | u ∈ batch} s
  nodup : batch.Nodup
  timer : ∀ u ∈ batch, (s.thread u).timerBucket = none
  current : ∀ u ∈ batch, ∀ d, (s.cpu d).currentThread ≠ u

theorem Stolen.stealLoop {victim : Fin n} (ts : List Nat) (h : Stolen s batch)
    (hts : ∀ u ∈ ts, (s.thread u).onRq = true ∧ (s.thread u).cpuNum = victim) (hnodup : ts.Nodup)
    : Stolen (stealLoop victim s batch ts).1 (stealLoop victim s batch ts).2
      ∧ (stealLoop victim s batch ts).1.cpu = s.cpu := by
  induction ts generalizing s batch with
  | nil => exact ⟨h, rfl⟩
  | cons t ts ih =>
    rw [List.nodup_cons] at hnodup
    obtain ⟨hrq, hc⟩ := hts t (by simp)
    have hrest : ∀ u ∈ ts, (s.thread u).onRq = true ∧ (s.thread u).cpuNum = victim :=
      fun u hu => hts u (by simp [hu])
    unfold Sched.stealLoop
    split
    next =>
      split
      next => exact ih h hrest hnodup.2
      next hskip =>
        simp only [stealSkips, Bool.or_eq_true, beq_iff_eq, bne_iff_ne, not_or, not_not] at hskip
        have hnot : t ∉ batch := by
          intro ht
          have := (h.inv.inHand t ht).1
          simp [hrq] at this
        have hset : insert t {u | u ∈ batch} = {u | u ∈ batch ++ [t]} := by
          ext u
          simp [or_comm]
        have hstolen : Stolen (removeFromQueue s victim t) (batch ++ [t]) := by
          constructor
          . rw [← hset]
            exact h.inv.removeFromQueue hrq hc
          . rw [List.nodup_append]
            refine ⟨h.nodup, by simp, ?_⟩
            intro u hu v hv
            rw [List.mem_singleton.mp hv]
            rintro rfl
            exact hnot hu
          . intro u hu
            rw [removeFromQueue_timerBucket]
            rcases List.mem_append.mp hu with hu | hu
            . exact h.timer u hu
            . rw [List.mem_singleton.mp hu]
              exact hskip.2
          . intro u hu d
            rw [removeFromQueue_cpu]
            rcases List.mem_append.mp hu with hu | hu
            . exact h.current u hu d
            . rw [List.mem_singleton.mp hu]
              exact h.inv.not_current hrq hc hskip.1.1.1 d
        have := ih hstolen ?_ hnodup.2
        . simpa using this
        . intro u hu
          have hut : u ≠ t := fun heq => hnodup.1 (heq ▸ hu)
          simpa [hut] using hrest u hu
    next => exact ⟨h, rfl⟩

theorem foldl_setTransfer_thread (s : State n) (batch : List Nat) (u : Nat)
    : (batch.foldl (fun s t => s.setState t .transfer) s).thread u
      = if u ∈ batch then { s.thread u with state := .transfer } else s.thread u := by
  induction batch generalizing s with
  | nil => rfl
  | cons t _ ih =>
    rw [List.foldl_cons, ih]
    by_cases hut : u = t
    . subst hut
      simp [State.setState]
    . simp [State.setState, hut]

theorem foldl_setTransfer_cpu (s : State n) (batch : List Nat)
    : (batch.foldl (fun s t => s.setState t .transfer) s).cpu = s.cpu := by
  induction batch generalizing s with
  | nil => rfl
  | cons t _ ih => exact ih (s.setState t .transfer)

theorem Inv.foldl_setTransfer (h : Inv hand s) (batch : List Nat)
    (hhand : ∀ u ∈ batch, u ∈ hand) (htimer : ∀ u ∈ batch, (s.thread u).timerBucket = none)
    (hcurrent : ∀ u ∈ batch, ∀ d, (s.cpu d).currentThread ≠ u)
    : Inv hand (batch.foldl (fun s t => s.setState t .transfer) s) := by
  induction batch generalizing s with
  | nil => exact h
  | cons t _ ih =>
    apply ih (h.setThread_inHand (hhand t (by simp)) (htimer t (by simp)) (hcurrent t (by simp))
      { s.thread t with state := .transfer } rfl rfl)
    . exact fun u hu => hhand u (by simp [hu])
    . intro u hu
      have := htimer u (by simp [hu])
      by_cases hut : u = t
      . subst hut
        simpa [State.setState] using this
      . simpa [State.setState, hut] using this
    . exact fun u hu d => hcurrent u (by simp [hu]) d

theorem removeFromQueue_setState (s : State n) (c : Fin n) (t : Nat) (state : ThreadState)
    : removeFromQueue (s.setState t state) c t = (removeFromQueue s c t).setState t state := by
  unfold removeFromQueue
  by_cases hrq : (s.thread t).onRq = true
  . rw [if_pos (by simpa [State.setState] using hrq), if_pos hrq]
    simp only [State.setState, State.setThread, State.setQueue, update_self,
      update_idem]
    rfl
  . rw [if_neg (by simpa [State.setState] using hrq), if_neg hrq]

theorem arrive_removeFromQueue_setState (dl : Nat → Nat) (s : State n) (c target : Fin n) (t : Nat)
    (state : ThreadState)
    : arrive dl target (removeFromQueue (s.setState t state) c t) t
      = arrive dl target (removeFromQueue s c t) t := by
  rw [removeFromQueue_setState]
  simp [arrive, State.setState, State.setThread]

namespace Inv

theorem reverse_queue (h : Inv hand s) (c : Fin n)
    : (∀ u ∈ (s.queue c).runqueue.reverse, (s.thread u).onRq = true ∧ (s.thread u).cpuNum = c)
      ∧ (s.queue c).runqueue.reverse.Nodup := by
  constructor
  . intro u hu
    exact ((h.queues c).mem_iff u).mp (List.mem_reverse.mp hu)
  . exact List.nodup_reverse.mpr (h.queues c).nodup

section

variable (h : Inv ∅ s)
include h

theorem stealFrom (victim : Fin n)
    (hphase : (s.cpu c).phase = .picked curr none)
    : Inv ∅ (Sched.stealFrom s c victim curr) := by
  have hstart : Stolen s [] := ⟨by simpa using h, by simp, by simp, by simp⟩
  obtain ⟨hts, hnodup⟩ := h.reverse_queue victim
  obtain ⟨hstolen, hcpu⟩ := hstart.stealLoop _ hts hnodup
  unfold Sched.stealFrom
  generalize stealLoop victim s [] (s.queue victim).runqueue.reverse = r at *
  obtain ⟨s', batch⟩ := r
  cases batch with
  | nil => exact h
  | cons t batch =>
    have hmark := hstolen.inv.foldl_setTransfer _ (fun _ => id) hstolen.timer hstolen.current
    apply hmark.stealing curr (t :: batch)
    . rw [foldl_setTransfer_cpu, hcpu]
      exact hphase
    . exact fun u => Iff.rfl
    . exact hstolen.nodup
    . intro u hu
      rw [foldl_setTransfer_thread, if_pos hu]
      exact ⟨rfl, hstolen.timer u hu⟩

theorem pushLoop (dl : Nat → Nat) (target : Fin n) (pushed : Nat) (ts : List Nat)
    (hts : ∀ u ∈ ts, (s.thread u).onRq = true ∧ (s.thread u).cpuNum = c) (hnodup : ts.Nodup)
    : Inv ∅ (Sched.pushLoop dl c target s pushed ts) := by
  induction ts generalizing s pushed with
  | nil => exact h
  | cons t ts ih =>
    rw [List.nodup_cons] at hnodup
    obtain ⟨hrq, hc⟩ := hts t (by simp)
    have hrest : ∀ u ∈ ts, (s.thread u).onRq = true ∧ (s.thread u).cpuNum = c :=
      fun u hu => hts u (by simp [hu])
    unfold Sched.pushLoop
    split
    next =>
      split
      next => exact ih h pushed hrest hnodup.2
      next hskip =>
        simp only [pushSkips, Bool.or_eq_true, beq_iff_eq, bne_iff_ne, not_or, not_not] at hskip
        simp only [arrive_removeFromQueue_setState]
        have hrem := h.removeFromQueue hrq hc
        have harr := hrem.arrive (t := t) (.inl rfl)
          (by rw [removeFromQueue_timerBucket]; exact hskip.1.2)
          (by rw [removeFromQueue_cpu]; exact h.not_current hrq hc hskip.1.1.1) dl target
        rw [Set.insert_sdiff_self_of_notMem (Set.notMem_empty t)] at harr
        apply ih harr _ _ hnodup.2
        intro u hu
        have hut : u ≠ t := fun heq => hnodup.1 (heq ▸ hu)
        simpa [Sched.arrive, hut] using hrest u hu
    next => exact h

theorem tryPush (dl : Nat → Nat) (c target : Fin n)
    : Inv ∅ (Sched.tryPush dl s c target) := by
  obtain ⟨hts, hnodup⟩ := h.reverse_queue c
  have hloop := h.pushLoop dl target 0 _ hts hnodup
  unfold Sched.tryPush
  simp only
  split
  next hlt =>
    have hcount := (hloop.queues c).counted
    have hsame : { (Sched.pushLoop dl c target s 0 (s.queue c).runqueue.reverse).queue c with
        hasSurplus := false }
        = (Sched.pushLoop dl c target s 0 (s.queue c).runqueue.reverse).queue c := by
      have hfalse : ((Sched.pushLoop dl c target s 0 (s.queue c).runqueue.reverse).queue
        c).hasSurplus
          = false := by
        rw [hcount.hasSurplus, ← hcount.threadCount]
        simpa using hlt
      rw [← hfalse]
    rw [hsame]
    unfold State.setQueue
    rw [update_eq_self]
    exact hloop
  next => exact hloop

theorem sleep (hphase : (s.cpu c).currentThread ≠ (s.cpu c).idleThread)
    : Inv ∅ (Sched.sleep s c) := by
  obtain ⟨hidle, hc, hact, hmaking⟩ := (h.current c _ rfl).resolve_left hphase
  apply h.setThread
  . rfl
  . exact fun _ => rfl
  . exact fun hi => absurd hi hidle
  . exact .inl ⟨rfl, .inr ⟨hact, by simp [ThreadState.Active]⟩⟩
  . intro d hd
    cases hd
    exact ⟨hc, by simp [ThreadState.Active], hmaking⟩
  . intro hu
    cases hu

theorem wakeupTimerThread (dl : Nat → Nat) (hphase : (s.cpu c).phase = .ready)
    (htimer : (s.thread t).state = .sleeping → (s.thread t).timerBucket = some c)
    : Inv ∅ (Sched.wakeupTimerThread dl c s t) := by
  have hrem := h.timerRemove t
  unfold Sched.wakeupTimerThread
  simp only
  split
  next hsleep =>
    have hs : (s.thread t).state = .sleeping := by simpa [Sched.timerRemove] using hsleep
    obtain ⟨hc, _, hmaking⟩ := h.timer c t (htimer hs)
    have hidle : ¬s.Idle t := fun hi => by simp [(h.idle t hi).1] at hs
    have hwake : ∀ hand : Set Nat, Inv hand (Sched.timerRemove s t)
        → (t ∈ hand ∨ (s.thread t).onRq = true)
        → Inv hand ((Sched.timerRemove s t).setState t .running) := by
      intro hand hi ht
      apply hi.setThread
      . rfl
      . exact fun _ => rfl
      . exact fun hi => absurd (by simpa [Sched.timerRemove] using hi) hidle
      . exact .inl ⟨rfl, .inr ⟨by simp [hsleep, ThreadState.Active], by simp [ThreadState.Active]⟩⟩
      . intro d hd
        simp [Sched.timerRemove] at hd
      . intro _
        refine .inr (ht.imp_right fun hrq => ?_)
        simpa [Sched.timerRemove] using hrq
    by_cases hrq : (s.thread t).onRq = true
    . have := hwake ∅ hrem (.inr hrq)
      unfold Sched.insertToQueue
      rw [if_pos (by simpa [Sched.timerRemove, State.setState] using hrq)]
      exact this
    . have hrq : (s.thread t).onRq = false := Bool.not_eq_true _ ▸ hrq
      have htake := hrem.take (t := t) (by simpa [Sched.timerRemove] using hidle)
        (by simpa [Sched.timerRemove] using hrq) hmaking (h.next_of_ready hphase hc)
        (fun d hd => by simp [(h.batch d t hd).2.2.1] at hs)
      have hins := (hwake _ htake (.inl (.inl rfl))).insertToQueue dl (t := t) (c := c)
        (by simpa [Sched.timerRemove, State.setState] using hrq)
        (by simpa [Sched.timerRemove, State.setState] using hidle) hmaking
        (by simpa [Sched.timerRemove, State.setState] using hc)
        (by simp [State.setState, ThreadState.Active]) (h.next_of_ready hphase hc)
      rwa [Set.insert_sdiff_self_of_notMem (Set.notMem_empty t)] at hins
  next => exact hrem

theorem tick (dl : Nat → Nat) (expired : List Nat) (hphase : (s.cpu c).phase = .ready)
    (htimer : ∀ t ∈ expired, (s.thread t).state = .sleeping → (s.thread t).timerBucket = some c)
    : Inv ∅ (expired.foldl (Sched.wakeupTimerThread dl c) s) := by
  induction expired generalizing s with
  | nil => exact h
  | cons t _ ih =>
    have hcpu : (Sched.wakeupTimerThread dl c s t).cpu = s.cpu := by
      unfold Sched.wakeupTimerThread
      simp only
      split
      . simp [State.setState]
      . rfl
    apply ih (h.wakeupTimerThread dl hphase (htimer t (by simp)))
    . rw [hcpu]
      exact hphase
    . intro u hu hsleep
      have hold := htimer u (by simp [hu])
      by_cases hut : u = t
      . subst hut
        exfalso
        unfold Sched.wakeupTimerThread at hsleep
        simp only at hsleep
        split at hsleep
        next => simp [State.setState] at hsleep
        next hne => exact hne hsleep
      . unfold Sched.wakeupTimerThread at hsleep ⊢
        simp only at hsleep ⊢
        split at hsleep
        next heq =>
          rw [if_pos heq]
          simp [State.setState, Sched.timerRemove, hut] at hsleep ⊢
          exact hold hsleep
        next hne =>
          rw [if_neg hne]
          simp [Sched.timerRemove, hut] at hsleep ⊢
          exact hold hsleep

theorem fresh (ht : (s.thread t).state = .init)
    : ¬s.Idle t ∧ (s.thread t).onRq = false ∧ t ∉ s.making ∧ (∀ d, (s.cpu d).currentThread ≠ t)
      ∧ (∀ d, (s.cpu d).phase.next ≠ some t) ∧ (∀ d, t ∉ (s.cpu d).phase.batch)
      ∧ (s.thread t).timerBucket = none := by
  have hact : ¬(s.thread t).state.Active := fun ha => ha.1 ht
  have hidle : ¬s.Idle t := fun hi => by simp [(h.idle t hi).1] at ht
  refine ⟨hidle, ?_, fun hm => hact (h.making t hm), ?_, ?_, ?_, ?_⟩
  . by_contra hrq
    exact hact (h.queued t (Bool.not_eq_false _ ▸ hrq)).1
  . intro d hd
    rcases h.current d t hd with hi | hi
    . exact hidle ⟨d, hi.symm⟩
    . exact hact hi.2.2.1
  . exact fun d hd => hact (h.next d t hd).2.2.2.1
  . exact fun d hd => by simp [(h.batch d t hd).2.2.1] at ht
  . cases hb : (s.thread t).timerBucket with
    | none => rfl
    | some d => exact absurd (h.timer d t hb).2.1 hact

end

theorem onRq_of_making (h : Inv hand s) (ht : t ∈ s.making) : (s.thread t).onRq = false := by
  by_contra hq
  exact (h.queued t (Bool.not_eq_false _ ▸ hq)).2 ht

theorem setMaking {hand' : Set Nat} (h : Inv hand s) (making : List Nat) (hnodup : making.Nodup)
    (hmade : ∀ u ∈ making, u ∈ s.making ∨ u ∈ hand ∧ (s.thread u).state.Active
      ∧ (s.thread u).timerBucket = none ∧ ∀ d, (s.cpu d).currentThread ≠ u)
    (hhand : ∀ u ∈ hand', u ∉ making ∧ (u ∈ hand ∨ u ∈ s.making))
    (hkept : ∀ u, u ∈ s.making ∨ u ∈ hand → u ∈ making ∨ u ∈ hand')
    : Inv hand' { s with making } := by
  have hnot : ∀ u, u ∉ s.making → u ∉ hand → u ∉ making := fun u hm hh hu =>
    (hmade u hu).elim hm fun hin => hh hin.1
  constructor
  case queues => exact fun d => (h.queues d).congr rfl (fun _ => .rfl) (fun _ _ => rfl)
  case idle_inj => exact h.idle_inj
  case batch_nodup => exact h.batch_nodup
  case batch_disjoint => exact h.batch_disjoint
  case outgoing => exact h.outgoing
  case making_nodup => exact hnodup
  case making => exact fun u hu => (hmade u hu).elim (h.making u) fun hin => hin.2.1
  case idle =>
    intro u hu
    obtain ⟨hrun, hrq, htimer, hm, hh⟩ := h.idle u hu
    exact ⟨hrun, hrq, htimer, hnot u hm hh, fun hin => (hhand u hin).2.elim hh hm⟩
  case inHand =>
    intro u hu
    obtain ⟨hm, hin | hin⟩ := hhand u hu
    . obtain ⟨hrq, -, hnext, hbatch⟩ := h.inHand u hin
      exact ⟨hrq, hm, hnext, hbatch⟩
    . exact ⟨h.onRq_of_making hin, hm, fun d hd => (h.next d u hd).2.2.2.2 hin,
        fun d hd => (h.batch d u hd).2.2.2.2 hin⟩
  case current =>
    intro d u hu
    refine (h.current d u hu).imp_right fun ⟨hi, hc, hact, hm⟩ => ⟨hi, hc, hact, fun hin => ?_⟩
    exact (hmade u hin).elim hm fun hin => hin.2.2.2 d hu
  case next =>
    intro d u hu
    obtain ⟨hi, hrq, hc, hact, hm⟩ := h.next d u hu
    exact ⟨hi, hrq, hc, hact, hnot u hm fun hin => (h.inHand u hin).2.2.1 d hu⟩
  case batch =>
    intro d u hu
    obtain ⟨hi, hrq, hstate, hb, hm⟩ := h.batch d u hu
    exact ⟨hi, hrq, hstate, hb, hnot u hm fun hin => (h.inHand u hin).2.2.2 d hu⟩
  case transfer =>
    intro u hu
    refine (h.transfer u hu).imp_left fun hin => (hkept u (.inr hin)).resolve_left fun hm => ?_
    rcases hmade u hm with hm | hin
    . exact (h.making u hm).2 hu
    . exact hin.2.1.2 hu
  case runnable =>
    intro u hu
    rcases h.runnable u hu with hi | hm | hin | hrest
    . exact .inl hi
    . exact .inr ((hkept u (.inl hm)).imp_right .inl)
    . exact .inr ((hkept u (.inr hin)).imp_right .inl)
    . exact .inr (.inr (.inr hrest))
  case timer =>
    intro d u hu
    obtain ⟨hc, hact, hm⟩ := h.timer d u hu
    refine ⟨hc, hact, fun hin => (hmade u hin).elim hm fun hin => ?_⟩
    rw [hin.2.2.1] at hu
    cases hu
  case queued =>
    intro u hu
    obtain ⟨hact, hm⟩ := h.queued u hu
    refine ⟨hact, hnot u hm fun hin => ?_⟩
    rw [(h.inHand u hin).1] at hu
    cases hu

theorem newThread (h : Inv ∅ s) (c : Fin n) (weight : Nat)
    (ht : (s.thread t).state = .init)
    : Inv ∅ (Sched.newThread s t c weight) := by
  obtain ⟨hidle, hrq, hmaking, hcurrent, hnext, hbatch, htimer⟩ := h.fresh ht
  have hset := (h.take hidle hrq hmaking hnext hbatch).setThread_inHand (.inl rfl) htimer hcurrent
    ⟨.running, c, c, none, false, false, weight, 0⟩ hrq.symm htimer.symm
  refine hset.setMaking (t :: s.making) (List.nodup_cons.mpr ⟨hmaking, h.making_nodup⟩) ?_ nofun ?_
  . intro u hu
    rcases List.mem_cons.mp hu with rfl | hu
    . exact .inr ⟨.inl rfl, by simp [ThreadState.Active], by simp, hcurrent⟩
    . exact .inl hu
  . rintro u (hu | rfl | hu)
    . exact .inl (List.mem_cons_of_mem _ hu)
    . exact .inl List.mem_cons_self
    . exact .inr hu

theorem takeMaking (h : Inv ∅ s) (ht : t ∈ s.making)
    : Inv {t} { s with making := s.making.erase t } := by
  have hmem : ∀ u, u ∈ s.making.erase t ↔ u ≠ t ∧ u ∈ s.making := fun u =>
    h.making_nodup.mem_erase_iff
  refine h.setMaking (s.making.erase t) (h.making_nodup.erase t) ?_ ?_ ?_
  . exact fun u hu => .inl ((hmem u).mp hu).2
  . rintro u rfl
    exact ⟨fun hu => ((hmem u).mp hu).1 rfl, .inr ht⟩
  . rintro u (hu | hu)
    . by_cases hut : u = t
      . exact .inr hut
      . exact .inl ((hmem u).mpr ⟨hut, hu⟩)
    . cases hu

theorem startThread (h : Inv ∅ s) (dl : Nat → Nat) (ht : t ∈ s.making)
    : Inv ∅ (Sched.startThread dl s t) := by
  have hrq := h.onRq_of_making ht
  have hcount := (h.queues (s.thread t).cpuNum).counted
  -- The flag is set by the insertion in any case.
  have heq : Sched.startThread dl s t
      = Sched.insertToQueue dl { s with making := s.making.erase t } (s.thread t).cpuNum t := by
    unfold Sched.startThread
    by_cases hflag : (s.queue (s.thread t).cpuNum).hasRunnableThread = true
    . have hsame : { s.queue (s.thread t).cpuNum with hasRunnableThread := true }
          = s.queue (s.thread t).cpuNum := by
        rw [← hflag]
      simp only [hsame, State.setQueue, update_eq_self]
    . have hnil : (s.queue (s.thread t).cpuNum).runqueue = [] := by
        rw [hcount.hasRunnableThread, decide_eq_true_eq] at hflag
        exact List.length_eq_zero_iff.mp (by omega)
      have hzero : (s.queue (s.thread t).cpuNum).threadCount = 0 := by
        rw [hcount.threadCount, hnil]
        rfl
      unfold Sched.insertToQueue
      simp [hrq, hzero, hnil, State.setQueue, State.setThread]
  rw [heq]
  have htake := h.takeMaking ht
  have hins := htake.insertToQueue dl (t := t) (c := (s.thread t).cpuNum) hrq
    (fun hi => (htake.idle t hi).2.2.2.2 rfl) (htake.inHand t rfl).2.1 rfl (h.making t ht)
    (htake.inHand t rfl).2.2.1
  simpa using hins

theorem pin (h : Inv ∅ s) (t : Nat) : Inv ∅ (s.setThread t { s.thread t with pinned := true }) := by
  refine h.setThread _ rfl (fun _ => rfl) ?_ (.inl ⟨rfl, .inl rfl⟩) (fun d => h.timer d t) .inl
  intro hi
  exact ⟨(h.idle t hi).1, (h.idle t hi).2.2.1⟩

theorem idle_reclaim (h : Inv ∅ s) (c : Fin n)
    : Inv ∅ (Sched.reclaimZombieList (s.setCpu c { s.cpu c with zombieList := [] })
      (s.cpu c).zombieList) :=
  (h.setZombieList c []).reclaimZombieList _

end Inv

def Event.Ordinary : Event n → Prop
  | .killThreadBatch _ _ _ | .killThread _ _ | .transferTimeout _ | .exit _ => False
  | _ => True

instance (e : Event n) : Decidable e.Ordinary := by
  cases e <;> simp only [Event.Ordinary] <;> infer_instance

theorem Inv.step {e : Event n} (h : Inv ∅ s) (he : e.Ordinary)
    (hs : step s e = some s')
    : Inv ∅ s' := by
  cases e with
  | newThread _ c weight =>
    simp only [Sched.step, Option.ite_none_right_eq_some, Option.some.injEq] at hs
    exact hs.2 ▸ h.newThread c weight hs.1
  | startThread _ dl =>
    simp only [Sched.step, Option.ite_none_right_eq_some, Option.some.injEq] at hs
    exact hs.2 ▸ h.startThread dl hs.1
  | pin t =>
    simp only [Sched.step, Option.ite_none_left_eq_some, Option.some.injEq] at hs
    exact hs.2 ▸ h.pin t
  | switch _ _ dl found =>
    simp only [Sched.step] at hs
    split at hs
    next hphase =>
      cases hs
      split
      . exact h
      . exact h.switchLocked dl found hphase
    next => cases hs
  | tryPush c target dl =>
    simp only [Sched.step] at hs
    split at hs
    next => cases hs
    next =>
      simp only [Option.ite_none_left_eq_some, Option.some.injEq] at hs
      exact hs.2 ▸ h.tryPush dl c target
  | steal _ victim =>
    simp only [Sched.step] at hs
    split at hs
    next hphase =>
      simp only [Option.ite_none_left_eq_some, Option.some.injEq] at hs
      exact hs.2 ▸ h.stealFrom victim hphase
    next => cases hs
  | stealEnd _ dl found =>
    simp only [Sched.step] at hs
    split at hs
    next hphase =>
      cases hs
      exact h.stealEnd dl found hphase
    next => cases hs
  | commit =>
    simp only [Sched.step] at hs
    split at hs
    next hphase =>
      cases hs
      exact h.commit hphase
    next => cases hs
  | idle c =>
    simp only [Sched.step, Option.ite_none_right_eq_some, Option.some.injEq] at hs
    exact hs.2 ▸ h.idle_reclaim c
  | sleep =>
    simp only [Sched.step, Option.ite_none_right_eq_some, Option.some.injEq] at hs
    exact hs.2 ▸ h.sleep hs.1.2
  | tick _ expired dl =>
    simp only [Sched.step, Option.ite_none_right_eq_some, Option.some.injEq] at hs
    exact hs.2 ▸ h.tick dl expired hs.1.1 fun t ht _ => hs.1.2 t ht
  | killThreadBatch => exact he.elim
  | killThread => exact he.elim
  | transferTimeout => exact he.elim
  | exit => exact he.elim

theorem boot_idle (home : Fin n) (t : Nat) : (boot n home).Idle t ↔ t < n := by
  constructor
  . rintro ⟨c, rfl⟩
    exact c.isLt
  . intro h
    exact ⟨⟨t, h⟩, rfl⟩

theorem boot_inv (home : Fin n) : Inv ∅ (boot n home) := by
  have hrq : ∀ t, ((boot n home).thread t).onRq = false := by
    intro t
    simp only [boot]
    split <;> rfl
  have htimer : ∀ t, ((boot n home).thread t).timerBucket = none := by
    intro t
    simp only [boot]
    split <;> rfl
  have hstate : ∀ t, ((boot n home).thread t).state = if t < n then .running else .init := by
    intro t
    simp only [boot]
    split <;> rfl
  constructor
  case queues =>
    intro c
    refine ⟨List.nodup_nil, ?_, ⟨rfl, rfl, rfl, rfl⟩⟩
    intro t
    rw [hrq]
    simp [boot]
  case idle_inj => exact fun c d h => Fin.ext h
  case idle =>
    intro t ht
    rw [boot_idle] at ht
    exact ⟨by rw [hstate, if_pos ht], hrq t, htimer t, by simp [boot], id⟩
  case current => exact fun c t ht => .inl ht.symm
  case transfer =>
    intro t ht
    rw [hstate] at ht
    split at ht <;> cases ht
  case runnable =>
    intro t ht
    rw [hstate] at ht
    split at ht
    next hlt => exact .inl ((boot_idle home t).mpr hlt)
    next => cases ht
  case timer =>
    intro c t ht
    rw [htimer] at ht
    cases ht
  case queued =>
    intro t ht
    rw [hrq] at ht
    cases ht
  case batch_nodup => exact fun _ => List.nodup_nil
  case making_nodup => exact List.nodup_nil
  all_goals simp [boot]

end Sched
