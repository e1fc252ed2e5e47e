import Skyline.Sched.Lemmas.Events

/-!
This module contains what a step of the scheduler may do to the threads and the CPUs.
-/

namespace Sched

variable {n : Nat} {s s' s'' : State n} {c : Fin n} {t : Nat}

structure Effect (n : Nat) where
  /-- the CPUs whose `Switch` goes on -/
  own : Fin n → Prop := fun _ => False
  /-- the threads put into a queue -/
  inserts : Nat → Prop := fun _ => False
  /-- the threads given to a CPU -/
  moves : Nat → Prop := fun _ => False
  /-- the threads taken into a batch -/
  takes : Nat → Prop := fun _ => False
  /-- the threads created or pinned -/
  marks : Nat → Prop := fun _ => False

structure Does (f : Effect n) (s s' : State n) : Prop where
  current : ∀ c, (s'.cpu c).currentThread = (s.cpu c).currentThread
  idle : ∀ c, (s'.cpu c).idleThread = (s.cpu c).idleThread
  phase : ∀ c, ¬ f.own c → (s'.cpu c).phase = (s.cpu c).phase
  batch : ∀ c u, u ∈ (s'.cpu c).phase.batch → u ∈ (s.cpu c).phase.batch ∨ f.takes u
  onRq : ∀ u, (s'.thread u).onRq = true → (s.thread u).onRq = true ∨ f.inserts u
  cpuNum : ∀ u, (s'.thread u).cpuNum = (s.thread u).cpuNum ∨ f.moves u
  pinned : ∀ u, (s'.thread u).pinned = (s.thread u).pinned ∨ f.marks u
  init : ∀ u, (s'.thread u).state = .init → (s.thread u).state = .init

namespace Does

variable {f : Effect n}

theorem of_thread (hthread : s'.thread = s.thread)
    (hcpu : ∀ c, ∃ zombies, s'.cpu c = { s.cpu c with zombieList := zombies })
    : Does f s s' := by
  have hfields : ∀ c, (s'.cpu c).currentThread = (s.cpu c).currentThread
      ∧ (s'.cpu c).idleThread = (s.cpu c).idleThread ∧ (s'.cpu c).phase = (s.cpu c).phase := by
    intro c
    obtain ⟨zombies, hc⟩ := hcpu c
    simp [hc]
  exact ⟨fun c => (hfields c).1, fun c => (hfields c).2.1, fun c _ => (hfields c).2.2,
    fun c u hu => .inl ((hfields c).2.2 ▸ hu), fun u hu => .inl (hthread ▸ hu), by simp [hthread],
    by simp [hthread], by simp [hthread]⟩

theorem refl : Does f s s := of_thread rfl fun _ => ⟨_, rfl⟩

theorem trans (h : Does f s s') (h' : Does f s' s'') : Does f s s'' where
  current c := (h'.current c).trans (h.current c)
  idle c := (h'.idle c).trans (h.idle c)
  phase c hc := (h'.phase c hc).trans (h.phase c hc)
  batch c u hu := (h'.batch c u hu).elim (h.batch c u) .inr
  onRq u hu := (h'.onRq u hu).elim (h.onRq u) .inr
  cpuNum u := (h'.cpuNum u).elim (fun heq => heq ▸ h.cpuNum u) .inr
  pinned u := (h'.pinned u).elim (fun heq => heq ▸ h.pinned u) .inr
  init u hu := h.init u (h'.init u hu)

theorem setThread (s : State n) (t : Nat) (th : Thread n)
    (honRq : th.onRq = true → (s.thread t).onRq = true)
    (hcpuNum : th.cpuNum = (s.thread t).cpuNum ∨ f.moves t)
    (hpinned : th.pinned = (s.thread t).pinned ∨ f.marks t)
    (hinit : th.state = .init → (s.thread t).state = .init)
    : Does f s (s.setThread t th) := by
  refine ⟨fun _ => rfl, fun _ => rfl, fun _ _ => rfl, fun _ _ => .inl, fun u hu => .inl ?_,
    fun u => ?_, fun u => ?_, fun u hu => ?_⟩
  all_goals
    by_cases heq : u = t
    . subst heq
      simp_all
    . simp_all

theorem setZombieList (s : State n) (c : Fin n) (zombies : List Nat)
    : Does f s (s.setCpu c { s.cpu c with zombieList := zombies }) := by
  refine of_thread rfl fun d => ?_
  rw [State.setCpu_cpu]
  split
  next heq => exact ⟨zombies, by rw [heq]⟩
  next => exact ⟨_, rfl⟩

theorem setPhase (s : State n) (c : Fin n) (phase : Phase) (hc : f.own c)
    (hbatch : ∀ t ∈ phase.batch, t ∈ (s.cpu c).phase.batch ∨ f.takes t)
    : Does f s (s.setPhase c phase) := by
  refine ⟨by simp, by simp, fun d hd => ?_, fun d u hu => ?_, fun _ => .inl, fun _ => .inl rfl,
    fun _ => .inl rfl, fun _ => id⟩
  . have hne : d ≠ c := fun heq => hd (heq ▸ hc)
    rw [State.setPhase_phase, if_neg hne]
  . rw [State.setPhase_phase] at hu
    split at hu
    next heq => exact heq ▸ hbatch u hu
    next => exact .inl hu

theorem insertToQueue (dl : Nat → Nat) (s : State n) (c : Fin n) (t : Nat) (ht : f.inserts t)
    : Does f s (Sched.insertToQueue dl s c t) := by
  refine ⟨by simp, by simp, by simp, by simp +contextual, fun u hu => ?_, by simp, by simp, by simp⟩
  rw [insertToQueue_onRq, Bool.or_eq_true, beq_iff_eq] at hu
  exact hu.elim (fun heq => .inr (heq ▸ ht)) .inl

theorem removeFromQueue (s : State n) (c : Fin n) (t : Nat)
    : Does f s (Sched.removeFromQueue s c t) := by
  refine ⟨by simp, by simp, by simp, by simp +contextual,
    fun u hu => .inl ?_, by simp, by simp, by simp⟩
  rw [removeFromQueue_onRq, Bool.and_eq_true] at hu
  exact hu.2

theorem arrive (dl : Nat → Nat) (c : Fin n) (s : State n) (t : Nat) (hins : f.inserts t)
    (hmove : f.moves t)
    : Does f s (Sched.arrive dl c s t) := by
  refine .trans ?_ (insertToQueue dl _ c t hins)
  exact setThread s t _ id (.inr hmove) (.inl rfl) nofun

theorem foldl (g : State n → Nat → State n) (ts : List Nat) (s : State n)
    (hg : ∀ s, ∀ t ∈ ts, Does f s (g s t))
    : Does f s (ts.foldl g s) := by
  induction ts generalizing s with
  | nil => exact refl
  | cons t _ ih => exact (hg s t (by simp)).trans (ih _ fun s u hu => hg s u (by simp [hu]))

theorem timerRemove (s : State n) (t : Nat) : Does f s (Sched.timerRemove s t) :=
  setThread s t _ id (.inl rfl) (.inl rfl) id

theorem setState (s : State n) (t : Nat) (state : ThreadState) (hstate : state ≠ .init)
    : Does f s (s.setState t state) :=
  setThread s t _ id (.inl rfl) (.inl rfl) fun h => absurd h hstate

theorem moveZombies (s : State n) (c : Fin n) : Does f s (Sched.moveZombies s c) := by
  unfold Sched.moveZombies
  simp only
  split
  . exact (setZombieList s c _).trans (foldl _ _ _ fun s t _ => timerRemove s t)
  . exact refl

theorem putCurrent (dl : Nat → Nat) (s : State n) (c : Fin n)
    (hc : f.inserts (s.cpu c).currentThread)
    : Does f s (Sched.putCurrent dl s c).2 := by
  unfold Sched.putCurrent
  simp only
  split
  . exact refl
  . split
    . exact (setZombieList s c _).trans (of_thread rfl fun _ => ⟨_, rfl⟩)
    . exact insertToQueue dl s c _ hc
    . exact refl

theorem pick (found : Option Nat) (s : State n) (c : Fin n)
    : Does f s (Sched.pick found s c).2 := by
  rcases pick_cases found s c with ⟨u, hpick, _⟩ | ⟨hpick, _⟩
  . rw [hpick]
    exact removeFromQueue s c u
  . rw [hpick]
    exact refl

theorem stealLoop (victim : Fin n) (s : State n) (batch ts : List Nat)
    : Does f s (Sched.stealLoop victim s batch ts).1
      ∧ ∀ t ∈ (Sched.stealLoop victim s batch ts).2, t ∈ batch ∨ t ∈ ts := by
  induction ts generalizing s batch with
  | nil => exact ⟨refl, fun _ => .inl⟩
  | cons u ts ih =>
    unfold Sched.stealLoop
    split
    . split
      . exact ⟨(ih s batch).1, fun t ht => ((ih s batch).2 t ht).imp_right (List.mem_cons_of_mem u)⟩
      . obtain ⟨hloop, hmem⟩ := ih (Sched.removeFromQueue s victim u) (batch ++ [u])
        refine ⟨(removeFromQueue s victim u).trans hloop, fun t ht => ?_⟩
        have := hmem t ht
        grind
    . exact ⟨refl, fun _ => .inl⟩

theorem stealFrom (s : State n) (c victim : Fin n) (curr : Option Nat) (hc : f.own c)
    (htakes : ∀ t ∈ (s.queue victim).runqueue, f.takes t)
    : Does f s (Sched.stealFrom s c victim curr) := by
  obtain ⟨hloop, hmem⟩ := stealLoop (f := f) victim s [] (s.queue victim).runqueue.reverse
  unfold Sched.stealFrom
  generalize Sched.stealLoop victim s [] (s.queue victim).runqueue.reverse = r at *
  obtain ⟨s', batch⟩ := r
  cases batch with
  | nil => exact refl
  | cons t batch =>
    refine (hloop.trans (foldl _ _ s' fun s t _ => setState s t .transfer nofun)).trans
      (setPhase _ c _ hc ?_)
    intro u hu
    exact .inr (htakes u (by simpa using hmem u hu))

theorem pushLoop (dl : Nat → Nat) (c target : Fin n) (s : State n) (pushed : Nat) (ts : List Nat)
    (hins : ∀ t ∈ ts, f.inserts t) (hmove : ∀ t ∈ ts, (s.thread t).pinned = false → f.moves t)
    (hmarks : ∀ t, ¬ f.marks t)
    : Does f s (Sched.pushLoop dl c target s pushed ts) := by
  induction ts generalizing s pushed with
  | nil => exact refl
  | cons u ts ih =>
    have hrest := fun s pushed => ih s pushed fun t ht => hins t (by simp [ht])
    unfold Sched.pushLoop
    split
    . split
      . exact hrest s pushed fun t ht => hmove t (by simp [ht])
      . next hskip =>
        simp only [pushSkips, Bool.or_eq_true, not_or, Bool.not_eq_true] at hskip
        simp only [arrive_removeFromQueue_setState]
        have harrive : Does f s _ := (removeFromQueue s c u).trans
          (arrive dl target _ u (hins u (by simp)) (hmove u (by simp) hskip.2))
        refine harrive.trans (hrest _ _ fun t ht hp => hmove t (by simp [ht]) ?_)
        rw [← (harrive.pinned t).resolve_right (hmarks t)]
        exact hp
    . exact refl

theorem tryPush (dl : Nat → Nat) (s : State n) (c target : Fin n)
    (hins : ∀ t ∈ (s.queue c).runqueue, f.inserts t)
    (hmove : ∀ t ∈ (s.queue c).runqueue, (s.thread t).pinned = false → f.moves t)
    (hmarks : ∀ t, ¬ f.marks t)
    : Does f s (Sched.tryPush dl s c target) := by
  have hloop : Does f s _ := pushLoop dl c target s 0 (s.queue c).runqueue.reverse
    (fun t ht => hins t (List.mem_reverse.mp ht))
    (fun t ht => hmove t (List.mem_reverse.mp ht)) hmarks
  unfold Sched.tryPush
  simp only
  split
  . exact hloop.trans (of_thread rfl fun _ => ⟨_, rfl⟩)
  . exact hloop

theorem wakeupTimerThread (dl : Nat → Nat) (c : Fin n) (s : State n) (t : Nat) (ht : f.inserts t)
    : Does f s (Sched.wakeupTimerThread dl c s t) := by
  unfold Sched.wakeupTimerThread
  simp only
  split
  . exact ((timerRemove s t).trans (setState _ t .running nofun)).trans (insertToQueue dl _ c t ht)
  . exact timerRemove s t

end Does

def effect (s : State n) : Event n → Effect n
  | .newThread t _ _ => { moves := (· = t), marks := (· = t) }
  | .startThread t _ => { inserts := (· = t) }
  | .pin t => { marks := (· = t) }
  | .switch c _ _ _ => { own := (· = c), inserts := (· = (s.cpu c).currentThread) }
  | .tryPush c _ _ =>
    { inserts := (· ∈ (s.queue c).runqueue)
      moves := fun t => t ∈ (s.queue c).runqueue ∧ (s.thread t).pinned = false }
  | .steal c victim => { own := (· = c), takes := (· ∈ (s.queue victim).runqueue) }
  | .stealEnd c _ _ =>
    { own := (· = c)
      inserts := (· ∈ (s.cpu c).phase.batch)
      moves := (· ∈ (s.cpu c).phase.batch) }
  | .tick _ expired _ => { inserts := (· ∈ expired) }
  | _ => {}

theorem step_does {e : Event n} (he : e.Ordinary) (hcommit : ∀ c, e ≠ .commit c)
    (hs : step s e = some s')
    : Does (effect s e) s s' := by
  cases e with
  | newThread t c weight =>
    simp only [step, Option.ite_none_right_eq_some, Option.some.injEq] at hs
    obtain ⟨-, rfl⟩ := hs
    have hset : Does (effect s (.newThread t c weight)) s _ :=
      .setThread s t ⟨.running, c, c, none, false, false, weight, 0⟩ (by simp) (.inr rfl)
        (.inr rfl) (by simp)
    exact hset.trans (.of_thread rfl fun _ => ⟨_, rfl⟩)
  | startThread t dl =>
    simp only [step, Option.ite_none_right_eq_some, Option.some.injEq] at hs
    obtain ⟨-, rfl⟩ := hs
    unfold startThread
    refine .trans ?_ (.insertToQueue dl _ _ t rfl)
    exact .of_thread rfl fun _ => ⟨_, rfl⟩
  | pin t =>
    simp only [step, Option.ite_none_left_eq_some, Option.some.injEq] at hs
    obtain ⟨-, rfl⟩ := hs
    exact .setThread s t _ id (.inl rfl) (.inr rfl) id
  | switch c yieldReq dl found =>
    simp only [step] at hs
    split at hs
    next =>
      cases hs
      split
      . exact .refl
      . have hmove : Does (effect s (.switch c yieldReq dl found)) s _ := .moveZombies s c
        have hput := hmove.trans (.putCurrent dl _ c (hmove.current c))
        exact (hput.trans (.pick found _ c)).trans (.setPhase _ c _ rfl (by simp))
    next => cases hs
  | tryPush c target dl =>
    simp only [step] at hs
    split at hs
    next => cases hs
    next =>
      simp only [Option.ite_none_left_eq_some, Option.some.injEq] at hs
      obtain ⟨-, rfl⟩ := hs
      exact .tryPush dl s c target (fun _ => id) (fun _ => .intro) fun _ => id
  | steal c victim =>
    simp only [step] at hs
    split at hs
    next curr hphase =>
      simp only [Option.ite_none_left_eq_some, Option.some.injEq] at hs
      obtain ⟨-, rfl⟩ := hs
      exact .stealFrom s c victim curr rfl fun _ => id
    next => cases hs
  | stealEnd c dl found =>
    simp only [step] at hs
    split at hs
    next curr batch hphase =>
      cases hs
      have hbatch : ∀ t ∈ batch, t ∈ (s.cpu c).phase.batch := by simp [hphase]
      have hstart : Does (effect s (.stealEnd c dl found)) s (s.setPhase c (.picked curr none)) :=
        .setPhase s c _ rfl (by simp)
      have harrive := hstart.trans (.foldl (arrive dl c) batch _ fun s t ht =>
        .arrive dl c s t (hbatch t ht) (hbatch t ht))
      exact (harrive.trans (.pick found _ c)).trans (.setPhase _ c _ rfl (by simp))
    next => cases hs
  | commit c => exact absurd rfl (hcommit c)
  | idle c =>
    simp only [step, Option.ite_none_right_eq_some, Option.some.injEq] at hs
    obtain ⟨-, rfl⟩ := hs
    exact (Does.setZombieList s c []).trans (.foldl _ _ _ fun s t _ => .timerRemove s t)
  | sleep c =>
    simp only [step, Option.ite_none_right_eq_some, Option.some.injEq] at hs
    obtain ⟨-, rfl⟩ := hs
    exact .setThread s _ _ id (.inl rfl) (.inl rfl) (by simp)
  | tick c expired dl =>
    simp only [step, Option.ite_none_right_eq_some, Option.some.injEq] at hs
    obtain ⟨-, rfl⟩ := hs
    exact .foldl (wakeupTimerThread dl c) expired s fun s t ht => .wakeupTimerThread dl c s t ht
  | killThreadBatch | killThread | transferTimeout | exit => exact he.elim

end Sched
