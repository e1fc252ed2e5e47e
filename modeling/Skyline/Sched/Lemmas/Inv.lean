import Skyline.Sched.Lemmas.Queue

/-!
This module contains the invariant that says where a thread can be.
-/

namespace Sched

variable {n : Nat} {s : State n} {c : Fin n} {t : Nat} {hand : Set Nat}

def ThreadState.Active (state : ThreadState) : Prop :=
  state ≠ .init ∧ state ≠ .transfer

def Held (s : State n) (c : Fin n) (t : Nat) : Prop :=
  ((s.cpu c).phase = .ready ∧ (s.cpu c).currentThread = t ∧ (s.thread t).onRq = false ∧ ¬s.Idle t)
    ∨ (s.cpu c).phase.next = some t

structure Inv (hand : Set Nat) (s : State n) : Prop where
  queues : ∀ c, QueueOk s c
  idle_inj : ∀ c d, (s.cpu c).idleThread = (s.cpu d).idleThread → c = d
  idle : ∀ t, s.Idle t → (s.thread t).state = .running ∧ (s.thread t).onRq = false
    ∧ (s.thread t).timerBucket = none ∧ t ∉ s.making ∧ t ∉ hand
  inHand : ∀ t ∈ hand, (s.thread t).onRq = false ∧ t ∉ s.making
    ∧ (∀ c, (s.cpu c).phase.next ≠ some t) ∧ ∀ c, t ∉ (s.cpu c).phase.batch
  current : ∀ c t, (s.cpu c).currentThread = t → t = (s.cpu c).idleThread
    ∨ (¬s.Idle t ∧ (s.thread t).cpuNum = c ∧ (s.thread t).state.Active ∧ t ∉ s.making)
  next : ∀ c t, (s.cpu c).phase.next = some t → ¬s.Idle t ∧ (s.thread t).onRq = false
    ∧ (s.thread t).cpuNum = c ∧ (s.thread t).state.Active ∧ t ∉ s.making
  batch : ∀ c t, t ∈ (s.cpu c).phase.batch → ¬s.Idle t ∧ (s.thread t).onRq = false
    ∧ (s.thread t).state = .transfer ∧ (s.thread t).timerBucket = none ∧ t ∉ s.making
  batch_nodup : ∀ c, (s.cpu c).phase.batch.Nodup
  batch_disjoint : ∀ c d t, t ∈ (s.cpu c).phase.batch → t ∈ (s.cpu d).phase.batch → c = d
  transfer : ∀ t, (s.thread t).state = .transfer → t ∈ hand ∨ ∃ c, t ∈ (s.cpu c).phase.batch
  runnable : ∀ t, (s.thread t).state = .running → s.Idle t ∨ t ∈ s.making ∨ t ∈ hand
    ∨ (s.thread t).onRq = true ∨ ∃ c, Held s c t
  timer : ∀ c t, (s.thread t).timerBucket = some c → (s.thread t).cpuNum = c
    ∧ (s.thread t).state.Active ∧ t ∉ s.making
  queued : ∀ t, (s.thread t).onRq = true → (s.thread t).state.Active ∧ t ∉ s.making
  making : ∀ t ∈ s.making, (s.thread t).state.Active
  making_nodup : s.making.Nodup
  outgoing : ∀ c t, (s.cpu c).phase.curr = some t → (s.cpu c).currentThread = t

@[simp]
theorem idle_insertToQueue (dl : Nat → Nat) (s : State n) (c : Fin n) (t u : Nat)
    : (insertToQueue dl s c t).Idle u ↔ s.Idle u := by
  simp [State.Idle]

@[simp]
theorem idle_removeFromQueue (s : State n) (c : Fin n) (t u : Nat)
    : (removeFromQueue s c t).Idle u ↔ s.Idle u := by
  simp [State.Idle]

namespace Inv

theorem congr {s' : State n} (h : Inv hand s) (hthread : s'.thread = s.thread)
    (hqueue : s'.queue = s.queue) (hmaking : s'.making = s.making)
    (hcurrent : ∀ c, (s'.cpu c).currentThread = (s.cpu c).currentThread)
    (hidle : ∀ c, (s'.cpu c).idleThread = (s.cpu c).idleThread)
    (hphase : ∀ c, (s'.cpu c).phase = (s.cpu c).phase)
    : Inv hand s' := by
  have hIdle : ∀ t, s'.Idle t ↔ s.Idle t := fun t => by simp [State.Idle, hidle]
  have hHeld : ∀ c t, Held s' c t ↔ Held s c t := fun c t => by
    simp [Held, hphase, hcurrent, hthread, hIdle]
  constructor
  case queues =>
    intro c
    exact (h.queues c).congr (by rw [hqueue]) (by simp [hthread]) (by simp [hthread])
  all_goals simp only [hthread, hmaking, hcurrent, hidle, hphase, hIdle, hHeld]
  case idle_inj => exact h.idle_inj
  case idle => exact h.idle
  case inHand => exact h.inHand
  case current => exact h.current
  case next => exact h.next
  case batch => exact h.batch
  case batch_nodup => exact h.batch_nodup
  case batch_disjoint => exact h.batch_disjoint
  case transfer => exact h.transfer
  case runnable => exact h.runnable
  case timer => exact h.timer
  case queued => exact h.queued
  case making => exact h.making
  case making_nodup => exact h.making_nodup
  case outgoing => exact h.outgoing

section

variable (h : Inv hand s)
include h

theorem insertToQueue (dl : Nat → Nat) (hrq : (s.thread t).onRq = false)
    (hidle : ¬s.Idle t) (hmaking : t ∉ s.making) (hc : (s.thread t).cpuNum = c)
    (hact : (s.thread t).state.Active) (hnext : ∀ d, (s.cpu d).phase.next ≠ some t)
    : Inv (hand \ {t}) (Sched.insertToQueue dl s c t) := by
  have hbatch : ∀ d, t ∉ (s.cpu d).phase.batch := fun d hd => hact.2 (h.batch d t hd).2.2.1
  constructor
  case queues => exact QueueOk.insert h.queues dl hrq hc
  case runnable =>
    intro u hu
    have := h.runnable u (by simpa using hu)
    simp only [Held, insertToQueue_cpu, insertToQueue_onRq, idle_insertToQueue,
      insertToQueue_making, Set.mem_sdiff, Set.mem_singleton_iff] at this ⊢
    grind
  all_goals simp
  case idle_inj => exact h.idle_inj
  all_goals grind [Inv, ThreadState.Active]

theorem removeFromQueue (hrq : (s.thread t).onRq = true)
    (hc : (s.thread t).cpuNum = c)
    : Inv (insert t hand) (Sched.removeFromQueue s c t) := by
  constructor
  case queues => exact QueueOk.remove h.queues hc
  case runnable =>
    intro u hu
    have := h.runnable u (by simpa using hu)
    simp only [Held, removeFromQueue_cpu, removeFromQueue_onRq, idle_removeFromQueue,
      removeFromQueue_making, Set.mem_insert_iff] at this ⊢
    grind
  all_goals simp
  case idle_inj => exact h.idle_inj
  all_goals grind [Inv, ThreadState.Active]

theorem setThread (th : Thread n) (hrq : th.onRq = (s.thread t).onRq)
    (hw : (s.thread t).onRq = true → th.weight = (s.thread t).weight)
    (hidle : s.Idle t → th.state = .running ∧ th.timerBucket = none)
    (hmove : (th.cpuNum = (s.thread t).cpuNum
        ∧ (th.state = (s.thread t).state ∨ ((s.thread t).state.Active ∧ th.state.Active)))
      ∨ (t ∈ hand ∧ ∀ d, (s.cpu d).currentThread ≠ t))
    (htimer : ∀ d, th.timerBucket = some d → th.cpuNum = d ∧ th.state.Active ∧ t ∉ s.making)
    (hrun : th.state = .running → (s.thread t).state = .running ∨ t ∈ hand ∨ th.onRq = true)
    : Inv hand (s.setThread t th) := by
  constructor
  case queues =>
    intro d
    have hhand : t ∈ hand → (s.thread t).onRq = false := fun ht => (h.inHand t ht).1
    apply (h.queues d).congr
    . simp
    . intro u
      simp only [State.setThread_thread]
      grind
    . intro u hu
      have honRq := (((h.queues d).mem_iff u).mp hu).1
      simp only [State.setThread_thread]
      grind
  case runnable =>
    intro u hu
    have := h.runnable u
    simp only [Held, State.setThread_cpu, State.setThread_thread, State.idle_setThread,
      State.setThread_making] at this hu ⊢
    grind
  case batch =>
    intro d u hu
    have hold := h.batch d u hu
    have hnone : th.state = .transfer → th.timerBucket = none := by
      intro htr
      cases hb : th.timerBucket with
      | none => rfl
      | some e => exact absurd htr (htimer e hb).2.1.2
    simp only [State.setThread_thread, State.idle_setThread, State.setThread_making]
    split
    next heq =>
      subst heq
      have htr : th.state = .transfer := by
        rcases hmove with ⟨_, hsame | hact⟩ | ⟨hhand, _⟩
        . rw [hsame]
          exact hold.2.2.1
        . exact absurd hold.2.2.1 hact.1.2
        . exact absurd hu ((h.inHand u hhand).2.2.2 d)
      exact ⟨hold.1, hrq.trans hold.2.1, htr, hnone htr, hold.2.2.2.2⟩
    next => exact hold
  all_goals simp
  case idle_inj => exact h.idle_inj
  all_goals grind [Inv, ThreadState.Active]

theorem timerRemove (t : Nat) : Inv hand (Sched.timerRemove s t) := by
  apply h.setThread
  . rfl
  . exact fun _ => rfl
  . exact fun hi => ⟨(h.idle t hi).1, rfl⟩
  . exact .inl ⟨rfl, .inl rfl⟩
  . exact nofun
  . exact fun hr => .inl hr

theorem reclaimZombieList (zombies : List Nat)
    : Inv hand (Sched.reclaimZombieList s zombies) := by
  unfold Sched.reclaimZombieList
  induction zombies generalizing s with
  | nil => exact h
  | cons z _ ih => exact ih (h.timerRemove z)

theorem take (hidle : ¬s.Idle t) (hrq : (s.thread t).onRq = false)
    (hmaking : t ∉ s.making) (hnext : ∀ d, (s.cpu d).phase.next ≠ some t)
    (hbatch : ∀ d, t ∉ (s.cpu d).phase.batch)
    : Inv (insert t hand) s := by
  constructor
  case queues => exact h.queues
  case idle_inj => exact h.idle_inj
  case batch_nodup => exact h.batch_nodup
  case making_nodup => exact h.making_nodup
  all_goals grind [Inv]

theorem not_idle_of_mem (ht : t ∈ hand) : ¬s.Idle t := fun hi => (h.idle t hi).2.2.2.2 ht

end

section

variable (h : Inv hand s) (ht : t ∈ hand) (htimer : (s.thread t).timerBucket = none)
  (hcurrent : ∀ d, (s.cpu d).currentThread ≠ t)
include h ht htimer hcurrent

theorem setThread_inHand (th : Thread n) (hrq : th.onRq = (s.thread t).onRq)
    (hbucket : th.timerBucket = (s.thread t).timerBucket) : Inv hand (s.setThread t th) := by
  apply h.setThread th hrq
  . intro honRq
    rw [(h.inHand t ht).1] at honRq
    cases honRq
  . exact fun hi => absurd hi (h.not_idle_of_mem ht)
  . exact .inr ⟨ht, hcurrent⟩
  . intro d hd
    simp [hbucket, htimer] at hd
  . exact fun _ => .inr (.inl ht)

theorem arrive (dl : Nat → Nat) (c : Fin n) : Inv (hand \ {t}) (Sched.arrive dl c s t) := by
  have hidle := h.not_idle_of_mem ht
  obtain ⟨hrq, hmaking, hnext, hbatch⟩ := h.inHand t ht
  have hhome := h.setThread_inHand ht htimer hcurrent
    { s.thread t with cpuNum := c, timerCpu := c, state := .running } rfl rfl
  apply hhome.insertToQueue
  . simpa using hrq
  . simpa using hidle
  . simpa using hmaking
  . simp
  . simp [ThreadState.Active]
  . simpa using hnext

end

theorem Held_setPhase_of_ne {p : Phase} {d : Fin n} (hd : d ≠ c) (u : Nat)
    : Held (s.setPhase c p) d u ↔ Held s d u := by
  simp [Held, hd]

theorem setPhase {hand' : Set Nat} (h : Inv hand s) (p : Phase)
    (hcurr : ∀ u, p.curr = some u → (s.cpu c).currentThread = u)
    (hhand : ∀ u ∈ hand', ¬s.Idle u ∧ (s.thread u).onRq = false ∧ u ∉ s.making
      ∧ (p.next ≠ some u ∧ u ∉ p.batch)
      ∧ ∀ d, d ≠ c → (s.cpu d).phase.next ≠ some u ∧ u ∉ (s.cpu d).phase.batch)
    (hnext : ∀ u, p.next = some u → ¬s.Idle u ∧ (s.thread u).onRq = false ∧ (s.thread u).cpuNum = c
      ∧ (s.thread u).state.Active ∧ u ∉ s.making)
    (hbatch : ∀ u ∈ p.batch, (¬s.Idle u ∧ (s.thread u).onRq = false ∧ (s.thread u).state = .transfer
      ∧ (s.thread u).timerBucket = none ∧ u ∉ s.making) ∧ ∀ d, d ≠ c → u ∉ (s.cpu d).phase.batch)
    (hnodup : p.batch.Nodup)
    (htransfer : ∀ u, (s.thread u).state = .transfer → u ∈ hand ∨ u ∈ (s.cpu c).phase.batch
      → u ∈ hand' ∨ u ∈ p.batch)
    (hrunning : ∀ u, (s.thread u).state = .running → u ∈ hand ∨ Held s c u
      → u ∈ hand' ∨ p.next = some u)
    : Inv hand' (s.setPhase c p) := by
  have hphase : ∀ d, d ≠ c → ((s.setPhase c p).cpu d).phase = (s.cpu d).phase :=
    fun d hd => by simp [hd]
  have hself : ((s.setPhase c p).cpu c).phase = p := by simp
  constructor
  case queues => exact fun d => (h.queues d).congr rfl (fun _ => .rfl) (fun _ _ => rfl)
  case transfer =>
    intro u hu
    rcases h.transfer u hu with hh | ⟨d, hd⟩
    . exact (htransfer u hu (.inl hh)).imp_right fun hb => ⟨c, hself.symm ▸ hb⟩
    . by_cases hc : d = c
      . exact (htransfer u hu (.inr (hc ▸ hd))).imp_right fun hb => ⟨c, hself.symm ▸ hb⟩
      . exact .inr ⟨d, (hphase d hc).symm ▸ hd⟩
  case runnable =>
    intro u hu
    have hheld : u ∈ hand ∨ Held s c u → u ∈ hand' ∨ (s.thread u).onRq = true
        ∨ ∃ d, Held (s.setPhase c p) d u :=
      fun hu' => (hrunning u hu hu').imp_right fun hn => .inr ⟨c, .inr (hself.symm ▸ hn)⟩
    rcases h.runnable u hu with hi | hm | hh | hq | ⟨d, hd⟩
    . exact .inl (by simpa using hi)
    . exact .inr (.inl hm)
    . exact .inr (.inr (hheld (.inl hh)))
    . exact .inr (.inr (.inr (.inl hq)))
    . by_cases hc : d = c
      . exact .inr (.inr (hheld (.inr (hc ▸ hd))))
      . exact .inr (.inr (.inr (.inr ⟨d, (Held_setPhase_of_ne hc u).mpr hd⟩)))
  case timer => exact h.timer
  case queued => exact h.queued
  case making => exact h.making
  case making_nodup => exact h.making_nodup
  all_goals simp
  case idle_inj => exact h.idle_inj
  all_goals grind [Inv]

theorem picked (h : Inv hand s) (curr next : Option Nat) (hbatch : (s.cpu c).phase.batch = [])
    (hcurr : ∀ u, curr = some u → (s.cpu c).currentThread = u)
    (hnext : ∀ u, next = some u → u ∈ hand ∧ (s.thread u).cpuNum = c ∧ (s.thread u).state.Active)
    (hheld : ∀ u, Held s c u → (s.thread u).state = .running → next = some u)
    : Inv (hand \ {u | next = some u}) (s.setPhase c (.picked curr next)) := by
  refine h.setPhase _ hcurr ?_ ?_ nofun .nil ?_ ?_
  . rintro u ⟨hu, hne⟩
    obtain ⟨hrq, hmaking, hn, hb⟩ := h.inHand u hu
    exact ⟨h.not_idle_of_mem hu, hrq, hmaking, ⟨hne, List.not_mem_nil⟩, fun d _ => ⟨hn d, hb d⟩⟩
  . intro u hn
    obtain ⟨hu, hc, hact⟩ := hnext u hn
    obtain ⟨hrq, hmaking, -, -⟩ := h.inHand u hu
    exact ⟨h.not_idle_of_mem hu, hrq, hc, hact, hmaking⟩
  . intro u hu hin
    rw [hbatch] at hin
    exact .inl ⟨hin.resolve_right List.not_mem_nil, fun hn => (hnext u hn).2.2.2 hu⟩
  . intro u hu hin
    by_cases hn : next = some u
    . exact .inr hn
    . exact .inl ⟨hin.resolve_right fun hh => hn (hheld u hh hu), hn⟩

theorem stealing (h : Inv hand s) (curr : Option Nat) (batch : List Nat)
    (hphase : (s.cpu c).phase = .picked curr none) (hhand : ∀ u, u ∈ hand ↔ u ∈ batch)
    (hnodup : batch.Nodup)
    (hbatch : ∀ u ∈ batch, (s.thread u).state = .transfer ∧ (s.thread u).timerBucket = none)
    : Inv ∅ (s.setPhase c (.stealing curr batch)) := by
  refine h.setPhase _ ?_ nofun nofun ?_ hnodup ?_ ?_
  . exact fun u hu => h.outgoing c u (by simpa [hphase] using hu)
  . intro u hu
    have hmem := (hhand u).mpr hu
    obtain ⟨hrq, hmaking, -, hb⟩ := h.inHand u hmem
    exact ⟨⟨h.not_idle_of_mem hmem, hrq, (hbatch u hu).1, (hbatch u hu).2, hmaking⟩,
      fun d _ => hb d⟩
  . intro u _ hin
    rw [hphase] at hin
    exact .inr ((hhand u).mp (hin.resolve_right List.not_mem_nil))
  . rintro u hu (hh | hheld)
    . have := (hbatch u ((hhand u).mp hh)).1
      rw [hu] at this
      cases this
    . simp [Held, hphase] at hheld

theorem release (h : Inv ∅ s) (curr : Option Nat) (batch : List Nat)
    (hphase : (s.cpu c).phase = .stealing curr batch)
    : Inv {u | u ∈ batch} (s.setPhase c (.picked curr none)) := by
  have hmine : ∀ u ∈ batch, u ∈ (s.cpu c).phase.batch := by simp [hphase]
  refine h.setPhase _ ?_ ?_ nofun nofun .nil ?_ ?_
  . exact fun u hu => h.outgoing c u (by simpa [hphase] using hu)
  . intro u hu
    obtain ⟨hidle, hrq, hstate, -, hmaking⟩ := h.batch c u (hmine u hu)
    refine ⟨hidle, hrq, hmaking, ⟨nofun, List.not_mem_nil⟩,
      fun d hd => ⟨fun hn => ?_, fun hb => ?_⟩⟩
    . exact (h.next d u hn).2.2.2.1.2 hstate
    . exact hd (h.batch_disjoint d c u hb (hmine u hu))
  . intro u _ hin
    rw [hphase] at hin
    exact .inl (hin.resolve_left id)
  . rintro u - (hh | hheld)
    . exact absurd hh id
    . simp [Held, hphase] at hheld

end Inv

end Sched
