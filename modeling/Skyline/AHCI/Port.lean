import Skyline.AHCI.Basic

/-!
This module contains the conditions under which the calls of a port are sound.
-/

namespace AHCI

open Steps Function

variable {s s' : State} {t u : Nat} {pc : Pc}

def Pc.Locked : Pc → Prop
  | .find | .unlockNone | .fill _ | .busy _ | .issue _ | .unlock _ => True
  | _ => False

def Waiting (s : State) (c slot : Nat) : Prop :=
  s.status c = .inFlight slot ∨ s.status c = .failed slot ∨ s.status c = .completed

def ThreadOk (s : State) (th : Thread) : Prop :=
  match th.pc with
  | .fill slot => s.commandIssue slot = false
  | .busy slot | .issue slot =>
    s.commandIssue slot = false ∧ s.table slot = some th.cmd
      ∧ s.status th.cmd = .unused ∧ th.cmd < s.next
  | .unlock slot | .poll slot | .pollIs slot | .checkIs slot | .checkCi slot =>
    Waiting s th.cmd slot
  | .done true => s.status th.cmd = .completed
  | _ => True

structure Inv (s : State) : Prop where
  lock : ∀ (t : Nat), s.slotLock = some t ↔ (s.thread t).pc.Locked
  thread : ∀ (t : Nat), ThreadOk s (s.thread t)
  inSlot : ∀ (c slot : Nat), s.status c = .inFlight slot ∨ s.status c = .failed slot →
    s.commandIssue slot = true ∧ s.table slot = some c
  fresh : ∀ (c : Nat), s.next ≤ c → s.status c = .unused

theorem inv_init : Inv init where
  lock := fun _ => iff_of_false (fun h => by cases h) id
  thread := fun _ => trivial
  inSlot := fun _ _ h => by cases h <;> contradiction
  fresh := fun _ _ => rfl

theorem Inv.threadOk (h : Inv s) (hpc : (s.thread t).pc = pc) : ThreadOk s ⟨pc, (s.thread t).cmd⟩ :=
  hpc ▸ h.thread t

theorem Inv.locks {th : Thread} (h : Inv s) (hlock : th.pc.Locked ↔ (s.thread t).pc.Locked)
    (u : Nat)
    : s.slotLock = some u ↔ (update s.thread t th u).pc.Locked := by
  rw [h.lock]
  by_cases heq : u = t
  . rw [heq, update_self]
    exact hlock.symm
  . rw [update_of_ne heq]

theorem threadOk_update (s' : State) {th : Thread} (hself : ThreadOk s' th)
    (hother : ∀ u, u ≠ t → ThreadOk s' (s.thread u)) (u : Nat)
    : ThreadOk s' (update s.thread t th u) := by
  by_cases heq : u = t
  . rw [heq, update_self]
    exact hself
  . rw [update_of_ne heq]
    exact hother u heq

theorem Inv.goto {pc' : Pc} (h : Inv s) (hpc : (s.thread t).pc = pc)
    (hlock : pc'.Locked ↔ pc.Locked) (hok : ThreadOk s ⟨pc', (s.thread t).cmd⟩)
    : Inv (s.goto t pc') where
  __ := h
  lock := h.locks (by rw [hpc]; exact hlock)
  thread := threadOk_update (s.goto t pc') hok fun u _ => h.thread u

theorem Inv.not_locked (h : Inv s) (ht : s.slotLock = none ∨ (s.thread t).pc.Locked) (hne : u ≠ t)
    : ¬ (s.thread u).pc.Locked := by
  rw [← h.lock]
  rcases ht with ht | ht
  . rw [ht]
    exact nofun
  . rw [(h.lock t).mpr ht]
    exact fun hsome => hne (Option.some.inj hsome).symm

theorem Inv.setLock (h : Inv s) (pc : Pc) (hfree : s.slotLock = none ∨ (s.thread t).pc.Locked)
    {lock : Option Nat} (hnew : lock = some t ∧ pc.Locked ∨ lock = none ∧ ¬ pc.Locked)
    (hok : ThreadOk s ⟨pc, (s.thread t).cmd⟩)
    : Inv ({ s with slotLock := lock }.goto t pc) where
  __ := h
  lock u := by
    show lock = some u ↔ (update s.thread t _ u).pc.Locked
    by_cases heq : u = t
    . rw [heq, update_self]
      rcases hnew with ⟨rfl, hin⟩ | ⟨rfl, hout⟩
      . exact iff_of_true rfl hin
      . exact iff_of_false nofun hout
    . rw [update_of_ne heq]
      refine iff_of_false ?_ (h.not_locked hfree heq)
      rcases hnew with ⟨rfl, -⟩ | ⟨rfl, -⟩
      . exact fun hsome => heq (Option.some.inj hsome).symm
      . exact nofun
  thread := threadOk_update ({ s with slotLock := lock }.goto t pc) hok fun u _ => h.thread u

theorem ThreadOk.mono {th : Thread} (h : ThreadOk s th)
    (hlocked : th.pc.Locked → (s'.table = s.table ∧ s'.next = s.next) ∧
      (∀ slot, s.commandIssue slot = false → s'.commandIssue slot = false) ∧
      (s.status th.cmd = .unused → s'.status th.cmd = .unused))
    (hwaiting : ∀ slot, th.pc.waits = some slot → Waiting s th.cmd slot → Waiting s' th.cmd slot)
    (hdone : s.status th.cmd = .completed → s'.status th.cmd = .completed)
    : ThreadOk s' th := by
  obtain ⟨pc, c⟩ := th
  cases pc with
  | clear | lock | recover | recoverIs | readCmd | writeCmd | stopWait | clearCi | startWait =>
    trivial
  | find | unlockNone => trivial
  | fill slot => exact (hlocked trivial).2.1 slot h
  | busy slot | issue slot =>
    obtain ⟨hci, htable, hunused, hlt⟩ := h
    obtain ⟨⟨htables, hnext⟩, hfree, hstatus⟩ := hlocked trivial
    exact ⟨hfree slot hci, htables ▸ htable, hstatus hunused, hnext ▸ hlt⟩
  | unlock slot | poll slot | pollIs slot | checkIs slot | checkCi slot => exact hwaiting slot rfl h
  | done result =>
    cases result with
    | false => trivial
    | true => exact hdone h

theorem ThreadOk.of_status {th : Thread} (h : ThreadOk s th) (hout : ¬ th.pc.Locked)
    (hstatus : s.status th.cmd ≠ .unused → s'.status th.cmd = s.status th.cmd)
    : ThreadOk s' th := by
  refine h.mono (fun hin => absurd hin hout) ?_ ?_
  . intro slot _ hwaiting
    unfold Waiting
    rw [hstatus]
    . exact hwaiting
    . rcases hwaiting with hstatus | hstatus | hstatus <;> rw [hstatus] <;> nofun
  . intro hdone
    rw [hstatus (by rw [hdone]; nofun), hdone]

theorem Inv.fillTable {slot : Nat} (h : Inv s) (hpc : (s.thread t).pc = .fill slot)
    : Inv (fillTable s t slot) := by
  have hlocked : (s.thread t).pc.Locked := hpc ▸ trivial
  have hfree : s.commandIssue slot = false := h.threadOk hpc
  constructor
  . exact h.locks (iff_of_true trivial hlocked)
  . refine threadOk_update (AHCI.fillTable s t slot) ?_ fun u hne => ?_
    . exact ⟨hfree, update_self _ _ _, h.fresh _ (Nat.le_refl _), Nat.lt_succ_self _⟩
    . exact (h.thread u).of_status (h.not_locked (.inr hlocked) hne) fun _ => rfl
  . -- the slot was free, so that no command is lost with the old table
    intro c slot' hin
    obtain ⟨hci, htable⟩ := h.inSlot c slot' hin
    refine ⟨hci, ?_⟩
    show update s.table slot _ slot' = _
    rw [update_of_ne]
    . exact htable
    . rintro rfl
      rw [hfree] at hci
      cases hci
  . intro c hc
    exact h.fresh c (Nat.le_of_succ_le hc)

theorem Inv.issueCommand {slot : Nat} (h : Inv s) (hpc : (s.thread t).pc = .issue slot)
    (hst : s.cmdStatus.st = true)
    : Inv ((issueCommand s t slot).goto t (.unlock slot)) := by
  unfold AHCI.issueCommand
  rw [if_pos hst]
  have hlocked : (s.thread t).pc.Locked := hpc ▸ trivial
  obtain ⟨hci, htable, hunused, hnext⟩ := h.threadOk hpc
  have hother : ∀ c, s.status c ≠ .unused ∨ s.next ≤ c →
      update s.status (s.thread t).cmd (.inFlight slot) c = s.status c := by
    intro c hc
    rw [update_of_ne]
    rintro rfl
    exact hc.elim (fun hused => hused hunused) (Nat.not_le.2 hnext)
  constructor
  . exact h.locks (iff_of_true trivial hlocked)
  . refine threadOk_update _ ?_ fun u hne => ?_
    . exact .inl (update_self _ _ _)
    . exact (h.thread u).of_status (h.not_locked (.inr hlocked) hne)
        fun hused => hother _ (.inl hused)
  . intro c slot' hin
    show update s.commandIssue slot true slot' = true ∧ s.table slot' = some c
    have hin : update s.status (s.thread t).cmd (.inFlight slot) c = .inFlight slot' ∨
      update s.status (s.thread t).cmd (.inFlight slot) c = .failed slot' := hin
    by_cases heq : c = (s.thread t).cmd
    . rw [heq, update_self] at hin
      rcases hin with hin | hin
      . cases hin
        exact ⟨update_self _ _ _, heq ▸ htable⟩
      . cases hin
    . rw [update_of_ne heq] at hin
      obtain ⟨hci', htable'⟩ := h.inSlot c slot' hin
      refine ⟨?_, htable'⟩
      rw [update_apply]
      split
      . rfl
      . exact hci'
  . intro c hc
    exact (hother c (.inr hc)).trans (h.fresh c hc)

theorem Inv.answer (h : Inv s) {c slot : Nat} (hstatus : s.status c = .inFlight slot) {new : Status}
    (hnew : new = .completed ∨ new = .failed slot) (hs : s'.status = update s.status c new)
    (hci : s'.commandIssue = if new = .completed then update s.commandIssue slot false
      else s.commandIssue)
    (hlock : s'.slotLock = s.slotLock) (hthread : s'.thread = s.thread)
    (htable : s'.table = s.table) (hnext : s'.next = s.next)
    : Inv s' := by
  have hother : ∀ c', c' ≠ c ∨ s.status c' = .unused ∨ s.status c' = .completed
      → s'.status c' = s.status c' := by
    intro c' hc'
    rw [hs, update_of_ne]
    rintro rfl
    rw [hstatus] at hc'
    rcases hc' with hc' | hc' | hc'
    . exact hc' rfl
    . cases hc'
    . cases hc'
  have hself : s'.status c = new := by rw [hs, update_self]
  constructor
  . intro t
    rw [hlock, hthread]
    exact h.lock t
  . intro t
    rw [hthread]
    refine (h.thread t).mono (fun _ => ⟨⟨htable, hnext⟩, ?_, ?_⟩) ?_ ?_
    . intro slot' hfree
      rw [hci]
      split
      . rw [update_apply]
        split
        . rfl
        . exact hfree
      . exact hfree
    . exact fun hunused => (hother _ (.inr (.inl hunused))).trans hunused
    . intro slot' _ hwaiting
      unfold Waiting at *
      by_cases heq : (s.thread t).cmd = c
      . rw [heq, hstatus] at hwaiting
        rw [heq, hself]
        rcases hwaiting with hin | hin | hin <;> cases hin
        exact .inr hnew.symm
      . rw [hother _ (.inl heq)]
        exact hwaiting
    . exact fun hdone => (hother _ (.inr (.inr hdone))).trans hdone
  . intro c' slot' hin
    by_cases heq : c' = c
    . rw [heq, hself] at hin
      rcases hnew with rfl | rfl
      . rcases hin with hin | hin <;> cases hin
      . rcases hin with hin | hin <;> cases hin
        rw [heq, hci, htable]
        exact h.inSlot c slot (.inl hstatus)
    . rw [hother c' (.inl heq)] at hin
      obtain ⟨hci', htable'⟩ := h.inSlot c' slot' hin
      rw [htable, hci]
      refine ⟨?_, htable'⟩
      split
      . rw [update_of_ne]
        . exact hci'
        . rintro rfl
          rw [(h.inSlot c slot' (.inl hstatus)).2] at htable'
          exact heq (Option.some.inj htable').symm
      . exact hci'
  . intro c' hc
    have hunused := h.fresh c' (hnext ▸ hc)
    exact (hother c' (.inr (.inl hunused))).trans hunused

theorem Inv.complete (h : Inv s) {slot : Nat} (hstep : complete s slot = some s') : Inv s' := by
  unfold AHCI.complete at hstep
  split at hstep
  . simp only [Option.ite_none_right_eq_some, Option.some.injEq] at hstep
    obtain ⟨hgood, rfl⟩ := hstep
    exact h.answer hgood.2 (.inl rfl) rfl (if_pos rfl).symm rfl rfl rfl rfl
  . cases hstep

theorem Inv.error (h : Inv s) {slot : Nat} (hstep : error s slot = some s') : Inv s' := by
  unfold AHCI.error at hstep
  split at hstep
  . simp only [Option.ite_none_right_eq_some, Option.some.injEq] at hstep
    obtain ⟨hgood, rfl⟩ := hstep
    exact h.answer hgood.2 (.inr rfl) rfl (if_neg Status.noConfusion).symm rfl rfl rfl rfl
  . cases hstep

theorem abort_eq {status : Status} (h : status = .unused ∨ status = .completed)
    : status.abort = status := by
  rcases h with rfl | rfl <;> rfl

theorem Inv.congr (h : Inv s) (s' : State) (hci : s'.commandIssue = s.commandIssue)
    (hlock : s'.slotLock = s.slotLock) (hthread : s'.thread = s.thread)
    (htable : s'.table = s.table) (hstatus : s'.status = s.status) (hnext : s'.next = s.next)
    : Inv s' := by
  obtain ⟨cmdStatus, commandIssue, sataActive, tfes, slotLock, attempts, thread, table,
    status, next⟩ := s'
  cases hci
  cases hlock
  cases hthread
  cases htable
  cases hstatus
  cases hnext
  exact ⟨h.lock, h.thread, h.inSlot, h.fresh⟩

theorem Inv.stopEngine (h : Inv s) (cmd : PxCmd)
    (hcalm : ∀ (u : Nat), (s.thread u).pc.waits ≠ none → s.status (s.thread u).cmd = .completed)
    : Inv { s with
        cmdStatus := cmd
        commandIssue := fun _ => false
        sataActive := fun _ => false
        status := fun c => (s.status c).abort } := by
  constructor
  . exact h.lock
  . intro u
    refine (h.thread u).mono (fun _ => ⟨⟨rfl, rfl⟩, fun _ _ => rfl, ?_⟩) ?_ ?_
    . exact fun hunused => (abort_eq (.inl hunused)).trans hunused
    . intro slot hwaits _
      have hdone := hcalm u (hwaits ▸ Option.some_ne_none _)
      exact .inr (.inr ((abort_eq (.inr hdone)).trans hdone))
    . exact fun hdone => (abort_eq (.inr hdone)).trans hdone
  . intro c slot hin
    have hin : (s.status c).abort = .inFlight slot ∨ (s.status c).abort = .failed slot := hin
    cases hstatus : s.status c with
    | unused | inFlight | failed | completed | aborted =>
      rw [hstatus] at hin
      rcases hin with hin | hin <;> cases hin
  . intro c hc
    have hunused := h.fresh c hc
    exact (abort_eq (.inl hunused)).trans hunused

theorem Inv.writeCmdStatus (h : Inv s) (cmd : PxCmd)
    (hcalm : s.cmdStatus.st = true → cmd.st = false →
      ∀ (u : Nat), (s.thread u).pc.waits ≠ none → s.status (s.thread u).cmd = .completed)
    : Inv (writeCmdStatus s cmd) := by
  unfold AHCI.writeCmdStatus
  split
  next hstop =>
    simp only [Bool.and_eq_true, Bool.not_eq_true'] at hstop
    exact h.stopEngine cmd (hcalm hstop.1 hstop.2)
  next => exact h.congr _ rfl rfl rfl rfl rfl rfl

theorem writeCmdStatus_thread (s : State) (cmd : PxCmd)
    : (writeCmdStatus s cmd).thread = s.thread := by
  unfold writeCmdStatus
  split <;> rfl

theorem findCommandSlot_free {slot : Nat} (h : findCommandSlot s = some slot)
    : s.commandIssue slot = false := by
  have := List.find?_some h
  simp at this
  exact this.2

theorem Inv.advance (h : Inv s) (t : Nat) (hcalm : Calm s (.step t))
    (hstep : advance s t = some s') : Inv s' := by
  unfold AHCI.advance at hstep
  simp only [Calm] at hcalm
  split at hstep
  next hpc =>
    cases hstep
    exact (h.congr { s with tfes := false } rfl rfl rfl rfl rfl rfl).goto hpc .rfl trivial
  next =>
    simp only [Option.ite_none_right_eq_some, Option.some.injEq] at hstep
    obtain ⟨hfree, rfl⟩ := hstep
    exact h.setLock .find (.inl hfree) (.inl ⟨rfl, trivial⟩) trivial
  next hpc =>
    split at hstep
    next hslot =>
      cases hstep
      exact h.goto hpc .rfl (findCommandSlot_free hslot)
    next =>
      cases hstep
      exact h.goto hpc .rfl trivial
  next hpc =>
    cases hstep
    exact h.setLock (.done false) (.inr (hpc ▸ trivial)) (.inr ⟨rfl, id⟩) trivial
  next hpc =>
    cases hstep
    exact h.fillTable hpc
  next hpc =>
    cases hstep
    exact h.goto hpc .rfl (h.threadOk hpc :)
  next hpc =>
    cases hstep
    rw [hpc] at hcalm
    exact h.issueCommand hpc hcalm
  next slot hpc =>
    cases hstep
    exact h.setLock (.poll slot) (.inr (hpc ▸ trivial)) (.inr ⟨rfl, id⟩) (h.threadOk hpc :)
  next hpc =>
    cases hstep
    split
    . exact h.goto hpc .rfl (h.threadOk hpc :)
    . exact h.goto hpc .rfl (h.threadOk hpc :)
  next hpc =>
    cases hstep
    split
    . exact h.goto hpc .rfl trivial
    . exact h.goto hpc .rfl (h.threadOk hpc :)
  next hpc =>
    cases hstep
    split
    . exact h.goto hpc .rfl trivial
    . exact h.goto hpc .rfl (h.threadOk hpc :)
  next hpc =>
    split at hstep
    next =>
      cases hstep
      exact h.goto hpc .rfl trivial
    next hci =>
      cases hstep
      refine (h.congr { s with recoverAttempts := 0 } rfl rfl rfl rfl rfl rfl).goto hpc .rfl ?_
      -- a command that is not complete would still have its bit
      rcases h.threadOk hpc with hok | hok | hok
      . exact absurd (h.inSlot _ _ (.inl hok)).1 hci
      . exact absurd (h.inSlot _ _ (.inr hok)).1 hci
      . exact hok
  next hpc =>
    split at hstep
    next =>
      cases hstep
      exact h.goto hpc .rfl trivial
    next =>
      cases hstep
      have hcount := h.congr { s with recoverAttempts := s.recoverAttempts + 1 } rfl
        rfl rfl rfl rfl rfl
      exact hcount.goto hpc .rfl trivial
  next hpc =>
    cases hstep
    exact (h.congr { s with tfes := false } rfl rfl rfl rfl rfl rfl).goto hpc .rfl trivial
  next hpc =>
    cases hstep
    exact h.goto hpc .rfl trivial
  next change cmd hpc =>
    cases hstep
    rw [hpc] at hcalm
    have hthread := writeCmdStatus_thread s cmd
    apply (h.writeCmdStatus cmd hcalm).goto
    . rw [hthread, hpc]
    . cases change <;> exact .rfl
    . cases change <;> trivial
  next hpc =>
    cases hstep
    exact h.goto hpc .rfl trivial
  next hpc =>
    cases hstep
    exact h.goto hpc .rfl trivial
  next hpc =>
    cases hstep
    exact h.goto hpc .rfl trivial
  next => cases hstep

theorem Inv.step (h : Inv s) (e : Event) (hcalm : Calm s e) (hstep : step s e = some s')
    : Inv s' := by
  cases e with
  | call =>
    simp only [AHCI.step] at hstep
    split at hstep
    next hpc =>
      cases hstep
      split
      . exact h.goto hpc .rfl trivial
      . exact h.goto hpc .rfl trivial
    next => cases hstep
  | step t => exact h.advance t hcalm hstep
  | spinOut => cases hcalm
  | expire =>
    simp only [AHCI.step] at hstep
    split at hstep
    next hpc =>
      cases hstep
      exact h.goto hpc .rfl (h.threadOk hpc :)
    next => cases hstep
  | complete => exact h.complete hstep
  | error => exact h.error hstep

section Witness

theorem advance_others (hne : u ≠ t) (hstep : advance s t = some s')
    : s'.thread u = s.thread u := by
  have hgoto : ∀ (s : State) (pc : Pc), (s.goto t pc).thread u = s.thread u :=
    fun s _ => update_of_ne hne _ _
  unfold advance at hstep
  split at hstep
  all_goals try split at hstep
  all_goals cases hstep
  all_goals first | exact hgoto _ _ | exact update_of_ne hne _ _ | skip
  . unfold issueCommand
    split <;> exact hgoto _ _
  . rw [hgoto, writeCmdStatus_thread]

/--
`Calm` where only the first two threads take steps.
-/
def CalmOfTwo (s : State) (e : Event) : Prop :=
  match e with
  | .spinOut _ => False
  | .call t _ | .expire t => t < 2
  | .step t =>
    t < 2 ∧
    match (s.thread t).pc with
    | .issue _ => s.cmdStatus.st = true
    | .writeCmd _ cmd =>
      s.cmdStatus.st = true → cmd.st = false →
        ∀ u < 2, (s.thread u).pc.waits ≠ none → s.status (s.thread u).cmd = .completed
    | _ => True
  | _ => True

instance (s : State) (e : Event) : Decidable (CalmOfTwo s e) := by
  unfold CalmOfTwo
  cases e with
  | step t =>
    dsimp only
    cases (s.thread t).pc <;> infer_instance
  | call | spinOut | expire | complete | error => infer_instance

def OfTwo (s : State) : Prop := ∀ u, 2 ≤ u → (s.thread u).pc.waits = none

theorem OfTwo.step (h : OfTwo s) (e : Event) (hok : CalmOfTwo s e) (hstep : step s e = some s')
    : OfTwo s' := by
  intro u hu
  have hsame : s'.thread u = s.thread u := by
    cases e with
    | call t | expire t =>
      have hne : u ≠ t := by
        have : t < 2 := hok
        omega
      simp only [AHCI.step] at hstep
      split at hstep
      next =>
        cases hstep
        exact update_of_ne hne _ _
      next => cases hstep
    | step t =>
      have hlt : t < 2 := hok.1
      exact advance_others (by omega) hstep
    | spinOut => cases hok
    | complete | error =>
      simp only [AHCI.step, complete, error] at hstep
      split at hstep
      next =>
        simp only [Option.ite_none_right_eq_some, Option.some.injEq] at hstep
        obtain ⟨-, rfl⟩ := hstep
        rfl
      next => cases hstep
  rw [hsame]
  exact h u hu

theorem CalmOfTwo.calm (h : OfTwo s) (e : Event) (hok : CalmOfTwo s e) : Calm s e := by
  cases e with
  | spinOut => cases hok
  | call | expire | complete | error => trivial
  | step t =>
    have hcond := hok.2
    unfold Calm
    dsimp only
    split
    next hpc =>
      rw [hpc] at hcond
      exact hcond
    next hpc =>
      rw [hpc] at hcond
      intro hst hcmd u hwaits
      by_cases hu : u < 2
      . exact hcond hst hcmd u hu hwaits
      . exact absurd (h u (Nat.le_of_not_lt hu)) hwaits
    next => trivial

theorem reach_calm_of_two (h : Reach step CalmOfTwo init s) : Reach step Calm init s ∧ OfTwo s := by
  induction h with
  | refl => exact ⟨.refl, fun _ _ => rfl⟩
  | tail e _ hok hstep ih =>
    exact ⟨ih.1.tail e (hok.calm ih.2 e) hstep, ih.2.step e hok hstep⟩

/--
The command of thread 1 fails, and it stops the engine and starts it again after the command of
thread 0 is complete. Then thread 0 returns, and another command of thread 1 is completed.
-/
def recovered : List Event :=
  [Event.call 0 1] ++ List.replicate 7 (Event.step 0) ++ [Event.call 1 1]
    ++ List.replicate 7 (Event.step 1) ++ [Event.complete 0, Event.error 1]
    ++ List.replicate 15 (Event.step 1) ++ List.replicate 3 (Event.step 0) ++ [Event.call 1 1]
    ++ List.replicate 7 (Event.step 1) ++ [Event.complete 0] ++ List.replicate 3 (Event.step 1)

end Witness

def droppedByRecovery : List Event :=
  [Event.call 0 1] ++ List.replicate 7 (Event.step 0) ++ [Event.call 1 1]
    ++ List.replicate 7 (Event.step 1) ++ [Event.error 1] ++ List.replicate 6 (Event.step 1)
    ++ List.replicate 3 (Event.step 0)

def issuedWhileStopped : List Event :=
  [Event.call 0 1] ++ List.replicate 7 (Event.step 0) ++ [Event.error 0]
    ++ List.replicate 6 (Event.step 0) ++ [Event.call 1 1] ++ List.replicate 10 (Event.step 1)

def busyDevice : List Event :=
  [Event.call 0 1] ++ List.replicate 4 (Event.step 0) ++ [Event.spinOut 0]

end AHCI
