import Skyline.TLB.Lemmas.Round

/-!
This module contains what a CPU knows when `WaitAcks` lets it go.
-/

namespace TLB

open State

variable {cfg : Config} {s s' : State} {c d : Cpu}

/--
The steps at which the rounds of `c` rely on the others: a round starts when no acknowledgement of
an earlier one can still come in, no request that a round of `c` waits for is served ahead of one
that was taken out of the queue before it, and none is thrown out of a queue.
-/
def Orderly (c : Cpu) (s : State) (a : Action) : Prop :=
  match a with
  | .call d call =>
    match call with
    | .page .. | .full .. => True
    | .fence .. | .commit => d = c → s.rounds c = [] ∧ ∀ t, s.owed c t = 0
  | .drain t =>
    s.rounds c ≠ [] → ∀ q ∈ (s.queue t).head?, q.owes c → ∀ x ∈ s.stack t, ¬x.unflushed
  | .expire d =>
    s.rounds c ≠ [] →
      match s.stack d with
      | .round r :: _ =>
        match r.phase with
        | .spin t _ => ∀ q ∈ s.queue t, ¬q.owes c
        | _ => True
      | _ => True
  | _ => True

instance (c : Cpu) (s : State) (a : Action) : Decidable (Orderly c s a) := by
  unfold Orderly
  repeat' split
  all_goals infer_instance

theorem Inv.startCall (h : Inv cfg c s) (hpresent : cfg.present d) (call : Call)
    (horderly : Orderly c s (.call d call))
    : Inv cfg c (startCall cfg s d call) := by
  unfold TLB.startCall
  cases call with
  | page pm vaddr =>
    exact (h.flush (t := d) ⟨some pm, vaddr, .page, none⟩).enter hpresent
      (fun _ => rfl) rfl rfl rfl rfl
  | full pm =>
    exact (h.flush (t := d) ⟨some pm, 0, .full, none⟩).enter hpresent (fun _ => rfl) rfl rfl rfl rfl
  | fence =>
    apply h.startWaiting hpresent horderly
    . rfl
    . rfl
    . rfl
    . rfl
    . rfl
    . intro hd
      simp [setAcks, Function.update_of_ne (Ne.symm hd)]
  | commit =>
    simp only
    split
    . split
      . exact h.startWaiting hpresent horderly rfl rfl rfl rfl rfl fun _ => rfl
      . split
        . exact h.startWaiting hpresent horderly rfl rfl rfl rfl rfl fun _ => rfl
        . exact h.startWaiting hpresent horderly rfl rfl rfl rfl rfl fun _ => rfl
    . exact h

theorem Inv.step (h : Inv cfg c s) (a : Action) (horderly : Orderly c s a)
    (hstep : step cfg s a = some s')
    : Inv cfg c s' := by
  unfold TLB.step at hstep
  split at hstep
  next henabled =>
    have hpresent : cfg.present a.cpu := by
      unfold enabled at henabled
      exact (Bool.and_eq_true_iff.mp henabled).1
    cases a with
    | call _ call =>
      cases hstep
      exact h.startCall hpresent call horderly
    | batchBegin =>
      cases hstep
      exact h.batch rfl rfl rfl
    | batchAbort =>
      cases hstep
      exact h.batch rfl rfl rfl
    | deferredPage _ pm vaddr =>
      cases hstep
      exact h.deferredPage pm vaddr
    | switchPageMap =>
      cases hstep
      exact h.enter hpresent (fun _ => rfl) rfl rfl rfl rfl
    | drain =>
      simp only [stepDrain] at hstep
      split at hstep
      next => cases hstep
      next q qs hqueue =>
        cases hstep
        apply h.drain hpresent qs hqueue
        intro hr hc x hx
        exact horderly hr q (by simp [hqueue]) hc x hx
    | next =>
      simp only [stepNext] at hstep
      split at hstep
      next => cases hstep
      next r rest hs => exact h.stepRound hs hstep
      next q stage rest hs =>
        cases hstep
        exact h.stepService hs
      next old pm phase rest hs =>
        cases hstep
        exact h.stepSwitch hs
    | expire =>
      simp only [stepExpire] at hstep
      split at hstep
      next r rest hs =>
        apply h.expireRound hs _ hstep
        intro hr t ts hphase
        have := horderly hr
        simp only [hs, hphase] at this
        exact this
      next => cases hstep
    | touch =>
      cases hstep
      exact h.batch rfl rfl rfl
  next => cases hstep

theorem Inv.boot (cfg : Config) (c : Cpu) (kernelPagemap : Nat)
    : Inv cfg c (boot kernelPagemap) where
  present := fun h => absurd rfl h
  idle := fun _ => rfl
  once := Nat.zero_le _
  tally := fun h => absurd rfl h
  pending := by
    intro r hr
    cases hr

/--
When `ShootdownFence` or `BatchCommit` returns on `c` without a timeout, every CPU it has sent a
request to in this round has executed a flush that covers the request.
-/
theorem waitAcks_served (cfg : Config) (kernelPagemap : Nat) (c : Cpu) (s s' : State) (r : Round)
    (rest : List Ctx)
    (hreach : Steps.Reach (TLB.step cfg) (Orderly c) (TLB.boot kernelPagemap) s)
    (hs : s.stack c = .round r :: rest) (hr : r.kind = .fence ∨ r.kind = .commit)
    (hphase : r.phase = .send []) (hreturn : TLB.step cfg s (.next c) = some s')
    : r.unserved = [] := by
  have hinv : Inv cfg c s := by
    apply hreach.invariant (Inv cfg c) (Inv.boot cfg c kernelPagemap)
    intro t a u ht ha hu
    exact ht.step a ha hu
  have hwant : r.wantAck := by
    unfold Round.wantAck
    cases hr with
    | inl hk => simp [hk]
    | inr hk => simp [hk]
  have hzero : s.acks c = 0 := by
    unfold TLB.step at hreturn
    split at hreturn
    next =>
      simp only [stepNext, hs, TLB.stepRound, hphase, TLB.finishRound] at hreturn
      cases hr with
      | inl hk =>
        simp only [hk] at hreturn
        by_contra h0
        simp [h0] at hreturn
      | inr hk =>
        simp only [hk] at hreturn
        by_contra h0
        simp [h0] at hreturn
    next => cases hreturn
  have htotal : s.total c = 0 := by
    have := hinv.tally (rounds_ne_nil hs hwant)
    omega
  apply List.eq_nil_iff_forall_not_mem.mpr
  intro p hp
  have hpending := hinv.pending r (mem_rounds hs hwant) p hp
  have := hpending.owed_pos
  have := owed_eq_zero htotal p.1
  omega

def twoCpus : Config where
  hasPcid := true
  present := fun c => decide (c.val ≤ 1)
  lastCpu := 1

def servedFence : List Action :=
  [.call 0 (.fence 1), .next 0, .next 0, .drain 1, .next 1, .next 1, .next 1]

theorem waitAcks_served_fence
    : ∃ (s s' : State) (r : Round), Steps.Reach (TLB.step twoCpus) (Orderly 0) (TLB.boot 0) s
        ∧ s.stack 0 = [.round r] ∧ TLB.step twoCpus s (.next 0) = some s' ∧ r.unserved = [] := by
  obtain ⟨s, hreach, hstack, hreturn⟩ := Steps.Reach.exists_of_run (TLB.step twoCpus) (Orderly 0)
    (TLB.boot 0) servedFence
    (fun s => s.stack 0 = [.round ⟨.fence, 1, .full, [], .send [], []⟩]
      ∧ (TLB.step twoCpus s (.next 0)).isSome) (by decide +kernel)
  obtain ⟨s', hreturn⟩ := Option.isSome_iff_exists.mp hreturn
  have hserved := waitAcks_served twoCpus 0 0 s s' _ _ hreach hstack (.inl rfl) rfl hreturn
  exact ⟨s, s', _, hreach, hstack, hreturn, hserved⟩

def lateAck : List Action :=
  [.call 0 (.fence 1), .next 0, .next 0, .drain 1, .next 1, .next 1, .expire 0,
    .call 0 (.fence 2), .next 0, .next 0, .next 1]

theorem waitAcks_late_ack
    : ∃ (s s' : State) (r : Round),
        Steps.Reach (TLB.step twoCpus) (fun _ _ => True) (TLB.boot 0) s
        ∧ s.stack 0 = [.round r] ∧ r.kind = .fence ∧ r.phase = .send []
        ∧ TLB.step twoCpus s (.next 0) = some s'
        ∧ r.unserved = [(1, ⟨some 2, 0, .full, some 0⟩)] := by
  obtain ⟨s, hreach, hstack, hreturn⟩ := Steps.Reach.exists_of_run (TLB.step twoCpus)
    (fun _ _ => True) (TLB.boot 0) lateAck
    (fun s => s.stack 0
      = [.round ⟨.fence, 2, .full, [], .send [], [(1, ⟨some 2, 0, .full, some 0⟩)]⟩]
      ∧ (TLB.step twoCpus s (.next 0)).isSome) (by decide +kernel)
  obtain ⟨s', hreturn⟩ := Option.isSome_iff_exists.mp hreturn
  exact ⟨s, s', _, hreach, hstack, rfl, rfl, hreturn, rfl⟩

end TLB
