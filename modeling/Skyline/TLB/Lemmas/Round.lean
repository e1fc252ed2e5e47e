import Skyline.TLB.Lemmas.Pending

/-!
This module contains the steps of the protocol one by one.
-/

namespace TLB

open State Function

variable {cfg : Config} {s s' : State} {c d t : Cpu} {q : Req} {r r' : Round} {rest : List Ctx}

theorem acks_doAck (cfg : Config) (s : State) (i : Option Cpu) (c : Cpu)
    : (doAck cfg s i).acks c = if i = some c ∧ cfg.present c then s.acks c - 1 else s.acks c := by
  unfold doAck
  cases i with
  | none => simp
  | some i =>
    simp only [Option.some.injEq]
    split
    next hi =>
      unfold setAcks
      by_cases hc : i = c
      . subst hc
        simp [hi]
      . simp [hc, update_of_ne (Ne.symm hc)]
    next hi =>
      by_cases hc : i = c
      . subst hc
        simp [hi]
      . simp [hc]

@[simp]
theorem queue_doAck (cfg : Config) (s : State) (i : Option Cpu)
    : (doAck cfg s i).queue = s.queue := by
  unfold doAck
  repeat (first | rfl | split)

@[simp]
theorem stack_doAck (cfg : Config) (s : State) (i : Option Cpu)
    : (doAck cfg s i).stack = s.stack := by
  unfold doAck
  repeat (first | rfl | split)

theorem Inv.acks_doAck_le (h : Inv cfg c s) (q : Req) (hr : s.rounds c ≠ [])
    : s.acks c ≤ (doAck cfg s q.ackCpu).acks c + if q.owes c then 1 else 0 := by
  have hpresent : cfg.present c := by
    apply h.present
    intro hs
    apply hr
    unfold State.rounds
    rw [hs, List.filterMap_nil]
  rw [acks_doAck]
  simp only [hpresent, and_true, Req.owes, beq_iff_eq]
  split <;> omega

theorem acks_doAck_zero (q : Req) (h : s.acks c = 0) : (doAck cfg s q.ackCpu).acks c = 0 := by
  rw [acks_doAck]
  split <;> omega

theorem Req.covers_self (q : Req) : q.covers q := by
  unfold Req.covers
  cases q.type <;> simp

theorem pageReqs_split (pm : Nat) (c : Cpu) (addrs : List Nat) (h : q ∈ pageReqs pm (some c) addrs)
    : ∃ l1 l2, pageReqs pm (some c) addrs = l1 ++ q :: l2 ∧ ∃ a ∈ q :: l2, a.owes c := by
  induction addrs with
  | nil => cases h
  | cons a as ih =>
    cases as with
    | nil =>
      simp only [pageReqs, List.mem_singleton] at h
      subst h
      exact ⟨[], [], rfl, _, List.mem_singleton_self _, by simp [Req.owes]⟩
    | cons b bs =>
      simp only [pageReqs, List.mem_cons] at h ⊢
      cases h with
      | inl heq =>
        -- the last request of the set acknowledges the first one, too
        have hlast : ∃ x ∈ pageReqs pm (some c) (b :: bs), x.owes c := by
          clear ih heq
          induction bs generalizing b with
          | nil => exact ⟨_, List.mem_singleton_self _, by simp [Req.owes]⟩
          | cons b' _ ih =>
            obtain ⟨x, hx, hc⟩ := ih b'
            exact ⟨x, List.mem_cons_of_mem _ hx, hc⟩
        obtain ⟨x, hx, hc⟩ := hlast
        exact ⟨[], _, by rw [heq]; rfl, x, .inr hx, hc⟩
      | inr hmem =>
        obtain ⟨l1, l2, heq, a', ha, hc⟩ := ih (by simpa [pageReqs] using hmem)
        refine ⟨⟨some pm, a, .page, none⟩ :: l1, l2, ?_, a', by simpa using ha, hc⟩
        rw [heq]
        rfl

theorem owes_whole (r : Round) (d c : Cpu) : (r.whole d).owes c = (r.wantAck && d == c) := by
  unfold Round.whole Req.owes
  cases r.wantAck <;> simp

theorem requests_cases (r : Round) (d : Cpu) (used : Nat)
    : r.requests d used = [r.whole d]
      ∨ r.requests d used = pageReqs r.pm (if r.wantAck then some d else none) r.addrs := by
  unfold Round.requests
  split
  next =>
    split
    next => exact .inl rfl
    next => exact .inr rfl
  next => exact .inl rfl
  next => exact .inl rfl

theorem requests_split (hr : r.wantAck) (used : Nat) (h : q ∈ r.requests c used)
    : ∃ l1 l2, r.requests c used = l1 ++ q :: l2 ∧ ∃ a ∈ q :: l2, a.owes c := by
  cases requests_cases r c used with
  | inl heq =>
    rw [heq, List.mem_singleton] at h
    subst h
    exact ⟨[], [], heq, _, List.mem_singleton_self _, by simp [owes_whole, hr]⟩
  | inr heq =>
    rw [heq, if_pos hr] at h ⊢
    exact pageReqs_split r.pm c r.addrs h

theorem pageReqs_owes_le (pm : Nat) (ack : Option Cpu) (addrs : List Nat)
    : (pageReqs pm ack addrs).countP (Req.owes c) ≤ if ack = some c then 1 else 0 := by
  induction addrs with
  | nil => simp [pageReqs]
  | cons _ as ih =>
    cases as with
    | nil => simp [pageReqs, Req.owes, List.countP_cons]
    | cons => simpa [pageReqs, Req.owes, List.countP_cons] using ih

theorem requests_owes_le (r : Round) (d c : Cpu) (used : Nat)
    : (r.requests d used).countP (Req.owes c) ≤ if r.wantAck && d == c then 1 else 0 := by
  cases requests_cases r d used with
  | inl heq => simp [heq, List.countP_cons, owes_whole]
  | inr heq =>
    rw [heq]
    apply (pageReqs_owes_le r.pm _ r.addrs).trans
    cases r.wantAck <;> simp

theorem Inv.pushed (h : Inv cfg c s) (hs : s.stack d = .round r :: rest) (qs : List Req)
    (ts : List Cpu) (howes : (Ctx.round r).owes d c = if r.wantAck && d == c then 1 else 0)
    (hcount : qs.countP (Req.owes c) ≤ if r.wantAck && d == c then 1 else 0)
    (hsplit : d = c → r.wantAck → ∀ q ∈ qs,
      ∃ l1 l2, qs = l1 ++ q :: l2 ∧ ∃ a ∈ q :: l2, a.owes c)
    : Inv cfg c (pushed s d r t qs ts) := by
  unfold TLB.pushed
  apply h.round hs
  . rfl
  . rfl
  . exact fun _ h => h
  . intro _ hle
    have hqueue := total_setQueue s c t (s.queue t ++ qs)
    have hstack := total_advance (s := s.setQueue t (s.queue t ++ qs)) (c := c)
      (Ctx.round { r with phase := .send ts, unserved := r.unserved ++ qs.map fun q => (t, q) }) hs
    rw [howes] at hstack
    rw [List.countP_append] at hqueue
    simp only [Ctx.owes] at hstack
    simp only [setQueue] at hle hstack hqueue ⊢
    omega
  . intro _ u q hq
    have hpopped : ∀ (f : Req), Ctx.service f .popped ∈ s.stack u →
        Ctx.service f .popped ∈ ((s.setQueue t (s.queue t ++ qs)).advance d (.round
          { r with
            phase := .send ts, unserved := r.unserved ++ qs.map fun q => (t, q) })).stack u := by
      intro f hf
      exact stack_advance_mem (s := s.setQueue t (s.queue t ++ qs)) hs (by simp) hf
    by_cases hu : u = t
    . subst hu
      apply hq.append qs _ hpopped
      simp [State.advance, setQueue]
    . apply hq.mono _ hpopped
      simp [State.advance, setQueue, update_of_ne hu]
  . intro hd hr p hp
    simp only [List.mem_append, List.mem_map] at hp
    cases hp with
    | inl hp => exact .inl hp
    | inr hp =>
      obtain ⟨q, hq, rfl⟩ := hp
      obtain ⟨l1, l2, heq, a, ha, hc⟩ := hsplit hd hr q hq
      refine .inr (.queued (s.queue t ++ l1) l2 q a ?_ q.covers_self ha hc)
      simp [State.advance, setQueue, heq]

theorem Inv.discard (h : Inv cfg c s) (hs : s.stack d = .round r :: rest) {ts : List Cpu}
    (hphase : r.phase = .spin t ts)
    (hnone : s.rounds c ≠ [] → ∀ q ∈ s.queue t, ¬q.owes c)
    : Inv cfg c ((s.setQueue t [⟨none, 0, .global, (r.whole d).ackCpu⟩]).advance d (.round
        { r with phase := .ack (s.queue t) ts, unserved := r.unserved ++ [(t, r.whole d)] })) := by
  have howes : (⟨none, 0, .global, (r.whole d).ackCpu⟩ : Req).owes c = (r.wantAck && d == c) :=
    owes_whole r d c
  apply h.round hs
  . rfl
  . rfl
  . exact fun _ h => h
  . intro hr hle
    have hqueue := total_setQueue s c t [⟨none, 0, .global, (r.whole d).ackCpu⟩]
    have hstack := total_advance
      (s := s.setQueue t [⟨none, 0, .global, (r.whole d).ackCpu⟩]) (c := c)
      (Ctx.round { r with
        phase := .ack (s.queue t) ts, unserved := r.unserved ++ [(t, r.whole d)] }) hs
    have hzero : (s.queue t).countP (Req.owes c) = 0 := List.countP_eq_zero.mpr (hnone hr)
    rw [List.countP_singleton, howes] at hqueue
    simp only [Ctx.owes, hphase, hzero] at hstack
    simp only [setQueue] at hle hstack hqueue ⊢
    omega
  . intro hr u q hq
    have hpopped : ∀ (f : Req), Ctx.service f .popped ∈ s.stack u →
        Ctx.service f .popped
          ∈ ((s.setQueue t [⟨none, 0, .global, (r.whole d).ackCpu⟩]).advance d (.round
            { r with
              phase := .ack (s.queue t) ts, unserved := r.unserved ++ [(t, r.whole d)] })).stack u
        := by
      intro f hf
      exact stack_advance_mem (s := s.setQueue t _) hs (by simp) hf
    by_cases hu : u = t
    . subst hu
      cases hq with
      | queued l1 _ _ a hqueue _ ha hc =>
        exact absurd hc (hnone hr a (hqueue ▸ List.mem_append_right l1 ha))
      | popped f hstack hf hc =>
        refine .popped f (hpopped f hstack) hf (.inl (hc.resolve_right ?_))
        rintro ⟨a, ha, hc⟩
        exact hnone hr a ha hc
    . apply hq.mono _ hpopped
      simp [State.advance, setQueue, update_of_ne hu]
  . intro hd hr p hp
    simp only [List.mem_append, List.mem_singleton] at hp
    cases hp with
    | inl hp => exact .inl hp
    | inr hp =>
      subst hp
      refine .inr (.queued [] [] ⟨none, 0, .global, (r.whole d).ackCpu⟩ _ ?_ ?_
        (List.mem_singleton_self _) ?_)
      . simp [State.advance, setQueue]
      . simp [Req.covers]
      . rw [howes]
        simp [hr, hd]

theorem Inv.finish (h : Inv cfg c s) (hs : s.stack c = .round r :: rest) (hr : r.wantAck)
    (hacks : s'.acks c = 0) (hstack : s'.stack = s.stack)
    : Inv cfg c (s'.leave c) := by
  have hnone : (s'.leave c).rounds c = [] := by
    have honce := h.once
    unfold State.rounds at honce ⊢
    rw [hs, List.filterMap_cons] at honce
    simp only [Ctx.waiter, hr, if_true, List.length_cons] at honce
    have : (rest.filterMap Ctx.waiter).length = 0 := by omega
    simpa [State.leave, hstack, hs] using this
  constructor
  case present =>
    intro _
    apply h.present
    rw [hs]
    exact List.cons_ne_nil _ _
  case idle => exact fun _ => hacks
  all_goals simp [hnone]

theorem Inv.goOn (h : Inv cfg c s) (hs : s.stack d = .round r :: rest) (r' : Round)
    (hwant : r'.wantAck = r.wantAck) (hunserved : r'.unserved = r.unserved)
    (hstack : s'.stack = s.stack) (hqueue : s'.queue = s.queue)
    (hidle : s.rounds c = [] → s.acks c = 0 → s'.acks c = 0)
    (hacks : s.rounds c ≠ [] →
      s.acks c + (Ctx.round r').owes d c ≤ s'.acks c + (Ctx.round r).owes d c)
    : Inv cfg c (s'.advance d (.round r')) := by
  have hs' : s'.stack d = .round r :: rest := by rw [hstack, hs]
  apply h.round hs hstack hwant hidle
  . intro hr hle
    have htotal := total_advance (c := c) (Ctx.round r') hs'
    have hsame := total_congr (c := c) hqueue hstack
    have := hacks hr
    omega
  . intro _ t q hq
    apply hq.mono
    . exact congrFun hqueue t
    . intro f hf
      exact stack_advance_mem hs' (by simp) (hstack ▸ hf)
  . exact fun _ _ p hp => .inl (hunserved ▸ hp)

theorem Inv.advance (h : Inv cfg c s) {y x : Ctx} (hs : s.stack d = y :: rest)
    (hy : y.waiter = none) (hx : x.waiter = none) (howes : x.owes d c = y.owes d c)
    (hpopped : ∀ (f : Req), y ≠ .service f .popped) (hstack : s'.stack = s.stack)
    (hqueue : s'.queue = s.queue) (hacks : s'.acks = s.acks)
    : Inv cfg c (s'.advance d x) := by
  have hs' : s'.stack d = y :: rest := by rw [hstack, hs]
  apply h.frame
  . apply h.present_of_stack (d := d)
    . rw [hs]
      exact List.cons_ne_nil _ _
    . intro u hu
      simp [State.advance, update_of_ne hu, hstack]
  . rw [rounds_advance hs' fun _ => hx.trans hy.symm]
    unfold State.rounds
    rw [hstack]
  . intro _ h0
    exact (congrFun hacks c).trans h0
  . intro _ hle
    have htotal := total_advance (c := c) x hs'
    have hsame := total_congr (c := c) hqueue hstack
    have : (s'.advance d x).acks c = s.acks c := congrFun hacks c
    omega
  . intro _ t q hq
    apply hq.mono
    . exact congrFun hqueue t
    . intro f hf
      exact stack_advance_mem hs' (fun _ => hpopped f) (hstack ▸ hf)

theorem Inv.leave (h : Inv cfg c s) {y : Ctx} (hs : s.stack d = y :: rest)
    (hy : d = c → y.waiter = none)
    (hpopped : ∀ (f : Req), y ≠ .service f .popped) (hstack : s'.stack = s.stack)
    (hqueue : s'.queue = s.queue)
    (hidle : s.rounds c = [] → s.acks c = 0 → s'.acks c = 0)
    (hacks : s.rounds c ≠ [] → s.acks c ≤ s'.acks c + y.owes d c)
    : Inv cfg c (s'.leave d) := by
  have hs' : s'.stack d = y :: rest := by rw [hstack, hs]
  apply h.frame
  . apply h.present_of_stack (d := d)
    . rw [hs]
      exact List.cons_ne_nil _ _
    . intro u hu
      simp [State.leave, update_of_ne hu, hstack]
  . rw [rounds_leave hs' hy]
    unfold State.rounds
    rw [hstack]
  . exact hidle
  . intro hr hle
    have htotal := total_leave (c := c) hs'
    have hsame := total_congr (c := c) hqueue hstack
    have : (s'.leave d).acks c = s'.acks c := rfl
    have := hacks hr
    omega
  . intro _ t q hq
    apply hq.mono
    . exact congrFun hqueue t
    . intro f hf
      exact stack_leave_mem hs' (fun _ => hpopped f) (hstack ▸ hf)

theorem mem_rounds (hs : s.stack c = .round r :: rest) (hr : r.wantAck) : r ∈ s.rounds c := by
  unfold State.rounds
  simp [hs, Ctx.waiter, hr]

theorem rounds_ne_nil (hs : s.stack c = .round r :: rest) (hr : r.wantAck) : s.rounds c ≠ [] :=
  List.ne_nil_of_mem (mem_rounds hs hr)

section

variable (h : Inv cfg c s) (hs : s.stack d = .round r :: rest)
include h hs

theorem Inv.count {ts : List Cpu}
    (hphase : r.phase = .send (t :: ts))
    : Inv cfg c ((if r.wantAck then s.setAcks d (s.acks d + 1) else s).advance d
        (.round { r with phase := .put t ts })) := by
  have howes : (Ctx.round r).owes d c = 0 := by simp [Ctx.owes, hphase]
  have hnew : (Ctx.round { r with phase := .put t ts }).owes d c
      = if r.wantAck && d == c then 1 else 0 := rfl
  have hacks : (if r.wantAck then s.setAcks d (s.acks d + 1) else s).acks c
      = s.acks c + if r.wantAck && d == c then 1 else 0 := by
    by_cases hd : d = c
    . subst hd
      cases r.wantAck <;> simp [setAcks]
    . cases r.wantAck <;> simp [setAcks, hd, update_of_ne (Ne.symm hd)]
  apply h.goOn hs { r with phase := .put t ts } rfl rfl
  . split <;> rfl
  . split <;> rfl
  . intro hnil h0
    rw [hacks, h0]
    split
    next hown =>
      rw [Bool.and_eq_true, beq_iff_eq] at hown
      obtain ⟨hr, rfl⟩ := hown
      exact absurd hnil (rounds_ne_nil hs hr)
    next => rfl
  . intro _
    omega

theorem Inv.leaveRound
    (hown : ¬(d = c ∧ r.wantAck)) (hstack : s'.stack = s.stack) (hqueue : s'.queue = s.queue)
    (hacks : s'.acks c = s.acks c)
    : Inv cfg c (s'.leave d) := by
  apply h.leave hs _ (by simp) hstack hqueue
  . intro _ h0
    rw [hacks, h0]
  . intro _
    omega
  . intro hd
    have hr : ¬r.wantAck := fun hr => hown ⟨hd, hr⟩
    simp [Ctx.waiter, hr]

theorem Inv.finishRound
    (hphase : r.phase = .send []) (hstep : finishRound cfg s d r = some s')
    : Inv cfg c s' := by
  have hleave : r.wantAck = false → Inv cfg c (s.leave d) := by
    intro hr
    exact h.leaveRound hs (by simp [hr]) rfl rfl rfl
  unfold TLB.finishRound at hstep
  split at hstep
  next hkind =>
    cases hstep
    exact hleave (by simp [Round.wantAck, hkind])
  next hkind =>
    split at hstep
    . cases hstep
      exact hleave (by simp [Round.wantAck, hkind])
    . cases hstep
      apply h.goOn hs
      . simp [Round.wantAck, hkind]
      . rfl
      . rfl
      . rfl
      . exact fun _ h => h
      . intro _
        simp [Ctx.owes, hphase, setMask]
  next hkind =>
    cases hstep
    apply h.leaveRound hs
    . simp [Round.wantAck, hkind]
    all_goals rfl
  all_goals
    split at hstep
    next h0 =>
      cases hstep
      by_cases hown : d = c ∧ r.wantAck
      . obtain ⟨rfl, hr⟩ := hown
        exact h.finish hs hr h0 rfl
      . exact h.leaveRound hs hown rfl rfl rfl
    next => cases hstep

theorem Inv.stepRound
    (hstep : stepRound cfg s d r = some s')
    : Inv cfg c s' := by
  unfold TLB.stepRound at hstep
  split at hstep
  next hphase => exact h.finishRound hs hphase hstep
  next t ts hphase =>
    cases hstep
    exact h.count hs hphase
  next t ts hphase =>
    have howes : (Ctx.round r).owes d c = if r.wantAck && d == c then 1 else 0 := by
      simp [Ctx.owes, hphase]
    simp only at hstep
    split at hstep
    . cases hstep
      apply h.pushed hs _ ts howes (requests_owes_le r d c _)
      intro hd hr q hq
      subst hd
      exact requests_split hr _ hq
    . cases hstep
      apply h.goOn hs { r with phase := .spin t ts } rfl rfl rfl rfl fun _ h => h
      intro _
      rw [howes]
      rfl
  next t ts hphase =>
    have howes : (Ctx.round r).owes d c = if r.wantAck && d == c then 1 else 0 := by
      simp [Ctx.owes, hphase]
    split at hstep
    . cases hstep
      apply h.pushed hs _ ts howes
      . simp [List.countP_cons, owes_whole]
      . intro hd hr q hq
        rw [List.mem_singleton] at hq
        subst hq
        exact ⟨[], [], rfl, _, List.mem_singleton_self _, by simp [owes_whole, hr, hd]⟩
    . cases hstep
  next ts hphase =>
    cases hstep
    apply h.goOn hs { r with phase := .send ts } rfl rfl rfl rfl fun _ h => h
    simp [Ctx.owes]
  next q qs ts hphase =>
    cases hstep
    apply h.goOn hs { r with phase := .ack qs ts } rfl rfl (stack_doAck cfg s _)
      (queue_doAck cfg s _)
    . exact fun _ => acks_doAck_zero q
    . intro hr
      have := h.acks_doAck_le q hr
      simp only [Ctx.owes, hphase, List.countP_cons]
      omega

theorem Inv.expireRound
    (hnone : s.rounds c ≠ [] → ∀ (t : Cpu) (ts : List Cpu), r.phase = .spin t ts →
      ∀ q ∈ s.queue t, ¬q.owes c)
    (hstep : expireRound s d r = some s')
    : Inv cfg c s' := by
  unfold TLB.expireRound at hstep
  split at hstep
  next t ts hphase =>
    cases hstep
    exact h.discard hs hphase fun hr => hnone hr t ts hphase
  next hphase =>
    split at hstep
    next hwait =>
      cases hstep
      rw [Bool.and_eq_true] at hwait
      by_cases hd : d = c
      . subst hd
        exact h.finish hs hwait.1 (update_self ..) rfl
      . apply h.leaveRound hs (by simp [hd])
        . rfl
        . rfl
        . simp [setAcks, update_of_ne (Ne.symm hd)]
    next => cases hstep
  next => cases hstep

end

theorem Inv.serve (h : Inv cfg c s) (hs : s.stack d = .service q .popped :: rest)
    : Inv cfg c ((s.advance d (.service q .flushed)).flush d q) := by
  apply h.keep (Round.flush d q)
  . intro hstack
    have hstack : (s.advance d (.service q .flushed)).stack c ≠ [] := by
      simpa [State.flush] using hstack
    apply h.present_of_stack (d := d) _ _ hstack
    . rw [hs]
      exact List.cons_ne_nil _ _
    . intro u hu
      simp [State.advance, update_of_ne hu]
  . rw [rounds_flush, rounds_advance hs]
    exact fun _ => rfl
  . exact fun _ h => h
  . intro _ hle
    have htotal := total_advance (c := c) (Ctx.service q .flushed) hs
    rw [total_flush]
    simp only [Ctx.owes] at htotal
    exact (Nat.add_right_cancel htotal).le.trans hle
  . intro r _ hp p hmem
    obtain ⟨hmem, hleft⟩ := List.mem_filter.mp hmem
    cases hp p hmem with
    | queued l1 l2 f a hqueue hf ha hc => exact .queued l1 l2 f a hqueue hf ha hc
    | popped f hstack hf hc =>
      refine .popped f ?_ hf hc
      apply List.mem_map.mpr
      refine ⟨.service f .popped, ?_, rfl⟩
      apply stack_advance_mem hs _ hstack
      -- what is not served by `q` waits for another flush
      intro hd heq
      cases heq
      simp [hd, hf] at hleft

theorem Inv.stepService (h : Inv cfg c s) {stage : Stage}
    (hs : s.stack d = .service q stage :: rest)
    : Inv cfg c (stepService cfg s d q stage) := by
  unfold TLB.stepService
  cases stage with
  | popped => exact h.serve hs
  | flushed =>
    apply h.advance hs
    . rfl
    . rfl
    . rfl
    . simp
    all_goals
      split <;> rfl
  | cleared =>
    apply h.leave hs
    . exact fun _ => rfl
    . simp
    . exact stack_doAck cfg s _
    . exact queue_doAck cfg s _
    . exact fun _ => acks_doAck_zero q
    . exact h.acks_doAck_le q

theorem Inv.stepSwitch (h : Inv cfg c s) {old : Option Nat} {pm : Nat} {phase : SwitchPhase}
    (hs : s.stack d = .switch old pm phase :: rest)
    : Inv cfg c (stepSwitch cfg s d old pm phase) := by
  unfold TLB.stepSwitch
  cases phase with
  | load =>
    apply h.advance hs
    . rfl
    . rfl
    . rfl
    . simp
    all_goals rfl
  | detach =>
    apply h.advance hs
    . rfl
    . rfl
    . rfl
    . simp
    all_goals
      split
      . split <;> rfl
      . rfl
  | attach =>
    apply h.leave hs
    . exact fun _ => rfl
    . simp
    . rfl
    . rfl
    . exact fun _ h => h
    . exact fun _ => Nat.le_add_right _ _

theorem Inv.drain (h : Inv cfg c s) (hpresent : cfg.present d) (qs : List Req)
    (hqueue : s.queue d = q :: qs)
    (hnone : s.rounds c ≠ [] → q.owes c → ∀ x ∈ s.stack d, ¬x.unflushed)
    : Inv cfg c ((s.setQueue d qs).enter d (.service q .popped)) := by
  apply h.frame
  . intro hstack
    by_cases hd : d = c
    . exact hd ▸ hpresent
    . exact h.present (by simpa [State.enter, setQueue, update_of_ne (Ne.symm hd)] using hstack)
  . exact rounds_enter _ c d fun _ => rfl
  . exact fun _ h => h
  . intro _ hle
    have htotal := total_setQueue s c d qs
    rw [hqueue, List.countP_cons] at htotal
    rw [total_enter]
    simp only [Ctx.owes]
    have : ((s.setQueue d qs).enter d (.service q .popped)).acks c = s.acks c := rfl
    omega
  . intro hr t p hp
    have hpopped : ∀ (f : Req), Ctx.service f .popped ∈ s.stack t →
        Ctx.service f .popped ∈ ((s.setQueue d qs).enter d (.service q .popped)).stack t := by
      intro f hf
      unfold State.enter setQueue
      by_cases ht : t = d
      . subst ht
        simpa using .inr hf
      . simpa [update_of_ne ht] using hf
    by_cases ht : t = d
    . subst ht
      have hafter : ((s.setQueue t qs).enter t (.service q .popped)).queue t = qs := by
        simp [State.enter, setQueue]
      cases hp with
      | queued l1 l2 f a hsplit hf ha hc =>
        rw [hqueue] at hsplit
        cases l1 with
        | nil =>
          rw [List.nil_append, List.cons.injEq] at hsplit
          obtain ⟨rfl, rfl⟩ := hsplit
          refine .popped q ?_ hf ?_
          . simp [State.enter]
          . rw [List.mem_cons] at ha
            cases ha with
            | inl ha => exact .inl (ha ▸ hc)
            | inr ha => exact .inr ⟨a, hafter.symm ▸ ha, hc⟩
        | cons _ l1 =>
          rw [List.cons_append, List.cons.injEq] at hsplit
          exact .queued l1 l2 f a (hafter.trans hsplit.2) hf ha hc
      | popped f hstack hf hc =>
        refine .popped f (hpopped f hstack) hf (hc.imp_right ?_)
        rintro ⟨a, ha, hc⟩
        rw [hqueue, List.mem_cons] at ha
        cases ha with
        | inl ha => exact absurd rfl (hnone hr (ha ▸ hc) _ hstack)
        | inr ha => exact ⟨a, hafter.symm ▸ ha, hc⟩
    . apply hp.mono _ hpopped
      simp [State.enter, setQueue, update_of_ne ht]

theorem Inv.start (hpresent : cfg.present c) (hnil : s.rounds c = [])
    (hzero : ∀ (t : Cpu), s.owed c t = 0) (howes : (Ctx.round r).owes c c = 0) (hr : r.wantAck)
    (hunserved : r.unserved = []) (hstack : s'.stack = s.stack) (hqueue : s'.queue = s.queue)
    : Inv cfg c (s'.enter c (.round r)) := by
  have hnil' : (s'.stack c).filterMap Ctx.waiter = [] := by
    rw [hstack]
    exact hnil
  have hrounds : (s'.enter c (.round r)).rounds c = [r] := by
    unfold State.rounds State.enter
    simp only [update_self, List.filterMap_cons, Ctx.waiter, hr, if_true, hnil']
  have htotal : (s'.enter c (.round r)).total c = 0 := by
    rw [total_enter, howes, total_congr hqueue hstack]
    unfold State.total
    simp [hzero]
  constructor
  case present => exact fun _ => hpresent
  case idle => simp [hrounds]
  case once => simp [hrounds]
  case tally =>
    intro _
    rw [htotal]
    exact Nat.zero_le _
  case pending => simp [hrounds, hunserved]

theorem Inv.batch (h : Inv cfg c s) (hstack : s'.stack = s.stack) (hqueue : s'.queue = s.queue)
    (hacks : s'.acks = s.acks)
    : Inv cfg c s' := by
  apply h.frame
  . rw [hstack]
    exact h.present
  . unfold State.rounds
    rw [hstack]
  . rw [hacks]
    exact fun _ h => h
  . rw [hacks, total_congr hqueue hstack]
    exact fun _ h => h
  . intro _ t q hq
    apply hq.mono
    . exact congrFun hqueue t
    . intro f hf
      rw [hstack]
      exact hf

theorem Inv.deferredPage (h : Inv cfg c s) (pm vaddr : Nat)
    : Inv cfg c (deferredPage s d pm vaddr) := by
  have hflush := h.flush (t := d) ⟨some pm, vaddr, .page, none⟩
  unfold TLB.deferredPage
  simp only
  split
  . split
    . exact hflush.batch rfl rfl rfl
    . exact hflush.batch rfl rfl rfl
  . exact hflush

theorem Inv.startWaiting (h : Inv cfg c s) (hpresent : cfg.present d)
    (hquiet : d = c → s.rounds c = [] ∧ ∀ t, s.owed c t = 0) (hr : r.wantAck)
    {targets : List Cpu} (hphase : r.phase = .send targets) (hunserved : r.unserved = [])
    (hstack : s'.stack = s.stack) (hqueue : s'.queue = s.queue)
    (hacks : d ≠ c → s'.acks c = s.acks c)
    : Inv cfg c (s'.enter d (.round r)) := by
  have howes : (Ctx.round r).owes d c = 0 := by simp [Ctx.owes, hphase]
  by_cases hd : d = c
  . subst hd
    exact Inv.start hpresent (hquiet rfl).1 (hquiet rfl).2 howes hr hunserved hstack hqueue
  . exact h.enter hpresent (fun heq => absurd heq hd) howes hstack hqueue (hacks hd)

end TLB
