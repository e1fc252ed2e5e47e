import Skyline.Steps.Basic
import Skyline.TLB.Impl

/-!
This module contains the invariant of a round that waits for acknowledgements.
-/

namespace TLB

open Function

section

def Req.owes (c : Cpu) (q : Req) : Bool :=
  q.ackCpu == some c

def Ctx.owes (me c : Cpu) (x : Ctx) : Nat :=
  match x with
  | .round r =>
    match r.phase with
    | .put .. | .spin .. => if r.wantAck && me == c then 1 else 0
    | .ack qs _ => qs.countP (Req.owes c)
    | _ => 0
  | .service q _ => if q.owes c then 1 else 0
  | .switch .. => 0

@[simp]
theorem Ctx.owes_flush (x : Ctx) (t : Cpu) (f : Req) (me c : Cpu)
    : (x.flush t f).owes me c = x.owes me c := by
  cases x <;> rfl

def Ctx.waiter (x : Ctx) : Option Round :=
  match x with
  | .round r => if r.wantAck then some r else none
  | _ => none

def Ctx.unflushed (x : Ctx) : Bool :=
  match x with
  | .service _ .popped => true
  | _ => false

variable {y : Ctx} {rest : List Ctx}

namespace State

def owed (s : State) (c t : Cpu) : Nat :=
  (s.queue t).countP (Req.owes c) + ((s.stack t).map (Ctx.owes t c)).sum

def total (s : State) (c : Cpu) : Nat :=
  ∑ t, s.owed c t

def rounds (s : State) (c : Cpu) : List Round :=
  (s.stack c).filterMap Ctx.waiter

variable {s : State} {c d t : Cpu}

theorem total_eq (s : State) (c : Cpu)
    : s.total c
        = ∑ t, (s.queue t).countP (Req.owes c) + ∑ t, ((s.stack t).map (Ctx.owes t c)).sum := by
  unfold total owed
  rw [Finset.sum_add_distrib]

theorem total_setQueue (s : State) (c t : Cpu) (qs : List Req)
    : (s.setQueue t qs).total c + (s.queue t).countP (Req.owes c)
        = s.total c + qs.countP (Req.owes c) := by
  have := Steps.sum_update (fun _ q => q.countP (Req.owes c)) s.queue t qs
  rw [total_eq, total_eq]
  simp only [setQueue]
  omega

theorem total_stack (s : State) (c d : Cpu) (xs : List Ctx)
    : { s with stack := update s.stack d xs }.total c + ((s.stack d).map (Ctx.owes d c)).sum
        = s.total c + (xs.map (Ctx.owes d c)).sum := by
  have := Steps.sum_update (fun t x => (x.map (Ctx.owes t c)).sum) s.stack d xs
  rw [total_eq, total_eq]
  simp only
  omega

theorem total_enter (s : State) (c d : Cpu) (x : Ctx)
    : (s.enter d x).total c = s.total c + x.owes d c := by
  have := total_stack s c d (x :: s.stack d)
  simp only [List.map_cons, List.sum_cons] at this
  unfold enter
  omega

theorem total_advance (x : Ctx) (h : s.stack d = y :: rest)
    : (s.advance d x).total c + y.owes d c = s.total c + x.owes d c := by
  have := total_stack s c d (x :: (s.stack d).tail)
  simp only [h, List.map_cons, List.sum_cons, List.tail_cons] at this
  unfold advance
  rw [h, List.tail_cons]
  omega

theorem total_leave (h : s.stack d = y :: rest)
    : (s.leave d).total c + y.owes d c = s.total c := by
  have := total_stack s c d (s.stack d).tail
  simp only [h, List.map_cons, List.sum_cons, List.tail_cons] at this
  unfold leave
  rw [h, List.tail_cons]
  omega

@[simp]
theorem total_flush (s : State) (t : Cpu) (f : Req) (c : Cpu)
    : (s.flush t f).total c = s.total c := by
  unfold total owed flush
  simp [List.map_map, comp_def]

theorem total_congr {s' : State} (hqueue : s'.queue = s.queue) (hstack : s'.stack = s.stack)
    : s'.total c = s.total c := by
  unfold total owed
  rw [hqueue, hstack]

theorem owed_eq_zero (h : s.total c = 0) (t : Cpu) : s.owed c t = 0 := by
  unfold total at h
  rw [Finset.sum_eq_zero_iff] at h
  exact h t (Finset.mem_univ t)

theorem rounds_enter (s : State) (c d : Cpu) {x : Ctx} (hx : d = c → x.waiter = none)
    : (s.enter d x).rounds c = s.rounds c := by
  unfold rounds enter
  by_cases hd : d = c
  . subst hd
    simp [hx rfl]
  . simp [update_of_ne (Ne.symm hd)]

theorem rounds_advance {x : Ctx} (h : s.stack d = y :: rest)
    (hx : d = c → x.waiter = y.waiter)
    : (s.advance d x).rounds c = s.rounds c := by
  unfold rounds advance
  by_cases hd : d = c
  . subst hd
    simp [h, List.filterMap_cons, hx rfl]
  . simp [update_of_ne (Ne.symm hd)]

theorem rounds_leave (h : s.stack d = y :: rest)
    (hy : d = c → y.waiter = none)
    : (s.leave d).rounds c = s.rounds c := by
  unfold rounds leave
  by_cases hd : d = c
  . subst hd
    simp [h, hy rfl]
  . simp [update_of_ne (Ne.symm hd)]

theorem rounds_flush (s : State) (t : Cpu) (f : Req) (c : Cpu)
    : (s.flush t f).rounds c = (s.rounds c).map (Round.flush t f) := by
  unfold rounds flush
  rw [List.filterMap_map, List.map_filterMap]
  congr 1
  funext x
  cases x with
  | round r =>
    have : (r.flush t f).wantAck = r.wantAck := rfl
    simp only [comp_apply, Ctx.flush, Ctx.waiter, this]
    split <;> rfl
  | service => rfl
  | switch => rfl

end State
end

open State

variable {cfg : Config} {s s' : State} {c d t : Cpu} {q : Req} {r r' : Round} {rest : List Ctx}

inductive Pending (s : State) (c t : Cpu) (q : Req) : Prop where
  | queued (l1 l2 : List Req) (f a : Req) (hqueue : s.queue t = l1 ++ f :: l2) (hf : f.covers q)
    (ha : a ∈ f :: l2) (hc : a.owes c)
  | popped (f : Req) (hstack : Ctx.service f .popped ∈ s.stack t) (hf : f.covers q)
    (hc : f.owes c ∨ ∃ a ∈ s.queue t, a.owes c)

theorem Pending.append (qs : List Req) (hqueue : s'.queue t = s.queue t ++ qs)
    (hstack : ∀ (f : Req), Ctx.service f .popped ∈ s.stack t → Ctx.service f .popped ∈ s'.stack t)
    (h : Pending s c t q)
    : Pending s' c t q := by
  cases h with
  | queued l1 l2 f a hq hf ha hc =>
    refine .queued l1 (l2 ++ qs) f a ?_ hf (List.mem_append_left qs ha) hc
    rw [hqueue, hq, List.append_assoc, List.cons_append]
  | popped f hs hf hc =>
    refine .popped f (hstack f hs) hf (hc.imp_right ?_)
    rintro ⟨a, ha, hc⟩
    exact ⟨a, hqueue ▸ List.mem_append_left qs ha, hc⟩

theorem Pending.mono (hqueue : s'.queue t = s.queue t)
    (hstack : ∀ (f : Req), Ctx.service f .popped ∈ s.stack t → Ctx.service f .popped ∈ s'.stack t)
    (h : Pending s c t q)
    : Pending s' c t q :=
  h.append [] (hqueue.trans (List.append_nil _).symm) hstack

theorem Pending.owed_pos (h : Pending s c t q) : 0 < s.owed c t := by
  have hsource : (∃ a ∈ s.queue t, a.owes c)
      ∨ ∃ f, Ctx.service f .popped ∈ s.stack t ∧ f.owes c := by
    cases h with
    | queued l1 _ _ a hq _ ha hc =>
      exact .inl ⟨a, hq ▸ List.mem_append_right l1 ha, hc⟩
    | popped f hs _ hc =>
      cases hc with
      | inl hc => exact .inr ⟨f, hs, hc⟩
      | inr hc => exact .inl hc
  unfold owed
  cases hsource with
  | inl h =>
    have := List.countP_pos_iff.mpr h
    omega
  | inr h =>
    obtain ⟨f, hs, hc⟩ := h
    have hpos : 0 < ((s.stack t).map (Ctx.owes t c)).sum := by
      apply List.sum_pos_iff_exists_pos_nat.mpr
      exact ⟨_, List.mem_map_of_mem hs, by simp [Ctx.owes, hc]⟩
    omega

structure Inv (cfg : Config) (c : Cpu) (s : State) : Prop where
  present : s.stack c ≠ [] → cfg.present c
  idle : s.rounds c = [] → s.acks c = 0
  once : (s.rounds c).length ≤ 1
  tally : s.rounds c ≠ [] → s.total c ≤ s.acks c
  pending : ∀ (r : Round), r ∈ s.rounds c → ∀ p ∈ r.unserved, Pending s c p.1 p.2

section

variable (h : Inv cfg c s)
include h

theorem Inv.keep (g : Round → Round) (hpresent : s'.stack c ≠ [] → cfg.present c)
    (hrounds : s'.rounds c = (s.rounds c).map g)
    (hidle : s.rounds c = [] → s.acks c = 0 → s'.acks c = 0)
    (htally : s.rounds c ≠ [] → s.total c ≤ s.acks c → s'.total c ≤ s'.acks c)
    (hpending : ∀ (r : Round), r ∈ s.rounds c → (∀ p ∈ r.unserved, Pending s c p.1 p.2) →
      ∀ p ∈ (g r).unserved, Pending s' c p.1 p.2)
    : Inv cfg c s' where
  present := hpresent
  idle := by
    intro hr
    rw [hrounds, List.map_eq_nil_iff] at hr
    exact hidle hr (h.idle hr)
  once := by
    rw [hrounds, List.length_map]
    exact h.once
  tally := by
    intro hr
    rw [hrounds, ne_eq, List.map_eq_nil_iff] at hr
    exact htally hr (h.tally hr)
  pending := by
    intro r hr
    rw [hrounds, List.mem_map] at hr
    obtain ⟨r, hr, rfl⟩ := hr
    exact hpending r hr (h.pending r hr)

theorem Inv.frame (hpresent : s'.stack c ≠ [] → cfg.present c)
    (hrounds : s'.rounds c = s.rounds c)
    (hidle : s.rounds c = [] → s.acks c = 0 → s'.acks c = 0)
    (htally : s.rounds c ≠ [] → s.total c ≤ s.acks c → s'.total c ≤ s'.acks c)
    (hpending : s.rounds c ≠ [] → ∀ (t : Cpu) (q : Req), Pending s c t q → Pending s' c t q)
    : Inv cfg c s' := by
  apply h.keep id hpresent (by simpa using hrounds) hidle htally
  intro r hr hp p hmem
  exact hpending (List.ne_nil_of_mem hr) _ _ (hp p hmem)

theorem Inv.flush (f : Req) : Inv cfg c (s.flush t f) := by
  apply h.keep (Round.flush t f)
  . intro hs
    apply h.present
    simpa [State.flush] using hs
  . exact rounds_flush s t f c
  . exact fun _ h => h
  . rw [total_flush]
    exact fun _ h => h
  . intro r _ hp p hmem
    apply (hp p (List.mem_filter.mp hmem).1).mono
    . rfl
    . intro f' hf
      exact List.mem_map.mpr ⟨_, hf, rfl⟩

theorem Inv.enter {x : Ctx} (hpresent : cfg.present d)
    (hx : d = c → x.waiter = none) (hx' : x.owes d c = 0) (hstack : s'.stack = s.stack)
    (hqueue : s'.queue = s.queue) (hacks : s'.acks c = s.acks c)
    : Inv cfg c (s'.enter d x) := by
  apply h.frame
  . intro hs
    by_cases hd : d = c
    . exact hd ▸ hpresent
    . exact h.present (by simpa [State.enter, update_of_ne (Ne.symm hd), hstack] using hs)
  . rw [rounds_enter s' c d hx]
    unfold State.rounds
    rw [hstack]
  . exact fun _ h => hacks.trans h
  . intro _ hle
    have : (s'.enter d x).acks c = s.acks c := hacks
    rw [total_enter, hx', total_congr hqueue hstack]
    omega
  . intro _ t q hq
    apply hq.mono
    . exact congrFun hqueue t
    . intro f hf
      unfold State.enter
      by_cases ht : t = d
      . subst ht
        simpa [hstack] using .inr hf
      . simpa [update_of_ne ht, hstack] using hf

end

theorem update_stack_mem {y : Ctx} {l : List Ctx} {f : Req} (hs : s.stack d = y :: rest)
    (hl : ∀ x ∈ rest, x ∈ l)
    (hy : d = t → y ≠ .service f .popped) (hf : Ctx.service f .popped ∈ s.stack t)
    : Ctx.service f .popped ∈ update s.stack d l t := by
  by_cases ht : d = t
  . subst ht
    rw [hs, List.mem_cons] at hf
    rw [update_self]
    exact hl _ (hf.resolve_left fun heq => hy rfl heq.symm)
  . rwa [update_of_ne (Ne.symm ht)]

theorem stack_advance_mem {y x : Ctx} {f : Req} (hs : s.stack d = y :: rest)
    (hy : d = t → y ≠ .service f .popped) (hf : Ctx.service f .popped ∈ s.stack t)
    : Ctx.service f .popped ∈ (s.advance d x).stack t :=
  update_stack_mem hs (by simp +contextual [hs]) hy hf

theorem stack_leave_mem {y : Ctx} {f : Req} (hs : s.stack d = y :: rest)
    (hy : d = t → y ≠ .service f .popped) (hf : Ctx.service f .popped ∈ s.stack t)
    : Ctx.service f .popped ∈ (s.leave d).stack t :=
  update_stack_mem hs (by simp [hs]) hy hf

theorem Inv.present_of_stack (h : Inv cfg c s) (hs : s.stack d ≠ [])
    (hd : ∀ u ≠ d, s'.stack u = s.stack u) (hpresent : s'.stack c ≠ [])
    : cfg.present c := by
  by_cases hc : c = d
  . subst hc
    exact h.present hs
  . exact h.present (hd c hc ▸ hpresent)

theorem Inv.round (h : Inv cfg c s) (hs : s.stack d = .round r :: rest)
    (hstack : s'.stack = s.stack) (hwant : r'.wantAck = r.wantAck)
    (hidle : s.rounds c = [] → s.acks c = 0 → s'.acks c = 0)
    (htally : s.rounds c ≠ [] → s.total c ≤ s.acks c →
      (s'.advance d (.round r')).total c ≤ s'.acks c)
    (hpending : s.rounds c ≠ [] → ∀ (t : Cpu) (q : Req), Pending s c t q →
      Pending (s'.advance d (.round r')) c t q)
    (hnew : d = c → r.wantAck → ∀ p ∈ r'.unserved,
      p ∈ r.unserved ∨ Pending (s'.advance d (.round r')) c p.1 p.2)
    : Inv cfg c (s'.advance d (.round r')) := by
  have hs' : s'.stack d = .round r :: rest := by rw [hstack, hs]
  have hrounds' : s'.rounds c = s.rounds c := by
    unfold State.rounds
    rw [hstack]
  have hpresent : (s'.advance d (.round r')).stack c ≠ [] → cfg.present c := by
    apply h.present_of_stack (d := d)
    . rw [hs]
      exact List.cons_ne_nil _ _
    . intro u hu
      simp [State.advance, update_of_ne hu, hstack]
  by_cases hown : d = c ∧ r.wantAck
  . obtain ⟨rfl, hr⟩ := hown
    -- the round is the only one of `c` that waits
    have hsame : s.rounds d = [r] := by
      have honce := h.once
      unfold State.rounds at honce ⊢
      rw [hs, List.filterMap_cons] at honce ⊢
      simp only [Ctx.waiter, hr, if_true, List.length_cons] at honce ⊢
      have : (rest.filterMap Ctx.waiter).length = 0 := by omega
      rw [List.length_eq_zero_iff.mp this]
    have hafter : (s'.advance d (.round r')).rounds d = [r'] := by
      unfold State.rounds at hsame ⊢
      rw [hs, List.filterMap_cons] at hsame
      simp only [Ctx.waiter, hr, if_true, List.cons.injEq, true_and] at hsame
      simp [State.advance, hs', Ctx.waiter, hwant, hr, hsame]
    apply h.keep (fun _ => r') hpresent
    . rw [hafter, hsame, List.map_singleton]
    . intro hnil
      rw [hsame] at hnil
      cases hnil
    . exact htally
    . intro r0 hr0 hp p hmem
      rw [hsame, List.mem_singleton] at hr0
      subst hr0
      cases hnew rfl hr p hmem with
      | inl hmem =>
        apply hpending
        . rw [hsame]
          exact List.cons_ne_nil _ _
        . exact hp p hmem
      | inr hp => exact hp
  . apply h.frame hpresent
    . rw [← hrounds']
      apply rounds_advance hs'
      intro hd
      have hr : ¬r.wantAck := fun hr => hown ⟨hd, hr⟩
      simp [Ctx.waiter, hwant, hr]
    . exact hidle
    . exact htally
    . exact hpending

end TLB
