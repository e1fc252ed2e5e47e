import Skyline.TLB.Fence

/-!
This module contains what the mask of a page map says about the CPUs that run on it.
-/

namespace TLB

open State Function

variable {cfg : Config} {s s' : State} {c d : Cpu} {rest : List Ctx}

def Ctx.isSwitch (x : Ctx) : Bool :=
  match x with
  | .switch .. => true
  | _ => false

/--
A CPU that is not in `SwitchPageMap` has its bit set in the mask of the page map in its CR3, if that
is not the one that was there when the CPUs were started.
-/
structure Attached (k : Nat) (s : State) : Prop where
  mask : ∀ (c : Cpu), s.interruptible c → s.cr3 c ≠ k → s.mask (s.cr3 c) c
  top : ∀ (c : Cpu) (old : Option Nat) (pm : Nat) (phase : SwitchPhase),
    (s.stack c).head? = some (.switch old pm phase) → phase ≠ .load → s.cr3 c = pm
  rest : ∀ (c : Cpu), ∀ x ∈ (s.stack c).tail, ¬x.isSwitch

/--
The next step of the CPU in this context does not clear the bit of a CPU in the mask of the page map
that the CPU has loaded.
-/
def Ctx.Keeps (cfg : Config) (k : Nat) (s : State) (c : Cpu) : Ctx → Prop
  | .service q .flushed => q.type = .full → s.cr3 c ≠ k → q.pm ≠ some (s.cr3 c)
  | .round r =>
    r.kind = .full → r.phase = .send [] → cfg.hasPcid = false → r.pm ≠ k →
      ∀ (d : Cpu), s.cr3 d ≠ r.pm
  | _ => True

instance (cfg : Config) (k : Nat) (s : State) (c : Cpu) (x : Ctx) : Decidable (x.Keeps cfg k s c) :=
  match x with
  | .service _ stage =>
    match stage with
    | .flushed => inferInstanceAs (Decidable (_ → _ → _))
    | .popped | .cleared => isTrue trivial
  | .round _ => inferInstanceAs (Decidable (_ → _ → _ → _ → _))
  | .switch .. => isTrue trivial

def KeepsBits (cfg : Config) (k : Nat) (s : State) : Action → Prop
  | .next c => ∀ x ∈ (s.stack c).head?, x.Keeps cfg k s c
  | _ => True

instance (cfg : Config) (k : Nat) (s : State) (a : Action) : Decidable (KeepsBits cfg k s a) :=
  match a with
  | .next c => inferInstanceAs (Decidable (∀ x ∈ (s.stack c).head?, x.Keeps cfg k s c))
  | .call .. | .batchBegin .. | .batchAbort .. | .deferredPage .. | .switchPageMap .. | .drain ..
  | .expire .. | .touch .. => isTrue trivial

variable {k : Nat}

theorem Attached.congr (h : Attached k s) (hstack : s'.stack = s.stack) (hcr3 : s'.cr3 = s.cr3)
    (hmask : s'.mask = s.mask)
    : Attached k s' := by
  constructor
  . unfold interruptible
    rw [hcr3, hmask, hstack]
    exact h.mask
  . rw [hcr3, hstack]
    exact h.top
  . rw [hstack]
    exact h.rest

theorem interruptible_eq (s : State) (c : Cpu)
    : s.interruptible c = !(s.stack c).head?.any Ctx.isSwitch := by
  unfold interruptible
  cases s.stack c with
  | nil => rfl
  | cons x => cases x <;> rfl

theorem interruptible_of_top {x : Ctx} (hs : s.stack c = x :: rest) (hx : x.isSwitch = false)
    : s.interruptible c := by
  simp [interruptible_eq, hs, hx]

theorem Ctx.isSwitch_flush (x : Ctx) (t : Cpu) (f : Req) : (x.flush t f).isSwitch = x.isSwitch := by
  cases x <;> rfl

theorem interruptible_flush (s : State) (t : Cpu) (f : Req) (c : Cpu)
    : (s.flush t f).interruptible c = s.interruptible c := by
  simp only [interruptible_eq, State.flush, List.head?_map, Option.any_map]
  congr 2
  funext x
  exact x.isSwitch_flush t f

theorem Attached.flush (h : Attached k s) (t : Cpu) (f : Req) : Attached k (s.flush t f) := by
  constructor
  . intro c hopen
    rw [interruptible_flush] at hopen
    exact h.mask c hopen
  . intro c old pm phase htop
    apply h.top c old pm phase
    simp only [State.flush, List.head?_map, Option.map_eq_some_iff] at htop
    obtain ⟨x, hx, heq⟩ := htop
    rw [hx]
    cases x with
    | round => cases heq
    | service => cases heq
    | switch => exact congrArg some heq
  . intro c x hx
    simp only [State.flush, ← List.map_tail, List.mem_map] at hx
    obtain ⟨x, hx, rfl⟩ := hx
    rw [x.isSwitch_flush]
    exact h.rest c x hx

theorem interruptible_congr (hstack : s'.stack c = s.stack c)
    : s'.interruptible c = s.interruptible c := by
  unfold interruptible
  rw [hstack]

/--
What is on top of the stack of `d` is replaced, and the masks lose no bit that counts.
-/
theorem Attached.advance (h : Attached k s) {y x : Ctx} (hs : s.stack d = y :: rest)
    (hx : x.isSwitch = y.isSwitch) (hstack : s'.stack = s.stack)
    (hcr3 : ∀ (c : Cpu), c ≠ d → s'.cr3 c = s.cr3 c)
    (hsame : x.isSwitch = false → s'.cr3 d = s.cr3 d)
    (hload : ∀ old pm phase, x = .switch old pm phase → phase ≠ .load → s'.cr3 d = pm)
    (hmask : ∀ (c : Cpu), s.interruptible c → s.mask (s.cr3 c) c → s.cr3 c ≠ k
      → s'.mask (s.cr3 c) c)
    : Attached k (s'.advance d x) := by
  constructor
  . intro c hopen hne
    by_cases hd : c = d
    . subst hd
      have hfree : x.isSwitch = false := by
        simpa [interruptible_eq, State.advance] using hopen
      have hopen' := interruptible_of_top hs (hx ▸ hfree)
      have heq : (s'.advance c x).cr3 c = s.cr3 c := hsame hfree
      rw [heq] at hne ⊢
      exact hmask c hopen' (h.mask c hopen' hne) hne
    . have heq : (s'.advance d x).cr3 c = s.cr3 c := hcr3 c hd
      have hopen' : s.interruptible c := by
        rw [← hopen]
        apply interruptible_congr
        simp [State.advance, update_of_ne hd, hstack]
      rw [heq] at hne ⊢
      exact hmask c hopen' (h.mask c hopen' hne) hne
  . intro c old pm phase htop hphase
    by_cases hd : c = d
    . subst hd
      simp only [State.advance, update_self, List.head?_cons, Option.some.injEq] at htop
      exact hload old pm phase htop hphase
    . simp only [State.advance, update_of_ne hd, hstack] at htop
      exact (hcr3 c hd).trans (h.top c old pm phase htop hphase)
  . intro c z hz
    have hr := h.rest c
    by_cases hd : c = d
    . subst hd
      simp only [State.advance, update_self, List.tail_cons, hstack] at hz
      exact hr z hz
    . simp only [State.advance, update_of_ne hd, hstack] at hz
      exact hr z hz

theorem Attached.leave (h : Attached k s) (hstack : s'.stack = s.stack) (hcr3 : s'.cr3 = s.cr3)
    (hmask : ∀ (c : Cpu), (c ≠ d → s.interruptible c) → s.cr3 c ≠ k → s'.mask (s.cr3 c) c)
    : Attached k (s'.leave d) := by
  constructor
  . intro c hopen hne
    have heq : (s'.leave d).cr3 c = s.cr3 c := congrFun hcr3 c
    rw [heq] at hne ⊢
    refine hmask c (fun hd => ?_) hne
    rw [← hopen]
    apply interruptible_congr
    simp [State.leave, update_of_ne hd, hstack]
  . intro c old pm phase htop hphase
    by_cases hd : c = d
    . subst hd
      simp only [State.leave, update_self, hstack] at htop
      have hmem := List.mem_of_mem_head? (Option.mem_def.mpr htop)
      exact absurd rfl (h.rest c _ hmem)
    . simp only [State.leave, update_of_ne hd, hstack] at htop
      exact (congrFun hcr3 c).trans (h.top c old pm phase htop hphase)
  . intro c z hz
    by_cases hd : c = d
    . subst hd
      simp only [State.leave, update_self, hstack] at hz
      exact h.rest c z (List.mem_of_mem_tail hz)
    . simp only [State.leave, update_of_ne hd, hstack] at hz
      exact h.rest c z hz

theorem Attached.enter (h : Attached k s) (hopen : s.interruptible d) (x : Ctx)
    (hx : ∀ old pm phase, x = .switch old pm phase → phase = .load)
    (hstack : s'.stack = s.stack) (hmask : s'.mask = s.mask) (hcr3 : s'.cr3 = s.cr3)
    : Attached k (s'.enter d x) := by
  constructor
  . intro c htop hne
    have hopen' : s.interruptible c := by
      by_cases hd : c = d
      . exact hd ▸ hopen
      . rw [← htop]
        apply interruptible_congr
        simp [State.enter, update_of_ne hd, hstack]
    show s'.mask (s'.cr3 c) c
    rw [hmask, hcr3]
    exact h.mask c hopen' (hcr3 ▸ hne)
  . intro c old pm phase htop hphase
    by_cases hd : c = d
    . subst hd
      simp only [State.enter, update_self, List.head?_cons, Option.some.injEq] at htop
      exact absurd (hx old pm phase htop) hphase
    . simp only [State.enter, update_of_ne hd, hstack] at htop
      exact (congrFun hcr3 c).trans (h.top c old pm phase htop hphase)
  . intro c z hz
    by_cases hd : c = d
    . subst hd
      simp only [State.enter, update_self, List.tail_cons, hstack] at hz
      cases hs : s.stack c with
      | nil =>
        rw [hs] at hz
        cases hz
      | cons =>
        rw [hs, List.mem_cons] at hz
        cases hz with
        | inl heq =>
          subst heq
          simpa [interruptible_eq, hs] using hopen
        | inr hmem => exact h.rest c z (by simp [hs, hmem])
    . simp only [State.enter, update_of_ne hd, hstack] at hz
      exact h.rest c z hz

theorem mask_doAck (cfg : Config) (s : State) (i : Option Cpu) : (doAck cfg s i).mask = s.mask := by
  unfold doAck
  repeat (first | rfl | split)

theorem cr3_doAck (cfg : Config) (s : State) (i : Option Cpu) : (doAck cfg s i).cr3 = s.cr3 := by
  unfold doAck
  repeat (first | rfl | split)

theorem setMask_other {pm p : Nat} (cpus : Cpu → Bool) (hp : p ≠ pm)
    : (s.setMask pm cpus).mask p = s.mask p := by
  simp [setMask, update_of_ne hp]

section

variable (h : Attached k s)
include h

theorem Attached.advanceRound {r r' : Round} (hs : s.stack d = .round r :: rest)
    (hstack : s'.stack = s.stack) (hcr3 : s'.cr3 = s.cr3) (hmask : s'.mask = s.mask)
    : Attached k (s'.advance d (.round r')) := by
  apply h.advance hs
  . rfl
  . exact hstack
  . exact fun c _ => congrFun hcr3 c
  . exact fun _ => congrFun hcr3 d
  . exact fun _ _ _ heq => nomatch heq
  . intro c _ hbit _
    rw [hmask]
    exact hbit

theorem Attached.leaveOther {x : Ctx} (hs : s.stack d = x :: rest) (hx : x.isSwitch = false)
    (hstack : s'.stack = s.stack) (hcr3 : s'.cr3 = s.cr3)
    (hmask : ∀ (c : Cpu), s.mask (s.cr3 c) c → s'.mask (s.cr3 c) c)
    : Attached k (s'.leave d) := by
  apply h.leave hstack hcr3
  intro c hopen hne
  have hopen' : s.interruptible c := by
    by_cases hd : c = d
    . exact hd ▸ interruptible_of_top hs hx
    . exact hopen hd
  exact hmask c (h.mask c hopen' hne)

theorem Attached.finishRound {r : Round} (hs : s.stack d = .round r :: rest)
    (hkeeps : r.kind = .full → cfg.hasPcid = false → r.pm ≠ k → ∀ (c : Cpu), s.cr3 c ≠ r.pm)
    (hstep : finishRound cfg s d r = some s')
    : Attached k s' := by
  have hleave : Attached k (s.leave d) := h.leaveOther hs rfl rfl rfl fun _ hbit => hbit
  unfold TLB.finishRound at hstep
  split at hstep
  next =>
    cases hstep
    exact hleave
  next hkind =>
    split at hstep
    next =>
      cases hstep
      exact hleave
    next hpcid =>
      cases hstep
      apply h.advance hs
      . rfl
      . rfl
      . exact fun _ _ => rfl
      . exact fun _ => rfl
      . exact fun _ _ _ heq => nomatch heq
      . intro c _ hbit hne
        have hother : s.cr3 c ≠ r.pm := fun heq =>
          hkeeps hkind (by simpa using hpcid) (heq ▸ hne) c heq
        rw [setMask_other _ hother]
        exact hbit
  next =>
    cases hstep
    apply h.leaveOther hs
    . rfl
    . rfl
    . rfl
    . intro c hbit
      by_cases hpm : s.cr3 c = r.pm
      . rw [hpm] at hbit ⊢
        by_cases hc : c = d
        . simp [setMask, hc]
        . simpa [setMask, update_of_ne hc] using hbit
      . rw [setMask_other _ hpm]
        exact hbit
  all_goals
    split at hstep
    . cases hstep
      exact hleave
    . cases hstep

theorem Attached.stepRound {r : Round} (hs : s.stack d = .round r :: rest)
    (hkeeps : r.kind = .full → r.phase = .send [] → cfg.hasPcid = false → r.pm ≠ k →
      ∀ (c : Cpu), s.cr3 c ≠ r.pm)
    (hstep : stepRound cfg s d r = some s')
    : Attached k s' := by
  unfold TLB.stepRound at hstep
  split at hstep
  next hphase => exact h.finishRound hs (fun hk => hkeeps hk hphase) hstep
  next =>
    cases hstep
    apply h.advanceRound hs
    all_goals split <;> rfl
  next =>
    simp only at hstep
    split at hstep
    . cases hstep
      exact h.advanceRound hs rfl rfl rfl
    . cases hstep
      exact h.advanceRound hs rfl rfl rfl
  next =>
    split at hstep
    . cases hstep
      exact h.advanceRound hs rfl rfl rfl
    . cases hstep
  next =>
    cases hstep
    exact h.advanceRound hs rfl rfl rfl
  next =>
    cases hstep
    exact h.advanceRound hs (stack_doAck ..) (cr3_doAck ..) (mask_doAck ..)

theorem Attached.stepService {q : Req} {stage : Stage}
    (hs : s.stack d = .service q stage :: rest)
    (hkeeps : stage = .flushed → q.type = .full → s.cr3 d ≠ k → q.pm ≠ some (s.cr3 d))
    : Attached k (stepService cfg s d q stage) := by
  have hadvance : ∀ {s' : State} {stage' : Stage}, s'.stack = s.stack → s'.cr3 = s.cr3
      → (∀ c, s.mask (s.cr3 c) c → s.cr3 c ≠ k → s'.mask (s.cr3 c) c)
      → Attached k (s'.advance d (.service q stage')) := by
    intro s' stage' hstack hcr3 hmask
    apply h.advance hs
    . rfl
    . exact hstack
    . exact fun c _ => congrFun hcr3 c
    . exact fun _ => congrFun hcr3 d
    . exact fun _ _ _ heq => nomatch heq
    . exact fun c _ => hmask c
  unfold TLB.stepService
  cases stage with
  | popped => exact (hadvance rfl rfl fun _ hbit _ => hbit).flush d q
  | flushed =>
    simp only
    split
    next pm htype hpm =>
      apply hadvance
      . rfl
      . rfl
      . intro c hbit hne
        by_cases hp : s.cr3 c = pm
        . have hc : c ≠ d := by
            rintro rfl
            exact hkeeps rfl htype hne (by rw [hpm, hp])
          rw [hp] at hbit ⊢
          simpa [setMask, update_of_ne hc] using hbit
        . rw [setMask_other _ hp]
          exact hbit
    next => exact hadvance rfl rfl fun _ hbit _ => hbit
  | cleared =>
    apply h.leaveOther hs rfl (stack_doAck ..) (cr3_doAck ..)
    intro c hbit
    rw [mask_doAck]
    exact hbit

theorem Attached.stepSwitch {old : Option Nat} {pm : Nat} {phase : SwitchPhase}
    (hs : s.stack d = .switch old pm phase :: rest)
    : Attached k (stepSwitch cfg s d old pm phase) := by
  -- the CPU is not interruptible, so that its bits do not count
  have hother : ∀ {c : Cpu}, s.interruptible c → c ≠ d := by
    rintro c hopen rfl
    simp [interruptible_eq, hs, Ctx.isSwitch] at hopen
  have htop := h.top d old pm phase (by rw [hs]; rfl)
  unfold TLB.stepSwitch
  cases phase with
  | load =>
    apply h.advance hs
    . rfl
    . rfl
    . exact fun c hc => update_of_ne hc ..
    . intro hx
      cases hx
    . intro old' pm' phase' heq _
      cases heq
      exact update_self ..
    . exact fun c _ hbit _ => hbit
  | detach =>
    apply h.advance hs
    . rfl
    . split
      . split <;> rfl
      . rfl
    . intro c _
      split
      . split <;> rfl
      . rfl
    . intro hx
      cases hx
    . intro old' pm' phase' heq _
      cases heq
      rw [← htop (by simp)]
      split
      . split <;> rfl
      . rfl
    . intro c hopen hbit _
      split
      next o =>
        split
        . exact hbit
        . by_cases hp : s.cr3 c = o
          . rw [hp] at hbit ⊢
            simpa [setMask, update_of_ne (hother hopen)] using hbit
          . rw [setMask_other _ hp]
            exact hbit
      next => exact hbit
  | attach =>
    apply h.leave
    . rfl
    . rfl
    . intro c hopen hne
      by_cases hc : c = d
      . subst hc
        rw [htop (by simp)]
        simp [setMask]
      . have hbit := h.mask c (hopen hc) hne
        by_cases hp : s.cr3 c = pm
        . rw [hp] at hbit ⊢
          simpa [setMask, update_of_ne hc] using hbit
        . rw [setMask_other _ hp]
          exact hbit

theorem Attached.startCall (hopen : s.interruptible d) (call : Call)
    : Attached k (startCall cfg s d call) := by
  have hround : ∀ {r : Round} old pm phase, Ctx.round r = .switch old pm phase → phase = .load :=
    fun _ _ _ heq => nomatch heq
  have hflush : ∀ (f : Req), (s.flush d f).interruptible d := by
    intro f
    rw [interruptible_flush]
    exact hopen
  unfold TLB.startCall
  cases call with
  | page => exact (h.flush d _).enter (hflush _) _ hround rfl rfl rfl
  | full => exact (h.flush d _).enter (hflush _) _ hround rfl rfl rfl
  | fence => exact h.enter hopen _ hround rfl rfl rfl
  | commit =>
    simp only
    split
    . split
      . exact h.enter hopen _ hround rfl rfl rfl
      . split
        . exact h.enter hopen _ hround rfl rfl rfl
        . exact h.enter hopen _ hround rfl rfl rfl
    . exact h

theorem Attached.deferredPage (pm vaddr : Nat)
    : Attached k (deferredPage s d pm vaddr) := by
  have hflush := h.flush d ⟨some pm, vaddr, .page, none⟩
  unfold TLB.deferredPage
  simp only
  split
  . split
    . exact hflush.congr rfl rfl rfl
    . exact hflush.congr rfl rfl rfl
  . exact hflush

theorem Attached.step (a : Action) (hkeeps : KeepsBits cfg k s a)
    (hstep : step cfg s a = some s')
    : Attached k s' := by
  unfold TLB.step at hstep
  split at hstep
  next henabled =>
    replace henabled := (Bool.and_eq_true_iff.mp henabled).2
    cases a with
    | call _ call =>
      cases hstep
      exact h.startCall henabled call
    | batchBegin =>
      cases hstep
      exact h.congr rfl rfl rfl
    | batchAbort =>
      cases hstep
      exact h.congr rfl rfl rfl
    | deferredPage _ pm vaddr =>
      cases hstep
      exact h.deferredPage pm vaddr
    | switchPageMap =>
      cases hstep
      apply h.enter henabled
      . intro old pm phase heq
        cases heq
        rfl
      all_goals rfl
    | drain =>
      simp only [stepDrain] at hstep
      split at hstep
      next => cases hstep
      next =>
        cases hstep
        exact h.enter henabled _ (by simp) rfl rfl rfl
    | next =>
      simp only [stepNext] at hstep
      split at hstep
      next => cases hstep
      next r rest hs =>
        apply h.stepRound hs _ hstep
        simpa [KeepsBits, Ctx.Keeps, hs] using hkeeps
      next q stage rest hs =>
        cases hstep
        apply h.stepService hs
        rintro rfl
        simpa [KeepsBits, Ctx.Keeps, hs] using hkeeps
      next old pm phase rest hs =>
        cases hstep
        exact h.stepSwitch hs
    | expire =>
      simp only [stepExpire] at hstep
      split at hstep
      next r rest hs =>
        unfold TLB.expireRound at hstep
        split at hstep
        next =>
          cases hstep
          exact h.advanceRound hs rfl rfl rfl
        next =>
          split at hstep
          . cases hstep
            exact h.leaveOther hs rfl rfl rfl fun _ hbit => hbit
          . cases hstep
        next => cases hstep
      next => cases hstep
    | touch =>
      cases hstep
      exact h.congr rfl rfl rfl
  next => cases hstep

end

/--
As long as no step clears the bit of a CPU that has the page map loaded, every CPU outside of
`SwitchPageMap` has its bit set in the mask of the page map that its CR3 holds. The kernel page map
is loaded when the CPUs are started, without a bit.
-/
theorem loaded_has_bit (cfg : Config) (kernelPagemap : Nat) (s : State) (c : Cpu)
    (hreach : Steps.Reach (TLB.step cfg) (KeepsBits cfg kernelPagemap) (boot kernelPagemap) s)
    (hopen : s.interruptible c) (hloaded : s.cr3 c ≠ kernelPagemap)
    : s.mask (s.cr3 c) c = true := by
  have hattached : Attached kernelPagemap s := by
    apply hreach.invariant (Attached kernelPagemap)
    . constructor
      . exact fun c _ hne => absurd rfl hne
      . intro c old pm phase htop
        cases htop
      . intro c x hx
        cases hx
    . intro t a u ht ha hu
      exact ht.step a ha hu
  exact hattached.mask c hopen hloaded

theorem loaded_has_bit_after_switch
    : ∃ (s : State), Steps.Reach (TLB.step twoCpus) (KeepsBits twoCpus 0) (boot 0) s
        ∧ s.cr3 1 = 1 ∧ s.held 1 1 = true ∧ s.mask 1 1 = true := by
  obtain ⟨s, hreach, hopen, hloaded, hheld⟩ := Steps.Reach.exists_of_run (TLB.step twoCpus)
    (KeepsBits twoCpus 0) (boot 0)
    [.switchPageMap 1 1, .next 1, .next 1, .next 1, .touch 1, .call 0 (.fence 2), .next 0,
      .next 0, .drain 1,
      .next 1, .next 1, .next 1]
    (fun s => s.interruptible 1 ∧ s.cr3 1 = 1 ∧ s.held 1 1 = true) (by decide +kernel)
  have hbit := loaded_has_bit twoCpus 0 s 1 hreach hopen (by rw [hloaded]; decide)
  rw [hloaded] at hbit
  exact ⟨s, hreach, hloaded, hheld, hbit⟩

instance : NeZero maxCpu :=
  ⟨by decide⟩

def servedWhileRunning : List Action :=
  [.switchPageMap 1 1, .next 1, .next 1, .next 1, .call 0 (.fence 1), .next 0, .next 0,
    .drain 1, .next 1,
    .next 1, .next 1, .touch 1]

theorem loaded_without_bit
    : ∃ (s : State), Steps.Reach (TLB.step twoCpus) (fun _ _ => True) (boot 0) s
        ∧ s.interruptible 1 ∧ s.cr3 1 = 1 ∧ s.held 1 1 = true ∧ s.mask 1 1 = false :=
  Steps.Reach.exists_of_run (TLB.step twoCpus) (fun _ _ => True) (boot 0) servedWhileRunning
    (fun s => s.interruptible 1 ∧ s.cr3 1 = 1 ∧ s.held 1 1 = true ∧ s.mask 1 1 = false)
    (by decide +kernel)

end TLB
