import Skyline.Steps.Basic

/-!
This module contains the feedback on the quantum of a thread in `sched_rip.cpp`, in fixed point
numbers.
-/

namespace Sched.RipRate

open Function

def sub64 (a b : Nat) : Nat :=
  (a + 2 ^ 64 - b) % 2 ^ 64

structure Thread where
  weight : Nat
  customQuantum : Nat
  vruntime : Nat
  vruntimeRem : Nat
  baseSelf : Nat
  multFast : Nat
  multSlow : Nat
  signalTag : Nat
  dispatchRip : Nat
  lastSampleMs : Nat
  accProgress : Nat
  accMs : Nat
  quantumAdj : Int
  outlierStreak : Nat

structure Cpu where
  baseQuantum : Nat
  avgVruntime : Nat
  lastTsc : Nat
  idleTsc : Nat
  totalTsc : Nat
  lastCtxSw : Nat
  lastAdjustMs : Nat
  fastWeight : Nat
  absDevSum : Nat
  devWindow : Nat
  meanAbsDev : Nat

def Thread.w (t : Thread) : Nat :=
  if t.weight ≠ 0 then t.weight else 1024

def Cpu.tune (c : Cpu) (contextSwitches : Nat) : Nat :=
  let idleRatio := c.idleTsc * 100 % 2 ^ 64 / c.totalTsc
  let ctxSw := sub64 contextSwitches c.lastCtxSw
  if idleRatio > 50 ∨ idleRatio < 10 ∧ ctxSw > 500 then
    if c.baseQuantum < 15 then c.baseQuantum + 1 else c.baseQuantum
  else if c.baseQuantum > 5 then c.baseQuantum - 1
  else if c.baseQuantum < 5 then c.baseQuantum + 1
  else c.baseQuantum

def Cpu.clampBase (c : Cpu) : Cpu :=
  { c with
    baseQuantum := if c.baseQuantum < 2 then 2 else if c.baseQuantum > 15 then 15
      else c.baseQuantum }

def Cpu.count (c : Cpu) (idle : Bool) (curTsc : Nat) : Cpu :=
  let elapsed := if c.lastTsc ≠ 0 then sub64 curTsc c.lastTsc else 0
  { c with
    idleTsc := if idle then (c.idleTsc + elapsed) % 2 ^ 64 else c.idleTsc
    totalTsc := (c.totalTsc + elapsed) % 2 ^ 64
    lastTsc := curTsc }

def dynamicAdjustQuantum (c : Cpu) (idle : Bool) (nowMs curTsc contextSwitches : Nat) : Cpu :=
  let c := c.clampBase.count idle curTsc
  if sub64 nowMs c.lastAdjustMs > 100 then
    { c with
      baseQuantum := if c.totalTsc > 0 then c.tune contextSwitches else c.baseQuantum
      idleTsc := 0
      totalTsc := 0
      lastCtxSw := contextSwitches
      lastAdjustMs := nowMs }
  else c

/--
The quantum of a thread, which may be the idle thread of the CPU.
-/
def getDynamicQuantum (c : Cpu) (idle : Bool) (t : Thread) : Nat :=
  if idle then c.baseQuantum else
  let base := if t.customQuantum > 0 then t.customQuantum else c.baseQuantum * t.w % 2 ^ 64 / 1024
  let mf := if t.multFast ≠ 0 then t.multFast else 1024
  let msl := if t.multSlow ≠ 0 then t.multSlow else 1024
  let wf := if c.fastWeight = 0 ∨ c.fastWeight > 1024 then 256 else c.fastWeight
  let mult := (mf * wf + msl * (1024 - wf)) % 2 ^ 64 / 1024
  let q := base * mult % 2 ^ 64 / 1024
  let q :=
    if t.quantumAdj > 0 then (q + t.quantumAdj.toNat) % 2 ^ 64
    else if t.quantumAdj < 0 then if q > (-t.quantumAdj).toNat then q - (-t.quantumAdj).toNat else 1
    else q
  let q := if q < 1 then 1 else q
  let cap := c.baseQuantum * 8 % 2 ^ 64
  let cap := if t.customQuantum > cap then t.customQuantum else cap
  if q > cap then cap else q

def eligibilityCappedQuantum (c : Cpu) (idle : Bool) (t : Thread) : Nat :=
  let q := getDynamicQuantum c idle t
  if c.avgVruntime > t.vruntime then
    let budget := (c.avgVruntime - t.vruntime) * t.w % 2 ^ 64 / 1024
    if budget < q then if budget ≠ 0 then budget else 1 else q
  else 1

structure Sample where
  rip : Nat
  pagemap : Nat
  cs : Nat
  wallMs : Nat
  nowMs : Nat

def Sample.tag (x : Sample) : Nat :=
  x.pagemap ^^^ (x.cs &&& 3)

def decayMult (m : Nat) : Nat :=
  if m > 1024 then m - (m - 1024) / 16 else if m < 1024 then m + (1024 - m) / 16 else m

def decayAdj (adj : Int) : Int :=
  if adj > 0 then adj - (adj + 15) / 16 else if adj < 0 then adj + (-adj + 15) / 16 else adj

def Thread.decay (t : Thread) : Thread :=
  { t with
    multFast := decayMult t.multFast, multSlow := decayMult t.multSlow,
      quantumAdj := decayAdj t.quantumAdj }

def Thread.neutral (t : Thread) : Thread :=
  { t with multFast := 1024, multSlow := 1024, quantumAdj := 0 }

def Thread.age (t : Thread) (nowMs : Nat) : Thread :=
  let steps := sub64 nowMs t.lastSampleMs / 50
  if t.lastSampleMs = 0 then t
  else if steps > 16 then { t.neutral with accProgress := 0, accMs := 0 }
  else Thread.decay^[steps] t

def ewma (shift obs avg : Nat) : Nat :=
  if obs ≥ avg then avg + (obs - avg) / 2 ^ shift else avg - (avg - obs) / 2 ^ shift

def clampMult (m : Nat) : Nat :=
  let m := if m > 2560 then 2560 else m
  if m < 256 then 256 else m

def Cpu.account (c : Cpu) (dev : Int) : Cpu :=
  let sum := (c.absDevSum + dev.natAbs) % 2 ^ 32
  if c.devWindow + 1 ≥ 64 then
    let mean := sum / 64
    let cur := if c.fastWeight = 0 then 256 else c.fastWeight
    let w := if mean > 256 then 64 else if mean < 128 then 256 else cur
    { c with
      meanAbsDev := mean, absDevSum := 0, devWindow := 0,
        fastWeight := if w ≠ cur then w else c.fastWeight }
  else
    { c with absDevSum := sum, devWindow := c.devWindow + 1 }

def Thread.adjust (t : Thread) (dev : Int) : Thread :=
  if dev > -32 ∧ dev < 32 then t
  else
    let step := if dev / 64 = 0 then if dev > 0 then 1 else -1 else dev / 64
    let adj := t.quantumAdj + step
    let adj := if adj > 4 then 4 else adj
    { t with quantumAdj := if adj < -4 then -4 else adj }

def Thread.follow (t : Thread) (obsRate obsMult : Nat) : Thread :=
  { t with
    baseSelf := ewma 6 obsRate t.baseSelf
    multFast := clampMult (ewma 2 obsMult t.multFast)
    multSlow := clampMult (ewma 4 obsMult t.multSlow) }

def observe (c : Cpu) (t : Thread) (obsRate : Nat) : Cpu × Thread :=
  if t.baseSelf = 0 then
    (c, { t with baseSelf := obsRate })
  else
    let obsMult : Nat := obsRate * 1024 % 2 ^ 64 / t.baseSelf
    if obsMult > 16384 ∧ t.outlierStreak + 1 ≥ 4 then
      (c, { t.neutral with baseSelf := obsRate, outlierStreak := 0 })
    else
      let t := { t with outlierStreak := if obsMult > 16384 then t.outlierStreak + 1 else 0 }
      let obsMult : Nat := if obsMult > 16384 then 16384 else obsMult
      let dev : Int := (obsMult : Int) - 1024
      (c.account dev, (t.follow obsRate obsMult).adjust dev)

def measure (c : Cpu) (t : Thread) (x : Sample) : Cpu × Thread :=
  if x.wallMs = 0 then
    (c, t)
  else
    let progress := sub64 x.rip t.dispatchRip
    let t := { t with dispatchRip := x.rip }
    if progress > 2 ^ 44 ∨ progress = 0 then
      (c, t)
    else
      let t := { t with
        accProgress := (t.accProgress + progress) % 2 ^ 64, accMs := (t.accMs + x.wallMs) % 2 ^ 64 }
      if t.accMs < 4 then
        (c, t)
      else
        observe c { t with accProgress := 0, accMs := 0 } (t.accProgress / t.accMs)

def Thread.prime (t : Thread) : Thread :=
  { t with
    multFast := if t.multFast = 0 then 1024 else t.multFast
    multSlow := if t.multSlow = 0 then 1024 else t.multSlow }

def riprateUpdate (c : Cpu) (t : Thread) (x : Sample) : Cpu × Thread :=
  let t := t.prime
  if t.signalTag = 0 ∨ t.signalTag ≠ x.tag then
    (c, { t with signalTag := x.tag, dispatchRip := x.rip, lastSampleMs := x.nowMs })
  else
    measure c { t.age x.nowMs with lastSampleMs := x.nowMs } x

def Thread.charge (t : Thread) (delta : Nat) : Thread :=
  let total := (delta * 1024 + t.vruntimeRem) % 2 ^ 64
  { t with vruntime := (t.vruntime + total / t.w) % 2 ^ 64, vruntimeRem := total % t.w }

structure State where
  cpu : Nat → Cpu
  thread : Nat → Thread

inductive Event where
  | adjust (c : Nat) (idle : Bool) (nowMs curTsc contextSwitches : Nat)
  | update (c u : Nat) (sample : Sample)
  | dispatch (u rip tag : Nat)
  | charge (u delta : Nat)
  | place (u vruntime customQuantum : Nat)
  | clock (c avgVruntime : Nat)

def State.setThread (s : State) (u : Nat) (t : Thread) : State :=
  { s with thread := update s.thread u t }

def State.setCpu (s : State) (i : Nat) (c : Cpu) : State :=
  { s with cpu := update s.cpu i c }

def step (s : State) : Event → Option State
  | .adjust c idle nowMs curTsc contextSwitches =>
    some (s.setCpu c (dynamicAdjustQuantum (s.cpu c) idle nowMs curTsc contextSwitches))
  | .update c u sample =>
    let result := riprateUpdate (s.cpu c) (s.thread u) sample
    some ((s.setCpu c result.1).setThread u result.2)
  | .dispatch u rip tag =>
    some (s.setThread u { s.thread u with dispatchRip := rip, signalTag := tag })
  | .charge u delta => some (s.setThread u ((s.thread u).charge delta))
  | .place u vruntime customQuantum =>
    some (s.setThread u { s.thread u with vruntime, customQuantum, vruntimeRem := 0 })
  | .clock c avgVruntime => some (s.setCpu c { s.cpu c with avgVruntime })

def newThread (weight : Nat) : Thread :=
  ⟨weight, 0, 0, 0, 0, 0, 0, 0, 0, 0, 0, 0, 0, 0⟩

def init (weight : Nat → Nat) : State where
  cpu := fun _ => ⟨5, 0, 0, 0, 0, 0, 0, 0, 0, 0, 0⟩
  thread := fun u => newThread (weight u)

def MultOk (m : Nat) : Prop :=
  256 ≤ m ∧ m ≤ 2560

structure ThreadOk (t : Thread) : Prop where
  fast : t.multFast ≠ 0 → MultOk t.multFast
  slow : t.multSlow ≠ 0 → MultOk t.multSlow
  adj : -4 ≤ t.quantumAdj ∧ t.quantumAdj ≤ 4
  rem : t.vruntimeRem < t.w

structure QuantumOk (c : Cpu) (idle : Bool) (t : Thread) : Prop where
  pos : 1 ≤ getDynamicQuantum c idle t
  le : getDynamicQuantum c idle t ≤ max (8 * c.baseQuantum) t.customQuantum
  capped : eligibilityCappedQuantum c idle t = 1 ∨
    t.vruntime + (eligibilityCappedQuantum c idle t * 1024 + t.vruntimeRem) / t.w ≤ c.avgVruntime

structure Controlled (s : State) : Prop where
  threads : ∀ u, ThreadOk (s.thread u)
  bases : ∀ u e s', (s.thread u).baseSelf ≠ 0 → step s e = some s' → (s'.thread u).baseSelf ≠ 0
  quanta : ∀ c idle u, QuantumOk (s.cpu c) idle (s.thread u)

theorem w_pos (t : Thread) : 0 < t.w := by
  unfold Thread.w
  split <;> omega

theorem decayMult_ok {m : Nat} (h : MultOk m) : MultOk (decayMult m) := by
  unfold MultOk decayMult at *
  split <;> [skip; split] <;> omega

theorem decayAdj_ok {adj : Int} (h : -4 ≤ adj ∧ adj ≤ 4)
    : -4 ≤ decayAdj adj ∧ decayAdj adj ≤ 4 := by
  unfold decayAdj
  split <;> [skip; split] <;> omega

theorem clampMult_ok (m : Nat) : MultOk (clampMult m) := by
  unfold MultOk clampMult
  dsimp only
  split <;> split <;> omega

theorem ewma_ne_zero {obs avg : Nat} (h : avg ≠ 0) : ewma 6 obs avg ≠ 0 := by
  unfold ewma
  split <;> omega

structure Primed (t : Thread) : Prop where
  fast : MultOk t.multFast
  slow : MultOk t.multSlow
  adj : -4 ≤ t.quantumAdj ∧ t.quantumAdj ≤ 4
  rem : t.vruntimeRem < t.w

variable {t : Thread} {c : Cpu} {s : State}

theorem Primed.ok (h : Primed t) : ThreadOk t :=
  ⟨fun _ => h.fast, fun _ => h.slow, h.adj, h.rem⟩

theorem multOk_one : MultOk 1024 :=
  ⟨by decide, by decide⟩

section

variable (h : Primed t)
include h

theorem Primed.neutral : Primed t.neutral :=
  ⟨multOk_one, multOk_one, by simp [Thread.neutral], h.rem⟩

theorem Primed.decay : Primed t.decay :=
  ⟨decayMult_ok h.fast, decayMult_ok h.slow, decayAdj_ok h.adj, h.rem⟩

theorem iterate_decay (n : Nat)
    : Primed (Thread.decay^[n] t) ∧ (Thread.decay^[n] t).baseSelf = t.baseSelf := by
  induction n generalizing t with
  | zero => exact ⟨h, rfl⟩
  | succ _ ih => exact ih h.decay

theorem Primed.age (nowMs : Nat)
    : Primed (t.age nowMs) ∧ (t.age nowMs).baseSelf = t.baseSelf := by
  unfold Thread.age
  dsimp only
  split
  . exact ⟨h, rfl⟩
  . split
    . exact ⟨⟨h.neutral.fast, h.neutral.slow, h.neutral.adj, h.rem⟩, rfl⟩
    . exact iterate_decay h _

theorem Primed.adjust (dev : Int)
    : Primed (t.adjust dev) ∧ (t.adjust dev).baseSelf = t.baseSelf := by
  unfold Thread.adjust
  dsimp only
  split
  . exact ⟨h, rfl⟩
  . refine ⟨⟨h.fast, h.slow, ?_, h.rem⟩, rfl⟩
    dsimp only
    generalize t.quantumAdj + _ = adj
    split <;> split <;> omega

theorem Primed.observe (c : Cpu) (obsRate : Nat)
    : Primed (observe c t obsRate).2 ∧ (t.baseSelf ≠ 0 → (observe c t obsRate).2.baseSelf ≠ 0) := by
  unfold RipRate.observe
  split
  next hzero => exact ⟨⟨h.fast, h.slow, h.adj, h.rem⟩, fun hne => absurd hzero hne⟩
  next =>
    dsimp only
    split
    next hout =>
      refine ⟨⟨h.neutral.fast, h.neutral.slow, h.neutral.adj, h.rem⟩, ?_⟩
      rintro _ rfl
      simp at hout
    next =>
      have hfollow : ∀ streak obsMult, Primed
          (Thread.follow { t with outlierStreak := streak } obsRate obsMult) :=
        fun _ _ => ⟨clampMult_ok _, clampMult_ok _, h.adj, h.rem⟩
      refine ⟨((hfollow _ _).adjust _).1, fun hne => ?_⟩
      rw [((hfollow _ _).adjust _).2]
      exact ewma_ne_zero hne

theorem Primed.measure (c : Cpu) (x : Sample)
    : Primed (measure c t x).2 ∧ (t.baseSelf ≠ 0 → (measure c t x).2.baseSelf ≠ 0) := by
  unfold RipRate.measure
  dsimp only
  split
  . exact ⟨h, id⟩
  . split
    . exact ⟨⟨h.fast, h.slow, h.adj, h.rem⟩, id⟩
    . split
      . exact ⟨⟨h.fast, h.slow, h.adj, h.rem⟩, id⟩
      . apply Primed.observe
        exact ⟨h.fast, h.slow, h.adj, h.rem⟩

end

theorem ThreadOk.prime (h : ThreadOk t) : Primed t.prime := by
  have hprime : ∀ m, (m ≠ 0 → MultOk m) → MultOk (if m = 0 then 1024 else m) := by
    intro m hm
    split
    . exact multOk_one
    . next hne => exact hm hne
  exact ⟨hprime _ h.fast, hprime _ h.slow, h.adj, h.rem⟩

theorem update_ok (h : ThreadOk t) (c : Cpu) (x : Sample)
    : ThreadOk (riprateUpdate c t x).2
      ∧ (t.baseSelf ≠ 0 → (riprateUpdate c t x).2.baseSelf ≠ 0) := by
  obtain ⟨haged, hbase⟩ := h.prime.age x.nowMs
  have hmeasure := Primed.measure (t := { t.prime.age x.nowMs with lastSampleMs := x.nowMs })
    ⟨haged.fast, haged.slow, haged.adj, haged.rem⟩ c x
  unfold riprateUpdate
  dsimp only
  split
  . exact ⟨Primed.ok ⟨h.prime.fast, h.prime.slow, h.prime.adj, h.prime.rem⟩, id⟩
  . exact ⟨hmeasure.1.ok, fun hne => hmeasure.2 (hbase.symm ▸ hne)⟩

theorem charge_ok (h : ThreadOk t) (delta : Nat) : ThreadOk (t.charge delta) :=
  ⟨h.fast, h.slow, h.adj, Nat.mod_lt _ (w_pos t)⟩

def BaseOk (c : Cpu) : Prop :=
  2 ≤ c.baseQuantum ∧ c.baseQuantum ≤ 15

theorem tune_ok (h : BaseOk c) (contextSwitches : Nat)
    : 2 ≤ c.tune contextSwitches ∧ c.tune contextSwitches ≤ 15 := by
  unfold BaseOk at h
  unfold Cpu.tune
  dsimp only
  repeat' split
  all_goals omega

theorem dynamicAdjustQuantum_ok (c : Cpu) (idle : Bool) (nowMs curTsc contextSwitches : Nat)
    : BaseOk (dynamicAdjustQuantum c idle nowMs curTsc contextSwitches) := by
  have hcount : BaseOk (c.clampBase.count idle curTsc) := by
    unfold BaseOk Cpu.count Cpu.clampBase
    dsimp only
    repeat' split
    all_goals omega
  unfold dynamicAdjustQuantum
  dsimp only
  split
  . unfold BaseOk
    dsimp only
    split
    . exact tune_ok hcount contextSwitches
    . exact hcount
  . exact hcount

theorem account_base (c : Cpu) (dev : Int) : (c.account dev).baseQuantum = c.baseQuantum := by
  unfold Cpu.account
  dsimp only
  split <;> rfl

theorem update_base (c : Cpu) (t : Thread) (x : Sample)
    : (riprateUpdate c t x).1.baseQuantum = c.baseQuantum := by
  unfold riprateUpdate measure observe
  dsimp only
  repeat' split
  all_goals first | rfl | exact account_base c _

theorem quantum_pos (h : BaseOk c) (idle : Bool) (t : Thread) : 1 ≤ getDynamicQuantum c idle t := by
  unfold BaseOk at h
  unfold getDynamicQuantum
  dsimp only
  generalize (if t.quantumAdj > 0 then _ else _ : Nat) = q
  repeat' split
  all_goals omega

theorem quantum_le (c : Cpu) (idle : Bool) (t : Thread)
    : getDynamicQuantum c idle t ≤ max (8 * c.baseQuantum) t.customQuantum := by
  unfold getDynamicQuantum
  dsimp only
  generalize (if t.quantumAdj > 0 then _ else _ : Nat) = q
  repeat' split
  all_goals omega

theorem budget_le {gap w q rem : Nat} (hq : q ≤ gap * w % 2 ^ 64 / 1024) (hrem : rem < w)
    : (q * 1024 + rem) / w ≤ gap := by
  have hmod := Nat.mod_le (gap * w) (2 ^ 64)
  have hlt : q * 1024 + rem < (gap + 1) * w := by
    rw [Nat.add_one_mul]
    omega
  exact Nat.le_of_lt_succ
    ((Nat.div_lt_iff_lt_mul (Nat.lt_of_le_of_lt (Nat.zero_le rem) hrem)).2 hlt)

theorem capped_le (c : Cpu) (idle : Bool) (hrem : t.vruntimeRem < t.w)
    : eligibilityCappedQuantum c idle t = 1 ∨
      t.vruntime + (eligibilityCappedQuantum c idle t * 1024 + t.vruntimeRem) / t.w
        ≤ c.avgVruntime := by
  unfold eligibilityCappedQuantum
  dsimp only
  split
  next hgap =>
    have hfits : ∀ q, q ≤ (c.avgVruntime - t.vruntime) * t.w % 2 ^ 64 / 1024 →
        t.vruntime + (q * 1024 + t.vruntimeRem) / t.w ≤ c.avgVruntime := by
      intro q hq
      have := budget_le hq hrem
      omega
    split
    next =>
      split
      next => exact .inr (hfits _ (Nat.le_refl _))
      next => exact .inl rfl
    next hle => exact .inr (hfits _ (Nat.le_of_not_lt hle))
  next => exact .inl rfl

structure Inv (s : State) : Prop where
  threads : ∀ u, ThreadOk (s.thread u)
  cpus : ∀ c, BaseOk (s.cpu c)

theorem Inv.setThread (h : Inv s) (u : Nat) (ht : ThreadOk t) : Inv (s.setThread u t) :=
  ⟨(forall_update_iff s.thread fun _ => ThreadOk).2 ⟨ht, fun v _ => h.threads v⟩, h.cpus⟩

theorem Inv.setCpu (h : Inv s) (i : Nat) (hc : BaseOk c) : Inv (s.setCpu i c) :=
  ⟨h.threads, (forall_update_iff s.cpu fun _ => BaseOk).2 ⟨hc, fun d _ => h.cpus d⟩⟩

theorem Inv.step {s' : State} {e : Event} (h : Inv s) (hstep : step s e = some s') : Inv s' := by
  cases e with
  | adjust c =>
    cases hstep
    exact h.setCpu c (dynamicAdjustQuantum_ok _ _ _ _ _)
  | update c u sample =>
    obtain rfl := Option.some.inj hstep
    refine (h.setCpu c ?_).setThread u (update_ok (h.threads u) (s.cpu c) sample).1
    unfold BaseOk
    rw [update_base]
    exact h.cpus c
  | dispatch u =>
    cases hstep
    exact h.setThread u ⟨(h.threads u).fast, (h.threads u).slow, (h.threads u).adj,
      (h.threads u).rem⟩
  | charge u delta =>
    cases hstep
    exact h.setThread u (charge_ok (h.threads u) delta)
  | place u =>
    cases hstep
    exact h.setThread u ⟨(h.threads u).fast, (h.threads u).slow, (h.threads u).adj,
      w_pos (s.thread u)⟩
  | clock c =>
    cases hstep
    exact h.setCpu c (h.cpus c)

theorem Inv.bases {s' : State} {e : Event} (h : Inv s) (u : Nat) (hne : (s.thread u).baseSelf ≠ 0)
    (hstep : RipRate.step s e = some s') : (s'.thread u).baseSelf ≠ 0 := by
  have hset : ∀ v (t : Thread), ((s.thread v).baseSelf ≠ 0 → t.baseSelf ≠ 0) →
      (update s.thread v t u).baseSelf ≠ 0 := by
    intro v t ht
    by_cases heq : u = v
    . subst heq
      rw [update_self]
      exact ht hne
    . rw [update_of_ne heq]
      exact hne
  cases e with
  | adjust | clock =>
    cases hstep
    exact hne
  | update c v sample =>
    obtain rfl := Option.some.inj hstep
    exact hset v _ (update_ok (h.threads v) (s.cpu c) sample).2
  | dispatch v | charge v | place v =>
    cases hstep
    exact hset v _ id

theorem inv_init (weight : Nat → Nat) : Inv (init weight) where
  threads u := ⟨fun h => absurd rfl h, fun h => absurd rfl h, by simp [init, newThread],
    w_pos (newThread (weight u))⟩
  cpus _ := by simp [BaseOk, init]

/--
In every run the numbers of the controller stay in their ranges.
-/
theorem rip_controlled {weight : Nat → Nat} {s : State}
    (h : Steps.Reach step (fun _ _ => True) (init weight) s)
    : Controlled s := by
  have hinv := h.invariant Inv (inv_init weight) fun _ _ _ hinv _ hstep => hinv.step hstep
  refine ⟨hinv.threads, fun u e s' hne hstep => hinv.bases u hne hstep, ?_⟩
  intro c idle u
  exact ⟨quantum_pos (hinv.cpus c) _ _, quantum_le _ _ _, capped_le _ _ (hinv.threads u).rem⟩

def twoWindows : List Event :=
  [.dispatch 1 1000 4096, .update 0 1 ⟨5000, 4096, 0, 4, 100⟩, .update 0 1 ⟨25000, 4096, 0, 4, 104⟩]

theorem rip_controlled_twoWindows
    : ∃ s, Steps.Reach step (fun _ _ => True) (init fun _ => 1024) s ∧
        ((s.thread 1).baseSelf ≠ 0 ∧ (s.thread 1).multFast ≠ 1024 ∧ Controlled s) := by
  obtain ⟨s, hreach, hbase, hmult⟩ :=
    Steps.Reach.exists_of_run step (fun _ _ => True) (init fun _ => 1024) twoWindows
    (fun s => (s.thread 1).baseSelf ≠ 0 ∧ (s.thread 1).multFast ≠ 1024) (by decide +kernel)
  exact ⟨s, hreach, hbase, hmult, rip_controlled hreach⟩

end Sched.RipRate
