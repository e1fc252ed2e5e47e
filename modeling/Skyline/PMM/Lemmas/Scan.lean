import Skyline.PMM.Lemmas.Mark

/-!
This module contains the soundness of the scanner.
-/

namespace PMM

structure FreeRun (s : State) (start stop n bit : Nat) : Prop where
  start_le : start ≤ bit
  stop_le : bit + n ≤ stop
  free : ∀ (p : Nat), bit ≤ p → p < bit + n → bitTest s.l1Map p = false

variable {s : State} {start stop n : Nat} {c : Scan}

namespace Scan

structure Inv (s : State) (start n : Nat) (c : Scan) : Prop where
  start_le : start ≤ c.bit
  run_lt : c.run < n
  runStart : 0 < c.run → start ≤ c.runStart ∧ c.runStart + c.run = c.bit
  free : 0 < c.run → ∀ (p : Nat), c.runStart ≤ p → p < c.bit → bitTest s.l1Map p = false

def StepOk (s : State) (start stop n : Nat) (c : Scan) (res : ScanStep) : Prop :=
  match res with
  | .found bit => FreeRun s start stop n bit
  | .next c' => c'.Inv s start n ∧ c.bit < c'.bit

theorem clip_le (stop n : Nat) (c : Scan) (k : Nat) (hn : c.run ≤ n) (hbit : c.bit ≤ stop)
    : c.clip stop n k ≤ k ∧ c.run + c.clip stop n k ≤ n ∧ c.bit + c.clip stop n k ≤ stop := by
  unfold clip
  dsimp only
  split <;> split <;> omega

theorem clip_pos (stop n : Nat) (c : Scan) (k : Nat) (hn : c.run < n) (hbit : c.bit < stop)
    (hk : 0 < k) : 0 < c.clip stop n k := by
  unfold clip
  dsimp only
  split <;> split <;> omega

theorem take_stepOk (h : c.Inv s start n) (k : Nat)
    (hrun : 0 < c.run) (hk : 0 < k) (hn : c.run + k ≤ n) (hstop : c.bit + k ≤ stop)
    (hfree : ∀ (p : Nat), c.bit ≤ p → p < c.bit + k → bitTest s.l1Map p = false)
    : c.StepOk s start stop n (c.take n k) := by
  have hstart := h.runStart hrun
  have hall : ∀ (p : Nat), c.runStart ≤ p → p < c.bit + k → bitTest s.l1Map p = false := by
    intro p h1 h2
    by_cases hp : p < c.bit
    . exact h.free hrun p h1 hp
    . exact hfree p (by omega) h2
  unfold take
  split
  . constructor
    . exact hstart.left
    . omega
    . intro p h1 h2
      exact hall p h1 (by omega)
  . refine ⟨?_, by dsimp only; omega⟩
    constructor
    . have := h.start_le
      dsimp only
      omega
    . dsimp only
      omega
    . intro _
      dsimp only
      omega
    . intro _ p h1 h2
      exact hall p h1 h2

theorem skip_stepOk (h : c.Inv s start n) (k : Nat)
    (initedL2 : Option Nat) (hrun : c.run = 0) (hk : 0 < k)
    : c.StepOk s start stop n (.next { c with bit := c.bit + k, initedL2 }) := by
  have h1 := h.start_le
  have h2 := h.run_lt
  refine ⟨?_, by dsimp only; omega⟩
  constructor <;> dsimp only <;> omega

theorem bitTest_of_lt_ctz (map : Bitmap) (p k : Nat) (hp : p / 64 = k)
    (h : p % 64 < (map k).ctz.toNat) : bitTest map p = false := by
  unfold bitTest
  rw [hp]
  exact BitVec.getLsbD_false_of_lt_ctz h

theorem word_stepOk (h : c.Inv s start n)
    (hbit : c.bit < stop) (haligned : c.bit % 64 = 0) (res : ScanStep)
    (hres : c.word s stop n = some res) : c.StepOk s start stop n res := by
  have hclip := fun k => clip_le stop n c k (by have := h.run_lt; omega) (by omega)
  unfold word at hres
  dsimp only at hres
  split at hres
  . next hrun =>
    split at hres
    . simp only [Option.some.injEq] at hres
      rw [← hres]
      exact skip_stepOk h 64 c.initedL2 hrun (by omega)
    . split at hres
      . next hskip =>
        simp only [Option.some.injEq] at hres
        rw [← hres]
        exact skip_stepOk h _ c.initedL2 hrun (by omega)
      . contradiction
  . next hrun =>
    split at hres
    . next hzero =>
      simp only [Option.some.injEq] at hres
      rw [← hres]
      obtain ⟨hle, hn, hstop⟩ := hclip 64
      apply take_stepOk h _ (by omega) (clip_pos _ _ _ _ h.run_lt hbit (by omega)) hn hstop
      intro p h1 h2
      exact (word_eq_zero_iff s.l1Map (c.bit / 64)).mp hzero p (by omega)
    . split at hres
      . next hk =>
        simp only [Option.some.injEq] at hres
        rw [← hres]
        obtain ⟨hle, hn, hstop⟩ := hclip (s.l1Map (c.bit / 64)).ctz.toNat
        apply take_stepOk h _ (by omega) (by omega) hn hstop
        intro p h1 h2
        have hctz : (s.l1Map (c.bit / 64)).ctz.toNat ≤ 64 := by
          rw [BitVec.ctz_eq_reverse_clz]
          exact BitVec.le_def.mp BitVec.clz_le
        exact bitTest_of_lt_ctz s.l1Map p (c.bit / 64) (by omega) (by omega)
      . contradiction

theorem single_stepOk (h : c.Inv s start n)
    (hbit : c.bit < stop) : c.StepOk s start stop n (c.single s n) := by
  have h1 := h.start_le
  have h2 := h.run_lt
  unfold single
  split
  . refine ⟨?_, by dsimp only; omega⟩
    constructor <;> dsimp only <;> omega
  . next hclear =>
    simp only [Bool.not_eq_true] at hclear
    -- The page extends the run, which starts here if there was none.
    have hstart : start ≤ (if c.run = 0 then c.bit else c.runStart)
        ∧ (if c.run = 0 then c.bit else c.runStart) + c.run = c.bit := by
      split
      . omega
      . next hrun => exact h.runStart (by omega)
    have hall : ∀ (p : Nat), (if c.run = 0 then c.bit else c.runStart) ≤ p → p < c.bit + 1 →
        bitTest s.l1Map p = false := by
      intro p hp1 hp2
      by_cases hp : p = c.bit
      . rw [hp]
        exact hclear
      . split at hp1
        . omega
        . next hrun => exact h.free (by omega) p hp1 (by omega)
    dsimp only
    split
    . constructor
      . exact hstart.left
      . omega
      . intro p hp1 hp2
        exact hall p hp1 (by omega)
    . refine ⟨?_, by dsimp only; omega⟩
      constructor
      . dsimp only
        omega
      . dsimp only
        omega
      . intro _
        dsimp only
        omega
      . intro _ p hp1 hp2
        exact hall p hp1 hp2

theorem skipBlock_pos (s : State) (c : Scan) (k : Nat) (h : c.skipBlock s = some k)
    : c.run = 0 ∧ 0 < k := by
  unfold skipBlock at h
  split at h
  . contradiction
  . split at h
    . simp at h
      omega
    . split at h
      . simp at h
        omega
      . contradiction

theorem initedL2_eq (hs : Levels s) (hbit : c.bit < s.bitmapPages)
    : (if c.initedL2 ≠ some (c.bit / 512) then ensureL2Init s (c.bit / 512) else s) = s := by
  rw [hs.ensureL2Init_eq (hs.block_lt hbit), ite_self]

theorem Inv.inited (h : c.Inv s start n) (l2 : Option Nat)
    : ({ c with initedL2 := l2 } : Scan).Inv s start n :=
  ⟨h.start_le, h.run_lt, h.runStart, h.free⟩

theorem step_ok (hs : Levels s) (h : c.Inv s start n)
    (hbit : c.bit < stop) (hstop : stop ≤ s.bitmapPages)
    : c.StepOk s start stop n (c.step s stop n).1 ∧ (c.step s stop n).2 = s := by
  unfold step
  split
  . next k hk =>
    obtain ⟨hrun, hpos⟩ := skipBlock_pos s c k hk
    exact ⟨skip_stepOk h k c.initedL2 hrun hpos, rfl⟩
  . dsimp only
    rw [initedL2_eq hs (by omega)]
    have hc := h.inited (some (c.bit / 512))
    split
    . next res hres =>
      refine ⟨?_, rfl⟩
      split at hres
      . next haligned => exact word_stepOk hc hbit haligned res hres
      . contradiction
    . exact ⟨single_stepOk hc hbit, rfl⟩

end Scan

structure ScanOk (s : State) (start stop n : Nat) (res : Option Nat × State) : Prop where
  state_eq : res.2 = s
  found : ∀ (bit : Nat), res.1 = some bit → FreeRun s start stop n bit

namespace scanForRun

theorem go_ok (hs : Levels s) (hstop : stop ≤ s.bitmapPages)
    (fuel : Nat) (c : Scan) (h : c.Inv s start n)
    : ScanOk s start stop n (go stop n fuel s c) := by
  induction fuel generalizing s c with
  | zero => constructor <;> simp [go]
  | succ _ ih =>
    unfold go
    split
    . next hbit =>
      have hstep := Scan.step_ok hs h hbit hstop
      generalize c.step s stop n = res at hstep
      obtain ⟨hok, rfl⟩ := hstep
      match res with
      | (.found bit, s) =>
        constructor
        . rfl
        . intro bit' hbit'
          simp only [Option.some.injEq] at hbit'
          rw [← hbit']
          exact hok
      | (.next c', s) => exact ih hs hstop c' hok.left
    . constructor <;> simp

end scanForRun

theorem scanForRun_ok (hs : Levels s) (start stop n : Nat)
    (hstop : stop ≤ s.bitmapPages) : ScanOk s start stop n (scanForRun s start stop n) := by
  unfold scanForRun
  split
  . constructor <;> simp
  . apply scanForRun.go_ok hs hstop
    constructor <;> simp
    omega

theorem scanAround_ok (hs : Levels s) (start hint stop n : Nat) (hhint : hint ≤ stop)
    (hstart : start ≤ hint) (hstop : stop ≤ s.bitmapPages)
    : ScanOk s start stop n (scanAround s start hint stop n) := by
  unfold scanAround
  have h1 := scanForRun_ok hs hint stop n hstop
  generalize scanForRun s hint stop n = res at h1
  obtain ⟨rfl, hfound⟩ := h1
  match res with
  | (some bit, s) =>
    constructor
    . rfl
    . intro bit' hbit'
      have := hfound bit' hbit'
      exact ⟨by have := this.start_le; omega, this.stop_le, this.free⟩
  | (none, s) =>
    dsimp only
    split
    . have h2 := scanForRun_ok hs start hint n (by dsimp only at hstop ⊢; omega)
      constructor
      . exact h2.state_eq
      . intro bit hbit
        have := h2.found bit hbit
        exact ⟨this.start_le, by have := this.stop_le; omega, this.free⟩
    . constructor <;> simp

end PMM
