import Skyline.PMM.Lemmas.Scan

/-!
This module contains the minimality of the scanner.
-/

namespace PMM

variable {s : State} {start stop n : Nat}

namespace Scan

variable {c : Scan}

def origin (c : Scan) : Nat :=
  if c.run = 0 then c.bit else c.runStart

theorem origin_of_zero (h : c.run = 0) : c.origin = c.bit :=
  if_pos h

theorem origin_of_pos (h : 0 < c.run) : c.origin = c.runStart :=
  if_neg (by omega)

def Ahead (s : State) (start stop n : Nat) (c : Scan) : Prop :=
  ∀ (b : Nat), FreeRun s start stop n b → c.origin ≤ b

def StepAhead (s : State) (start stop n : Nat) (res : ScanStep) : Prop :=
  match res with
  | .found bit => ∀ (b : Nat), FreeRun s start stop n b → bit ≤ b
  | .next c => c.Ahead s start stop n

theorem skip_ahead (h : c.Ahead s start stop n) (hn : 0 < n) (hrun : c.run = 0) (k : Nat)
    (initedL2 : Option Nat)
    (hused : ∀ (p : Nat), c.bit ≤ p → p < c.bit + k → p < stop → bitTest s.l1Map p = true)
    : StepAhead s start stop n (.next { c with bit := c.bit + k, initedL2 }) := by
  intro b hb
  have horigin : ({ c with bit := c.bit + k, initedL2 } : Scan).origin
    = c.bit + k := origin_of_zero hrun
  have hle := h b hb
  rw [origin_of_zero hrun] at hle
  rw [horigin]
  rcases Nat.lt_or_ge b (c.bit + k) with hlt | hge
  . have hstop := hb.stop_le
    have hset := hused b hle hlt (by omega)
    rw [hb.free b (Nat.le_refl _) (by omega)] at hset
    contradiction
  . exact hge

theorem take_ahead (h : c.Ahead s start stop n) (hrun : 0 < c.run) (k : Nat)
    : StepAhead s start stop n (c.take n k) := by
  unfold take
  split
  . intro b hb
    have hle := h b hb
    rw [origin_of_pos hrun] at hle
    exact hle
  . intro b hb
    have hle := h b hb
    rw [origin_of_pos hrun] at hle
    rw [origin_of_pos (by dsimp only; omega)]
    exact hle

theorem bitTest_of_lt_ctz_not (map : Bitmap) (p w : Nat) (hp : p / 64 = w)
    (h : p % 64 < (~~~(map w)).ctz.toNat)
    : bitTest map p = true := by
  have hnot := BitVec.getLsbD_false_of_lt_ctz h
  rw [BitVec.getLsbD_not] at hnot
  unfold bitTest
  rw [hp]
  simpa [show p % 64 < 64 by omega] using hnot

theorem ctz_le (w : BitVec 64) : w.ctz.toNat ≤ 64 := by
  rw [BitVec.ctz_eq_reverse_clz]
  exact BitVec.le_def.mp BitVec.clz_le

theorem word_ahead (h : c.Ahead s start stop n) (hn : 0 < n) (haligned : c.bit % 64 = 0)
    (res : ScanStep) (hres : c.word s stop n = some res)
    : StepAhead s start stop n res := by
  unfold word at hres
  dsimp only at hres
  split at hres
  . next hrun =>
    split at hres
    . next hfull =>
      cases hres
      apply skip_ahead h hn hrun 64 c.initedL2
      intro p h1 h2 _
      exact (word_eq_allOnes_iff s.l1Map (c.bit / 64)).mp hfull p (by omega)
    . split at hres
      . cases hres
        have hctz := ctz_le (~~~(s.l1Map (c.bit / 64)))
        apply skip_ahead h hn hrun _ c.initedL2
        intro p h1 h2 _
        exact bitTest_of_lt_ctz_not s.l1Map p (c.bit / 64) (by omega) (by omega)
      . contradiction
  . next hrun =>
    split at hres
    . cases hres
      exact take_ahead h (by omega) _
    . split at hres
      . cases hres
        exact take_ahead h (by omega) _
      . contradiction

theorem single_ahead (hinv : c.Inv s start n) (h : c.Ahead s start stop n)
    : StepAhead s start stop n (c.single s n) := by
  have hn := hinv.run_lt
  unfold single
  split
  . next hused =>
    intro b hb
    have hle := h b hb
    rw [origin_of_zero rfl]
    dsimp only
    rcases Nat.lt_or_ge c.bit b with hlt | hge
    . exact hlt
    . -- the run from `b` would have the page that the scanner is at
      have hin : c.bit < b + n := by
        rcases Nat.eq_zero_or_pos c.run with hrun | hrun
        . rw [origin_of_zero hrun] at hle
          omega
        . rw [origin_of_pos hrun] at hle
          have := (hinv.runStart hrun).right
          omega
      rw [hb.free c.bit hge hin] at hused
      contradiction
  . dsimp only
    split
    . intro b hb
      exact h b hb
    . intro b hb
      rw [origin_of_pos (by dsimp only; omega)]
      exact h b hb

theorem skipBlock_used (hs : Levels s) (hstop : stop ≤ s.bitmapPages) (k : Nat)
    (h : c.skipBlock s = some k)
    : ∀ (p : Nat), c.bit ≤ p → p < c.bit + k → p < stop → bitTest s.l1Map p = true := by
  intro p h1 h2 h3
  have hblock := hs.block_lt (p := p) (by omega)
  unfold skipBlock at h
  split at h
  . contradiction
  . split at h
    . next hl3 =>
      cases h
      obtain ⟨haligned, hlt, hset⟩ := hl3
      rw [hs.l3_iff _ hlt] at hset
      exact (hs.l2_iff _ hblock).mp (hset (p / 512) (by omega)) p rfl
    . split at h
      . next hl2 =>
        cases h
        obtain ⟨haligned, hlt, hset⟩ := hl2
        exact (hs.l2_iff _ hlt).mp hset p (by omega)
      . contradiction

theorem step_ahead (hs : Levels s) (hinv : c.Inv s start n) (h : c.Ahead s start stop n)
    (hbit : c.bit < stop) (hstop : stop ≤ s.bitmapPages)
    : StepAhead s start stop n (c.step s stop n).1 := by
  have hn := hinv.run_lt
  unfold step
  split
  . next k hk =>
    exact skip_ahead h (by omega) (skipBlock_pos s c k hk).left k c.initedL2
      (skipBlock_used hs hstop k hk)
  . dsimp only
    rw [initedL2_eq hs (by omega)]
    have hc := hinv.inited (some (c.bit / 512))
    split
    . next res hres =>
      split at hres
      . next haligned =>
          exact word_ahead (c := { c with initedL2 := some (c.bit / 512) }) h
            (by omega) haligned res hres
      . contradiction
    . exact single_ahead hc h

theorem Ahead.not_freeRun (h : c.Ahead s start stop n) (hinv : c.Inv s start n)
    (hbit : stop ≤ c.bit)
    : ∀ (b : Nat), ¬FreeRun s start stop n b := by
  intro b hb
  have hle := h b hb
  have hn := hinv.run_lt
  have hb2 := hb.stop_le
  rcases Nat.eq_zero_or_pos c.run with hrun | hrun
  . rw [origin_of_zero hrun] at hle
    omega
  . rw [origin_of_pos hrun] at hle
    have := (hinv.runStart hrun).right
    omega

end Scan

structure Finds (s : State) (start stop n : Nat) (res : Option Nat) : Prop where
  found : ∀ (bit : Nat), res = some bit
    → FreeRun s start stop n bit ∧ ∀ (b : Nat), FreeRun s start stop n b → bit ≤ b
  none : res = none → ∀ (b : Nat), ¬FreeRun s start stop n b

theorem scanForRun.go_finds (hs : Levels s) (hstop : stop ≤ s.bitmapPages) (fuel : Nat) (c : Scan)
    (hinv : c.Inv s start n) (h : c.Ahead s start stop n) (hfuel : stop ≤ c.bit + fuel)
    : Finds s start stop n (scanForRun.go stop n fuel s c).1 := by
  induction fuel generalizing c with
  | zero =>
    refine ⟨?_, fun _ => h.not_freeRun hinv hfuel⟩
    intro _ hnone
    cases hnone
  | succ _ ih =>
    unfold scanForRun.go
    split
    . next hbit =>
      have hok := Scan.step_ok hs hinv hbit hstop
      have hahead := Scan.step_ahead hs hinv h hbit hstop
      generalize c.step s stop n = res at hok hahead
      obtain ⟨hok, rfl⟩ := hok
      rcases res with ⟨bit | c', _⟩
      . constructor
        . intro bit' hbit'
          cases hbit'
          exact ⟨hok, hahead⟩
        . intro hnone
          cases hnone
      . obtain ⟨hinv', hlt⟩ := hok
        exact ih c' hinv' hahead (by omega)
    . next hbit =>
      refine ⟨?_, fun _ => h.not_freeRun hinv (by omega)⟩
      intro _ hnone
      cases hnone

theorem scanForRun_finds (hs : Levels s) (start stop n : Nat) (hn : 0 < n)
    (hstop : stop ≤ s.bitmapPages)
    : Finds s start stop n (scanForRun s start stop n).1 := by
  unfold scanForRun
  split
  . next hempty =>
    refine ⟨fun _ h => (nomatch h), fun _ b hb => ?_⟩
    have h1 := hb.start_le
    have h2 := hb.stop_le
    omega
  . apply scanForRun.go_finds hs hstop
    . constructor <;> simp
      exact hn
    . intro b hb
      exact hb.start_le
    . dsimp only
      omega

end PMM
