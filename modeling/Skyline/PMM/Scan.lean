import Skyline.PMM.Lemmas.Least
import Skyline.PMM.Run

/-!
This module contains that the scanner finds the first run of free pages in a range.
-/

namespace PMM

variable {s : State} {start stop n : Nat}

def populated (s : State) : State :=
  { s with
    l1Map := fun w => (ensureL2Init s (w / 8)).l1Map w
    initMap := fun _ => BitVec.allOnes 64 }

theorem word_ext {map map' : Bitmap} {w : Nat}
    (h : ∀ (p : Nat), p / 64 = w → bitTest map p = bitTest map' p)
    : map w = map' w := by
  apply BitVec.eq_of_getLsbD_eq
  intro bit hbit
  have := h (64 * w + bit) (by omega)
  unfold bitTest at this
  rwa [show (64 * w + bit) / 64 = w by omega, show (64 * w + bit) % 64 = bit by omega] at this

theorem bitTest_populated (s : State) (p : Nat)
    : bitTest (populated s).l1Map p = bitTest (ensureL2Init s (p / 512)).l1Map p := by
  unfold bitTest populated
  dsimp only
  rw [show p / 64 / 8 = p / 512 by omega]

theorem bitTest_ensureL2Init (s : State) (l2 p : Nat)
    : bitTest (ensureL2Init s l2).l1Map p = true
        ↔
      if p / 512 = l2 ∧ bitTest s.initMap l2 = false then ¬Usable s.memmap p
        else bitTest s.l1Map p = true := by
  unfold ensureL2Init
  split
  . next hinit => simp [hinit]
  . next hinit =>
    dsimp only
    rw [bitTest_foldl_clearUsable, bitTest_fillWords]
    have hword : l2 * 8 ≤ p / 64 ∧ p / 64 < l2 * 8 + 8 ↔ p / 512 = l2 := by omega
    simp only [hword]
    by_cases hp : p / 512 = l2
    . have hbit : (BitVec.allOnes 64).getLsbD (p % 64) = true := by
        rw [BitVec.getLsbD_allOnes]
        simp [show p % 64 < 64 by omega]
      rw [if_pos hp, hbit, if_pos ⟨hp, by simpa using hinit⟩]
      simp [hp]
    . simp [hp]

theorem populated_ensureL2Init (s : State) (l2 : Nat)
    : populated (ensureL2Init s l2) = populated s := by
  have hframe := ensureL2Init_frame s l2
  have hl1 : (populated (ensureL2Init s l2)).l1Map = (populated s).l1Map := by
    funext w
    apply word_ext
    intro p _
    rw [bitTest_populated, bitTest_populated, Bool.eq_iff_iff, bitTest_ensureL2Init,
      bitTest_ensureL2Init, bitTest_ensureL2Init, bitTest_ensureL2Init_initMap, hframe.memmap]
    by_cases hp : p / 512 = l2
    . simp [hp]
    . simp [hp]
  have hrest : populated (ensureL2Init s l2)
      = { populated s with l1Map := (populated (ensureL2Init s l2)).l1Map } := by
    unfold populated ensureL2Init
    split <;> rfl
  rw [hrest, hl1]

theorem populated_word (s : State) (w : Nat) (h : bitTest s.initMap (w / 8) = true)
    : (populated s).l1Map w = s.l1Map w := by
  show (ensureL2Init s (w / 8)).l1Map w = s.l1Map w
  rw [ensureL2Init_eq s _ h]

theorem ensureL2Init_populated (s : State) (l2 : Nat)
    : ensureL2Init (populated s) l2 = populated s := by
  apply ensureL2Init_eq
  unfold bitTest populated
  rw [BitVec.getLsbD_allOnes]
  simp [show l2 % 64 < 64 by omega]

namespace Scan

variable {c : Scan} {t : State}

theorem word_congr (h : s.l1Map (c.bit / 64) = t.l1Map (c.bit / 64))
    : c.word s stop n = c.word t stop n := by
  unfold word
  rw [h]

theorem single_congr (h : s.l1Map (c.bit / 64) = t.l1Map (c.bit / 64))
    : c.single s n = c.single t n := by
  unfold single bitTest
  rw [h]

def Visited (s : State) (initedL2 : Option Nat) : Prop :=
  ∀ (l2 : Nat), initedL2 = some l2 → bitTest s.initMap l2 = true

def ScanStep.initedL2 : ScanStep → Option Nat
  | .found _ => none
  | .next c => c.initedL2

theorem word_initedL2 (res : ScanStep) (h : c.word s stop n = some res)
    : ScanStep.initedL2 res = none ∨ ScanStep.initedL2 res = c.initedL2 := by
  have htake : ∀ (k : Nat), ScanStep.initedL2 (c.take n k) = none
      ∨ ScanStep.initedL2 (c.take n k) = c.initedL2 := by
    intro k
    unfold take
    split
    . exact .inl rfl
    . exact .inr rfl
  unfold word at h
  dsimp only at h
  split at h
  . split at h
    . cases h
      exact .inr rfl
    . split at h
      . cases h
        exact .inr rfl
      . contradiction
  . split at h
    . cases h
      exact htake _
    . split at h
      . cases h
        exact htake _
      . contradiction

theorem single_initedL2 (c : Scan) (s : State)
    : ScanStep.initedL2 (c.single s n) = none ∨ ScanStep.initedL2 (c.single s n) = c.initedL2 := by
  unfold single
  split
  . exact .inr rfl
  . dsimp only
    split
    . exact .inl rfl
    . exact .inr rfl

theorem step_populated (stop n : Nat) (hvisited : Visited s c.initedL2)
    : (c.step s stop n).1 = (c.step (populated s) stop n).1 ∧
      (c.step (populated s) stop n).2 = populated s ∧
      populated (c.step s stop n).2 = populated s ∧
      Visited (c.step s stop n).2 (ScanStep.initedL2 (c.step s stop n).1) := by
  have hskip : c.skipBlock (populated s) = c.skipBlock s := rfl
  unfold step
  rw [hskip]
  cases hblock : c.skipBlock s with
  | some => exact ⟨rfl, rfl, rfl, hvisited⟩
  | none =>
    dsimp only
    have hpop : (if c.initedL2 ≠ some (c.bit / 512) then ensureL2Init (populated s) (c.bit / 512)
      else populated s)
        = populated s := by
      rw [ensureL2Init_populated, ite_self]
    rw [hpop]
    generalize hcur : (if c.initedL2 ≠ some (c.bit / 512) then ensureL2Init s (c.bit / 512)
      else s) = cur
    have hsame : populated cur = populated s := by
      rw [← hcur]
      split
      . exact populated_ensureL2Init s _
      . rfl
    have hinit : bitTest cur.initMap (c.bit / 512) = true := by
      rw [← hcur]
      split
      . simp [bitTest_ensureL2Init_initMap]
      . next h =>
        apply hvisited
        simpa using h
    have hword : cur.l1Map (c.bit / 64) = (populated s).l1Map (c.bit / 64) := by
      rw [← hsame, populated_word]
      rwa [show c.bit / 64 / 8 = c.bit / 512 by omega]
    have hseen : ∀ (res : ScanStep),
        ScanStep.initedL2 res = none ∨ ScanStep.initedL2 res = some (c.bit / 512) →
        Visited cur (ScanStep.initedL2 res) := by
      intro res hres l2 hl2
      rcases hres with hres | hres
      . rw [hres] at hl2
        cases hl2
      . rw [hres] at hl2
        cases hl2
        exact hinit
    rw [← word_congr (c := { c with initedL2 := some (c.bit / 512) }) hword,
      ← single_congr (c := { c with initedL2 := some (c.bit / 512) }) hword]
    cases hres : (if c.bit % 64
      = 0 then ({ c with initedL2 := some (c.bit / 512) } : Scan).word cur stop n
        else none) with
    | some res =>
      refine ⟨rfl, rfl, hsame, hseen res ?_⟩
      split at hres
      . exact word_initedL2 res hres
      . cases hres
    | none => exact ⟨rfl, rfl, hsame, hseen _ (single_initedL2 _ cur)⟩

end Scan

theorem scanForRun.go_populated (fuel : Nat) (s : State) (c : Scan)
    (hvisited : Scan.Visited s c.initedL2)
    : (scanForRun.go stop n fuel s c).1 = (scanForRun.go stop n fuel (populated s) c).1 := by
  induction fuel generalizing s c with
  | zero => rfl
  | succ _ ih =>
    unfold scanForRun.go
    split
    . obtain ⟨hres, hpop, hsame, hseen⟩ := Scan.step_populated stop n hvisited
      generalize hp : c.step (populated s) stop n = p at hres hpop
      generalize hs : c.step s stop n = q at hres hsame hseen
      obtain ⟨res, t⟩ := q
      obtain ⟨res', t'⟩ := p
      dsimp only at hres hpop hsame hseen
      rw [← hres, hpop]
      cases res with
      | found => rfl
      | next c' =>
        dsimp only
        rw [ih t c' hseen, hsame]
    . rfl

theorem scanForRun_populated (s : State) (start stop n : Nat)
    : (scanForRun s start stop n).1 = (scanForRun (populated s) start stop n).1 := by
  unfold scanForRun
  split
  . rfl
  . apply scanForRun.go_populated
    intro l2 h
    cases h

theorem Levels.populated (h : Levels s) : Levels (populated s) := by
  have hl1 : ∀ (p : Nat), p / 512 < s.totalL2Bits
      → bitTest (PMM.populated s).l1Map p = bitTest s.l1Map p := by
    intro p hp
    rw [bitTest_populated, h.ensureL2Init_eq hp]
  constructor
  . exact Frame.geometry (by constructor <;> simp [PMM.populated]) h.toGeometry
  . intro l2 _
    unfold bitTest PMM.populated
    rw [BitVec.getLsbD_allOnes]
    simp [show l2 % 64 < 64 by omega]
  . intro p h1 h2
    have h2 : p < s.totalL2Bits * 512 := h2
    rw [hl1 p (by omega)]
    exact h.l1_tail p h1 h2
  . intro l2 hl2
    apply (h.l2_iff l2 hl2).trans
    constructor
    . intro hall p hp
      rw [hl1 p (by rw [hp]; exact hl2)]
      exact hall p hp
    . intro hall p hp
      rw [← hl1 p (by rw [hp]; exact hl2)]
      exact hall p hp
  . exact h.l2_tail
  . exact h.l3_iff

/--
The scanner returns the first page from which `n` pages inside the range are free, and nothing
exactly when there is none.
-/
theorem scanForRun_first (s : State) (h : Levels (populated s)) (start stop n : Nat) (hn : 1 ≤ n)
    (hstop : stop ≤ s.bitmapPages)
    : (∀ (bit : Nat), (scanForRun s start stop n).1 = some bit ↔
        IsLeast {b | FreeRun (populated s) start stop n b} bit) ∧
      ((scanForRun s start stop n).1 = none
        ↔ ¬∃ (b : Nat), FreeRun (populated s) start stop n b) := by
  rw [scanForRun_populated]
  have hfinds := scanForRun_finds h start stop n hn hstop
  generalize (scanForRun (populated s) start stop n).1 = res at hfinds
  cases res with
  | none =>
    have hnone := hfinds.none rfl
    refine ⟨fun bit => iff_of_false (fun heq => (nomatch heq)) ?_, iff_of_true rfl ?_⟩
    . intro hleast
      exact hnone bit hleast.1
    . intro ⟨b, hb⟩
      exact hnone b hb
  | some first =>
    obtain ⟨hrun, hleast⟩ := hfinds.found first rfl
    refine ⟨fun bit => ?_, iff_of_false (fun heq => (nomatch heq)) (not_not_intro ⟨first, hrun⟩)⟩
    have hfirst : IsLeast {b | FreeRun (populated s) start stop n b} first :=
      ⟨hrun, fun b hb => hleast b hb⟩
    constructor
    . intro heq
      cases heq
      exact hfirst
    . intro hbit
      rw [hfirst.unique hbit]

theorem scanForRun_first_smallState
    : Levels (populated smallState) ∧ 32 ≤ smallState.bitmapPages
      ∧ (scanForRun smallState 0 32 2).1 = some 1 ∧
      IsLeast {b | FreeRun (populated smallState) 0 32 2 b} 1 := by
  have hlevels : Levels (populated smallState) :=
    (init_inv _ _ init_smallMemmap_eq).left.levels.populated
  have hpages : 32 ≤ smallState.bitmapPages := by decide +kernel
  have hscan : (scanForRun smallState 0 32 2).1 = some 1 := by decide +kernel
  exact ⟨hlevels, hpages, hscan,
    ((scanForRun_first smallState hlevels 0 32 2 (by decide) hpages).1 1).1 hscan⟩

end PMM
