import Mathlib

/-!
This module contains the place that a thread gets in a run queue by `calibrate_and_set_deadline`.
-/

namespace Sched.Placement

def int64 (x : Int) : Int :=
  (x + 2 ^ 63) % 2 ^ 64 - 2 ^ 63

structure Cpu where
  baseQuantum : Nat
  avgVruntime : Nat
  quantum_range : 2 ≤ baseQuantum ∧ baseQuantum ≤ 15
  avg_lt : avgVruntime < 2 ^ 64

structure Thread where
  vruntime : Nat
  vruntimeRem : Nat
  deadline : Nat
  minVruntimeSubtree : Nat
  vlag : Int
  weight : Nat
  onRq : Bool
  vruntime_lt : vruntime < 2 ^ 64
  deadline_lt : deadline < 2 ^ 64

def Thread.lagVr (t : Thread) : Int :=
  let w : Int := if t.weight ≠ 0 then t.weight else 1024
  if t.vlag ≥ 0 then (int64 (t.vlag + w / 2)).tdiv w
    else int64 (-(int64 (int64 (-t.vlag) + w / 2)).tdiv w)

def lagTarget (cpu : Cpu) (t : Thread) : Nat :=
  if t.lagVr ≥ 0 then
    if t.lagVr > cpu.avgVruntime then 0 else cpu.avgVruntime - t.lagVr.toNat
  else
    (cpu.avgVruntime + (-t.lagVr).toNat) % 2 ^ 64

def calibrateVruntime (cpu : Cpu) (t : Thread) : Nat × Nat :=
  let avgVr := cpu.avgVruntime
  if t.vlag ≠ 0 then
    let wakeLo := cpu.baseQuantum * 4
    let lo := if avgVr > wakeLo then avgVr - wakeLo else 0
    let hi := (avgVr + wakeLo * 2) % 2 ^ 64
    let target := if lagTarget cpu t < lo then lo else lagTarget cpu t
    (if target > hi then hi else target, 0)
  else
    let maxLag := cpu.baseQuantum
    let targetVr := if avgVr > maxLag then avgVr - maxLag else 0
    let hi := (avgVr + maxLag * 2) % 2 ^ 64
    if t.vruntime < targetVr then (targetVr, 0)
    else if t.vruntime > hi then (hi, 0)
    else (t.vruntime, t.vruntimeRem)

theorem calibrateVruntime_lt (cpu : Cpu) (t : Thread) : (calibrateVruntime cpu t).1 < 2 ^ 64 := by
  have havg := cpu.avg_lt
  have hvr := t.vruntime_lt
  unfold calibrateVruntime
  dsimp only
  generalize lagTarget cpu t = target
  repeat' split
  all_goals omega

def calibrateDeadline (cpu : Cpu) (vruntime deadline : Nat) : Nat :=
  if deadline ≠ 0 ∧ int64 (vruntime - deadline) < 0 then deadline
    else (vruntime + cpu.baseQuantum) % 2 ^ 64

theorem calibrateDeadline_lt {cpu : Cpu} {vruntime deadline : Nat} (h : deadline < 2 ^ 64)
    : calibrateDeadline cpu vruntime deadline < 2 ^ 64 := by
  unfold calibrateDeadline
  split <;> omega

def calibrateAndSetDeadline (cpu : Cpu) (t : Thread) : Thread where
  vruntime := (calibrateVruntime cpu t).1
  vruntimeRem := (calibrateVruntime cpu t).2
  deadline := calibrateDeadline cpu (calibrateVruntime cpu t).1 t.deadline
  minVruntimeSubtree := (calibrateVruntime cpu t).1
  vlag := 0
  weight := t.weight
  onRq := t.onRq
  vruntime_lt := calibrateVruntime_lt cpu t
  deadline_lt := calibrateDeadline_lt t.deadline_lt

def insertToQueue (cpu : Cpu) (t : Thread) : Thread :=
  if t.onRq then t else { calibrateAndSetDeadline cpu t with onRq := true }

def slices (t : Thread) : Nat :=
  if t.vlag ≠ 0 then 4 else 1

structure Placed (cpu : Cpu) (old new : Thread) : Prop where
  window : cpu.avgVruntime ≤ new.vruntime + slices old * cpu.baseQuantum ∧
    new.vruntime ≤ cpu.avgVruntime + 2 * (slices old * cpu.baseQuantum)
  ahead : new.vruntime < new.deadline
  slice : new.deadline ≤ new.vruntime + cpu.baseQuantum

def nearest (cpu : Cpu) (t : Thread) : Nat :=
  max (cpu.avgVruntime - slices t * cpu.baseQuantum)
    (min (cpu.avgVruntime + 2 * (slices t * cpu.baseQuantum))
      (if t.vlag ≠ 0 then lagTarget cpu t else t.vruntime))

def Fresh (cpu : Cpu) (t : Thread) : Prop :=
  (cpu.avgVruntime + 2 * (slices t * cpu.baseQuantum) < 2 ^ 64 ∨
    t.vlag = 0 ∧ t.vruntime + cpu.baseQuantum < cpu.avgVruntime) ∧
  (nearest cpu t < t.deadline ∧ t.deadline ≤ nearest cpu t + cpu.baseQuantum ∨
    (t.deadline = 0 ∨ t.deadline ≤ nearest cpu t ∧ nearest cpu t < t.deadline + 2 ^ 63 ∨
      nearest cpu t + 2 ^ 63 < t.deadline) ∧
    nearest cpu t + cpu.baseQuantum < 2 ^ 64)

theorem calibrateVruntime_eq (cpu : Cpu) (t : Thread)
    : (calibrateVruntime cpu t).1 =
      if cpu.avgVruntime + 2 * (slices t * cpu.baseQuantum) < 2 ^ 64 ∨
          t.vlag = 0 ∧ t.vruntime + cpu.baseQuantum < cpu.avgVruntime then
        nearest cpu t
      else
        cpu.avgVruntime + 2 * (slices t * cpu.baseQuantum) - 2 ^ 64 := by
  have hquantum := cpu.quantum_range
  have havg := cpu.avg_lt
  unfold calibrateVruntime nearest slices
  dsimp only
  generalize lagTarget cpu t = target
  by_cases hlag : t.vlag = 0
  . simp only [hlag, ne_eq, not_true_eq_false, if_false, true_and]
    split <;> split <;> (try split) <;> (try split) <;> dsimp only <;> omega
  . simp only [hlag, ne_eq, not_false_eq_true, if_true, false_and, or_false]
    split <;> split <;> split <;> (try split) <;> omega

theorem calibrateDeadline_iff (cpu : Cpu) {v d : Nat} (hv : v < 2 ^ 64) (hd : d < 2 ^ 64)
    : v < calibrateDeadline cpu v d ∧ calibrateDeadline cpu v d ≤ v + cpu.baseQuantum ↔
      v < d ∧ d ≤ v + cpu.baseQuantum ∨
        (d = 0 ∨ d ≤ v ∧ v < d + 2 ^ 63 ∨ v + 2 ^ 63 < d) ∧ v + cpu.baseQuantum < 2 ^ 64 := by
  have hquantum := cpu.quantum_range
  unfold calibrateDeadline int64
  split <;> omega

/--
The thread is inside the window, and its deadline at most one slice ahead, just if the old deadline
is fresh.
-/
theorem insertToQueue_placed_iff (cpu : Cpu) (t : Thread) (h : t.onRq = false)
    : Placed cpu t (insertToQueue cpu t) ↔ Fresh cpu t := by
  have hinsert : insertToQueue cpu t = { calibrateAndSetDeadline cpu t with onRq := true } := by
    simp [insertToQueue, h]
  have hquantum := cpu.quantum_range
  have hvr := calibrateVruntime_eq cpu t
  have hdeadline := calibrateDeadline_iff cpu (calibrateVruntime_lt cpu t) t.deadline_lt
  rw [hinsert]
  unfold Fresh
  constructor
  . rintro ⟨⟨hlo, hhi⟩, hahead, hslice⟩
    simp only [calibrateAndSetDeadline] at hlo hhi hahead hslice
    have hfresh := hdeadline.1 ⟨hahead, hslice⟩
    split at hvr
    next hwrap =>
      rw [hvr] at hfresh
      exact ⟨hwrap, hfresh⟩
    next hwrap =>
      have hk : slices t ≤ 4 := by unfold slices; split <;> omega
      have hmul := Nat.mul_le_mul hk hquantum.2
      have havg := cpu.avg_lt
      omega
  . rintro ⟨hwrap, hfresh⟩
    rw [if_pos hwrap] at hvr
    rw [← hvr] at hfresh
    obtain ⟨hahead, hslice⟩ := hdeadline.2 hfresh
    refine ⟨?_, hahead, hslice⟩
    simp only [calibrateAndSetDeadline, hvr, nearest]
    omega

def fiveMs (avg : Nat) (h : avg < 2 ^ 64) : Cpu :=
  ⟨5, avg, by decide, h⟩

def migrated : Thread :=
  ⟨100000, 0, 100005, 100000, 0, 1024, false, by decide, by decide⟩

theorem stale_deadline
    : (insertToQueue (fiveMs 1000 (by decide)) migrated).vruntime = 1010
        ∧ (insertToQueue (fiveMs 1000 (by decide)) migrated).deadline = 100005
        ∧ ¬Placed (fiveMs 1000 (by decide)) migrated
        (insertToQueue (fiveMs 1000 (by decide)) migrated) := by
  refine ⟨by decide, by decide, ?_⟩
  intro h
  exact absurd h.slice (by decide)

theorem insertToQueue_placed_migrated
    : Placed (fiveMs 99999 (by decide)) migrated
      (insertToQueue (fiveMs 99999 (by decide)) migrated) :=
  (insertToQueue_placed_iff (fiveMs 99999 (by decide)) migrated rfl).2
    ⟨.inl (by decide), .inl (by decide)⟩

end Sched.Placement
