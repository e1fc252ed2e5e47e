import Skyline.Loop.Basic

/-!
This module contains how `window.cpp` puts one row of pixels over another.
-/

namespace Comp

open Function

abbrev Pixel := UInt32

def alpha (s : Pixel) : UInt32 := s >>> 24

def srcOverArgb (s d : Pixel) : Pixel :=
  let a := s >>> 24
  if a = 255 then
    s
  else if a = 0 then
    d
  else
    let ia := 255 - a
    let sr := (s >>> 16) &&& 0xFF
    let sg := (s >>> 8) &&& 0xFF
    let sb := s &&& 0xFF
    let dr := (d >>> 16) &&& 0xFF
    let dg := (d >>> 8) &&& 0xFF
    let db := d &&& 0xFF
    let r := (sr * a + dr * ia + 128) >>> 8
    let g := (sg * a + dg * ia + 128) >>> 8
    let b := (sb * a + db * ia + 128) >>> 8
    (0xFF000000 : UInt32) ||| (r <<< 16) ||| (g <<< 8) ||| b

def copyRow (dst : Int → Pixel) (d : Int) (src : Nat → Pixel) (i j : Nat) : Int → Pixel :=
  fun x => if d + i ≤ x ∧ x < d + j then src (x - d).toNat else dst x

def opaqueEnd (src : Nat → Pixel) (n j : Nat) : Nat :=
  Loop.whileDo (fun j => if j < n ∧ alpha (src j) = 255 then (j + 1, true) else (j, false))
    (n + 1) j

def blendStep (d : Int) (src : Nat → Pixel) (n : Nat) (cur : Nat × (Int → Pixel))
    : (Nat × (Int → Pixel)) × Bool :=
  let (i, dst) := cur
  if i < n then
    let a := alpha (src i)
    if a = 255 then
      let j := opaqueEnd src n (i + 1)
      ((j, copyRow dst d src i j), true)
    else if a = 0 then
      ((i + 1, dst), true)
    else
      ((i + 1, update dst (d + i) (srcOverArgb (src i) (dst (d + i)))), true)
  else
    (cur, false)

def blendRowArgb (dst : Int → Pixel) (d : Int) (src : Nat → Pixel) (n : Nat) : Int → Pixel :=
  (Loop.whileDo (blendStep d src n) (n + 1) (0, dst)).2

theorem srcOverArgb_opaque {s : Pixel} (d : Pixel) (h : alpha s = 255) : srcOverArgb s d = s :=
  if_pos h

theorem srcOverArgb_clear {s : Pixel} (d : Pixel) (h : alpha s = 0) : srcOverArgb s d = d := by
  have hne : ¬s >>> 24 = 255 := by
    unfold alpha at h
    rw [h]
    decide
  unfold srcOverArgb
  dsimp only
  rw [if_neg hne]
  exact if_pos h

theorem opaqueEnd_spec (src : Nat → Pixel) {n j : Nat} (hj : j ≤ n)
    : j ≤ opaqueEnd src n j ∧ opaqueEnd src n j ≤ n
      ∧ ∀ k, j ≤ k → k < opaqueEnd src n j → alpha (src k) = 255 := by
  refine Loop.whileDo_induct _ (fun e => j ≤ e ∧ e ≤ n ∧ ∀ k, j ≤ k → k < e → alpha (src k) = 255)
    (fun e => j ≤ e ∧ e ≤ n ∧ ∀ k, j ≤ k → k < e → alpha (src k) = 255) (fun e => n - e)
    (n + 1) j ?_ (by omega) ?_ ?_
  . exact ⟨Nat.le_refl j, hj, fun k h1 h2 => by omega⟩
  . intro e e' hinv hbody
    split at hbody
    next hcond =>
      cases hbody
      refine ⟨⟨by omega, by omega, ?_⟩, by omega⟩
      intro k h1 h2
      rcases Nat.eq_or_lt_of_le (Nat.le_of_lt_succ h2) with heq | hlt
      . rw [heq]
        exact hcond.right
      . exact hinv.right.right k h1 hlt
    next => cases hbody
  . intro e e' hinv hbody
    split at hbody
    next => cases hbody
    next =>
      cases hbody
      exact hinv

def overRow (dst : Int → Pixel) (d : Int) (src : Nat → Pixel) (i : Nat) : Int → Pixel :=
  fun x => if d ≤ x ∧ x < d + i then srcOverArgb (src (x - d).toNat) (dst x) else dst x

theorem blendStep_over {d : Int} {src : Nat → Pixel} {n i : Nat} (dst : Int → Pixel) (hi : i < n)
    : ∃ j, i < j ∧ j ≤ n ∧ blendStep d src n (i, overRow dst d src i)
      = ((j, overRow dst d src j), true) := by
  unfold blendStep
  dsimp only
  rw [if_pos hi]
  have hindex : (d + (i : Int) - d).toNat = i := by omega
  by_cases hopaque : alpha (src i) = 255
  . rw [if_pos hopaque]
    obtain ⟨hle, hend, hrun⟩ := opaqueEnd_spec src (show i + 1 ≤ n from hi)
    refine ⟨opaqueEnd src n (i + 1), hle, hend, ?_⟩
    congr 2
    funext x
    unfold copyRow overRow
    by_cases hx : d + i ≤ x ∧ x < d + opaqueEnd src n (i + 1)
    . have halpha : alpha (src (x - d).toNat) = 255 := by
        rcases Nat.eq_or_lt_of_le (show i ≤ (x - d).toNat by omega) with heq | hlt
        . rw [← heq]
          exact hopaque
        . exact hrun _ hlt (by omega)
      rw [if_pos hx, if_pos (by omega), srcOverArgb_opaque _ halpha]
    . rw [if_neg hx]
      by_cases hbefore : d ≤ x ∧ x < d + i
      . rw [if_pos hbefore, if_pos (by omega)]
      . rw [if_neg hbefore, if_neg (by omega)]
  . rw [if_neg hopaque]
    refine ⟨i + 1, Nat.lt_succ_self i, hi, ?_⟩
    by_cases hclear : alpha (src i) = 0
    . rw [if_pos hclear]
      congr 2
      funext x
      unfold overRow
      by_cases hx : x = d + i
      . rw [hx, if_neg (by omega), if_pos (by omega), hindex, srcOverArgb_clear _ hclear]
      . by_cases hbefore : d ≤ x ∧ x < d + i
        . rw [if_pos hbefore, if_pos (by omega)]
        . rw [if_neg hbefore, if_neg (by omega)]
    . rw [if_neg hclear]
      congr 2
      funext x
      by_cases hx : x = d + i
      . rw [hx, update_self]
        unfold overRow
        rw [if_neg (by omega), if_pos (by omega), hindex]
      . rw [update_of_ne hx]
        unfold overRow
        by_cases hbefore : d ≤ x ∧ x < d + i
        . rw [if_pos hbefore, if_pos (by omega)]
        . rw [if_neg hbefore, if_neg (by omega)]

theorem blendRowArgb_eq (dst : Int → Pixel) (d : Int) (src : Nat → Pixel) (n : Nat)
    : blendRowArgb dst d src n = overRow dst d src n := by
  unfold blendRowArgb
  refine Loop.whileDo_induct (blendStep d src n)
    (fun cur => cur.1 ≤ n ∧ cur.2 = overRow dst d src cur.1)
    (fun cur => cur.2 = overRow dst d src n) (fun cur => n - cur.1) (n + 1) (0, dst) ?_
    (by simp) ?_ ?_
  . refine ⟨Nat.zero_le n, ?_⟩
    funext x
    exact (if_neg (by simp)).symm
  . rintro ⟨i, row⟩ next ⟨hle, hrow⟩ hbody
    dsimp only at hle hrow
    rcases Nat.eq_or_lt_of_le hle with heq | hlt
    . simp [blendStep, heq] at hbody
    . obtain ⟨j, hij, hjn, hstep⟩ := blendStep_over dst hlt
      rw [hrow, hstep] at hbody
      cases hbody
      exact ⟨⟨hjn, rfl⟩, by dsimp only; omega⟩
  . rintro ⟨i, row⟩ next ⟨hle, hrow⟩ hbody
    dsimp only at hle hrow
    rcases Nat.eq_or_lt_of_le hle with heq | hlt
    . simp only [blendStep, heq, Nat.lt_irrefl, if_false, Prod.mk.injEq, and_true] at hbody
      rw [← hbody, hrow, heq]
    . obtain ⟨j, -, -, hstep⟩ := blendStep_over dst hlt
      rw [hrow, hstep] at hbody
      cases hbody

end Comp
