import Skyline.Comp.Screen

/-!
This module contains what a frame shows.
-/

namespace Comp

open Function

variable {s s' : Screen}

def InSquare (n : Nat) (x y px py : Int) : Prop :=
  (x ≤ px ∧ px < x + n) ∧ y ≤ py ∧ py < y + n

instance (n : Nat) (x y px py : Int) : Decidable (InSquare n x y px py) :=
  inferInstanceAs (Decidable ((x ≤ px ∧ px < x + n) ∧ y ≤ py ∧ py < y + n))

def glyphOver (visible : Bool) (shape : UInt32) (x y px py : Int) (p : Pixel) : Pixel :=
  if visible = true ∧ InSquare skyCurs x y px py then
    drawChar (glyphChar shape (py - y).toNat (px - x).toNat) p
  else
    p

def Inked (visible : Bool) (shape : UInt32) (x y px py : Int) : Prop :=
  (visible = true ∧ InSquare skyCurs x y px py) ∧
    (glyphChar shape (py - y).toNat (px - x).toNat = '*'
      ∨ glyphChar shape (py - y).toNat (px - x).toNat = 'O')

instance (visible : Bool) (shape : UInt32) (x y px py : Int)
    : Decidable (Inked visible shape x y px py) :=
  inferInstanceAs (Decidable ((_ ∧ _) ∧ (_ ∨ _)))

variable {visible : Bool} {shape : UInt32} {x y px py : Int} {gy : Nat}

theorem glyphOver_of_not_inked
    (h : ¬Inked visible shape x y px py) (p : Pixel)
    : glyphOver visible shape x y px py p = p := by
  unfold Inked at h
  unfold glyphOver
  split
  next hin =>
    have hchar := not_or.1 fun hchar => h ⟨hin, hchar⟩
    unfold drawChar
    rw [if_neg hchar.left, if_neg hchar.right]
  next => rfl

def Screen.OnScreen (s : Screen) (px py : Int) : Prop :=
  (0 ≤ px ∧ px < s.width) ∧ 0 ≤ py ∧ py < s.height

structure Drawn (s : Screen) (gy : Nat) (save : Nat → Pixel) (row : Int → Pixel) (j : Nat)
    (cur : (Nat → Pixel) × (Int → Pixel)) : Prop where
  drawn : ∀ px : Int, 0 ≤ px ∧ px < s.width →
    cur.2 px = if s.cur.x ≤ px ∧ px < s.cur.x + j then
      drawChar (glyphChar s.curShape gy (px - s.cur.x).toNat) (row px) else row px
  saved : saveOk s gy = true → ∀ cx < j, cur.1 (gy * cursorSaveMax + cx) = row (s.cur.x + cx)
  kept : ∀ k, (∀ cx < j, k ≠ gy * cursorSaveMax + cx) → cur.1 k = save k

theorem saveOk_iff
    : saveOk s gy = true ↔ s.cur.x ≥ 0 ∧ s.cur.y ≥ 0 ∧ s.cur.x + skyCurs ≤ s.width
      ∧ s.cur.y + skyCurs ≤ s.height ∧
      gy < cursorSaveMax :=
  decide_eq_true_iff

theorem Drawn.cursorPixel {j : Nat} {save : Nat → Pixel} {row : Int → Pixel}
    {cur : (Nat → Pixel) × (Int → Pixel)} (h : Drawn s gy save row j cur) (hj : j < skyCurs)
    : Drawn s gy save row (j + 1) (cursorPixel s gy j cur) := by
  have hmax : j < cursorSaveMax := Nat.lt_trans hj (by decide)
  have hskip : ∀ k, (∀ cx < j + 1, k ≠ gy * cursorSaveMax + cx) → cur.1 k = save k :=
    fun k hk => h.kept k fun cx hcx => hk cx (by omega)
  unfold Comp.cursorPixel
  dsimp only
  split
  next hoff =>
    refine ⟨?_, ?_, hskip⟩
    . intro px hpx
      rw [h.drawn px hpx]
      by_cases hin : s.cur.x ≤ px ∧ px < s.cur.x + j
      . rw [if_pos hin, if_pos (by omega)]
      . rw [if_neg hin, if_neg (by omega)]
    . intro hok cx hcx
      have hfit := saveOk_iff.1 hok
      omega
  next hon =>
    have hnow : cur.2 (s.cur.x + j) = row (s.cur.x + j) := by
      rw [h.drawn _ (by omega), if_neg (by omega)]
    refine ⟨?_, ?_, ?_⟩
    . intro px hpx
      dsimp only
      by_cases heq : px = s.cur.x + j
      . have hcol : (s.cur.x + (j : Int) - s.cur.x).toNat = j := by omega
        rw [heq, update_self, hnow, if_pos (by omega), hcol]
      . rw [update_of_ne heq, h.drawn px hpx]
        by_cases hin : s.cur.x ≤ px ∧ px < s.cur.x + j
        . rw [if_pos hin, if_pos (by omega)]
        . rw [if_neg hin, if_neg (by omega)]
    . intro hok cx hcx
      dsimp only
      rw [if_pos ⟨hok, hmax⟩]
      by_cases heq : cx = j
      . rw [heq, update_self, hnow]
      . rw [update_of_ne (by omega), h.saved hok cx (by omega)]
    . intro k hk
      dsimp only
      split
      next =>
        rw [update_of_ne (hk j (Nat.lt_succ_self j))]
        exact hskip k hk
      next => exact hskip k hk

theorem cursorRow_drawn (s : Screen) (gy : Nat) (row : Int → Pixel)
    : Drawn s gy s.cursorSave row skyCurs
      (Loop.forRange (cursorPixel s gy) 0 skyCurs (s.cursorSave, row)) := by
  have h := Loop.forRange_induct (cursorPixel s gy) (Drawn s gy s.cursorSave row) 0 skyCurs
    (s.cursorSave, row) ?_ ?_
  . rw [Nat.zero_add] at h
    exact h
  . refine ⟨?_, fun _ cx hcx => by omega, fun _ _ => rfl⟩
    intro px _
    rw [if_neg (by omega)]
  . intro j cur _ hj h
    exact h.cursorPixel (by omega)

structure SameCursor (s s' : Screen) : Prop where
  width : s'.width = s.width
  height : s'.height = s.height
  cur : s'.cur = s.cur
  curVisible : s'.curVisible = s.curVisible
  curShape : s'.curShape = s.curShape

theorem SameCursor.trans {s'' : Screen} (h1 : SameCursor s s') (h2 : SameCursor s' s'')
    : SameCursor s s'' where
  width := h2.width.trans h1.width
  height := h2.height.trans h1.height
  cur := h2.cur.trans h1.cur
  curVisible := h2.curVisible.trans h1.curVisible
  curShape := h2.curShape.trans h1.curShape

theorem cursorRow_same (s : Screen) (y : Int) (row : Int → Pixel)
    : SameCursor s (cursorRow s y row).1 ∧ (cursorRow s y row).1.fb = s.fb := by
  unfold cursorRow
  split <;> exact ⟨⟨rfl, rfl, rfl, rfl, rfl⟩, rfl⟩

theorem cursorRow_row (s : Screen) (y : Int) (row : Int → Pixel) (hpx : 0 ≤ px ∧ px < s.width)
    : (cursorRow s y row).2 px = glyphOver s.curVisible s.curShape s.cur.x s.cur.y
      px y (row px) := by
  unfold cursorRow glyphOver InSquare
  by_cases hrow : s.curVisible = true ∧ y ≥ s.cur.y ∧ y < s.cur.y + skyCurs
  . rw [if_pos hrow]
    refine ((cursorRow_drawn s (y - s.cur.y).toNat row).drawn px hpx).trans ?_
    by_cases hin : s.cur.x ≤ px ∧ px < s.cur.x + skyCurs
    . rw [if_pos hin, if_pos ⟨hrow.left, hin, hrow.right⟩]
    . rw [if_neg hin, if_neg fun h => hin h.right.left]
  . rw [if_neg hrow, if_neg fun h => hrow ⟨h.left, h.right.right⟩]

section

variable (scene : Scene)
include scene

theorem composeRow_same (s : Screen) (y : Nat) : SameCursor s (composeRow scene s y) := by
  have h := (cursorRow_same s y (sceneRow scene s.width y)).left
  exact ⟨h.width, h.height, h.cur, h.curVisible, h.curShape⟩

theorem composeRow_fb (s : Screen) (y : Nat) (py : Int) (hpx : 0 ≤ px ∧ px < s.width)
    : (composeRow scene s y).fb py px =
      if py = y then
        glyphOver s.curVisible s.curShape s.cur.x s.cur.y px y (sceneRow scene s.width y px)
      else
        s.fb py px := by
  obtain ⟨hsame, hfb⟩ := cursorRow_same s y (sceneRow scene s.width y)
  unfold composeRow
  dsimp only
  split
  next heq =>
    have hcast : ((px - 0).toNat : Int) = px := by omega
    have hwidth := hsame.width
    rw [heq, update_self, copyRow, if_pos (by omega), hcast, cursorRow_row s y _ hpx]
  next hne => rw [update_of_ne hne, hfb]

theorem foldl_composeRow_same (order : List Nat) (s : Screen)
    : SameCursor s (order.foldl (composeRow scene) s) := by
  induction order generalizing s with
  | nil => exact ⟨rfl, rfl, rfl, rfl, rfl⟩
  | cons y _ ih => exact (composeRow_same scene s y).trans (ih _)

theorem foldl_composeRow_fb (order : List Nat) (s : Screen) (y : Nat)
    (hpx : 0 ≤ px ∧ px < s.width)
    : (order.foldl (composeRow scene) s).fb y px =
      if y ∈ order then
        glyphOver s.curVisible s.curShape s.cur.x s.cur.y px y (sceneRow scene s.width y px)
      else
        s.fb y px := by
  induction order generalizing s with
  | nil => rfl
  | cons first order ih =>
    have hsame := composeRow_same scene s first
    rw [List.foldl_cons, ih (composeRow scene s first) (by rw [hsame.width]; exact hpx),
      hsame.curVisible, hsame.curShape, hsame.cur, hsame.width]
    by_cases hin : y ∈ order
    . rw [if_pos hin, if_pos (List.mem_cons_of_mem _ hin)]
    . rw [if_neg hin, composeRow_fb scene s first y hpx]
      by_cases heq : y = first
      . rw [if_pos (by omega), if_pos (by rw [heq]; exact List.mem_cons_self), heq]
      . rw [if_neg (by omega), if_neg]
        rw [List.mem_cons]
        exact not_or.2 ⟨heq, hin⟩

theorem composeScreen_fb {n : Nat} {order : List Nat} (hn : 1 ≤ n)
    (horder : order.Perm (stripRows s.height n)) (hon : s.OnScreen px py)
    : (composeScreen s scene order).fb py px =
      glyphOver s.curVisible s.curShape s.cur.x s.cur.y px py (sceneRow scene s.width py px) := by
  have hcast : ((py.toNat : Nat) : Int) = py := by
    have := hon.right
    omega
  have hmem : py.toNat ∈ order := by
    rw [horder.mem_iff, mem_stripRows hn]
    have := hon.right
    omega
  have h := foldl_composeRow_fb scene order s py.toNat hon.left
  rw [hcast, if_pos hmem] at h
  exact h

end

end Comp
