import Skyline.Comp.Frame

/-!
This module contains the picture that a frame is for.
-/

namespace Comp

def Window.over (w : Window) (posX posY px py : Int) (d : Pixel) : Pixel :=
  match w.fbAddr with
  | none => d
  | some fbAddr =>
    if (posX ≤ px ∧ px < posX + w.sizeX.toNat) ∧ posY ≤ py ∧ py < posY + w.sizeY.toNat then
      let p := fbAddr ((py - posY).toNat * w.sizeX.toNat + (px - posX).toNat)
      if w.hasAlpha then srcOverArgb p d else p
    else
      d

def Window.x (w : Window) : Int := w.posX.toInt32.toInt

def Window.y (w : Window) : Int := w.posY.toInt32.toInt

def Scene.nodes (scene : Scene) : List WinNode := scene.layers.flatMap Layer.nodes

def Scene.paint (scene : Scene) (nodes : List WinNode) (px py : Int) : Pixel :=
  nodes.foldl (fun d node =>
    let w := scene.window node.win
    if scene.visible node.id then w.over w.x w.y px py d else d) (backgroundRow scene py px)

def Scene.inner (scene : Scene) : List WinNode :=
  scene.nodes.filter fun node => 0 ≤ (scene.window node.win).x ∧ 0 ≤ (scene.window node.win).y

theorem toInt32_toInt (x : UInt32)
    : x.toInt32.toInt = if x.toNat < 2 ^ 31 then (x.toNat : Int) else x.toNat - 2 ^ 32 := by
  have h : x.toInt32.toInt = x.toBitVec.toInt := rfl
  have hnat : x.toBitVec.toNat = x.toNat := rfl
  rw [h, BitVec.toInt_eq_toNat_cond, hnat]
  split <;> split <;> omega

theorem windowRow_eq (sw : Nat) (y : Int) (visible : Bool) (w : Window) (row : Int → Pixel)
    {px : Int} (hpx : 0 ≤ px ∧ px < sw)
    : windowRow sw y visible w row px =
      if visible then w.over w.posX.toNat w.posY.toNat px y (row px) else row px := by
  unfold windowRow Window.over
  cases w.fbAddr with
  | none => simp
  | some =>
    dsimp only
    cases visible with
    | false => rfl
    | true =>
      rw [if_neg (by decide), if_pos rfl]
      by_cases habove : y < w.posY.toNat
      . rw [if_pos habove, if_neg (by omega)]
      . rw [if_neg habove]
        by_cases hbelow : y ≥ w.posY.toNat + w.sizeY.toNat
        . rw [if_pos hbelow, if_neg (by omega)]
        . rw [if_neg hbelow]
          have hcx0 : max (w.posX.toNat : Int) 0 = w.posX.toNat := by omega
          rw [hcx0]
          by_cases hempty : (w.posX.toNat : Int) ≥ min ((w.posX.toNat : Int) + w.sizeX.toNat) sw
          . rw [if_pos hempty, if_neg (by omega)]
          . rw [if_neg hempty]
            by_cases hin : (w.posX.toNat : Int) ≤ px ∧ px < w.posX.toNat + w.sizeX.toNat
            . have hindex : (y - w.posY.toNat).toNat * w.sizeX.toNat
                + ((w.posX.toNat : Int) - w.posX.toNat).toNat +
                  (px - w.posX.toNat).toNat = (y - w.posY.toNat).toNat * w.sizeX.toNat
                  + (px - w.posX.toNat).toNat := by
                omega
              have hcover : ((w.posX.toNat : Int) ≤ px ∧ px < w.posX.toNat + w.sizeX.toNat) ∧
                  w.posY.toNat ≤ y ∧ y < w.posY.toNat + w.sizeY.toNat := ⟨hin, by omega⟩
              rw [if_pos hcover]
              cases w.hasAlpha with
              | true =>
                rw [if_pos rfl, if_pos rfl, blendRowArgb_eq, overRow, if_pos (by omega), hindex]
              | false =>
                rw [if_neg Bool.false_ne_true, if_neg Bool.false_ne_true, copyRow,
                  if_pos (by omega), hindex]
            . have hcover : ¬(((w.posX.toNat : Int) ≤ px ∧ px < w.posX.toNat + w.sizeX.toNat) ∧
                  w.posY.toNat ≤ y ∧ y < w.posY.toNat + w.sizeY.toNat) := fun h => hin h.left
              rw [if_neg hcover]
              cases w.hasAlpha with
              | true => rw [if_pos rfl, blendRowArgb_eq, overRow, if_neg (by omega)]
              | false => rw [if_neg Bool.false_ne_true, copyRow, if_neg (by omega)]

theorem windowRow_signed {sw : Nat} {y : Int} (visible : Bool) (w : Window) (row : Int → Pixel)
    {px : Int} (hpx : 0 ≤ px ∧ px < sw) (hsw : sw < 2 ^ 31) (hy : y < 2 ^ 31)
    : windowRow sw y visible w row px =
      if 0 ≤ w.x ∧ 0 ≤ w.y then
        if visible then w.over w.x w.y px y (row px) else row px
      else
        row px := by
  have hx := toInt32_toInt w.posX
  have hyy := toInt32_toInt w.posY
  have hxlt := w.posX.toNat_lt
  have hylt := w.posY.toNat_lt
  rw [windowRow_eq sw y visible w row hpx]
  by_cases hinner : 0 ≤ w.x ∧ 0 ≤ w.y
  . have hsame : w.x = w.posX.toNat ∧ w.y = w.posY.toNat := by
      unfold Window.x Window.y at hinner ⊢
      split at hx <;> split at hyy <;> omega
    rw [if_pos hinner, hsame.left, hsame.right]
  . have hfar : 2 ^ 31 ≤ w.posX.toNat ∨ 2 ^ 31 ≤ w.posY.toNat := by
      unfold Window.x Window.y at hinner
      split at hx <;> split at hyy <;> omega
    rw [if_neg hinner]
    split
    next =>
      unfold Window.over
      split
      next => rfl
      next => rw [if_neg (by omega)]
    next => rfl

section

variable (scene : Scene) {sw : Nat} {y px : Int} (hpx : 0 ≤ px ∧ px < sw) (hsw : sw < 2 ^ 31)
  (hy : y < 2 ^ 31)
include scene hpx hsw hy

theorem foldl_windowRow (nodes : List WinNode) (row : Int → Pixel)
    : nodes.foldl (fun row node => windowRow sw y (scene.visible node.id)
      (scene.window node.win) row) row px =
      (nodes.filter fun node => 0 ≤ (scene.window node.win).x ∧ 0 ≤ (scene.window node.win).y).foldl
      (fun d node =>
        let w := scene.window node.win
        if scene.visible node.id then w.over w.x w.y px y d else d) (row px) := by
  induction nodes generalizing row with
  | nil => rfl
  | cons node _ ih =>
    rw [List.foldl_cons, ih, windowRow_signed _ _ row hpx hsw hy]
    by_cases hinner : 0 ≤ (scene.window node.win).x ∧ 0 ≤ (scene.window node.win).y
    . rw [if_pos hinner, List.filter_cons_of_pos (by simpa using hinner), List.foldl_cons]
    . rw [if_neg hinner, List.filter_cons_of_neg (by simpa using hinner)]

theorem sceneRow_eq : sceneRow scene sw y px = scene.paint scene.inner px y := by
  have h := foldl_windowRow scene hpx hsw hy scene.nodes (backgroundRow scene y)
  unfold Scene.nodes at h
  rw [List.foldl_flatMap] at h
  exact h

end

/--
Every row is drawn by exactly one strip, and the screen outside the glyph shows the picture, if and
only if the windows off the left or the top edge do not show in it.
-/
theorem compose_eq_picture_iff (s : Screen) (scene : Scene) {n : Nat} {order : List Nat}
    (hn : 1 ≤ n) (horder : order.Perm (stripRows s.height n))
    : ((∀ y < s.height, ∃! i, i < n ∧ (strip s.height n i).Has y) ∧
        ∀ px py, s.OnScreen px py → ¬Inked s.curVisible s.curShape s.cur.x s.cur.y px py →
          (composeScreen s scene order).fb py px = scene.paint scene.nodes px py) ↔
      ∀ px py, s.OnScreen px py → ¬Inked s.curVisible s.curShape s.cur.x s.cur.y px py →
        scene.paint scene.inner px py = scene.paint scene.nodes px py := by
  have hfb : ∀ px py, s.OnScreen px py → ¬Inked s.curVisible s.curShape s.cur.x s.cur.y px py →
      (composeScreen s scene order).fb py px = scene.paint scene.inner px py := by
    intro px py hon hink
    have hlt := s.height_lt
    have hpy := hon.right
    rw [composeScreen_fb scene hn horder hon, glyphOver_of_not_inked hink,
      sceneRow_eq scene hon.left s.width_lt (by omega)]
  constructor
  . intro h px py hon hink
    rw [← hfb px py hon hink]
    exact h.right px py hon hink
  . intro h
    refine ⟨fun y hy => existsUnique_strip hn hy, ?_⟩
    intro px py hon hink
    rw [hfb px py hon hink]
    exact h px py hon hink

def whiteWindow (window : Window) : Scene where
  background := none
  layers := [⟨0, 0, [⟨0, 0⟩]⟩]
  visible := fun _ => true
  window := fun _ => window

def smallWindow : Window where
  posX := 1
  posY := 2
  sizeX := 2
  sizeY := 2
  fbAddr := some fun _ => 0xFFFFFFFF
  hasAlpha := true

def smallScreen : Screen := .init 4 4 (by decide) (by decide) fun _ _ => 0

theorem compose_eq_picture_iff_smallWindow
    : [2, 0, 3, 1].Perm (stripRows smallScreen.height 2) ∧
      ∀ px py, smallScreen.OnScreen px py →
        ¬Inked smallScreen.curVisible smallScreen.curShape smallScreen.cur.x
        smallScreen.cur.y px py →
          (composeScreen smallScreen (whiteWindow smallWindow) [2, 0, 3, 1]).fb py px =
            (whiteWindow smallWindow).paint (whiteWindow smallWindow).nodes px py := by
  have horder : [2, 0, 3, 1].Perm (stripRows smallScreen.height 2) := by decide +kernel
  have hinner : (whiteWindow smallWindow).inner = (whiteWindow smallWindow).nodes := by
    decide +kernel
  exact ⟨horder, ((compose_eq_picture_iff smallScreen (whiteWindow smallWindow)
    (by decide) horder).2
    (fun px py _ _ => by rw [hinner])).right⟩

/--
The window is dragged so far to the left that a column of it is off the screen.
-/
theorem compose_ne_picture
    : smallScreen.OnScreen 0 0
      ∧ ¬Inked smallScreen.curVisible smallScreen.curShape smallScreen.cur.x smallScreen.cur.y 0 0 ∧
      [2, 0, 3, 1].Perm (stripRows smallScreen.height 2) ∧
      (composeScreen smallScreen (whiteWindow (rzApply smallWindow 25 26)) [2, 0, 3, 1]).fb 0 0 ≠
        (whiteWindow (rzApply smallWindow 25 26)).paint
        (whiteWindow (rzApply smallWindow 25 26)).nodes 0 0 := by
  refine ⟨?_, ?_, ?_, ?_⟩
  . unfold Screen.OnScreen
    decide
  . decide +kernel
  . decide +kernel
  . decide +kernel

end Comp
