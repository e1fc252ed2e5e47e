import Skyline.Comp.Frame

/-!
This module contains when the cursor is drawn right.
-/

namespace Comp

variable {s s' : Screen}

def Screen.saved (s : Screen) (px py : Int) : Pixel :=
  s.cursorSave ((py - s.cursorSaveAt.y).toNat * cursorSaveMax + (px - s.cursorSaveAt.x).toNat)

variable {px py : Int} {p : Point}

theorem eraseRow_eq (s : Screen) (cy : Nat) (row : Int → Pixel) (hpx : 0 ≤ px ∧ px < s.width)
    : eraseRow s cy row px =
      if s.cursorSaveAt.x ≤ px ∧ px < s.cursorSaveAt.x + s.saveSize then
        s.cursorSave (cy * cursorSaveMax + (px - s.cursorSaveAt.x).toNat)
      else
        row px := by
  unfold eraseRow
  dsimp only
  rw [Loop.forRange_skip (fun cx => s.cursorSaveAt.x + (cx : Int)) _
    (fun cx _ => s.cursorSave (cy * cursorSaveMax + cx)), Loop.modify_row]
  split
  next => rw [if_neg (by omega)]
  next => rfl

theorem eraseCursor_fb (hvalid : s.cursorSaveValid = true) (hon : s.OnScreen px py)
    : (eraseCursor s).fb py px =
      if InSquare s.saveSize s.cursorSaveAt.x s.cursorSaveAt.y px py then
        s.saved px py
      else
        s.fb py px := by
  have hpy := hon.right
  unfold eraseCursor
  rw [if_neg (by simp [hvalid])]
  dsimp only
  rw [Loop.forRange_skip (fun cy => s.cursorSaveAt.y + (cy : Int)) _
    (fun cy row => eraseRow s cy row), Loop.modify_row]
  by_cases hin : s.cursorSaveAt.y ≤ py ∧ py < s.cursorSaveAt.y + s.saveSize
  . rw [if_pos hin, if_neg (by omega), eraseRow_eq s _ _ hon.left]
    by_cases hcol : s.cursorSaveAt.x ≤ px ∧ px < s.cursorSaveAt.x + s.saveSize
    . rw [if_pos hcol, if_pos ⟨hcol, hin⟩]
      rfl
    . rw [if_neg hcol, if_neg fun h => hcol h.left]
  . rw [if_neg hin, if_neg fun h => hin h.right]

theorem spanEqU32_iff {a : Int → Pixel} {d : Int} {b : Nat → Pixel} {words : Nat}
    : spanEqU32 a d b words = true ↔ ∀ i < words, a (d + i) = b i := by
  unfold spanEqU32
  simp

theorem publishRow_eq (s : Screen) (p : Point) (cy : Nat) (row : Int → Pixel)
    (hpx : 0 ≤ px ∧ px < s.width)
    : publishRow s p cy row px =
      if p.x ≤ px ∧ px < p.x + skyCurs then cursorCell s p cy (px - p.x).toNat else row px := by
  unfold publishRow
  generalize hxs : (if p.x < 0 then 0 else p.x) = xs
  generalize hxe
    : (if p.x + (skyCurs : Int) > s.width then (s.width : Int) else p.x + skyCurs) = xe
  have hrange : xs ≤ px ∧ px < xe ↔ p.x ≤ px ∧ px < p.x + skyCurs := by
    split at hxs <;> split at hxe <;> omega
  have hstart : p.x ≤ xs := by
    split at hxs <;> omega
  dsimp only
  by_cases hempty : xs ≥ xe
  . rw [if_pos hempty, if_neg (by omega)]
  . rw [if_neg hempty]
    by_cases hin : p.x ≤ px ∧ px < p.x + skyCurs
    . have hspan := hrange.2 hin
      have hindex : (xs - p.x).toNat + (px - xs).toNat = (px - p.x).toNat := by omega
      rw [if_pos hin]
      split
      next heq =>
        have hpixel := spanEqU32_iff.1 heq (px - xs).toNat (by omega)
        have hcast : xs + ((px - xs).toNat : Int) = px := by omega
        rw [hcast, hindex] at hpixel
        exact hpixel
      next => rw [copyRow, if_pos (by omega), hindex]
    . have hspan := mt hrange.1 hin
      rw [if_neg hin]
      split
      next => rfl
      next => rw [copyRow, if_neg (by omega)]

theorem cursorCell_eq (hon : s.OnScreen px py) (hx : p.x ≤ px) (hy : p.y ≤ py)
    : cursorCell s p (py - p.y).toNat (px - p.x).toNat =
      if s.curVisible then
        drawChar (glyphChar s.curShape (py - p.y).toNat (px - p.x).toNat) (s.fb py px)
      else
        s.fb py px := by
  have hrow : p.y + ((py - p.y).toNat : Int) = py := by omega
  have hcol : p.x + ((px - p.x).toNat : Int) = px := by omega
  have hpx := hon.left
  have hpy := hon.right
  unfold cursorCell
  dsimp only
  rw [hrow, hcol, if_neg (show ¬(py < 0 ∨ py ≥ s.height) by omega),
    if_pos (show px ≥ 0 ∧ px < s.width by omega)]

theorem blendCursorSquare_fb (p : Point) (hon : s.OnScreen px py)
    : (blendCursorSquare s p).fb py px =
      glyphOver s.curVisible s.curShape p.x p.y px py (s.fb py px) := by
  have hpx := hon.left
  have hpy := hon.right
  unfold blendCursorSquare glyphOver
  dsimp only
  rw [Loop.forRange_skip (fun cy => p.y + (cy : Int)) _ (fun cy row => publishRow s p cy row),
    Loop.modify_row]
  by_cases hin : p.y ≤ py ∧ py < p.y + skyCurs
  . rw [if_pos hin, if_neg (by omega), publishRow_eq s p _ _ hpx]
    by_cases hcol : p.x ≤ px ∧ px < p.x + skyCurs
    . have hsquare : InSquare skyCurs p.x p.y px py := ⟨hcol, hin⟩
      rw [if_pos hcol, cursorCell_eq hon hcol.left hin.left]
      cases s.curVisible with
      | true => rw [if_pos rfl, if_pos ⟨rfl, hsquare⟩]
      | false => rw [if_neg Bool.false_ne_true, if_neg fun h => Bool.false_ne_true h.left]
    . rw [if_neg hcol, if_neg fun h => hcol h.right.left]
  . rw [if_neg hin, if_neg fun h => hin h.right.right]

def Screen.Right (s : Screen) : Prop :=
  ∀ scene, s.scene = some scene → ∀ px py, s.OnScreen px py →
    s.fb py px = glyphOver s.curVisible s.curShape s.last.x s.last.y px py (scene py px)

def Screen.Bare (s : Screen) : Prop :=
  ∀ scene, s.scene = some scene → ∀ px py, s.OnScreen px py → s.fb py px = scene py px

/--
Whether neither the shape nor the visibility has changed since the cursor was drawn, at a place
that is not off the left or the top of the screen.
-/
def Screen.Placed (s : Screen) : Prop :=
  0 ≤ s.committed.x ∧ 0 ≤ s.committed.y

instance (s : Screen) : Decidable s.Placed :=
  inferInstanceAs (Decidable (_ ∧ _))

/--
The condition on a call: a frame either draws a row of the cursor or finds no snapshot that an
earlier frame has left, a move is the first one since a frame with the whole cursor on the screen
(a snapshot is left), and the shape changes only while the cursor is hidden.
-/
def Screen.Orderly (s : Screen) : Call → Prop
  | .compose _ _ _ =>
    s.cursorSaveValid = true →
      s.curVisible = true ∧ max 0 s.cur.y < min (s.height : Int) (s.cur.y + skyCurs)
  | .setCursor _ _ => True
  | .cursorMoveTo p =>
    s.Placed ∧ (p = s.committed ∨ s.curVisible = false ∨ s.cursorSaveValid = true)
  | .setCursorShape shape => s.Placed ∧ (shape = s.curShape ∨ s.curVisible = false)

instance (s : Screen) : (c : Call) → Decidable (s.Orderly c)
  | .compose _ _ _ => inferInstanceAs (Decidable (_ → _ ∧ _))
  | .setCursor _ _ => inferInstanceAs (Decidable True)
  | .cursorMoveTo _ => inferInstanceAs (Decidable (_ ∧ (_ ∨ _ ∨ _)))
  | .setCursorShape _ => inferInstanceAs (Decidable (_ ∧ (_ ∨ _)))

structure Screen.Ok (s : Screen) : Prop where
  right : s.checked = true → s.Right
  placed : s.Placed → s.Right ∧ s.last = s.committed
  here : s.cursorSaveValid = true → s.Placed → s.cursorSaveAt = s.committed
  size : s.cursorSaveValid = true → s.saveSize = skyCurs
  saved : s.cursorSaveValid = true → ∀ scene, s.scene = some scene → ∀ px py, s.OnScreen px py →
    InSquare skyCurs s.cursorSaveAt.x s.cursorSaveAt.y px py → s.saved px py = scene py px

theorem SameCursor.onScreen (h : SameCursor s s') : s'.OnScreen px py ↔ s.OnScreen px py := by
  unfold Screen.OnScreen
  rw [h.width, h.height]

theorem not_placed_nowhere (h : s.committed = .nowhere) : ¬s.Placed := by
  unfold Screen.Placed
  rw [h]
  decide

theorem eraseCursor_same (s : Screen)
    : SameCursor s (eraseCursor s) ∧ (eraseCursor s).scene = s.scene
      ∧ (eraseCursor s).cursorSaveValid = false := by
  unfold eraseCursor
  split
  next hvalid => exact ⟨⟨rfl, rfl, rfl, rfl, rfl⟩, rfl, hvalid⟩
  next => exact ⟨⟨rfl, rfl, rfl, rfl, rfl⟩, rfl, rfl⟩

/-
Outside of the snapshot's square there is nothing to erase: a visible cursor is drawn in the square
and a hidden one nowhere.
-/
theorem Screen.Ok.eraseCursor_bare (h : s.Ok) (hplaced : s.Placed)
    (hok : s.curVisible = false ∨ s.cursorSaveValid = true) : (eraseCursor s).Bare := by
  obtain ⟨hsame, hkept, -⟩ := eraseCursor_same s
  obtain ⟨hright, hlast⟩ := h.placed hplaced
  intro scene hscene px py hon
  rw [hkept] at hscene
  replace hon := hsame.onScreen.1 hon
  have hpixel := hright scene hscene px py hon
  cases hvalid : s.cursorSaveValid with
  | false =>
    have hhidden := hok.resolve_right (by rw [hvalid]; decide)
    unfold eraseCursor
    rw [if_pos hvalid, hpixel, glyphOver, if_neg fun hin => by simp [hhidden] at hin]
  | true =>
    rw [eraseCursor_fb hvalid hon, h.size hvalid]
    split
    next hin => exact h.saved hvalid scene hscene px py hon hin
    next hout =>
      rw [h.here hvalid hplaced, ← hlast] at hout
      rw [hpixel, glyphOver, if_neg fun hin => hout hin.right]

theorem Screen.Ok.paintSquareFromBack (h : s.Ok) (hplaced : s.Placed)
    : Comp.paintSquareFromBack s s.committed = eraseCursor s := by
  unfold Comp.paintSquareFromBack
  split
  next hvalid =>
    unfold eraseCursor
    rw [if_pos hvalid]
  next hvalid =>
    rw [Bool.not_eq_false] at hvalid
    rw [h.here hvalid hplaced, if_neg (by simp)]

theorem Screen.Bare.blendCursorSquare (h : s.Bare) (p : Point)
    : { blendCursorSquare s p with cur := p, committed := p, last := p }.Right := by
  intro scene hscene px py hon
  have hon' : s.OnScreen px py := hon
  show (Comp.blendCursorSquare s p).fb py px =
    glyphOver s.curVisible s.curShape p.x p.y px py (scene py px)
  rw [blendCursorSquare_fb p hon', h scene hscene px py hon']

theorem Screen.Ok.checked (h : s.Ok) (hplaced : s.Placed) : { s with checked := true }.Ok where
  right := fun _ => (h.placed hplaced).left
  placed := h.placed
  here := h.here
  size := h.size
  saved := h.saved

theorem Screen.Ok.cursorMoveTo (h : s.Ok) (hok : s.Orderly (.cursorMoveTo p))
    : (cursorMoveTo s p).Ok := by
  obtain ⟨hplaced, hok⟩ := hok
  replace h := h.checked hplaced
  unfold Comp.cursorMoveTo
  dsimp only
  split
  next => exact h
  next hmove =>
    have hne : p ≠ s.committed := fun heq => hmove (by rw [heq]; exact ⟨rfl, rfl⟩)
    have hold : (s.committed.x ≠ p.x ∨ s.committed.y ≠ p.y) ∧ s.committed.x ≥ 0 ∧
        s.committed.y ≥ 0 := ⟨by omega, hplaced⟩
    unfold overlayCursorFinal
    dsimp only
    rw [if_pos hold, h.paintSquareFromBack hplaced]
    have hright := (h.eraseCursor_bare hplaced (hok.resolve_left hne)).blendCursorSquare p
    have hvalid := (eraseCursor_same { s with checked := true }).right.right
    exact {
      right := fun _ => hright
      placed := fun _ => ⟨hright, rfl⟩
      here := fun hsaved => absurd (hvalid.symm.trans hsaved) Bool.false_ne_true
      size := fun hsaved => absurd (hvalid.symm.trans hsaved) Bool.false_ne_true
      saved := fun hsaved => absurd (hvalid.symm.trans hsaved) Bool.false_ne_true }

theorem Screen.Ok.setCursorShape {shape : UInt32} (h : s.Ok)
    (hok : s.Orderly (.setCursorShape shape)) : (setCursorShape s shape).Ok := by
  obtain ⟨hplaced, hok⟩ := hok
  have hright := (h.placed hplaced).left
  unfold Comp.setCursorShape
  dsimp only
  split
  next => exact h.checked hplaced
  next hnew =>
    have hhidden := hok.resolve_left hnew
    rw [if_neg (by rw [hhidden]; decide)]
    have hnowhere : ¬{ s with checked := true, curShape := shape, committed := .nowhere }.Placed :=
      not_placed_nowhere rfl
    refine ⟨?_, fun hplace => absurd hplace hnowhere, fun _ hplace => absurd hplace hnowhere,
      h.size, h.saved⟩
    -- A hidden cursor shows the same in either shape.
    have hnot : ∀ {shape x y px py}, ¬Inked s.curVisible shape x y px py :=
      fun hink => Bool.false_ne_true (hhidden.symm.trans hink.left.left)
    intro _ scene hscene px py hon
    show s.fb py px = glyphOver s.curVisible shape s.last.x s.last.y px py (scene py px)
    rw [hright scene hscene px py hon, glyphOver_of_not_inked hnot, glyphOver_of_not_inked hnot]

theorem Screen.Ok.setCursor (h : s.Ok) (p : Point) (visible : Bool)
    : (setCursor s p visible).Ok := by
  unfold Comp.setCursor
  dsimp only
  split
  next =>
    have hnowhere : ¬{ s with
        committed := .nowhere, cur := p, curVisible := visible, checked := false }.Placed :=
      not_placed_nowhere rfl
    exact ⟨fun hfalse => absurd hfalse Bool.false_ne_true, fun hplace => absurd hplace hnowhere,
      fun _ hplace => absurd hplace hnowhere, h.size, h.saved⟩
  next heq =>
    rw [Decidable.not_not] at heq
    refine ⟨fun hfalse => absurd hfalse Bool.false_ne_true,
      fun hplace => ⟨?_, (h.placed hplace).right⟩, h.here, h.size, h.saved⟩
    intro scene hscene px py hon
    show s.fb py px = glyphOver visible s.curShape s.last.x s.last.y px py (scene py px)
    rw [heq]
    exact (h.placed hplace).left scene hscene px py hon

theorem composeScreen_right (scene : Scene) {n : Nat} {order : List Nat} (hn : 1 ≤ n)
    (horder : order.Perm (stripRows s.height n)) : (composeScreen s scene order).Right := by
  have hsame := foldl_composeRow_same scene order s
  intro picture hsome px py hon
  have hon' : s.OnScreen px py := hsame.onScreen.1 hon
  cases hsome
  rw [composeScreen_fb scene hn horder hon']
  dsimp only [composeScreen, commitScene]
  rw [hsame.curVisible, hsame.curShape, hsame.cur]

def Screen.Whole (s : Screen) : Prop :=
  s.curVisible = true ∧ (0 ≤ s.cur.x ∧ s.cur.x + skyCurs ≤ s.width) ∧
    0 ≤ s.cur.y ∧ s.cur.y + skyCurs ≤ s.height

theorem Screen.Whole.saveOk (h : s.Whole) (gy : Nat) (hgy : gy < skyCurs) : saveOk s gy = true := by
  obtain ⟨-, hx, hy⟩ := h
  exact saveOk_iff.2 ⟨hx.left, hy.left, hx.right, hy.right, Nat.lt_trans hgy (by decide)⟩

theorem Screen.Whole.congr (h : s.Whole) (hsame : SameCursor s s') : s'.Whole := by
  unfold Screen.Whole
  rw [hsame.curVisible, hsame.cur, hsame.width, hsame.height]
  exact h

structure Screen.Snapped (s : Screen) : Prop where
  whole : s.Whole
  here : s.cursorSaveAt = s.cur
  len : s.cursorSaveLen = skyCurs

def Screen.DrawnAt (s : Screen) (y : Nat) : Prop :=
  s.curVisible = true ∧ (y : Int) ≥ s.cur.y ∧ (y : Int) < s.cur.y + skyCurs

section

variable (scene : Scene)
include scene

theorem composeRow_snapped {y : Nat} (hy : s.DrawnAt y)
    (hvalid : (composeRow scene s y).cursorSaveValid = true) : (composeRow scene s y).Snapped := by
  unfold Screen.DrawnAt at hy
  unfold composeRow cursorRow at hvalid ⊢
  rw [if_pos hy] at hvalid ⊢
  obtain ⟨hx, hy', hwidth, hheight, -⟩ := saveOk_iff.1 hvalid
  exact ⟨⟨hy.left, ⟨hx, hwidth⟩, hy', hheight⟩, rfl, rfl⟩

theorem composeRow_kept (h : s.cursorSaveValid = true → s.Snapped) (y : Nat)
    (hvalid : (composeRow scene s y).cursorSaveValid = true) : (composeRow scene s y).Snapped := by
  by_cases hy : s.DrawnAt y
  . exact composeRow_snapped scene hy hvalid
  . have hsame := composeRow_same scene s y
    unfold Screen.DrawnAt at hy
    unfold composeRow cursorRow at hvalid hsame ⊢
    rw [if_neg hy] at hvalid hsame ⊢
    have hsnap := h hvalid
    exact ⟨hsnap.whole.congr hsame, hsnap.here, hsnap.len⟩

theorem foldl_composeRow_snapped (order : List Nat)
    (h : (s.cursorSaveValid = true → s.Snapped) ∨ ∃ y ∈ order, s.DrawnAt y)
    (hvalid : (order.foldl (composeRow scene) s).cursorSaveValid = true)
    : (order.foldl (composeRow scene) s).Snapped := by
  induction order generalizing s with
  | nil => exact h.elim (fun h => h hvalid) fun ⟨y, hy, _⟩ => nomatch hy
  | cons first order ih =>
    have hsame := composeRow_same scene s first
    refine ih ?_ hvalid
    rcases h with h | ⟨y, hy, hrow⟩
    . exact .inl (composeRow_kept scene h first)
    . rcases List.mem_cons.1 hy with rfl | hy
      . exact .inl (composeRow_snapped scene hrow)
      . refine .inr ⟨y, hy, ?_⟩
        unfold Screen.DrawnAt
        rw [hsame.curVisible, hsame.cur]
        exact hrow

variable (h : s.Whole)
include h

theorem composeRow_save (y : Nat) {gy cx : Nat} (hgy : gy < skyCurs) (hcx : cx < skyCurs)
    : (composeRow scene s y).cursorSave (gy * cursorSaveMax + cx) =
      if (y : Int) = s.cur.y + gy then
        sceneRow scene s.width y (s.cur.x + cx)
      else
        s.cursorSave (gy * cursorSaveMax + cx) := by
  unfold composeRow cursorRow
  by_cases hrow : s.cur.y ≤ (y : Int) ∧ (y : Int) < s.cur.y + skyCurs
  . have hdrawn := cursorRow_drawn s ((y : Int) - s.cur.y).toNat (sceneRow scene s.width y)
    have hok := h.saveOk ((y : Int) - s.cur.y).toNat (by omega)
    rw [if_pos ⟨h.left, hrow⟩]
    by_cases heq : (y : Int) = s.cur.y + gy
    . have hindex : ((y : Int) - s.cur.y).toNat = gy := by omega
      rw [if_pos heq]
      rw [hindex] at hdrawn hok
      dsimp only
      rw [hindex]
      exact hdrawn.saved hok cx hcx
    . rw [if_neg heq]
      apply hdrawn.kept
      intro cx' hcx'
      have : gy ≠ ((y : Int) - s.cur.y).toNat := by omega
      unfold skyCurs at hcx hcx'
      unfold cursorSaveMax
      omega
  . rw [if_neg fun hcond => hrow hcond.right, if_neg (by omega)]

theorem foldl_composeRow_save (order : List Nat) (gy cx : Nat) (hgy : gy < skyCurs)
    (hcx : cx < skyCurs)
    : (order.foldl (composeRow scene) s).cursorSave (gy * cursorSaveMax + cx) =
      if (s.cur.y + gy).toNat ∈ order then
        sceneRow scene s.width (s.cur.y + gy) (s.cur.x + cx)
      else
        s.cursorSave (gy * cursorSaveMax + cx) := by
  have hy := h.right.right.left
  induction order generalizing s with
  | nil => rfl
  | cons first order ih =>
    have hsame := composeRow_same scene s first
    rw [List.foldl_cons, ih (h.congr hsame) (by rw [hsame.cur]; exact hy), hsame.cur, hsame.width]
    by_cases hin : (s.cur.y + gy).toNat ∈ order
    . rw [if_pos hin, if_pos (List.mem_cons_of_mem _ hin)]
    . rw [if_neg hin, composeRow_save scene h first hgy hcx]
      by_cases heq : (first : Int) = s.cur.y + gy
      . have hmem : (s.cur.y + gy).toNat ∈ first :: order := by
          rw [← heq, Int.toNat_natCast]
          exact List.mem_cons_self
        rw [if_pos heq, if_pos hmem, heq]
      . rw [if_neg heq, if_neg]
        rw [List.mem_cons]
        exact not_or.2 ⟨by omega, hin⟩

theorem foldl_composeRow_saved {order : List Nat} (horder : ∀ row < s.height, row ∈ order)
    (hhere : (order.foldl (composeRow scene) s).cursorSaveAt = s.cur) (hon : s.OnScreen px py)
    (hin : InSquare skyCurs s.cur.x s.cur.y px py)
    : (order.foldl (composeRow scene) s).saved px py = sceneRow scene s.width py px := by
  obtain ⟨hcol, hrow⟩ := hin
  have hheight := hon.right
  have hy : s.cur.y + ((py - s.cur.y).toNat : Int) = py := by omega
  have hx : s.cur.x + ((px - s.cur.x).toNat : Int) = px := by omega
  unfold Screen.saved
  rw [hhere, foldl_composeRow_save scene h order _ _ (by omega) (by omega), hy, hx,
    if_pos (horder py.toNat (by omega))]

end

theorem Screen.Ok.composeScreen {scene : Scene} {n : Nat} {order : List Nat} (hn : 1 ≤ n)
    (horder : order.Perm (stripRows s.height n)) (hok : s.Orderly (.compose scene n order))
    : (composeScreen s scene order).Ok := by
  have hsame := foldl_composeRow_same scene order s
  have hright := composeScreen_right scene hn horder
  have hmem : ∀ row < s.height, row ∈ order :=
    fun row hrow => horder.mem_iff.2 ((mem_stripRows hn).2 hrow)
  have hdrawn : (s.cursorSaveValid = true → s.Snapped) ∨ ∃ y ∈ order, s.DrawnAt y := by
    by_cases hvalid : s.cursorSaveValid = true
    . obtain ⟨hvisible, hrows⟩ := hok hvalid
      exact .inr ⟨s.cur.y.toNat, hmem _ (by omega), hvisible, by omega, by omega⟩
    . exact .inl fun h => absurd h hvalid
  have hsnap := foldl_composeRow_snapped scene order hdrawn
  refine ⟨fun _ => hright, fun _ => ⟨hright, rfl⟩, fun hvalid _ => (hsnap hvalid).here, ?_, ?_⟩
  . intro hvalid
    have hlen : (Comp.composeScreen s scene order).cursorSaveLen = skyCurs := (hsnap hvalid).len
    unfold Screen.saveSize
    rw [hlen]
    rfl
  . intro hvalid picture hsome px py hon hin
    cases hsome
    have hhere := (hsnap hvalid).here.trans hsame.cur
    have hwhole : s.Whole := by
      have hwhole := (hsnap hvalid).whole
      unfold Screen.Whole at hwhole ⊢
      rw [hsame.curVisible, hsame.cur, hsame.width, hsame.height] at hwhole
      exact hwhole
    refine foldl_composeRow_saved scene hwhole hmem hhere (hsame.onScreen.1 hon) ?_
    rw [← hhere]
    exact hin

theorem Screen.Ok.call {c : Call} (h : s.Ok) (hok : s.Orderly c) (hcall : s.call c = some s')
    : s'.Ok := by
  cases c with
  | compose scene =>
    simp only [Screen.call, Option.ite_none_right_eq_some, Option.some.injEq] at hcall
    obtain ⟨⟨hn, horder⟩, rfl⟩ := hcall
    exact .composeScreen hn horder hok
  | setCursor p visible =>
    cases hcall
    exact h.setCursor p visible
  | cursorMoveTo =>
    cases hcall
    exact h.cursorMoveTo hok
  | setCursorShape =>
    cases hcall
    exact h.setCursorShape hok

/--
After every `Compose`, `CursorMoveTo` and `SetCursorShape` the screen shows the last composed scene
with one glyph over it, in a run whose calls meet the condition.
-/
theorem cursor_right {width height : Nat} {width_lt : width < 2 ^ 31} {height_lt : height < 2 ^ 31}
    {fb : Int → Int → Pixel}
    (h : Steps.Reach Screen.call Screen.Orderly (.init width height width_lt height_lt fb) s)
    (hchecked : s.checked = true) : s.Right := by
  refine (h.invariant Screen.Ok ?_ fun _ _ _ => Screen.Ok.call).right hchecked
  have hnowhere : ¬(Screen.init width height width_lt height_lt fb).Placed := not_placed_nowhere rfl
  exact ⟨nofun, fun hplace => absurd hplace hnowhere, nofun, nofun, nofun⟩

def blankScene : Scene where
  background := none
  layers := []
  visible := fun _ => true
  window := fun _ => ⟨0, 0, 0, 0, none, false⟩

def wideScreen : Screen := .init 64 16 (by decide) (by decide) fun _ _ => 0

theorem column_range (x : Fin 64) : -2 ^ 31 ≤ (x : Int) ∧ (x : Int) + skyCurs < 2 ^ 31 := by
  unfold skyCurs
  omega

theorem top_range : -2 ^ 31 ≤ (0 : Int) ∧ (0 : Int) + skyCurs < 2 ^ 31 := by
  decide

def column (x : Fin 64) : Point :=
  ⟨x, 0, column_range x, top_range⟩

def frame (x : Fin 64) : List Call :=
  [.setCursor (column x) true, .compose blankScene 2 (List.range 16)]

/--
The cursor is moved after each of two frames, and the second one is drawn at the right edge.
-/
theorem cursor_right_firstMove
    : ∃ s, Steps.Reach Screen.call Screen.Orderly wideScreen s ∧
      (s.last = column 5 ∧ s.checked = true ∧ s.Right) := by
  obtain ⟨s, hreach, hlast, hchecked⟩ := Steps.Reach.exists_of_run Screen.call Screen.Orderly
    wideScreen
    (frame 0 ++ [.cursorMoveTo (column 16)] ++ frame 48 ++
      [.cursorMoveTo (column 48), .cursorMoveTo (column 5), .setCursorShape 0])
    (fun s => s.last = column 5 ∧ s.checked = true)
    (by decide +kernel)
  exact ⟨s, hreach, hlast, hchecked, cursor_right hreach hchecked⟩

/--
It is moved twice after one.
-/
theorem cursor_left_behind
    : ∃ s, Steps.Reach Screen.call (fun _ _ => True) wideScreen s ∧
      (s.checked = true ∧ ¬s.Right) := by
  obtain ⟨s, hreach, hchecked, hscene, hpixel, hsize⟩ :=
    Steps.Reach.exists_of_run Screen.call (fun _ _ => True) wideScreen
    (frame 0 ++ [.cursorMoveTo (column 16), .cursorMoveTo (column 32)])
    (fun s => s.checked = true ∧ s.scene.map (fun scene => scene 0 16) = some 0 ∧
      s.fb 0 16 ≠ glyphOver s.curVisible s.curShape s.last.x s.last.y 16 0 0 ∧
      s.width = 64 ∧ s.height = 16)
    (by decide +kernel)
  refine ⟨s, hreach, hchecked, fun hright => hpixel ?_⟩
  obtain ⟨scene, hsome, hzero⟩ := Option.map_eq_some_iff.1 hscene
  rw [hright scene hsome 16 0 (by unfold Screen.OnScreen; omega), hzero]

end Comp
