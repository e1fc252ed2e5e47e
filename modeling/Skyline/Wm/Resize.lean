import Mathlib

/-!
This module contains `wm_client_resize_drag` of `wm_client.cpp` with the preview that it paints.
-/

namespace Wm

def shadow : Nat := 26
def minW : Nat := 340
def minH : Nat := 220
def titleH : Nat := 32
def radius : Nat := 8

/--
An `int32_t` that is small enough for the sums of `wm_client_resize_drag`.
-/
abbrev Coord := { v : Int // -2 ^ 28 ≤ v ∧ v < 2 ^ 28 }

structure Axis where
  pos : Int
  size : Int
deriving DecidableEq

structure Axis.Within (a : Axis) (bound : Int) : Prop where
  pos : -bound ≤ a.pos ∧ a.pos < bound
  size : -bound ≤ a.size ∧ a.size < bound

/--
The lines of `wm_client_resize_drag` for one axis. Its edges at the low and the high end are dragged
by `d`.
-/
def resizeAxis (low high : Bool) (rs : Axis) (d min max : Int) : Axis :=
  let n := if high then rs.size + d else rs.size
  let n := if low then rs.size - d else n
  let p := if low then rs.pos + d else rs.pos
  let p := if n < min ∧ low then p - (min - n) else p
  let n := if n < min then min else n
  let n := if n > max then max else n
  if p < -shadow then
    ⟨-shadow, if n + (p + shadow) < min then min else n + (p + shadow)⟩
  else
    ⟨p, n⟩

structure Client where
  rsX : Axis
  rsY : Axis
  rsX_within : rsX.Within (2 ^ 28)
  rsY_within : rsY.Within (2 ^ 28)
  rsMX : Coord
  rsMY : Coord
  rzDir : BitVec 8
  placeW : Nat
  placeH : Nat

structure Preview where
  pitch : Nat
  rows : Nat

def rzPrepare (preview : Option Preview) (pitch rows : Nat) (malloc : Bool) : Option Preview :=
  match preview with
  | some p =>
    if p.pitch ≥ pitch ∧ p.rows ≥ rows then some p
    else if malloc then some ⟨pitch, rows⟩
    else none
  | none => if malloc then some ⟨pitch, rows⟩ else none

def rect (pitch y h x w : Nat) : List Nat :=
  (List.range h).flatMap fun r => (List.range w).map fun c => (y + r) * pitch + (x + c)

def rzMirror (pitch nw nh : Nat) (c : Client) : List Nat :=
  rect pitch (shadow + titleH)
    (min (nh - titleH - radius) (c.placeH - 2 * shadow - titleH - radius)) shadow
    (min nw (c.placeW - 2 * shadow))

def rzPaintLive (pitch nw nh : Nat) (c : Client) : List Nat :=
  List.range (pitch * (nh + 2 * shadow)) ++ rect pitch shadow nh shadow nw
    ++ (rect pitch shadow 1 shadow nw ++ rect pitch (shadow + nh - 1) 1 shadow nw)
    ++ (rect pitch shadow nh shadow 1 ++ rect pitch shadow nh (shadow + nw - 1) 1)
    ++ rect pitch shadow (min titleH nh) shadow nw ++ rzMirror pitch nw nh c

def Client.dragX (c : Client) (mx scrW : Coord) : Axis :=
  resizeAxis (c.rzDir.getLsbD 0) (c.rzDir.getLsbD 1) c.rsX (mx - c.rsMX) minW scrW

def Client.dragY (c : Client) (my scrH taskbarH : Coord) : Axis :=
  resizeAxis (c.rzDir.getLsbD 2) (c.rzDir.getLsbD 3) c.rsY (my - c.rsMY) minH (scrH - taskbarH)

/--
The preview that is painted and what is written of it.
-/
def resizeDrag (c : Client) (mx my scrW scrH taskbarH : Coord) (preview : Option Preview)
    (malloc : Bool) : Option (Preview × List Nat) :=
  let x := c.dragX mx scrW
  let y := c.dragY my scrH taskbarH
  if x.size = c.placeW - 2 * shadow ∧ y.size = c.placeH - 2 * shadow then
    none
  else
    let pitch := (scrW + 2 * shadow : Int).toNat
    (rzPrepare preview pitch (scrH - taskbarH + 2 * shadow : Int).toNat malloc).map fun p =>
      (p, rzPaintLive pitch x.size.toNat y.size.toNat c)

@[mk_iff]
structure AxisRight (low high : Bool) (rs : Axis) (min max : Int) (a : Axis) : Prop where
  least : min ≤ a.size
  most : a.size ≤ max
  margin : -shadow ≤ a.pos
  fixedHigh : low = true → a.pos + a.size = rs.pos + rs.size
  fixedLow : high = true → a.pos = rs.pos

structure Right (c : Client) (mx my scrW scrH taskbarH : Coord) (preview : Option Preview)
    (malloc : Bool) : Prop where
  x : AxisRight (c.rzDir.getLsbD 0) (c.rzDir.getLsbD 1) c.rsX minW scrW (c.dragX mx scrW)
  y : AxisRight (c.rzDir.getLsbD 2) (c.rzDir.getLsbD 3) c.rsY minH (scrH - taskbarH)
    (c.dragY my scrH taskbarH)
  painted : ∀ p cells, resizeDrag c mx my scrW scrH taskbarH preview malloc = some (p, cells)
    → ∀ i ∈ cells, i < p.pitch * p.rows

structure Fits (rs : Axis) (max : Int) : Prop where
  pos : 0 ≤ rs.pos
  size : 0 ≤ rs.size
  fits : rs.pos + rs.size ≤ max

/--
If the edge at the low end is dragged, the place up to the other edge is not too small, and the size
that the mouse asks for is not too large, or there is just the place for the least size.
-/
def AxisOk (low high : Bool) (rs : Axis) (d min max : Int) : Prop :=
  min ≤ max ∧ (low = true → min ≤ rs.pos + rs.size + shadow
    ∧ (rs.size - d ≤ max ∨ min = rs.pos + rs.size + shadow)
    ∧ (high = true → rs.size - d < min ∧ rs.size = min ∨ d = 0 ∧ min ≤ rs.size))

/-
The sums before the clamps are those of three coordinates, and the clamps add two more at most.
-/
theorem resizeAxis_within (low high : Bool) {rs : Axis} {d min max : Int}
    (hrs : rs.Within (2 ^ 28)) (hd : -2 ^ 29 ≤ d ∧ d < 2 ^ 29) (hmin : 0 ≤ min ∧ min < 2 ^ 28)
    (hmax : -2 ^ 29 ≤ max ∧ max < 2 ^ 29) : (resizeAxis low high rs d min max).Within (2 ^ 31) := by
  obtain ⟨hpos, hsize⟩ := hrs
  have hshadow : shadow = 26 := rfl
  unfold resizeAxis
  cases low <;> cases high <;>
    simp only [Bool.false_eq_true, and_false, and_true, if_true, if_false]
  all_goals split_ifs <;> constructor <;> dsimp only <;> omega

theorem Client.drag_within (c : Client) (mx my scrW scrH taskbarH : Coord)
    : (c.dragX mx scrW).Within (2 ^ 31) ∧ (c.dragY my scrH taskbarH).Within (2 ^ 31) := by
  have hmouse := And.intro c.rsMX.property c.rsMY.property
  have hscreen := And.intro scrW.property (And.intro scrH.property taskbarH.property)
  have hto := And.intro mx.property my.property
  constructor
  . exact resizeAxis_within _ _ c.rsX_within (by omega) (by decide) (by omega)
  . exact resizeAxis_within _ _ c.rsY_within (by omega) (by decide) (by omega)

theorem resizeAxis_right_iff (low high : Bool) {rs : Axis} {d min max : Int} (h : Fits rs max)
    : AxisRight low high rs min max (resizeAxis low high rs d min max)
      ↔ AxisOk low high rs d min max := by
  obtain ⟨hpos, hsize, hfits⟩ := h
  have hshadow : shadow = 26 := rfl
  rw [axisRight_iff]
  unfold resizeAxis AxisOk
  -- which edges are dragged, and which of the clamps apply
  cases low <;> cases high <;>
    simp only [Bool.false_eq_true, and_false, and_true, eq_self, if_true, if_false, true_implies,
      false_implies]
  all_goals split_ifs <;> simp only [true_and, and_true] <;> omega

theorem lt_of_mem_rect {pitch y h x w rows i : Nat} (hy : y + h ≤ rows) (hx : x + w ≤ pitch)
    (hi : i ∈ rect pitch y h x w) : i < pitch * rows := by
  simp only [rect, List.mem_flatMap, List.mem_map, List.mem_range] at hi
  obtain ⟨r, hr, c, hc, rfl⟩ := hi
  calc (y + r) * pitch + (x + c)
    _ < (y + r) * pitch + pitch := by omega
    _ = pitch * (y + r + 1) := by rw [Nat.mul_comm, Nat.mul_succ]
    _ ≤ pitch * rows := Nat.mul_le_mul_left pitch (by omega)

theorem lt_of_mem_rzPaintLive {pitch nw nh rows i : Nat} {c : Client} (hw : 0 < nw)
    (hh : titleH < nh) (hpitch : nw + 2 * shadow ≤ pitch) (hrows : nh + 2 * shadow ≤ rows)
    (hi : i ∈ rzPaintLive pitch nw nh c) : i < pitch * rows := by
  simp only [rzPaintLive, rzMirror, List.mem_append, List.mem_range] at hi
  unfold titleH shadow at *
  rcases hi with ((((hi | hi) | hi | hi) | hi | hi) | hi) | hi
  . exact Nat.lt_of_lt_of_le hi (Nat.mul_le_mul_left pitch hrows)
  all_goals exact lt_of_mem_rect (by omega) (by omega) hi

theorem rzPrepare_size {preview : Option Preview} {pitch rows : Nat} {malloc : Bool} {p : Preview}
    (h : rzPrepare preview pitch rows malloc = some p) : pitch * rows ≤ p.pitch * p.rows := by
  unfold rzPrepare at h
  split at h
  . split at h
    next hbig =>
      cases h
      exact Nat.mul_le_mul hbig.1 hbig.2
    next =>
      split at h <;> cases h
      exact Nat.le_refl _
  . split at h <;> cases h
    exact Nat.le_refl _

/--
The geometry of a drag keeps to the bounds and leaves the opposite edges where they are, and the
preview is painted inside its buffer, if and only if the condition holds for both axes.
-/
theorem drag_right_iff (c : Client) (mx my scrW scrH taskbarH : Coord) (preview : Option Preview)
    (malloc : Bool) (hx : Fits c.rsX scrW) (hy : Fits c.rsY (scrH - taskbarH))
    : Right c mx my scrW scrH taskbarH preview malloc
      ↔ AxisOk (c.rzDir.getLsbD 0) (c.rzDir.getLsbD 1) c.rsX (mx - c.rsMX) minW scrW
        ∧ AxisOk (c.rzDir.getLsbD 2) (c.rzDir.getLsbD 3) c.rsY (my - c.rsMY) minH
          (scrH - taskbarH) := by
  rw [← resizeAxis_right_iff _ _ hx, ← resizeAxis_right_iff _ _ hy]
  refine ⟨fun h => ⟨h.x, h.y⟩, fun h => ⟨h.1, h.2, fun p cells hdrag i hi => ?_⟩⟩
  have hw : minW ≤ (c.dragX mx scrW).size ∧ (c.dragX mx scrW).size ≤ scrW :=
    ⟨h.1.least, h.1.most⟩
  have hh : minH ≤ (c.dragY my scrH taskbarH).size
      ∧ (c.dragY my scrH taskbarH).size ≤ scrH - taskbarH := ⟨h.2.least, h.2.most⟩
  have htitle : titleH = 32 := rfl
  unfold minW at hw
  unfold minH at hh
  simp only [resizeDrag, Option.ite_none_left_eq_some, Option.map_eq_some_iff,
    Prod.mk.injEq] at hdrag
  obtain ⟨-, _, hprepare, rfl, rfl⟩ := hdrag
  apply Nat.lt_of_lt_of_le _ (rzPrepare_size hprepare)
  apply lt_of_mem_rzPaintLive _ _ _ _ hi <;> omega

def coord (n : Fin 2048) : Coord := ⟨n, by omega⟩

def onScreen (dir : BitVec 8) (x w grab : Fin 2048) : Client where
  rsX := ⟨x, w⟩
  rsY := ⟨100, 400⟩
  rsX_within := ⟨(coord x).property, (coord w).property⟩
  rsY_within := ⟨by decide, by decide⟩
  rsMX := coord grab
  rsMY := coord 300
  rzDir := dir
  placeW := 692
  placeH := 532

theorem drag_right_rightEdge
    : Right (onScreen 2 100 640 740) (coord 790) (coord 300) (coord 1024) (coord 768) (coord 48)
      none true :=
  (drag_right_iff (onScreen 2 100 640 740) (coord 790) (coord 300) (coord 1024) (coord 768)
    (coord 48) none true ⟨by decide, by decide, by decide⟩ ⟨by decide, by decide, by decide⟩).mpr
    ⟨⟨by decide, nofun⟩, by decide, nofun⟩

/--
The window is as wide as the screen. Its left edge is grabbed at 7 and dragged to the edge of the
screen, and the right one follows.
-/
theorem drag_moves_rightEdge
    : (onScreen 1 0 1024 7).dragX (coord 0) (coord 1024) = ⟨-7, 1024⟩
      ∧ ¬ Right (onScreen 1 0 1024 7) (coord 0) (coord 300) (coord 1024) (coord 768) (coord 48)
        none true := by
  refine ⟨by decide, fun h => ?_⟩
  exact absurd (h.x.fixedHigh rfl) (by decide)

end Wm
