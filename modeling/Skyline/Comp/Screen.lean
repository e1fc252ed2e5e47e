import Skyline.Comp.Blend
import Skyline.Comp.Registry

/-!
This module contains the drawing of `window.cpp`.
-/

namespace Comp

open Function

structure Window where
  posX : UInt32
  posY : UInt32
  sizeX : UInt32
  sizeY : UInt32
  fbAddr : Option (Nat → Pixel)
  hasAlpha : Bool

def skywinShadow : Int := 26

def rzApply (w : Window) (nx ny : Int) : Window :=
  { w with posX := .ofInt (nx - skywinShadow), posY := .ofInt (ny - skywinShadow) }

structure Scene where
  background : Option (Int → Int → Pixel)
  layers : List Layer
  visible : Nat → Bool
  window : Nat → Window

def windowRow (sw : Nat) (y : Int) (visible : Bool) (w : Window) (row : Int → Pixel)
    : Int → Pixel :=
  match w.fbAddr with
  | none => row
  | some fbAddr =>
    let posX : Int := w.posX.toNat
    let posY : Int := w.posY.toNat
    if visible = false then
      row
    else if y < posY then
      row
    else if y ≥ posY + w.sizeY.toNat then
      row
    else
      let cx0 := max posX 0
      let cx1 := min (posX + w.sizeX.toNat) sw
      if cx0 ≥ cx1 then
        row
      else
        let cw := (cx1 - cx0).toNat
        let sy := (y - posY).toNat
        let sx := (cx0 - posX).toNat
        let sline := fun i => fbAddr (sy * w.sizeX.toNat + sx + i)
        if w.hasAlpha then blendRowArgb row cx0 sline cw else copyRow row cx0 sline 0 cw

def backgroundRow (scene : Scene) (y : Int) : Int → Pixel :=
  match scene.background with
  | some background => background y
  | none => fun _ => 0

def sceneRow (scene : Scene) (sw : Nat) (y : Int) : Int → Pixel :=
  scene.layers.foldl (fun row layer =>
    layer.nodes.foldl
      (fun row node => windowRow sw y (scene.visible node.id) (scene.window node.win) row) row)
    (backgroundRow scene y)

def kCursorArrow : List String :=
  [ "*...............",
    "**..............",
    "*O*.............",
    "*OO*............",
    "*OOO*...........",
    "*OOOO*..........",
    "*OOOOO*.........",
    "*OOOOOO*........",
    "*OOOOOOO*.......",
    "*OOOO*****......",
    "*OO*O*..........",
    "*O*.*O*.........",
    "**..*O*.........",
    "*....*O*........",
    ".....*O*........",
    "......*........." ]

def kCursorSizeDiag : List String :=
  [ ".....*..........",
    "....**..........",
    "...*O*..........",
    "..*OO*..........",
    ".*OOO*..........",
    "*OOOO*...*......",
    "*OOOO*.***......",
    "*OOOO*O*O*......",
    ".*OOO**O*O*.....",
    "..*OO*.*O*O*....",
    "...*O*..*O*O*...",
    "....*....*O*O*..",
    "..........*O*...",
    "...........*....",
    "................",
    "................" ]

def kCursorSizeHorz : List String :=
  [ "................",
    "................",
    "................",
    ".......*........",
    "......*O*.......",
    "..*..*OO*..*....",
    ".*O**OOOO**O*...",
    "*OOOOOO*OOOOO*..",
    ".*O**OOOO**O*...",
    "..*..*OO*..*....",
    "......*O*.......",
    ".......*........",
    "................",
    "................",
    "................",
    "................" ]

def kCursorSizeVert : List String :=
  [ ".......*........",
    "......*O*.......",
    ".....*OO*.......",
    "....*OOO*.......",
    ".....*OO*.......",
    "......*O*.......",
    "......*O*.......",
    "......*O*.......",
    "......*O*.......",
    "......*O*.......",
    "......*O*.......",
    "......*O*.......",
    ".....*OO*.......",
    "....*OOO*.......",
    ".....*OO*.......",
    "......*........." ]

def cursorGlyph (shape : UInt32) : List String :=
  if shape = 1 then
    kCursorSizeDiag
  else if shape = 2 then
    kCursorSizeHorz
  else if shape = 3 then
    kCursorSizeVert
  else
    kCursorArrow

def glyphChar (shape : UInt32) (gy cx : Nat) : Char :=
  ((cursorGlyph shape).getD gy "").toList.getD cx '.'

def drawChar (c : Char) (p : Pixel) : Pixel :=
  if c = '*' then 0xFF000000 else if c = 'O' then 0xFFFFFFFF else p

def skyCurs : Nat := 16

def cursorSaveMax : Nat := 32

/--
The coordinates are those of an `int32_t` to which the size of the cursor can be added.
-/
structure Point where
  x : Int
  y : Int
  x_range : -2 ^ 31 ≤ x ∧ x + skyCurs < 2 ^ 31
  y_range : -2 ^ 31 ≤ y ∧ y + skyCurs < 2 ^ 31
deriving DecidableEq

def Point.nowhere : Point := ⟨-1, -1, by decide, by decide⟩

structure Screen where
  width : Nat
  height : Nat
  width_lt : width < 2 ^ 31
  height_lt : height < 2 ^ 31
  fb : Int → Int → Pixel
  cur : Point
  curVisible : Bool
  curShape : UInt32
  committed : Point
  cursorSave : Nat → Pixel
  cursorSaveAt : Point
  cursorSaveValid : Bool
  cursorSaveLen : Nat
  scene : Option (Int → Int → Pixel)
  last : Point
  checked : Bool

def Screen.init (width height : Nat) (width_lt : width < 2 ^ 31) (height_lt : height < 2 ^ 31)
    (fb : Int → Int → Pixel) : Screen where
  width
  height
  width_lt
  height_lt
  fb
  cur := ⟨0, 0, by decide, by decide⟩
  curVisible := false
  curShape := 0
  committed := .nowhere
  cursorSave := fun _ => 0
  cursorSaveAt := .nowhere
  cursorSaveValid := false
  cursorSaveLen := 0
  scene := none
  last := .nowhere
  checked := false

def saveOk (s : Screen) (gy : Nat) : Bool :=
  s.cur.x ≥ 0 ∧ s.cur.y ≥ 0 ∧ s.cur.x + skyCurs ≤ s.width ∧ s.cur.y + skyCurs ≤ s.height
  ∧ gy < cursorSaveMax

def cursorPixel (s : Screen) (gy cx : Nat) (cur : (Nat → Pixel) × (Int → Pixel))
    : (Nat → Pixel) × (Int → Pixel) :=
  let (save, row) := cur
  let px := s.cur.x + cx
  if px < 0 ∨ px ≥ s.width then
    cur
  else
    (if saveOk s gy ∧ cx < cursorSaveMax then
        update save (gy * cursorSaveMax + cx) (row px)
      else
        save,
      update row px (drawChar (glyphChar s.curShape gy cx) (row px)))

def cursorRow (s : Screen) (y : Int) (row : Int → Pixel) : Screen × (Int → Pixel) :=
  if s.curVisible ∧ y ≥ s.cur.y ∧ y < s.cur.y + skyCurs then
    let gy := (y - s.cur.y).toNat
    let (cursorSave, row) := Loop.forRange (cursorPixel s gy) 0 skyCurs (s.cursorSave, row)
    ({ s with
      cursorSave
      cursorSaveAt := s.cur
      cursorSaveLen := skyCurs
      cursorSaveValid := saveOk s gy }, row)
  else
    (s, row)

def composeRow (scene : Scene) (s : Screen) (y : Nat) : Screen :=
  let (s, row) := cursorRow s y (sceneRow scene s.width y)
  { s with fb := update s.fb y (copyRow (s.fb y) 0 (fun x => row x) 0 s.width) }

def commitScene (s : Screen) : Screen :=
  { s with committed := s.cur, last := s.cur }

def composeScreen (s : Screen) (scene : Scene) (order : List Nat) : Screen :=
  { commitScene (order.foldl (composeRow scene) s) with
    scene := some fun y x => sceneRow scene s.width y x
    checked := true }

def Screen.saveSize (s : Screen) : Nat :=
  if s.cursorSaveLen ≠ 0 then s.cursorSaveLen else skyCurs

def eraseRow (s : Screen) (cy : Nat) (row : Int → Pixel) : Int → Pixel :=
  Loop.forRange (fun cx row =>
    let px := s.cursorSaveAt.x + cx
    if px < 0 ∨ px ≥ s.width then
      row
    else
      update row px (s.cursorSave (cy * cursorSaveMax + cx))) 0 s.saveSize row

def eraseCursor (s : Screen) : Screen :=
  if s.cursorSaveValid = false then
    s
  else
    { s with
      cursorSaveValid := false
      fb := Loop.forRange (fun cy fb =>
        let py := s.cursorSaveAt.y + cy
        if py < 0 ∨ py ≥ s.height then
          fb
        else
          update fb py (eraseRow s cy (fb py))) 0 s.saveSize s.fb }

def paintSquareFromBack (s : Screen) (p : Point) : Screen :=
  if s.cursorSaveValid = false then
    s
  else if p.x ≠ s.cursorSaveAt.x ∨ p.y ≠ s.cursorSaveAt.y then
    s
  else
    eraseCursor s

def cursorCell (s : Screen) (p : Point) (cy cx : Nat) : Pixel :=
  let py := p.y + cy
  let px := p.x + cx
  let backdrop :=
    if py < 0 ∨ py ≥ s.height then 0 else if px ≥ 0 ∧ px < s.width then s.fb py px else 0
  if s.curVisible then drawChar (glyphChar s.curShape cy cx) backdrop else backdrop

def spanEqU32 (a : Int → Pixel) (d : Int) (b : Nat → Pixel) (words : Nat) : Bool :=
  (List.range words).all fun i => a (d + i) = b i

def publishRow (s : Screen) (p : Point) (cy : Nat) (row : Int → Pixel) : Int → Pixel :=
  let xs := if p.x < 0 then 0 else p.x
  let xe := if p.x + skyCurs > s.width then (s.width : Int) else p.x + skyCurs
  if xs ≥ xe then
    row
  else
    let src := fun i => cursorCell s p cy ((xs - p.x).toNat + i)
    if spanEqU32 row xs src (xe - xs).toNat then row else copyRow row xs src 0 (xe - xs).toNat

def blendCursorSquare (s : Screen) (p : Point) : Screen :=
  { s with
    fb := Loop.forRange (fun cy fb =>
      let py := p.y + cy
      if py < 0 ∨ py ≥ s.height then
        fb
      else
        update fb py (publishRow s p cy (fb py))) 0 skyCurs s.fb }

def overlayCursorFinal (s : Screen) (o n : Point) : Screen :=
  let s := if (o.x ≠ n.x ∨ o.y ≠ n.y) ∧ o.x ≥ 0 ∧ o.y ≥ 0 then paintSquareFromBack s o else s
  { blendCursorSquare s n with cur := n, committed := n, last := n }

def setCursor (s : Screen) (p : Point) (visible : Bool) : Screen :=
  let s := if visible ≠ s.curVisible then { s with committed := .nowhere } else s
  { s with cur := p, curVisible := visible, checked := false }

def cursorMoveTo (s : Screen) (p : Point) : Screen :=
  let s := { s with checked := true }
  if p.x = s.committed.x ∧ p.y = s.committed.y then s else overlayCursorFinal s s.committed p

def setCursorShape (s : Screen) (shape : UInt32) : Screen :=
  let s := { s with checked := true }
  if shape = s.curShape then
    s
  else
    let s := { s with curShape := shape, committed := .nowhere }
    if s.curVisible then blendCursorSquare s s.cur else s

inductive Call where
  | compose (scene : Scene) (n : Nat) (order : List Nat)
  | setCursor (p : Point) (visible : Bool)
  | cursorMoveTo (p : Point)
  | setCursorShape (shape : UInt32)

def Screen.call (s : Screen) : Call → Option Screen
  | .compose scene n order =>
    if 1 ≤ n ∧ order.Perm (stripRows s.height n) then some (composeScreen s scene order) else none
  | .setCursor p visible => some (setCursor s p visible)
  | .cursorMoveTo p => some (cursorMoveTo s p)
  | .setCursorShape shape => some (setCursorShape s shape)

end Comp
