import Mathlib

/-!
This module contains the red-black trees of `rbtree.h`.
-/

namespace RBTree

inductive Color where
  | red
  | black
deriving DecidableEq

inductive Tree (α : Type) where
  | nil
  | node (color : Color) (left : Tree α) (x : α) (right : Tree α)

inductive Frame (α : Type) where
  | left (color : Color) (x : α) (right : Tree α)
  | right (color : Color) (left : Tree α) (x : α)

variable {α : Type}

namespace Tree

def toList : Tree α → List α
  | nil => []
  | node _ l x r => l.toList ++ x :: r.toList

def isRed : Tree α → Bool
  | node .red _ _ _ => true
  | _ => false

def setColor (color : Color) : Tree α → Tree α
  | nil => nil
  | node _ l x r => node color l x r

def rotateLeft : Tree α → Tree α
  | node c l x (node d rl y rr) => node d (node c l x rl) y rr
  | t => t

def rotateRight : Tree α → Tree α
  | node c (node d ll y lr) x r => node d ll y (node c lr x r)
  | t => t

def setRight (color : Color) : Tree α → Tree α
  | nil => nil
  | node c l x r => node c l x (r.setColor color)

def setLeft (color : Color) : Tree α → Tree α
  | nil => nil
  | node c l x r => node c (l.setColor color) x r

end Tree

namespace Frame

def color : Frame α → Color
  | left c _ _ => c
  | right c _ _ => c

def x : Frame α → α
  | left _ x _ => x
  | right _ _ x => x

def plug : Frame α → Tree α → Tree α
  | left c x r, t => .node c t x r
  | right c l x, t => .node c l x t

end Frame

def plug (path : List (Frame α)) (t : Tree α) : Tree α := path.foldl (fun t f => f.plug t) t

open RBTree.Tree

def descend (lt : α → α → Bool) (x : α) : Tree α → List (Frame α) → List (Frame α)
  | nil, path => path
  | node c l y r, path =>
    if lt x y then
      descend lt x l (.left c y r :: path)
    else
      descend lt x r (.right c l y :: path)

def insertFixup (t : Tree α) : List (Frame α) → Tree α
  | [] => t.setColor .black
  | [f] => (f.plug t).setColor .black
  | parent :: grandparent :: path =>
    if parent.color = .black then
      (plug (parent :: grandparent :: path) t).setColor .black
    else
      match grandparent with
      | .left _ y uncle =>
        if uncle.isRed then
          insertFixup (node .red ((parent.plug t).setColor .black) y (uncle.setColor .black)) path
        else
          -- afterwards the root of `top` is the parent of the node
          let top :=
            match parent with
            | .left .. => parent.plug t
            | .right .. => (parent.plug t).rotateLeft
          (plug path (node .red (top.setColor .black) y uncle).rotateRight).setColor .black
      | .right _ uncle y =>
        if uncle.isRed then
          insertFixup (node .red (uncle.setColor .black) y ((parent.plug t).setColor .black)) path
        else
          let top :=
            match parent with
            | .right .. => parent.plug t
            | .left .. => (parent.plug t).rotateRight
          (plug path (node .red uncle y (top.setColor .black)).rotateLeft).setColor .black

def insertRaw (lt : α → α → Bool) (x : α) (t : Tree α) : Tree α :=
  insertFixup (node .red nil x nil) (descend lt x t [])

def lendRight (t : Tree α) (color : Color) (x : α) (sibling : Tree α) (path : List (Frame α))
    : Tree α :=
  let sibling :=
    match sibling with
    | node _ sl y sr =>
      if sr.isRed then
        node color sl y (sr.setColor .black)
      else
        ((node .red (sl.setColor .black) y sr).rotateRight.setColor color).setRight .black
    | nil => nil
  (plug path (node .black t x sibling).rotateLeft).setColor .black

def lendLeft (t : Tree α) (color : Color) (x : α) (sibling : Tree α) (path : List (Frame α))
    : Tree α :=
  let sibling :=
    match sibling with
    | node _ sl y sr =>
      if sl.isRed then
        node color (sl.setColor .black) y sr
      else
        ((node .red sl y (sr.setColor .black)).rotateLeft.setColor color).setLeft .black
    | nil => nil
  (plug path (node .black sibling x t).rotateRight).setColor .black

def childrenBlack : Tree α → Bool
  | node _ l _ r => !l.isRed && !r.isRed
  | nil => true

def eraseFixup (t : Tree α) : List (Frame α) → Tree α
  | [] => t.setColor .black
  | parent :: path =>
    if t.isRed then
      plug (parent :: path) (t.setColor .black)
    else
      match parent with
      | .left _ _ nil => plug (parent :: path) t
      | .left _ x (node .red nil y sr) => plug (.left .red x nil :: .left .black y sr :: path) t
      | .left _ x (node .red sl y sr) =>
        let path := .left .black y sr :: path
        if childrenBlack sl then
          -- the parent is red now, so the next round makes it black and ends
          plug path (node .black t x (sl.setColor .red))
        else
          lendRight t .red x sl path
      | .left c x (node .black sl y sr) =>
        let sibling := node .black sl y sr
        if childrenBlack sibling then
          eraseFixup (node c t x (sibling.setColor .red)) path
        else
          lendRight t c x sibling path
      | .right _ nil _ => plug (parent :: path) t
      | .right _ (node .red sl y nil) x => plug (.right .red nil x :: .right .black sl y :: path) t
      | .right _ (node .red sl y sr) x =>
        let path := .right .black sl y :: path
        if childrenBlack sr then
          plug path (node .black (sr.setColor .red) x t)
        else
          lendLeft t .red x sr path
      | .right c (node .black sl y sr) x =>
        let sibling := node .black sl y sr
        if childrenBlack sibling then
          eraseFixup (node c (sibling.setColor .red) x t) path
        else
          lendLeft t c x sibling path

def first (c : Color) (l : Tree α) (x : α) (r : Tree α) (path : List (Frame α))
    : Color × α × Tree α × List (Frame α) :=
  match l with
  | nil => (c, x, r, path)
  | node c' l' x' r' => first c' l' x' r' (.left c x r :: path)

def eraseRaw (t : Tree α) (path : List (Frame α)) : Tree α :=
  match t with
  | nil => plug path nil
  | node c nil _ child | node c child _ nil =>
    if c = .black then eraseFixup child path else plug path child
  | node c l _ (node rc rl rx rr) =>
    let (color, succ, child, above) := first rc rl rx rr []
    let path := above ++ .right c l succ :: path
    if color = .black then eraseFixup child path else plug path child

def locate (p : α → Bool) : Tree α → List (Frame α) → Option (Tree α × List (Frame α))
  | nil, _ => none
  | node c l x r, path =>
    if p x then
      some (node c l x r, path)
    else
      match locate p l (.left c x r :: path) with
      | some found => some found
      | none => locate p r (.right c l x :: path)

end RBTree
