import Skyline.RBTree.Basic

/-!
This module contains which nodes are in a tree after an insertion or an erasure, and when nothing is
rotated.
-/

namespace RBTree

variable {α : Type} {t u : Tree α} {path : List (Frame α)}

open RBTree.Tree

@[simp]
theorem toList_setColor (c : Color) (t : Tree α) : (t.setColor c).toList = t.toList := by
  cases t <;> rfl

@[simp]
theorem toList_setRight (c : Color) (t : Tree α) : (t.setRight c).toList = t.toList := by
  cases t <;> simp [setRight, toList]

@[simp]
theorem toList_setLeft (c : Color) (t : Tree α) : (t.setLeft c).toList = t.toList := by
  cases t <;> simp [setLeft, toList]

@[simp]
theorem toList_rotateLeft (t : Tree α) : t.rotateLeft.toList = t.toList := by
  unfold rotateLeft
  split
  . simp [toList]
  . rfl

@[simp]
theorem toList_rotateRight (t : Tree α) : t.rotateRight.toList = t.toList := by
  unfold rotateRight
  split
  . simp [toList]
  . rfl

@[simp]
theorem plug_cons (f : Frame α) (path : List (Frame α)) (t : Tree α)
    : plug (f :: path) t = plug path (f.plug t) := rfl

@[simp]
theorem plug_nil (t : Tree α) : plug [] t = t := rfl

def before : List (Frame α) → List α
  | [] => []
  | .left _ _ _ :: path => before path
  | .right _ l x :: path => before path ++ (l.toList ++ [x])

def after : List (Frame α) → List α
  | [] => []
  | .left _ x r :: path => x :: r.toList ++ after path
  | .right _ _ _ :: path => after path

theorem toList_plug (path : List (Frame α)) (t : Tree α)
    : (plug path t).toList = before path ++ t.toList ++ after path := by
  induction path generalizing t with
  | nil => simp [before, after]
  | cons f _ ih =>
    cases f with
    | left => simp [ih, Frame.plug, toList, before, after]
    | right => simp [ih, Frame.plug, toList, before, after]

theorem toList_plug_congr (path : List (Frame α)) (h : t.toList = u.toList)
    : (plug path t).toList = (plug path u).toList := by
  rw [toList_plug, toList_plug, h]

theorem toList_insertFixup (t : Tree α) (path : List (Frame α))
    : (insertFixup t path).toList = (plug path t).toList := by
  fun_induction insertFixup t path with
  | case1 t => simp
  | case2 t f => simp
  | case3 => simp
  | case4 t parent path hp c y uncle hu ih =>
    rw [ih, plug_cons, plug_cons]
    apply toList_plug_congr
    simp [Frame.plug, toList]
  | case5 t parent path hp c y uncle hu top =>
    rw [toList_setColor, plug_cons, plug_cons]
    apply toList_plug_congr
    cases parent <;> simp [Frame.plug, toList, top]
  | case6 t parent path hp c uncle y hu ih =>
    rw [ih, plug_cons, plug_cons]
    apply toList_plug_congr
    simp [Frame.plug, toList]
  | case7 t parent path hp c uncle y hu top =>
    rw [toList_setColor, plug_cons, plug_cons]
    apply toList_plug_congr
    cases parent <;> simp [Frame.plug, toList, top]

theorem plug_descend (lt : α → α → Bool) (x : α) (t : Tree α) (path : List (Frame α))
    : plug (descend lt x t path) nil = plug path t := by
  induction t generalizing path with
  | nil => rfl
  | node _ _ _ _ ihl ihr =>
    unfold descend
    split
    . rw [ihl]
      rfl
    . rw [ihr]
      rfl

theorem toList_insertRaw (lt : α → α → Bool) (x : α) (t : Tree α)
    : (insertRaw lt x t).toList.Perm (x :: t.toList) := by
  have hold := congrArg toList (plug_descend lt x t [])
  rw [toList_plug, plug_nil] at hold
  rw [insertRaw, toList_insertFixup, toList_plug, ← hold]
  simp [toList]

theorem toList_lendRight (t : Tree α) (c : Color) (x : α) (sibling : Tree α) (path : List (Frame α))
    : (lendRight t c x sibling path).toList = (plug path (node c t x sibling)).toList := by
  unfold lendRight
  rw [toList_setColor]
  apply toList_plug_congr
  rw [toList_rotateLeft]
  cases sibling with
  | nil => rfl
  | node =>
    simp only [toList]
    split <;> simp [toList]

theorem toList_lendLeft (t : Tree α) (c : Color) (x : α) (sibling : Tree α) (path : List (Frame α))
    : (lendLeft t c x sibling path).toList = (plug path (node c sibling x t)).toList := by
  unfold lendLeft
  rw [toList_setColor]
  apply toList_plug_congr
  rw [toList_rotateRight]
  cases sibling with
  | nil => rfl
  | node =>
    simp only [toList]
    split <;> simp [toList]

theorem toList_eraseFixup (t : Tree α) (path : List (Frame α))
    : (eraseFixup t path).toList = (plug path t).toList := by
  -- every branch has the same nodes in the same order
  fun_induction eraseFixup t path with
  | case1 t => simp
  | case2 t parent path hred => exact toList_plug_congr (parent :: path) (toList_setColor .black t)
  | case3 => rfl
  | case7 t path hred c x sl y sr sibling hblack ih =>
    rw [ih]
    simp [sibling, toList_plug, toList, Frame.plug]
  | case9 => rfl
  | case13 t path hred c sl y sr x sibling hblack ih =>
    rw [ih]
    simp [sibling, toList_plug, toList, Frame.plug]
  | _ =>
    simp +zetaDelta [toList_lendRight, toList_lendLeft, toList_plug, toList, Frame.plug]

theorem toList_first (c : Color) (l : Tree α) (x : α) (r : Tree α) (path : List (Frame α))
    : before (first c l x r path).2.2.2 = before path
      ∧ (first c l x r path).2.1 :: (first c l x r path).2.2.1.toList
          ++ after (first c l x r path).2.2.2
        = (node c l x r).toList ++ after path := by
  induction l generalizing c x r path with
  | nil => simp [first, toList]
  | node c' _ x' r' ih =>
    obtain ⟨hbefore, hafter⟩ := ih c' x' r' (.left c x r :: path)
    simp only [first]
    refine ⟨hbefore, hafter.trans ?_⟩
    simp [after, toList]

theorem before_append (p q : List (Frame α)) : before (p ++ q) = before q ++ before p := by
  induction p with
  | nil => simp [before]
  | cons f _ ih =>
    cases f with
    | left => simpa [before] using ih
    | right => simp [before, ih]

theorem after_append (p q : List (Frame α)) : after (p ++ q) = after p ++ after q := by
  induction p with
  | nil => simp [after]
  | cons f _ ih =>
    cases f with
    | left => simp [after, ih]
    | right => simpa [after] using ih

theorem toList_eraseRaw (c : Color) (l : Tree α) (x : α) (r : Tree α) (path : List (Frame α))
    : (eraseRaw (node c l x r) path).toList = before path ++ (l.toList ++ r.toList)
      ++ after path := by
  have hfixup : ∀ (d : Color) (child : Tree α) (path : List (Frame α)),
      (if d = .black then eraseFixup child path else plug path child).toList
        = before path ++ child.toList ++ after path := by
    intro d child path
    split
    . rw [toList_eraseFixup, toList_plug]
    . rw [toList_plug]
  cases l with
  | nil => simp [eraseRaw, hfixup, toList]
  | node =>
    cases r with
    | nil => simp [eraseRaw, hfixup, toList]
    | node rc rl rx rr =>
      obtain ⟨hbefore, hafter⟩ := toList_first rc rl rx rr []
      simp only [eraseRaw, hfixup, before_append, after_append, before, after, hbefore]
      simp only [after, List.append_nil] at hafter
      rw [← hafter]
      simp

theorem locate_some {p : α → Bool} {found : Tree α × List (Frame α)}
    (h : locate p t path = some found)
    : plug found.2 found.1 = plug path t ∧ ∃ c l x r, found.1 = node c l x r ∧ p x := by
  induction t generalizing path with
  | nil => cases h
  | node c l x r ihl ihr =>
    unfold locate at h
    split at h
    next hx =>
      cases h
      exact ⟨rfl, c, l, x, r, rfl, hx⟩
    next =>
      split at h
      next found' hl =>
        cases h
        exact ihl hl
      next => exact ihr h

def Tree.uncolored : Tree α → Tree α
  | nil => nil
  | node _ l x r => node .black l.uncolored x r.uncolored

theorem uncolored_setColor (c : Color) (t : Tree α) : (t.setColor c).uncolored = t.uncolored := by
  cases t <;> rfl

theorem uncolored_plug (path : List (Frame α)) (h : t.uncolored = u.uncolored)
    : (plug path t).uncolored = (plug path u).uncolored := by
  induction path generalizing t u with
  | nil => exact h
  | cons f _ ih =>
    apply ih
    cases f with
    | left => simp [Frame.plug, uncolored, h]
    | right => simp [Frame.plug, uncolored, h]

def Frame.sibling : Frame α → Tree α
  | left _ _ r => r
  | right _ l _ => l

/--
An insertion below these nodes only changes colours.
-/
def Unrotated : List (Frame α) → Prop
  | [] | [_] => True
  | parent :: grandparent :: path =>
    parent.color = .black ∨ grandparent.sibling.isRed ∧ Unrotated path

instance decidableUnrotated : (path : List (Frame α)) → Decidable (Unrotated path)
  | [] | [_] => isTrue trivial
  | parent :: grandparent :: path =>
    have := decidableUnrotated path
    inferInstanceAs (Decidable (parent.color = .black ∨ grandparent.sibling.isRed ∧ Unrotated path))

theorem uncolored_insertFixup (h : Unrotated path)
    : (insertFixup t path).uncolored = (plug path t).uncolored := by
  fun_induction insertFixup t path with
  | case1 => exact uncolored_setColor ..
  | case2 => exact uncolored_setColor ..
  | case3 => exact uncolored_setColor ..
  | case4 t parent path hp c y uncle hu ih =>
    rw [ih (h.resolve_left hp).2, plug_cons, plug_cons]
    apply uncolored_plug
    simp [Frame.plug, uncolored, uncolored_setColor]
  | case5 t parent path hp c y uncle hu => exact absurd (h.resolve_left hp).1 hu
  | case6 t parent path hp c uncle y hu ih =>
    rw [ih (h.resolve_left hp).2, plug_cons, plug_cons]
    apply uncolored_plug
    simp [Frame.plug, uncolored, uncolored_setColor]
  | case7 t parent path hp c uncle y hu => exact absurd (h.resolve_left hp).1 hu

/--
An erasure of the root of the tree, which is at the end of the path, only puts its child in its
place.
-/
def Plain : Tree α → List (Frame α) → Prop
  | node c nil _ child, path | node c child _ nil, path => c = .red ∨ child.isRed ∨ path.isEmpty
  | _, _ => False

instance (t : Tree α) (path : List (Frame α)) : Decidable (Plain t path) := by
  unfold Plain
  split <;> infer_instance

theorem eraseRaw_plain {c : Color} {l r : Tree α} {x : α} (h : Plain (node c l x r) path)
    : ∃ child : Tree α, eraseRaw (node c l x r) path = plug path child
      ∧ (child.uncolored = l.uncolored ∨ child.uncolored = r.uncolored) := by
  have hfixup : ∀ child : Tree α, c = .red ∨ child.isRed ∨ path.isEmpty →
      ∃ d : Tree α, (if c = .black then eraseFixup child path else plug path child) = plug path d
        ∧ d.uncolored = child.uncolored := by
    intro child hchild
    split
    next hc =>
      rcases hchild with hc' | hchild | hpath
      . cases hc.symm.trans hc'
      . refine ⟨child.setColor .black, ?_, uncolored_setColor ..⟩
        cases path with
        | nil => rfl
        | cons =>
          unfold eraseFixup
          rw [if_pos hchild]
      . cases List.isEmpty_iff.mp hpath
        exact ⟨child.setColor .black, rfl, uncolored_setColor ..⟩
    next => exact ⟨child, rfl, rfl⟩
  cases l with
  | nil =>
    obtain ⟨d, heq, hd⟩ := hfixup r (by simpa [Plain] using h)
    exact ⟨d, by simpa [eraseRaw] using heq, .inr hd⟩
  | node =>
    cases r with
    | nil =>
      obtain ⟨d, heq, hd⟩ := hfixup _ h
      exact ⟨d, heq, .inl hd⟩
    | node => exact h.elim

end RBTree
