import Skyline.RBTree.Lemmas
import Skyline.Steps.Basic

/-!
This module contains the tree of a run queue with `min_vruntime_subtree`.
-/

namespace Sched.Runqueue

open RBTree RBTree.Tree

structure Node where
  id : Nat
  deadline : Nat
  vruntime : Nat
  minVruntimeSubtree : Nat
deriving DecidableEq

def threadRbCmp (a b : Node) : Bool :=
  a.deadline < b.deadline || (a.deadline == b.deadline && a.id < b.id)

def minOf (m : Nat) : RBTree.Tree Node → Nat
  | nil => m
  | node _ _ x _ => if x.minVruntimeSubtree < m then x.minVruntimeSubtree else m

def updateNode (c : Color) (l : RBTree.Tree Node) (x : Node) (r : RBTree.Tree Node)
    : RBTree.Tree Node × Bool :=
  let min := minOf (minOf x.vruntime l) r
  if x.minVruntimeSubtree = min then
    (node c l x r, false)
  else
    (node c l { x with minVruntimeSubtree := min } r, true)

def updateUpward (id : Nat) : RBTree.Tree Node → Option (RBTree.Tree Node × Bool)
  | nil => none
  | node c l x r =>
    if x.id = id then
      some (updateNode c l x r)
    else
      match updateUpward id l with
      | some (l, true) => some (updateNode c l x r)
      | some (l, false) => some (node c l x r, false)
      | none =>
        match updateUpward id r with
        | some (r, true) => some (updateNode c l x r)
        | some (r, false) => some (node c l x r, false)
        | none => none

def updateMinVruntimeUpward (start : Option Nat) (t : RBTree.Tree Node) : RBTree.Tree Node :=
  match start.bind fun id => updateUpward id t with
  | some (t, _) => t
  | none => t

inductive Event where
  | insert (id deadline vruntime : Nat)
  | remove (id : Nat)

def change (t : RBTree.Tree Node) : Event → RBTree.Tree Node × Option Nat
  | .insert id deadline vruntime =>
    if t.toList.any fun x => x.id = id then
      (t, none)
    else
      (insertRaw threadRbCmp ⟨id, deadline, vruntime, vruntime⟩ t, some id)
  | .remove id =>
    match locate (fun x => x.id = id) t [] with
    | none => (t, none)
    | some (sub, path) => (eraseRaw sub path, path.head?.map fun parent => parent.x.id)

def step (t : RBTree.Tree Node) (e : Event) : RBTree.Tree Node :=
  updateMinVruntimeUpward (change t e).2 (change t e).1

def run (es : List Event) : RBTree.Tree Node := es.foldl step nil

inductive Sub (s : RBTree.Tree Node) : RBTree.Tree Node → Prop where
  | refl : Sub s s
  | left (c : Color) (l : RBTree.Tree Node) (x : Node) (r : RBTree.Tree Node) (h : Sub s l)
    : Sub s (node c l x r)
  | right (c : Color) (l : RBTree.Tree Node) (x : Node) (r : RBTree.Tree Node) (h : Sub s r)
    : Sub s (node c l x r)

def least (t : RBTree.Tree Node) : Option Nat := (t.toList.map Node.vruntime).min?

def Right : RBTree.Tree Node → Prop
  | nil => True
  | node c l x r => least (node c l x r) = some x.minVruntimeSubtree

def Augmented (t : RBTree.Tree Node) : Prop := ∀ s, Sub s t → Right s

/--
Nothing is rotated or moved: the new node goes below one whose subtree has a smaller or the same
minimum, and the old one has at most one child, which is red if the node itself is black and not the
root.
-/
def Quiet (t : RBTree.Tree Node) : Event → Prop
  | .insert id deadline vruntime =>
    Unrotated (descend threadRbCmp ⟨id, deadline, vruntime, vruntime⟩ t [])
      ∧ ∀ parent ∈ (descend threadRbCmp ⟨id, deadline, vruntime, vruntime⟩ t []).head?,
        parent.x.minVruntimeSubtree ≤ vruntime
  | .remove id => ∀ found ∈ locate (fun x => x.id = id) t [], Plain found.1 found.2

instance (t : RBTree.Tree Node) (e : Event) : Decidable (Quiet t e) :=
  match e with
  | .insert id deadline vruntime =>
    inferInstanceAs (Decidable
      (Unrotated (descend threadRbCmp ⟨id, deadline, vruntime, vruntime⟩ t [])
      ∧ ∀ parent ∈ (descend threadRbCmp ⟨id, deadline, vruntime, vruntime⟩ t []).head?,
        parent.x.minVruntimeSubtree ≤ vruntime))
  | .remove id =>
    inferInstanceAs (Decidable (∀ found ∈ locate (fun x => x.id = id) t [], Plain found.1 found.2))

variable {a b l r u : RBTree.Tree Node} {x : Node} {id : Nat} {f : Frame Node}
  {path : List (Frame Node)}

theorem augmented_nil : Augmented nil := by
  intro s h
  cases h with
  | refl => trivial

theorem augmented_node {c : Color}
    : Augmented (node c l x r) ↔ Right (node c l x r) ∧ Augmented l ∧ Augmented r := by
  constructor
  . intro h
    refine ⟨h _ .refl, ?_, ?_⟩
    . intro s hs
      apply h
      exact .left c l x r hs
    . intro s hs
      apply h
      exact .right c l x r hs
  . intro h s hs
    cases hs with
    | refl => exact h.1
    | left _ _ _ _ hs => exact h.2.1 s hs
    | right _ _ _ _ hs => exact h.2.2 s hs

theorem Augmented.right {t : RBTree.Tree Node} (h : Augmented t) : Right t := h t .refl

theorem minOf_le {t : RBTree.Tree Node} (h : Right t) (m : Nat)
    : minOf m t ≤ m ∧ ∀ y ∈ t.toList, minOf m t ≤ y.vruntime := by
  cases t with
  | nil => simp [minOf, toList]
  | node c l x r =>
    have hmin := (List.min?_eq_some_iff.mp h).2
    have hle : ∀ y ∈ (node c l x r).toList, x.minVruntimeSubtree ≤ y.vruntime := by
      intro y hy
      apply hmin
      exact List.mem_map_of_mem hy
    simp only [minOf]
    split
    . exact ⟨by omega, hle⟩
    . refine ⟨by omega, ?_⟩
      intro y hy
      have := hle y hy
      omega

theorem minOf_mem {t : RBTree.Tree Node} (h : Right t) (m : Nat)
    : minOf m t = m ∨ ∃ y ∈ t.toList, minOf m t = y.vruntime := by
  cases t with
  | nil => simp [minOf]
  | node =>
    obtain ⟨y, hy, hmin⟩ := List.mem_map.mp (List.min?_eq_some_iff.mp h).1
    simp only [minOf]
    split
    . exact .inr ⟨y, hy, hmin.symm⟩
    . simp

theorem least_node (c : Color) (x : Node) (hl : Right l) (hr : Right r)
    : least (node c l x r) = some (minOf (minOf x.vruntime l) r) := by
  have hlle := minOf_le hl x.vruntime
  have hrle := minOf_le hr (minOf x.vruntime l)
  unfold least
  rw [List.min?_eq_some_iff]
  constructor
  . rw [List.mem_map]
    rcases minOf_mem hr (minOf x.vruntime l) with h | ⟨y, hy, h⟩
    . rw [h]
      rcases minOf_mem hl x.vruntime with h | ⟨y, hy, h⟩
      . exact ⟨x, by simp [toList], h.symm⟩
      . exact ⟨y, by simp [toList, hy], h.symm⟩
    . exact ⟨y, by simp [toList, hy], h.symm⟩
  . intro v hv
    simp only [toList, List.map_append, List.map_cons, List.mem_append, List.mem_cons, List.mem_map]
      at hv
    rcases hv with ⟨y, hy, rfl⟩ | rfl | ⟨y, hy, rfl⟩
    . exact Nat.le_trans hrle.1 (hlle.2 y hy)
    . exact Nat.le_trans hrle.1 hlle.1
    . exact hrle.2 y hy

def keys (t : RBTree.Tree Node) : List (Nat × Nat) := t.toList.map fun x => (x.id, x.vruntime)

def ids (t : RBTree.Tree Node) : List Nat := t.toList.map Node.id

theorem keys_node (c : Color) (l : RBTree.Tree Node) (x : Node) (r : RBTree.Tree Node)
    : keys (node c l x r) = keys l ++ (x.id, x.vruntime) :: keys r := by
  simp [keys, toList]

theorem ids_node (c : Color) (l : RBTree.Tree Node) (x : Node) (r : RBTree.Tree Node)
    : ids (node c l x r) = ids l ++ x.id :: ids r := by
  simp [ids, toList]

theorem ids_congr {t : RBTree.Tree Node} (h : keys t = keys u) : ids t = ids u := by
  have hkeys : ∀ t : RBTree.Tree Node, ids t = (keys t).map Prod.fst := by
    simp [ids, keys, Function.comp_def]
  rw [hkeys, hkeys, h]

theorem updateNode_keys (c : Color) (l : RBTree.Tree Node) (x : Node) (r : RBTree.Tree Node)
    : keys (updateNode c l x r).1 = keys (node c l x r) := by
  unfold updateNode
  dsimp only
  split <;> simp [keys_node]

theorem updateUpward_keys {go : Bool} (h : updateUpward id u = some (a, go)) : keys a = keys u := by
  fun_induction updateUpward id u generalizing a go with
  | case1 => cases h
  | case2 c l x r => rw [← updateNode_keys, Option.some.inj h]
  | case3 c l x r hid l' hl ih =>
    have heq := updateNode_keys c l' x r
    rw [Option.some.inj h] at heq
    rw [heq, keys_node, keys_node, ih hl]
  | case4 c l x r hid l' hl ih =>
    cases h
    rw [keys_node, keys_node, ih hl]
  | case5 c l x r hid hl r' hr ihl ihr =>
    have heq := updateNode_keys c l x r'
    rw [Option.some.inj h] at heq
    rw [heq, keys_node, keys_node, ihr hr]
  | case6 c l x r hid hl r' hr ihl ihr =>
    cases h
    rw [keys_node, keys_node, ihr hr]
  | case7 => cases h

theorem step_keys (t : RBTree.Tree Node) (e : Event) : keys (step t e) = keys (change t e).1 := by
  unfold step updateMinVruntimeUpward
  split
  next h =>
    obtain ⟨id, -, hup⟩ := Option.bind_eq_some_iff.mp h
    exact updateUpward_keys hup
  next => rfl

theorem updateNode_augmented (c : Color) (x : Node) (hl : Augmented l) (hr : Augmented r)
    : Augmented (updateNode c l x r).1 := by
  unfold updateNode
  dsimp only
  split
  . next hmin =>
    rw [augmented_node]
    refine ⟨?_, hl, hr⟩
    rw [Right, hmin]
    exact least_node c x hl.right hr.right
  . rw [augmented_node]
    refine ⟨?_, hl, hr⟩
    exact least_node c _ hl.right hr.right

/--
The loop has nothing to do where every node is right.
-/
theorem updateUpward_augmented {go : Bool} (h : Augmented u)
    (hup : updateUpward id u = some (a, go))
    : a = u ∧ go = false := by
  have hnode : ∀ {c : Color} {l r : RBTree.Tree Node} {x : Node}, Augmented (node c l x r) →
      updateNode c l x r = (node c l x r, false) := by
    intro c l r x haug
    obtain ⟨hright, hl, hr⟩ := augmented_node.mp haug
    unfold updateNode
    dsimp only
    rw [if_pos (Option.some.inj (hright.symm.trans (least_node c x hl.right hr.right)))]
  fun_induction updateUpward id u generalizing a go with
  | case1 => cases hup
  | case2 =>
    rw [hnode h] at hup
    cases hup
    exact ⟨rfl, rfl⟩
  | case3 c l x r hid l' hl ih => cases (ih (augmented_node.mp h).2.1 hl).2
  | case4 c l x r hid l' hl ih =>
    cases hup
    rw [(ih (augmented_node.mp h).2.1 hl).1]
    exact ⟨rfl, rfl⟩
  | case5 c l x r hid hl r' hr ihl ihr => cases (ihr (augmented_node.mp h).2.2 hr).2
  | case6 c l x r hid hl r' hr ihl ihr =>
    cases hup
    rw [(ihr (augmented_node.mp h).2.2 hr).1]
    exact ⟨rfl, rfl⟩
  | case7 => cases hup

theorem minOf_eq {t : RBTree.Tree Node} (h : Right t) (m : Nat)
    : minOf m t = (least t).elim m fun v => if v < m then v else m := by
  cases t with
  | nil => rfl
  | node => rw [show least _ = _ from h]; rfl

theorem least_plug (ha : Right a) (hb : Right b) (hsibling : Right f.sibling)
    (h : least b = least a)
    : least (f.plug b) = least (f.plug a) := by
  cases f with
  | left c x r =>
    have hr : Right r := hsibling
    rw [Frame.plug, Frame.plug, least_node c x hb hr, least_node c x ha hr,
      minOf_eq hb, minOf_eq ha, h]
  | right c l x =>
    have hl : Right l := hsibling
    rw [Frame.plug, Frame.plug, least_node c x hl hb, least_node c x hl ha,
      minOf_eq hb, minOf_eq ha, h]

theorem augmented_plug
    : Augmented (f.plug a)
      ↔ least (f.plug a) = some f.x.minVruntimeSubtree ∧ Augmented a ∧ Augmented f.sibling := by
  cases f with
  | left => exact augmented_node
  | right =>
    rw [and_comm (a := Augmented a)]
    exact augmented_node

theorem Augmented.of_plug (h : Augmented (plug path a)) : Augmented a := by
  induction path generalizing a with
  | nil => exact h
  | cons _ _ ih => exact (augmented_plug.mp (ih h)).2.1

theorem Augmented.of_plug_cons (h : Augmented (plug (f :: path) a)) : Augmented (f.plug a) :=
  @Augmented.of_plug (f.plug a) path h

/--
What is above a subtree stays right when its minimum does.
-/
theorem augmented_plug_congr (ha : Augmented (plug path a)) (hb : Augmented b)
    (h : least b = least a)
    : Augmented (plug path b) := by
  induction path generalizing a b with
  | nil => exact hb
  | cons f path ih =>
    have hf : Augmented (f.plug a) := Augmented.of_plug_cons ha
    obtain ⟨hmin, ha', hsibling⟩ := augmented_plug.mp hf
    have hleast := least_plug ha'.right hb.right hsibling.right h
    exact ih ha (augmented_plug.mpr ⟨hleast.trans hmin, hb, hsibling⟩) hleast

theorem augmented_uncolored : Augmented u.uncolored ↔ Augmented u := by
  have hlist : ∀ t : RBTree.Tree Node, t.uncolored.toList = t.toList := by
    intro t
    induction t with
    | nil => rfl
    | node _ _ _ _ ihl ihr => simp [uncolored, toList, ihl, ihr]
  induction u with
  | nil => exact Iff.rfl
  | node c l x r ihl ihr =>
    have hright : Right (node c l x r).uncolored ↔ Right (node c l x r) := by
      have := hlist (node c l x r)
      simp only [uncolored] at this ⊢
      simp only [Right, least, this]
    exact augmented_node.trans ((and_congr hright (and_congr ihl ihr)).trans augmented_node.symm)

theorem augmented_insertRaw {t : RBTree.Tree Node} (h : Augmented t)
    (hmin : x.minVruntimeSubtree = x.vruntime) (hpath : Unrotated (descend threadRbCmp x t []))
    (hparent : ∀ parent ∈ (descend threadRbCmp x t []).head?,
      parent.x.minVruntimeSubtree ≤ x.vruntime)
    : Augmented (insertRaw threadRbCmp x t) := by
  rw [insertRaw, ← augmented_uncolored, uncolored_insertFixup hpath, augmented_uncolored]
  rw [← plug_nil t, ← plug_descend threadRbCmp x] at h
  generalize descend threadRbCmp x t [] = path at *
  have hleaf : Augmented (node .red nil x nil) := by
    rw [augmented_node]
    exact ⟨by rw [Right, hmin]; rfl, augmented_nil, augmented_nil⟩
  cases path with
  | nil => exact hleaf
  | cons f path =>
    have hf : Augmented (f.plug nil) := Augmented.of_plug_cons h
    obtain ⟨hold, -, hsibling⟩ := augmented_plug.mp hf
    have hle : f.x.minVruntimeSubtree ≤ x.vruntime := hparent f rfl
    have hmem : ∀ y, y ∈ (f.plug (node .red nil x nil)).toList
        ↔ y = x ∨ y ∈ (f.plug nil).toList := by
      intro y
      cases f with
      | left => simp [Frame.plug, toList]
      | right =>
        simp [Frame.plug, toList]
        tauto
    have hleast : least (f.plug (node .red nil x nil)) = some f.x.minVruntimeSubtree := by
      unfold least at hold ⊢
      rw [List.min?_eq_some_iff] at hold ⊢
      simp only [List.mem_map, hmem] at hold ⊢
      obtain ⟨⟨y, hy, heq⟩, hall⟩ := hold
      refine ⟨⟨y, .inr hy, heq⟩, ?_⟩
      rintro _ ⟨z, rfl | hz, rfl⟩
      . exact hle
      . exact hall _ ⟨z, hz, rfl⟩
    have habove : Augmented (plug path (f.plug nil)) := h
    have hnew := augmented_plug_congr habove (augmented_plug.mpr ⟨hleast, hleaf, hsibling⟩)
      (hleast.trans hold.symm)
    exact hnew

theorem updateUpward_none (h : id ∉ ids u) : updateUpward id u = none := by
  induction u with
  | nil => rfl
  | node c l x r ihl ihr =>
    rw [ids_node, List.mem_append, List.mem_cons] at h
    push Not at h
    rw [updateUpward, if_neg fun heq => h.2.1 heq.symm, ihl h.1, ihr h.2.2]

def updateFrame (f : Frame Node) (t : RBTree.Tree Node) : RBTree.Tree Node × Bool :=
  match f with
  | .left c x r => updateNode c t x r
  | .right c l x => updateNode c l x t

theorem updateFrame_augmented (f : Frame Node) (ha : Augmented a) (hsibling : Augmented f.sibling)
    : Augmented (updateFrame f a).1 := by
  cases f with
  | left c x => exact updateNode_augmented c x ha hsibling
  | right c _ x => exact updateNode_augmented c x hsibling ha

theorem updateNode_stop (c : Color) (x : Node) (hl : Right l) (hr : Right r)
    (h : (updateNode c l x r).2 = false)
    : least (updateNode c l x r).1 = some x.minVruntimeSubtree := by
  unfold updateNode at h ⊢
  dsimp only at h ⊢
  split at h
  next heq => rw [if_pos heq, least_node c x hl hr, heq]
  next => cases h

theorem updateFrame_stop (f : Frame Node) (ha : Augmented a) (hsibling : Augmented f.sibling)
    (h : (updateFrame f a).2 = false)
    : least (updateFrame f a).1 = some f.x.minVruntimeSubtree := by
  cases f with
  | left c x => exact updateNode_stop c x ha.right hsibling.right h
  | right c _ x => exact updateNode_stop c x hsibling.right ha.right h

theorem ids_plug (f : Frame Node) (t : RBTree.Tree Node)
    : (ids (f.plug t)).Perm (f.x.id :: (ids t ++ ids f.sibling)) := by
  cases f with
  | left =>
    simp only [Frame.plug, ids_node, Frame.x, Frame.sibling]
    exact List.perm_middle
  | right =>
    simp only [Frame.plug, ids_node, Frame.x, Frame.sibling]
    apply List.perm_middle.trans
    exact .cons _ List.perm_append_comm

theorem updateUpward_plug {go : Bool} (f : Frame Node) (hnodup : (ids (f.plug a)).Nodup)
    (hid : id ∈ ids a) (h : updateUpward id a = some (b, go))
    : updateUpward id (f.plug a) = some (if go then updateFrame f b else (f.plug b, false)) := by
  rw [(ids_plug f a).nodup_iff, List.nodup_cons, List.mem_append, List.nodup_append] at hnodup
  cases f with
  | left c x r =>
    have hne : x.id ≠ id := fun heq => hnodup.1 (.inl (heq ▸ hid))
    rw [Frame.plug, updateUpward, if_neg hne, h]
    cases go <;> rfl
  | right c l x =>
    have hne : x.id ≠ id := fun heq => hnodup.1 (.inl (heq ▸ hid))
    have hl : updateUpward id l = none :=
      updateUpward_none fun hmem => hnodup.2.2.2 id hid id hmem rfl
    rw [Frame.plug, updateUpward, if_neg hne, hl, h]
    cases go <;> rfl

/--
The loop makes the nodes on its way right, and it stops only where the minimum is the old one.
-/
theorem updateUpward_climb {a' : RBTree.Tree Node} {go : Bool} (hold : Augmented (plug path b))
    (hnodup : (ids (plug path a)).Nodup) (hid : id ∈ ids a)
    (hup : updateUpward id a = some (a', go))
    (haug : Augmented a') (hstop : go = false → least a' = least b)
    : ∃ u go, updateUpward id (plug path a) = some (u, go) ∧ Augmented u := by
  induction path generalizing a b a' go with
  | nil => exact ⟨a', go, hup, haug⟩
  | cons f path ih =>
    have hf : Augmented (f.plug b) := Augmented.of_plug_cons hold
    obtain ⟨hmin, hb, hsibling⟩ := augmented_plug.mp hf
    have hnodup' : (ids (f.plug a)).Nodup := by
      rw [plug_cons, ids, toList_plug] at hnodup
      exact hnodup.sublist (by simp [ids])
    have hmem : id ∈ ids (f.plug a) := by
      rw [(ids_plug f a).mem_iff]
      simp [hid]
    have hstep := updateUpward_plug f hnodup' hid hup
    cases go with
    | true =>
      refine ih hold hnodup hmem hstep (updateFrame_augmented f haug hsibling) fun hgo => ?_
      exact (updateFrame_stop f haug hsibling hgo).trans hmin.symm
    | false =>
      have hleast := least_plug hb.right haug.right hsibling.right (hstop rfl)
      exact ih hold hnodup hmem hstep
        (augmented_plug.mpr ⟨hleast.trans hmin, haug, hsibling⟩) fun _ => hleast

theorem change_nodup {t : RBTree.Tree Node} (e : Event) (h : (ids t).Nodup)
    : (ids (change t e).1).Nodup := by
  cases e with
  | insert id deadline vruntime =>
    unfold change
    dsimp only
    split
    . assumption
    . next hnew =>
      have hperm := toList_insertRaw threadRbCmp ⟨id, deadline, vruntime, vruntime⟩ t
      rw [ids, (hperm.map Node.id).nodup_iff, List.map_cons, List.nodup_cons]
      refine ⟨?_, h⟩
      simpa using hnew
  | remove =>
    unfold change
    dsimp only
    split
    . assumption
    . next hfound =>
      obtain ⟨hplug, c, l, x, r, rfl, -⟩ := locate_some hfound
      rw [plug_nil] at hplug
      rw [← hplug, ids, toList_plug] at h
      rw [ids, toList_eraseRaw]
      exact h.sublist (List.Sublist.map _ (by simp [toList]))

theorem Quiet.augmented {t : RBTree.Tree Node} {e : Event} (hquiet : Quiet t e)
    (hnodup : (ids t).Nodup) (h : Augmented t)
    : Augmented (step t e) := by
  have hnodup' := change_nodup e hnodup
  unfold step
  cases e with
  | insert id deadline vruntime =>
    have hchange : Augmented (change t (.insert id deadline vruntime)).1 := by
      unfold change
      dsimp only
      split
      . exact h
      . exact augmented_insertRaw h rfl hquiet.1 hquiet.2
    unfold updateMinVruntimeUpward
    split
    next hup =>
      obtain ⟨_, -, hup⟩ := Option.bind_eq_some_iff.mp hup
      rw [(updateUpward_augmented hchange hup).1]
      exact hchange
    next => exact hchange
  | remove id =>
    unfold change at hnodup' ⊢
    dsimp only at hnodup' ⊢
    split
    next => exact h
    next sub path hfound =>
      obtain ⟨hplug, c, l, x, r, rfl, -⟩ := locate_some hfound
      rw [hfound] at hnodup'
      rw [← plug_nil t, ← hplug] at h
      obtain ⟨child, heq, hchild⟩ := eraseRaw_plain (hquiet _ hfound)
      obtain ⟨-, hl, hr⟩ := augmented_node.mp h.of_plug
      have haug : Augmented child := by
        rw [← augmented_uncolored]
        rcases hchild with hchild | hchild
        . rw [hchild, augmented_uncolored]
          exact hl
        . rw [hchild, augmented_uncolored]
          exact hr
      dsimp only at hnodup' ⊢
      rw [heq] at hnodup' ⊢
      cases path with
      | nil => exact haug
      | cons f path =>
        have hf : Augmented (f.plug (node c l x r)) := Augmented.of_plug_cons h
        obtain ⟨hmin, -, hsibling⟩ := augmented_plug.mp hf
        have hup : updateUpward f.x.id (f.plug child) = some (updateFrame f child) := by
          cases f <;> rw [Frame.plug, updateUpward] <;> exact if_pos rfl
        have hmem : f.x.id ∈ ids (f.plug child) := by
          rw [(ids_plug f child).mem_iff]
          simp
        have habove : Augmented (plug path (f.plug (node c l x r))) := h
        obtain ⟨u, go, hwalk, hu⟩ := updateUpward_climb habove hnodup' hmem hup
          (updateFrame_augmented f haug hsibling)
          fun hgo => (updateFrame_stop f haug hsibling hgo).trans hmin.symm
        simp only [updateMinVruntimeUpward, List.head?_cons, Option.map_some,
          Option.bind_some, plug_cons, hwalk]
        exact hu

/--
Along a sequence of insertions and removals that rotate nothing every node has the minimum of its
subtree.
-/
theorem min_vruntime_subtree_right (t : RBTree.Tree Node)
    (h : Steps.Reach (fun t e => some (step t e)) Quiet nil t)
    : Augmented t := by
  refine (h.invariant (fun t => (ids t).Nodup ∧ Augmented t) ⟨by simp [ids, toList],
    augmented_nil⟩ ?_).2
  rintro t e _ ⟨hnodup, haug⟩ hquiet hs
  cases hs
  refine ⟨?_, hquiet.augmented hnodup haug⟩
  rw [ids_congr (step_keys t e)]
  exact change_nodup e hnodup

theorem min_vruntime_subtree_right_recolored
    : ∃ t, Steps.Reach (fun t e => some (step t e)) Quiet nil t ∧ ids t = [3, 1, 4]
      ∧ Augmented t := by
  obtain ⟨t, hreach, hids⟩ := Steps.Reach.exists_of_run (fun t e => some (step t e)) Quiet nil
    [.insert 1 20 10, .insert 2 25 15, .insert 3 10 12, .insert 4 30 17, .remove 2]
    (fun t => ids t = [3, 1, 4]) (by decide +kernel)
  exact ⟨t, hreach, hids, min_vruntime_subtree_right t hreach⟩

/--
The second thread goes below the first one.
-/
theorem min_vruntime_subtree_stale
    : run [.insert 1 20 10, .insert 2 25 5]
          = node .black nil ⟨1, 20, 10, 10⟩ (node .red nil ⟨2, 25, 5, 5⟩ nil)
        ∧ ¬Augmented (run [.insert 1 20 10, .insert 2 25 5]) := by
  have hrun : run [.insert 1 20 10, .insert 2 25 5]
      = node .black nil ⟨1, 20, 10, 10⟩ (node .red nil ⟨2, 25, 5, 5⟩ nil) := rfl
  refine ⟨hrun, ?_⟩
  rw [hrun]
  intro h
  have hroot : (some 5 : Option Nat) = some 10 := h.right
  cases hroot

end Sched.Runqueue
