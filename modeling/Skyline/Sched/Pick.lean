import Skyline.Sched.MinVruntime

/-!
This module contains the choice of the next thread by `Pick`.
-/

namespace Sched.Runqueue

open RBTree RBTree.Tree

variable {running : Nat → Bool} {avg : Nat}

def firstRunnable (running : Nat → Bool) (t : RBTree.Tree Node) : Option Node :=
  t.toList.find? fun x => running x.id

def hasEligible (avg : Nat) : RBTree.Tree Node → Bool
  | nil => false
  | node _ _ x _ => x.minVruntimeSubtree ≤ avg

def descent (running : Nat → Bool) (avg : Nat) : RBTree.Tree Node → Option Node
  | nil => none
  | node _ l x r =>
    if hasEligible avg l then descent running avg l
    else if x.vruntime ≤ avg then
      if running x.id then some x else descent running avg r
    else descent running avg r

def choose (running : Nat → Bool) (avg : Nat) (t : RBTree.Tree Node) : Option Node :=
  if hasEligible avg t then (descent running avg t).or (firstRunnable running t)
    else firstRunnable running t

def pick (running : Nat → Bool) (avg : Nat) (t : RBTree.Tree Node)
    : Option Node × RBTree.Tree Node :=
  match choose running avg t with
  | some best => (some best, step t (.remove best.id))
  | none => (none, t)

structure Queue where
  tree : RBTree.Tree Node
  nodup : (ids tree).Nodup
  sorted : tree.toList.Pairwise fun x y => threadRbCmp x y
  augmented : Augmented tree

def Least (t : RBTree.Tree Node) (p : Node → Bool) (x : Node) : Prop :=
  x ∈ t.toList ∧ p x ∧ ∀ y ∈ t.toList, p y → y = x ∨ threadRbCmp x y

def eligible (running : Nat → Bool) (avg : Nat) (x : Node) : Bool :=
  running x.id && decide (x.vruntime ≤ avg)

/--
The thread is the least one that is eligible or, if there is none, the least one of all, and it is
taken out of the queue.
-/
def Picked (running : Nat → Bool) (avg : Nat) (t : RBTree.Tree Node)
    : Option Node × RBTree.Tree Node → Prop
  | (some x, t') =>
    (Least t (eligible running avg) x ∨
      (∀ y ∈ t.toList, ¬eligible running avg y) ∧ Least t (fun y => running y.id) x) ∧
    (x.id :: ids t').Perm (ids t)
  | (none, t') => (∀ y ∈ t.toList, ¬running y.id) ∧ t' = t

/--
There is a node from which `e` is to be reached without going to the left, but there are threads to
the left of it that are not above the average.
-/
def Hidden (avg : Nat) (t : RBTree.Tree Node) (e : Node) : Prop :=
  ∃ c l x r, Sub (node c l x r) t ∧ e ∈ x :: r.toList ∧ ∃ y ∈ l.toList, y.vruntime ≤ avg

variable {t : RBTree.Tree Node} {p : Node → Bool} {x e : Node}

theorem Sub.subset {s : RBTree.Tree Node} (h : Sub s t) (hx : x ∈ s.toList) : x ∈ t.toList := by
  induction h with
  | refl => assumption
  | left _ _ _ _ _ ih => simp [toList, ih]
  | right _ _ _ _ _ ih => simp [toList, ih]

theorem least_of_find
    (hsorted : t.toList.Pairwise fun x y => threadRbCmp x y) (h : t.toList.find? p = some x)
    : Least t p x := by
  obtain ⟨hp, before, after, heq, hbefore⟩ := List.find?_eq_some_iff_append.1 h
  refine ⟨by simp [heq], hp, ?_⟩
  intro y hy hpy
  rw [heq, List.pairwise_append, List.pairwise_cons] at hsorted
  rw [heq, List.mem_append, List.mem_cons] at hy
  rcases hy with hy | hy | hy
  . exact absurd hpy (by simpa using hbefore y hy)
  . exact .inl hy
  . exact .inr (hsorted.2.1.1 y hy)

theorem threadRbCmp_asymm {y : Node} (h : threadRbCmp x y) : ¬threadRbCmp y x := by
  simp only [threadRbCmp, Bool.or_eq_true, Bool.and_eq_true, decide_eq_true_eq, beq_iff_eq] at *
  omega

theorem Least.unique {y : Node} (hx : Least t p x) (hy : Least t p y)
    : x = y := by
  rcases hx.2.2 y hy.1 hy.2.1 with h | hxy
  . exact h.symm
  . rcases hy.2.2 x hx.1 hx.2.1 with h | hyx
    . exact h
    . exact absurd hyx (threadRbCmp_asymm hxy)

theorem find_iff {q : Queue} : q.tree.toList.find? p = some x ↔ Least q.tree p x := by
  constructor
  . exact least_of_find q.sorted
  . intro h
    cases hfind : q.tree.toList.find? p with
    | none => exact absurd h.2.1 (List.find?_eq_none.1 hfind x h.1)
    | some => rw [(least_of_find q.sorted hfind).unique h]

theorem hasEligible_iff (h : Right t) : hasEligible avg t ↔ ∃ y ∈ t.toList, y.vruntime ≤ avg := by
  cases t with
  | nil => simp [hasEligible, toList]
  | node =>
    obtain ⟨hmem, hmin⟩ := List.min?_eq_some_iff.1 h
    simp only [hasEligible, decide_eq_true_eq]
    constructor
    . intro hle
      obtain ⟨y, hy, heq⟩ := List.mem_map.1 hmem
      exact ⟨y, hy, heq ▸ hle⟩
    . rintro ⟨y, hy, hle⟩
      exact Nat.le_trans (hmin _ (List.mem_map_of_mem hy)) hle

theorem find_left {l r : List Node} (h : ∀ y ∈ l, ¬p y) : (l ++ r).find? p = r.find? p := by
  rw [List.find?_append, List.find?_eq_none.2 h, Option.none_or]

theorem not_eligible (h : Right t) (hnone : ¬hasEligible avg t)
    : ∀ y ∈ t.toList, ¬eligible running avg y := by
  intro y hy helig
  rw [hasEligible_iff h] at hnone
  simp only [eligible, Bool.and_eq_true, decide_eq_true_eq] at helig
  exact hnone ⟨y, hy, helig.2⟩

theorem descent_some (h : Augmented t) (hdescent : descent running avg t = some e)
    : t.toList.find? (eligible running avg) = some e := by
  induction t with
  | nil => cases hdescent
  | node _ _ _ _ ihl ihr =>
    obtain ⟨-, hl, hr⟩ := augmented_node.1 h
    rw [descent] at hdescent
    rw [toList]
    split at hdescent
    next => rw [List.find?_append, ihl hl hdescent, Option.some_or]
    next hleft =>
      rw [find_left (not_eligible hl.right hleft), List.find?_cons]
      split at hdescent
      next hvr =>
        split at hdescent
        next hrun =>
          cases hdescent
          simp [eligible, hrun, hvr]
        next hrun => simpa [eligible, hrun] using ihr hr hdescent
      next hvr => simpa [eligible, hvr] using ihr hr hdescent

theorem hidden_node {c : Color} {l r : RBTree.Tree Node}
    : Hidden avg (node c l x r) e ↔
      (e ∈ x :: r.toList ∧ ∃ y ∈ l.toList, y.vruntime ≤ avg) ∨ Hidden avg l e ∨ Hidden avg r e := by
  constructor
  . rintro ⟨c', l', x', r', hsub, h⟩
    cases hsub with
    | refl => exact .inl h
    | left _ _ _ _ hsub => exact .inr (.inl ⟨c', l', x', r', hsub, h⟩)
    | right _ _ _ _ hsub => exact .inr (.inr ⟨c', l', x', r', hsub, h⟩)
  . rintro (h | ⟨c', l', x', r', hsub, h⟩ | ⟨c', l', x', r', hsub, h⟩)
    . exact ⟨c, l, x, r, .refl, h⟩
    . exact ⟨c', l', x', r', .left c l x r hsub, h⟩
    . exact ⟨c', l', x', r', .right c l x r hsub, h⟩

theorem Hidden.mem (h : Hidden avg t e) : e ∈ t.toList := by
  obtain ⟨c, l, x, r, hsub, he, -⟩ := h
  apply hsub.subset
  rw [toList]
  exact List.mem_append_right _ he

theorem descent_none_iff (h : Augmented t) (hnodup : t.toList.Nodup)
    (hfind : t.toList.find? (eligible running avg) = some e)
    : descent running avg t = none ↔ Hidden avg t e := by
  induction t with
  | nil => cases hfind
  | node _ l x r ihl ihr =>
    obtain ⟨-, hl, hr⟩ := augmented_node.1 h
    rw [toList] at hfind hnodup
    obtain ⟨hndl, hndr, hapart⟩ := List.nodup_append.1 hnodup
    obtain ⟨hx, hndr⟩ := List.nodup_cons.1 hndr
    rw [descent, hidden_node]
    by_cases hleft : hasEligible avg l
    . rw [if_pos hleft]
      cases hl' : l.toList.find? (eligible running avg) with
      | some =>
        rw [List.find?_append, hl', Option.some_or] at hfind
        cases hfind
        have hmem := List.mem_of_find?_eq_some hl'
        rw [ihl hl hndl hl']
        refine ⟨fun hh => .inr (.inl hh), ?_⟩
        rintro (⟨he, -⟩ | hh | hh)
        . exact absurd rfl (hapart e hmem e he)
        . exact hh
        . exact absurd rfl (hapart e hmem e (List.mem_cons_of_mem x hh.mem))
      | none =>
        rw [List.find?_append, hl', Option.none_or] at hfind
        refine iff_of_true ?_ (.inl ⟨List.mem_of_find?_eq_some hfind,
          (hasEligible_iff hl.right).1 hleft⟩)
        cases hdescent : descent running avg l with
        | none => rfl
        | some =>
          rw [descent_some hl hdescent] at hl'
          cases hl'
    . have hnone := hleft
      rw [hasEligible_iff hl.right] at hnone
      rw [find_left (not_eligible hl.right hleft), List.find?_cons] at hfind
      rw [if_neg hleft]
      -- The thread is not in the left subtree, in which nobody is eligible.
      have hout : ∀ e', e' ∈ x :: r.toList → ¬Hidden avg l e' := by
        intro e' he' hh
        exact hapart e' hh.mem e' he' rfl
      cases helig : eligible running avg x with
      | true =>
        rw [helig] at hfind
        cases hfind
        simp only [eligible, Bool.and_eq_true, decide_eq_true_eq] at helig
        rw [if_pos helig.2, if_pos helig.1]
        refine iff_of_false (by simp) ?_
        rintro (⟨-, hh⟩ | hh | hh)
        . exact hnone hh
        . exact hout _ List.mem_cons_self hh
        . exact hx hh.mem
      | false =>
        rw [helig] at hfind
        have hgo : (if x.vruntime ≤ avg then if running x.id then some x else descent running avg r
            else descent running avg r) = descent running avg r := by
          split
          next hvr =>
            rw [if_neg]
            simpa [eligible, hvr] using helig
          next => rfl
        rw [hgo, ihr hr hndr hfind]
        refine ⟨fun hh => .inr (.inr hh), ?_⟩
        rintro (⟨-, hh⟩ | hh | hh)
        . exact absurd hh hnone
        . exact absurd hh (hout e (List.mem_cons_of_mem x (List.mem_of_find?_eq_some hfind)))
        . exact hh

theorem choose_eq (q : Queue)
    : choose running avg q.tree = (descent running avg q.tree).or
      (firstRunnable running q.tree) := by
  unfold choose
  split
  next => rfl
  next hnone =>
    cases hdescent : descent running avg q.tree with
    | none => rfl
    | some e =>
      have hfind := descent_some q.augmented hdescent
      exact absurd (List.find?_some hfind)
        (not_eligible q.augmented.right hnone e (List.mem_of_find?_eq_some hfind))

theorem locate_isSome {id : Nat} (path : List (Frame Node)) (h : id ∈ ids t)
    : (locate (fun x => x.id = id) t path).isSome := by
  induction t generalizing path with
  | nil => simp [ids, toList] at h
  | node c _ x r ihl ihr =>
    rw [ids_node, List.mem_append, List.mem_cons] at h
    rw [locate]
    split
    next => rfl
    next hx =>
      split
      next => rfl
      next hl =>
        rcases h with h | h | h
        . have := ihl (.left c x r :: path) h
          simp [hl] at this
        . simp [h] at hx
        . exact ihr _ h

theorem ids_remove (hx : x ∈ t.toList)
    : (x.id :: ids (step t (.remove x.id))).Perm (ids t) := by
  rw [ids_congr (step_keys t (.remove x.id)), change]
  obtain ⟨found, hfound⟩ := Option.isSome_iff_exists.1 (locate_isSome [] (List.mem_map_of_mem hx))
  simp only [hfound]
  obtain ⟨hplug, c, l, y, r, heq, hy⟩ := locate_some hfound
  rw [plug_nil] at hplug
  have hid : y.id = x.id := by simpa using hy
  rw [ids, ids, ← hplug, heq, toList_eraseRaw, toList_plug, ← hid, ← List.map_cons]
  refine List.Perm.map _ ?_
  have hmiddle : (y :: (before found.2 ++ l.toList ++ (r.toList ++ after found.2))).Perm
      (before found.2 ++ l.toList ++ y :: (r.toList ++ after found.2)) := List.perm_middle.symm
  simpa [toList] using hmiddle

theorem picked_iff (q : Queue)
    : Picked running avg q.tree (pick running avg q.tree) ↔
      choose running avg q.tree =
        (q.tree.toList.find? (eligible running avg)).or (firstRunnable running q.tree) := by
  unfold pick
  constructor
  . intro h
    cases hchoose : choose running avg q.tree with
    | none =>
      rw [hchoose] at h
      have hnone : ∀ y ∈ q.tree.toList, ¬eligible running avg y := by
        intro y hy helig
        exact h.1 y hy (by simp_all [eligible])
      rw [List.find?_eq_none.2 hnone, Option.none_or, firstRunnable, List.find?_eq_none.2 h.1]
    | some =>
      rw [hchoose] at h
      rcases h.1 with hleast | ⟨hnone, hleast⟩
      . rw [find_iff.2 hleast, Option.some_or]
      . rw [List.find?_eq_none.2 hnone, Option.none_or, firstRunnable, find_iff.2 hleast]
  . intro h
    rw [h]
    cases helig : q.tree.toList.find? (eligible running avg) with
    | some =>
      exact ⟨.inl (find_iff.1 helig), ids_remove (List.mem_of_find?_eq_some helig)⟩
    | none =>
      rw [Option.none_or]
      cases hfirst : firstRunnable running q.tree with
      | some =>
        exact ⟨.inr ⟨List.find?_eq_none.1 helig, find_iff.1 hfirst⟩,
          ids_remove (List.mem_of_find?_eq_some hfirst)⟩
      | none => exact ⟨List.find?_eq_none.1 hfirst, rfl⟩

/--
`Pick` is right unless the thread it should pick is hidden from the descent and not the least of
all.
-/
theorem pick_right_iff (running : Nat → Bool) (avg : Nat) (q : Queue)
    : Picked running avg q.tree (pick running avg q.tree) ↔
      ∀ e, Least q.tree (eligible running avg) e →
        Least q.tree (fun x => running x.id) e ∨ ¬Hidden avg q.tree e := by
  rw [picked_iff, choose_eq]
  constructor
  . intro h e he
    have hfind := find_iff.2 he
    by_cases hhidden : Hidden avg q.tree e
    . left
      rw [hfind, (descent_none_iff q.augmented (.of_map _ q.nodup) hfind).2 hhidden, Option.none_or,
        Option.some_or] at h
      exact find_iff.1 h
    . exact .inr hhidden
  . intro h
    cases hfind : q.tree.toList.find? (eligible running avg) with
    | none =>
      cases hdescent : descent running avg q.tree with
      | none => rfl
      | some =>
        rw [descent_some q.augmented hdescent] at hfind
        cases hfind
    | some e =>
      rw [Option.some_or]
      cases hdescent : descent running avg q.tree with
      | some =>
        rw [descent_some q.augmented hdescent] at hfind
        exact hfind
      | none =>
        have hhidden := (descent_none_iff q.augmented (.of_map _ q.nodup) hfind).1 hdescent
        rcases h e (find_iff.1 hfind) with hleast | hnot
        . exact find_iff.2 hleast
        . exact absurd hhidden hnot

/--
The thread with the least deadline is not running, so that the descent ends there.
-/
theorem pick_ineligible
    : ∃ q : Queue, (pick (fun id => id != 1) 5 q.tree).1 = some ⟨2, 2, 9, 0⟩
        ∧ ¬Picked (fun id => id != 1) 5 q.tree (pick (fun id => id != 1) 5 q.tree) := by
  let q : Queue := {
    tree := node .black (node .red nil ⟨1, 1, 0, 0⟩ nil) ⟨2, 2, 9, 0⟩
      (node .red nil ⟨3, 3, 1, 1⟩ nil)
    nodup := by decide
    sorted := by decide
    augmented := by
      simp only [augmented_node, augmented_nil, and_true]
      exact ⟨rfl, rfl, rfl⟩ }
  refine ⟨q, rfl, ?_⟩
  rintro ⟨hleast | ⟨hnone, -⟩, -⟩
  . exact absurd hleast.2.1 (by decide)
  . exact hnone ⟨3, 3, 1, 1⟩ (by decide) rfl

end Sched.Runqueue
