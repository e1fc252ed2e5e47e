import Skyline.PMM.Lemmas.Inv
import Skyline.VMM.Impl.Table

/-!
This module contains the lemmas about page tables and what they show.
-/

namespace VMM

def SameBlock (k height v w : Nat) : Prop :=
  ∀ (j : Nat), k ≤ j → j < height → index j v = index j w

theorem span_pos (k : Nat) : 0 < span k :=
  Nat.mul_pos (by omega) (Nat.pow_pos (by omega))

theorem span_div (k : Nat) : span k / 4096 = 512 ^ k := by
  rw [span, Nat.mul_div_cancel_left _ (by omega)]

variable {height k v phys w j : Nat} {e : Entry} {flags : BitVec 64}

namespace Entry

def frame? (e : Entry) : Option Nat :=
  match e with
  | .table frame _ => some frame
  | _ => Option.none

def Path (height : Nat) (e : Entry) (k vaddr : Nat) : Prop :=
  match height with
  | 0 => True
  | height + 1 =>
    k ≤ height → e.frame?.isSome ∧ (e.entries (index height vaddr)).Path height k vaddr

theorem find_self (e : Entry) (k v : Nat) : e.find k k v = e := by
  cases k with
  | zero => rfl
  | succ =>
    rw [find, if_neg]
    omega

theorem find_succ (hk : k ≤ height) (e : Entry) (v : Nat)
    : e.find (height + 1) k v = (e.entries (index height v)).find height k v := by
  rw [find, if_pos hk]

theorem find_none (height k v : Nat) : none.find height k v = none := by
  induction height with
  | zero => rfl
  | succ _ ih =>
    rw [find]
    split
    . exact ih
    . rfl

theorem find_succ_leaf (hk : k ≤ height)
    (h : e.find (height + 1) k v = leaf phys flags)
    : ∃ (frame : Nat) (entries : Nat → Entry), e = table frame entries
        ∧ (entries (index height v)).find height k v = leaf phys flags := by
  rw [find_succ hk] at h
  cases e with
  | none => simp [entries, find_none] at h
  | leaf => simp [entries, find_none] at h
  | table frame entries => exact ⟨frame, entries, rfl, h⟩

theorem set_self (e : Entry) (k v : Nat) (x : Entry) : e.set k k v x = x := by
  cases k with
  | zero => rfl
  | succ k => simp only [set, if_neg (Nat.not_succ_le_self k)]

theorem set_none (hk : k ≤ height) (v : Nat) (x : Entry)
    : none.set (height + 1) k v x = none := by
  simp [set, hk]

theorem set_leaf (hk : k ≤ height) (phys : Nat) (flags : BitVec 64) (v : Nat) (x : Entry)
    : (leaf phys flags).set (height + 1) k v x = leaf phys flags := by
  simp [set, hk]

theorem set_table (hk : k ≤ height) (frame : Nat) (entries : Nat → Entry) (v : Nat)
    (x : Entry)
    : (table frame entries).set (height + 1) k v x
        = table frame fun i => if i = index height v then (entries i).set height k v x
          else entries i := by
  rw [set, if_pos hk]

theorem exists_table (h : e.frame?.isSome) : ∃ (frame : Nat), e = table frame e.entries := by
  cases e with
  | none => contradiction
  | leaf => contradiction
  | table frame => exact ⟨frame, rfl⟩

theorem Path.succ (h : e.Path (height + 1) k v) (hk : k ≤ height)
    : ∃ (frame : Nat), e = table frame e.entries
      ∧ (e.entries (index height v)).Path height k v := by
  obtain ⟨hframe, hpath⟩ := h hk
  obtain ⟨frame, he⟩ := exists_table hframe
  exact ⟨frame, he, hpath⟩

theorem walk_table (height frame : Nat) (entries : Nat → Entry) (v : Nat)
    : (table frame entries).walk (height + 1) v = (entries (index height v)).walk height v := by
  rw [walk]

end Entry

theorem SameBlock.succ (h : SameBlock k (height + 1) v w)
    : SameBlock k height v w := by
  intro j h1 h2
  exact h j h1 (by omega)

theorem SameBlock.top (h : SameBlock k (height + 1) v w) (hk : k ≤ height)
    : index height w = index height v :=
  (h height hk (by omega)).symm

theorem SameBlock.of_succ (h : SameBlock k height v w)
    (htop : index height w = index height v) : SameBlock k (height + 1) v w := by
  intro j h1 h2
  by_cases hj : j = height
  . rw [hj, htop]
  . exact h j h1 (by omega)

namespace Entry

theorem walk_set_same (x : Entry) (hk : k ≤ height)
    (hpath : e.Path height k v) (hsame : SameBlock k height v w)
    : (e.set height k v x).walk height w = x.walk k w := by
  induction height, hk using Nat.le_induction generalizing e with
  | base => rw [set_self]
  | succ height hk ih =>
    obtain ⟨frame, he, hpath⟩ := hpath.succ hk
    rw [he, set_table hk, walk_table, if_pos (hsame.top hk), hsame.top hk]
    exact ih hpath hsame.succ

theorem walk_set_other (e : Entry) (x : Entry) (hk : k ≤ height)
    (hne : ¬SameBlock k height v w) : (e.set height k v x).walk height w = e.walk height w := by
  induction height, hk using Nat.le_induction generalizing e with
  | base =>
    exfalso
    apply hne
    intro j h1 h2
    omega
  | succ height hk ih =>
    cases e with
    | none => rw [set_none hk]
    | leaf => rw [set_leaf hk]
    | table =>
      rw [set_table hk, walk_table, walk_table]
      split
      . next htop => exact ih _ fun hsame => hne (hsame.of_succ htop)
      . rfl

theorem find_set_same (x : Entry) (hj : j ≤ k)
    (hk : k ≤ height) (hpath : e.Path height k v) (hsame : SameBlock k height v w)
    : (e.set height k v x).find height j w = x.find k j w := by
  induction height, hk using Nat.le_induction generalizing e with
  | base => rw [set_self]
  | succ height hk ih =>
    obtain ⟨frame, he, hpath⟩ := hpath.succ hk
    rw [he, set_table hk, find_succ (by omega), entries, if_pos (hsame.top hk), hsame.top hk]
    exact ih hpath hsame.succ

theorem walk_find (hk : k ≤ height) (hpath : e.Path height k v)
    (hsame : SameBlock k height v w) : (e.find height k v).walk k w = e.walk height w := by
  induction height, hk using Nat.le_induction generalizing e with
  | base => rw [find_self]
  | succ height hk ih =>
    obtain ⟨frame, he, hpath⟩ := hpath.succ hk
    rw [find_succ hk]
    nth_rewrite 2 [he]
    rw [walk_table, hsame.top hk]
    exact ih hpath hsame.succ

theorem Path.of_find (h : e.Path height (k + 1) v)
    (hframe : (e.find height (k + 1) v).frame?.isSome) (hk : k + 1 ≤ height)
    : e.Path height k v := by
  induction height generalizing e with
  | zero => omega
  | succ height ih =>
    intro hk'
    by_cases hk'' : k = height
    . rw [hk'', find_self] at hframe
      refine ⟨hframe, ?_⟩
      rw [hk'']
      cases height with
      | zero => trivial
      | succ => exact fun h => absurd h (by omega)
    . obtain ⟨hframe', hpath⟩ := h (by omega)
      rw [find_succ (by omega)] at hframe
      exact ⟨hframe', ih hpath hframe (by omega)⟩

theorem Path.set (h : e.Path height j v) (w : Nat) (x : Entry)
    (hk : k ≤ j) : (e.set height k w x).Path height j v := by
  induction height generalizing e with
  | zero => trivial
  | succ _ ih =>
    intro hj
    obtain ⟨frame, he, hpath⟩ := h.succ hj
    rw [he, set_table (by omega)]
    refine ⟨rfl, ?_⟩
    rw [entries]
    split
    . exact ih hpath
    . exact hpath

theorem walk_cases (e : Entry) (v : Nat)
    : e.walk height v = ⟨0, 0, 0#64⟩ ∨ ∃ (k phys : Nat) (flags : BitVec 64), k ≤ height
        ∧ e.Path height k v ∧ e.find height k v = leaf phys flags
        ∧ e.walk height v = ⟨phys, span k, flags⟩ := by
  induction height generalizing e with
  | zero =>
    cases e with
    | none => exact Or.inl rfl
    | leaf phys flags => exact Or.inr ⟨0, phys, flags, by omega, trivial, rfl, rfl⟩
    | table => exact Or.inl rfl
  | succ height ih =>
    cases e with
    | none => exact Or.inl rfl
    | leaf phys flags =>
      refine Or.inr ⟨height + 1, phys, flags, by omega, fun h => absurd h (by omega), ?_, rfl⟩
      rw [find_self]
    | table _ entries =>
      rw [walk_table]
      rcases ih (entries (index height v)) with hnone | ⟨k, phys, flags, hk, hpath, hfind, hwalk⟩
      . exact Or.inl hnone
      . refine Or.inr ⟨k, phys, flags, by omega, fun _ => ⟨rfl, hpath⟩, ?_, hwalk⟩
        rw [find_succ hk]
        exact hfind

theorem walk_of_find (hk : k ≤ height)
    (hfind : e.find height k v = leaf phys flags) (hsame : SameBlock k height v w)
    : e.walk height w = ⟨phys, span k, flags⟩ := by
  induction height, hk using Nat.le_induction generalizing e with
  | base =>
    rw [find_self] at hfind
    rw [hfind, walk]
  | succ height hk ih =>
    obtain ⟨frame, entries, rfl, hbelow⟩ := find_succ_leaf hk hfind
    rw [walk_table, hsame.top hk]
    exact ih hbelow hsame.succ

theorem Path.of_leaf
    (hfind : e.find height k v = leaf phys flags) : e.Path height k v := by
  induction height generalizing e with
  | zero => trivial
  | succ _ ih =>
    intro hk
    obtain ⟨frame, entries, rfl, hbelow⟩ := find_succ_leaf hk hfind
    exact ⟨rfl, ih hbelow⟩

theorem unmap_of_none (e : Entry) (h : e.walk height v = ⟨0, 0, 0#64⟩)
    : e.unmap height v = e := by
  induction height generalizing e with
  | zero =>
    cases e with
    | none => rfl
    | leaf => simp [walk, span] at h
    | table => rfl
  | succ height ih =>
    cases e with
    | none => rfl
    | leaf =>
      have := span_pos (height + 1)
      simp only [walk, PageInfo.mk.injEq] at h
      omega
    | table =>
      rw [walk_table] at h
      rw [unmap]
      congr 1
      funext i
      split
      . next hi => rw [hi, ih _ h]
      . rfl

theorem unmap_of_leaf (hk : k ≤ height)
    (hfind : e.find height k v = leaf phys flags) : e.unmap height v = e.set height k v none := by
  induction height, hk using Nat.le_induction generalizing e with
  | base =>
    rw [find_self] at hfind
    rw [hfind, set_self, unmap]
  | succ height hk ih =>
    obtain ⟨frame, entries, rfl, hbelow⟩ := find_succ_leaf hk hfind
    rw [unmap, set_table hk]
    congr 1
    funext i
    split
    . next hi =>
      rw [hi]
      exact ih hbelow
    . rfl

end Entry

theorem index_eq (k v : Nat) : index k v = v / 4096 / 512 ^ k % 512 := by
  rw [index, span, Nat.div_div_eq_div_mul]

theorem sameBlock_iff (k d v w : Nat)
    : SameBlock k (k + d) v w
        ↔ v / 4096 / 512 ^ k % 512 ^ d = w / 4096 / 512 ^ k % 512 ^ d := by
  induction d with
  | zero =>
    simp only [Nat.pow_zero, Nat.mod_one, iff_true]
    intro j h1 h2
    omega
  | succ d ih =>
    have hindex : ∀ (v : Nat), index (k + d) v = v / 4096 / 512 ^ k / 512 ^ d % 512 := by
      intro v
      rw [index_eq, Nat.pow_add, ← Nat.div_div_eq_div_mul]
    have hsplit : SameBlock k (k + (d + 1)) v w
        ↔ SameBlock k (k + d) v w ∧ index (k + d) v = index (k + d) w := by
      constructor
      . intro h
        exact ⟨h.succ, h (k + d) (by omega) (by omega)⟩
      . intro h
        exact h.left.of_succ h.right.symm
    rw [hsplit, ih, hindex, hindex, Nat.mod_pow_succ, Nat.mod_pow_succ]
    generalize v / 4096 / 512 ^ k = x
    generalize w / 4096 / 512 ^ k = y
    constructor
    . intro h
      rw [h.left, h.right]
    . intro h
      have hpos : 0 < 512 ^ d := Nat.pow_pos (by omega)
      have h1 := congrArg (· % 512 ^ d) h
      have h2 := congrArg (· / 512 ^ d) h
      simp only [Nat.add_mul_mod_self_left, Nat.mod_mod] at h1
      simp only [Nat.add_mul_div_left _ _ hpos, Nat.div_eq_of_lt (Nat.mod_lt _ hpos),
        Nat.zero_add] at h2
      exact ⟨h1, h2⟩

theorem sameBlock_page {p : Nat} (hk : k ≤ 4) (hv : v < 2 ^ 48) (hp : p < 2 ^ 36)
    : SameBlock k 4 v (p * 4096) ↔ p / 512 ^ k = v / 4096 / 512 ^ k := by
  have hlt : ∀ (q : Nat), q < 2 ^ 36 → q / 512 ^ k % 512 ^ (4 - k) = q / 512 ^ k := by
    intro q hq
    apply Nat.mod_eq_of_lt
    rw [Nat.div_lt_iff_lt_mul (Nat.pow_pos (by omega)), ← Nat.pow_add, Nat.sub_add_cancel hk]
    omega
  have h := sameBlock_iff k (4 - k) v (p * 4096)
  rw [Nat.add_sub_cancel' hk, Nat.mul_div_cancel _ (by omega), hlt p hp,
    hlt (v / 4096) (by omega)] at h
  rw [h]
  exact eq_comm

namespace Pagemap

def setEntry (map : Pagemap) (k vaddr : Nat) (x : Entry) : Pagemap :=
  { map with entries := (map.root.set 4 k vaddr x).entries }

end Pagemap

def avail (s : State) : Set Nat :=
  { f | f ∈ PMM.avail s.pmm ∧ f ∉ s.nodePages }

namespace Pagemap

variable {map : Pagemap} {k v : Nat}

theorem setEntry_root (hk : k ≤ 3) (x : Entry)
    : (map.setEntry k v x).root = map.root.set 4 k v x := by
  simp only [setEntry, root]
  rw [Entry.set_table hk]
  rfl

end Pagemap

theorem pagemap_setEntry (s : State) (a k v : Nat) (x : Entry) (b : Nat)
    : (setEntry s a k v x).pagemap b = if b = a then (s.pagemap a).setEntry k v x
      else s.pagemap b :=
  rfl

end VMM
