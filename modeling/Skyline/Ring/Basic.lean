import Mathlib

/-!
This module contains circular doubly linked lists.
-/

namespace Ring

variable {α : Type} {next prev next' prev' : α → α} {a b c m : α} {l l1 l2 : List α}

def Path (next prev : α → α) (a : α) (l : List α) (b : α) : Prop :=
  match l with
  | [] => next a = b ∧ prev b = a
  | c :: l => (next a = c ∧ prev c = a) ∧ Path next prev c l b

def IsRing (next prev : α → α) (l : List α) : Prop :=
  match l with
  | [] => True
  | a :: l => Path next prev a l a

theorem path_append (next prev : α → α) (a : α) (l1 : List α) (c : α) (l2 : List α) (b : α)
    : Path next prev a (l1 ++ c :: l2) b ↔ Path next prev a l1 c ∧ Path next prev c l2 b := by
  induction l1 generalizing a with
  | nil => rfl
  | cons d _ ih =>
    simp only [List.cons_append, Path, ih d, and_assoc]

section

variable (h : Path next prev a l b)
include h

theorem Path.next_mem (hm : m ∈ a :: l) : next m ∈ l ++ [b] := by
  induction l generalizing a with
  | nil =>
    rw [List.mem_singleton] at hm
    rw [hm, h.1]
    simp
  | cons _ _ ih =>
    obtain ⟨hfirst, hrest⟩ := h
    rw [List.mem_cons] at hm
    cases hm with
    | inl heq =>
      rw [heq, hfirst.1]
      simp
    | inr hmem => exact List.mem_cons_of_mem _ (ih hrest hmem)

theorem Path.prev_mem (hm : m ∈ l ++ [b]) : prev m ∈ a :: l := by
  induction l generalizing a with
  | nil =>
    rw [List.nil_append, List.mem_singleton] at hm
    rw [hm, h.2]
    simp
  | cons _ _ ih =>
    obtain ⟨hfirst, hrest⟩ := h
    rw [List.cons_append, List.mem_cons] at hm
    cases hm with
    | inl heq =>
      rw [heq, hfirst.2]
      simp
    | inr hmem => exact List.mem_cons_of_mem _ (ih hrest hmem)

theorem Path.congr (hnext : ∀ (x : α), x ∈ a :: l → next' x = next x)
    (hprev : ∀ (x : α), x ∈ l ++ [b] → prev' x = prev x)
    : Path next' prev' a l b := by
  induction l generalizing a with
  | nil =>
    rw [Path, hnext a (by simp), hprev b (by simp)]
    exact h
  | cons c _ ih =>
    obtain ⟨hfirst, hrest⟩ := h
    rw [Path, hnext a (by simp), hprev c (by simp)]
    refine ⟨hfirst, ih hrest ?_ ?_⟩
    . exact fun x hx => hnext x (List.mem_cons_of_mem _ hx)
    . exact fun x hx => hprev x (List.mem_cons_of_mem _ hx)

theorem Path.retarget (hnodup : (a :: l).Nodup)
    (hnext : ∀ (x : α), x ∈ a :: l → x ≠ prev b → next' x = next x)
    (hprev : ∀ (x : α), x ∈ l → prev' x = prev x)
    (hlast : next' (prev b) = c) (hend : prev' c = prev b)
    : Path next' prev' a l c := by
  induction l generalizing a with
  | nil =>
    rw [h.2] at hlast hend
    exact ⟨hlast, hend⟩
  | cons d _ ih =>
    obtain ⟨hfirst, hrest⟩ := h
    rw [List.nodup_cons] at hnodup
    have hne : a ≠ prev b := by
      intro heq
      have := hrest.prev_mem (m := b) (by simp)
      exact hnodup.1 (heq ▸ this)
    rw [Path, hnext a (by simp) hne, hprev d (by simp)]
    refine ⟨hfirst, ih hrest hnodup.2 ?_ ?_⟩
    . exact fun x hx => hnext x (List.mem_cons_of_mem _ hx)
    . exact fun x hx => hprev x (List.mem_cons_of_mem _ hx)

end

theorem IsRing.rotate (h : IsRing next prev (a :: l)) : IsRing next prev (l ++ [a]) := by
  cases l with
  | nil => exact h
  | cons c l =>
    show Path next prev c (l ++ a :: []) c
    rw [path_append]
    exact ⟨h.2, h.1⟩

theorem IsRing.next_mem (h : IsRing next prev l) (hm : m ∈ l) : next m ∈ l := by
  cases l with
  | nil => cases hm
  | cons =>
    have := Path.next_mem h hm
    rw [List.mem_append, List.mem_singleton] at this
    rw [List.mem_cons]
    exact this.symm

theorem IsRing.prev_mem (h : IsRing next prev l) (hm : m ∈ l) : prev m ∈ l := by
  cases l with
  | nil => cases hm
  | cons =>
    apply Path.prev_mem h
    rw [List.mem_append, List.mem_singleton]
    exact (List.mem_cons.mp hm).symm

theorem IsRing.congr (h : IsRing next prev l) (hnext : ∀ (x : α), x ∈ l → next' x = next x)
    (hprev : ∀ (x : α), x ∈ l → prev' x = prev x)
    : IsRing next' prev' l := by
  cases l with
  | nil => trivial
  | cons =>
    apply Path.congr h hnext
    intro x hx
    rw [List.mem_append, List.mem_singleton] at hx
    exact hprev x (List.mem_cons.mpr hx.symm)

theorem IsRing.insert (h : IsRing next prev (a :: l)) (hnodup : (a :: l).Nodup)
    (hnext : ∀ (x : α), x ∈ a :: l → x ≠ prev a → next' x = next x)
    (hprev : ∀ (x : α), x ∈ l → prev' x = prev x)
    (hlast : next' (prev a) = m) (hm : prev' m = prev a ∧ next' m = a) (hfirst : prev' a = m)
    : IsRing next' prev' (a :: (l ++ [m])) := by
  show Path next' prev' a (l ++ m :: []) a
  rw [path_append]
  exact ⟨Path.retarget h hnodup hnext hprev hlast hm.1, hm.2, hfirst⟩

theorem IsRing.remove_tail (h : IsRing next prev (a :: (l1 ++ m :: l2)))
    (hnodup : (a :: (l1 ++ m :: l2)).Nodup)
    (hnext : ∀ (x : α), x ∈ a :: (l1 ++ l2) → x ≠ prev m → next' x = next x)
    (hprev : ∀ (x : α), x ∈ a :: (l1 ++ l2) → x ≠ next m → prev' x = prev x)
    (hlast : next' (prev m) = next m) (hfirst : prev' (next m) = prev m)
    : IsRing next' prev' (a :: (l1 ++ l2)) := by
  have hpath : Path next prev a (l1 ++ m :: l2) a := h
  rw [path_append] at hpath
  obtain ⟨hbefore, hafter⟩ := hpath
  have hsplit := List.nodup_append'.mp (List.nodup_cons.mp hnodup).2
  have hmid := List.nodup_cons.mp hsplit.2.1
  have ha := (List.nodup_cons.mp hnodup).1
  have hhead : (a :: l1).Nodup := List.Nodup.sublist (by simp) hnodup
  have hlast_mem := hbefore.prev_mem (m := m) (by simp)
  show Path next' prev' a (l1 ++ l2) a
  cases l2 with
  | nil =>
    rw [List.append_nil] at hnext hprev ⊢
    rw [hafter.1] at hlast hfirst hprev
    apply hbefore.retarget hhead hnext _ hlast hfirst
    intro x hx
    apply hprev x (List.mem_cons_of_mem _ hx)
    rintro rfl
    exact ha (by simp [hx])
  | cons c l2 =>
    obtain ⟨hc, hrest⟩ := hafter
    rw [hc.1] at hlast hfirst hprev
    rw [path_append]
    constructor
    . apply hbefore.retarget hhead _ _ hlast hfirst
      . intro x hx
        apply hnext x
        simp only [List.mem_cons, List.mem_append] at hx ⊢
        tauto
      . intro x hx
        apply hprev x (by simp [hx])
        rintro rfl
        exact hsplit.2.2 hx (by simp)
    . have hcl := List.nodup_cons.mp hmid.2
      apply hrest.congr
      . intro x hx
        apply hnext x
        . simp only [List.mem_cons, List.mem_append] at hx ⊢
          tauto
        . intro heq
          rw [← heq, List.mem_cons] at hlast_mem
          have hxm : x ∈ m :: c :: l2 := List.mem_cons_of_mem _ hx
          cases hlast_mem with
          | inl hxa =>
            apply ha
            rw [← hxa]
            exact List.mem_append_right _ hxm
          | inr hmem => exact hsplit.2.2 hmem hxm
      . intro x hx
        rw [List.mem_append, List.mem_singleton] at hx
        apply hprev x
        . simp only [List.mem_cons, List.mem_append]
          tauto
        . rintro rfl
          cases hx with
          | inl hmem => exact hcl.1 hmem
          | inr hxa =>
            apply ha
            rw [← hxa]
            simp

theorem IsRing.remove (h : IsRing next prev (l1 ++ m :: l2)) (hnodup : (l1 ++ m :: l2).Nodup)
    (hnext : ∀ (x : α), x ∈ l1 ++ l2 → x ≠ prev m → next' x = next x)
    (hprev : ∀ (x : α), x ∈ l1 ++ l2 → x ≠ next m → prev' x = prev x)
    (hlast : next' (prev m) = next m) (hfirst : prev' (next m) = prev m)
    : IsRing next' prev' (l1 ++ l2) := by
  cases l1 with
  | cons => exact IsRing.remove_tail h hnodup hnext hprev hlast hfirst
  | nil =>
    cases l2 with
    | nil => trivial
    | cons c l2 =>
      have hrot : IsRing next prev (c :: (l2 ++ m :: [])) := IsRing.rotate h
      have hperm : (m :: c :: l2).Perm (c :: (l2 ++ m :: [])) :=
        (List.perm_append_singleton m (c :: l2)).symm
      have hl : c :: l2 = c :: (l2 ++ []) := by rw [List.append_nil]
      rw [List.nil_append, hl] at hnext hprev ⊢
      exact hrot.remove_tail (hperm.nodup_iff.mp hnodup) hnext hprev hlast hfirst

end Ring
