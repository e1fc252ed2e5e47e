import Skyline.VMM.Impl.Space
import Skyline.VMM.Lemmas.Table

/-!
This module contains what the two loops that free a region do to the page tables.
-/

namespace VMM

namespace Pagemap

def leaf (map : Pagemap) (p : Nat) : PageInfo :=
  map.root.walk 4 (p * 4096)

def unmap (map : Pagemap) (p : Nat) : Pagemap :=
  { map with entries := (map.root.unmap 4 (p * 4096)).entries }

def Together (map : Pagemap) (q p : Nat) : Prop :=
  (map.leaf q).size ≠ 0 ∧ p / ((map.leaf q).size / 4096) = q / ((map.leaf q).size / 4096)

def Pair (map : Pagemap) (owned : Bool) (q : Nat) : Prop :=
  owned = true ∧ (map.leaf q).size = 1073741824 ∧ (map.leaf (q + 262144)).size = 1073741824
    ∧ (map.leaf (q + 262144)).phys = (map.leaf q).phys + 1073741824

instance (map : Pagemap) (owned : Bool) (q : Nat) : Decidable (map.Pair owned q) :=
  inferInstanceAs (Decidable (_ ∧ _))

def stride (map : Pagemap) (owned : Bool) (q : Nat) : Nat :=
  if (map.leaf q).size = 0 then 1
  else if map.Pair owned q then 524288
  else (map.leaf q).size / 4096

def Takes (map : Pagemap) (owned : Bool) (q p : Nat) : Prop :=
  map.Together q p ∨ map.Pair owned q ∧ map.Together (q + 262144) p

inductive Swept (map : Pagemap) (owned : Bool) (stop : Nat) : Nat → Nat → Prop where
  | here {q p : Nat} (hq : q < stop) (h : map.Takes owned q p) : Swept map owned stop q p
  | later {q p : Nat} (hq : q < stop) (h : Swept map owned stop (q + map.stride owned q) p)
    : Swept map owned stop q p

variable {map : Pagemap} {owned : Bool} {stop q p : Nat}

theorem swept_iff
    : map.Swept owned stop q p
        ↔ q < stop ∧ (map.Takes owned q p ∨ map.Swept owned stop (q + map.stride owned q) p) := by
  constructor
  . intro h
    cases h with
    | here hq h => exact ⟨hq, .inl h⟩
    | later hq h => exact ⟨hq, .inr h⟩
  . rintro ⟨hq, h | h⟩
    . exact .here hq h
    . exact .later hq h

theorem leaf_cases (map : Pagemap) (q : Nat)
    : map.leaf q = ⟨0, 0, 0#64⟩ ∨ ∃ (k phys : Nat) (flags : BitVec 64), k ≤ 3
        ∧ map.root.find 4 k (q * 4096) = .leaf phys flags ∧ map.leaf q = ⟨phys, span k, flags⟩ := by
  rcases Entry.walk_cases map.root (q * 4096) with h | ⟨k, phys, flags, hk, -, hfind, hwalk⟩
  . exact .inl h
  . refine .inr ⟨k, phys, flags, ?_, hfind, hwalk⟩
    -- The top level is a table and no leaf.
    have : k ≠ 4 := by
      rintro rfl
      rw [Entry.find_self] at hfind
      cases hfind
    omega

theorem together_iff {k phys : Nat} {flags : BitVec 64} (h : map.leaf q = ⟨phys, span k, flags⟩)
    : map.Together q p ↔ p / 512 ^ k = q / 512 ^ k := by
  have := span_pos k
  simp only [Together, h, span_div]
  constructor
  . exact fun h => h.right
  . exact fun h => ⟨by omega, h⟩

theorem not_together_of_none (h : map.leaf q = ⟨0, 0, 0#64⟩) : ¬map.Together q p :=
  fun htogether => htogether.left (by rw [h])

theorem together_congr {map' : Pagemap} (h : map'.leaf q = map.leaf q)
    : map'.Together q p ↔ map.Together q p := by
  simp only [Together, h]

theorem Together.lt (h : map.Together q p) : p < q + (map.leaf q).size / 4096 := by
  rcases map.leaf_cases q with hnone | ⟨k, phys, flags, -, -, hleaf⟩
  . exact absurd h (not_together_of_none hnone)
  . rw [together_iff hleaf] at h
    simp only [hleaf, span_div]
    have hpos : 0 < 512 ^ k := Nat.pow_pos (by omega)
    have := Nat.lt_mul_div_succ p hpos
    have := Nat.mul_div_le q (512 ^ k)
    rw [h, Nat.mul_add] at *
    omega

structure Cleared (map map' : Pagemap) (gone : Nat → Prop) : Prop where
  away : ∀ p < 2 ^ 36, gone p → map'.leaf p = ⟨0, 0, 0#64⟩
  rest : ∀ p < 2 ^ 36, ¬gone p → map'.leaf p = map.leaf p

theorem cleared_unmap (map : Pagemap) (hq : q < 2 ^ 36)
    : map.Cleared (map.unmap q) (map.Together q) := by
  rcases map.leaf_cases q with hnone | ⟨k, phys, flags, hk, hfind, hleaf⟩
  . have hsame : map.unmap q = map := by
      simp only [unmap]
      rw [Entry.unmap_of_none _ hnone]
      rfl
    rw [hsame]
    exact ⟨fun p _ hp => absurd hp (not_together_of_none hnone), fun _ _ _ => rfl⟩
  . have hset : (map.unmap q).root = map.root.set 4 k (q * 4096) .none := by
      rw [← setEntry_root hk]
      simp only [unmap, setEntry]
      rw [Entry.unmap_of_leaf (by omega) hfind]
    have hblock : ∀ p < 2 ^ 36, map.Together q p ↔ SameBlock k 4 (q * 4096) (p * 4096) := by
      intro p hp
      rw [together_iff hleaf, sameBlock_page (by omega) (by omega) hp,
        Nat.mul_div_cancel _ (by omega)]
    constructor
    . intro p hp htogether
      have hsame := (hblock p hp).mp htogether
      simp only [leaf, hset]
      rw [Entry.walk_set_same .none (by omega) (.of_leaf hfind) hsame]
      cases k <;> rfl
    . intro p hp htogether
      have hother := (not_congr (hblock p hp)).mp htogether
      simp only [leaf, hset]
      rw [Entry.walk_set_other _ .none (by omega) hother]

theorem Cleared.refl (map : Pagemap) : map.Cleared map fun _ => False :=
  ⟨fun _ _ h => h.elim, fun _ _ _ => rfl⟩

theorem Cleared.trans {map' map'' : Pagemap} {gone gone' : Nat → Prop} (h1 : map.Cleared map' gone)
    (h2 : map'.Cleared map'' gone') : map.Cleared map'' fun p => gone p ∨ gone' p := by
  constructor
  . intro p hp hgone
    by_cases hlast : gone' p
    . exact h2.away p hp hlast
    . rw [h2.rest p hp hlast]
      exact h1.away p hp (hgone.resolve_right hlast)
  . intro p hp hrest
    rw [not_or] at hrest
    rw [h2.rest p hp hrest.right, h1.rest p hp hrest.left]

theorem Cleared.congr {map' : Pagemap} {gone gone' : Nat → Prop} (h : map.Cleared map' gone)
    (hgone : ∀ p < 2 ^ 36, gone p ↔ gone' p) : map.Cleared map' gone' :=
  ⟨fun p hp hp' => h.away p hp ((hgone p hp).mpr hp'),
    fun p hp hp' => h.rest p hp fun hp'' => hp' ((hgone p hp).mp hp'')⟩

theorem Pair.stride_eq (h : map.Pair owned q) : map.stride owned q = 524288 := by
  have : (map.leaf q).size ≠ 0 := by simp [h.2.1]
  rw [stride, if_neg this, if_pos h]

theorem Takes.lt (h : map.Takes owned q p) : p < q + map.stride owned q := by
  by_cases hpair : map.Pair owned q
  . rw [hpair.stride_eq]
    rcases h with h | ⟨-, h⟩
    . have hlt := h.lt
      simp only [hpair.2.1, Nat.reduceDiv] at hlt
      omega
    . have hlt := h.lt
      simp only [hpair.2.2.1, Nat.add_assoc, Nat.reduceDiv, Nat.reduceAdd] at hlt
      exact hlt
  . have h := h.resolve_right fun h => hpair h.left
    rw [stride, if_neg h.left, if_neg hpair]
    exact h.lt

def Sweeping (map : Pagemap) (owned : Bool) (stop start q : Nat) (map' : Pagemap) : Prop :=
  ∃ gone : Nat → Prop, map.Cleared map' gone ∧ (∀ p, gone p → p < q)
    ∧ ∀ p, map.Swept owned stop start p ↔ gone p ∨ map.Swept owned stop q p

theorem Sweeping.start (map : Pagemap) (owned : Bool) (stop start : Nat)
    : map.Sweeping owned stop start start map :=
  ⟨fun _ => False, .refl map, fun _ h => h.elim, fun _ => (false_or _).symm ▸ Iff.rfl⟩

section

variable {map' map'' : Pagemap} {start : Nat}

section

variable (h : map.Sweeping owned stop start q map')
include h

theorem Sweeping.leaf_eq (hp : q ≤ p) (hp36 : p < 2 ^ 36)
    : map'.leaf p = map.leaf p := by
  obtain ⟨gone, hcleared, hbehind, -⟩ := h
  exact hcleared.rest p hp36 fun hgone => absurd (hbehind p hgone) (by omega)

theorem Sweeping.step (hq : q < stop)
    (hstep : map'.Cleared map'' (map.Takes owned q))
    : map.Sweeping owned stop start (q + map.stride owned q) map'' := by
  obtain ⟨gone, hcleared, hbehind, hswept⟩ := h
  refine ⟨_, hcleared.trans hstep, ?_, ?_⟩
  . rintro p (hp | hp)
    . have := hbehind p hp
      omega
    . exact hp.lt
  . intro p
    rw [hswept p, swept_iff]
    tauto

theorem Sweeping.skip (hq : q < stop)
    (hsize : (map.leaf q).size = 0) : map.Sweeping owned stop start (q + 1) map' := by
  have hstride : map.stride owned q = 1 := by rw [stride, if_pos hsize]
  rw [← hstride]
  apply h.step hq
  apply (Cleared.refl map').congr
  intro p _
  simp [Takes, Together, Pair, hsize]

theorem Sweeping.take (hq : q < stop) (hq36 : q < 2 ^ 36)
    (hsize : (map.leaf q).size ≠ 0) (hpair : ¬map.Pair owned q)
    : map.Sweeping owned stop start (q + (map.leaf q).size / 4096) (map'.unmap q) := by
  have hstride : map.stride owned q = (map.leaf q).size / 4096 := by
    rw [stride, if_neg hsize, if_neg hpair]
  rw [← hstride]
  apply h.step hq
  apply (map'.cleared_unmap hq36).congr
  intro p _
  rw [together_congr (h.leaf_eq (Nat.le_refl q) hq36)]
  simp [Takes, hpair]

theorem Sweeping.takePair (hq : q < stop)
    (hq36 : q + 262144 < 2 ^ 36) (hpair : map.Pair owned q)
    : map.Sweeping owned stop start (q + 524288) ((map'.unmap q).unmap (q + 262144)) := by
  have hfirst := map'.cleared_unmap (q := q) (by omega)
  have hleaf := h.leaf_eq (Nat.le_refl q) (by omega)
  -- The first leaf ends in front of the second.
  have hapart : ¬map'.Together q (q + 262144) := by
    rw [together_congr hleaf]
    intro htogether
    have hlt := htogether.lt
    simp only [hpair.2.1, Nat.reduceDiv, Nat.lt_irrefl] at hlt
  have hnext : (map'.unmap q).leaf (q + 262144) = map.leaf (q + 262144) := by
    rw [hfirst.rest _ hq36 hapart, h.leaf_eq (by omega) hq36]
  rw [← hpair.stride_eq]
  apply h.step hq
  apply (hfirst.trans ((map'.unmap q).cleared_unmap hq36)).congr
  intro p _
  rw [together_congr hleaf, together_congr hnext]
  simp [Takes, hpair]

theorem Sweeping.done (hq : stop ≤ q)
    : map.Cleared map' (map.Swept owned stop start) := by
  obtain ⟨gone, hcleared, -, hswept⟩ := h
  apply hcleared.congr
  intro p _
  have hnone : ¬map.Swept owned stop q p := by
    intro hp
    rw [swept_iff] at hp
    omega
  rw [hswept p]
  tauto

end

end

theorem Together.leaf_eq (hq : q < 2 ^ 36) (hp : p < 2 ^ 36) (h : map.Together q p)
    : map.leaf p = map.leaf q := by
  rcases map.leaf_cases q with hnone | ⟨k, phys, flags, hk, hfind, hleaf⟩
  . exact absurd h (not_together_of_none hnone)
  . rw [together_iff hleaf] at h
    rw [hleaf]
    unfold leaf
    rw [Entry.walk_of_find (by omega) hfind]
    rw [sameBlock_page (by omega) (by omega) hp, Nat.mul_div_cancel _ (by omega)]
    exact h

/--
The page is not mapped, or the leaf that maps it is smaller than 1 GiB and all of it in the range.
-/
def Whole (map : Pagemap) (start stop q : Nat) : Prop :=
  (map.leaf q).size = 0 ∨ (map.leaf q).size < 1073741824
    ∧ start ≤ q / ((map.leaf q).size / 4096) * ((map.leaf q).size / 4096)
    ∧ q / ((map.leaf q).size / 4096) * ((map.leaf q).size / 4096) + (map.leaf q).size / 4096 ≤ stop

instance (map : Pagemap) (start stop q : Nat) : Decidable (map.Whole start stop q) :=
  inferInstanceAs (Decidable (_ ∨ _))

theorem size_pos (h : (map.leaf q).size ≠ 0) : 0 < (map.leaf q).size / 4096 := by
  rcases map.leaf_cases q with hnone | ⟨k, phys, flags, -, -, hleaf⟩
  . rw [hnone] at h
    exact absurd rfl h
  . rw [hleaf, span_div]
    exact Nat.pow_pos (by omega)

theorem div_eq_of_block {n : Nat} (hlo : q / n * n ≤ p) (hhi : p < q / n * n + n)
    : p / n = q / n := by
  apply Nat.div_eq_of_lt_le hlo
  rwa [Nat.add_mul, Nat.one_mul]

section

variable (owned) {start : Nat} (h : ∀ q, start ≤ q → q < stop → map.Whole start stop q)
variable (hlt : start < stop)
include h hlt

theorem whole_start (hzero : (map.leaf start).size ≠ 0)
    : map.stride owned start = (map.leaf start).size / 4096 ∧ ¬map.Pair owned start
      ∧ start + (map.leaf start).size / 4096 ≤ stop
      ∧ ∀ p, map.Together start p ↔ start ≤ p ∧ p < start + (map.leaf start).size / 4096 := by
  obtain ⟨hsize, hlow, hhigh⟩ := (h start (Nat.le_refl _) hlt).resolve_left hzero
  have hpair : ¬map.Pair owned start := fun hpair => by
    rw [hpair.2.1] at hsize
    omega
  have hbase := Nat.le_antisymm (Nat.div_mul_le_self start ((map.leaf start).size / 4096)) hlow
  rw [hbase] at hhigh
  refine ⟨by simp [stride, hzero, hpair], hpair, hhigh,
    fun p => ⟨fun htogether => ?_, fun hin => ?_⟩⟩
  . have hpos := size_pos hzero
    have hdiv := htogether.2
    have hle := Nat.div_mul_le_self p ((map.leaf start).size / 4096)
    have hlt := Nat.lt_div_mul_add hpos (a := p)
    rw [hdiv, hbase] at hle hlt
    exact ⟨hle, hlt⟩
  . refine ⟨hzero, div_eq_of_block ?_ ?_⟩
    . rw [hbase]
      exact hin.1
    . rw [hbase]
      exact hin.2

-- The leaves behind the first one are whole in the rest of the range.
theorem whole_rest (hstop : stop ≤ 2 ^ 36) (hq : start + map.stride owned start ≤ q)
    (hqs : q < stop)
    : map.Whole (start + map.stride owned start) stop q := by
  by_cases hmapped : (map.leaf q).size = 0
  . exact .inl hmapped
  . obtain ⟨hsize, hlow, hhigh⟩ := (h q (by omega) hqs).resolve_left hmapped
    refine .inr ⟨hsize, Classical.byContradiction fun hover => ?_, hhigh⟩
    -- otherwise the last page of the first leaf is one of the leaf of `q`
    have hpos := size_pos hmapped
    have hend := Nat.lt_div_mul_add hpos (a := q)
    have hlast : map.Together q (start + map.stride owned start - 1) :=
      ⟨hmapped, div_eq_of_block (by omega) (by omega)⟩
    have hleaf := hlast.leaf_eq (by omega) (by omega)
    by_cases hzero : (map.leaf start).size = 0
    . have hone : map.stride owned start = 1 := by simp [stride, hzero]
      rw [hone, Nat.add_sub_cancel] at hleaf
      rw [← hleaf] at hmapped
      exact hmapped hzero
    . obtain ⟨hstride, -, hle, htogether⟩ := whole_start owned h hlt hzero
      have hpos' := size_pos hzero
      rw [hstride] at hleaf hlast hq
      have hfirst := (htogether (start + (map.leaf start).size / 4096 - 1)).mpr (by omega)
      have hsame : map.leaf q = map.leaf start :=
        hleaf.symm.trans (hfirst.leaf_eq (by omega) (by omega))
      have hin : map.Together start q := by
        refine ⟨hzero, ?_⟩
        rw [← hsame, ← hlast.2, hsame]
        exact hfirst.2
      have := (htogether q).mp hin
      omega

end

theorem swept_whole {start : Nat} (h : ∀ q, start ≤ q → q < stop → map.Whole start stop q)
    (hstop : stop ≤ 2 ^ 36) (hp : p < 2 ^ 36)
    : map.Swept owned stop start p ↔ start ≤ p ∧ p < stop ∧ (map.leaf p).size ≠ 0 := by
  obtain ⟨n, hn⟩ : ∃ n, stop - start ≤ n := ⟨_, Nat.le_refl _⟩
  induction n generalizing start with
  | zero =>
    rw [swept_iff]
    omega
  | succ _ ih =>
    by_cases hlt : start < stop
    . rw [swept_iff]
      have hrest := fun q => whole_rest owned h hlt (q := q) hstop
      by_cases hzero : (map.leaf start).size = 0
      . have hone : map.stride owned start = 1 := by simp [stride, hzero]
        have htakes : ¬map.Takes owned start p := by simp [Takes, Together, Pair, hzero]
        rw [hone] at hrest ⊢
        rw [ih hrest (by omega), or_iff_right htakes]
        constructor
        . rintro ⟨-, hle, hrest⟩
          exact ⟨by omega, hrest⟩
        . rintro ⟨hle, hltp, hmapped⟩
          refine ⟨hlt, ?_, hltp, hmapped⟩
          have : p ≠ start := fun heq => hmapped (heq ▸ hzero)
          omega
      . obtain ⟨hstride, hpair, hle, htogether⟩ := whole_start owned h hlt hzero
        have hpos := size_pos hzero
        have htakes : map.Takes owned start p ↔ map.Together start p := by simp [Takes, hpair]
        rw [hstride] at hrest ⊢
        rw [ih hrest (by omega), htakes, htogether p]
        constructor
        . rintro ⟨-, hin | ⟨hlep, hrest⟩⟩
          . rw [((htogether p).mpr hin).leaf_eq (by omega) hp]
            exact ⟨hin.1, by omega, hzero⟩
          . exact ⟨by omega, hrest⟩
        . rintro ⟨hlep, hrest⟩
          refine ⟨hlt, ?_⟩
          by_cases hin : p < start + (map.leaf start).size / 4096
          . exact .inl ⟨hlep, hin⟩
          . exact .inr ⟨by omega, hrest⟩
    . rw [swept_iff]
      omega

section

variable {map' : Pagemap} (hroot : map'.root = map.root)
include hroot

theorem leaf_of_root (p : Nat) : map'.leaf p = map.leaf p := by
  simp only [leaf, hroot]

theorem swept_of_root {start : Nat} (h : map'.Swept owned stop start p)
    : map.Swept owned stop start p := by
  have hleaf := leaf_of_root hroot
  have hpair : ∀ q, map'.Pair owned q ↔ map.Pair owned q := fun q => by simp only [Pair, hleaf]
  induction h with
  | here hq h =>
    apply Swept.here hq
    simpa only [Takes, Together, hpair, hleaf] using h
  | later hq _ ih =>
    apply Swept.later hq
    simpa only [stride, hpair, hleaf] using ih

end

theorem leaf_size_mul (map : Pagemap) (q : Nat)
    : (map.leaf q).size / 4096 * 4096 = (map.leaf q).size := by
  rcases map.leaf_cases q with hnone | ⟨k, phys, flags, -, -, hleaf⟩
  . simp only [hnone, Nat.zero_div, Nat.zero_mul]
  . simp only [hleaf, span_div]
    rw [span, Nat.mul_comm]

end Pagemap

theorem getPageInfo_eq (s : State) (pm q : Nat)
    : getPageInfo s pm (q * 4096) = (s.pagemap pm).leaf q :=
  rfl

theorem unmapNoFlush_pagemap (s : State) (pm q : Nat)
    : (unmapNoFlush s pm (q * 4096)).pagemap pm = (s.pagemap pm).unmap q := by
  simp [unmapNoFlush, State.setEntries, State.setPagemap, Pagemap.unmap]

theorem unrefSharedPhys_pagemap (s : State) (phys : Nat)
    : (unrefSharedPhys s phys).pagemap = s.pagemap := by
  unfold unrefSharedPhys refDecPhys
  split
  next t ht =>
    split at ht
    next =>
      cases ht
      rfl
    next =>
      simp only at ht
      split at ht
      next =>
        cases ht
        rfl
      next => cases ht
  next t ht =>
    split at ht
    next => cases ht
    next =>
      simp only at ht
      split at ht
      next => cases ht
      next =>
        cases ht
        rfl

theorem unrefPages_pagemap (s : State) (phys n : Nat)
    : (Loop.forRange (fun k s => unrefSharedPhys s (phys + k * 4096)) 0 n s).pagemap
      = s.pagemap := by
  apply Loop.forRange_keeps _ (fun t => t.pagemap = s.pagemap) 0 n s rfl
  intro k t ht
  rw [unrefSharedPhys_pagemap, ht]

theorem flushBatch_pagemap (s : State) (physList : List Nat)
    : (flushBatch s physList).pagemap = s.pagemap := by
  induction physList generalizing s with
  | nil => rfl
  | cons _ _ ih => exact ih _

theorem pushPhys_pagemap (acc : List Nat × State) (phys : Nat)
    : (pushPhys acc phys).2.pagemap = acc.2.pagemap := by
  obtain ⟨physList, s⟩ := acc
  simp only [pushPhys]
  split
  . exact flushBatch_pagemap _ _
  . rfl

theorem pushAll_pagemap (f : Nat → Nat) (n : Nat) (acc : List Nat × State)
    : (Loop.forRange (fun j acc => pushPhys acc (f j)) 0 n acc).2.pagemap = acc.2.pagemap := by
  apply Loop.forRange_keeps _ (fun acc' => acc'.2.pagemap = acc.2.pagemap) 0 n acc rfl
  intro j acc' h
  rw [pushPhys_pagemap, h]

section

variable {pm start stop : Nat}

theorem pages_1GB (q : Nat) : q * 4096 + 1073741824 = (q + 262144) * 4096 := by
  omega

theorem pages_2GB (q : Nat) : q * 4096 + 2147483648 = (q + 524288) * 4096 := by
  omega

theorem advance_lt {q size : Nat} (hmul : size / 4096 * 4096 = size) (hsize : size ≠ 0)
    (hq : q < stop)
    : stop - (q * 4096 + size) / 4096 < stop - q * 4096 / 4096 := by
  omega

theorem freeSharedRegion_cleared (pm start stop : Nat) (s : State) (hstop : stop ≤ 2 ^ 35)
    : (s.pagemap pm).Cleared ((freeSharedRegion s pm (start * 4096) (stop * 4096)).pagemap pm)
        ((s.pagemap pm).Swept false stop start) := by
  apply Loop.whileDo_induct (freeSharedRegion.freeSharedPage pm (stop * 4096))
    (fun acc => ∃ q, acc.1 = q * 4096
      ∧ (s.pagemap pm).Sweeping false stop start q (acc.2.pagemap pm))
    (fun acc => (s.pagemap pm).Cleared (acc.2.pagemap pm) ((s.pagemap pm).Swept false stop start))
    (fun acc => stop - acc.1 / 4096)
  . exact ⟨start, rfl, .start _ _ _ _⟩
  . simp only
    omega
  . rintro ⟨v, t⟩ acc ⟨q, hv, hsweep⟩ hbody
    simp only at hv hsweep
    subst hv
    simp only [freeSharedRegion.freeSharedPage] at hbody
    split at hbody
    next hlt =>
      have hleaf := hsweep.leaf_eq (Nat.le_refl q) (by omega)
      rw [getPageInfo_eq, hleaf] at hbody
      split at hbody
      next hsize =>
        cases hbody
        exact ⟨⟨q + 1, by simp only; omega, hsweep.skip (by omega) hsize⟩, by simp only; omega⟩
      next hsize =>
        cases hbody
        have hmul := (s.pagemap pm).leaf_size_mul q
        have htake := hsweep.take (by omega) (by omega) hsize (by simp [Pagemap.Pair])
        rw [← unmapNoFlush_pagemap] at htake
        refine ⟨⟨_, ?_, by simp only [unrefPages_pagemap]; exact htake⟩, ?_⟩
        . rw [Nat.add_mul, hmul]
        . exact advance_lt hmul hsize (by omega)
    next => cases hbody
  . rintro ⟨v, t⟩ acc ⟨q, hv, hsweep⟩ hbody
    simp only at hv hsweep
    subst hv
    simp only [freeSharedRegion.freeSharedPage] at hbody
    split at hbody
    next => split at hbody <;> cases hbody
    next hle =>
      cases hbody
      exact hsweep.done (by omega)

theorem freeOwnedPage_more {s t t' : State} {physList physList' : List Nat} {q v' : Nat}
    (hstop : stop ≤ 2 ^ 35) (hsweep : (s.pagemap pm).Sweeping true stop start q (t.pagemap pm))
    (hbody : freeOwnedRegion.freeOwnedPage pm (stop * 4096) (q * 4096, physList, t)
      = ((v', physList', t'), true))
    : q < stop ∧ ∃ n, 0 < n ∧ v' = (q + n) * 4096
        ∧ (s.pagemap pm).Sweeping true stop start (q + n) (t'.pagemap pm) := by
  simp only [freeOwnedRegion.freeOwnedPage] at hbody
  split at hbody
  next hlt =>
    have hq : q < stop := by omega
    have hleaf := hsweep.leaf_eq (Nat.le_refl q) (by omega)
    have hleaf2 := hsweep.leaf_eq (Nat.le_add_right q 262144) (by omega)
    rw [pages_1GB, getPageInfo_eq, getPageInfo_eq, hleaf, hleaf2] at hbody
    refine ⟨hq, ?_⟩
    split at hbody
    next hsize =>
      cases hbody
      exact ⟨1, by omega, by omega, hsweep.skip hq hsize⟩
    next hsize =>
      have hmul := (s.pagemap pm).leaf_size_mul q
      split at hbody
      next hsize1 =>
        split at hbody
        next hpair =>
          cases hbody
          refine ⟨524288, by omega, pages_2GB q, ?_⟩
          rw [unmapNoFlush_pagemap, unmapNoFlush_pagemap, pushPhys_pagemap]
          exact hsweep.takePair hq (by omega) ⟨rfl, hsize1, hpair⟩
        next hpair =>
          have htake := hsweep.take hq (by omega) hsize fun h => hpair h.2.2
          simp only [hsize1, Nat.reduceDiv] at htake
          rw [Prod.mk.injEq, Prod.mk.injEq, Prod.mk.injEq] at hbody
          refine ⟨262144, by omega, hbody.1.1.symm, ?_⟩
          rw [← hbody.1.2.2]
          rw [unmapNoFlush_pagemap, pushAll_pagemap]
          exact htake
      next hsize1 =>
        cases hbody
        refine ⟨((s.pagemap pm).leaf q).size / 4096, ?_, ?_, ?_⟩
        . exact Nat.pos_of_ne_zero fun h => hsize (by rw [← hmul, h])
        . rw [Nat.add_mul, hmul]
        . rw [unmapNoFlush_pagemap, pushPhys_pagemap]
          exact hsweep.take hq (by omega) hsize fun h => hsize1 h.2.1
  next => cases hbody

theorem freeOwnedRegion_cleared (pm start stop : Nat) (s : State) (hstop : stop ≤ 2 ^ 35)
    : (s.pagemap pm).Cleared ((freeOwnedRegion s pm (start * 4096) (stop * 4096)).pagemap pm)
        ((s.pagemap pm).Swept true stop start) := by
  unfold freeOwnedRegion
  simp only [flushBatch_pagemap]
  apply Loop.whileDo_induct (freeOwnedRegion.freeOwnedPage pm (stop * 4096))
    (fun acc => ∃ q, acc.1 = q * 4096
      ∧ (s.pagemap pm).Sweeping true stop start q (acc.2.2.pagemap pm))
    (fun acc => (s.pagemap pm).Cleared (acc.2.2.pagemap pm) ((s.pagemap pm).Swept true stop start))
    (fun acc => stop - acc.1 / 4096)
  . exact ⟨start, rfl, .start _ _ _ _⟩
  . simp only
    omega
  . rintro ⟨v, physList, t⟩ ⟨v', physList', t'⟩ ⟨q, hv, hsweep⟩ hbody
    simp only at hv hsweep
    subst hv
    obtain ⟨hq, n, hn, hv', hmore⟩ := freeOwnedPage_more hstop hsweep hbody
    refine ⟨⟨q + n, hv', hmore⟩, ?_⟩
    simp only
    omega
  . rintro ⟨v, physList, t⟩ acc ⟨q, hv, hsweep⟩ hbody
    simp only at hv hsweep
    subst hv
    simp only [freeOwnedRegion.freeOwnedPage] at hbody
    split at hbody
    next =>
      repeat' split at hbody
      all_goals cases hbody
    next hle =>
      cases hbody
      exact hsweep.done (by omega)

theorem freeRegion_cleared (pm : Nat) (s : State) {r : Region} (haligned : r.start % 4096 = 0)
    (hlow : r.start + r.pageCount * 4096 ≤ 2 ^ 47)
    : (s.pagemap pm).Cleared ((freeRegion s pm r).pagemap pm)
        ((s.pagemap pm).Swept (!has r.flags vmmSharedBit) (r.start / 4096 + r.pageCount)
          (r.start / 4096)) := by
  have hlast : r.start / 4096 + r.pageCount ≤ 2 ^ 35 := by omega
  have hstart : r.start / 4096 * 4096 = r.start := by omega
  have hstop : (r.start / 4096 + r.pageCount) * 4096 = r.start + r.pageCount * 4096 := by
    rw [Nat.add_mul, hstart]
  unfold freeRegion
  split
  next hshared =>
    have h := freeSharedRegion_cleared pm (r.start / 4096) (r.start / 4096 + r.pageCount) s hlast
    rw [hstart, hstop] at h
    rw [hshared]
    exact h
  next hshared =>
    have h := freeOwnedRegion_cleared pm (r.start / 4096) (r.start / 4096 + r.pageCount) s hlast
    rw [hstart, hstop] at h
    rw [Bool.not_eq_true] at hshared
    rw [hshared]
    exact h

end

end VMM
