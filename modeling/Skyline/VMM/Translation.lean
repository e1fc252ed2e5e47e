import Skyline.VMM.Lemmas.Sentinel
import Skyline.VMM.Lemmas.Sweep

/-!
This module contains the page tables as a map from addresses to memory.
-/

namespace VMM

section

variable {s s' : State} {pm v w k : Nat}

theorem getPageInfo_setEntry_same (hk : k ≤ 3) (hpath : (s.pagemap pm).root.Path 4 k v) (x : Entry)
    (hsame : SameBlock k 4 v w)
    : getPageInfo (setEntry s pm k v x) pm w = x.walk k w := by
  unfold getPageInfo
  rw [pagemap_setEntry, if_pos rfl, Pagemap.setEntry_root hk]
  exact Entry.walk_set_same x (by omega) hpath hsame

theorem getPageInfo_setEntry_other (hk : k ≤ 3) (x : Entry) (hne : ¬ SameBlock k 4 v w)
    : getPageInfo (setEntry s pm k v x) pm w = getPageInfo s pm w := by
  unfold getPageInfo
  rw [pagemap_setEntry, if_pos rfl, Pagemap.setEntry_root hk]
  exact Entry.walk_set_other _ x (by omega) hne

theorem newLevel_walk (hk : k + 1 ≤ 3) (hpath : (s.pagemap pm).root.Path 4 (k + 1) v)
    (h : newLevel s pm v (k + 1) = .ok s')
    : (∀ w, getPageInfo s' pm w = getPageInfo s pm w) ∧ (s'.pagemap pm).root.Path 4 k v := by
  unfold newLevel at h
  split at h
  next frame entries hfind =>
    cases h
    refine ⟨fun w => rfl, hpath.of_find ?_ (by omega)⟩
    rw [hfind]
    rfl
  next => cases h
  next hfind =>
    obtain ⟨⟨frame, s1⟩, hreq, h⟩ := bind_ok.1 h
    cases h
    have hmap : s1.pagemap = s.pagemap := by rw [requestUnchecked_rest hreq]
    have hpath' : (s1.pagemap pm).root.Path 4 (k + 1) v := by
      rw [hmap]
      exact hpath
    constructor
    . intro w
      have hsame : getPageInfo s1 pm w = getPageInfo s pm w := by
        unfold getPageInfo
        rw [hmap]
      by_cases hblock : SameBlock (k + 1) 4 v w
      . rw [getPageInfo_setEntry_same hk hpath' _ hblock, Entry.walk_table]
        unfold getPageInfo
        rw [← Entry.walk_find (by omega) hpath hblock, hfind]
        cases k <;> rfl
      . rw [getPageInfo_setEntry_other hk _ hblock, hsame]
    . rw [pagemap_setEntry, if_pos rfl, Pagemap.setEntry_root hk]
      apply Entry.Path.of_find (hpath'.set v _ (Nat.le_refl _)) _ (by omega)
      rw [Entry.find_set_same _ (Nat.le_refl _) (by omega) hpath' fun _ _ _ => rfl, Entry.find_self]
      rfl

theorem newLevels_walk {n : Nat} (hk : k + n ≤ 3) (hpath : (s.pagemap pm).root.Path 4 (k + n) v)
    (h : newLevels s pm v k n = .ok s')
    : (∀ w, getPageInfo s' pm w = getPageInfo s pm w) ∧ (s'.pagemap pm).root.Path 4 k v := by
  induction n generalizing s with
  | zero =>
    cases h
    exact ⟨fun w => rfl, hpath⟩
  | succ _ ih =>
    obtain ⟨s1, hlevel, h⟩ := bind_ok.1 h
    obtain ⟨hwalk1, hpath1⟩ := newLevel_walk (by omega) hpath hlevel
    obtain ⟨hwalk, hpath'⟩ := ih (by omega) hpath1 h
    exact ⟨fun w => (hwalk w).trans (hwalk1 w), hpath'⟩

theorem getPageInfo_mapPage {height p paddr : Nat} {flags : BitVec 64} (hheight : height ≤ 2)
    (hv : v < 2 ^ 48) (hp : p < 2 ^ 36) (h : mapPage s height pm v paddr flags = .ok s')
    : getPageInfo s' pm (p * 4096) =
      if p / 512 ^ height = v / 4096 / 512 ^ height then
        (leafEntry height paddr flags).walk height (p * 4096)
      else
        getPageInfo s pm (p * 4096) := by
  obtain ⟨s1, hlevels, h⟩ := bind_ok.1 h
  cases h
  have hroot : (s.pagemap pm).root.Path 4 (height + (3 - height)) v := by
    rw [Nat.add_sub_cancel' (by omega)]
    exact fun _ => ⟨rfl, fun h => absurd h (by decide)⟩
  obtain ⟨hwalk, hpath⟩ := newLevels_walk (by omega) hroot hlevels
  split
  next hblock =>
    exact getPageInfo_setEntry_same (by omega) hpath _ ((sameBlock_page (by omega) hv hp).2 hblock)
  next hblock =>
    rw [getPageInfo_setEntry_other (by omega) _
      fun h => hblock ((sameBlock_page (by omega) hv hp).1 h)]
    exact hwalk _

theorem has_leafFlags {flags : BitVec 64} (bit : BitVec 64) (hbit : bit &&& mmRead = 0#64)
    : has (flags &&& pteKeep ||| bit) mmRead = has flags mmRead := by
  unfold has
  rw [BitVec.and_or_distrib_right, hbit, BitVec.or_zero, BitVec.and_assoc]
  rfl

end

variable {s s' : State} {pm v k : Nat} {flags : BitVec 64}

def resolve (s : State) (pm a : Nat) : Option (Nat × BitVec 64) :=
  let info := getPageInfo s pm a
  if info.size = 0 then none else some (info.phys + a % info.size, info.flags &&& ~~~vmmPsBit)

inductive Call where
  | map (height vaddr paddr : Nat) (flags : BitVec 64)
  | mapRange (vaddr paddr : Nat) (flags : BitVec 64) (count : Nat)
  | unmap (vaddr : Nat)
  deriving DecidableEq, Repr

def Call.run (s : State) (pm : Nat) : Call → Except Fault State
  | .map height vaddr paddr flags => mapPage s height pm vaddr paddr flags
  | .mapRange vaddr paddr flags count => VMM.mapRange s pm vaddr paddr flags count
  | .unmap vaddr => .ok (unmapNoFlush s pm vaddr)

/--
The tables have the low 48 bits of a virtual address, in either half, and 52 bits of a physical one.
A range does not wrap around in them.
-/
def Call.Aligned : Call → Prop
  | .map height vaddr paddr _ =>
    height ≤ 2 ∧ vaddr % span height = 0 ∧ paddr % span height = 0 ∧ paddr + span height ≤ 2 ^ 52
  | .mapRange vaddr paddr _ count =>
    vaddr % 4096 = 0 ∧ paddr % 4096 = 0 ∧ vaddr % 2 ^ 48 + count * 4096 ≤ 2 ^ 48 ∧
      paddr + count * 4096 ≤ 2 ^ 52
  | .unmap vaddr => vaddr % 4096 = 0

def put (m : Nat → Option (Nat × BitVec 64)) (vaddr len : Nat) (f : Nat → Option (Nat × BitVec 64))
    : Nat → Option (Nat × BitVec 64) :=
  fun a => if vaddr ≤ a ∧ a < vaddr + len then f a else m a

def target (vaddr paddr : Nat) (flags : BitVec 64) (a : Nat) : Option (Nat × BitVec 64) :=
  some (paddr + (a - vaddr), flags &&& pteKeep &&& ~~~vmmPsBit)

def shown (vaddr paddr : Nat) (flags : BitVec 64) (a : Nat) : Option (Nat × BitVec 64) :=
  if has flags mmRead then target vaddr paddr flags a else none

def Call.apply (m : Nat → Option (Nat × BitVec 64)) : Call → Nat → Option (Nat × BitVec 64)
  | .map height vaddr paddr flags =>
    put m (vaddr % 2 ^ 48) (span height) (target (vaddr % 2 ^ 48) paddr flags)
  | .mapRange vaddr paddr flags count =>
    put m (vaddr % 2 ^ 48) (count * 4096) (target (vaddr % 2 ^ 48) paddr flags)
  | .unmap vaddr => put m (vaddr % 2 ^ 48) 4096 fun _ => none

def Agrees (s s' : State) (pm : Nat) (c : Call) : Prop :=
  ∀ a, resolve s' pm a = c.apply (resolve s pm) (a % 2 ^ 48)

def RangeFits (s : State) (pm vaddr paddr count mapped fuel : Nat) : Prop :=
  match fuel with
  | 0 => True
  | fuel + 1 =>
    mapped < count →
      let height := rangeHeight (vaddr + mapped * 4096) (paddr + mapped * 4096) (count - mapped)
      (getPageInfo s pm (vaddr + mapped * 4096)).size ≤ span height ∧
        RangeFits s pm vaddr paddr count (mapped + 512 ^ height) fuel

/--
The condition on a call: what is mapped is present, and no page of the call is part of a larger one.
-/
def Call.Fits (s : State) (pm : Nat) : Call → Prop
  | .map height vaddr _ flags =>
    has flags mmRead = true ∧ (getPageInfo s pm vaddr).size ≤ span height
  | .mapRange vaddr paddr flags count =>
    0 < count → has flags mmRead = true ∧ RangeFits s pm vaddr paddr count 0 count
  | .unmap vaddr => (getPageInfo s pm vaddr).size ≤ 4096

theorem span_succ (k : Nat) : span (k + 1) = 512 * span k := by
  unfold span
  rw [Nat.pow_succ]
  omega

theorem span_le {j k : Nat} (h : j ≤ k) : span j ≤ span k :=
  Nat.mul_le_mul_left _ (Nat.pow_le_pow_right (by omega) h)

theorem span_lt {j k : Nat} (h : j < k) : span j < span k := by
  have hle := span_le (Nat.succ_le_of_lt h)
  have hpos := span_pos j
  rw [span_succ] at hle
  omega

theorem Entry.walk_size_le (k : Nat) (e : Entry) (v : Nat) : (e.walk k v).size ≤ span k := by
  induction k generalizing e with
  | zero => cases e <;> simp [Entry.walk, span]
  | succ k ih =>
    cases e with
    | none => exact Nat.zero_le _
    | leaf => exact Nat.le_refl _
    | table =>
      rw [Entry.walk_table]
      exact Nat.le_trans (ih _) (span_le (Nat.le_succ k))

theorem index_page (k a : Nat) : index k (a / 4096 * 4096) = index k a := by
  rw [index_eq, index_eq, Nat.mul_div_cancel _ (by omega)]

theorem Entry.walk_page (k : Nat) (e : Entry) (a : Nat)
    : e.walk k (a / 4096 * 4096) = e.walk k a := by
  induction k generalizing e with
  | zero => cases e <;> rfl
  | succ _ ih =>
    cases e with
    | none => rfl
    | leaf => rfl
    | table => rw [Entry.walk_table, Entry.walk_table, index_page, ih]

theorem getPageInfo_page (s : State) (pm a : Nat)
    : getPageInfo s pm (a / 4096 * 4096) = getPageInfo s pm a :=
  Entry.walk_page 4 _ a

theorem span_dvd (hk : k ≤ 4) : span k ∣ 2 ^ 48 := by
  unfold span
  match k with
  | 0 => decide
  | 1 => decide
  | 2 => decide
  | 3 => decide
  | 4 => decide

theorem Entry.walk_size_dvd {n : Nat} (hn : n ≤ 4) (e : Entry) (v : Nat)
    (hsize : (e.walk n v).size ≠ 0) : (e.walk n v).size ∣ 2 ^ 48 := by
  induction n generalizing e with
  | zero =>
    cases e with
    | leaf => exact span_dvd hn
    | _ => exact absurd rfl hsize
  | succ _ ih =>
    cases e with
    | none => exact absurd rfl hsize
    | leaf => exact span_dvd hn
    | table =>
      rw [Entry.walk_table] at hsize ⊢
      exact ih (by omega) _ hsize

section

variable {v' : Nat} (h : v % 2 ^ 48 = v' % 2 ^ 48)
include h

theorem index_congr (hk : k < 4) : index k v = index k v' := by
  unfold index span
  match k with
  | 0 => omega
  | 1 => omega
  | 2 => omega
  | 3 => omega

theorem Entry.walk_congr {n : Nat} (hn : n ≤ 4) (e : Entry) : e.walk n v = e.walk n v' := by
  induction n generalizing e with
  | zero => cases e <;> rfl
  | succ _ ih =>
    cases e with
    | none => rfl
    | leaf => rfl
    | table => rw [Entry.walk_table, Entry.walk_table, index_congr h (by omega), ih (by omega)]

theorem Entry.find_congr {n : Nat} (hn : n ≤ 4) (e : Entry) : e.find n k v = e.find n k v' := by
  induction n generalizing e with
  | zero => rfl
  | succ _ ih => rw [Entry.find, Entry.find, index_congr h (by omega), ih (by omega)]

theorem Entry.set_congr {n : Nat} (hn : n ≤ 4) (e x : Entry) : e.set n k v x = e.set n k v' x := by
  induction n generalizing e with
  | zero => rfl
  | succ n ih =>
    cases e <;> simp only [Entry.set, index_congr h (show n < 4 by omega), ih (by omega)]

theorem Entry.unmap_congr {n : Nat} (hn : n ≤ 4) (e : Entry) : e.unmap n v = e.unmap n v' := by
  induction n generalizing e with
  | zero => cases e <;> rfl
  | succ n ih =>
    cases e with
    | none => rfl
    | leaf => rfl
    | table => simp only [Entry.unmap, index_congr h (show n < 4 by omega), ih (by omega)]

theorem getPageInfo_congr (s : State) (pm : Nat) : getPageInfo s pm v = getPageInfo s pm v' :=
  Entry.walk_congr h (by decide) _

theorem resolve_congr_addr (s : State) (pm : Nat) : resolve s pm v = resolve s pm v' := by
  unfold resolve
  rw [getPageInfo_congr h]
  dsimp only
  split
  next => rfl
  next hsize =>
    have hdvd : (getPageInfo s pm v').size ∣ 2 ^ 48 := Entry.walk_size_dvd (by decide) _ v' hsize
    have hmod : v % (getPageInfo s pm v').size = v' % (getPageInfo s pm v').size := by
      rw [← Nat.mod_mod_of_dvd v hdvd, h, Nat.mod_mod_of_dvd v' hdvd]
    rw [hmod]

theorem newLevels_congr (s : State) (pm k n : Nat)
    : newLevels s pm v k n = newLevels s pm v' k n := by
  induction n generalizing s with
  | zero => rfl
  | succ _ ih =>
    simp only [newLevels, newLevel, setEntry, Entry.find_congr h (Nat.le_refl 4),
      Entry.set_congr h (Nat.le_refl 4), ih]

theorem mapPage_congr (s : State) (height pm paddr : Nat) (flags : BitVec 64)
    : mapPage s height pm v paddr flags = mapPage s height pm v' paddr flags := by
  simp only [mapPage, setEntry, newLevels_congr h, Entry.set_congr h (Nat.le_refl 4)]

theorem rangeHeight_congr (cp rem : Nat) : rangeHeight v cp rem = rangeHeight v' cp rem := by
  have h1G : v % 1073741824 = v' % 1073741824 := by omega
  have h2M : v % 2097152 = v' % 2097152 := by omega
  unfold rangeHeight
  rw [h1G, h2M]

theorem mapRangeFrom_congr (s : State) (pm paddr : Nat) (flags : BitVec 64)
    (count mapped fuel : Nat)
    : mapRangeFrom s pm v paddr flags count mapped fuel =
      mapRangeFrom s pm v' paddr flags count mapped fuel := by
  induction fuel generalizing s mapped with
  | zero => rfl
  | succ _ ih =>
    have hnext : (v + mapped * 4096) % 2 ^ 48 = (v' + mapped * 4096) % 2 ^ 48 := by omega
    simp only [mapRangeFrom, rangeHeight_congr hnext, mapPage_congr hnext, ih]

theorem rangeFits_congr (s : State) (pm paddr count mapped fuel : Nat)
    : RangeFits s pm v paddr count mapped fuel ↔ RangeFits s pm v' paddr count mapped fuel := by
  induction fuel generalizing mapped with
  | zero => exact Iff.rfl
  | succ _ ih =>
    have hnext : (v + mapped * 4096) % 2 ^ 48 = (v' + mapped * 4096) % 2 ^ 48 := by omega
    simp only [RangeFits, rangeHeight_congr hnext, getPageInfo_congr hnext, ih]

end

def Call.low : Call → Call
  | .map height vaddr paddr flags => .map height (vaddr % 2 ^ 48) paddr flags
  | .mapRange vaddr paddr flags count => .mapRange (vaddr % 2 ^ 48) paddr flags count
  | .unmap vaddr => .unmap (vaddr % 2 ^ 48)

namespace Call

theorem low_run (c : Call) (s : State) (pm : Nat) : c.low.run s pm = c.run s pm := by
  cases c with
  | map => exact mapPage_congr (Nat.mod_mod ..) ..
  | mapRange => exact mapRangeFrom_congr (Nat.mod_mod ..) ..
  | unmap =>
    simp only [low, run, unmapNoFlush]
    rw [Entry.unmap_congr (Nat.mod_mod ..) (Nat.le_refl 4)]

theorem low_apply (c : Call) (m : Nat → Option (Nat × BitVec 64)) : c.low.apply m = c.apply m := by
  cases c <;> simp only [low, apply, Nat.mod_mod]

theorem low_fits (c : Call) (s : State) (pm : Nat) : c.low.Fits s pm ↔ c.Fits s pm := by
  cases c with
  | map => simp only [low, Fits, getPageInfo_congr (Nat.mod_mod ..)]
  | mapRange => simp only [low, Fits, rangeFits_congr (Nat.mod_mod ..)]
  | unmap => simp only [low, Fits, getPageInfo_congr (Nat.mod_mod ..)]

end Call

variable {a height mapped fuel : Nat}

theorem agrees_iff_below {c : Call}
    : Agrees s s' pm c ↔ ∀ a < 2 ^ 48, resolve s' pm a = c.apply (resolve s pm) a := by
  constructor
  . intro h a ha
    rw [h a, Nat.mod_eq_of_lt ha]
  . intro h a
    rw [← h (a % 2 ^ 48) (Nat.mod_lt _ (by decide))]
    exact resolve_congr_addr (Nat.mod_mod ..).symm s' pm

theorem mem_span (hv : v % span k = 0)
    : a / 4096 / 512 ^ k = v / 4096 / 512 ^ k ↔ v ≤ a ∧ a < v + span k := by
  have hpos := span_pos k
  have hdiv : ∀ x : Nat, x / 4096 / 512 ^ k = x / span k :=
    fun x => Nat.div_div_eq_div_mul x 4096 (512 ^ k)
  rw [hdiv, hdiv]
  have hmul := Nat.div_add_mod v (span k)
  rw [hv, Nat.add_zero] at hmul
  rw [Nat.div_eq_iff hpos]
  rw [Nat.mul_comm] at hmul
  rw [hmul]
  omega

theorem walk_leafEntry {paddr : Nat} (w : Nat) (hread : has flags mmRead = true)
    (hp : paddr % span height = 0) (hlt : paddr < 2 ^ 52)
    : (leafEntry height paddr flags).walk height w =
      ⟨paddr, span height, flags &&& pteKeep ||| (if height = 0 then 0#64 else vmmPsBit)⟩ := by
  have hphys : paddr % 2 ^ 52 / span height * span height = paddr := by
    rw [Nat.mod_eq_of_lt hlt]
    exact Nat.div_mul_cancel (Nat.dvd_of_mod_eq_zero hp)
  have hbit : (if height = 0 then 0#64 else vmmPsBit) &&& mmRead = 0#64 := by
    split <;> decide
  unfold leafEntry
  dsimp only
  rw [has_leafFlags _ hbit, if_pos hread, Entry.walk, hphys]

theorem walk_leafEntry_absent {paddr : Nat} (w : Nat) (hread : has flags mmRead = false)
    : (leafEntry height paddr flags).walk height w = ⟨0, 0, 0#64⟩ := by
  have hbit : (if height = 0 then 0#64 else vmmPsBit) &&& mmRead = 0#64 := by
    split <;> decide
  unfold leafEntry
  dsimp only
  rw [has_leafFlags _ hbit, hread, if_neg (by decide)]
  cases height <;> rfl

theorem and_not_psBit (flags : BitVec 64) (height : Nat)
    : (flags &&& pteKeep ||| (if height = 0 then 0#64 else vmmPsBit)) &&& ~~~vmmPsBit =
      flags &&& pteKeep &&& ~~~vmmPsBit := by
  rw [BitVec.and_or_distrib_right]
  split
  . rw [BitVec.zero_and, BitVec.or_zero]
  . rw [show vmmPsBit &&& ~~~vmmPsBit = 0#64 by decide, BitVec.or_zero]

theorem requestUnchecked_cases (s : State)
    : (∃ r, requestUnchecked s = .ok r) ∨ requestUnchecked s = .error .null ∨
      requestUnchecked s = .error .nodePage := by
  unfold requestUnchecked request handOut
  generalize PMM.request s.pmm s.cpu 1 = res
  match res with
  | (none, pmm) => exact .inr (.inl rfl)
  | (some ptr, pmm) =>
    by_cases hnode : (s.nodePages.any
      fun p => decide (ptr / 4096 ≤ p) && decide (p < ptr / 4096 + 1)) = true
    . simp only [if_pos hnode]
      exact .inr (.inr trivial)
    . simp only [if_neg hnode]
      exact .inl ⟨_, rfl⟩

def Allocates (x : Except Fault State) : Prop :=
  x ≠ .error .null ∧ x ≠ .error .nodePage

theorem newLevel_cases (hk : k + 1 ≤ 4) (halloc : Allocates (newLevel s pm v (k + 1)))
    : (span k < (getPageInfo s pm v).size ∧ ¬∃ s', newLevel s pm v (k + 1) = .ok s') ∨
      ∃ s', newLevel s pm v (k + 1) = .ok s' := by
  unfold newLevel at halloc ⊢
  cases hfind : (s.pagemap pm).root.find 4 (k + 1) v with
  | none =>
    simp only [hfind] at halloc ⊢
    rcases requestUnchecked_cases s with ⟨⟨frame, s1⟩, hreq⟩ | hreq | hreq
    . rw [hreq]
      exact .inr ⟨_, rfl⟩
    . rw [hreq] at halloc
      exact absurd rfl halloc.left
    . rw [hreq] at halloc
      exact absurd rfl halloc.right
  | leaf =>
    simp only
    refine .inl ⟨?_, fun ⟨_, h⟩ => (nomatch h)⟩
    unfold getPageInfo
    rw [Entry.walk_of_find hk hfind fun _ _ _ => rfl]
    exact span_lt (Nat.lt_succ_self k)
  | table => exact .inr ⟨s, rfl⟩

theorem newLevels_ok_iff {n : Nat} (hk : k + n ≤ 3) (hpath : (s.pagemap pm).root.Path 4 (k + n) v)
    (halloc : Allocates (newLevels s pm v k n))
    : (∃ s', newLevels s pm v k n = .ok s') ↔ (getPageInfo s pm v).size ≤ span k := by
  induction n generalizing s with
  | zero =>
    refine iff_of_true ⟨s, rfl⟩ ?_
    unfold getPageInfo
    rw [← Entry.walk_find (k := k) (by omega) hpath fun _ _ _ => rfl]
    exact Entry.walk_size_le k _ v
  | succ n ih =>
    have hlevel : Allocates (newLevel s pm v (k + n + 1)) := by
      constructor
      . intro h
        apply halloc.left
        unfold newLevels
        rw [h]
        rfl
      . intro h
        apply halloc.right
        unfold newLevels
        rw [h]
        rfl
    rcases newLevel_cases (k := k + n) (by omega) hlevel with ⟨hlarge, hnone⟩ | ⟨s1, hs1⟩
    . refine iff_of_false ?_ ?_
      . rintro ⟨s', h⟩
        obtain ⟨s1, hs1, _⟩ := bind_ok.1 h
        exact hnone ⟨s1, hs1⟩
      . have := span_le (show k ≤ k + n by omega)
        omega
    . obtain ⟨hwalk, hpath1⟩ := newLevel_walk (k := k + n) (by omega) hpath hs1
      have hrest : newLevels s pm v k (n + 1) = newLevels s1 pm v k n := by
        conv => lhs; unfold newLevels
        rw [hs1]
        rfl
      rw [hrest] at halloc ⊢
      rw [ih (by omega) hpath1 halloc, hwalk]

theorem path_root (s : State) (pm v : Nat) : (s.pagemap pm).root.Path 4 3 v :=
  fun _ => ⟨rfl, fun h => absurd h (by decide)⟩

section

variable {paddr : Nat} (hheight : height ≤ 2)
include hheight

theorem mapPage_ok_iff
    (halloc : Allocates (mapPage s height pm v paddr flags))
    : (∃ s', mapPage s height pm v paddr flags = .ok s')
      ↔ (getPageInfo s pm v).size ≤ span height := by
  have hroot : (s.pagemap pm).root.Path 4 (height + (3 - height)) v := by
    rw [Nat.add_sub_cancel' (by omega)]
    exact path_root s pm v
  have hlevels : Allocates (newLevels s pm v height (3 - height)) := by
    constructor
    . intro h
      apply halloc.left
      unfold mapPage
      rw [h]
      rfl
    . intro h
      apply halloc.right
      unfold mapPage
      rw [h]
      rfl
  rw [← newLevels_ok_iff (by omega) hroot hlevels]
  constructor
  . intro ⟨s', h⟩
    obtain ⟨s1, hs1, _⟩ := bind_ok.1 h
    exact ⟨s1, hs1⟩
  . intro ⟨s1, hs1⟩
    unfold mapPage
    rw [hs1]
    exact ⟨_, rfl⟩

theorem getPageInfo_of_mapPage (hv : v % span height = 0)
    (hlt : v < 2 ^ 48) (ha : a < 2 ^ 48) (h : mapPage s height pm v paddr flags = .ok s')
    : getPageInfo s' pm a =
      if v ≤ a ∧ a < v + span height then (leafEntry height paddr flags).walk height a
        else getPageInfo s pm a := by
  rw [← getPageInfo_page s' pm a, getPageInfo_mapPage hheight hlt (p := a / 4096) (by omega) h,
    getPageInfo_page, Entry.walk_page]
  simp only [mem_span hv]

theorem resolve_of_mapPage (hv : v % span height = 0)
    (hlt : v < 2 ^ 48) (ha : a < 2 ^ 48) (hp : paddr % span height = 0) (hplt : paddr < 2 ^ 52)
    (h : mapPage s height pm v paddr flags = .ok s')
    : resolve s' pm a = put (resolve s pm) v (span height) (shown v paddr flags) a := by
  have hpos := span_pos height
  unfold resolve put
  dsimp only
  rw [getPageInfo_of_mapPage hheight hv hlt ha h]
  by_cases hin : v ≤ a ∧ a < v + span height
  . rw [if_pos hin, if_pos hin]
    unfold shown
    cases hread : has flags mmRead with
    | false =>
      rw [walk_leafEntry_absent a hread]
      rfl
    | true =>
      have hmod : a % span height = a - v := by
        obtain ⟨q, hq⟩ := Nat.dvd_of_mod_eq_zero hv
        rw [show a = span height * q + (a - v) by omega, Nat.mul_add_mod,
          Nat.mod_eq_of_lt (by omega)]
        omega
      rw [walk_leafEntry a hread hp hplt]
      dsimp only
      rw [if_neg (by omega), hmod, and_not_psBit, if_pos rfl]
      rfl
  . rw [if_neg hin, if_neg hin]

end

theorem rangeHeight_spec (cv cp rem : Nat) (hv : cv % 4096 = 0) (hp : cp % 4096 = 0)
    (hrem : 0 < rem)
    : rangeHeight cv cp rem ≤ 2 ∧ cv % span (rangeHeight cv cp rem) = 0
      ∧ cp % span (rangeHeight cv cp rem) = 0 ∧
      512 ^ rangeHeight cv cp rem ≤ rem := by
  unfold rangeHeight
  split
  next h => exact ⟨by decide, h.left, h.right.left, h.right.right⟩
  next =>
    split
    next h => exact ⟨by decide, h.left, h.right.left, h.right.right⟩
    next => exact ⟨by decide, hv, hp, hrem⟩

theorem put_put (m f : Nat → Option (Nat × BitVec 64)) {vaddr len len' : Nat}
    : put (put m vaddr len f) (vaddr + len) len' f = put m vaddr (len + len') f := by
  funext a
  unfold put
  by_cases hlow : vaddr ≤ a ∧ a < vaddr + len
  . rw [if_neg (by omega), if_pos hlow, if_pos (by omega)]
  . by_cases hhigh : vaddr + len ≤ a ∧ a < vaddr + len + len'
    . rw [if_pos hhigh, if_pos (by omega)]
    . rw [if_neg hhigh, if_neg hlow, if_neg (by omega)]

theorem put_shown (m : Nat → Option (Nat × BitVec 64)) (vaddr paddr len n : Nat)
    : put m (vaddr + n * 4096) len (shown (vaddr + n * 4096) (paddr + n * 4096) flags) =
      put m (vaddr + n * 4096) len (shown vaddr paddr flags) := by
  funext a
  unfold put
  split
  next h =>
    unfold shown target
    rw [show paddr + n * 4096 + (a - (vaddr + n * 4096)) = paddr + (a - vaddr) by omega]
  next => rfl

theorem mapRangeFrom_succ {vaddr paddr count : Nat} (h : mapped < count)
    : mapRangeFrom s pm vaddr paddr flags count mapped (fuel + 1) =
      mapPage s (rangeHeight (vaddr + mapped * 4096) (paddr + mapped * 4096) (count - mapped)) pm
          (vaddr + mapped * 4096) (paddr + mapped * 4096) flags >>= fun s' =>
        mapRangeFrom s' pm vaddr paddr flags count
          (mapped + 512 ^ rangeHeight (vaddr + mapped * 4096) (paddr + mapped * 4096)
            (count - mapped)) fuel := by
  conv => lhs; unfold mapRangeFrom
  rw [if_pos h]

theorem span_eq_mul (k : Nat) : span k = 512 ^ k * 4096 :=
  Nat.mul_comm 4096 (512 ^ k)

section

variable {vaddr paddr count : Nat} (hv : vaddr % 4096 = 0) (hp : paddr % 4096 = 0)
  (hvlt : vaddr + count * 4096 ≤ 2 ^ 48)
include hv hp hvlt

theorem mapRangeFrom_resolve (hplt : paddr + count * 4096 ≤ 2 ^ 52)
    (hfuel : count ≤ mapped + fuel) (hle : mapped ≤ count)
    (h : mapRangeFrom s pm vaddr paddr flags count mapped fuel = .ok s') (ha : a < 2 ^ 48)
    : resolve s' pm a =
      put (resolve s pm) (vaddr + mapped * 4096) ((count - mapped) * 4096) (shown vaddr paddr flags)
        a := by
  induction fuel generalizing s mapped with
  | zero =>
    cases h
    unfold put
    rw [if_neg (by omega)]
  | succ _ ih =>
    by_cases hmapped : mapped < count
    . rw [mapRangeFrom_succ hmapped] at h
      obtain ⟨s1, hpage, hrest⟩ := bind_ok.1 h
      obtain ⟨hheight, halignv, halignp, hfit⟩ := rangeHeight_spec (vaddr + mapped * 4096)
        (paddr + mapped * 4096) (count - mapped) (by omega) (by omega) (by omega)
      generalize rangeHeight (vaddr + mapped * 4096) (paddr + mapped * 4096)
        (count - mapped) = height at *
      have hpow : 0 < 512 ^ height := Nat.pow_pos (by omega)
      have hstep : ∀ a < 2 ^ 48, resolve s1 pm a =
          put (resolve s pm) (vaddr + mapped * 4096) (span height) (shown vaddr paddr flags) a := by
        intro a ha
        rw [resolve_of_mapPage hheight halignv (by omega) ha halignp (by omega) hpage, put_shown]
      rw [ih (by omega) (by omega) hrest]
      have hput : put (resolve s1 pm) (vaddr + (mapped + 512 ^ height) * 4096)
          ((count - (mapped + 512 ^ height)) * 4096) (shown vaddr paddr flags) a =
          put (put (resolve s pm) (vaddr + mapped * 4096) (span height) (shown vaddr paddr flags))
            (vaddr + (mapped + 512 ^ height) * 4096) ((count - (mapped + 512 ^ height)) * 4096)
            (shown vaddr paddr flags) a := by
        unfold put
        rw [hstep a ha]
        rfl
      rw [hput, show vaddr + (mapped + 512 ^ height) * 4096 = vaddr + mapped * 4096 + span height by
        rw [span_eq_mul]; omega, put_put, span_eq_mul,
        show 512 ^ height * 4096 + (count - (mapped + 512 ^ height)) * 4096
          = (count - mapped) * 4096 by omega]
    . unfold mapRangeFrom at h
      rw [if_neg hmapped] at h
      cases h
      unfold put
      rw [if_neg (by omega)]

theorem mapRangeFrom_ok_iff {t : State}
    (hsame : ∀ a < 2 ^ 48, vaddr + mapped * 4096 ≤ a → getPageInfo t pm a = getPageInfo s pm a)
    (halloc : Allocates (mapRangeFrom t pm vaddr paddr flags count mapped fuel))
    : (∃ s', mapRangeFrom t pm vaddr paddr flags count mapped fuel = .ok s') ↔
      RangeFits s pm vaddr paddr count mapped fuel := by
  induction fuel generalizing t mapped with
  | zero => exact iff_of_true ⟨t, rfl⟩ trivial
  | succ _ ih =>
    by_cases hmapped : mapped < count
    . rw [mapRangeFrom_succ hmapped] at halloc ⊢
      unfold RangeFits
      simp only [hmapped, forall_const]
      obtain ⟨hheight, halignv, halignp, hfit⟩ := rangeHeight_spec (vaddr + mapped * 4096)
        (paddr + mapped * 4096) (count - mapped) (by omega) (by omega) (by omega)
      generalize rangeHeight (vaddr + mapped * 4096) (paddr + mapped * 4096)
        (count - mapped) = height at *
      have hpow : 0 < 512 ^ height := Nat.pow_pos (by omega)
      rw [← hsame (vaddr + mapped * 4096) (by omega) (Nat.le_refl _)]
      have hpage : Allocates
          (mapPage t height pm (vaddr + mapped * 4096) (paddr + mapped * 4096) flags) := by
        constructor
        . intro h
          rw [h] at halloc
          exact halloc.left rfl
        . intro h
          rw [h] at halloc
          exact halloc.right rfl
      have hsame1 : ∀ t1, mapPage t height pm (vaddr + mapped * 4096)
        (paddr + mapped * 4096) flags = .ok t1 →
          ∀ a < 2 ^ 48, vaddr + (mapped + 512 ^ height) * 4096 ≤ a
            → getPageInfo t1 pm a = getPageInfo s pm a := by
        intro t1 ht1 a ha hle
        rw [getPageInfo_of_mapPage hheight halignv (by omega) ha ht1, span_eq_mul,
          if_neg (by omega)]
        exact hsame a ha (Nat.le_trans
          (Nat.add_le_add_left (Nat.mul_le_mul_right _ (Nat.le_add_right _ _)) _) hle)
      rw [← mapPage_ok_iff hheight hpage]
      constructor
      . intro ⟨s', h⟩
        obtain ⟨t1, ht1, hrest⟩ := bind_ok.1 h
        rw [ht1] at halloc
        exact ⟨⟨t1, ht1⟩, (ih (hsame1 t1 ht1) halloc).1 ⟨s', hrest⟩⟩
      . intro ⟨⟨t1, ht1⟩, hfits⟩
        rw [ht1] at halloc ⊢
        exact (ih (hsame1 t1 ht1) halloc).2 hfits
    . unfold mapRangeFrom RangeFits
      rw [if_neg hmapped]
      exact iff_of_true ⟨t, rfl⟩ fun h => absurd h hmapped

end

theorem resolve_eq_none_iff : resolve s pm a = none ↔ (getPageInfo s pm a).size = 0 := by
  unfold resolve
  dsimp only
  split
  next h => exact iff_of_true rfl h
  next h => exact iff_of_false nofun h

theorem resolve_congr (h : getPageInfo s' pm a = getPageInfo s pm a)
    : resolve s' pm a = resolve s pm a := by
  unfold resolve
  rw [h]

theorem exists_other_page {q : Nat} (hq : q < 2 ^ 36) (hk : k ≠ 0)
    : ∃ p < 2 ^ 36, p ≠ q ∧ p / 512 ^ k = q / 512 ^ k := by
  obtain ⟨j, rfl⟩ := Nat.exists_eq_succ_of_ne_zero hk
  refine ⟨if q % 2 = 0 then q + 1 else q - 1, ?_, ?_, ?_⟩
  . split <;> omega
  . split <;> omega
  . have hdiv : ∀ x : Nat, x / 512 ^ (j + 1) = x / 2 / (256 * 512 ^ j) := by
      intro x
      rw [Nat.div_div_eq_div_mul, Nat.pow_succ]
      congr 1
      omega
    rw [hdiv, hdiv]
    congr 1
    split <;> omega

theorem unmap_agrees_iff (hv : v % 4096 = 0) (hlt : v < 2 ^ 48)
    : Agrees s (unmapNoFlush s pm v) pm (.unmap v) ↔ (getPageInfo s pm v).size ≤ 4096 := by
  obtain ⟨q, rfl⟩ : ∃ q, v = q * 4096 := ⟨v / 4096, by omega⟩
  have hq : q < 2 ^ 36 := by omega
  have hcall : ∀ m, (Call.unmap (q * 4096)).apply m = put m (q * 4096) 4096 fun _ => none := by
    intro m
    simp only [Call.apply, Nat.mod_eq_of_lt hlt]
  have hcleared := Pagemap.cleared_unmap (s.pagemap pm) hq
  rw [← unmapNoFlush_pagemap] at hcleared
  have hinfo : ∀ t a, getPageInfo t pm a = (t.pagemap pm).leaf (a / 4096) := by
    intro t a
    rw [← getPageInfo_page, getPageInfo_eq]
  have hin : ∀ a, q * 4096 ≤ a ∧ a < q * 4096 + 4096 ↔ a / 4096 = q := by omega
  rw [getPageInfo_eq, agrees_iff_below]
  rcases (s.pagemap pm).leaf_cases q with hnone | ⟨k, phys, flags, hk, hfind, hleaf⟩
  . -- Nothing is mapped, and nothing changes.
    rw [hnone]
    refine iff_of_true ?_ (Nat.zero_le _)
    intro a ha
    have hsame := hcleared.rest (a / 4096) (by omega) (Pagemap.not_together_of_none hnone)
    rw [← hinfo, ← hinfo] at hsame
    rw [resolve_congr hsame]
    simp only [hcall, put, hin]
    split
    next h => rw [resolve_eq_none_iff, hinfo, h, hnone]
    next => rfl
  . by_cases hzero : k = 0
    . -- The page goes, and only it.
      subst hzero
      rw [hleaf]
      refine iff_of_true ?_ (Nat.le_refl _)
      intro a ha
      have htogether : (s.pagemap pm).Together q (a / 4096) ↔ a / 4096 = q := by
        rw [Pagemap.together_iff hleaf, Nat.pow_zero, Nat.div_one, Nat.div_one]
      simp only [hcall, put, hin]
      split
      next h =>
        rw [resolve_eq_none_iff, hinfo, hcleared.away _ (by omega) (htogether.2 h)]
      next h =>
        apply resolve_congr
        rw [hinfo, hinfo, hcleared.rest _ (by omega) (mt htogether.1 h)]
    . -- Another page of the leaf goes with it.
      rw [hleaf]
      have hlarge := span_lt (Nat.pos_of_ne_zero hzero)
      refine iff_of_false ?_ (Nat.not_le.2 hlarge)
      intro hagrees
      obtain ⟨p, hp, hne, hblock⟩ := exists_other_page hq hzero
      have hgone : resolve (unmapNoFlush s pm (q * 4096)) pm (p * 4096) = none := by
        rw [resolve_eq_none_iff, getPageInfo_eq,
          hcleared.away p hp ((Pagemap.together_iff hleaf).2 hblock)]
      have hthere : (getPageInfo s pm (p * 4096)).size = span k := by
        unfold getPageInfo
        rw [Entry.walk_of_find (by omega) hfind]
        rw [sameBlock_page (by omega) hlt hp, Nat.mul_div_cancel _ (by omega)]
        exact hblock
      have hp48 : p * 4096 < 2 ^ 48 := Nat.mul_lt_mul_of_pos_right hp (by decide)
      rw [hagrees (p * 4096) hp48] at hgone
      simp only [hcall, put, hin] at hgone
      rw [if_neg (by omega), resolve_eq_none_iff, hthere] at hgone
      have := span_pos k
      omega

theorem agrees_iff_read {vaddr paddr len : Nat} {c : Call} (hlen : 0 < len) (hlt : vaddr < 2 ^ 48)
    (hc : c.apply (resolve s pm) = put (resolve s pm) vaddr len (target vaddr paddr flags))
    (hput : ∀ a < 2 ^ 48, resolve s' pm a = put (resolve s pm) vaddr len
      (shown vaddr paddr flags) a)
    : Agrees s s' pm c ↔ has flags mmRead = true := by
  rw [agrees_iff_below]
  constructor
  . intro hagrees
    have hat := hagrees vaddr hlt
    rw [hput vaddr hlt, hc] at hat
    have hin : vaddr ≤ vaddr ∧ vaddr < vaddr + len := ⟨Nat.le_refl _, by omega⟩
    unfold put shown at hat
    rw [if_pos hin, if_pos hin] at hat
    by_contra hread
    rw [if_neg hread] at hat
    exact nomatch hat
  . intro hread a ha
    rw [hput a ha, hc]
    unfold put shown
    rw [if_pos hread]

theorem Call.agrees_iff {c : Call} (halign : c.Aligned) (halloc : Allocates (c.run s pm))
    : (∃ s', c.run s pm = .ok s' ∧ Agrees s s' pm c) ↔ c.Fits s pm := by
  have hagrees : ∀ s', Agrees s s' pm c ↔ Agrees s s' pm c.low := fun s' => by
    simp only [Agrees, low_apply]
  simp only [hagrees]
  rw [← low_run] at halloc ⊢
  rw [← low_fits]
  cases c with
  | map height vaddr paddr flags =>
    obtain ⟨hheight, hv, hp, hplt⟩ := halign
    have hlt : vaddr % 2 ^ 48 < 2 ^ 48 := Nat.mod_lt _ (by decide)
    rw [← Nat.mod_mod_of_dvd vaddr (span_dvd (k := height) (by omega))] at hv
    simp only [low] at halloc ⊢
    generalize vaddr % 2 ^ 48 = vaddr at *
    have hpos := span_pos height
    have hread : ∀ s', mapPage s height pm vaddr paddr flags = .ok s' →
        (Agrees s s' pm (.map height vaddr paddr flags) ↔ has flags mmRead = true) := by
      intro s' h
      exact agrees_iff_read hpos hlt (by simp only [apply, Nat.mod_eq_of_lt hlt])
        fun a ha => resolve_of_mapPage hheight hv hlt ha hp (by omega) h
    simp only [Fits]
    rw [← mapPage_ok_iff hheight halloc]
    constructor
    . intro ⟨s', h, hagrees⟩
      exact ⟨(hread s' h).1 hagrees, s', h⟩
    . intro ⟨hflags, s', h⟩
      exact ⟨s', h, (hread s' h).2 hflags⟩
  | mapRange vaddr paddr flags count =>
    obtain ⟨hv, hp, hvlt, hplt⟩ := halign
    have hlt : vaddr % 2 ^ 48 < 2 ^ 48 := Nat.mod_lt _ (by decide)
    replace hv : vaddr % 2 ^ 48 % 4096 = 0 := by omega
    simp only [low] at halloc ⊢
    generalize vaddr % 2 ^ 48 = vaddr at *
    have hput : ∀ s', VMM.mapRange s pm vaddr paddr flags count = .ok s' → ∀ a < 2 ^ 48,
        resolve s' pm a = put (resolve s pm) vaddr (count * 4096) (shown vaddr paddr flags) a := by
      intro s' h a ha
      rw [mapRangeFrom_resolve hv hp hvlt hplt (by omega) (Nat.zero_le _) h ha]
      simp
    by_cases hcount : 0 < count
    . have hread : ∀ s', VMM.mapRange s pm vaddr paddr flags count = .ok s' →
          (Agrees s s' pm (.mapRange vaddr paddr flags count) ↔ has flags mmRead = true) :=
        fun s' h => agrees_iff_read (by omega) hlt (by simp only [apply, Nat.mod_eq_of_lt hlt])
          (hput s' h)
      simp only [Fits, hcount, forall_const]
      rw [← mapRangeFrom_ok_iff hv hp hvlt (fun _ _ _ => rfl) halloc]
      constructor
      . intro ⟨s', h, hagrees⟩
        exact ⟨(hread s' h).1 hagrees, s', h⟩
      . intro ⟨hflags, s', h⟩
        exact ⟨s', h, (hread s' h).2 hflags⟩
    . obtain rfl : count = 0 := by omega
      refine iff_of_true ⟨s, rfl, ?_⟩ fun h => absurd h hcount
      rw [agrees_iff_below]
      intro a ha
      simp only [apply, put]
      rw [if_neg (by omega)]
  | unmap vaddr =>
    have hlt : vaddr % 2 ^ 48 < 2 ^ 48 := Nat.mod_lt _ (by decide)
    have hv : vaddr % 4096 = 0 := halign
    simp only [low, Fits]
    rw [← unmap_agrees_iff (by omega) hlt]
    constructor
    . intro ⟨s', h, hagrees⟩
      cases h
      exact hagrees
    . intro hagrees
      exact ⟨_, rfl, hagrees⟩

def Refines (s : State) (pm : Nat) : List Call → Prop
  | [] => True
  | c :: cs => ∃ s', c.run s pm = .ok s' ∧ Agrees s s' pm c ∧ Refines s' pm cs

def FitsAll (s : State) (pm : Nat) : List Call → Prop
  | [] => True
  | c :: cs => c.Fits s pm ∧ ∀ s', c.run s pm = .ok s' → FitsAll s' pm cs

def AllocatesAll (s : State) (pm : Nat) : List Call → Prop
  | [] => True
  | c :: cs => Allocates (c.run s pm) ∧ ∀ s', c.run s pm = .ok s' → AllocatesAll s' pm cs

instance (c : Call) : Decidable c.Aligned :=
  match c with
  | .map _ _ _ _ => inferInstanceAs (Decidable (_ ∧ _ ∧ _ ∧ _))
  | .mapRange _ _ _ _ => inferInstanceAs (Decidable (_ ∧ _ ∧ _ ∧ _))
  | .unmap vaddr => inferInstanceAs (Decidable (vaddr % 4096 = 0))

instance instDecidableRangeFits (s : State) (pm vaddr paddr count mapped fuel : Nat)
    : Decidable (RangeFits s pm vaddr paddr count mapped fuel) :=
  match fuel with
  | 0 => .isTrue trivial
  | fuel + 1 =>
    have := fun mapped => instDecidableRangeFits s pm vaddr paddr count mapped fuel
    inferInstanceAs (Decidable (mapped < count →
      (getPageInfo s pm (vaddr + mapped * 4096)).size ≤
          span (rangeHeight (vaddr + mapped * 4096) (paddr + mapped * 4096) (count - mapped)) ∧
        RangeFits s pm vaddr paddr count
          (mapped + 512 ^ rangeHeight (vaddr + mapped * 4096) (paddr + mapped * 4096)
            (count - mapped)) fuel))

instance (s : State) (pm : Nat) (c : Call) : Decidable (c.Fits s pm) :=
  match c with
  | .map height vaddr _ flags =>
    inferInstanceAs (Decidable
      (has flags mmRead = true ∧ (getPageInfo s pm vaddr).size ≤ span height))
  | .mapRange vaddr paddr flags count =>
    inferInstanceAs (Decidable (0 < count
      → has flags mmRead = true ∧ RangeFits s pm vaddr paddr count 0 count))
  | .unmap vaddr => inferInstanceAs (Decidable ((getPageInfo s pm vaddr).size ≤ 4096))

instance (x : Except Fault State) : Decidable (Allocates x) :=
  match x with
  | .ok _ => .isTrue ⟨fun h => (nomatch h), fun h => (nomatch h)⟩
  | .error f => decidable_of_iff (f ≠ .null ∧ f ≠ .nodePage) (by simp [Allocates])

instance instDecidableAfter {p : State → Prop} [DecidablePred p] (x : Except Fault State)
    : Decidable (∀ s', x = .ok s' → p s') :=
  match x with
  | .ok s => decidable_of_iff (p s) (by simp)
  | .error _ => .isTrue nofun

instance instDecidableFitsAll (s : State) (pm : Nat) (cs : List Call)
    : Decidable (FitsAll s pm cs) :=
  match cs with
  | [] => .isTrue trivial
  | c :: cs =>
    have := fun s' => instDecidableFitsAll s' pm cs
    inferInstanceAs (Decidable (c.Fits s pm ∧ ∀ s', c.run s pm = .ok s' → FitsAll s' pm cs))

instance instDecidableAllocatesAll (s : State) (pm : Nat) (cs : List Call)
    : Decidable (AllocatesAll s pm cs) :=
  match cs with
  | [] => .isTrue trivial
  | c :: cs =>
    have := fun s' => instDecidableAllocatesAll s' pm cs
    inferInstanceAs (Decidable
      (Allocates (c.run s pm) ∧ ∀ s', c.run s pm = .ok s' → AllocatesAll s' pm cs))

theorem refines_iff {cs : List Call} (halign : ∀ c ∈ cs, c.Aligned) (halloc : AllocatesAll s pm cs)
    : Refines s pm cs ↔ FitsAll s pm cs := by
  induction cs generalizing s with
  | nil => exact Iff.rfl
  | cons c _ ih =>
    obtain ⟨hfirst, hrest⟩ := halloc
    have hih := fun s' h => ih (s := s')
      (fun c hc => halign c (List.mem_cons_of_mem _ hc)) (hrest s' h)
    have hcall := Call.agrees_iff (halign c List.mem_cons_self) hfirst
    unfold Refines FitsAll
    rw [← hcall]
    constructor
    . intro ⟨s', h, hagrees, hcs⟩
      refine ⟨⟨s', h, hagrees⟩, ?_⟩
      intro s'' h'
      cases h.symm.trans h'
      exact (hih s' h).1 hcs
    . intro ⟨⟨s', h, hagrees⟩, hcs⟩
      exact ⟨s', h, hagrees, (hih s' h).2 (hcs s' h)⟩

def someCalls : List Call :=
  [.map 1 0x200000 0x600000 7#64, .map 0 0x1000 0x5000 3#64, .mapRange 0x600000 0x800000 7#64 513,
    .unmap 0x800000, .map 1 0x200000 0xA00000 7#64, .map 0 0xFFFF800000001000 0x7000 3#64]

theorem refines_iff_someCalls
    : (∀ c ∈ someCalls, c.Aligned) ∧ AllocatesAll newSpace 4096 someCalls
      ∧ Refines newSpace 4096 someCalls := by
  have halign : ∀ c ∈ someCalls, c.Aligned := by decide +kernel
  have halloc : AllocatesAll newSpace 4096 someCalls := by decide +kernel
  exact ⟨halign, halloc, (refines_iff halign halloc).2 (by decide +kernel)⟩

def smallInHuge : List Call :=
  [.map 1 0x200000 0x600000 7#64, .map 0 0x201000 0x5000 7#64]

theorem smallInHuge_not_refines
    : (∀ c ∈ smallInHuge, c.Aligned) ∧ AllocatesAll newSpace 4096 smallInHuge ∧
      ¬Refines newSpace 4096 smallInHuge := by
  refine ⟨by decide +kernel, by decide +kernel, ?_⟩
  intro ⟨s1, h1, _, s2, h2, _⟩
  have hfault : ∀ s', (Call.map 1 0x200000 0x600000 7#64).run newSpace 4096 = .ok s' →
      ∀ s'', (Call.map 0 0x201000 0x5000 7#64).run s' 4096 = .ok s'' → False := by
    decide +kernel
  exact hfault s1 h1 s2 h2

end VMM
