import Skyline.VMM.Lemmas.Owned

/-!
This module contains what `DestroyPM` gives back to the page frame manager.
-/

namespace VMM

open Function

/--
The tables below an entry in the order in which `FreePageTablesInternal` frees them.
-/
def visited (level : Nat) (e : Entry) : List Nat :=
  match level, e with
  | level + 1, .table frame entries =>
    ((List.range 256).flatMap fun i => visited level (entries i)) ++ [frame]
  | _, _ => []

theorem freePageTables_eq (level : Nat) (entries : Nat → Entry) (s : State)
    : freePageTables (level + 1) entries s
        = ((List.range 256).flatMap fun i => visited level (entries i)).foldl pmmFree s := by
  induction level generalizing entries s with
  | zero =>
    rw [List.flatMap_eq_nil_iff.mpr fun i _ => by simp [visited]]
    rfl
  | succ level ih =>
    unfold freePageTables
    apply Loop.forRange_induct _
      (fun n t => t = ((List.range n).flatMap fun i => visited (level + 1) (entries i)).foldl
        pmmFree s)
      0 256 s rfl
    intro i t _ _ ht
    rw [List.range_succ, List.flatMap_append, List.flatMap_singleton, List.foldl_append, ← ht]
    cases hentry : entries i with
    | none => rfl
    | leaf => rfl
    | table => simp [visited, ih]

/--
Below the top level no table is in the upper half of another.
-/
def Entry.Low (level : Nat) (e : Entry) : Prop :=
  match level, e with
  | level + 1, .table _ entries =>
    (∀ i < 256, (entries i).Low level)
      ∧ ∀ i < 512, 256 ≤ i → 1 ≤ level → (entries i).frame? = Option.none
  | _, _ => True

def LowTables (map : Pagemap) : Prop :=
  ∀ i < 256, (map.entries i).Low 3

theorem coe_flatMap_range (f : Nat → List Nat) (n : Nat)
    : (((List.range n).flatMap f : List Nat) : Multiset Nat)
        = ∑ i ∈ Finset.range n, (f i : Multiset Nat) := by
  induction n with
  | zero => rfl
  | succ n ih =>
    rw [List.range_succ, List.flatMap_append, List.flatMap_singleton, ← Multiset.coe_add, ih,
      Finset.sum_range_succ]

theorem visited_eq_tables {level : Nat} {e : Entry} (h : e.Low level)
    : (visited level e : Multiset Nat) = e.tables level := by
  induction level generalizing e with
  | zero => cases e <;> rfl
  | succ level ih =>
    cases e with
    | none => rfl
    | leaf => rfl
    | table frame entries =>
      obtain ⟨hlow, hupper⟩ := h
      have hall : ∑ i ∈ Finset.range 256, (visited level (entries i) : Multiset Nat)
          = ∑ i ∈ Finset.range 512, (entries i).tables level := by
        rw [Finset.sum_congr rfl fun i hi => ih (hlow i (Finset.mem_range.mp hi))]
        apply Finset.sum_subset (Finset.range_subset_range.mpr (by omega))
        intro i hi hnot
        rw [Finset.mem_range] at hi hnot
        cases level with
        | zero => cases entries i <;> rfl
        | succ => exact Entry.tables_of_none (hupper i hi (by omega) (by omega)) _
      rw [visited, Entry.tables, ← Multiset.coe_add, coe_flatMap_range, hall, add_comm,
        Multiset.coe_singleton, Multiset.singleton_add]

theorem freed_foldl (l : List Nat) (s : State)
    : (l.foldl pmmFree s).freed = l.reverse ++ s.freed := by
  induction l generalizing s with
  | nil => rfl
  | cons ptr l ih =>
    rw [List.foldl_cons, ih, List.reverse_cons, List.append_assoc]
    rfl

theorem foldl_pmmFree_rest (l : List Nat) (s : State)
    : l.foldl pmmFree s
        = { s with pmm := (l.foldl pmmFree s).pmm, freed := (l.foldl pmmFree s).freed } := by
  induction l generalizing s with
  | nil => rfl
  | cons ptr l ih => exact ih (pmmFree s ptr)

/--
The memory manager and the pages that the rest of the kernel has from the page frame manager.
-/
structure Sys where
  vmm : State
  others : List Nat

inductive SpaceOp where
  | newPM
  | map (height pm vaddr paddr : Nat) (flags : BitVec 64)
  | unmap (pm vaddr : Nat)
  | fork (parent : Nat)
  | destroyPM (pm : Nat)
  | request
  | free (ptr : Nat)

def spaceExec (σ : Sys) (op : SpaceOp) : Except Fault Sys :=
  match op with
  | .newPM => do
    let (_, vmm) ← newPM σ.vmm
    return { σ with vmm }
  | .map height pm vaddr paddr flags => do
    let vmm ← mapPage σ.vmm height pm vaddr paddr flags
    return { σ with vmm }
  | .unmap pm vaddr => .ok { σ with vmm := unmapNoFlush σ.vmm pm vaddr }
  | .fork parent => do
    let (_, vmm) ← fork σ.vmm parent
    return { σ with vmm }
  | .destroyPM pm => do
    let vmm ← destroyPM σ.vmm pm
    return { σ with vmm }
  | .request => do
    match ← request σ.vmm with
    | (none, vmm) => return { σ with vmm }
    | (some ptr, vmm) => return ⟨vmm, ptr :: σ.others⟩
  | .free ptr => .ok ⟨pmmFree σ.vmm ptr, σ.others.erase ptr⟩

def Live (s : State) (pm : Nat) : Prop :=
  (s.pagemap pm).toplvl ≠ 0

/--
The page map got no sentinel, as there was no memory for one.
-/
structure Destroyable (s : State) (pm : Nat) : Prop where
  live : Live s pm
  user : pm ≠ s.kernelPagemap
  head : (s.pagemap pm).vmaHead = none
  low : LowTables (s.pagemap pm)

/--
A page is mapped below tables, and not in place of one.
-/
structure Mappable (s : State) (height pm vaddr : Nat) : Prop where
  live : Live s pm
  small : height ≤ 2
  user : vaddr < 2 ^ 47
  above : ∀ k ≤ 3, height < k → ((s.pagemap pm).root.find 4 k vaddr).isLeaf = false
  place : ((s.pagemap pm).root.find 4 height vaddr).frame? = none

def ProperOp (σ : Sys) (op : SpaceOp) : Prop :=
  match op with
  | .newPM => True
  | .map height pm vaddr _ _ => Mappable σ.vmm height pm vaddr
  | .unmap pm vaddr => Live σ.vmm pm ∧ vaddr < 2 ^ 47
  | .fork parent => Live σ.vmm parent
  | .destroyPM pm => Destroyable σ.vmm pm
  | .request => True
  | .free ptr => ptr ∈ σ.others

def holders (σ : Sys) (h : Option Nat) : Multiset Nat :=
  match h with
  | none => σ.others
  | some a => own σ.vmm a

/--
The state at the boot: there is the kernel page map only, and `HIGHER_HALF(0)` is 0.
-/
structure Booted (σ : Sys) : Prop where
  backed : Backed σ.vmm
  half : higherHalfZero σ.vmm.hhdmOffset = 0
  others : σ.others = []
  only : ∀ a, a ≠ σ.vmm.kernelPagemap → σ.vmm.pagemap a = Pagemap.empty
  kernel : Live σ.vmm σ.vmm.kernelPagemap
  nodup : (own σ.vmm σ.vmm.kernelPagemap).Nodup
  aligned : ∀ ptr ∈ own σ.vmm σ.vmm.kernelPagemap, ptr % 4096 = 0
  out : ∀ ptr ∈ own σ.vmm σ.vmm.kernelPagemap, Returnable σ.vmm (ptr / 4096)

structure Sound (σ : Sys) : Prop where
  held : Held σ.vmm (holders σ)
  half : higherHalfZero σ.vmm.hhdmOffset = 0
  kernel : Live σ.vmm σ.vmm.kernelPagemap
  shares : ∀ a i, 256 ≤ i
    → (σ.vmm.pagemap a).entries i = (σ.vmm.pagemap σ.vmm.kernelPagemap).entries i
    ∨ (σ.vmm.pagemap a).entries i = .none
  bare : ∀ a, a ≠ σ.vmm.kernelPagemap → (σ.vmm.pagemap a).vmMappings = 0

section

variable {s s' t : State} {others : List Nat} {pm k v : Nat} {x : Entry} {σ σ' : Sys}

theorem Booted.sound (h : Booted σ) : Sound σ := by
  have hempty : ∀ a, a ≠ σ.vmm.kernelPagemap → own σ.vmm a = 0 := by
    intro a ha
    unfold own
    rw [h.only a ha]
    rfl
  have hholder : ∀ k ptr, ptr ∈ holders σ k
      → k = some σ.vmm.kernelPagemap ∧ ptr ∈ own σ.vmm σ.vmm.kernelPagemap := by
    intro k ptr hptr
    cases k with
    | none =>
      simp only [holders, h.others] at hptr
      cases hptr
    | some a =>
      by_cases ha : a = σ.vmm.kernelPagemap
      . subst ha
        exact ⟨rfl, hptr⟩
      . simp only [holders, hempty a ha, Multiset.notMem_zero] at hptr
  constructor
  case held =>
    constructor
    case backed => exact h.backed
    case nodup =>
      intro k
      cases k with
      | none => simp [holders, h.others]
      | some a =>
        by_cases ha : a = σ.vmm.kernelPagemap
        . rw [ha]
          exact h.nodup
        . simp [holders, hempty a ha]
    case apart =>
      exact fun k k' ptr hk hk' => (hholder k ptr hk).1.trans (hholder k' ptr hk').1.symm
    case aligned => exact fun k ptr hk => h.aligned ptr (hholder k ptr hk).2
    case out => exact fun k ptr hk => h.out ptr (hholder k ptr hk).2
  case half => exact h.half
  case kernel => exact h.kernel
  case shares =>
    intro a i _
    by_cases ha : a = σ.vmm.kernelPagemap
    . exact .inl (by rw [ha])
    . exact .inr (by rw [h.only a ha]; rfl)
  case bare =>
    intro a ha
    rw [h.only a ha]
    rfl

structure SameSpaces (s s' : State) : Prop where
  hhdmOffset : s'.hhdmOffset = s.hhdmOffset
  kernelPagemap : s'.kernelPagemap = s.kernelPagemap
  toplvl : ∀ a, (s'.pagemap a).toplvl = (s.pagemap a).toplvl
  entries : ∀ a, (s'.pagemap a).entries = (s.pagemap a).entries
  vmMappings : ∀ a, (s'.pagemap a).vmMappings = (s.pagemap a).vmMappings

theorem SameSpaces.own (h : SameSpaces s s') (a : Nat) : own s' a = own s a :=
  own_congr h.kernelPagemap (h.toplvl a) (h.entries a)

theorem SameSpaces.of_rest (h : s' = { s with pmm := s'.pmm }) : SameSpaces s s' := by
  rw [h]
  exact ⟨rfl, rfl, fun _ => rfl, fun _ => rfl, fun _ => rfl⟩

theorem Sound.congr (h : Sound ⟨s, others⟩) {others' : List Nat} (hsame : SameSpaces s s')
    (hheld : Held s' (update (holders ⟨s, others⟩) none ↑others'))
    : Sound ⟨s', others'⟩ := by
  have hholders : holders ⟨s', others'⟩ = update (holders ⟨s, others⟩) none ↑others' := by
    funext k
    cases k with
    | none => rfl
    | some a => exact hsame.own a
  have hkernel : (s'.pagemap s'.kernelPagemap).toplvl ≠ 0 := by
    rw [hsame.kernelPagemap, hsame.toplvl]
    exact h.kernel
  refine ⟨hholders ▸ hheld, ?_, hkernel, fun a i hi => ?_, fun a ha => ?_⟩
  . show higherHalfZero s'.hhdmOffset = 0
    rw [hsame.hhdmOffset]
    exact h.half
  . show (s'.pagemap a).entries i = (s'.pagemap s'.kernelPagemap).entries i ∨ _
    rw [hsame.kernelPagemap, hsame.entries, hsame.entries]
    exact h.shares a i hi
  . show (s'.pagemap a).vmMappings = 0
    rw [hsame.vmMappings]
    exact h.bare a (hsame.kernelPagemap ▸ ha)

theorem Sound.same (h : Sound ⟨s, others⟩) (hsame : SameSpaces s s')
    (hheld : Held s' (holders ⟨s, others⟩)) : Sound ⟨s', others⟩ := by
  have hholders : update (holders ⟨s, others⟩) none ↑others = holders ⟨s, others⟩ :=
    update_eq_self_iff.mpr rfl
  apply h.congr hsame
  rw [hholders]
  exact hheld

/--
One entry of the lower half of a page map is written.
-/
theorem Sound.setEntry (h : Sound ⟨s, others⟩) (hrest : t = { s with pmm := t.pmm }) (hk : k ≤ 3)
    (hv : v < 2 ^ 47)
    (hheld : Held t (update (holders ⟨s, others⟩) (some pm) (own (setEntry t pm k v x) pm)))
    : Sound ⟨setEntry t pm k v x, others⟩ := by
  have hsame := SameSpaces.of_rest hrest
  have hmap : ∀ a, (VMM.setEntry t pm k v x).pagemap a
      = if a = pm then (s.pagemap pm).setEntry k v x else s.pagemap a := by
    intro a
    rw [pagemap_setEntry, hrest]
  have hupper : ∀ a i, 256 ≤ i
      → ((VMM.setEntry t pm k v x).pagemap a).entries i = (s.pagemap a).entries i := by
    intro a i hi
    have := index_low hv
    rw [hmap]
    split
    next heq => rw [Pagemap.setEntry_entries hk, if_neg (by omega), heq]
    next => rfl
  have htop : ∀ a, ((VMM.setEntry t pm k v x).pagemap a).toplvl = (s.pagemap a).toplvl := by
    intro a
    rw [hmap]
    split
    next heq => rw [heq]; rfl
    next => rfl
  have hkernel : (VMM.setEntry t pm k v x).kernelPagemap = s.kernelPagemap := hsame.kernelPagemap
  constructor
  case held =>
    have hholders : holders ⟨VMM.setEntry t pm k v x, others⟩
        = update (holders ⟨s, others⟩) (some pm) (own (VMM.setEntry t pm k v x) pm) := by
      funext j
      cases j with
      | none => rfl
      | some a =>
        by_cases ha : a = pm
        . rw [ha, update_self]
          rfl
        . rw [update_of_ne (by simpa using ha)]
          exact (own_setEntry_other ha).trans (hsame.own a)
    rw [hholders]
    exact hheld.congr rfl rfl
  case half =>
    show higherHalfZero t.hhdmOffset = 0
    rw [hsame.hhdmOffset]
    exact h.half
  case kernel =>
    show ((VMM.setEntry t pm k v x).pagemap _).toplvl ≠ 0
    rw [htop, hkernel]
    exact h.kernel
  case shares =>
    intro a i hi
    simp only [hupper _ i hi, hkernel]
    exact h.shares a i hi
  case bare =>
    intro a ha
    show ((VMM.setEntry t pm k v x).pagemap a).vmMappings = 0
    rw [hmap]
    split
    next heq => exact h.bare pm (heq ▸ hkernel ▸ ha)
    next => exact h.bare a (hkernel ▸ ha)

theorem Sound.newLevel (h : Sound ⟨s, others⟩) (hlive : Live s pm) (hk : k + 1 ≤ 3)
    (hv : v < 2 ^ 47)
    (hpath : (s.pagemap pm).root.Path 4 (k + 1) v) (hrun : newLevel s pm v (k + 1) = .ok s')
    : Sound ⟨s', others⟩ ∧ Live s' pm := by
  unfold VMM.newLevel at hrun
  split at hrun
  next =>
    cases hrun
    exact ⟨h, hlive⟩
  next => cases hrun
  next hfind =>
    obtain ⟨⟨frame, t⟩, hreq, hrun⟩ := bind_ok.mp hrun
    cases hrun
    have hand : Handed s t 1 frame := requestUnchecked_ok h.held.backed hreq
    have hmap : t.pagemap = s.pagemap := by rw [hand.rest]
    have hown := own_setEntry (s := t) (x := .table frame fun _ => .none) hk hv (hmap ▸ hpath)
      (hmap ▸ hlive)
    rw [hmap, hfind, Entry.tables_none, add_zero, Entry.tables_new,
      (SameSpaces.of_rest hand.rest).own, add_comm (own s pm), Multiset.singleton_add] at hown
    refine ⟨h.setEntry hand.rest hk hv ?_, ?_⟩
    . rw [hown]
      exact h.held.take hand (some pm)
    . unfold Live
      rw [pagemap_setEntry, if_pos rfl, hmap]
      exact hlive

/--
`GetNext` puts an empty table where there was none.
-/
theorem newLevel_place {j : Nat} (hk : k + 1 ≤ 3) (hj : j ≤ k)
    (hpath : (s.pagemap pm).root.Path 4 (k + 1) v)
    (hplace : ((s.pagemap pm).root.find 4 j v).frame? = none)
    (hrun : newLevel s pm v (k + 1) = .ok s')
    : ((s'.pagemap pm).root.find 4 j v).frame? = none := by
  unfold newLevel at hrun
  split at hrun
  next =>
    cases hrun
    exact hplace
  next => cases hrun
  next =>
    obtain ⟨⟨frame, t⟩, hreq, hrun⟩ := bind_ok.mp hrun
    cases hrun
    have hmap : t.pagemap = s.pagemap := by rw [requestUnchecked_rest hreq]
    rw [pagemap_setEntry, if_pos rfl, hmap, Pagemap.setEntry_root hk,
      Entry.find_set_same _ (by omega) (by omega) hpath fun _ _ _ => rfl, Entry.find_succ hj]
    simp only [Entry.entries]
    rw [Entry.find_none]
    rfl

theorem Sound.newLevels {n : Nat} (h : Sound ⟨s, others⟩) (hlive : Live s pm) (hk : k + n ≤ 3)
    (hv : v < 2 ^ 47) (hpath : (s.pagemap pm).root.Path 4 (k + n) v)
    (hplace : ((s.pagemap pm).root.find 4 k v).frame? = none) (hrun : newLevels s pm v k n = .ok s')
    : Sound ⟨s', others⟩ ∧ Live s' pm ∧ (s'.pagemap pm).root.Path 4 k v
      ∧ ((s'.pagemap pm).root.find 4 k v).frame? = none := by
  induction n generalizing s with
  | zero =>
    cases hrun
    exact ⟨h, hlive, hpath, hplace⟩
  | succ n ih =>
    obtain ⟨t, ht, hrun⟩ := bind_ok.mp hrun
    obtain ⟨hsound, hlive'⟩ := h.newLevel hlive (by omega) hv hpath ht
    have hpath' := (newLevel_walk (by omega) hpath ht).2
    exact ih hsound hlive' (by omega) hpath'
      (newLevel_place (k := k + n) (by omega) (by omega) hpath hplace ht) hrun

theorem Sound.overwrite (h : Sound ⟨s, others⟩) (hlive : Live s pm) (hk : k ≤ 3) (hv : v < 2 ^ 47)
    (hpath : (s.pagemap pm).root.Path 4 k v)
    (hplace : ((s.pagemap pm).root.find 4 k v).frame? = none)
    (hx : x.frame? = none) : Sound ⟨VMM.setEntry s pm k v x, others⟩ := by
  have hown := own_setEntry (x := x) hk hv hpath hlive
  rw [Entry.tables_of_none hplace, Entry.tables_of_none hx, add_zero, add_zero] at hown
  have hholders : update (holders ⟨s, others⟩) (some pm) (own s pm) = holders ⟨s, others⟩ :=
    update_eq_self_iff.mpr rfl
  apply h.setEntry rfl hk hv
  rw [hown, hholders]
  exact h.held

theorem leafEntry_frame (height paddr : Nat) (flags : BitVec 64)
    : (leafEntry height paddr flags).frame? = none := by
  simp only [leafEntry]
  generalize flags &&& pteKeep ||| _ = flags
  cases has flags mmRead <;> rfl

theorem Sound.mapPage {height paddr : Nat} {flags : BitVec 64} (h : Sound ⟨s, others⟩)
    (hok : Mappable s height pm v) (hrun : mapPage s height pm v paddr flags = .ok s')
    : Sound ⟨s', others⟩ := by
  obtain ⟨t, ht, hrun⟩ := bind_ok.mp hrun
  cases hrun
  have hsmall := hok.small
  have hthree : height + (3 - height) = 3 := by omega
  have htop : (s.pagemap pm).root.Path 4 (height + (3 - height)) v := by
    rw [hthree]
    exact path_root s pm v
  obtain ⟨hsound, hlive, hpath, hplace⟩ :=
    h.newLevels hok.live (by omega) hok.user htop hok.place ht
  exact hsound.overwrite hlive (by omega) hok.user hpath hplace (leafEntry_frame _ _ _)

theorem setPagemap_pagemap (s : State) (pm : Nat) : s.setPagemap pm (s.pagemap pm) = s := by
  have hmap : (fun a => if a = pm then s.pagemap pm else s.pagemap a) = s.pagemap := by
    funext a
    split
    next heq => rw [heq]
    next => rfl
  unfold State.setPagemap
  rw [hmap]

theorem Sound.unmapNoFlush (h : Sound ⟨s, others⟩) (hlive : Live s pm) (hv : v < 2 ^ 47)
    : Sound ⟨unmapNoFlush s pm v, others⟩ := by
  rcases Entry.walk_cases (s.pagemap pm).root v with hnone | ⟨k, phys, flags, hk, hpath, hfind, -⟩
  . have hsame : VMM.unmapNoFlush s pm v = s := by
      unfold VMM.unmapNoFlush
      rw [Entry.unmap_of_none _ hnone]
      exact setPagemap_pagemap s pm
    rw [hsame]
    exact h
  . have hne : k ≠ 4 := by
      rintro rfl
      rw [Entry.find_self] at hfind
      cases hfind
    have hset : VMM.unmapNoFlush s pm v = VMM.setEntry s pm k v .none := by
      unfold VMM.unmapNoFlush
      rw [Entry.unmap_of_leaf hk hfind]
      rfl
    rw [hset]
    exact h.overwrite hlive (by omega) hv hpath (by rw [hfind]; rfl) rfl

theorem Sound.emptySpace {toplvl : Nat} {t1 : State} (h : Sound ⟨s, others⟩)
    (h1 : requestUnchecked s = .ok (pm, t1)) (h2 : requestUnchecked t1 = .ok (toplvl, t))
    : Sound ⟨t.setPagemap pm (emptySpace t toplvl), others⟩ := by
  have hpm := requestUnchecked_ok h.held.backed h1
  have htop := requestUnchecked_ok hpm.backed h2
  have hrest : t = { s with pmm := t.pmm } := by rw [htop.rest, hpm.rest]
  have hsame := SameSpaces.of_rest hrest
  have hmaps : t.pagemap = s.pagemap := by rw [hrest]
  have hkernel := hsame.kernelPagemap
  -- the page of the new page map was available, so no page map is there
  have hdead : (s.pagemap pm).toplvl = 0 := by
    by_contra hlive
    apply h.held.not_mem hpm.mem_avail (some pm)
    show pm ∈ own s pm
    rw [own, if_neg hlive]
    exact Multiset.mem_cons_self _ _
  have hne : pm ≠ s.kernelPagemap := fun heq => h.kernel (heq ▸ hdead)
  have hlive : toplvl ≠ 0 := by
    rintro rfl
    exact hpm.backed.zero htop.mem_avail
  have hmap : ∀ a, (t.setPagemap pm (VMM.emptySpace t toplvl)).pagemap a
      = if a = pm then VMM.emptySpace t toplvl else s.pagemap a := by
    intro a
    rw [← hmaps]
    rfl
  have hk : (t.setPagemap pm (VMM.emptySpace t toplvl)).pagemap s.kernelPagemap
      = s.pagemap s.kernelPagemap := by rw [hmap, if_neg (Ne.symm hne)]
  have hown : own (t.setPagemap pm (VMM.emptySpace t toplvl)) pm = toplvl ::ₘ pm ::ₘ own s pm := by
    have hlower : (VMM.emptySpace t toplvl).tables 256 = 0 := by
      apply Finset.sum_eq_zero
      intro i hi
      rw [Finset.mem_range] at hi
      simp only [VMM.emptySpace, kernelHalf, if_neg (Nat.not_le.mpr hi)]
      exact Entry.tables_none 3
    unfold own
    rw [hmap, if_pos rfl, if_pos hdead]
    show (if toplvl = 0 then 0 else pm ::ₘ toplvl
      ::ₘ (VMM.emptySpace t toplvl).tables (if pm = t.kernelPagemap then 512 else 256)) = _
    rw [if_neg hlive, hkernel, if_neg hne, hlower, Multiset.cons_swap]
  constructor
  case held =>
    have hholders : holders ⟨t.setPagemap pm (VMM.emptySpace t toplvl), others⟩
        = update (holders ⟨s, others⟩) (some pm) (toplvl ::ₘ pm ::ₘ own s pm) := by
      funext j
      cases j with
      | none => rfl
      | some a =>
        by_cases ha : a = pm
        . rw [ha, update_self]
          exact hown
        . rw [update_of_ne (by simpa using ha)]
          exact own_congr hkernel (by rw [hmap, if_neg ha]) (by rw [hmap, if_neg ha])
    have htaken := (h.held.take hpm (some pm)).take htop (some pm)
    rw [update_self, update_idem] at htaken
    rw [hholders]
    exact htaken.congr rfl rfl
  case half =>
    show higherHalfZero t.hhdmOffset = 0
    rw [hsame.hhdmOffset]
    exact h.half
  case kernel =>
    show ((t.setPagemap pm _).pagemap t.kernelPagemap).toplvl ≠ 0
    rw [hkernel, hk]
    exact h.kernel
  case shares =>
    intro a i hi
    show ((t.setPagemap pm _).pagemap a).entries i
      = ((t.setPagemap pm _).pagemap t.kernelPagemap).entries i
      ∨ _
    rw [hkernel, hk, hmap]
    split
    next =>
      simp only [VMM.emptySpace, kernelHalf, if_pos hi, hmaps, hkernel, true_or]
    next => exact h.shares a i hi
  case bare =>
    intro a ha
    show ((t.setPagemap pm _).pagemap a).vmMappings = 0
    rw [hmap]
    split
    next => rfl
    next => exact h.bare a (hkernel ▸ ha)

theorem Sound.vmaAllocNode {node : Option Nat} (h : Sound ⟨s, others⟩)
    (hrun : vmaAllocNode s = .ok (node, s')) : Sound ⟨s', others⟩ := by
  unfold VMM.vmaAllocNode at hrun
  split at hrun
  next =>
    cases hrun
    exact h.same ⟨rfl, rfl, fun _ => rfl, fun _ => rfl, fun _ => rfl⟩ (h.held.congr rfl rfl)
  next =>
    obtain ⟨⟨ptr, t⟩, hreq, hrun⟩ := bind_ok.mp hrun
    have hrest := request_rest hreq
    have hsame := SameSpaces.of_rest hrest
    cases ptr with
    | none =>
      cases hrun
      exact h.same hsame (h.held.refused (request_none h.held.backed hreq))
    | some =>
      cases hrun
      refine h.same ⟨hsame.hhdmOffset, hsame.kernelPagemap, hsame.toplvl, hsame.entries,
        hsame.vmMappings⟩ ?_
      refine h.held.node (request_some h.held.backed hreq) ?_ ?_
      . rfl
      . show _ :: t.nodePages = _
        rw [hrest]

theorem Sound.setStart {start : Nat} (h : Sound ⟨s, others⟩) (hrun : setStart s pm start = .ok s')
    : Sound ⟨s', others⟩ := by
  have hmoved : ∀ {t : State} {map : Pagemap}, Sound ⟨t, others⟩
      → map.toplvl = (t.pagemap pm).toplvl → map.entries = (t.pagemap pm).entries
      → map.vmMappings = (t.pagemap pm).vmMappings → Sound ⟨t.setPagemap pm map, others⟩ := by
    intro t map ht htop hentries hmappings
    have hmap : ∀ a, (t.setPagemap pm map).pagemap a = if a = pm then map else t.pagemap a :=
      fun _ => rfl
    refine ht.same ⟨rfl, rfl, fun a => ?_, fun a => ?_, fun a => ?_⟩ (ht.held.congr ?_ ?_)
    case refine_4 => rfl
    case refine_5 => rfl
    all_goals
      rw [hmap]
      split
      next heq => rw [heq]; assumption
      next => rfl
  unfold VMM.setStart at hrun
  split at hrun
  next =>
    cases hrun
    exact hmoved h rfl rfl rfl
  next =>
    obtain ⟨⟨node, t⟩, ht, hrun⟩ := bind_ok.mp hrun
    have hsound := h.vmaAllocNode ht
    cases node with
    | none =>
      cases hrun
      exact hsound
    | some =>
      cases hrun
      exact hmoved hsound rfl rfl rfl

theorem Sound.newPM (h : Sound ⟨s, others⟩) (hrun : newPM s = .ok (pm, s'))
    : Sound ⟨s', others⟩ := by
  obtain ⟨⟨pm', t1⟩, h1, hrun⟩ := bind_ok.mp hrun
  obtain ⟨⟨toplvl, t2⟩, h2, hrun⟩ := bind_ok.mp hrun
  obtain ⟨t3, h3, hrun⟩ := bind_ok.mp hrun
  cases hrun
  exact (h.emptySpace h1 h2).setStart h3

theorem forkRegions_skips {parent child : Nat} (hhalf : higherHalfZero s.hhdmOffset = 0)
    (regions : List Region) : forkRegions s parent child regions = .ok (true, s) := by
  induction regions with
  | nil => rfl
  | cons r rest ih =>
    unfold forkRegions
    rw [if_pos (by omega)]
    exact ih

theorem Sound.fork {parent : Nat} {res : Option Nat} (h : Sound ⟨s, others⟩)
    (hrun : fork s parent = .ok (res, s')) : Sound ⟨s', others⟩ := by
  obtain ⟨⟨child, t1⟩, h1, hrun⟩ := bind_ok.mp hrun
  obtain ⟨⟨toplvl, t2⟩, h2, hrun⟩ := bind_ok.mp hrun
  have hsound := h.emptySpace h1 h2
  simp only at hrun
  split at hrun
  next =>
    cases hrun
    exact hsound
  next =>
    obtain ⟨t3, h3, hrun⟩ := bind_ok.mp hrun
    have hstarted := hsound.setStart h3
    rw [forkRegions_skips hstarted.half] at hrun
    cases hrun
    exact hstarted

def spacePages (map : Pagemap) (pm : Nat) : List Nat :=
  ((List.range 256).flatMap fun i => visited 3 (map.entries i)) ++ [map.toplvl, pm]

theorem Sound.destroyPM_eq (h : Sound ⟨s, others⟩) (hok : Destroyable s pm)
    : destroyPM s pm
        = .ok (((spacePages (s.pagemap pm) pm).foldl pmmFree s).setPagemap pm Pagemap.empty) := by
  have hregions : cleanRegions s pm = s := by simp only [cleanRegions, hok.head]
  have hbare := h.bare pm hok.user
  have hmappings : cleanMappings s pm = .ok s := by
    simp only [cleanMappings, show (s.pagemap pm).vmMappings = 0 from hbare, if_true]
  have hclean : cleanPM s pm = .ok s := by
    unfold cleanPM
    rw [hregions, hmappings]
    show Except.ok (s.setPagemap pm { s.pagemap pm with vmMappings := 0 }) = _
    rw [← show (s.pagemap pm).vmMappings = 0 from hbare, setPagemap_pagemap]
  unfold VMM.destroyPM
  rw [hclean]
  show Except.ok ((pmmFree
    (pmmFree (freePageTables 4 (s.pagemap pm).entries s) (s.pagemap pm).toplvl)
    pm).setPagemap pm Pagemap.empty) = _
  rw [freePageTables_eq, spacePages, List.foldl_append]
  rfl

theorem spacePages_eq_own (hok : Destroyable s pm)
    : ↑(spacePages (s.pagemap pm) pm) = own s pm := by
  have htables : (((List.range 256).flatMap
    fun i => visited 3 ((s.pagemap pm).entries i) : List Nat)
      : Multiset Nat) = (s.pagemap pm).tables 256 := by
    rw [coe_flatMap_range]
    exact Finset.sum_congr rfl fun i hi => visited_eq_tables (hok.low i (Finset.mem_range.mp hi))
  rw [spacePages, ← Multiset.coe_add, htables, own, if_neg hok.live, if_neg hok.user, add_comm]
  show ((s.pagemap pm).toplvl ::ₘ {pm}) + _ = _
  rw [Multiset.cons_add, Multiset.singleton_add, Multiset.cons_swap]

theorem Sound.destroyPM (h : Sound ⟨s, others⟩) (hok : Destroyable s pm)
    (hrun : destroyPM s pm = .ok s') : Sound ⟨s', others⟩ := by
  rw [h.destroyPM_eq hok] at hrun
  cases hrun
  generalize hl : spacePages (s.pagemap pm) pm = l
  have hgiven := h.held.giveAll (some pm) l (by rw [← hl]; exact (spacePages_eq_own hok).symm)
  have hrest := foldl_pmmFree_rest l s
  have hmap : ∀ a, ((l.foldl pmmFree s).setPagemap pm Pagemap.empty).pagemap a
      = if a = pm then Pagemap.empty else s.pagemap a := by
    intro a
    show (if a = pm then _ else (l.foldl pmmFree s).pagemap a) = _
    rw [hrest]
  have hkernel : (l.foldl pmmFree s).kernelPagemap = s.kernelPagemap := by rw [hrest]
  have hk : ((l.foldl pmmFree s).setPagemap pm Pagemap.empty).pagemap s.kernelPagemap
      = s.pagemap s.kernelPagemap := by rw [hmap, if_neg (Ne.symm hok.user)]
  constructor
  case held =>
    have hholders : holders ⟨(l.foldl pmmFree s).setPagemap pm Pagemap.empty, others⟩
        = update (holders ⟨s, others⟩) (some pm) 0 := by
      funext j
      cases j with
      | none => rfl
      | some a =>
        by_cases ha : a = pm
        . rw [ha, update_self]
          show own _ pm = 0
          rw [own, hmap, if_pos rfl]
          rfl
        . rw [update_of_ne (by simpa using ha)]
          exact own_congr hkernel (by rw [hmap, if_neg ha]) (by rw [hmap, if_neg ha])
    rw [hholders]
    exact hgiven.congr rfl rfl
  case half =>
    show higherHalfZero (l.foldl pmmFree s).hhdmOffset = 0
    rw [hrest]
    exact h.half
  case kernel =>
    show ((State.setPagemap _ pm _).pagemap (l.foldl pmmFree s).kernelPagemap).toplvl ≠ 0
    rw [hkernel, hk]
    exact h.kernel
  case shares =>
    intro a i hi
    show ((State.setPagemap _ pm _).pagemap a).entries i
      = ((State.setPagemap _ pm _).pagemap (l.foldl pmmFree s).kernelPagemap).entries i ∨ _
    rw [hkernel, hk, hmap]
    split
    next => exact .inr rfl
    next => exact h.shares a i hi
  case bare =>
    intro a ha
    show ((State.setPagemap _ pm _).pagemap a).vmMappings = 0
    rw [hmap]
    split
    next => rfl
    next => exact h.bare a (hkernel ▸ ha)

theorem Sound.step {op : SpaceOp} (h : Sound σ) (hok : ProperOp σ op)
    (hrun : spaceExec σ op = .ok σ')
    : Sound σ' := by
  cases op with
  | newPM =>
    obtain ⟨⟨pm, vmm⟩, hnew, hrun⟩ := bind_ok.mp hrun
    cases hrun
    exact h.newPM hnew
  | map =>
    obtain ⟨vmm, hmap, hrun⟩ := bind_ok.mp hrun
    cases hrun
    exact h.mapPage hok hmap
  | unmap =>
    cases hrun
    exact h.unmapNoFlush hok.1 hok.2
  | fork =>
    obtain ⟨⟨child, vmm⟩, hfork, hrun⟩ := bind_ok.mp hrun
    cases hrun
    exact h.fork hfork
  | destroyPM =>
    obtain ⟨vmm, hdestroy, hrun⟩ := bind_ok.mp hrun
    cases hrun
    exact h.destroyPM hok hdestroy
  | request =>
    obtain ⟨⟨ptr, vmm⟩, hreq, hrun⟩ := bind_ok.mp hrun
    have hsame := SameSpaces.of_rest (request_rest hreq)
    cases ptr with
    | none =>
      cases hrun
      exact h.same hsame (h.held.refused (request_none h.held.backed hreq))
    | some ptr =>
      cases hrun
      exact h.congr hsame (h.held.take (request_some h.held.backed hreq) none)
  | free ptr =>
    cases hrun
    have hsame : SameSpaces σ.vmm (pmmFree σ.vmm ptr) :=
      ⟨rfl, rfl, fun _ => rfl, fun _ => rfl, fun _ => rfl⟩
    apply h.congr hsame
    apply h.held.give
    show (σ.others : Multiset Nat) = _
    rw [Multiset.cons_coe]
    exact Multiset.coe_eq_coe.mpr (List.perm_cons_erase hok)

theorem Booted.sound_of_reach {σ0 : Sys} (hboot : Booted σ0)
    (h : Steps.Reach (fun σ op => (spaceExec σ op).toOption) ProperOp σ0 σ) : Sound σ := by
  apply h.invariant Sound hboot.sound
  intro σ op σ' hσ hproper hrun
  exact hσ.step hproper (ok_of_toOption hrun)

end

def returned (s s' : State) : List Nat :=
  s'.freed.take (s'.freed.length - s.freed.length)

/--
`DestroyPM` returns the page of the `pagemap_t`, the top level and every table of the lower half
once. No returned page belongs to another page map, is a table of the upper half, is in the node
pool of the VMA allocator or is one that the rest of the kernel has.
-/
structure Returns (σ : Sys) (s' : State) (pm : Nat) : Prop where
  tables : ↑(returned σ.vmm s') = own σ.vmm pm
  once : (returned σ.vmm s').Nodup
  unused : ∀ ptr ∈ returned σ.vmm s', (∀ a, a ≠ pm → ptr ∉ own σ.vmm a)
    ∧ (∀ a i, 256 ≤ i → i < 512 → ptr ∉ ((σ.vmm.pagemap a).entries i).tables 3)
    ∧ ptr / 4096 ∉ σ.vmm.nodePages ∧ ptr ∉ σ.others

theorem Sound.upper {σ : Sys} (h : Sound σ) {a i ptr : Nat} (hlo : 256 ≤ i) (hhi : i < 512)
    (hptr : ptr ∈ ((σ.vmm.pagemap a).entries i).tables 3)
    : ptr ∈ own σ.vmm σ.vmm.kernelPagemap := by
  rcases h.shares a i hlo with hkernel | hnone
  . rw [hkernel] at hptr
    rw [own, if_neg h.kernel, if_pos rfl, Multiset.mem_cons, Multiset.mem_cons, Pagemap.tables,
      Multiset.mem_sum]
    exact .inr (.inr ⟨i, Finset.mem_range.mpr hhi, hptr⟩)
  . rw [hnone, Entry.tables_none] at hptr
    cases hptr

/--
In every run of operations on page maps, `DestroyPM` of a page map without a sentinel returns what
the page map is made of and nothing else.
-/
theorem destroyPM_returns {σ0 σ : Sys} {pm : Nat} (hboot : Booted σ0)
    (h : Steps.Reach (fun σ op => (spaceExec σ op).toOption) ProperOp σ0 σ)
    (hok : Destroyable σ.vmm pm)
    : ∃ s', destroyPM σ.vmm pm = .ok s' ∧ Returns σ s' pm := by
  have hsound := hboot.sound_of_reach h
  refine ⟨_, hsound.destroyPM_eq hok, ?_⟩
  have hreturned : returned σ.vmm
    (((spacePages (σ.vmm.pagemap pm) pm).foldl pmmFree σ.vmm).setPagemap pm
      Pagemap.empty) = (spacePages (σ.vmm.pagemap pm) pm).reverse := by
    unfold returned
    show ((List.foldl pmmFree _ _).freed).take ((List.foldl pmmFree _ _).freed.length - _) = _
    rw [freed_foldl, List.length_append, Nat.add_sub_cancel, List.take_left]
  have hown := spacePages_eq_own hok
  have hmem : ∀ ptr ∈ (spacePages (σ.vmm.pagemap pm) pm).reverse, ptr ∈ own σ.vmm pm := by
    intro ptr hptr
    rw [← hown]
    exact List.mem_reverse.mp hptr
  constructor
  case tables =>
    rw [hreturned, ← hown]
    exact Multiset.coe_eq_coe.mpr (List.reverse_perm _)
  case once =>
    rw [hreturned, List.nodup_reverse]
    have hnodup := hsound.held.nodup (some pm)
    rw [show holders σ (some pm) = _ from hown.symm, Multiset.coe_nodup] at hnodup
    exact hnodup
  case unused =>
    rw [hreturned]
    intro ptr hptr
    have hptr := hmem ptr hptr
    have happart := hsound.held.apart (some pm)
    refine ⟨fun a ha hother => ?_, fun a i hlo hhi hupper => ?_, ?_, fun hother => ?_⟩
    . cases happart (some a) ptr hptr hother
      exact ha rfl
    . cases happart (some _) ptr hptr (hsound.upper hlo hhi hupper)
      exact hok.user rfl
    . exact (hsound.held.out (some pm) ptr hptr).good
    . cases happart none ptr hptr hother

instance decidableLow : (level : Nat) → (e : Entry) → Decidable (e.Low level)
  | 0, .none => isTrue trivial
  | 0, .leaf _ _ => isTrue trivial
  | 0, .table _ _ => isTrue trivial
  | _ + 1, .none => isTrue trivial
  | _ + 1, .leaf _ _ => isTrue trivial
  | level + 1, .table _ entries =>
    have := fun i => decidableLow level (entries i)
    decidable_of_iff ((∀ i ∈ List.range 256, (entries i).Low level)
        ∧ ∀ i ∈ List.range 512, 256 ≤ i → 1 ≤ level → (entries i).frame? = Option.none)
      (by simp only [Entry.Low, List.mem_range])

instance (map : Pagemap) : Decidable (LowTables map) :=
  decidable_of_iff (∀ i ∈ List.range 256, (map.entries i).Low 3)
    (by simp only [LowTables, List.mem_range])

instance (s : State) (pm : Nat) : Decidable (Live s pm) :=
  inferInstanceAs (Decidable (_ ≠ _))

instance (s : State) (pm : Nat) : Decidable (Destroyable s pm) :=
  decidable_of_iff (Live s pm ∧ pm ≠ s.kernelPagemap ∧ (s.pagemap pm).vmaHead = none
      ∧ LowTables (s.pagemap pm))
    ⟨fun ⟨h1, h2, h3, h4⟩ => ⟨h1, h2, h3, h4⟩, fun h => ⟨h.live, h.user, h.head, h.low⟩⟩

instance (s : State) (height pm vaddr : Nat) : Decidable (Mappable s height pm vaddr) :=
  decidable_of_iff (Live s pm ∧ height ≤ 2 ∧ vaddr < 2 ^ 47
      ∧ (∀ k ≤ 3, height < k → ((s.pagemap pm).root.find 4 k vaddr).isLeaf = false)
      ∧ ((s.pagemap pm).root.find 4 height vaddr).frame? = none)
    ⟨fun ⟨h1, h2, h3, h4, h5⟩ => ⟨h1, h2, h3, h4, h5⟩,
      fun h => ⟨h.live, h.small, h.user, h.above, h.place⟩⟩

instance (σ : Sys) (op : SpaceOp) : Decidable (ProperOp σ op) := by
  unfold ProperOp
  cases op <;> infer_instance

def bootSys : Sys where
  vmm := bootState
  others := []

theorem tables_table (level frame : Nat) (first : Entry)
    : (kernelSpace.table frame first).tables (level + 1) = frame ::ₘ first.tables level := by
  rw [kernelSpace.table, Entry.tables]
  apply congrArg
  rw [Finset.sum_eq_single 0]
  . rfl
  . intro i _ hi
    rw [if_neg hi, Entry.tables_none]
  . exact fun h => absurd (Finset.mem_range.mpr (by omega)) h

theorem own_bootState : own bootState 0x4000 = {0x4000, 0x5000, 0x6000, 0x7000, 0x8000} := by
  have htables : kernelSpace.tables 512 = {0x6000, 0x7000, 0x8000} := by
    rw [Pagemap.tables, Finset.sum_eq_single 256]
    . show (kernelSpace.table _ _).tables 3 = _
      rw [tables_table, tables_table, tables_table]
      rfl
    . intro i _ hi
      show (if i = 256 then _ else Entry.none).tables 3 = 0
      rw [if_neg hi, Entry.tables_none]
    . exact fun h => absurd (Finset.mem_range.mpr (by omega)) h
  have hmap : bootState.pagemap 0x4000 = kernelSpace := rfl
  rw [own, hmap, if_neg (by decide),
    if_pos (show 0x4000 = bootState.kernelPagemap from rfl), htables]
  rfl

instance (e : PMM.MemmapEntry) (p : Nat) : Decidable (e.Touches p) :=
  inferInstanceAs (Decidable (_ ∧ _))

theorem bootSys_booted : Booted bootSys := by
  obtain ⟨hinv, -, hmanaged⟩ := PMM.init_inv PMM.smallMemmap PMM.smallState PMM.init_smallMemmap_eq
  constructor
  case backed => exact bootState_backed
  case half => rfl
  case others => rfl
  case only =>
    intro a ha
    exact if_neg ha
  case kernel => exact fun h => by cases h
  case nodup =>
    show (own bootState 0x4000).Nodup
    rw [own_bootState]
    decide
  case aligned =>
    show ∀ ptr ∈ own bootState 0x4000, _
    rw [own_bootState]
    decide
  case out =>
    show ∀ ptr ∈ own bootState 0x4000, _
    rw [own_bootState]
    intro ptr hptr
    have hpage : ptr / 4096 ∈ [4, 5, 6, 7, 8] := by
      revert ptr
      decide
    have hlt : ∀ p ∈ [4, 5, 6, 7, 8], 0 < p ∧ p < PMM.smallState.bitmapPages := by decide +kernel
    -- the pages are in memory that the boot loader still has
    have hboot : ∀ p ∈ [4, 5, 6, 7, 8], ∃ e ∈ PMM.smallMemmap.entries,
        e.type = .bootloaderReclaimable ∧ e.Touches p := by
      decide
    refine ⟨(hlt _ hpage).1, (hlt _ hpage).2, fun havail => ?_, List.not_mem_nil⟩
    obtain ⟨e, he, htype, htouches⟩ := hboot _ hpage
    exact (hmanaged _ havail.1).not_boot e he htype htouches

/--
`NewPM` gets the last two pages, so that there is none for a sentinel. When the rest of the kernel
has given pages back, a page is mapped and the page map forked, and the copy is destroyed.
-/
def scarceOps : List SpaceOp :=
  List.replicate 8 .request ++ [
    .newPM,
    .free 98304, .free 94208, .free 90112, .free 86016, .free 81920,
    .map 0 102400 0x1000 0x1000 7#64,
    .fork 102400,
    .unmap 102400 0x1000,
    .destroyPM 94208]

theorem destroyPM_returns_scarce
    : ∃ σ s', Steps.Reach (fun σ op => (spaceExec σ op).toOption) ProperOp bootSys σ
      ∧ Destroyable σ.vmm 102400 ∧ destroyPM σ.vmm 102400 = .ok s' ∧ Returns σ s' 102400
      ∧ (own σ.vmm 102400).card = 5 := by
  obtain ⟨σ, hreach, hok, hlength⟩ := Steps.Reach.exists_of_run
    (fun σ op => (spaceExec σ op).toOption) ProperOp bootSys scarceOps
    (fun σ => Destroyable σ.vmm 102400 ∧ (spacePages (σ.vmm.pagemap 102400) 102400).length = 5)
    (by decide +kernel)
  obtain ⟨s', hdestroy, hreturns⟩ := destroyPM_returns bootSys_booted hreach hok
  refine ⟨σ, s', hreach, hok, hdestroy, hreturns, ?_⟩
  rw [← spacePages_eq_own hok]
  exact hlength

/--
A page is mapped at 512 MiB and the page map destroyed: its page table is lost, and the page of its
sentinel is returned with the other nodes in it.
-/
theorem destroyPM_leaks
    : ∃ σ s', Steps.Reach (fun σ op => (spaceExec σ op).toOption) ProperOp bootSys σ
      ∧ destroyPM σ.vmm 4096 = .ok s'
      ∧ ((σ.vmm.pagemap 4096).root.find 4 1 0x20000000).frame? = some 90112
      ∧ 90112 ∉ returned σ.vmm s' ∧ 12288 ∈ returned σ.vmm s' ∧ 12392 ∈ s'.nodeFreeList
      ∧ ¬Returns σ s' 4096 := by
  obtain ⟨σ, hreach, hrun⟩ := Steps.Reach.exists_of_run
    (fun σ op => (spaceExec σ op).toOption) ProperOp bootSys
    [.newPM, .map 0 4096 0x20000000 0x8000 7#64]
    (fun σ => ∃ s' ∈ (destroyPM σ.vmm 4096).toOption,
      ((σ.vmm.pagemap 4096).root.find 4 1 0x20000000).frame? = some 90112
        ∧ 90112 ∉ returned σ.vmm s' ∧ 12288 ∈ returned σ.vmm s' ∧ 12392 ∈ s'.nodeFreeList
        ∧ 3 ∈ σ.vmm.nodePages)
    (by decide +kernel)
  obtain ⟨s', hs', htable, hleak, hnode, hfree, hpool⟩ := exists_ok hrun
  refine ⟨σ, s', hreach, hs', htable, hleak, hnode, hfree, fun hreturns => ?_⟩
  exact (hreturns.unused 12288 hnode).2.2.1 hpool

end VMM
