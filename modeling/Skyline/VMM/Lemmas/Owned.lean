import Skyline.VMM.Translation

/-!
This module contains who holds which page of the memory, and which pages a page map is made of.
-/

namespace VMM

open Function

structure Refused (s s' : State) : Prop where
  rest : s' = { s with pmm := s'.pmm }
  backed : Backed s'
  frame : PMM.Frame s.pmm s'.pmm
  avail_eq : avail s' = avail s

structure Held (s : State) (pages : Option Nat → Multiset Nat) : Prop where
  backed : Backed s
  nodup : ∀ h, (pages h).Nodup
  apart : ∀ h h' ptr, ptr ∈ pages h → ptr ∈ pages h' → h = h'
  aligned : ∀ h, ∀ ptr ∈ pages h, ptr % 4096 = 0
  out : ∀ h, ∀ ptr ∈ pages h, Returnable s (ptr / 4096)

section

variable {s s' t : State} {P : Option Nat → Multiset Nat} {h0 : Option Nat} {ptr : Nat}

theorem request_none (h : Backed s) (hres : request s = .ok (none, s')) : Refused s s' := by
  have hok := PMM.request_ok h.inv s.cpu 1
  unfold request at hres
  generalize PMM.request s.pmm s.cpu 1 = res at hok hres
  match res with
  | (none, pmm) =>
    cases hres
    have hc : PMM.Changed (spoiled s) s.pmm pmm (PMM.avail s.pmm) := hok
    refine ⟨rfl, ⟨hc.inv, ?_⟩, hc.frame, avail_of_changed hc⟩
    rw [avail_of_changed hc]
    exact h.zero
  | (some ptr, pmm) =>
    simp only [handOut] at hres
    split at hres
    next => cases hres
    next => cases hres

theorem Handed.mem_avail (h : Handed s t 1 ptr) : ptr / 4096 ∈ avail s :=
  h.inside 0 (by omega)

theorem Handed.avail_subset (h : Handed s t 1 ptr) : avail t ⊆ avail s := by
  rw [h.avail_eq]
  exact Set.sdiff_subset

theorem mem_update_cons {h : Option Nat} {p : Nat}
    : p ∈ update P h0 (ptr ::ₘ P h0) h ↔ h = h0 ∧ p = ptr ∨ p ∈ P h := by
  by_cases heq : h = h0
  . subst heq
    simp
  . simp [heq]

theorem Returnable.shrink {f : Nat} (h : Returnable s f)
    (hframe : s'.pmm.bitmapPages = s.pmm.bitmapPages)
    (havail : avail s' ⊆ avail s) (hnodes : f ∉ s'.nodePages) : Returnable s' f :=
  ⟨h.pos, hframe ▸ h.lt, fun hmem => h.out (havail hmem), hnodes⟩

namespace Held

theorem congr (h : Held s P) (hpmm : s'.pmm = s.pmm) (hnodes : s'.nodePages = s.nodePages)
    : Held s' P := by
  refine ⟨h.backed.congr hpmm hnodes, h.nodup, h.apart, h.aligned, fun k p hp => ?_⟩
  have havail : avail s' = avail s := by
    unfold avail
    rw [hpmm, hnodes]
  exact (h.out k p hp).shrink (by rw [hpmm]) havail.subset (hnodes ▸ (h.out k p hp).good)

theorem not_mem (h : Held s P) (hptr : ptr / 4096 ∈ avail s) (k : Option Nat) : ptr ∉ P k :=
  fun hmem => (h.out k ptr hmem).out hptr

theorem take (h : Held s P) (hand : Handed s t 1 ptr) (h0 : Option Nat)
    : Held t (update P h0 (ptr ::ₘ P h0)) := by
  have hnew := h.not_mem hand.mem_avail
  constructor
  case backed => exact hand.backed
  case nodup =>
    intro k
    by_cases heq : k = h0
    . subst heq
      rw [update_self, Multiset.nodup_cons]
      exact ⟨hnew k, h.nodup k⟩
    . rw [update_of_ne heq]
      exact h.nodup k
  case apart =>
    intro k k' p hp hp'
    rw [mem_update_cons] at hp hp'
    rcases hp with ⟨hk, rfl⟩ | hp
    . rcases hp' with ⟨hk', -⟩ | hp'
      . rw [hk, hk']
      . exact absurd hp' (hnew k')
    . rcases hp' with ⟨-, rfl⟩ | hp'
      . exact absurd hp (hnew k)
      . exact h.apart k k' p hp hp'
  case aligned =>
    intro k p hp
    rcases mem_update_cons.mp hp with ⟨-, rfl⟩ | hp
    . exact hand.aligned
    . exact h.aligned k p hp
  case out =>
    intro k p hp
    rcases mem_update_cons.mp hp with ⟨-, rfl⟩ | hp
    . exact hand.returnable h.backed
    . have hold := h.out k p hp
      refine hold.shrink hand.frame.bitmapPages hand.avail_subset ?_
      rw [hand.rest]
      exact hold.good

theorem refused (h : Held s P) (hr : Refused s t) : Held t P := by
  refine ⟨hr.backed, h.nodup, h.apart, h.aligned, fun k p hp => ?_⟩
  have hold := h.out k p hp
  refine hold.shrink hr.frame.bitmapPages hr.avail_eq.subset ?_
  rw [hr.rest]
  exact hold.good

/--
A page becomes one of the node pool.
-/
theorem node (h : Held s P) (hand : Handed s t 1 ptr) (hpmm : s'.pmm = t.pmm)
    (hnodes : s'.nodePages = ptr / 4096 :: s.nodePages) : Held s' P := by
  have hrest : t.nodePages = s.nodePages := by rw [hand.rest]
  have havail : avail s' ⊆ avail t := by
    rintro f ⟨hf, hnode⟩
    rw [hpmm] at hf
    rw [hnodes, List.mem_cons, not_or] at hnode
    exact ⟨hf, hrest ▸ hnode.2⟩
  have hspoiled : spoiled t ⊆ spoiled s' := by
    intro f hf
    show f ∈ s'.nodePages
    rw [hnodes, ← hrest]
    exact List.mem_cons_of_mem _ hf
  refine ⟨⟨?_, fun hzero => hand.backed.zero (havail hzero)⟩, h.nodup, h.apart, h.aligned, ?_⟩
  . rw [hpmm]
    exact hand.backed.inv.mono hspoiled
  . intro k p hp
    have hold := h.out k p hp
    refine hold.shrink ?_ (havail.trans hand.avail_subset) ?_
    . rw [hpmm]
      exact hand.frame.bitmapPages
    . rw [hnodes, List.mem_cons, not_or]
      exact ⟨fun heq => hold.out (heq ▸ hand.mem_avail), hold.good⟩

theorem give {m : Multiset Nat} (h : Held s P) (hP : P h0 = ptr ::ₘ m)
    : Held (pmmFree s ptr) (update P h0 m) := by
  have hmem : ptr ∈ P h0 := by rw [hP]; exact Multiset.mem_cons_self _ _
  have halign := h.aligned h0 ptr hmem
  have hgave := pmmFree_gaveBack h.backed (h.out h0 ptr hmem)
  rw [Nat.div_mul_cancel (Nat.dvd_of_mod_eq_zero halign)] at hgave
  have hnodup := h.nodup h0
  rw [hP, Multiset.nodup_cons] at hnodup
  have hsub : ∀ {k p}, p ∈ update P h0 m k → p ∈ P k ∧ p ≠ ptr := by
    intro k p hp
    by_cases heq : k = h0
    . subst heq
      rw [update_self] at hp
      rw [hP]
      exact ⟨Multiset.mem_cons_of_mem hp, fun heq => hnodup.1 (heq ▸ hp)⟩
    . rw [update_of_ne heq] at hp
      exact ⟨hp, fun hpp => heq (h.apart k h0 p hp (hpp ▸ hmem))⟩
  constructor
  case backed => exact hgave.backed
  case nodup =>
    intro k
    by_cases heq : k = h0
    . rw [heq, update_self]
      exact hnodup.2
    . rw [update_of_ne heq]
      exact h.nodup k
  case apart => exact fun k k' p hp hp' => h.apart k k' p (hsub hp).1 (hsub hp').1
  case aligned => exact fun k p hp => h.aligned k p (hsub hp).1
  case out =>
    intro k p hp
    obtain ⟨hold, hne⟩ := hsub hp
    have hret := h.out k p hold
    refine ⟨hret.pos, hgave.frame.bitmapPages ▸ hret.lt, ?_, hret.good⟩
    rw [hgave.avail_eq, Set.mem_insert_iff, not_or]
    have := h.aligned k p hold
    exact ⟨by omega, hret.out⟩

theorem giveAll (h : Held s P) (h0 : Option Nat) (l : List Nat) (hP : P h0 = ↑l)
    : Held (l.foldl pmmFree s) (update P h0 0) := by
  induction l generalizing s P with
  | nil =>
    have hsame : update P h0 0 = P := update_eq_self_iff.mpr hP.symm
    rw [hsame]
    exact h
  | cons ptr l ih =>
    have hnext := ih (h.give (m := ↑l) hP) (update_self _ _ _)
    rwa [update_idem] at hnext

end Held

end

namespace Entry

/--
The page tables below an entry of the height `level`.
-/
def tables (level : Nat) (e : Entry) : Multiset Nat :=
  match level, e with
  | level + 1, .table frame entries => frame ::ₘ ∑ i ∈ Finset.range 512, (entries i).tables level
  | _, _ => 0

variable {e x : Entry} {k height v : Nat}

theorem tables_none (level : Nat) : none.tables level = 0 := by
  cases level <;> rfl

theorem tables_of_none (h : e.frame? = Option.none) (level : Nat) : e.tables level = 0 := by
  cases e with
  | none => exact tables_none level
  | leaf => cases level <;> rfl
  | table => cases h

theorem tables_new (k frame : Nat) : (table frame fun _ => none).tables (k + 1) = {frame} := by
  simp [tables, tables_none]

theorem sum_at {f g : Nat → Multiset Nat} {n j : Nat} {a b : Multiset Nat} (hj : j < n)
    (hat : f j + a = g j + b) (hother : ∀ i, i ≠ j → f i = g i)
    : ∑ i ∈ Finset.range n, f i + a = ∑ i ∈ Finset.range n, g i + b := by
  have hmem := Finset.mem_range.mpr hj
  rw [← Finset.add_sum_erase _ _ hmem, ← Finset.add_sum_erase _ g hmem, add_right_comm, hat,
    add_right_comm, Finset.sum_congr rfl fun i hi => hother i (Finset.ne_of_mem_erase hi)]

theorem index_lt (k v : Nat) : index k v < 512 :=
  Nat.mod_lt _ (by omega)

theorem tables_set (hk : k ≤ height) (hpath : e.Path height k v)
    : (e.set height k v x).tables height + (e.find height k v).tables k
        = e.tables height + x.tables k := by
  induction height, hk using Nat.le_induction generalizing e with
  | base => rw [set_self, find_self, add_comm]
  | succ height hk ih =>
    obtain ⟨frame, he, hbelow⟩ := hpath.succ hk
    generalize e.entries = entries at he hbelow
    subst he
    rw [find_succ hk, set_table hk]
    simp only [tables, Multiset.cons_add]
    apply congrArg
    apply sum_at (index_lt height v)
    . rw [if_pos rfl]
      exact ih hbelow
    . intro i hi
      rw [if_neg hi]

end Entry

namespace Pagemap

def tables (n : Nat) (map : Pagemap) : Multiset Nat :=
  ∑ i ∈ Finset.range n, (map.entries i).tables 3

variable {map : Pagemap} {k v n : Nat} {x : Entry}

theorem setEntry_entries (hk : k ≤ 3) (i : Nat)
    : (map.setEntry k v x).entries i
        = if i = index 3 v then (map.entries i).set 3 k v x else map.entries i := by
  simp only [setEntry, root]
  rw [Entry.set_table hk]
  rfl

theorem tables_setEntry (hk : k ≤ 3) (hn : index 3 v < n) (hpath : map.root.Path 4 k v)
    : (map.setEntry k v x).tables n + (map.root.find 4 k v).tables k
      = map.tables n + x.tables k := by
  obtain ⟨_, -, hpath⟩ := hpath.succ hk
  apply Entry.sum_at hn
  . rw [setEntry_entries hk, if_pos rfl, Entry.find_succ hk]
    exact Entry.tables_set hk hpath
  . intro i hi
    rw [setEntry_entries hk, if_neg hi]

end Pagemap

theorem index_low {v : Nat} (hv : v < 2 ^ 47) : index 3 v < 256 := by
  have hspan : span 3 = 2 ^ 39 := rfl
  unfold index
  rw [hspan]
  omega

/--
The pages that a page map is made of: its `pagemap_t`, its top level and the tables of its lower
half. The tables of the upper half belong to the kernel page map.
-/
def own (s : State) (a : Nat) : Multiset Nat :=
  if (s.pagemap a).toplvl = 0 then 0
  else a ::ₘ (s.pagemap a).toplvl
    ::ₘ (s.pagemap a).tables (if a = s.kernelPagemap then 512 else 256)

section

variable {s s' t : State} {a pm k v : Nat} {x : Entry}

theorem own_congr (hkernel : s'.kernelPagemap = s.kernelPagemap)
    (htop : (s'.pagemap a).toplvl = (s.pagemap a).toplvl)
    (hentries : (s'.pagemap a).entries = (s.pagemap a).entries) : own s' a = own s a := by
  unfold own Pagemap.tables
  rw [hkernel, htop, hentries]

theorem own_setEntry_other (ha : a ≠ pm) : own (setEntry s pm k v x) a = own s a := by
  have hmap : (setEntry s pm k v x).pagemap a = s.pagemap a := by rw [pagemap_setEntry, if_neg ha]
  exact own_congr rfl (by rw [hmap]) (by rw [hmap])

theorem own_setEntry (hk : k ≤ 3) (hv : v < 2 ^ 47) (hpath : (s.pagemap pm).root.Path 4 k v)
    (hlive : (s.pagemap pm).toplvl ≠ 0)
    : own (setEntry s pm k v x) pm + ((s.pagemap pm).root.find 4 k v).tables k
        = own s pm + x.tables k := by
  have hindex := index_low hv
  have htables := Pagemap.tables_setEntry (x := x)
    (n := if pm = s.kernelPagemap then 512 else 256) hk
    (by split <;> omega) hpath
  unfold own
  rw [if_neg hlive, pagemap_setEntry, if_pos rfl]
  show (if (s.pagemap pm).toplvl = 0 then 0 else pm ::ₘ (s.pagemap pm).toplvl
    ::ₘ ((s.pagemap pm).setEntry k v x).tables (if pm = s.kernelPagemap then 512 else 256)) + _ = _
  rw [if_neg hlive]
  simp only [Multiset.cons_add]
  rw [htables]

end

end VMM
