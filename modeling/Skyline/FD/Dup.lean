import Skyline.FD.Table
import Skyline.Steps.Basic

/-!
This module contains what `fd_manager_dup` makes of a table.
-/

namespace FD

variable {m m' src dst : Manager} {fd n : Nat}

def Manager.AllocsSmallest (m : Manager) : Prop :=
  ∀ m', Steps.Reach step (fun _ _ => True) m m' → ∀ mem raw n t, fdAlloc m' mem raw = some (n, t)
    → ¬m'.Used n ∧ ∀ k < n, m'.Used k

theorem Manager.Ok.allocsSmallest (h : m.Ok) : m.AllocsSmallest := by
  intro m' hreach mem raw n t halloc
  have hok := hreach.invariant Manager.Ok h fun _ _ _ hi _ hs => hi.step hs
  exact (hok.fdAlloc halloc).2

/--
The number that `fd_alloc` returns is the smallest one that is not in use, in every table.
-/
theorem fdAlloc_smallest {m : Manager} {mem : Bool} {raw : Entry} {n : Nat} {t : Manager}
    (h : Steps.Reach step (fun _ _ => True) .init m) (halloc : fdAlloc m mem raw = some (n, t))
    : ¬m.Used n ∧ ∀ k < n, m.Used k :=
  Manager.init_ok.allocsSmallest m h mem raw n t halloc

def opened : Entry := ⟨0, some [47, 97], 2, 0, 0, some [7], some ⟨1⟩, some 1, 1⟩

theorem fdAlloc_smallest_reused
    : ∃ m t, Steps.Reach step (fun _ _ => True) .init m ∧ fdAlloc m true opened = some (1, t)
        ∧ ¬m.Used 1 ∧ ∀ k < 1, m.Used k := by
  obtain ⟨m, hreach, hsome⟩ := Steps.Reach.exists_of_run step (fun _ _ => True) .init
    [.alloc true opened, .alloc true opened, .alloc true opened, .free 1]
    (fun m => (fdAlloc m true opened).map Prod.fst = some 1) (by decide +kernel)
  obtain ⟨⟨n, t⟩, halloc, rfl⟩ := Option.map_eq_some_iff.mp hsome
  exact ⟨m, t, hreach, halloc, fdAlloc_smallest hreach halloc⟩

theorem Entry.copy_fd (e : Entry) : e.copy.fd = e.fd := rfl

theorem dupEntries_spec {mem : Nat} {es : List Entry} (h : dupEntries mem dst es = some m)
    : (m.shard (rbGetShard 0)).Perm (es.map Entry.copy ++ dst.shard (rbGetShard 0))
      ∧ (∀ i, i ≠ rbGetShard 0 → m.shard i = dst.shard i)
      ∧ (∀ e ∈ es, e.fd < m.nextFdHint) ∧ dst.nextFdHint ≤ m.nextFdHint
      ∧ (m.nextFdHint = dst.nextFdHint ∨ ∃ e ∈ es, m.nextFdHint = e.fd + 1) := by
  induction es generalizing mem dst with
  | nil =>
    cases h
    exact ⟨.refl _, fun _ _ => rfl, by simp, Nat.le_refl _, .inl rfl⟩
  | cons e _ ih =>
    unfold dupEntries at h
    split at h
    next => cases h
    next =>
      obtain ⟨hperm, hother, hlt, hle, hhint⟩ := ih h
      have hne : e.copy.fd = e.fd := rfl
      have hstep : (dupEntry dst e).nextFdHint
          = if dst.nextFdHint ≤ e.fd then e.fd + 1 else dst.nextFdHint := rfl
      have hshard : (dupEntry dst e).shard (rbGetShard 0)
          = rbInsert e.copy (dst.shard (rbGetShard 0)) := by
        simp [dupEntry]
      refine ⟨?_, ?_, ?_, ?_, ?_⟩
      . rw [hshard] at hperm
        refine hperm.trans (((rbInsert_perm _ _).append_left _).trans ?_)
        exact List.perm_middle
      . intro i hi
        rw [hother i hi]
        simp [dupEntry, hi]
      . intro b hb
        rw [List.mem_cons] at hb
        rcases hb with rfl | hb
        . rw [hstep] at hle
          split at hle
          next => omega
          next => omega
        . exact hlt b hb
      . rw [hstep] at hle
        split at hle
        next => omega
        next => exact hle
      . rcases hhint with hhint | ⟨b, hb, hhint⟩
        . rw [hstep] at hhint
          split at hhint
          next => exact .inr ⟨e, List.mem_cons_self, hhint⟩
          next => exact .inl hhint
        . exact .inr ⟨b, List.mem_cons_of_mem e hb, hhint⟩

structure Duplicated (src dst : Manager) : Prop where
  all : (dst.shard (rbGetShard 0)).Perm (src.entries.map Entry.copy)
  other (i : Fin shardNum) : i ≠ rbGetShard 0 → dst.shard i = []
  lt (e : Entry) : e ∈ src.entries → e.fd < dst.nextFdHint
  hint : dst.nextFdHint = 0 ∨ ∃ e ∈ src.entries, dst.nextFdHint = e.fd + 1

theorem duplicated {mem : Nat} (h : fdManagerDup mem .init src = some dst)
    : Duplicated src dst := by
  obtain ⟨hperm, hother, hlt, _, hhint⟩ := dupEntries_spec h
  exact ⟨by simpa [Manager.init] using hperm, hother, hlt, hhint⟩

namespace Duplicated

theorem mem_entries (h : Duplicated src dst) {b : Entry}
    : b ∈ dst.entries ↔ ∃ e ∈ src.entries, e.copy = b := by
  rw [Manager.mem_entries]
  constructor
  . rintro ⟨i, hi⟩
    by_cases hi0 : i = rbGetShard 0
    . subst hi0
      rwa [h.all.mem_iff, List.mem_map] at hi
    . rw [h.other i hi0] at hi
      cases hi
  . intro hb
    refine ⟨rbGetShard 0, ?_⟩
    rwa [h.all.mem_iff, List.mem_map]

theorem used_iff (h : Duplicated src dst) : dst.Used fd ↔ src.Used fd := by
  constructor
  . rintro ⟨b, hb, rfl⟩
    obtain ⟨e, he, rfl⟩ := h.mem_entries.mp hb
    exact ⟨e, he, rfl⟩
  . rintro ⟨e, he, rfl⟩
    exact ⟨e.copy, h.mem_entries.mpr ⟨e, he, rfl⟩, rfl⟩

theorem used_iff_lt (h : Duplicated src dst) (hsmall : dst.AllocsSmallest) (fd : Nat)
    : src.Used fd ↔ fd < dst.nextFdHint := by
  refine ⟨fun ⟨e, he, hfd⟩ => hfd ▸ h.lt e he, fun hfd => ?_⟩
  obtain ⟨n, hn⟩ := Option.isSome_iff_exists.mp (probe_isSome dst dst.nextFdHint)
  obtain ⟨hle, _, _⟩ := probe_spec hn
  have raw : Entry := ⟨0, none, 0, 0, 0, none, none, none, 0⟩
  have halloc := hsmall dst .refl true raw n _ (by simp only [fdAlloc, hn]; rfl)
  rw [← h.used_iff]
  exact halloc.2 fd (by omega)

end Duplicated

/--
No byte of an entry is beyond the length that is copied.
-/
structure Entry.Whole (e : Entry) : Prop where
  path : ∀ bytes, e.path = some bytes → bytes.length ≤ e.pathLen
  filedesc : ∀ bytes, e.filedesc = some bytes →
    ∃ ops, e.fsops = some ops ∧ ops.sizeofFileDesc ≠ 0 ∧ bytes.length ≤ ops.sizeofFileDesc

theorem Entry.copiesFiledesc_iff (e : Entry)
    : e.copiesFiledesc = true
        ↔ e.filedesc.isSome = true ∧ ∃ ops, e.fsops = some ops ∧ ops.sizeofFileDesc ≠ 0 := by
  unfold copiesFiledesc
  rw [Bool.and_eq_true, Option.any_eq_true]
  simp

theorem Entry.copy_eq_iff (e : Entry) : e.copy = e ↔ e.Whole := by
  obtain ⟨fd, path, pathLen, fileSize, offset, filedesc, fsops, mp, fileUid⟩ := e
  simp only [copy, mk.injEq, true_and, and_true]
  constructor
  . rintro ⟨hpath, hdesc⟩
    refine ⟨fun bytes hbytes => ?_, fun bytes hbytes => ?_⟩
    . cases hbytes
      simpa using hpath
    . cases hbytes
      split at hdesc
      next hcopies =>
        obtain ⟨-, ops, hops, hsize⟩ := (copiesFiledesc_iff _).mp hcopies
        cases hops
        exact ⟨ops, rfl, hsize, by simpa using hdesc⟩
      next => cases hdesc
  . rintro ⟨hpath, hdesc⟩
    constructor
    . cases path with
      | none => rfl
      | some bytes => simpa using hpath bytes rfl
    . cases filedesc with
      | none => split <;> rfl
      | some bytes =>
        obtain ⟨ops, hops, hsize, hlength⟩ := hdesc bytes rfl
        cases hops
        rw [if_pos ((copiesFiledesc_iff _).mpr ⟨rfl, ops, rfl, hsize⟩)]
        simpa using hlength

/--
The table can be duplicated: its numbers have no gap, all of them belong to the tree of number 0,
and no byte of an entry gets lost.
-/
def Manager.Duplicable (m : Manager) : Prop :=
  (∃ k, ∀ fd, m.Used fd ↔ fd < k) ∧ ∀ e ∈ m.entries, rbGetShard e.fd = rbGetShard 0 ∧ e.Whole

theorem Manager.Duplicable.shard_eq_nil (hsrc : src.Ok) (hdup : src.Duplicable)
    {i : Fin shardNum} (hi : i ≠ rbGetShard 0)
    : src.shard i = [] := by
  rw [List.eq_nil_iff_forall_not_mem]
  intro e he
  have hhome := (hdup.2 e (Manager.mem_entries.mpr ⟨i, he⟩)).1
  rw [hsrc.home i e he] at hhome
  exact hi hhome

theorem flatMap_eq_of_unique {α β : Type} (f : α → List β) {i : α} (h : ∀ j, j ≠ i → f j = [])
    (l : List α) (hi : i ∈ l) (hnodup : l.Nodup)
    : l.flatMap f = f i := by
  induction l with
  | nil => cases hi
  | cons j l ih =>
    rw [List.nodup_cons] at hnodup
    rw [List.flatMap_cons]
    by_cases hj : j = i
    . subst hj
      have hrest : l.flatMap f = [] := by
        rw [List.flatMap_eq_nil_iff]
        intro k hk
        apply h
        rintro rfl
        exact hnodup.1 hk
      rw [hrest, List.append_nil]
    . have hmem : i ∈ l := (List.mem_cons.mp hi).resolve_left (Ne.symm hj)
      rw [h j hj, ih hmem hnodup.2, List.nil_append]

theorem Manager.entries_eq {i : Fin shardNum} (h : ∀ j, j ≠ i → m.shard j = [])
    : m.entries = m.shard i :=
  flatMap_eq_of_unique m.shard h _ (List.mem_finRange i) (List.nodup_finRange shardNum)

section

variable (hsrc : src.Ok) (hdup : src.Duplicable) (h : Duplicated src dst)
include hsrc hdup h

theorem Manager.Duplicable.perm
    : (dst.shard (rbGetShard 0)).Perm (src.shard (rbGetShard 0)) := by
  have hcopy : src.entries.map Entry.copy = src.entries := by
    rw [List.map_congr_left fun e he => e.copy_eq_iff.mpr (hdup.2 e he).2, List.map_id']
  have hall := h.all
  rwa [hcopy, Manager.entries_eq fun i hi => hdup.shard_eq_nil hsrc hi] at hall

theorem Manager.Duplicable.ok
    : dst.Ok := by
  have hperm := hdup.perm hsrc h
  constructor
  . intro i e he
    by_cases hi : i = rbGetShard 0
    . subst hi
      exact hsrc.home _ e (hperm.mem_iff.mp he)
    . rw [h.other i hi] at he
      cases he
  . intro i
    by_cases hi : i = rbGetShard 0
    . subst hi
      exact (hperm.map Entry.fd).nodup_iff.mpr (hsrc.nodup _)
    . rw [h.other i hi]
      exact List.nodup_nil
  . intro fd hfd
    obtain ⟨⟨k, hused⟩, hall⟩ := hdup
    have hk : fd < k := by
      rcases h.hint with hzero | ⟨e, he, hhint⟩
      . omega
      . have := (hused e.fd).mp ⟨e, he, rfl⟩
        omega
    obtain ⟨e, he, rfl⟩ := (hused fd).mpr hk
    obtain ⟨i, hi⟩ := Manager.mem_entries.mp he
    have hhome := hsrc.home i e hi
    refine ⟨e, ?_, rfl⟩
    rw [(hall e he).1, hperm.mem_iff, ← (hall e he).1, hhome]
    exact hi

theorem Manager.Duplicable.fdGet_eq
    (fd : Int)
    : fdGet dst fd = fdGet src fd := by
  unfold fdGet
  split
  . rfl
  . by_cases hi : rbGetShard fd.toNat = rbGetShard 0
    . have hok := hdup.ok hsrc h
      apply Option.ext
      intro e
      rw [rbSearch_eq_some_iff (hok.nodup _), rbSearch_eq_some_iff (hsrc.nodup _), hi,
        (hdup.perm hsrc h).mem_iff]
    . rw [h.other _ hi, hdup.shard_eq_nil hsrc hi]

end

theorem Duplicated.duplicable (hsrc : src.Ok) (h : Duplicated src dst)
    (hget : ∀ fd : Int, fdGet dst fd = fdGet src fd) (hsmall : dst.AllocsSmallest)
    : src.Duplicable := by
  refine ⟨⟨dst.nextFdHint, h.used_iff_lt hsmall⟩, ?_⟩
  intro e he
  obtain ⟨i, hi⟩ := Manager.mem_entries.mp he
  have hsome : fdGet dst e.fd = some e := by
    rw [hget]
    simp only [fdGet, Int.toNat_natCast]
    rw [if_neg (by omega), rbSearch_eq_some_iff (hsrc.nodup _)]
    exact ⟨by rwa [hsrc.home i e hi], rfl⟩
  simp only [fdGet, Int.toNat_natCast, if_neg (show ¬(e.fd : Int) < 0 by omega)] at hsome
  have hmem := List.mem_of_find?_eq_some hsome
  constructor
  . by_contra hne
    rw [h.other _ hne] at hmem
    cases hmem
  . obtain ⟨b, hb, hbe⟩ := h.mem_entries.mp (Manager.mem_entries.mpr ⟨_, hmem⟩)
    obtain ⟨j, hj⟩ := Manager.mem_entries.mp hb
    -- the entry that was copied has the same number, so it is the same one
    have hfd : b.fd = e.fd := by rw [← hbe, Entry.copy_fd]
    have hji : j = i := by rw [← hsrc.home i e hi, ← hfd, hsrc.home j b hj]
    subst hji
    have hbe' := List.inj_on_of_nodup_map (hsrc.nodup j) hj hi hfd
    rw [← e.copy_eq_iff, ← hbe', hbe, hbe']

/--
After a successful `fd_manager_dup` into a fresh table both tables answer every `fd_get` alike and
the new one allocates as it should, exactly if the table can be duplicated.
-/
theorem dup_faithful_iff (src dst : Manager) (mem : Nat)
    (hsrc : Steps.Reach step (fun _ _ => True) .init src)
    (hdup : fdManagerDup mem .init src = some dst)
    : ((∀ fd : Int, fdGet dst fd = fdGet src fd) ∧ dst.AllocsSmallest) ↔ src.Duplicable := by
  have hok := hsrc.invariant Manager.Ok Manager.init_ok fun _ _ _ hi _ hs => hi.step hs
  have h := duplicated hdup
  constructor
  . intro hfaithful
    exact h.duplicable hok hfaithful.1 hfaithful.2
  . intro hd
    exact ⟨hd.fdGet_eq hok h, (hd.ok hok h).allocsSmallest⟩

theorem dup_faithful_iff_one
    : ∃ src dst, Steps.Reach step (fun _ _ => True) .init src ∧ fdManagerDup 9 .init src = some dst
        ∧ fdGet src 0 = some opened
        ∧ (((∀ fd : Int, fdGet dst fd = fdGet src fd) ∧ dst.AllocsSmallest) ↔ src.Duplicable) := by
  obtain ⟨src, hreach, hget, hdup⟩ := Steps.Reach.exists_of_run step (fun _ _ => True) .init
    [.alloc true opened, .fill 0 opened]
    (fun src => fdGet src 0 = some opened ∧ (fdManagerDup 9 .init src).isSome) (by decide +kernel)
  obtain ⟨dst, hdst⟩ := Option.isSome_iff_exists.mp hdup
  exact ⟨src, dst, hreach, hdst, hget, dup_faithful_iff src dst 9 hreach hdst⟩

/--
Number 1 belongs to another tree than number 0, so `fd_get` does not find its copy.
-/
theorem dup_loses_one
    : ∃ src dst, Steps.Reach step (fun _ _ => True) .init src ∧ fdManagerDup 9 .init src = some dst
        ∧ fdGet src 1 = some { opened with fd := 1 } ∧ fdGet dst 1 = none := by
  obtain ⟨src, hreach, hget, hdup⟩ := Steps.Reach.exists_of_run step (fun _ _ => True) .init
    [.alloc true opened, .fill 0 opened, .alloc true opened, .fill 1 opened]
    (fun src => fdGet src 1 = some { opened with fd := 1 }
      ∧ (fdManagerDup 9 .init src).any fun dst => fdGet dst 1 = none) (by decide +kernel)
  rw [Option.any_eq_true] at hdup
  obtain ⟨dst, hdst, hnone⟩ := hdup
  exact ⟨src, dst, hreach, hdst, hget, of_decide_eq_true hnone⟩

end FD
