import Mathlib

/-!
This module contains the table of open files of a process.
-/

namespace FD

open Function

def shardNum : Nat := 4

def rbHashU64 (key : UInt64) : UInt32 :=
  let val := (key ^^^ (key >>> 30)) * 0xbf58476d1ce4e5b9
  let val := (val ^^^ (val >>> 27)) * 0x94d049bb133111eb
  (val ^^^ (val >>> 31)).toUInt32

@[irreducible]
def rbGetShard (fd : Nat) : Fin shardNum :=
  ⟨(rbHashU64 (UInt64.ofNat fd)).toNat % shardNum, Nat.mod_lt _ (by decide)⟩

structure Fsops where
  sizeofFileDesc : Nat
deriving DecidableEq

structure Entry where
  fd : Nat
  path : Option (List UInt8)
  pathLen : Nat
  fileSize : Nat
  offset : Nat
  filedesc : Option (List UInt8)
  fsops : Option Fsops
  mp : Option Nat
  fileUid : Nat
deriving DecidableEq

/--
A shard is the list of the entries of its red-black tree in order. Nothing here depends on the shape
of the tree.
-/
structure Manager where
  shard : Fin shardNum → List Entry
  nextFdHint : Nat

def Manager.init : Manager := ⟨fun _ => [], 0⟩

def Manager.setShard (m : Manager) (i : Fin shardNum) (l : List Entry) : Manager :=
  { m with shard := update m.shard i l }

def Manager.entries (m : Manager) : List Entry := (List.finRange shardNum).flatMap m.shard

def rbInsert (e : Entry) : List Entry → List Entry
  | [] => [e]
  | b :: l => if e.fd < b.fd then e :: b :: l else b :: rbInsert e l

def rbSearch (l : List Entry) (fd : Nat) : Option Entry := l.find? fun e => e.fd = fd

def probe (m : Manager) : Nat → Nat → Option Nat
  | 0, _ => none
  | fuel + 1, fd =>
    if (rbSearch (m.shard (rbGetShard fd)) fd).isSome then
      probe m fuel (fd + 1)
    else
      some fd

def fdAlloc (m : Manager) (mem : Bool) (raw : Entry) : Option (Nat × Manager) :=
  match probe m (m.entries.length + 1) m.nextFdHint with
  | none => none
  | some fd =>
    if mem then
      let e := { raw with fd := fd, filedesc := none, fsops := none, mp := none }
      let i := rbGetShard fd
      some (fd, { m.setShard i (rbInsert e (m.shard i)) with nextFdHint := fd + 1 })
    else
      none

def fdGet (m : Manager) (fd : Int) : Option Entry :=
  if fd < 0 then none else rbSearch (m.shard (rbGetShard fd.toNat)) fd.toNat

def fdFree (m : Manager) (fd : Int) : Manager :=
  match fdGet m fd with
  | none => m
  | some e =>
    let i := rbGetShard e.fd
    let hint := if fd.toNat < m.nextFdHint then fd.toNat else m.nextFdHint
    { m.setShard i ((m.shard i).eraseP fun b => b.fd = e.fd) with nextFdHint := hint }

def fill (m : Manager) (fd : Nat) (f : Entry) : Manager :=
  let i := rbGetShard fd
  m.setShard i ((m.shard i).map fun e => if e.fd = fd then { f with fd := fd } else e)

def Entry.copiesFiledesc (e : Entry) : Bool :=
  e.filedesc.isSome && e.fsops.any fun ops => ops.sizeofFileDesc ≠ 0

def Entry.copy (e : Entry) : Entry :=
  { e with
    path := e.path.map fun bytes => bytes.take e.pathLen
    filedesc :=
      if e.copiesFiledesc then
        e.filedesc.map fun bytes => bytes.take ((e.fsops.map Fsops.sizeofFileDesc).getD 0)
      else
        none }

def Entry.kmallocs (e : Entry) : Nat := 1 + e.path.isSome.toNat + e.copiesFiledesc.toNat

def dupEntry (dst : Manager) (e : Entry) : Manager :=
  let ne := e.copy
  let i := rbGetShard 0
  let hint := if dst.nextFdHint ≤ ne.fd then ne.fd + 1 else dst.nextFdHint
  { dst.setShard i (rbInsert ne (dst.shard i)) with nextFdHint := hint }

def dupEntries (mem : Nat) (dst : Manager) : List Entry → Option Manager
  | [] => some dst
  | e :: es => if mem < e.kmallocs then none else dupEntries (mem - e.kmallocs) (dupEntry dst e) es

def fdManagerDup (mem : Nat) (dst src : Manager) : Option Manager := dupEntries mem dst src.entries

inductive Event where
  | alloc (mem : Bool) (raw : Entry)
  | free (fd : Int)
  | fill (fd : Nat) (f : Entry)

def step (m : Manager) : Event → Option Manager
  | .alloc mem raw => (fdAlloc m mem raw).map (·.2)
  | .free fd => some (fdFree m fd)
  | .fill fd f => some (fill m fd f)

def Manager.Used (m : Manager) (fd : Nat) : Prop := ∃ e ∈ m.entries, e.fd = fd

theorem Manager.mem_entries {m : Manager} {e : Entry} : e ∈ m.entries ↔ ∃ i, e ∈ m.shard i := by
  simp [entries]

@[simp]
theorem Manager.setShard_shard (m : Manager) (i j : Fin shardNum) (l : List Entry)
    : (m.setShard i l).shard j = if j = i then l else m.shard j := by
  simp [setShard, update_apply]

theorem rbInsert_perm (e : Entry) (l : List Entry) : (rbInsert e l).Perm (e :: l) := by
  induction l with
  | nil => exact .refl _
  | cons b l ih =>
    unfold rbInsert
    split
    . exact .refl _
    . exact (ih.cons b).trans (.swap e b l)

theorem rbSearch_eq_some_iff {l : List Entry} (h : (l.map Entry.fd).Nodup) {fd : Nat} {e : Entry}
    : rbSearch l fd = some e ↔ e ∈ l ∧ e.fd = fd := by
  unfold rbSearch
  constructor
  . intro hfind
    exact ⟨List.mem_of_find?_eq_some hfind, by simpa using List.find?_some hfind⟩
  . rintro ⟨hmem, rfl⟩
    cases hfind : l.find? fun b => b.fd = e.fd with
    | none =>
      rw [List.find?_eq_none] at hfind
      simpa using hfind e hmem
    | some b =>
      have hb := List.mem_of_find?_eq_some hfind
      have hbfd : b.fd = e.fd := by simpa using List.find?_some hfind
      rw [List.inj_on_of_nodup_map h hb hmem hbfd]

theorem rbSearch_isSome_iff {l : List Entry} {fd : Nat}
    : (rbSearch l fd).isSome ↔ ∃ e ∈ l, e.fd = fd := by
  simp [rbSearch]

structure Manager.Ok (m : Manager) : Prop where
  home (i : Fin shardNum) (e : Entry) : e ∈ m.shard i → rbGetShard e.fd = i
  nodup (i : Fin shardNum) : ((m.shard i).map Entry.fd).Nodup
  dense (fd : Nat) : fd < m.nextFdHint → ∃ e ∈ m.shard (rbGetShard fd), e.fd = fd

variable {m m' : Manager} {fd n : Nat}

theorem probe_spec {fuel fd n : Nat} (h : probe m fuel fd = some n)
    : fd ≤ n ∧ rbSearch (m.shard (rbGetShard n)) n = none
      ∧ ∀ k, fd ≤ k → k < n → (rbSearch (m.shard (rbGetShard k)) k).isSome := by
  induction fuel generalizing fd with
  | zero => cases h
  | succ _ ih =>
    unfold probe at h
    split at h
    next hfound =>
      obtain ⟨hle, hnone, hall⟩ := ih h
      refine ⟨by omega, hnone, fun k hk hkn => ?_⟩
      by_cases hkfd : k = fd
      . exact hkfd ▸ hfound
      . exact hall k (by omega) hkn
    next hfound =>
      cases h
      exact ⟨Nat.le_refl _, by simpa using hfound, fun k hk hkn => absurd hkn (by omega)⟩

theorem probe_eq_none {fuel fd : Nat} (h : probe m fuel fd = none)
    : ∀ k, fd ≤ k → k < fd + fuel → (rbSearch (m.shard (rbGetShard k)) k).isSome := by
  induction fuel generalizing fd with
  | zero => exact fun k hk hkn => absurd hkn (by omega)
  | succ _ ih =>
    unfold probe at h
    split at h
    next hfound =>
      intro k hk hkn
      by_cases hkfd : k = fd
      . exact hkfd ▸ hfound
      . exact ih h k (by omega) (by omega)
    next => cases h

theorem probe_isSome (m : Manager) (fd : Nat) : (probe m (m.entries.length + 1) fd).isSome := by
  cases hprobe : probe m (m.entries.length + 1) fd with
  | some => rfl
  | none =>
    have hfound := probe_eq_none hprobe
    have hsub : Finset.Ico fd (fd + (m.entries.length + 1))
        ⊆ (m.entries.map Entry.fd).toFinset := by
      intro k hk
      rw [Finset.mem_Ico] at hk
      obtain ⟨e, he, hfd⟩ := rbSearch_isSome_iff.mp (hfound k hk.1 hk.2)
      rw [List.mem_toFinset, List.mem_map]
      exact ⟨e, Manager.mem_entries.mpr ⟨_, he⟩, hfd⟩
    have hcard := (Finset.card_le_card hsub).trans (List.toFinset_card_le _)
    simp only [Nat.card_Ico, List.length_map] at hcard
    omega

namespace Manager

theorem init_ok : init.Ok where
  home i e he := by cases he
  nodup i := List.nodup_nil
  dense fd hfd := by cases hfd

theorem Ok.used_iff (h : m.Ok) : m.Used fd ↔ ∃ e ∈ m.shard (rbGetShard fd), e.fd = fd := by
  constructor
  . rintro ⟨e, he, rfl⟩
    obtain ⟨i, hi⟩ := mem_entries.mp he
    exact ⟨e, by rwa [h.home i e hi], rfl⟩
  . rintro ⟨e, he, rfl⟩
    exact ⟨e, mem_entries.mpr ⟨_, he⟩, rfl⟩

theorem Ok.fdAlloc (h : m.Ok) {mem : Bool} {raw : Entry}
    (halloc : fdAlloc m mem raw = some (n, m'))
    : m'.Ok ∧ ¬m.Used n ∧ ∀ k < n, m.Used k := by
  unfold FD.fdAlloc at halloc
  split at halloc
  next => cases halloc
  next fd hprobe =>
    split at halloc
    next =>
      simp only [Option.some.injEq, Prod.mk.injEq] at halloc
      obtain ⟨rfl, rfl⟩ := halloc
      obtain ⟨hle, hnone, hall⟩ := probe_spec hprobe
      have hfree : ∀ e ∈ m.shard (rbGetShard fd), e.fd ≠ fd := by
        intro e he hfd
        have hsome := rbSearch_isSome_iff.mpr ⟨e, he, hfd⟩
        rw [hnone] at hsome
        cases hsome
      have hused : ∀ k < fd, m.Used k := by
        intro k hk
        rw [h.used_iff]
        by_cases hhint : k < m.nextFdHint
        . exact h.dense k hhint
        . exact rbSearch_isSome_iff.mp (hall k (by omega) hk)
      have hperm := rbInsert_perm
        { raw with fd := fd, filedesc := none, fsops := none, mp := none } (m.shard (rbGetShard fd))
      refine ⟨⟨?_, ?_, ?_⟩, ?_, hused⟩
      . intro i e he
        simp only [setShard_shard] at he
        split at he
        next hi =>
          rw [hperm.mem_iff, List.mem_cons] at he
          rcases he with rfl | he
          . rw [hi]
          . exact hi ▸ h.home _ e he
        next => exact h.home i e he
      . intro i
        simp only [setShard_shard]
        split
        . rw [(hperm.map Entry.fd).nodup_iff, List.map_cons, List.nodup_cons]
          refine ⟨?_, h.nodup _⟩
          simpa using hfree
        . exact h.nodup i
      . intro k hk
        have hk : k < fd + 1 := hk
        have hsub : ∀ e ∈ m.shard (rbGetShard k), e ∈ (m.setShard (rbGetShard fd) (rbInsert
            { raw with fd := fd, filedesc := none, fsops := none, mp := none }
            (m.shard (rbGetShard fd)))).shard (rbGetShard k) := by
          intro e he
          simp only [setShard_shard]
          split
          . next hi =>
            rw [hperm.mem_iff, ← hi]
            exact List.mem_cons_of_mem _ he
          . exact he
        by_cases hkfd : k = fd
        . subst hkfd
          refine ⟨{ raw with fd := k, filedesc := none, fsops := none, mp := none }, ?_, rfl⟩
          simp [hperm.mem_iff]
        . obtain ⟨e, he, hefd⟩ := h.used_iff.mp (hused k (by omega))
          exact ⟨e, hsub e he, hefd⟩
      . rw [h.used_iff]
        rintro ⟨e, he, hefd⟩
        exact hfree e he hefd
    next => cases halloc

theorem Ok.fdFree (h : m.Ok) (fd : Int) : (fdFree m fd).Ok := by
  unfold FD.fdFree
  split
  next => exact h
  next e hget =>
    have hfd : e.fd = fd.toNat := by
      unfold fdGet at hget
      split at hget
      next => cases hget
      next => exact ((rbSearch_eq_some_iff (h.nodup _)).mp hget).2
    have hmem : ∀ i b, b ∈ (m.setShard (rbGetShard e.fd) ((m.shard (rbGetShard e.fd)).eraseP
        fun b => b.fd = e.fd)).shard i → b ∈ m.shard i := by
      intro i b hb
      simp only [setShard_shard] at hb
      split at hb
      next hi => exact hi ▸ List.mem_of_mem_eraseP hb
      next => exact hb
    have hnodup : ∀ i, (((m.setShard (rbGetShard e.fd) ((m.shard (rbGetShard e.fd)).eraseP
        fun b => b.fd = e.fd)).shard i).map Entry.fd).Nodup := by
      intro i
      simp only [setShard_shard]
      split
      . exact (h.nodup _).sublist ((List.eraseP_sublist).map _)
      . exact h.nodup i
    have hdense : ∀ k < m.nextFdHint, k ≠ e.fd → ∃ b ∈ (m.setShard (rbGetShard e.fd)
        ((m.shard (rbGetShard e.fd)).eraseP fun b => b.fd = e.fd)).shard (rbGetShard k),
        b.fd = k := by
      intro k hk hke
      obtain ⟨b, hb, rfl⟩ := h.dense k hk
      refine ⟨b, ?_, rfl⟩
      simp only [setShard_shard]
      split
      . next hi =>
        rw [← hi]
        exact (List.mem_eraseP_of_neg (by simpa using hke)).mpr hb
      . exact hb
    refine ⟨fun i b hb => h.home i b (hmem i b hb), hnodup, fun k hk => ?_⟩
    simp only at hk
    split at hk
    next hlt => exact hdense k (by omega) (by omega)
    next hlt => exact hdense k hk (by omega)

theorem Ok.fill (h : m.Ok) (fd : Nat) (f : Entry) : (fill m fd f).Ok := by
  have hkeys : ∀ l : List Entry,
      (l.map fun e => if e.fd = fd then { f with fd := fd } else e).map Entry.fd
      = l.map Entry.fd := by
    intro l
    rw [List.map_map]
    apply List.map_congr_left
    intro e _
    simp only [comp]
    split
    . next he => exact he.symm
    . rfl
  have hkey : ∀ i, ((FD.fill m fd f).shard i).map Entry.fd = (m.shard i).map Entry.fd := by
    intro i
    simp only [FD.fill, setShard_shard]
    split
    . next hi => rw [hkeys, hi]
    . rfl
  constructor
  . intro i e he
    have : e.fd ∈ (m.shard i).map Entry.fd := hkey i ▸ List.mem_map_of_mem he
    obtain ⟨b, hb, hbe⟩ := List.mem_map.mp this
    rw [← hbe]
    exact h.home i b hb
  . intro i
    rw [hkey]
    exact h.nodup i
  . intro k hk
    obtain ⟨b, hb, hbk⟩ := h.dense k hk
    have : k ∈ ((FD.fill m fd f).shard (rbGetShard k)).map Entry.fd := by
      rw [hkey, ← hbk]
      exact List.mem_map_of_mem (hbk ▸ hb)
    obtain ⟨e, he, hek⟩ := List.mem_map.mp this
    exact ⟨e, he, hek⟩

theorem Ok.step {e : Event} (h : m.Ok) (hs : step m e = some m') : m'.Ok := by
  cases e with
  | alloc =>
    simp only [FD.step, Option.map_eq_some_iff] at hs
    obtain ⟨⟨n, t⟩, halloc, rfl⟩ := hs
    exact (h.fdAlloc halloc).1
  | free fd =>
    cases hs
    exact h.fdFree fd
  | fill fd f =>
    cases hs
    exact h.fill fd f

end Manager

end FD
