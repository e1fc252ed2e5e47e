import Skyline.SLUB.Pages

/-!
This module contains when `SLUB::Alloc` has no object to give.
-/

namespace SLUB

variable {s : State} {c p : Nat} {cpu page : Option Nat}

theorem slubStackPop_fst (s : State) (p : Nat)
    : (slubStackPop s p).1 = (s.slab p).freelist.head? := by
  rcases slubStackPop_cases s p with ⟨hnil, heq⟩ | ⟨obj, rest, hcons, heq⟩
  . rw [heq, hnil]
    rfl
  . rw [heq, hcons]
    rfl

theorem adopt_freelist (s : State) (c : Nat) (cpu : Option Nat) (p : Nat)
    : ((adopt s c cpu p).slab p).freelist = (s.slab p).freelist := by
  cases cpu with
  | none => simp [adopt]
  | some => simp [adopt]

def Dry (s : State) (c : Nat) (page : Option Nat) : Prop :=
  match (s.cache c).partialList.head? with
  | none => page = none
  | some p => (s.slab p).freelist = []

theorem slowRefill_eq_none_iff (h : (s.cache c).Fits)
    : (slowRefill s c cpu page).1 = none ↔ Dry s c page := by
  have hpop : ∀ (t : State) (p : Nat), (slubStackPop (adopt t c cpu p) p).1 = none
      ↔ (t.slab p).freelist = [] := by
    intro t p
    rw [slubStackPop_fst, adopt_freelist, List.head?_eq_none_iff]
  unfold slowRefill refill Dry
  rcases hlist : (s.cache c).partialList with _ | ⟨p, rest⟩
  . cases page with
    | none => simp [hlist, slubNewSlab]
    | some =>
      have hpos := h.objsPerSlab_pos
      simp only [hlist, slubNewSlab_eq h, hpop, freshSlab_slab]
      simp [Cache.slots, Nat.pos_iff_ne_zero.mp hpos]
  . simp only [hlist, hpop]
    simp

theorem popActive_eq_none_iff
    : (popActive s p).1 = none ↔ (s.slab p).freelist = [] ∧ (s.slab p).foreignHead = [] := by
  unfold popActive
  rcases slubStackPop_cases s p with ⟨hnil, heq⟩ | ⟨obj, rest, hcons, heq⟩
  . simp only [heq, slubStackPop_fst]
    simp [harvest, hnil]
  . simp [heq, hcons]

def Stocked (s : State) (c : Nat) (cpu : Option Nat) : Prop :=
  ∃ p, (cpuSlot cpu).bind (s.cache c).cpuActive = some p
    ∧ ((s.slab p).freelist ≠ [] ∨ (s.slab p).foreignHead ≠ [])

def AsksVmm (s : State) (c : Nat) (cpu : Option Nat) : Prop :=
  ¬Stocked s c cpu ∧ (s.cache c).partialList = []

theorem harvest_eq_self (hforeign : (s.slab p).foreignHead = []) : harvest s p = s := by
  have hsame : { s.slab p with
      freelist := (s.slab p).foreignHead ++ (s.slab p).freelist,
        foreignHead := [] } = s.slab p := by
    rw [hforeign, List.nil_append, ← hforeign]
  simp only [harvest, hsame, State.setSlab, Function.update_eq_self]

theorem takeObject_eq_none_iff (h : (s.cache c).Fits)
    : (takeObject s c (cpuSlot cpu) page).1 = none ↔ ¬Stocked s c cpu ∧ Dry s c page := by
  unfold takeObject Stocked
  cases hactive : (cpuSlot cpu).bind (s.cache c).cpuActive with
  | none =>
    simp only [slowAlloc, slowRefill_eq_none_iff h]
    simp
  | some p =>
    obtain ⟨i, hi, hslot⟩ := Option.bind_eq_some_iff.mp hactive
    by_cases hstock : (s.slab p).freelist = [] ∧ (s.slab p).foreignHead = []
    . have hempty : slubStackPop s p = (none, s) := by
        unfold slubStackPop
        rw [hstock.1]
      have hdetach : Dry (detach s c (some i) p) c page ↔ Dry s c page := by
        rw [Inv.detach_eq hslot]
        unfold Dry
        simp only [State.setSlab_cache, State.setCache_cache, if_true, State.setSlab_slab,
          State.setCache_slab]
        split
        . exact .rfl
        . split <;> simp_all
      have hfits : ((detach s c (some i) p).cache c).Fits := by
        rw [Inv.detach_eq hslot]
        simpa using ⟨h.pos, h.room, h.objsPerSlab⟩
      simp only [popActive, hempty, harvest_eq_self hstock.2, slowAlloc, hi,
        slowRefill_eq_none_iff hfits, hdetach]
      simp [hstock]
    . obtain ⟨obj, hobj⟩ := Option.ne_none_iff_exists'.mp (mt popActive_eq_none_iff.mp hstock)
      have heq : popActive s p = (some obj, (popActive s p).2) := Prod.ext hobj rfl
      dsimp only
      rw [heq]
      simp [hstock]

/--
`Alloc` answers null only when the VMM refused a page, if and only if the active slab of the CPU has
a free object, or no slab is partial, or the first partial slab has an object on its own free list.
-/
theorem alloc_null_iff (s : State) (h : Steps.Reach step Lawful init s) (c : Nat)
    (hc : c ∈ s.caches) (cpu page : Option Nat)
    : ((alloc s c cpu page).1 = none → AsksVmm s c cpu ∧ page = none)
      ↔ Stocked s c cpu ∨ ∀ p ∈ (s.cache c).partialList.head?, (s.slab p).freelist ≠ [] := by
  have hinv := h.invariant (Inv [] none) .init fun _ _ _ hi hok hs => hi.step hok hs
  have hne : c ≠ 0 := fun heq => hinv.caches_ne_zero (heq ▸ hc)
  have hnone : (alloc s c cpu page).1 = none ↔ ¬Stocked s c cpu ∧ Dry s c page := by
    rw [← takeObject_eq_none_iff (hinv.cacheOk c hc).fits, alloc, if_neg hne]
    split
    . next heq => simp [heq]
    . next heq => simp [heq]
  rw [hnone]
  unfold AsksVmm Dry
  cases (s.cache c).partialList with
  | nil => simp
  | cons => simp [or_iff_not_imp_left]

def hiddenObject : List Event :=
  [.create 2000 16 (some 1), .alloc 1 (some 0) (some 8192), .alloc 1 (some 0) none,
    .alloc 1 (some 0) (some 12288), .free 1 8256 0, .alloc 1 (some 0) none]

theorem alloc_null_hiddenObject
    : ∃ s, Steps.Reach step Lawful init s ∧ 1 ∈ s.caches ∧ ¬AsksVmm s 1 (some 0)
        ∧ (s.slab 8192).foreignHead = [8256] ∧ (alloc s 1 (some 0) (some 16384)).1 = none := by
  obtain ⟨s, hreach, hcaches, hlist, hforeign, hnull⟩ :=
    Steps.Reach.exists_of_run step Lawful init hiddenObject
      (fun s => 1 ∈ s.caches ∧ (s.cache 1).partialList = [8192]
        ∧ (s.slab 8192).foreignHead = [8256] ∧ (alloc s 1 (some 0) (some 16384)).1 = none)
      (by decide +kernel)
  exact ⟨s, hreach, hcaches, fun hasks => List.cons_ne_nil _ _ (hlist.symm.trans hasks.2), hforeign,
    hnull⟩

theorem alloc_null_iff_twoCpus
    : ∃ s, Steps.Reach step Lawful init s ∧ Stocked s 1 (some 0)
        ∧ (alloc s 1 (some 0) none).1 ≠ none := by
  obtain ⟨s, hreach, hcaches, hactive, hforeign⟩ :=
    Steps.Reach.exists_of_run step Lawful init twoCpus
      (fun s => 1 ∈ s.caches ∧ (s.cache 1).cpuActive 0 = some 8192
        ∧ (s.slab 8192).foreignHead = [8256])
      (by decide +kernel)
  have hstock : Stocked s 1 (some 0) := ⟨8192, hactive, .inr (by simp [hforeign])⟩
  refine ⟨s, hreach, hstock, fun hnull => ?_⟩
  exact (((alloc_null_iff s hreach 1 hcaches (some 0) none).mpr (.inl hstock)) hnull).1.1 hstock

end SLUB
