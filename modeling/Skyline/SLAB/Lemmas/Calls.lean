import Skyline.SLAB.Lemmas.Free
import Skyline.Steps.Basic

/-!
This module contains what callers and `VMM` owe to the SLAB allocator, and what a call does then.
-/

namespace SLAB

variable {s s' : State} {c p o x size : Nat}

def requestPages (size : Nat) : Nat :=
  if maxSlabSize < size then (size + sizeofSlabPage + (pageSize - 1)) % 2 ^ 64 / pageSize else 1

def Fresh (s : State) (n p : Nat) : Prop :=
  0 < n ∧ p % pageSize = 0
    ∧ (∀ q ∈ s.taken, q + pageSize ≤ p ∨ p + n * pageSize ≤ q)
    ∧ ∀ b ∈ s.large, b.1 ≠ p ∧ (b.1 + b.2 * pageSize ≤ p ∨ p + n * pageSize ≤ b.1)

def Lawful (s : State) : Event → Prop
  | .alloc size _ answers => answers.Nodup ∧ ∀ p ∈ answers, Fresh s (requestPages size) p
  | .free obj _ => obj = 0 ∨ obj ∈ s.live ∨ ∃ b ∈ s.large, obj = b.1 + sizeofSlabPage
  | .drainCpuCache _ => True

instance (s : State) (e : Event) : Decidable (Lawful s e) := by
  cases e <;> simp only [Lawful, Fresh] <;> infer_instance

theorem Lawful.answers {size : Nat} {cpu : Option Nat} {answers : List Nat}
    (h : Lawful s (.alloc size cpu answers))
    : Answers s answers := by
  obtain ⟨hnodup, hfresh⟩ := h
  refine ⟨hnodup, fun p hp => (hfresh p hp).2.1, ?_, fun p hp b hb => ((hfresh p hp).2.2.2 b hb).1⟩
  intro p hp hin
  obtain ⟨hpos, -, htaken, -⟩ := hfresh p hp
  have hmul : pageSize ≤ requestPages size * pageSize := Nat.le_mul_of_pos_left _ hpos
  have hsize : 0 < pageSize := by decide
  have hor := htaken p hin
  omega

def State.InUse (s : State) (a n : Nat) : Prop :=
  a ∈ s.live ∧ n = objSize (s.page (pageOf a)).cache ∨ ∃ b ∈ s.large, a = b.1 ∧ n = b.2 * pageSize

def State.Clear (s : State) : Prop :=
  ∀ b ∈ s.large, ∀ q ∈ s.taken, q + pageSize ≤ b.1 ∨ b.1 + b.2 * pageSize ≤ q

/--
A call from which `DrainGlobalFreeListLocked` finds no more than `EMPTY_CACHE_LIMIT` empty pages.
-/
def Sparing (s : State) : Event → Prop
  | .alloc .. => True
  | .free obj _ =>
    obj ∈ s.live →
      ({ s with live := s.live.erase obj } : State).Spares (s.page (pageOf obj)).cache slabBatch
  | .drainCpuCache cpu => ∀ c ∈ List.range maxSlabOrder, s.Spares c (s.magazine cpu c).count

instance (s : State) (e : Event) : Decidable (Sparing s e) := by
  cases e <;> simp only [Sparing] <;> infer_instance

theorem slots_apart (ho : o ∈ slots c p) (hx : x ∈ slots c p) (hne : o ≠ x)
    : o + objSize c ≤ x ∨ x + objSize c ≤ o := by
  obtain ⟨i, -, rfl⟩ := mem_slots.mp ho
  obtain ⟨j, -, rfl⟩ := mem_slots.mp hx
  have hij : i ≠ j := fun heq => hne (by rw [heq])
  rcases Nat.lt_or_gt_of_ne hij with hlt | hlt
  . have hle : (i + 1) * objSize c ≤ j * objSize c := Nat.mul_le_mul_right _ hlt
    rw [Nat.add_mul, Nat.one_mul] at hle
    exact .inl (by omega)
  . have hle : (j + 1) * objSize c ≤ i * objSize c := Nat.mul_le_mul_right _ hlt
    rw [Nat.add_mul, Nat.one_mul] at hle
    exact .inr (by omega)

section

variable (h : Ok s 0 [])
include h

theorem Ok.slot_inside (ho : o ∈ s.live)
    : pageOf o ≤ o ∧ o + objSize (s.page (pageOf o)).cache ≤ pageOf o + pageSize := by
  obtain ⟨hp, hslot⟩ := h.page_of_mem_live ho
  have hbounds := slot_bounds (h.header _ hp).cache hslot
  exact ⟨by omega, hbounds.2.1⟩

theorem Ok.live_apart (ho : o ∈ s.live) (hx : x ∈ s.live) (hne : o ≠ x)
    : o + objSize (s.page (pageOf o)).cache ≤ x ∨ x + objSize (s.page (pageOf x)).cache ≤ o := by
  obtain ⟨hp, hslot⟩ := h.page_of_mem_live ho
  obtain ⟨hq, hslot'⟩ := h.page_of_mem_live hx
  by_cases hpage : pageOf x = pageOf o
  . rw [hpage] at hslot' ⊢
    exact slots_apart hslot hslot' hne
  . have haligned := (h.header _ hp).aligned
    have haligned' := (h.header _ hq).aligned
    have hinside := h.slot_inside ho
    have hinside' := h.slot_inside hx
    simp only [pageSize] at haligned haligned' hinside hinside'
    omega

variable (hclear : s.Clear) {cpu : Option Nat} {answers : List Nat}
  (hok : Lawful s (.alloc size cpu answers))
include hclear hok

theorem Ok.allocSmall_fresh (hsize : size ≤ maxSlabSize)
    : ∃ r s', alloc s size cpu answers = some (r, s') ∧ Ok s' 0 [] ∧ s'.Clear ∧ s'.lost = s.lost
        ∧ ∀ obj, r = some obj → ∀ a n, s.InUse a n → obj + size ≤ a ∨ a + n ≤ obj := by
  have hone : ¬ maxSlabSize < if size = 0 then 1 else size := by
    split
    . decide
    . omega
  obtain ⟨c, r, t, heq, ht, hgrown, hfits⟩ := h.allocSmall hone cpu hok.answers
  have hs' := ht.handOutAll
  have hclear' : ({ t with live := r.toList ++ t.live } : State).Clear := by
    intro b hb q hq
    rw [hgrown.large] at hb
    cases hgrown.taken q hq with
    | inl hin => exact hclear b hb q hin
    | inr hin =>
      obtain ⟨-, -, -, hfresh⟩ := hok.2 q hin
      have hpages : requestPages size = 1 := if_neg (by omega)
      rw [hpages, Nat.one_mul] at hfresh
      exact (hfresh b hb).2.symm
  refine ⟨r, _, heq, hs', hclear', hgrown.lost, ?_⟩
  rintro obj rfl a n hin
  have hmem : obj ∈ ([obj] ++ t.live) := List.mem_cons_self
  have hclass : (t.page (pageOf obj)).cache = c := ht.objects.of_mem_batch List.mem_cons_self
  have hle := hfits rfl
  have hinside := hs'.slot_inside hmem
  simp only [hclass] at hinside
  rcases hin with ⟨ha, rfl⟩ | ⟨b, hb, rfl, rfl⟩
  . have hnodup := hs'.objects.apart.nodup (some .live)
    simp only [State.around, State.items, Option.toList_some, List.singleton_append,
      List.nodup_cons] at hnodup
    rw [← hgrown.live] at ha
    have hapart := hs'.live_apart hmem (List.mem_cons_of_mem obj ha)
      (fun heq => hnodup.1 (heq ▸ ha))
    rw [hgrown.live] at ha
    simp only [hclass, (hgrown.cache _ (h.page_of_mem_live ha).1).2] at hapart
    split at hle <;> omega
  . rw [← hgrown.large] at hb
    have hpage := hclear' b hb _ (hs'.page_of_mem_live hmem).1
    split at hle <;> omega

theorem Ok.allocLarge_fresh (hsize : maxSlabSize < size)
    : ∃ r s', alloc s size cpu answers = some (r, s') ∧ Ok s' 0 [] ∧ s'.Clear ∧ s'.lost = s.lost
        ∧ ∀ obj, r = some obj → ∀ a n, s.InUse a n → obj + size ≤ a ∨ a + n ≤ obj := by
  have hne : size ≠ 0 := by
    intro hzero
    rw [hzero] at hsize
    cases hsize
  have hend : Ok (SLAB.allocLarge s size answers).2 0 [] := h.allocLarge hok.answers
  have heq : alloc s size cpu answers = some (SLAB.allocLarge s size answers) := by
    rw [alloc, if_neg hne, SLAB.allocSized, if_pos hsize]
  refine ⟨(SLAB.allocLarge s size answers).1, (SLAB.allocLarge s size answers).2, heq, hend, ?_⟩
  unfold SLAB.allocLarge
  simp only
  split
  next => exact ⟨hclear, rfl, nofun⟩
  next hfit =>
    cases answers with
    | nil => exact ⟨hclear, rfl, nofun⟩
    | cons p =>
      obtain ⟨hpos, -, htaken, hlarge⟩ := hok.2 p List.mem_cons_self
      rw [requestPages, if_pos hsize] at hpos htaken hlarge
      refine ⟨?_, rfl, ?_⟩
      . intro b hb q hq
        cases List.mem_cons.mp hb with
        | inl hnew =>
          rw [hnew]
          exact htaken q hq
        | inr hin => exact hclear b hin q hq
      . intro obj hobj a n hin
        cases hobj
        have hinside : p + sizeofSlabPage + size
            ≤ p + (size + sizeofSlabPage + (pageSize - 1)) % 2 ^ 64 / pageSize * pageSize := by
          simp only [pageSize, sizeofSlabPage] at hpos hfit ⊢
          omega
        rcases hin with ⟨ha, rfl⟩ | ⟨b, hb, rfl, rfl⟩
        . have hbounds := h.slot_inside ha
          have hpage := htaken _ (h.page_of_mem_live ha).1
          omega
        . have hblock := (hlarge b hb).2
          omega

end

theorem Ok.alloc {cpu : Option Nat} {answers : List Nat} (h : Ok s 0 []) (hclear : s.Clear)
    (hok : Lawful s (.alloc size cpu answers))
    : ∃ r s', alloc s size cpu answers = some (r, s') ∧ Ok s' 0 [] ∧ s'.Clear ∧ s'.lost = s.lost
        ∧ ∀ obj, r = some obj → ∀ a n, s.InUse a n → obj + size ≤ a ∨ a + n ≤ obj := by
  by_cases hsize : maxSlabSize < size
  . exact h.allocLarge_fresh hclear hok hsize
  . exact h.allocSmall_fresh hclear hok (Nat.le_of_not_lt hsize)

theorem Ok.step {e : Event} (h : Ok s 0 []) (hclear : s.Clear) (hok : Lawful s e)
    : ∃ s', step s e = some s' ∧ Ok s' 0 [] ∧ s'.Clear ∧ (Sparing s e → s'.lost = s.lost) := by
  cases e with
  | alloc size cpu answers =>
    obtain ⟨r, s', heq, hend, hclear', hlost, -⟩ := h.alloc hclear hok
    refine ⟨s', ?_, hend, hclear', fun _ => hlost⟩
    simp [SLAB.step, heq]
  | free obj cpu =>
    obtain ⟨s', heq, hend, htaken, hlarge, hlost⟩ := h.free cpu hok
    refine ⟨s', heq, hend, ?_, hlost⟩
    intro b hb q hq
    rw [htaken] at hq
    exact hclear b (hlarge hb) q hq
  | drainCpuCache =>
    obtain ⟨s', heq, hend, -, htaken, hlarge, hlost⟩ := h.drainClasses List.nodup_range
    refine ⟨s', heq, hend, ?_, hlost⟩
    intro b hb q hq
    rw [htaken] at hq
    rw [hlarge] at hb
    exact hclear b hb q hq

theorem ok_init : Ok init 0 [] := by
  have haround : ∀ pl, init.around [] pl = [] := by
    rintro (_ | _ | _ | _ | _) <;> simp [State.around, State.items, init]
  have hpages : ∀ c k, (init.cache c).pages k = [] := by
    intro c k
    cases k <;> rfl
  refine ⟨⟨⟨?_, ?_⟩, ?_, ?_⟩, ⟨?_, ?_, ?_, ?_⟩, List.forall_mem_nil _, List.forall_mem_nil _, rfl,
    fun _ => rfl, fun _ _ => rfl, List.forall_mem_nil _⟩
  . simp [haround]
  . simp [haround]
  . intro o
    have htaken : init.taken = [] := rfl
    simp [haround, htaken]
  . simp [haround]
  . intro c _ k q
    rw [hpages]
    simp [init]
  . intro c _ k
    rw [hpages]
    exact List.nodup_nil
  . exact fun _ _ => rfl
  . exact fun _ _ => rfl

abbrev Reachable (s : State) : Prop := Steps.Reach step Lawful init s

def Careful (s : State) (e : Event) : Prop := Lawful s e ∧ Sparing s e

instance (s : State) (e : Event) : Decidable (Careful s e) :=
  inferInstanceAs (Decidable (_ ∧ _))

theorem Reachable.sound (h : Reachable s) : Ok s 0 [] ∧ s.Clear := by
  apply h.invariant (fun s => Ok s 0 [] ∧ s.Clear) ⟨ok_init, nofun⟩
  intro t e u ht hok hs
  obtain ⟨u', heq, hu, hclear, -⟩ := ht.1.step ht.2 hok
  rw [heq] at hs
  cases hs
  exact ⟨hu, hclear⟩

theorem lost_of_careful (h : Steps.Reach step Careful init s) : s.lost = [] := by
  have hall := h.invariant (fun s => (Ok s 0 [] ∧ s.Clear) ∧ s.lost = []) ⟨⟨ok_init, nofun⟩, rfl⟩
  refine (hall ?_).2
  intro t e u ⟨ht, hlost⟩ hok hs
  obtain ⟨u', heq, hu, hclear, hkeep⟩ := ht.1.step ht.2 hok.1
  rw [heq] at hs
  cases hs
  exact ⟨⟨hu, hclear⟩, (hkeep hok.2).trans hlost⟩

end SLAB
