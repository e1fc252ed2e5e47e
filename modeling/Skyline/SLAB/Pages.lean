import Skyline.SLAB.Lemmas.Calls

/-!
This module contains where the slab pages and their objects are after any operations of any CPUs.
-/

namespace SLAB

variable {s s' : State} {p : Nat}

inductive PagePlace where
  | list (c : Fin maxSlabOrder) (k : Kind)
  | pool

def State.pagesAt (s : State) : PagePlace → List Nat
  | .list c k => (s.cache c).pages k
  | .pool => s.pool

def Accounted (s : State) : Prop :=
  (∀ p ∈ s.taken, ∃ pl, (s.pagesAt pl).count p = 1
    ∧ (∀ c k, pl = .list c k → (s.page p).cache = c)
    ∧ ∀ pl', p ∈ s.pagesAt pl' → pl' = pl)
  ∧ ∀ c < maxSlabOrder, (s.cache c).totalPages
    = (s.cache c).partialList.length + (s.cache c).full.length + (s.cache c).empty.length

theorem Ok.not_mem_pagesAt (h : Ok s 0 []) (hp : p ∈ s.lost) (pl : PagePlace)
    : p ∉ s.pagesAt pl := by
  cases pl with
  | list c k =>
    intro hin
    exact ((h.lists.mem_iff c c.isLt k p).mp hin).2.1 hp
  | pool => simp [State.pagesAt, h.pool]

theorem Ok.mem_list (h : Ok s 0 []) (hp : p ∈ s.taken) (hlost : p ∉ s.lost)
    : p ∈ (s.cache (s.page p).cache).pages (s.page p).kind :=
  (h.lists.mem_iff _ (h.header p hp).cache _ p).mpr ⟨hp, hlost, rfl, rfl⟩

/--
The pages of the allocator are accounted for as long as no drain leaves too many of them empty.
-/
theorem pages_accounted (s : State) (h : Steps.Reach step Careful init s) : Accounted s := by
  have hok := (Reachable.sound (h.mono fun _ _ hcareful => hcareful.1)).1
  have hnil := lost_of_careful h
  refine ⟨?_, ?_⟩
  . intro p hp
    have hc := (hok.header p hp).cache
    have hin := hok.mem_list hp (by simp [hnil])
    refine ⟨.list ⟨_, hc⟩ (s.page p).kind, ?_, ?_, ?_⟩
    . exact List.count_eq_one_of_mem (hok.lists.nodup _ hc _) hin
    . intro c k heq
      cases heq
      rfl
    . intro pl hpl
      cases pl with
      | list c k =>
        obtain ⟨-, -, hclass, hkind⟩ := (hok.lists.mem_iff c c.isLt k p).mp hpl
        have hfin : c = ⟨(s.page p).cache, hc⟩ := Fin.ext hclass.symm
        rw [hfin, ← hkind]
        rfl
      | pool =>
        rw [State.pagesAt, hok.pool] at hpl
        cases hpl
  . intro c hc
    have htotal := hok.lists.total c hc
    rwa [hnil, List.countP_nil, Nat.add_zero] at htotal

/--
Five CPUs fill their magazines with objects of 256 bytes and empty them again: the last drain finds
the global free list above its high watermark and leaves one page empty.
-/
def fiveDrains : List Event :=
  (List.range 5).map (fun i =>
    .alloc 256 (some i) ((List.range 2).map fun j => pageSize * (2 * i + j + 1)))
    ++ [.free 4352 (some 2)] ++ (List.range 5).map .drainCpuCache

theorem pages_accounted_fiveDrains
    : ∃ s, Steps.Reach step Careful init s ∧ (s.cache 4).empty = [36864] ∧ Accounted s := by
  obtain ⟨s, hreach, hempty⟩ := Steps.Reach.exists_of_run step Careful init fiveDrains
    (fun s => (s.cache 4).empty = [36864]) (by decide +kernel)
  exact ⟨s, hreach, hempty, pages_accounted s hreach⟩

def fiveCpus : List Event :=
  (List.range 5).map (fun i =>
    .alloc 1024 (some i) ((List.range 6).map fun j => pageSize * (6 * i + j + 1)))
    ++ (List.range 5).map .drainCpuCache

theorem page_unreachable_after_drain
    : ∃ s, Reachable s ∧ ∃ p ∈ s.taken, ¬ ∃ pl, p ∈ s.pagesAt pl := by
  obtain ⟨s, hreach, hlost⟩ := Steps.Reach.exists_of_run step Lawful init fiveCpus
    (fun s => s.lost ≠ []) (by decide +kernel)
  obtain ⟨p, hp⟩ := List.exists_mem_of_ne_nil _ hlost
  have hok := (Reachable.sound hreach).1
  refine ⟨s, hreach, p, (hok.lost p hp).1, ?_⟩
  intro ⟨pl, hin⟩
  exact hok.not_mem_pagesAt hp pl hin

/--
Every slot of every page is at one of four places, the counters know how many are not on the page's
own free list, and the page is on the list that fits.
-/
def InPlace (s : State) : Prop :=
  ∀ p ∈ s.taken,
    (∀ o ∈ slots (s.page p).cache p, ∃ pl, (s.items pl).count o = 1
      ∧ (pl = .live ∨ (∃ cpu, pl = .magazine cpu (s.page p).cache)
        ∨ pl = .globalFree (s.page p).cache ∨ pl = .page p)
      ∧ ∀ pl', o ∈ s.items pl' → pl' = pl)
    ∧ (s.page p).inuse = ((slots (s.page p).cache p).filter (· ∉ (s.page p).freelist)).length
    ∧ ∀ k, p ∈ (s.cache (s.page p).cache).pages k ↔ k = (s.page p).kind

def AllocsFresh (s : State) : Prop :=
  ∀ size cpu answers, Lawful s (.alloc size cpu answers) →
    ∃ r s', alloc s size cpu answers = some (r, s')
      ∧ ∀ obj, r = some obj → ∀ a n, s.InUse a n → obj + size ≤ a ∨ a + n ≤ obj

theorem Ok.slot_place {o : Nat} (h : Ok s 0 []) (hp : p ∈ s.taken)
    (ho : o ∈ slots (s.page p).cache p)
    : ∃ pl, (s.items pl).count o = 1
        ∧ (pl = .live ∨ (∃ cpu, pl = .magazine cpu (s.page p).cache)
          ∨ pl = .globalFree (s.page p).cache ∨ pl = .page p)
        ∧ ∀ pl', o ∈ s.items pl' → pl' = pl := by
  have hheader := h.header p hp
  have hpage := pageOf_slot hheader.cache hheader.aligned ho
  obtain ⟨pl, hpl⟩ := (h.objects.slots o).mpr ⟨p, hp, ho⟩
  have hholds := h.objects.holds pl o hpl
  cases pl with
  | none => cases hpl
  | some pl =>
    refine ⟨pl, ?_, ?_, ?_⟩
    . exact List.count_eq_one_of_mem (h.objects.apart.nodup (some pl)) hpl
    . cases pl with
      | live => exact .inl rfl
      | magazine cpu =>
        simp only [State.Holds, hpage] at hholds
        exact .inr (.inl ⟨cpu, by rw [hholds]⟩)
      | globalFree =>
        simp only [State.Holds, hpage] at hholds
        exact .inr (.inr (.inl (by rw [hholds])))
      | page =>
        simp only [State.Holds, hpage] at hholds
        exact .inr (.inr (.inr (by rw [hholds])))
    . intro pl' hpl'
      exact Option.some.inj (h.objects.apart.eq_of_mem (some pl') (some pl) o hpl' hpl)

theorem Ok.inuse_eq (h : Ok s 0 []) (hp : p ∈ s.taken)
    : (s.page p).inuse
        = ((slots (s.page p).cache p).filter (· ∉ (s.page p).freelist)).length := by
  have hheader := h.header p hp
  have hnodup := h.objects.apart.nodup (some (.page p))
  rw [around_page hp] at hnodup
  -- the slots on the free list are the free list
  have hperm : ((slots (s.page p).cache p).filter (· ∈ (s.page p).freelist)).Perm
      (s.page p).freelist := by
    rw [List.perm_ext_iff_of_nodup (nodup_slots.filter _) hnodup]
    intro o
    simp only [List.mem_filter, decide_eq_true_eq]
    exact ⟨fun ho => ho.2, fun ho => ⟨h.own_free hp ho, ho⟩⟩
  have hsplit := List.length_eq_length_filter_add (l := slots (s.page p).cache p)
    (fun o => decide (o ∈ (s.page p).freelist))
  rw [hperm.length_eq, length_slots, ← hheader.objects, ← hheader.inuse] at hsplit
  have hnot : ((slots (s.page p).cache p).filter (· ∉ (s.page p).freelist)).length
      = ((slots (s.page p).cache p).filter
        (fun o => !decide (o ∈ (s.page p).freelist))).length := by
    simp only [decide_not]
  omega

theorem Reachable.allocsFresh (h : Reachable s) : AllocsFresh s := by
  intro size cpu answers hok
  obtain ⟨r, s', heq, -, -, -, hfresh⟩ := h.sound.1.alloc h.sound.2 hok
  exact ⟨r, s', heq, hfresh⟩

/--
Objects, counters and lists fit together as long as no drain leaves too many pages empty.
-/
theorem objects_in_place (s : State) (h : Steps.Reach step Careful init s)
    : InPlace s ∧ AllocsFresh s := by
  have hreach : Reachable s := h.mono fun _ _ hcareful => hcareful.1
  have hok := hreach.sound.1
  refine ⟨?_, hreach.allocsFresh⟩
  intro p hp
  refine ⟨fun o ho => hok.slot_place hp ho, hok.inuse_eq hp, ?_⟩
  intro k
  rw [hok.lists.mem_iff _ (hok.header p hp).cache]
  have hlost : p ∉ s.lost := by simp [lost_of_careful h]
  simp only [hp, hlost, not_false_eq_true, true_and]
  exact eq_comm

theorem objects_in_place_fiveDrains
    : ∃ s, Steps.Reach step Careful init s ∧ (s.cache 4).globalFreeCount = 32
        ∧ InPlace s ∧ AllocsFresh s := by
  obtain ⟨s, hreach, hcount⟩ := Steps.Reach.exists_of_run step Careful init fiveDrains
    (fun s => (s.cache 4).globalFreeCount = 32) (by decide +kernel)
  exact ⟨s, hreach, hcount, objects_in_place s hreach⟩

/--
Pages that are unlinked do no harm.
-/
theorem calls_sound (h : Reachable s) : AllocsFresh s ∧ ∀ e, Lawful s e → (step s e).isSome := by
  refine ⟨h.allocsFresh, fun e hok => ?_⟩
  obtain ⟨s', heq, -⟩ := h.sound.1.step h.sound.2 hok
  rw [heq, Option.isSome_some]

theorem calls_sound_fiveCpus
    : ∃ s, Reachable s ∧ s.lost ≠ [] ∧ s.large = [(262144, 2)] ∧ AllocsFresh s := by
  obtain ⟨s, hreach, hlost, hlarge⟩ := Steps.Reach.exists_of_run step Lawful init
    (fiveCpus ++ [.alloc 5000 none [262144]])
    (fun s => s.lost ≠ [] ∧ s.large = [(262144, 2)]) (by decide +kernel)
  exact ⟨s, hreach, hlost, hlarge, (calls_sound hreach).1⟩

theorem empty_page_unlisted_after_drain
    : ∃ s, Reachable s ∧ ∃ p ∈ s.taken, (s.page p).inuse = 0
        ∧ p ∉ (s.cache (s.page p).cache).empty := by
  obtain ⟨s, hreach, p, hp, hinuse, hnot⟩ := Steps.Reach.exists_of_run step Lawful init fiveCpus
    (fun s => ∃ p ∈ s.taken, (s.page p).inuse = 0 ∧ p ∉ (s.cache (s.page p).cache).empty)
    (by decide +kernel)
  exact ⟨s, hreach, p, hp, hinuse, hnot⟩

end SLAB
