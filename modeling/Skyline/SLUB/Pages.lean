import Skyline.SLUB.Lemmas.Destroy
import Skyline.Steps.Basic

/-!
This module contains what holds of the slab pages and the objects of all caches after any operations
of any CPUs.
-/

namespace SLUB

variable {s s' : State} {c p obj : Nat}

def Lawful (s : State) : Event → Prop
  | .free _ obj _ => obj = 0 ∨ obj ∈ s.live
  | _ => True

instance (s : State) (e : Event) : Decidable (Lawful s e) := by
  cases e <;> simp only [Lawful] <;> infer_instance

namespace Inv

theorem step {e : Event} (h : Inv [] none s) (hok : Lawful s e) (hs : step s e = some s')
    : Inv [] none s' := by
  cases e with
  | create =>
    simp only [SLUB.step, Option.ite_none_right_eq_some, Option.map_eq_some_iff] at hs
    obtain ⟨haddr, ⟨r, t⟩, hcreate, rfl⟩ := hs
    exact h.create haddr hcreate
  | alloc _ cpu =>
    simp only [SLUB.step, Option.ite_none_right_eq_some, Option.some.injEq] at hs
    obtain ⟨⟨hc, hpage⟩, rfl⟩ := hs
    rcases hc with rfl | hc
    . exact h
    . exact (h.alloc hc cpu hpage).1
  | free =>
    simp only [SLUB.step] at hs
    rcases hok with rfl | hobj
    . simp only [SLUB.free, or_true, if_true] at hs
      cases hs
      exact h
    . exact h.free hobj hs
  | destroy =>
    simp only [SLUB.step, Option.ite_none_right_eq_some, Option.some.injEq] at hs
    obtain ⟨hc, rfl⟩ := hs
    rcases hc with rfl | hc
    . exact h
    . exact (h.destroy hc).1

theorem init : Inv [] none init := by
  constructor
  all_goals simp [SLUB.init]

theorem live_nodup (h : Inv [] none s) : s.live.Nodup := by
  rw [List.nodup_iff_count_le_one]
  intro obj
  by_cases hobj : obj ∈ s.live
  . obtain ⟨c, hc, hp⟩ := h.outside obj (.inr hobj)
    have hok := h.slabOk c _ hc hp
    have hnodup := hok.slots.nodup_iff.mpr ((h.cacheOk c hc).fits.nodup_slots _)
    have hlive : (s.liveOn (slubPageOf obj)).Nodup := hnodup.of_append_right
    have hcount : s.live.count obj = (s.liveOn (slubPageOf obj)).count obj := by
      unfold State.liveOn
      rw [List.count_filter (by simp)]
    rw [hcount]
    exact List.nodup_iff_count_le_one.mp hlive obj
  . rw [List.count_eq_zero_of_not_mem hobj]
    exact Nat.zero_le 1

theorem alloc_not_mem (h : Inv [] none s) {cpu page : Option Nat} {t : State}
    (hs : SLUB.step s (.alloc c cpu page) = some t) (hobj : (SLUB.alloc s c cpu page).1 = some obj)
    : obj ∉ s.live := by
  simp only [SLUB.step, Option.ite_none_right_eq_some] at hs
  obtain ⟨hc, hpage⟩ := hs.1
  rcases hc with rfl | hc
  . simp [SLUB.alloc] at hobj
  . obtain ⟨hinv, hlive⟩ := h.alloc hc cpu hpage
    have := hinv.live_nodup
    rw [hlive, hobj] at this
    simp at this
    exact this.1

end Inv

/--
On every slab page the two free lists and the objects in use are all the slots of the page, and
`inuse` counts the latter. A page goes back once, and `Destroy` gives back those that are left.
-/
theorem slab_pages_accounted (s : State) (h : Steps.Reach step Lawful init s)
    : (∀ c ∈ s.caches, ∀ p ∈ (s.cache c).pages,
        ((s.slab p).freelist ++ (s.slab p).foreignHead ++ s.liveOn p).Perm ((s.cache c).slots p)
        ∧ ((s.cache c).slots p).Nodup ∧ (s.slab p).inuse = (s.liveOn p).length)
      ∧ (∀ c ∈ s.caches, ∀ d ∈ s.caches, ∀ i p, (s.cache c).cpuActive i = some p →
        (∀ j, (s.cache d).cpuActive j = some p → c = d ∧ i = j) ∧ p ∉ (s.cache d).partialList)
      ∧ (∀ obj ∈ s.live, ∃ c ∈ s.caches, slubPageOf obj ∈ (s.cache c).pages)
      ∧ (∀ c cpu page t obj, step s (.alloc c cpu page) = some t →
        (alloc s c cpu page).1 = some obj → obj ∉ s.live)
      ∧ (∀ p, s.returned p ≤ s.taken p ∧ s.taken p ≤ s.returned p + 1)
      ∧ (∀ c ∈ s.caches, ∀ p ∈ (s.cache c).pages, s.taken p = s.returned p + 1)
      ∧ (∀ p, (∀ c ∈ s.caches, p ∉ (s.cache c).pages) → p ∉ s.lost → s.taken p = s.returned p)
      ∧ (∀ c ∈ s.caches, ∀ p ∈ (destroy s c).lost,
        p ∈ s.lost ∨ p ∈ (s.cache c).pages ∧ s.liveOn p ≠ [])
      ∧ ∀ c ∈ s.caches, c ∉ (destroy s c).caches
        ∧ (∀ p ∈ (s.cache c).pages, s.liveOn p = [] → (destroy s c).returned p = s.returned p + 1)
        ∧ ∀ p, p ∉ (s.cache c).pages → (destroy s c).returned p = s.returned p := by
  have hinv := h.invariant (Inv [] none) .init fun _ _ _ hi hok hs => hi.step hok hs
  refine ⟨?_, ?_, ?_, ?_, hinv.counts, fun c hc p hp => hinv.held c p hc hp, ?_, ?_,
    fun c hc => hinv.destroy_returned hc⟩
  . intro c hc p hp
    have hok := hinv.slabOk c p hc hp
    exact ⟨hok.slots, (hinv.cacheOk c hc).fits.nodup_slots p, hok.inuse⟩
  . intro c hc d hd i p hi
    have hp := ((hinv.cacheOk c hc).active i p hi).1
    have howner := ((hinv.slabOk c p hc hp).owner i).mpr hi
    refine ⟨?_, ?_⟩
    . intro j hj
      have hpd := ((hinv.cacheOk d hd).active j p hj).1
      have howner' := ((hinv.slabOk d p hd hpd).owner j).mpr hj
      rw [howner] at howner'
      exact ⟨hinv.eq_of_mem_pages hd hpd hc hp, Option.some.inj howner'⟩
    . intro hin
      have hpd := (hinv.cacheOk d hd).listed p hin
      have := (hinv.slabOk d p hd hpd).listed hin
      rw [howner] at this
      cases this
  . exact fun obj hobj => hinv.outside obj (.inr hobj)
  . exact fun c cpu page t obj hs hobj => hinv.alloc_not_mem hs hobj
  . intro p hp hlost
    have hcounts := hinv.counts p
    have hne : s.taken p ≠ s.returned p + 1 := by
      intro heq
      rcases hinv.found p heq with ⟨c, hc, hmem⟩ | hin
      . exact hp c hc hmem
      . exact hlost hin
    omega
  . exact fun c hc => (hinv.destroy hc).2

def twoCpus : List Event :=
  [.create 2000 16 (some 1), .alloc 1 (some 0) (some 8192), .alloc 1 (some 0) none,
    .free 1 8256 1, .free 1 10256 0]

theorem slab_pages_accounted_twoCpus
    : ∃ s, Steps.Reach step Lawful init s ∧ s.caches = [1] ∧ (s.cache 1).pages = [8192]
        ∧ (s.slab 8192).foreignHead = [8256] ∧ (s.slab 8192).freelist = [10256]
        ∧ s.returned 8192 = 0
        ∧ (s.slab 8192).inuse = (s.liveOn 8192).length ∧ (destroy s 1).returned 8192 = 1 := by
  obtain ⟨s, hreach, hcaches, hpages, hforeign, hfree, hreturned, hlive⟩ :=
    Steps.Reach.exists_of_run step Lawful init twoCpus
    (fun s => s.caches = [1] ∧ (s.cache 1).pages = [8192] ∧ (s.slab 8192).foreignHead = [8256]
      ∧ (s.slab 8192).freelist = [10256] ∧ s.returned 8192 = 0 ∧ s.liveOn 8192 = [])
    (by decide +kernel)
  obtain ⟨hslabs, -, -, -, -, -, -, -, hdestroy⟩ := slab_pages_accounted s hreach
  have hone : 1 ∈ s.caches := by simp [hcaches]
  have hpage : 8192 ∈ (s.cache 1).pages := by simp [hpages]
  refine ⟨s, hreach, hcaches, hpages, hforeign, hfree, hreturned,
    (hslabs 1 hone 8192 hpage).2.2, ?_⟩
  rw [(hdestroy 1 hone).2.1 8192 hpage hlive, hreturned]

end SLUB
