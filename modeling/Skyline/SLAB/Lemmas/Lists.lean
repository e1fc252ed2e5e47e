import Skyline.SLAB.Lemmas.Moves

/-!
This module contains what the list operations on pages do to the invariant of the page lists.
-/

namespace SLAB

open Function

variable {s s' : State} {c p : Nat} {kind : Nat → Kind} {rest : List Nat}

def Cache.listed (k : Cache) : Nat := k.partialList.length + k.full.length + k.empty.length

namespace Lists

theorem setPage (h : Lists s kind) {pg : Page} (hcache : pg.cache = (s.page p).cache)
    : Lists (s.setPage p pg) kind := by
  have hclass : ∀ q, ((s.setPage p pg).page q).cache = (s.page q).cache := by
    intro q
    rw [setPage_page]
    split
    next heq => rw [hcache, heq]
    next => rfl
  constructor
  . intro c hc k q
    rw [hclass]
    exact h.mem_iff c hc k q
  . exact h.nodup
  . exact h.emptyCount
  . intro c hc
    simp only [hclass]
    exact h.total c hc

theorem change {kind' : Nat → Kind} {k' : Cache} (h : Lists s kind)
    (hcache : s'.cache = update s.cache c k')
    (hmem : ∀ l q, q ∈ k'.pages l
      ↔ q ∈ s'.taken ∧ q ∉ s'.lost ∧ (s'.page q).cache = c ∧ kind' q = l)
    (hother : ∀ d, d ≠ c → ∀ l q,
      (q ∈ s'.taken ∧ q ∉ s'.lost ∧ (s'.page q).cache = d ∧ kind' q = l)
        ↔ q ∈ s.taken ∧ q ∉ s.lost ∧ (s.page q).cache = d ∧ kind q = l)
    (hnodup : ∀ l, (k'.pages l).Nodup) (hcount : k'.emptyCount = k'.empty.length)
    (htotal : k'.totalPages = k'.listed + s'.lost.countP fun q => (s'.page q).cache = c)
    (hlost : ∀ d, d ≠ c → (s'.lost.countP fun q => (s'.page q).cache = d)
      = s.lost.countP fun q => (s.page q).cache = d)
    : Lists s' kind' := by
  have hself : s'.cache c = k' := by rw [hcache, update_self]
  have hne : ∀ d, d ≠ c → s'.cache d = s.cache d := fun d hd => by rw [hcache, update_of_ne hd]
  constructor
  . intro d hd l q
    by_cases heq : d = c
    . rw [heq, hself]
      exact hmem l q
    . rw [hne d heq, hother d heq]
      exact h.mem_iff d hd l q
  . intro d hd l
    by_cases heq : d = c
    . rw [heq, hself]
      exact hnodup l
    . rw [hne d heq]
      exact h.nodup d hd l
  . intro d hd
    by_cases heq : d = c
    . rw [heq, hself]
      exact hcount
    . rw [hne d heq]
      exact h.emptyCount d hd
  . intro d hd
    by_cases heq : d = c
    . rw [heq, hself]
      exact htotal
    . rw [hne d heq, hlost d heq]
      exact h.total d hd

theorem mem_of_kind {l : Kind} (h : Lists s kind) (hc : c < maxSlabOrder)
    (hp : p ∈ s.taken ∧ p ∉ s.lost ∧ (s.page p).cache = c) (hl : kind p = l)
    : p ∈ (s.cache c).pages l :=
  (h.mem_iff c hc l p).mpr ⟨hp.1, hp.2.1, hp.2.2, hl⟩

theorem not_mem_of_kind {l : Kind} (h : Lists s kind) (hc : c < maxSlabOrder) (hl : kind p ≠ l)
    : p ∉ (s.cache c).pages l := by
  intro hmem
  exact hl ((h.mem_iff c hc l p).mp hmem).2.2.2

theorem move {k' : Cache} {l l' : Kind} (h : Lists s kind) (hc : c < maxSlabOrder)
    (hp : p ∈ s.taken ∧ p ∉ s.lost ∧ (s.page p).cache = c) (hkind : kind p = l) (hll' : l ≠ l')
    (hfrom : k'.pages l = ((s.cache c).pages l).erase p)
    (hto : (k'.pages l').Perm (p :: (s.cache c).pages l'))
    (hrest : ∀ m, m ≠ l → m ≠ l' → k'.pages m = (s.cache c).pages m)
    (hcount : k'.emptyCount = k'.empty.length) (htotal : k'.totalPages = (s.cache c).totalPages)
    : Lists (s.setCache c k') (update kind p l') := by
  have hin := h.mem_of_kind hc hp hkind
  have hnot : p ∉ (s.cache c).pages l' := h.not_mem_of_kind hc (hkind ▸ hll')
  have hlen : ∀ m, (k'.pages m).length + (if m = l then 1 else 0)
      = ((s.cache c).pages m).length + if m = l' then 1 else 0 := by
    intro m
    by_cases hm : m = l
    . rw [hm, if_pos rfl, if_neg hll', hfrom, List.length_erase_add_one hin, Nat.add_zero]
    . by_cases hm' : m = l'
      . rw [if_neg hm, if_pos hm', hm', hto.length_eq, List.length_cons, Nat.add_zero]
      . rw [if_neg hm, if_neg hm', hrest m hm hm']
  refine h.change rfl ?_ ?_ ?_ hcount ?_ (fun _ _ => rfl)
  . intro m q
    by_cases hq : q = p
    . rw [hq, update_self]
      by_cases hm : m = l
      . rw [hm, hfrom]
        exact ⟨fun hmem => absurd rfl ((h.nodup c hc l).mem_erase_iff.mp hmem).1,
          fun hall => absurd hall.2.2.2.symm hll'⟩
      . by_cases hm' : m = l'
        . rw [hm', hto.mem_iff]
          exact ⟨fun _ => ⟨hp.1, hp.2.1, hp.2.2, rfl⟩, fun _ => List.mem_cons_self⟩
        . rw [hrest m hm hm']
          have hmem : p ∉ (s.cache c).pages m := h.not_mem_of_kind hc (hkind ▸ Ne.symm hm)
          exact ⟨fun hin => absurd hin hmem, fun hall => absurd hall.2.2.2.symm hm'⟩
    . rw [update_of_ne hq]
      refine Iff.trans ?_ (h.mem_iff c hc m q)
      by_cases hm : m = l
      . rw [hm, hfrom, List.mem_erase_of_ne hq]
      . by_cases hm' : m = l'
        . rw [hm', hto.mem_iff, List.mem_cons, or_iff_right hq]
        . rw [hrest m hm hm']
  . intro d hd m q
    by_cases hq : q = p
    . -- the page is not one of another size class
      have hclass : (s.page p).cache ≠ d := fun heq => hd (heq.symm.trans hp.2.2)
      rw [hq]
      exact ⟨fun hall => absurd hall.2.2.1 hclass, fun hall => absurd hall.2.2.1 hclass⟩
    . rw [update_of_ne hq]
      rfl
  . intro m
    by_cases hm : m = l
    . rw [hm, hfrom]
      exact (h.nodup c hc l).erase p
    . by_cases hm' : m = l'
      . rw [hm', hto.nodup_iff]
        exact List.nodup_cons.mpr ⟨hnot, h.nodup c hc l'⟩
      . rw [hrest m hm hm']
        exact h.nodup c hc m
  . have hpart := hlen .part
    have hfull := hlen .full
    have hempty := hlen .empty
    rw [htotal, h.total c hc, Cache.listed]
    simp only [Cache.pages] at hpart hfull hempty
    refine congrArg (· + _) ?_
    cases l <;> cases l' <;> simp at hll' hpart hfull hempty <;> omega

section

variable (h : Lists s kind) (hc : c < maxSlabOrder)
  (hp : p ∈ s.taken ∧ p ∉ s.lost ∧ (s.page p).cache = c)
include h hc hp

theorem toFull (hkind : kind p = .part)
    : Lists (s.setCache c
        { s.cache c with
          partialList := (s.cache c).partialList.erase p
          full := p :: (s.cache c).full }) (update kind p .full) := by
  refine h.move hc hp hkind (by decide) rfl (.refl _) ?_ (h.emptyCount c hc) rfl
  rintro (_ | _ | _) hm hm' <;> first | rfl | contradiction

theorem unfull (hkind : kind p = .full)
    : Lists (s.setCache c (unfull (s.cache c) p)) (update kind p .part) := by
  refine h.move hc hp hkind (by decide) rfl (.refl _) ?_ (h.emptyCount c hc) rfl
  rintro (_ | _ | _) hm hm' <;> first | rfl | contradiction

theorem toEmpty (hkind : kind p = .part)
    : Lists (s.setCache c (toEmpty (s.cache c) p)) (update kind p .empty) := by
  refine h.move hc hp hkind (by decide) rfl (List.perm_append_singleton ..) ?_ ?_ rfl
  . rintro (_ | _ | _) hm hm' <;> first | rfl | contradiction
  . simp [SLAB.toEmpty, h.emptyCount c hc]

end

theorem fromEmpty (h : Lists s kind) (hc : c < maxSlabOrder) (hpart : (s.cache c).partialList = [])
    (hempty : (s.cache c).empty = p :: rest)
    : Lists (s.setCache c
        { s.cache c with
          partialList := [p]
          empty := rest
          emptyCount := (s.cache c).emptyCount - 1 }) (update kind p .part) := by
  have hin : p ∈ (s.cache c).pages .empty := by simp [Cache.pages, hempty]
  obtain ⟨htaken, hlost, hclass, hkind⟩ := (h.mem_iff c hc .empty p).mp hin
  refine h.move hc ⟨htaken, hlost, hclass⟩ hkind (by decide) ?_ ?_ ?_ ?_ rfl
  . simp [Cache.pages, hempty]
  . simp [Cache.pages, hpart]
  . rintro (_ | _ | _) hm hm' <;> first | rfl | contradiction
  . simp [h.emptyCount c hc, hempty]

theorem lose (h : Lists s kind) (hc : c < maxSlabOrder) (hempty : (s.cache c).empty = p :: rest)
    : Lists
        { s.setCache c { s.cache c with
          empty := rest, emptyCount := (s.cache c).emptyCount - 1 } with
          lost := p :: s.lost } kind := by
  have hin : p ∈ (s.cache c).pages .empty := by simp [Cache.pages, hempty]
  obtain ⟨htaken, hlost, hclass, hkind⟩ := (h.mem_iff c hc .empty p).mp hin
  have hnodup := h.nodup c hc
  have hrest : (p :: rest).Nodup := hempty ▸ hnodup .empty
  rw [List.nodup_cons] at hrest
  refine h.change rfl ?_ ?_ ?_ ?_ ?_ ?_
  . intro l q
    by_cases hq : q = p
    . rw [hq]
      refine ⟨fun hmem => ?_, fun hall => absurd List.mem_cons_self hall.2.1⟩
      cases l with
      | part => exact absurd hmem (h.not_mem_of_kind hc (l := .part) (by simp [hkind]))
      | full => exact absurd hmem (h.not_mem_of_kind hc (l := .full) (by simp [hkind]))
      | empty => exact absurd hmem hrest.1
    . have hold := h.mem_iff c hc l q
      simp only [List.mem_cons, hq, false_or]
      cases l with
      | part => exact hold
      | full => exact hold
      | empty =>
        simp only [Cache.pages, hempty, List.mem_cons, hq, false_or] at hold
        exact hold
  . intro d hd l q
    by_cases hq : q = p
    . have hne : (s.page p).cache ≠ d := fun heq => hd (heq.symm.trans hclass)
      rw [hq]
      exact ⟨fun hall => absurd hall.2.2.1 hne, fun hall => absurd hall.2.2.1 hne⟩
    . simp only [List.mem_cons, hq, false_or]
      rfl
  . intro l
    cases l with
    | part => exact hnodup .part
    | full => exact hnodup .full
    | empty => exact hrest.2
  . simp [h.emptyCount c hc, hempty]
  . have htot := h.total c hc
    rw [hempty, List.length_cons] at htot
    have hcons : (p :: s.lost).countP (fun q => (s.page q).cache = c)
        = s.lost.countP (fun q => (s.page q).cache = c) + 1 :=
        List.countP_cons_of_pos (by simp [hclass])
    refine Eq.trans htot ?_
    simp only [Cache.listed]
    refine Eq.trans ?_ (congrArg _ hcons.symm)
    omega
  . intro d hd
    exact List.countP_cons_of_neg fun heq => hd ((of_decide_eq_true heq).symm.trans hclass)

theorem add {pg : Page} (h : Lists s kind) (hc : c < maxSlabOrder) (hp : p ∉ s.taken)
    (hlost : ∀ q ∈ s.lost, q ∈ s.taken) (hpg : pg.cache = c)
    : Lists (({ s with taken := p :: s.taken }.setPage p pg).setCache c
        { s.cache c with
          empty := p :: (s.cache c).empty
          emptyCount := (s.cache c).emptyCount + 1
          totalPages := (s.cache c).totalPages + 1 }) (update kind p .empty) := by
  have hplost : p ∉ s.lost := fun hmem => hp (hlost p hmem)
  have hpage : ∀ q, q ≠ p → ({ s with taken := p :: s.taken }.setPage p pg).page q = s.page q := by
    intro q hq
    rw [setPage_page, if_neg hq]
  have hself : (({ s with taken := p :: s.taken }.setPage p pg).page p).cache = c := by
    rw [setPage_page, if_pos rfl, hpg]
  have hnot : ∀ l, p ∉ (s.cache c).pages l := fun l hmem => hp ((h.mem_iff c hc l p).mp hmem).1
  have hcount : ∀ d, s.lost.countP (fun q =>
      (({ s with taken := p :: s.taken }.setPage p pg).page q).cache = d)
        = s.lost.countP (fun q => (s.page q).cache = d) := by
    intro d
    apply List.countP_congr
    intro q hq
    rw [hpage q (fun heq => hplost (heq ▸ hq))]
  have hold : ∀ d l q, q ≠ p → ((q ∈ p :: s.taken ∧ q ∉ s.lost
      ∧ (({ s with taken := p :: s.taken }.setPage p pg).page q).cache = d
      ∧ update kind p .empty q = l)
        ↔ q ∈ s.taken ∧ q ∉ s.lost ∧ (s.page q).cache = d ∧ kind q = l) := by
    intro d l q hq
    rw [hpage q hq, update_of_ne hq, List.mem_cons, or_iff_right hq]
  refine h.change rfl ?_ ?_ ?_ ?_ ?_ (fun d _ => hcount d)
  . intro l q
    by_cases hq : q = p
    . rw [hq, update_self]
      cases l with
      | part => exact ⟨fun hmem => absurd hmem (hnot .part), fun hall => nomatch hall.2.2.2⟩
      | full => exact ⟨fun hmem => absurd hmem (hnot .full), fun hall => nomatch hall.2.2.2⟩
      | empty =>
        exact ⟨fun _ => ⟨List.mem_cons_self, hplost, hself, rfl⟩, fun _ => List.mem_cons_self⟩
    . refine Iff.trans ?_ (hold c l q hq).symm
      rw [← h.mem_iff c hc]
      cases l with
      | part => rfl
      | full => rfl
      | empty => simp [Cache.pages, hq]
  . intro d hd l q
    by_cases hq : q = p
    . rw [hq]
      exact ⟨fun hall => absurd (hall.2.2.1.symm.trans hself) hd, fun hall => absurd hall.1 hp⟩
    . exact hold d l q hq
  . intro l
    cases l with
    | part => exact h.nodup c hc .part
    | full => exact h.nodup c hc .full
    | empty => exact List.nodup_cons.mpr ⟨hnot .empty, h.nodup c hc .empty⟩
  . simp [h.emptyCount c hc]
  . have htot := h.total c hc
    refine Eq.trans ?_ (congrArg _ (hcount c).symm)
    simp only [Cache.listed, List.length_cons]
    omega

end Lists

end SLAB
