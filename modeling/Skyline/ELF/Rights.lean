import Skyline.ELF.Impl.Load

/-!
This module contains the rights of the user pages of a new process.
-/

namespace ELF

open Bytes
open VMM (mmRead mmWrite mmUser mmNx pteKeep has)

variable {t t' : Table} {ph : Phdr} {phdrs : List Phdr} {pages : List Nat}
  {prot bias len dataLen : BitVec 64} {q : Nat}

def Page.writable (page : Page) : Bool :=
  has page.flags mmWrite

def Page.executable (page : Page) : Bool :=
  !has page.flags mmNx

def Among (pages : List Nat) (q : Nat) : Prop :=
  ∃ p ∈ pages, p % tablePages = q

instance (pages : List Nat) (q : Nat) : Decidable (Among pages q) :=
  inferInstanceAs (Decidable (∃ p ∈ pages, p % tablePages = q))

variable {p : Nat} {page : Page} {kernel : Table} {frames : Frames} {prog : Program}

theorem among_cons : Among (p :: pages) q ↔ p % tablePages = q ∨ Among pages q := by
  unfold Among
  simp only [List.mem_cons, exists_eq_or_imp]

def OneHalf (pages : List Nat) : Prop :=
  (∀ p ∈ pages, p % tablePages < userPages) ∨ ∀ p ∈ pages, userPages ≤ p % tablePages

theorem powerOfTwo_pageSize : PowerOfTwo pageSize :=
  ⟨12, rfl⟩

theorem toNat_alignUp_page (x : BitVec 64) : (alignUp x pageSize).toNat = wrapRound x.toNat 4096 :=
  toNat_alignUp powerOfTwo_pageSize x

theorem mem_pages (h : p ∈ ph.pages bias)
    : (ph.vaddr + bias).toNat / 4096 ≤ p ∧ p < ((ph.vaddr + bias + ph.memsz).toNat + 4095) / 4096 ∧
      p < 2 ^ 52 := by
  have hmem := List.mem_range'_1.1 h
  rw [toNat_alignUp_page] at hmem
  have hlt := (ph.vaddr + bias + ph.memsz).isLt
  unfold wrapRound roundUp at hmem
  split at hmem
  . omega
  . omega

theorem mem_pages_user (hacc : acceptSegment ph bias dataLen = true) (h : p ∈ ph.pages bias)
    : p < userPages := by
  have hmem := mem_pages h
  simp only [acceptSegment, Bool.and_eq_true, Bool.not_eq_true', Bool.or_eq_false_iff,
    decide_eq_false_iff_not] at hacc
  unfold userAddrLimit at hacc
  unfold userPages
  omega

theorem mod_of_user (h : p < userPages) : p % tablePages = p := by
  unfold userPages at h
  unfold tablePages
  omega

theorem oneHalf_of_accept (hacc : acceptSegment ph bias dataLen = true)
    : OneHalf (ph.pages bias) := by
  apply Or.inl
  intro p hp
  have huser := mem_pages_user hacc hp
  rw [mod_of_user huser]
  exact huser

theorem oneHalf_of_write (hwrite : writeBytes t ph bias = true) : OneHalf (ph.pages bias) := by
  have hva := (ph.vaddr + bias).isLt
  simp only [writeBytes, Bool.or_eq_true, Bool.and_eq_true, decide_eq_true_eq] at hwrite
  rcases hwrite with hzero | ⟨hlow | hhigh, -⟩
  . have hlen : (ph.pages bias).length ≤ 1 := by
      have hadd : ph.vaddr + bias + ph.memsz = ph.vaddr + bias := by
        rw [hzero]
        apply BitVec.add_zero
      simp only [Phdr.pages, hadd, List.length_range', toNat_alignUp_page, wrapRound, roundUp]
      split <;> omega
    match hpages : ph.pages bias with
    | [] => exact .inl nofun
    | [p] =>
      unfold OneHalf
      simp only [List.mem_singleton, forall_eq]
      omega
    | p :: r :: pages =>
      rw [hpages] at hlen
      simp at hlen
  . apply Or.inl
    intro p hp
    have hmem := mem_pages hp
    have hadd := BitVec.toNat_add (ph.vaddr + bias) ph.memsz
    unfold tablePages userPages
    omega
  . apply Or.inr
    intro p hp
    have hmem := mem_pages hp
    unfold tablePages userPages
    omega

def Small (t : Table) : Prop :=
  ∀ q < userPages, ∀ page ∈ t q, page.size = .small

theorem small_fresh (kernel : Table) : Small (Table.fresh kernel) := by
  intro q hq page hpage
  unfold Table.fresh at hpage
  rw [if_pos hq] at hpage
  exact nomatch hpage

theorem Small.map4K (h : Small t) (p : Nat) (frame : BitVec 40) (flags : BitVec 64)
    : Small (t.map4K p frame flags) := by
  intro q hq page hpage
  unfold Table.map4K at hpage
  split at hpage
  . cases hpage
    rfl
  . exact h q hq page hpage

section

variable (h : Small t) (hpage : t.getPageInfo p = some page) (hsize : page.size = .huge)
  (frame : BitVec 40) (flags : BitVec 64)
include h hpage hsize frame flags

theorem Small.map2M_user (hq : q < userPages)
    : t.map2M p frame flags q = t q := by
  have hhigh : userPages ≤ p % tablePages := by
    apply Nat.le_of_not_lt
    intro hlt
    have hsmall := h _ hlt page hpage
    rw [hsize] at hsmall
    exact nomatch hsmall
  unfold Table.map2M
  apply if_neg
  unfold userPages at hq hhigh
  omega

theorem Small.map2M : Small (t.map2M p frame flags) := by
  intro q hq
  rw [h.map2M_user hpage hsize frame flags hq]
  exact h q hq

end

theorem tighten_cons (prot : BitVec 64) (t : Table) (p : Nat) (pages : List Nat)
    : (∃ frame flags, t.getPageInfo p = some ⟨frame, .huge, flags⟩ ∧
        tighten prot t 0 (p :: pages) = tighten prot (t.map2M p frame prot) 511 pages) ∨
      (∃ frame flags, t.getPageInfo p = some ⟨frame, .small, flags⟩ ∧
        tighten prot t 0 (p :: pages) = tighten prot (t.map4K p frame prot) 0 pages) ∨
      (∀ page ∈ t.getPageInfo p, page.size = .giant) ∧
        tighten prot t 0 (p :: pages) = tighten prot t 0 pages := by
  cases hpage : t.getPageInfo p with
  | none =>
    refine .inr (.inr ⟨fun page h => (nomatch h), ?_⟩)
    rw [tighten, hpage]
  | some page =>
    obtain ⟨frame, size, flags⟩ := page
    cases size with
    | small =>
      refine .inr (.inl ⟨frame, flags, rfl, ?_⟩)
      rw [tighten, hpage]
    | huge =>
      refine .inl ⟨frame, flags, rfl, ?_⟩
      rw [tighten, hpage]
    | giant =>
      refine .inr (.inr ⟨?_, ?_⟩)
      . intro page heq
        cases heq
        rfl
      . rw [tighten, hpage]

theorem Small.tighten (h : Small t) (prot : BitVec 64) (skip : Nat) (pages : List Nat)
    : Small (tighten prot t skip pages) := by
  induction pages generalizing t skip with
  | nil => exact h
  | cons p pages ih =>
    cases skip with
    | succ skip => exact ih h skip
    | zero =>
      rcases tighten_cons prot t p pages with ⟨frame, flags, hpage, heq⟩ | ⟨frame, flags, -, heq⟩
        | ⟨-, heq⟩
      . rw [heq]
        exact ih (h.map2M hpage rfl _ _) _
      . rw [heq]
        exact ih (h.map4K _ _ _) _
      . rw [heq]
        exact ih h _

theorem tighten_other (h : Small t) (skip : Nat) (hq : q < userPages) (hnot : ¬ Among pages q)
    : tighten prot t skip pages q = t q := by
  induction pages generalizing t skip with
  | nil => rfl
  | cons p pages ih =>
    rw [among_cons, not_or] at hnot
    cases skip with
    | succ skip => exact ih h skip hnot.2
    | zero =>
      rcases tighten_cons prot t p pages with ⟨frame, flags, hpage, heq⟩ | ⟨frame, flags, -, heq⟩
        | ⟨-, heq⟩
      . rw [heq, ih (h.map2M hpage rfl _ _) _ hnot.2, h.map2M_user hpage rfl _ _ hq]
      . rw [heq, ih (h.map4K _ _ _) _ hnot.2]
        apply if_neg
        exact fun heq => hnot.1 heq.symm
      . rw [heq, ih h _ hnot.2]

def Page.close (page : Page) (prot : BitVec 64) : Page :=
  { page with flags := prot &&& pteKeep }

theorem tighten_user (h : Small t) (huser : ∀ p ∈ pages, p % tablePages < userPages)
    (hq : q < userPages) (ham : Among pages q)
    : tighten prot t 0 pages q = (t q).map fun page => page.close prot := by
  induction pages generalizing t with
  | nil =>
    obtain ⟨p, hp, -⟩ := ham
    exact nomatch hp
  | cons p pages ih =>
    have hpuser := huser p List.mem_cons_self
    have hrest := fun r hr => huser r (List.mem_cons_of_mem p hr)
    rcases tighten_cons prot t p pages with ⟨frame, flags, hpage, heq⟩ | ⟨frame, flags, hpage, heq⟩
      | ⟨hgiant, heq⟩
    . exact nomatch h _ hpuser _ hpage
    . have hnext := h.map4K p frame prot
      have hpq : p % tablePages = q
          → t.map4K p frame prot q = (t q).map fun page => page.close prot := by
        intro hp
        have hsome : t q = some ⟨frame, .small, flags⟩ := hp ▸ hpage
        rw [hsome]
        exact if_pos hp.symm
      rw [heq]
      by_cases hin : Among pages q
      . rw [ih hnext hrest hin]
        by_cases hp : p % tablePages = q
        . rw [hpq hp, Option.map_map]
          rfl
        . congr 1
          exact if_neg fun heq => hp heq.symm
      . rw [tighten_other hnext 0 hq hin]
        exact hpq ((among_cons.1 ham).resolve_right hin)
    . have hnone : t.getPageInfo p = none := by
        apply Option.eq_none_iff_forall_ne_some.2
        intro page hpage
        have hsize := h _ hpuser page hpage
        rw [hgiant page hpage] at hsize
        exact nomatch hsize
      rw [heq]
      by_cases hin : Among pages q
      . exact ih h hrest hin
      . have hp := (among_cons.1 ham).resolve_right hin
        have hq' : t q = none := hp ▸ hnone
        rw [tighten_other h 0 hq hin, hq']
        rfl

theorem tighten_eq (h : Small t) (prot : BitVec 64) (hhalf : OneHalf pages) (hq : q < userPages)
    : tighten prot t 0 pages q
      = if Among pages q then (t q).map fun page => page.close prot else t q := by
  split
  next ham =>
    rcases hhalf with huser | hkernel
    . exact tighten_user h huser hq ham
    . obtain ⟨p, hp, heq⟩ := ham
      have hhigh := hkernel p hp
      omega
  next hnot => exact tighten_other h 0 hq hnot

section

variable {frame : Nat → BitVec 40}

theorem map4K_isSome {f : BitVec 40} {flags : BitVec 64} (h : (t q).isSome)
    : (t.map4K p f flags q).isSome := by
  unfold Table.map4K
  split
  . rfl
  . exact h

theorem mapMissing_other (hnot : ¬ Among pages q) : mapMissing frame t pages q = t q := by
  induction pages generalizing t with
  | nil => rfl
  | cons _ _ ih =>
    rw [among_cons, not_or] at hnot
    unfold mapMissing
    split
    . exact ih hnot.2
    . rw [ih hnot.2]
      apply if_neg
      exact fun heq => hnot.1 heq.symm

theorem Small.mapMissing (h : Small t) (frame : Nat → BitVec 40) (pages : List Nat)
    : Small (mapMissing frame t pages) := by
  induction pages generalizing t with
  | nil => exact h
  | cons _ _ ih =>
    unfold ELF.mapMissing
    split
    . exact ih h
    . exact ih (h.map4K _ _ _)

theorem mapMissing_isSome (frame : Nat → BitVec 40) (h : (t q).isSome ∨ Among pages q)
    : (mapMissing frame t pages q).isSome := by
  induction pages generalizing t with
  | nil =>
    rcases h with h | ⟨p, hp, -⟩
    . exact h
    . exact nomatch hp
  | cons p _ ih =>
    rw [among_cons] at h
    unfold mapMissing
    split
    next hphys =>
      apply ih
      rcases h with h | h | h
      . exact .inl h
      . apply Or.inl
        rw [← h]
        unfold Table.getPhysics Table.getPageInfo at hphys
        cases hpage : t (p % tablePages) with
        | none =>
          rw [hpage] at hphys
          exact absurd rfl hphys
        | some => rfl
      . exact .inr h
    next =>
      apply ih
      rcases h with h | h | h
      . exact .inl (map4K_isSome h)
      . apply Or.inl
        unfold Table.map4K
        rw [if_pos h.symm]
        rfl
      . exact .inr h

theorem mapMissing_getPhysics (hq : q < tablePages)
    : (mapMissing frame t pages).getPhysics q ≠ 0 ↔
      t.getPhysics q ≠ 0 ∨ ∃ p ∈ pages, p % tablePages = q ∧ frame p ≠ 0 := by
  induction pages generalizing t with
  | nil => simp [mapMissing]
  | cons p _ ih =>
    simp only [List.mem_cons, exists_eq_or_imp]
    unfold mapMissing
    split
    next hphys =>
      rw [ih]
      constructor
      . intro h
        exact h.imp_right .inr
      . rintro (h | ⟨heq, -⟩ | h)
        . exact .inl h
        . apply Or.inl
          rw [← heq]
          unfold Table.getPhysics Table.getPageInfo at hphys ⊢
          rwa [Nat.mod_mod]
        . exact .inr h
    next hphys =>
      rw [ih]
      have hget : (t.map4K p (frame p) openFlags).getPhysics q = if p % tablePages = q then frame p
          else t.getPhysics q := by
        unfold Table.getPhysics Table.getPageInfo Table.map4K
        rw [Nat.mod_eq_of_lt hq]
        by_cases heq : p % tablePages = q
        . rw [if_pos heq, if_pos heq.symm]
        . rw [if_neg heq, if_neg fun h => heq h.symm]
      rw [hget]
      split
      next heq =>
        have hzero : t.getPhysics q = 0 := by
          rw [ne_eq, not_not] at hphys
          rw [← hphys, ← heq]
          unfold Table.getPhysics Table.getPageInfo
          rw [Nat.mod_mod]
        simp [heq, hzero]
      next hne => simp [hne]

theorem dlMapMissing_eq (h : dlMapMissing frame t pages = .ok t')
    : t' = mapMissing frame t pages := by
  induction pages generalizing t with
  | nil =>
    cases h
    rfl
  | cons _ _ ih =>
    unfold dlMapMissing at h
    unfold mapMissing
    split
    next hphys =>
      rw [if_pos hphys] at h
      exact ih h
    next hphys =>
      rw [if_neg hphys] at h
      split at h
      . cases h
      . exact ih h

end

def Covers (bias : BitVec 64) (ph : Phdr) (q : Nat) : Prop :=
  ph.type = ptLoad ∧ Among (ph.pages bias) q

instance (bias : BitVec 64) (ph : Phdr) (q : Nat) : Decidable (Covers bias ph q) :=
  inferInstanceAs (Decidable (ph.type = ptLoad ∧ Among (ph.pages bias) q))

section

variable {frame : Nat → Nat → BitVec 40} {i : Nat}

theorem mapSegments_cons (h : mapSegments frame bias dataLen t i (ph :: phdrs) = .ok t')
    : (ph.type ≠ ptLoad ∧ mapSegments frame bias dataLen t (i + 1) phdrs = .ok t') ∨
      ph.type = ptLoad ∧ acceptSegment ph bias dataLen = true ∧
        mapSegments frame bias dataLen (mapMissing (frame i) t (ph.pages bias))
        (i + 1) phdrs = .ok t' := by
  unfold mapSegments at h
  split at h
  next htype => exact .inl ⟨htype, h⟩
  next htype =>
    split at h
    next hacc => exact .inr ⟨not_not.1 htype, hacc, h⟩
    next => cases h

theorem mapSegments_accept (h : mapSegments frame bias dataLen t i phdrs = .ok t')
    : ∀ ph ∈ phdrs, ph.type = ptLoad → acceptSegment ph bias dataLen = true := by
  induction phdrs generalizing t i with
  | nil => exact nofun
  | cons _ _ ih =>
    intro ph' hmem htype'
    rcases mapSegments_cons h with ⟨htype, h⟩ | ⟨-, hacc, h⟩
    . rcases List.mem_cons.1 hmem with heq | hmem
      . exact absurd (heq ▸ htype') htype
      . exact ih h ph' hmem htype'
    . rcases List.mem_cons.1 hmem with heq | hmem
      . exact heq ▸ hacc
      . exact ih h ph' hmem htype'

theorem Small.mapSegments (hsmall : Small t) (h : mapSegments frame bias dataLen t i phdrs = .ok t')
    : Small t' := by
  induction phdrs generalizing t i with
  | nil =>
    cases h
    exact hsmall
  | cons _ _ ih =>
    rcases mapSegments_cons h with ⟨-, h⟩ | ⟨-, -, h⟩
    . exact ih hsmall h
    . exact ih (hsmall.mapMissing _ _) h

section

variable (h : mapSegments frame bias dataLen t i phdrs = .ok t')
include h

theorem mapSegments_other
    (hnot : ∀ ph ∈ phdrs, ¬ Covers bias ph q) : t' q = t q := by
  induction phdrs generalizing t i with
  | nil =>
    cases h
    rfl
  | cons ph _ ih =>
    have hrest := fun ph' hmem => hnot ph' (List.mem_cons_of_mem ph hmem)
    rcases mapSegments_cons h with ⟨-, h⟩ | ⟨htype, -, h⟩
    . exact ih h hrest
    . rw [ih h hrest]
      apply mapMissing_other
      exact fun ham => hnot ph List.mem_cons_self ⟨htype, ham⟩

theorem mapSegments_isSome
    (hq : (t q).isSome ∨ ∃ ph ∈ phdrs, Covers bias ph q) : (t' q).isSome := by
  induction phdrs generalizing t i with
  | nil =>
    cases h
    rcases hq with hq | ⟨ph, hmem, -⟩
    . exact hq
    . exact nomatch hmem
  | cons _ _ ih =>
    simp only [List.mem_cons, exists_eq_or_imp] at hq
    rcases mapSegments_cons h with ⟨htype, h⟩ | ⟨-, -, h⟩
    . apply ih h
      rcases hq with hq | hq | hq
      . exact .inl hq
      . exact absurd hq.1 htype
      . exact .inr hq
    . apply ih h
      rcases hq with hq | hq | hq
      . exact .inl (mapMissing_isSome _ (.inl hq))
      . exact .inl (mapMissing_isSome _ (.inr hq.2))
      . exact .inr hq

theorem mapSegments_getPhysics (hq : q < userPages)
    : t'.getPhysics q ≠ 0 ↔ t.getPhysics q ≠ 0 ∨
      ∃ k ph, phdrs[k]? = some ph ∧ ph.type = ptLoad ∧ q ∈ ph.pages bias ∧ frame (i + k) q ≠ 0 := by
  have hlt : q < tablePages := by
    unfold userPages at hq
    unfold tablePages
    omega
  induction phdrs generalizing t i with
  | nil =>
    cases h
    simp
  | cons ph phdrs ih =>
    have hsplit : (∃ k ph', (ph :: phdrs)[k]? = some ph' ∧ ph'.type = ptLoad ∧ q ∈ ph'.pages bias ∧
          frame (i + k) q ≠ 0) ↔
        (ph.type = ptLoad ∧ q ∈ ph.pages bias ∧ frame i q ≠ 0) ∨
          ∃ k ph', phdrs[k]? = some ph' ∧ ph'.type = ptLoad ∧ q ∈ ph'.pages bias
            ∧ frame (i + 1 + k) q ≠ 0 := by
      constructor
      . rintro ⟨k, ph', hget, hrest⟩
        cases k with
        | zero =>
          cases hget
          exact .inl hrest
        | succ k =>
          refine .inr ⟨k, ph', hget, ?_⟩
          rwa [Nat.add_right_comm]
      . rintro (hhead | ⟨k, ph', hget, hrest⟩)
        . exact ⟨0, ph, rfl, hhead⟩
        . refine ⟨k + 1, ph', hget, ?_⟩
          rwa [Nat.add_right_comm] at hrest
    rw [hsplit]
    rcases mapSegments_cons h with ⟨htype, h⟩ | ⟨htype, hacc, h⟩
    . apply (ih h).trans
      simp [htype]
    . have hpages : (∃ p ∈ ph.pages bias, p % tablePages = q ∧ frame i p ≠ 0) ↔
          q ∈ ph.pages bias ∧ frame i q ≠ 0 := by
        constructor
        . rintro ⟨p, hp, heq, hframe⟩
          rw [mod_of_user (mem_pages_user hacc hp)] at heq
          exact heq ▸ ⟨hp, hframe⟩
        . rintro ⟨hp, hframe⟩
          exact ⟨q, hp, mod_of_user hq, hframe⟩
      apply (ih h).trans
      rw [mapMissing_getPhysics hlt, hpages, or_assoc]
      simp [htype]

end

end

def ClosedBy (bias : BitVec 64) (phdrs : List Phdr) (q : Nat) (page : Page) : Prop :=
  ∃ ph ∈ phdrs, Covers bias ph q ∧ page.flags = ph.prot &&& pteKeep

theorem Small.tightenSegments (h : Small t) (bias : BitVec 64) (phdrs : List Phdr)
    : Small (tightenSegments bias t phdrs) := by
  induction phdrs generalizing t with
  | nil => exact h
  | cons _ _ ih =>
    unfold ELF.tightenSegments
    split
    . exact ih h
    . exact ih (h.tighten _ _ _)

section

variable (hsmall : Small t) (hhalf : ∀ ph ∈ phdrs, ph.type = ptLoad → OneHalf (ph.pages bias))
  (hq : q < userPages)
include hsmall hhalf hq

theorem tightenSegments_none (h : t q = none)
    : tightenSegments bias t phdrs q = none := by
  induction phdrs generalizing t with
  | nil => exact h
  | cons ph _ ih =>
    have hrest := fun ph' hmem => hhalf ph' (List.mem_cons_of_mem ph hmem)
    unfold tightenSegments
    split
    . exact ih hsmall hrest h
    next htype =>
      apply ih (hsmall.tighten _ _ _) hrest
      rw [tighten_eq hsmall _ (hhalf ph List.mem_cons_self (not_not.1 htype)) hq, h]
      split <;> rfl

theorem tightenSegments_some
    (h : t q = some page)
    : ∃ page', tightenSegments bias t phdrs q = some page' ∧ page'.frame = page.frame ∧
      (page'.flags = page.flags ∧ (∀ ph ∈ phdrs, ¬ Covers bias ph q)
        ∨ ClosedBy bias phdrs q page') := by
  induction phdrs generalizing t page with
  | nil => exact ⟨page, h, rfl, .inl ⟨rfl, nofun⟩⟩
  | cons ph phdrs ih =>
    have hrest := fun ph' hmem => hhalf ph' (List.mem_cons_of_mem ph hmem)
    have hpass : ∀ t, Small t → t q = some page → ¬ Covers bias ph q →
        ∃ page', tightenSegments bias t phdrs q = some page' ∧ page'.frame = page.frame ∧
          (page'.flags = page.flags ∧ (∀ ph' ∈ ph :: phdrs, ¬ Covers bias ph' q)
            ∨ ClosedBy bias (ph :: phdrs) q page') := by
      intro t hsmall h hnot
      obtain ⟨page', hpage', hframe, hflags⟩ := ih hsmall hrest h
      refine ⟨page', hpage', hframe, ?_⟩
      rcases hflags with ⟨hflags, hall⟩ | ⟨ph', hmem, hclosed⟩
      . exact .inl ⟨hflags, List.forall_mem_cons.2 ⟨hnot, hall⟩⟩
      . exact .inr ⟨ph', List.mem_cons_of_mem ph hmem, hclosed⟩
    unfold tightenSegments
    split
    next htype => exact hpass t hsmall h fun hcov => htype hcov.1
    next htype =>
      have htype := not_not.1 htype
      have heq := tighten_eq hsmall ph.prot (hhalf ph List.mem_cons_self htype) hq
      rw [h] at heq
      have hnext := hsmall.tighten ph.prot 0 (ph.pages bias)
      split at heq
      next ham =>
        obtain ⟨page', hpage', hframe, hflags⟩ := ih hnext hrest heq
        refine ⟨page', hpage', hframe, .inr ?_⟩
        rcases hflags with ⟨hflags, -⟩ | ⟨ph', hmem, hclosed⟩
        . exact ⟨ph, List.mem_cons_self, ⟨htype, ham⟩, hflags⟩
        . exact ⟨ph', List.mem_cons_of_mem ph hmem, hclosed⟩
      next hnam => exact hpass _ hnext heq fun hcov => hnam hcov.2

end

section

variable {frame : Nat → Nat → BitVec 40} {i : Nat}

theorem dlMapSegment_ok {frame : Nat → BitVec 40} (hsmall : Small t)
    (h : dlMapSegment frame bias len t ph = .ok t')
    : Small t' ∧ ∀ q < userPages,
      (¬ Among (ph.pages bias) q ∧ t' q = t q) ∨
        Among (ph.pages bias) q ∧ ∃ page, t' q = some page ∧ page.flags = ph.prot &&& pteKeep := by
  unfold dlMapSegment at h
  split at h
  . cases h
  . obtain ⟨t1, hmap, h⟩ := VMM.bind_ok.1 h
    obtain rfl := dlMapMissing_eq hmap
    have hsmall1 := hsmall.mapMissing frame (ph.pages bias)
    split at h
    next hwrite =>
      cases h
      refine ⟨hsmall1.tighten _ _ _, ?_⟩
      intro q hq
      rw [tighten_eq hsmall1 _ (oneHalf_of_write hwrite) hq]
      split
      next ham =>
        obtain ⟨page, hpage⟩ := Option.isSome_iff_exists.1
          (mapMissing_isSome (t := t) frame (.inr ham))
        rw [hpage]
        exact .inr ⟨ham, page.close ph.prot, rfl, rfl⟩
      next hnot => exact .inl ⟨hnot, mapMissing_other hnot⟩
    next => cases h

theorem dlMapLoop_ok (hsmall : Small t) (h : dlMapLoop frame bias len t i phdrs = .ok t')
    (hq : q < userPages)
    : ((∀ ph ∈ phdrs, ¬ Covers bias ph q) ∧ t' q = t q) ∨
      ∃ page, t' q = some page ∧ ClosedBy bias phdrs q page := by
  induction phdrs generalizing t i with
  | nil =>
    cases h
    exact .inl ⟨fun ph hmem => (nomatch hmem), rfl⟩
  | cons ph phdrs ih =>
    -- the segments before have their say only on pages that none of the following covers
    have hcons : ∀ {t1 : Table} {j : Nat}, Small t1 → dlMapLoop frame bias len t1 j phdrs = .ok t' →
        (¬ Covers bias ph q ∧ t1 q = t q ∨
          Covers bias ph q ∧ ∃ page, t1 q = some page ∧ page.flags = ph.prot &&& pteKeep) →
        ((∀ ph' ∈ ph :: phdrs, ¬ Covers bias ph' q) ∧ t' q = t q) ∨
          ∃ page, t' q = some page ∧ ClosedBy bias (ph :: phdrs) q page := by
      intro t1 j hsmall1 h hhead
      rcases ih hsmall1 h with ⟨hnot, heq⟩ | ⟨page, hpage, ph', hmem, hclosed⟩
      . rcases hhead with ⟨hncov, hsame⟩ | ⟨hcov, page, hpage, hflags⟩
        . apply Or.inl
          refine ⟨?_, heq.trans hsame⟩
          intro ph' hmem
          rcases List.mem_cons.1 hmem with rfl | hmem
          . exact hncov
          . exact hnot ph' hmem
        . exact .inr ⟨page, heq.trans hpage, ph, List.mem_cons_self, hcov, hflags⟩
      . exact .inr ⟨page, hpage, ph', List.mem_cons_of_mem ph hmem, hclosed⟩
    unfold dlMapLoop at h
    split at h
    next htype => exact hcons hsmall h (.inl ⟨fun hcov => htype hcov.1, rfl⟩)
    next htype =>
      have htype := not_not.1 htype
      split at h
      next t1 hseg =>
        obtain ⟨hsmall1, hpages⟩ := dlMapSegment_ok hsmall hseg
        apply hcons hsmall1 h
        rcases hpages q hq with ⟨hnot, hsame⟩ | ⟨ham, hpage⟩
        . exact .inl ⟨fun hcov => hnot hcov.2, hsame⟩
        . exact .inr ⟨⟨htype, ham⟩, hpage⟩
      next => cases h

end

def Program.segments (prog : Program) : List (BitVec 64 × Phdr) :=
  prog.main.phdrs.map (fun ph => (loadBias prog.main prog.rv, ph)) ++
    match prog.so with
    | none => []
    | some (so, _) => so.phdrs.map fun ph => (soBias so, ph)

/--
Every page of the user that is mapped can be written or executed but not both, and it can be
executed if all segments it belongs to can be, and not if none of them can be.
-/
structure Protected (segments : List (BitVec 64 × Phdr)) (t : Table) : Prop where
  exclusive : ∀ q < userPages, ∀ page ∈ t q, ¬ (page.writable = true ∧ page.executable = true)
  executable : ∀ q < userPages, (∃ seg ∈ segments, Covers seg.1 seg.2 q) →
    (∀ seg ∈ segments, Covers seg.1 seg.2 q → seg.2.executable = true) →
    ∃ page ∈ t q, page.executable = true
  data : ∀ q < userPages, (∃ seg ∈ segments, Covers seg.1 seg.2 q) →
    (∀ seg ∈ segments, Covers seg.1 seg.2 q → seg.2.executable = false) →
    ∃ page ∈ t q, page.executable = false

def Settled (segments : List (BitVec 64 × Phdr)) (t : Table) (q : Nat) : Prop :=
  (t q = none ∧ ∀ seg ∈ segments, ¬ Covers seg.1 seg.2 q) ∨
    ∃ page, t q = some page
      ∧ ∃ seg ∈ segments, Covers seg.1 seg.2 q ∧ page.flags = seg.2.prot &&& pteKeep

theorem prot_executable (h : page.flags = ph.prot &&& pteKeep)
    : page.executable = ph.executable := by
  unfold Page.executable
  rw [h]
  unfold Phdr.prot
  cases ph.executable <;> cases ph.writable <;> decide

theorem prot_exclusive (h : page.flags = ph.prot &&& pteKeep)
    : ¬ (page.writable = true ∧ page.executable = true) := by
  unfold Page.writable Page.executable
  rw [h]
  unfold Phdr.prot
  cases ph.executable <;> cases ph.writable <;> decide

theorem Settled.executable {segments : List (BitVec 64 × Phdr)} (h : Settled segments t q)
    {b : Bool} (hcov : ∃ seg ∈ segments, Covers seg.1 seg.2 q)
    (hall : ∀ seg ∈ segments, Covers seg.1 seg.2 q → seg.2.executable = b)
    : ∃ page ∈ t q, page.executable = b := by
  obtain ⟨seg, hmem, hcov⟩ := hcov
  rcases h with ⟨-, hnot⟩ | ⟨page, hpage, seg', hmem', hcov', hflags⟩
  . exact absurd hcov (hnot seg hmem)
  . refine ⟨page, hpage, ?_⟩
    rw [prot_executable hflags]
    exact hall seg' hmem' hcov'

theorem Protected.of_settled {segments : List (BitVec 64 × Phdr)}
    (h : ∀ q < userPages, Settled segments t q)
    : Protected segments t where
  exclusive := by
    intro q hq page hpage
    rcases h q hq with ⟨hnone, -⟩ | ⟨page', hpage', seg, -, -, hflags⟩
    . rw [hnone] at hpage
      exact nomatch hpage
    . obtain rfl : page' = page := Option.some.inj (hpage'.symm.trans hpage)
      exact prot_exclusive hflags
  executable := fun q hq => (h q hq).executable
  data := fun q hq => (h q hq).executable

section

variable {frame : Nat → Nat → BitVec 40}
  (h : mapSegments frame bias dataLen (Table.fresh kernel) 0 phdrs = .ok t) (hq : q < userPages)
include h hq

theorem settled_passes
    : Settled (phdrs.map fun ph => (bias, ph)) (tightenSegments bias t phdrs) q := by
  have hsmall := (small_fresh kernel).mapSegments h
  have hhalf := fun ph hmem htype => oneHalf_of_accept (mapSegments_accept h ph hmem htype)
  by_cases hcov : ∃ ph ∈ phdrs, Covers bias ph q
  . obtain ⟨page, hpage⟩ := Option.isSome_iff_exists.1 (mapSegments_isSome h (.inr hcov))
    obtain ⟨page', hpage', -, ⟨-, hnot⟩ | ⟨ph, hmem, hclosed⟩⟩ :=
      tightenSegments_some hsmall hhalf hq hpage
    . obtain ⟨ph, hmem, hcov⟩ := hcov
      exact absurd hcov (hnot ph hmem)
    . exact .inr ⟨page', hpage', (bias, ph), List.mem_map_of_mem hmem, hclosed⟩
  . have hnot : ∀ ph ∈ phdrs, ¬ Covers bias ph q := fun ph hmem hc => hcov ⟨ph, hmem, hc⟩
    refine .inl ⟨?_, ?_⟩
    . apply tightenSegments_none hsmall hhalf hq
      rw [mapSegments_other h hnot]
      exact if_pos hq
    . intro seg hseg
      obtain ⟨ph, hmem, rfl⟩ := List.mem_map.1 hseg
      exact hnot ph hmem

theorem getPhysics_passes
    : (tightenSegments bias t phdrs).getPhysics q ≠ 0 ↔
      ∃ k ph, phdrs[k]? = some ph ∧ ph.type = ptLoad ∧ q ∈ ph.pages bias ∧ frame k q ≠ 0 := by
  have hsmall := (small_fresh kernel).mapSegments h
  have hhalf := fun ph hmem htype => oneHalf_of_accept (mapSegments_accept h ph hmem htype)
  have hsame : (tightenSegments bias t phdrs).getPhysics q = t.getPhysics q := by
    unfold Table.getPhysics Table.getPageInfo
    rw [mod_of_user hq]
    cases hpage : t q with
    | none => rw [tightenSegments_none hsmall hhalf hq hpage]
    | some =>
      obtain ⟨page', hpage', hframe, -⟩ := tightenSegments_some hsmall hhalf hq hpage
      rw [hpage']
      exact hframe
  have hfresh : (Table.fresh kernel).getPhysics q = 0 := by
    unfold Table.getPhysics Table.getPageInfo Table.fresh
    rw [mod_of_user hq, if_pos hq]
  rw [hsame]
  apply (mapSegments_getPhysics h hq).trans
  simp [hfresh]

end

theorem protoPage_user : protoPage < userPages := by
  decide

def ProtocolSettled (frames : Frames) (prog : Program) : Prop :=
  frames.protocol = 0 ∨
    ∃ i ph, prog.main.phdrs[i]? = some ph ∧ ph.type = ptLoad ∧
      protoPage ∈ ph.pages (loadBias prog.main prog.rv) ∧ frames.main i protoPage ≠ 0

theorem mapProtocol_same {frame : BitVec 40} (h : t.getPhysics protoPage ≠ 0 ∨ frame = 0)
    : mapProtocol frame t = t := by
  unfold mapProtocol
  split
  . rfl
  next hzero =>
    apply if_neg
    exact not_not.2 (h.resolve_left hzero)

theorem elfLoadImpl_ok
    (h : elfLoadImpl frames prog.main prog.dataLen prog.rv (Table.fresh kernel) = .ok t)
    : Small t ∧
      (∀ q < userPages, q ≠ protoPage ∨ ProtocolSettled frames prog →
        Settled (prog.main.phdrs.map fun ph => (loadBias prog.main prog.rv, ph)) t q) ∧
      (¬ ProtocolSettled frames prog
        → t protoPage = some ⟨frames.protocol, .small, openFlags &&& pteKeep⟩) := by
  unfold elfLoadImpl at h
  split at h
  next =>
    obtain ⟨t1, hmap, h⟩ := VMM.bind_ok.1 h
    split at h
    next => cases h
    next =>
      obtain rfl := Except.ok.inj h
      have hsmall := ((small_fresh kernel).mapSegments hmap).tightenSegments
        (loadBias prog.main prog.rv) prog.main.phdrs
      have hphys := getPhysics_passes hmap protoPage_user
      by_cases hset : ProtocolSettled frames prog
      . rw [mapProtocol_same (hset.symm.imp_left hphys.2)]
        exact ⟨hsmall, fun q hq _ => settled_passes hmap hq, fun hn => absurd hset hn⟩
      . obtain ⟨hframe, hcov⟩ := not_or.1 hset
        unfold mapProtocol
        rw [if_neg fun h => hcov (hphys.1 h), if_pos hframe]
        refine ⟨hsmall.map4K _ _ _, ?_, fun _ => rfl⟩
        intro q hq hor
        have hne := hor.resolve_right hset
        have hother := settled_passes hmap hq
        unfold Settled at hother ⊢
        have hsame : ∀ (t2 : Table), t2.map4K protoPage frames.protocol openFlags q = t2 q := by
          intro t2
          apply if_neg
          rw [mod_of_user protoPage_user]
          exact hne
        rwa [hsame]
  next => cases h

theorem dlMapSegments_ok {so : Image} (h : dlMapSegments frames so len t = .ok t')
    : dlMapLoop frames.so (soBias so) len t 0 so.phdrs = .ok t' := by
  simp only [dlMapSegments] at h
  split at h
  . cases h
  . split at h
    . cases h
    . split at h
      . cases h
      . split at h
        . cases h
        . exact h

/--
The condition: the protocol page belongs to a segment of the program that got a page for it or to
one of the object, or there is no page for it.
-/
def ProtocolCovered (frames : Frames) (prog : Program) : Prop :=
  ProtocolSettled frames prog ∨
    ∃ so ∈ prog.so, ∃ ph ∈ so.1.phdrs, Covers (soBias so.1) ph protoPage

theorem load_settled (h : load frames kernel prog = .ok t)
    (hq : q < userPages) (hproto : q ≠ protoPage ∨ ProtocolCovered frames prog)
    : Settled prog.segments t q := by
  obtain ⟨t1, hmain, h⟩ := VMM.bind_ok.1 h
  obtain ⟨hsmall, hsettled, -⟩ := elfLoadImpl_ok hmain
  unfold ProtocolCovered at hproto
  unfold Program.segments
  cases hso : prog.so with
  | none =>
    rw [hso] at h hproto
    cases h
    simp only [List.append_nil]
    apply hsettled q hq
    simpa using hproto
  | some so =>
    rw [hso] at h hproto
    rcases dlMapLoop_ok hsmall (dlMapSegments_ok h) hq with ⟨hnot, hsame⟩
      | ⟨page, hpage, ph, hmem, hclosed⟩
    . have hor : q ≠ protoPage ∨ ProtocolSettled frames prog := by
        rcases hproto with hne | hset | ⟨so', hso', ph, hmem, hcov⟩
        . exact .inl hne
        . exact .inr hset
        . cases hso'
          apply Or.inl
          intro heq
          exact hnot ph hmem (heq ▸ hcov)
      rcases hsettled q hq hor with ⟨hnone, hnotmain⟩ | ⟨page, hpage, seg, hmem, hclosed⟩
      . refine .inl ⟨hsame.trans hnone, ?_⟩
        intro seg hseg
        rcases List.mem_append.1 hseg with hseg | hseg
        . exact hnotmain seg hseg
        . obtain ⟨ph, hmem, rfl⟩ := List.mem_map.1 hseg
          exact hnot ph hmem
      . exact .inr ⟨page, hsame.trans hpage, seg, List.mem_append_left _ hmem, hclosed⟩
    . exact .inr ⟨page, hpage, (soBias so.1, ph),
        List.mem_append_right _ (List.mem_map_of_mem hmem), hclosed⟩

theorem load_protoPage (h : load frames kernel prog = .ok t)
    (hproto : ¬ ProtocolCovered frames prog)
    : t protoPage = some ⟨frames.protocol, .small, openFlags &&& pteKeep⟩ := by
  obtain ⟨hset, hnot⟩ := not_or.1 hproto
  obtain ⟨t1, hmain, h⟩ := VMM.bind_ok.1 h
  obtain ⟨hsmall, -, hpage⟩ := elfLoadImpl_ok hmain
  have hpage := hpage hset
  cases hso : prog.so with
  | none =>
    rw [hso] at h
    cases h
    exact hpage
  | some so =>
    rw [hso] at h
    rcases dlMapLoop_ok hsmall (dlMapSegments_ok h) protoPage_user with ⟨-, hsame⟩
      | ⟨-, -, ph, hmem, hcov, -⟩
    . exact hsame.trans hpage
    . exact absurd ⟨so, hso, ph, hmem, hcov⟩ hnot

/--
The pages of a loaded program are protected if and only if the protocol page is covered.
-/
theorem load_protected_iff {frames : Frames} {kernel : Table} {prog : Program}
    (h : load frames kernel prog = .ok t)
    : Protected prog.segments t ↔ ProtocolCovered frames prog := by
  constructor
  . intro hprot
    by_cases hproto : ProtocolCovered frames prog
    . exact hproto
    . have hpage := load_protoPage h hproto
      have hopen : has (openFlags &&& pteKeep) mmWrite = true
          ∧ (!has (openFlags &&& pteKeep) mmNx) = true := by
        decide
      exact absurd hopen (hprot.exclusive protoPage protoPage_user _ hpage)
  . intro hproto
    apply Protected.of_settled
    intro q hq
    exact load_settled h hq (.inr hproto)

def codeImage (type : BitVec 16) (vaddr : BitVec 64) : Image where
  ident := fun i => [0x7f, 0x45, 0x4c, 0x46, 2].getD i 0
  type
  machine := 62
  entry := vaddr
  phoff := 64
  phdrs :=
    [{ type := ptLoad, flags := 5, offset := 0, vaddr
       filesz := 4096, memsz := 4096, align := 4096 }]

def staticProgram : Program where
  main := codeImage 2 0x400000
  dataLen := 4096
  rv := 0
  so := none

def pieProgram : Program where
  main := codeImage 3 0x1000
  dataLen := 4096
  rv := 0
  so := none

def allFrames : Frames where
  main := fun _ _ => 1
  protocol := 2
  so := fun _ _ => 3

theorem load_protected_iff_staticProgram
    : ∃ t, load allFrames (fun _ => none) staticProgram = .ok t
      ∧ Protected staticProgram.segments t := by
  obtain ⟨t, ht, -⟩ := VMM.exists_ok
    (show ∃ t ∈ (load allFrames (fun _ => none) staticProgram).toOption,
      (t 0x400).isSome by decide +kernel)
  refine ⟨t, ht, (load_protected_iff ht).2 (.inl (.inr ⟨0, _, rfl, rfl, ?_, ?_⟩))⟩
  . decide +kernel
  . decide

theorem pieProgram_not_protected
    : ∃ t, load allFrames (fun _ => none) pieProgram = .ok t
      ∧ ¬ Protected pieProgram.segments t := by
  obtain ⟨t, ht, page, hpage, hboth⟩ := VMM.exists_ok
    (show ∃ t ∈ (load allFrames (fun _ => none) pieProgram).toOption,
      ∃ page ∈ t protoPage, page.writable = true ∧ page.executable = true by decide +kernel)
  refine ⟨t, ht, ?_⟩
  intro hprot
  exact hprot.exclusive protoPage protoPage_user page hpage hboth

end ELF
