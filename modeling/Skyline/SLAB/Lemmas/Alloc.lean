import Skyline.SLAB.Lemmas.Pages

/-!
This module contains that `Alloc` keeps the invariant and returns an object that nobody holds.
-/

namespace SLAB

open Function

variable {s s' : State} {c p o : Nat} {kind : Nat → Kind} {batch answers answers' : List Nat}

structure Answers (s : State) (answers : List Nat) : Prop where
  nodup : answers.Nodup
  aligned : ∀ p ∈ answers, p % pageSize = 0
  taken : ∀ p ∈ answers, p ∉ s.taken
  large : ∀ p ∈ answers, ∀ b ∈ s.large, b.1 ≠ p

theorem setCache_setCache (k k' : Cache) : (s.setCache c k).setCache c k' = s.setCache c k' := by
  simp [State.setCache]

theorem setCache_cache_self (k : Cache) : (s.setCache c k).cache c = k := by
  simp [State.setCache]

def State.addPage (s : State) (c p : Nat) : State :=
  ({ s with taken := p :: s.taken }.setPage p
      ⟨slabPageMagic, c, slots c p, 0, objectsPer c⟩).setCache c
    { s.cache c with
      empty := p :: (s.cache c).empty
      emptyCount := (s.cache c).emptyCount + 1
      totalPages := (s.cache c).totalPages + 1 }

theorem addPage_page (s : State) (c p q : Nat)
    : (s.addPage c p).page q
        = if q = p then ⟨slabPageMagic, c, slots c p, 0, objectsPer c⟩ else s.page q := by
  exact setPage_page _ p _ q

theorem addPage_cache (s : State) (c p d : Nat)
    : (s.addPage c p).cache d
        = if d = c then
            { s.cache c with
              empty := p :: (s.cache c).empty
              emptyCount := (s.cache c).emptyCount + 1
              totalPages := (s.cache c).totalPages + 1 }
          else s.cache d := by
  exact setCache_cache _ c _ d

theorem around_addPage {k : Option Place} (hk : k ≠ some (.page p))
    : (s.addPage c p).around batch k = s.around batch k := by
  rcases k with _ | _ | _ | d | q
  . rfl
  . rfl
  . rfl
  . simp only [State.around, State.items, addPage_cache]
    split
    next heq => rw [heq]
    next => rfl
  . have hne : q ≠ p := by
      intro heq
      rw [heq] at hk
      exact hk rfl
    have htaken : (s.addPage c p).taken = p :: s.taken := rfl
    simp only [State.around, State.items, addPage_page, htaken, List.mem_cons, hne,
      false_or, if_false]

theorem around_addPage_self : (s.addPage c p).around batch (some (.page p)) = slots c p := by
  have hin : p ∈ (s.addPage c p).taken := List.mem_cons_self
  rw [around_page hin, addPage_page, if_pos rfl]

section

variable (h : Ok s c batch) (hc : c < maxSlabOrder) (hp : p ∉ s.taken) (haligned : p % pageSize = 0)
include h hc hp haligned

theorem objects_addPage
    : Objects (s.addPage c p) c batch := by
  -- nothing of the new page is anywhere yet
  have hfresh : ∀ o ∈ slots c p, ∀ k, o ∉ s.around batch k := by
    intro o ho k hmem
    have hin := (h.page_of_mem k hmem).1
    rw [pageOf_slot hc haligned ho] at hin
    exact hp hin
  have hold : ∀ q ∈ s.taken, (s.addPage c p).page q = s.page q := by
    intro q hq
    rw [addPage_page, if_neg (fun heq : q = p => hp (heq ▸ hq))]
  refine ⟨?_, ?_, ?_⟩
  . exact h.objects.apart.add nodup_slots hfresh around_addPage_self
      fun k hk => around_addPage hk
  . intro o
    constructor
    . intro ⟨pl, ho⟩
      by_cases hpl : pl = some (.page p)
      . rw [hpl, around_addPage_self] at ho
        refine ⟨p, List.mem_cons_self, ?_⟩
        rw [addPage_page, if_pos rfl]
        exact ho
      . rw [around_addPage hpl] at ho
        obtain ⟨q, hq, hslot⟩ := (h.objects.slots o).mp ⟨pl, ho⟩
        refine ⟨q, List.mem_cons_of_mem p hq, ?_⟩
        rw [hold q hq]
        exact hslot
    . intro ⟨q, hq, hslot⟩
      by_cases heq : q = p
      . rw [heq, addPage_page, if_pos rfl] at hslot
        refine ⟨some (.page p), ?_⟩
        rw [around_addPage_self]
        exact hslot
      . have hq' : q ∈ s.taken := (List.mem_cons.mp hq).resolve_left heq
        rw [hold q hq'] at hslot
        obtain ⟨pl, hpl⟩ := (h.objects.slots o).mpr ⟨q, hq', hslot⟩
        refine ⟨pl, ?_⟩
        rw [around_addPage]
        . exact hpl
        . -- the place of the new page was empty
          intro hnew
          rw [hnew] at hpl
          simp [State.around, State.items, hp] at hpl
  . intro pl o ho
    by_cases hpl : pl = some (.page p)
    . rw [hpl, around_addPage_self] at ho
      rw [hpl]
      exact pageOf_slot hc haligned ho
    . rw [around_addPage hpl] at ho
      have hclass := hold _ (h.page_of_mem pl ho).1
      have hholds := h.objects.holds pl o ho
      rcases pl with _ | _ | _ | _
        | _ <;> simp only [State.Holds, hclass] at hholds ⊢ <;> exact hholds

theorem Ok.addPage (hlarge : ∀ b ∈ s.large, b.1 ≠ p)
    : Ok (s.addPage c p) c batch := by
  have hplost : p ∉ s.lost := fun hmem => hp (h.lost p hmem).1
  have hkinds : (s.addPage c p).kinds = update s.kinds p .empty := by
    funext q
    simp only [State.kinds, addPage_page, update_apply]
    split <;> rfl
  refine ⟨objects_addPage h hc hp haligned, ?_, ?_, ?_, h.pool, ?_, h.magazine, ?_⟩
  . rw [hkinds]
    exact h.lists.add hc hp (fun q hq => (h.lost q hq).1) rfl
  . intro q hq
    rw [addPage_page]
    split
    next heq =>
      rw [heq]
      refine ⟨haligned, rfl, hc, rfl, ?_⟩
      simp [length_slots]
    next hne => exact h.header q ((List.mem_cons.mp hq).resolve_left hne)
  . intro q hq
    rw [addPage_page, if_neg (fun heq : q = p => hplost (heq ▸ hq))]
    exact ⟨List.mem_cons_of_mem p (h.lost q hq).1, (h.lost q hq).2⟩
  . intro d
    rw [addPage_cache]
    split
    . exact h.globalFree c
    . exact h.globalFree d
  . intro b hb
    have hne := hlarge b hb
    have hold := h.large b hb
    refine ⟨?_, hold.2.1, ?_⟩
    . intro hin
      exact hold.1 ((List.mem_cons.mp hin).resolve_left hne)
    . rw [addPage_page, if_neg hne]
      exact hold.2.2

end

structure Filled (s s' : State) (c p : Nat) (batch answers answers' : List Nat) : Prop where
  ready : ∃ kind, OkWith kind s' c batch ∧ Ready kind s' c p
  grown : Grown answers s s'
  rest : answers' ⊆ answers
  answers : Answers s' answers'

theorem Ok.filled_partial (h : Ok s c batch) (hc : c < maxSlabOrder) (ha : Answers s answers)
    (hp : p ∈ (s.cache c).partialList)
    : Filled s s c p batch answers answers := by
  obtain ⟨htaken, hlost, hclass, hkind⟩ := (h.lists.mem_iff c hc .part p).mp hp
  refine ⟨⟨s.kinds, h, htaken, hlost, hclass, ?_, ?_⟩, .refl, fun _ hq => hq, ha⟩
  . have hheader := (h.header p htaken).inuse
    simp only [State.kinds, Page.kind] at hkind
    split at hkind
    next => cases hkind
    next =>
      split at hkind
      next => cases hkind
      next => omega
  . rw [← hkind, update_eq_self]

theorem Ok.filled_empty {rest : List Nat} (h : Ok s c batch) (hc : c < maxSlabOrder)
    (ha : Answers s answers) (hpart : (s.cache c).partialList = [])
    (hempty : (s.cache c).empty = p :: rest)
    : Filled s (s.setCache c
        { s.cache c with
          partialList := [p]
          empty := rest
          emptyCount := (s.cache c).emptyCount - 1 }) c p batch answers answers := by
  have hin : p ∈ (s.cache c).pages .empty := by simp [Cache.pages, hempty]
  obtain ⟨htaken, hlost, hclass, hkind⟩ := (h.lists.mem_iff c hc .empty p).mp hin
  have hlists := h.lists.fromEmpty hc hpart hempty
  refine ⟨⟨_, h.setCache hlists rfl rfl, htaken, hlost, hclass, ?_, rfl⟩,
    Grown.refl.setCache _, fun _ hq => hq, ?_⟩
  . have hobjects := (h.header p htaken).objects
    have hpos := objectsPer_pos hc
    have hzero := inuse_of_empty hkind
    rw [hclass] at hobjects
    show (s.page p).inuse < (s.page p).objects
    omega
  . exact ⟨ha.nodup, ha.aligned, ha.taken, ha.large⟩

theorem poolPopOldest_of_nil (h : s.pool = []) : poolPopOldest s = (none, s) := by
  simp [poolPopOldest, h]

theorem Ok.fillPartial {r : Option Nat} (h : Ok s c batch) (hc : c < maxSlabOrder)
    (ha : Answers s answers) (hfill : fillPartial s c answers = (r, answers', s'))
    : (r = none ∧ s' = s) ∨ ∃ p, r = some p ∧ Filled s s' c p batch answers answers' := by
  unfold SLAB.fillPartial at hfill
  simp only at hfill
  split at hfill
  next p _ hpart =>
    cases hfill
    exact .inr ⟨p, rfl, h.filled_partial hc ha (by simp [hpart])⟩
  next hpart =>
    split at hfill
    next p rest hempty =>
      cases hfill
      exact .inr ⟨p, rfl, h.filled_empty hc ha hpart hempty⟩
    next =>
      have hpos := objectsPer_pos hc
      cases answers with
      | nil =>
        simp only [slabAllocPage, poolOrVmm, poolPopOldest_of_nil h.pool] at hfill
        cases hfill
        exact .inl ⟨rfl, rfl⟩
      | cons p =>
        simp only [slabAllocPage, poolOrVmm, poolPopOldest_of_nil h.pool,
          Nat.ne_of_gt hpos, if_false, setCache_cache_self, setCache_setCache] at hfill
        cases hfill
        -- as if the new page had been an empty one
        have hp := ha.taken p List.mem_cons_self
        have hnodup := List.nodup_cons.mp ha.nodup
        have hadd := h.addPage hc hp (ha.aligned p List.mem_cons_self)
          (ha.large p List.mem_cons_self)
        have hcache : (s.addPage c p).cache c = _ := setCache_cache_self _
        have ha' : Answers (s.addPage c p) answers' := by
          refine ⟨hnodup.2, ?_, ?_, ?_⟩
          . exact fun q hq => ha.aligned q (List.mem_cons_of_mem p hq)
          . intro q hq hin
            cases List.mem_cons.mp hin with
            | inl heq => exact hnodup.1 (heq ▸ hq)
            | inr hin => exact ha.taken q (List.mem_cons_of_mem p hq) hin
          . exact fun q hq => ha.large q (List.mem_cons_of_mem p hq)
        have hempty' : ((s.addPage c p).cache c).empty = p :: (s.cache c).empty := by rw [hcache]
        have hfilled := hadd.filled_empty hc ha' (by simp [hcache, hpart]) hempty'
        refine .inr ⟨p, rfl, ?_⟩
        rw [hcache, State.addPage, setCache_setCache] at hfilled
        simp only [Nat.add_sub_cancel] at hfilled
        refine ⟨hfilled.ready, ⟨rfl, rfl, rfl, ?_, ?_⟩, List.subset_cons_self p _, hfilled.answers⟩
        . intro q hq
          cases List.mem_cons.mp hq with
          | inl heq => exact .inr (heq ▸ List.mem_cons_self)
          | inr hin => exact .inl hin
        . intro q hq
          refine ⟨List.mem_cons_of_mem p hq, ?_⟩
          have hpage := addPage_page s c p q
          rw [if_neg (fun heq : q = p => hp (heq ▸ hq))] at hpage
          exact congrArg Page.cache hpage

theorem Ok.fillBatch {n : Nat} (h : Ok s c batch) (hc : c < maxSlabOrder) (ha : Answers s answers)
    : ∃ batch' s', fillBatch c n s answers batch = some (batch', s') ∧ Ok s' c batch'
        ∧ Grown answers s s' := by
  induction n generalizing s answers batch with
  | zero => exact ⟨batch, s, rfl, h, .refl⟩
  | succ _ ih =>
    unfold SLAB.fillBatch
    simp only
    split
    next obj rest hfree =>
      have hpop := h.popGlobal hfree (List.perm_append_singleton obj batch)
      obtain ⟨batch', s', heq, hok, hgrown⟩ := ih hpop ⟨ha.nodup, ha.aligned, ha.taken, ha.large⟩
      exact ⟨batch', s', heq, hok, (Grown.refl.setCache _).trans hgrown (fun _ hq => hq)⟩
    next =>
      split
      next answers' t hfill =>
        rcases h.fillPartial hc ha hfill with ⟨-, rfl⟩ | ⟨p, hp, -⟩
        . exact ⟨batch, _, rfl, h, .refl⟩
        . cases hp
      next p answers' t hfill =>
        rcases h.fillPartial hc ha hfill with ⟨hp, -⟩ | ⟨q, hq, hfilled⟩
        . cases hp
        . cases hq
          obtain ⟨kind, hok, hready⟩ := hfilled.ready
          obtain ⟨obj, u, htake, hok', hslot⟩ := hok.takeSlot hready
          have ha' : Answers u answers' := by
            refine ⟨hfilled.answers.nodup, hfilled.answers.aligned, ?_, ?_⟩
            . intro q hq hin
              exact hfilled.answers.taken q hq ((hslot.taken q hin).resolve_right nofun)
            . rw [hslot.large]
              exact hfilled.answers.large
          obtain ⟨batch', s', heq, hend, hgrown⟩ := ih hok' ha'
          refine ⟨batch', s', ?_, hend, ?_⟩
          . simp only [htake]
            exact heq
          . exact (hfilled.grown.trans hslot (List.nil_subset _)).trans hgrown hfilled.rest

theorem Grown.foldl_pushMagazine {t : State} {cpu : Nat} (objs : List Nat) (h : Grown answers s t)
    : Grown answers s (objs.foldl (pushMagazine cpu c) t) := by
  induction objs generalizing t with
  | nil => exact h
  | cons _ _ ih => exact ih ⟨h.live, h.large, h.lost, h.taken, h.cache⟩

theorem Grown.foldl_pushGlobal {t : State} (objs : List Nat) (h : Grown answers s t)
    : Grown answers s (objs.foldl (pushGlobal c) t) := by
  induction objs generalizing t with
  | nil => exact h
  | cons _ _ ih => exact ih (h.setCache _)

section

variable (h : Ok s c []) (hc : c < maxSlabOrder) (cpu : Option Nat) (ha : Answers s answers)
include h hc cpu ha

theorem Ok.allocSlow
    : ∃ r s', allocSlow s c cpu answers = some (r, s') ∧ Ok s' c r.toList ∧ Grown answers s s' := by
  unfold SLAB.allocSlow
  obtain ⟨objs, t, hfill, hok, hgrown⟩ :=
    h.fillBatch (n := if cpu.isSome then slabBatch else 1) hc ha
  simp only [hfill]
  cases objs with
  | nil => exact ⟨none, t, rfl, hok, hgrown⟩
  | cons obj rest =>
    -- one object stays in the hand while the others go away
    cases cpu with
    | none => exact ⟨some obj, _, rfl, Ok.foldl_pushGlobal [obj] hok, hgrown.foldl_pushGlobal rest⟩
    | some i =>
      exact ⟨some obj, _, rfl, Ok.foldl_pushMagazine [obj] i hok, hgrown.foldl_pushMagazine rest⟩

theorem Ok.allocClass
    : ∃ r s', allocClass s c cpu answers = some (r, s') ∧ Ok s' c r.toList
      ∧ Grown answers s s' := by
  unfold SLAB.allocClass
  cases cpu with
  | none => exact h.allocSlow hc none ha
  | some i =>
    simp only
    split
    next hpos =>
      rw [h.magazine i c] at hpos
      split
      next hnil => simp [hnil] at hpos
      next obj rest hm =>
        exact ⟨some obj, _, rfl, h.setMagazine hm (List.Perm.refl _),
          rfl, rfl, rfl, fun _ hq => .inl hq, fun _ hq => ⟨hq, rfl⟩⟩
    next => exact h.allocSlow hc (some i) ha

end

theorem pageOf_header (hp : p % pageSize = 0) : pageOf (p + sizeofSlabPage) = p := by
  unfold pageOf
  simp only [pageSize, sizeofSlabPage] at *
  omega

theorem Ok.page_of_mem_live (h : Ok s c batch) (ho : o ∈ s.live)
    : pageOf o ∈ s.taken ∧ o ∈ slots (s.page (pageOf o)).cache (pageOf o) :=
  h.page_of_mem (some .live) ho

theorem Ok.others {t : State} (h : Ok s c batch) (hpage : ∀ q ∈ s.taken, t.page q = s.page q)
    (hcache : t.cache = s.cache) (htaken : t.taken = s.taken) (hlost : t.lost = s.lost)
    (hlive : t.live = s.live) (hmagazine : t.magazine = s.magazine) (hpool : t.pool = s.pool)
    (hlarge : ∀ b ∈ t.large, b.1 ∉ s.taken ∧ b.1 % pageSize = 0
      ∧ (t.page b.1).magic = largePageMagic)
    : Ok t c batch := by
  have haround : t.around batch = s.around batch := by
    funext pl
    rcases pl with _ | _ | _ | _ | q
    . rfl
    . exact hlive
    . simp only [State.around, State.items, hmagazine]
    . simp only [State.around, State.items, hcache]
    . simp only [State.around, State.items, htaken]
      split
      next hq => rw [hpage q hq]
      next => rfl
  constructor
  . refine ⟨haround ▸ h.objects.apart, ?_, ?_⟩
    . intro o
      rw [haround, h.objects.slots o, htaken]
      apply exists_congr
      intro q
      apply and_congr_right
      intro hq
      rw [hpage q hq]
    . intro pl o ho
      rw [haround] at ho
      have hclass := hpage _ (h.page_of_mem pl ho).1
      have hholds := h.objects.holds pl o ho
      rcases pl with _ | _ | _ | _
        | _ <;> simp only [State.Holds, hclass] at hholds ⊢ <;> exact hholds
  . constructor
    . intro d hd k q
      rw [hcache, h.lists.mem_iff d hd, htaken, hlost]
      apply and_congr_right
      intro hq
      simp only [State.kinds, hpage q hq]
    . rw [hcache]
      exact h.lists.nodup
    . rw [hcache]
      exact h.lists.emptyCount
    . intro d hd
      have hcount : s.lost.countP (fun q => (t.page q).cache = d)
          = s.lost.countP (fun q => (s.page q).cache = d) := by
        apply List.countP_congr
        intro q hq
        rw [hpage q (h.lost q hq).1]
      rw [hcache, hlost, hcount]
      exact h.lists.total d hd
  . intro q hq
    rw [htaken] at hq
    rw [hpage q hq]
    exact h.header q hq
  . intro q hq
    rw [hlost] at hq
    have hold := h.lost q hq
    rw [htaken, hpage q hold.1]
    exact hold
  . rw [hpool]
    exact h.pool
  . rw [hcache]
    exact h.globalFree
  . rw [hmagazine]
    exact h.magazine
  . rw [htaken]
    exact hlarge

theorem setPage_of_mem {pg : Page} {q : Nat} (hp : p ∉ s.taken) (hq : q ∈ s.taken)
    : (s.setPage p pg).page q = s.page q := by
  rw [setPage_page, if_neg (fun heq : q = p => hp (heq ▸ hq))]

theorem Ok.allocLarge {size : Nat} (h : Ok s 0 []) (ha : Answers s answers)
    : Ok (allocLarge s size answers).2 0 [] := by
  unfold SLAB.allocLarge
  simp only
  split
  next => exact h
  next =>
    cases answers with
    | nil => exact h
    | cons p =>
      have hp := ha.taken p List.mem_cons_self
      have haligned := ha.aligned p List.mem_cons_self
      refine h.others (fun q hq => setPage_of_mem hp hq) rfl rfl rfl rfl rfl rfl ?_
      intro b hb
      simp only [setPage_page]
      cases List.mem_cons.mp hb with
      | inl heq => simp [heq, hp, haligned]
      | inr hin =>
        rw [if_neg (ha.large p List.mem_cons_self b hin)]
        exact h.large b hin

theorem getCache_fits {size : Nat} (h : getCache size = some c)
    : c < maxSlabOrder ∧ size ≤ objSize c := by
  unfold getCache at h
  split at h
  next => cases h
  next =>
    split at h
    next hsmall =>
      cases h
      exact ⟨by decide, hsmall⟩
    next hlarge =>
      simp only at h
      split at h
      next => cases h
      next hlt =>
        cases h
        refine ⟨Nat.lt_of_not_le hlt, ?_⟩
        have hlog : 4 ≤ Nat.log2 (size - 1) := (Nat.le_log2 (by omega)).mpr (by omega)
        have hpow : objSize (Nat.log2 (size - 1) - 3) = 2 ^ (Nat.log2 (size - 1) + 1) := by
          rw [objSize, Nat.shiftLeft_eq, show (16 : Nat) = 2 ^ 4 from rfl, ← Nat.pow_add]
          congr 1
          omega
        have hbelow : size - 1 < 2 ^ (Nat.log2 (size - 1) + 1) := Nat.lt_log2_self
        omega

theorem Ok.allocSmall {size : Nat} (h : Ok s 0 []) (hsize : ¬ maxSlabSize < size) (cpu : Option Nat)
    (ha : Answers s answers)
    : ∃ c r t, allocSized s size cpu answers = some (r, { t with live := r.toList ++ t.live })
        ∧ Ok t c r.toList ∧ Grown answers s t ∧ (r.isSome → size ≤ objSize c) := by
  unfold SLAB.allocSized
  rw [if_neg hsize]
  split
  next => exact ⟨0, none, s, rfl, h, .refl, nofun⟩
  next c hcache =>
    obtain ⟨hc, hfits⟩ := getCache_fits hcache
    obtain ⟨r, t, heq, hok, hgrown⟩ := (h.cast c).allocClass hc cpu ha
    refine ⟨c, r, t, ?_, hok, hgrown, fun _ => hfits⟩
    cases r with
    | none => simp only [heq, Option.toList_none, List.nil_append]
    | some obj => simp only [heq, Option.toList_some, List.singleton_append]

theorem Ok.handOutAll {r : Option Nat} (h : Ok s c r.toList)
    : Ok { s with live := r.toList ++ s.live } 0 [] := by
  cases r with
  | none => exact h.cast 0
  | some obj => exact (h.handOut (List.Perm.refl [obj])).cast 0

end SLAB
