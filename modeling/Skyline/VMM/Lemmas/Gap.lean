import Skyline.VMM.Lemmas.Region

/-!
This module contains the search of `InternalAlloc`.
-/

namespace VMM

/--
A search of `[lo, hi)` for a place in the window `[lo, top)`.
-/
structure Searchable (head : Nat) (rs : List Region) (lo hi top need : Nat) (isUser : Bool)
    : Prop where
  layout : Layout head rs
  aligned : lo % 4096 = 0
  pos : 0 < need
  fits : lo + need ≤ top
  below : top ≤ hi
  user : isUser = true → top = userCeil
  kernel : isUser = false → top = hi ∧ ∀ (r : Region), r ∈ rs → r.start ≤ hi

structure Roomy (l1 l2 : List Region) (lo top need addr : Nat) : Prop where
  before : ∀ (a : Region), a ∈ l1 → a.stop ≤ addr
  behind : ∀ (b : Region), b ∈ l2 → addr + need ≤ b.start
  lower : lo ≤ addr
  upper : addr + need ≤ top

variable {b : Region} {gap : Gap} {addr : Nat}

section

variable {head : Nat} {rs l1 l2 : List Region} {r cur : Region}
variable {lo hi top need start : Nat} {isUser isFirst : Bool}

theorem rbNext_eq (h : ((l1 ++ r :: l2).map Region.node).Nodup)
    : rbNext (l1 ++ r :: l2) r.node = l2.head? := by
  induction l1 with
  | nil => simp [rbNext]
  | cons y _ ih =>
    have hne : ¬y.node = r.node := other_nodes h y (by simp)
    simp only [List.cons_append, rbNext, if_neg hne]
    exact ih (List.nodup_cons.mp h).2

theorem le_gapLo (lo : Nat) (h : Layout head (l1 ++ cur :: l2)) {a : Region} (ha : a ∈ l1 ++ [cur])
    : a.stop ≤ gapLo lo cur := by
  have hcur := h.ok cur (by simp)
  have hend : cur.stop ≤ gapLo lo cur := by
    unfold gapLo
    rw [hcur.regionEnd_eq]
    split <;> omega
  rw [List.mem_append, List.mem_singleton] at ha
  cases ha with
  | inl hmem =>
    have := h.append_lt hmem (b := cur) (by simp)
    have := hcur.lt
    omega
  | inr heq => exact heq ▸ hend

theorem lo_le_gapLo (lo : Nat) (cur : Region) : lo ≤ gapLo lo cur := by
  unfold gapLo
  split <;> omega

theorem gapLo_aligned (hlo : lo % 4096 = 0) (hcur : cur.Ok) : gapLo lo cur % 4096 = 0 := by
  have := hcur.aligned
  unfold gapLo
  rw [hcur.regionEnd_eq]
  split
  . exact hlo
  . unfold Region.stop
    omega

theorem gapHi_some_le (hi : Nat) (isUser : Bool) (r : Region)
    : gapHi hi isUser (some r) ≤ r.start := by
  cases isUser with
  | false => simp [gapHi]
  | true =>
    simp only [gapHi, Bool.true_and, decide_eq_true_eq]
    split <;> omega

theorem gapHi_user_le (hi : Nat) (next : Option Region) : gapHi hi true next ≤ userCeil := by
  cases next with
  | none =>
    simp only [gapHi, Bool.true_and, decide_eq_true_eq]
    split <;> omega
  | some =>
    simp only [gapHi, Bool.true_and, decide_eq_true_eq]
    split <;> omega

theorem gapHi_le_start (h : Layout head l2) (hb : b ∈ l2)
    : gapHi hi isUser l2.head? ≤ b.start := by
  cases l2 with
  | nil => cases hb
  | cons x l2 =>
    have hx : gapHi hi isUser (x :: l2).head? ≤ x.start := gapHi_some_le hi isUser x
    rw [List.mem_cons] at hb
    cases hb with
    | inl heq => exact heq ▸ hx
    | inr hmem =>
      have := (List.pairwise_cons.mp h.apart).1 b hmem
      have := (h.ok x (by simp)).lt
      omega

theorem gapHi_le_top (h : Searchable head rs lo hi top need isUser) {next : Option Region}
    (hnext : ∀ (r : Region), next = some r → r ∈ rs) : gapHi hi isUser next ≤ top := by
  cases isUser with
  | true =>
    rw [h.user rfl]
    exact gapHi_user_le _ _
  | false =>
    obtain ⟨htop, hstarts⟩ := h.kernel rfl
    rw [htop]
    cases next with
    | none => simp [gapHi]
    | some r => exact Nat.le_trans (gapHi_some_le hi false r) (hstarts r (hnext r rfl))

theorem le_gapHi (h : Searchable head rs lo hi top need isUser) {stop : Nat} (hhi : stop ≤ top)
    (hstart : ∀ (b : Region), l2.head? = some b → stop ≤ b.start)
    : stop ≤ gapHi hi isUser l2.head? := by
  have hceil : isUser = true → stop ≤ userCeil := fun huser => h.user huser ▸ hhi
  unfold gapHi
  cases hl : l2.head? with
  | none =>
    simp only
    split
    next hclamp => exact hceil (Bool.and_eq_true_iff.mp hclamp).1
    next => exact Nat.le_trans hhi h.below
  | some b =>
    simp only
    split
    next hclamp => exact hceil (Bool.and_eq_true_iff.mp hclamp).1
    next => exact hstart b hl

def Takes (rs : List Region) (lo hi need : Nat) (isUser : Bool) (r : Region) : Prop :=
  gapHi hi isUser (rbNext rs r.node) > gapLo lo r
    ∧ gapHi hi isUser (rbNext rs r.node) - gapLo lo r ≥ need

def TakesFirst (lo need : Nat) (r : Region) : Prop :=
  r.start > lo ∧ r.start - lo ≥ need

structure Gap.Found (gap : Gap) (l1 l2 : List Region) (lo top need : Nat) : Prop where
  after : gap.after = l1.getLast?
  aligned : gap.addr % 4096 = 0
  roomy : Roomy l1 l2 lo top need gap.addr
  room : gap.addr + need ≤ gap.hi
  limit : ∀ (b : Region), b ∈ l2 → gap.hi ≤ b.start

theorem Takes.found (h : Searchable head (l1 ++ cur :: l2) lo hi top need isUser)
    (htakes : Takes (l1 ++ cur :: l2) lo hi need isUser cur)
    : Gap.Found { after := some cur, addr := gapLo lo cur, hi := gapHi hi isUser l2.head? }
        (l1 ++ [cur]) l2 lo top need := by
  have hcur := h.layout.ok cur (by simp)
  have hrest : Layout head l2 := h.layout.sublist (by simp)
  unfold Takes at htakes
  rw [rbNext_eq h.layout.map_nodup] at htakes
  have hroom : gapLo lo cur + need ≤ gapHi hi isUser l2.head? := by omega
  constructor
  case after => simp
  case aligned => exact gapLo_aligned h.aligned hcur
  case room => exact hroom
  case limit => exact fun b hb => gapHi_le_start hrest hb
  case roomy =>
    constructor
    case before => exact fun a ha => le_gapLo lo h.layout ha
    case behind =>
      intro b hb
      exact Nat.le_trans hroom (gapHi_le_start hrest hb)
    case lower => exact lo_le_gapLo lo cur
    case upper =>
      apply Nat.le_trans hroom
      apply gapHi_le_top h
      intro r hr
      have := List.mem_of_head? hr
      simp [this]

theorem TakesFirst.found (h : Searchable head (r :: l2) lo hi top need isUser)
    (htakes : TakesFirst lo need r)
    : Gap.Found { after := none, addr := lo, hi := r.start } [] (r :: l2) lo top need := by
  have hlimit : ∀ (b : Region), b ∈ r :: l2 → r.start ≤ b.start := by
    intro b hb
    rw [List.mem_cons] at hb
    cases hb with
    | inl heq => exact heq ▸ Nat.le_refl _
    | inr hmem =>
      have := (List.pairwise_cons.mp h.layout.apart).1 b hmem
      have := (h.layout.ok r (by simp)).lt
      omega
  unfold TakesFirst at htakes
  constructor
  case after => rfl
  case aligned => exact h.aligned
  case room =>
    simp only
    omega
  case limit => exact hlimit
  case roomy =>
    constructor
    case before => simp
    case behind =>
      intro b hb
      have := hlimit b hb
      simp only
      omega
    case lower => exact Nat.le_refl _
    case upper => exact h.fits

theorem nextFit_found (h : Searchable head rs lo hi top need isUser) (fuel : Nat)
    (hcur : cur ∈ rs) (hgap : nextFit rs lo hi need isUser start fuel cur isFirst = some gap)
    : ∃ l1 l2, rs = l1 ++ l2 ∧ gap.Found l1 l2 lo top need := by
  induction fuel generalizing cur isFirst with
  | zero => cases hgap
  | succ _ ih =>
    obtain ⟨l1, l2, hrs⟩ := List.append_of_mem hcur
    unfold nextFit at hgap
    split at hgap
    next => cases hgap
    next =>
      simp only at hgap
      split at hgap
      next htakes =>
        injection hgap with hgap
        rw [hrs] at htakes h
        have hfound := Takes.found h htakes
        rw [← rbNext_eq h.layout.map_nodup, ← hrs, hgap] at hfound
        exact ⟨l1 ++ [cur], l2, by simp [hrs], hfound⟩
      next =>
        split at hgap
        next r hnext =>
          apply ih _ hgap
          rw [hrs, rbNext_eq (hrs ▸ h.layout.map_nodup)] at hnext
          have := List.mem_of_head? hnext
          simp [hrs, this]
        next =>
          split at hgap
          next => cases hgap
          next r hfirst =>
            unfold rbFirst at hfirst
            split at hgap
            next htakes =>
              injection hgap with hgap
              obtain ⟨l, hl⟩ := List.head?_eq_some_iff.mp hfirst
              rw [hl] at h
              have hfound := TakesFirst.found h htakes
              rw [hgap] at hfound
              exact ⟨[], rs, rfl, hl ▸ hfound⟩
            next => exact ih (List.mem_of_head? hfirst) hgap

theorem nextFit_none (fuel : Nat) (hfirst : isFirst = true ∨ cur.node ≠ start)
    (hnone : nextFit rs lo hi need isUser start (fuel + 1) cur isFirst = none)
    : ¬Takes rs lo hi need isUser cur
      ∧ (∀ (r : Region), rbNext rs cur.node = some r →
          nextFit rs lo hi need isUser start fuel r false = none)
      ∧ (rbNext rs cur.node = none → ∀ (r : Region), rs.head? = some r →
          ¬TakesFirst lo need r ∧ nextFit rs lo hi need isUser start fuel r false = none) := by
  have hgo : ¬(!isFirst && cur.node == start) = true := by
    simp only [Bool.and_eq_true, Bool.not_eq_true', beq_iff_eq, not_and]
    intro hf
    cases hfirst with
    | inl ht => rw [hf] at ht; cases ht
    | inr hne => exact hne
  unfold nextFit at hnone
  rw [if_neg hgo] at hnone
  simp only at hnone
  split at hnone
  next => cases hnone
  next htakes =>
    refine ⟨htakes, ?_, ?_⟩
    . intro r hr
      rw [hr] at hnone
      exact hnone
    . intro hlast r hr
      rw [hlast] at hnone
      simp only [rbFirst, hr] at hnone
      split at hnone
      next => cases hnone
      next hhead => exact ⟨hhead, hnone⟩

theorem nextFit_none_tail (h : Layout head (l1 ++ cur :: l2)) (fuel : Nat)
    (hfirst : isFirst = true ∨ cur.node ≠ start) (hstart : ∀ (r : Region), r ∈ l2 → r.node ≠ start)
    (hnone : nextFit (l1 ++ cur :: l2) lo hi need isUser start
      (fuel + l2.length + 1) cur isFirst = none)
    : (∀ (r : Region), r ∈ cur :: l2 → ¬Takes (l1 ++ cur :: l2) lo hi need isUser r)
      ∧ ∀ (r : Region), (l1 ++ cur :: l2).head? = some r → ¬TakesFirst lo need r
        ∧ nextFit (l1 ++ cur :: l2) lo hi need isUser start fuel r false = none := by
  induction l2 generalizing l1 cur isFirst with
  | nil =>
    obtain ⟨htakes, -, hwrap⟩ := nextFit_none fuel hfirst hnone
    rw [rbNext_eq h.map_nodup] at hwrap
    refine ⟨?_, hwrap rfl⟩
    intro r hr
    rw [List.mem_singleton.mp hr]
    exact htakes
  | cons x l2 ih =>
    have hsplit : l1 ++ cur :: x :: l2 = (l1 ++ [cur]) ++ x :: l2 := by simp
    obtain ⟨htakes, hnext, -⟩ := nextFit_none (fuel + (l2.length + 1)) hfirst hnone
    rw [rbNext_eq h.map_nodup] at hnext
    have hx := hnext x rfl
    rw [← Nat.add_assoc] at hx
    rw [hsplit] at h hx htakes ⊢
    obtain ⟨hrest, hwrap⟩ := ih h (.inr (hstart x (by simp)))
      (fun r hr => hstart r (List.mem_cons_of_mem _ hr)) hx
    refine ⟨?_, hwrap⟩
    intro r hr
    rw [List.mem_cons] at hr
    cases hr with
    | inl heq => exact heq ▸ htakes
    | inr hmem => exact hrest r hmem

theorem nextFit_none_upto {l3 : List Region} {x : Region} (l1 : List Region)
    (h : Layout head (l1 ++ cur :: l2 ++ x :: l3))
    (fuel : Nat)
    (hnone : nextFit (l1 ++ cur :: l2 ++ x :: l3) lo hi need isUser x.node
      (fuel + l2.length + 1) cur
      false = none)
    : ∀ (r : Region), r ∈ cur :: l2 → ¬Takes (l1 ++ cur :: l2 ++ x :: l3) lo hi need isUser r := by
  induction l2 generalizing l1 cur with
  | nil =>
    have hne : cur.node ≠ x.node := other_nodes h.map_nodup cur (by simp)
    obtain ⟨htakes, -, -⟩ := nextFit_none fuel (.inr hne) hnone
    intro r hr
    rw [List.mem_singleton.mp hr]
    exact htakes
  | cons y l2 ih =>
    have hne : cur.node ≠ x.node := other_nodes h.map_nodup cur (by simp)
    have hsplit : l1 ++ cur :: y :: l2 = (l1 ++ [cur]) ++ y :: l2 := by simp
    obtain ⟨htakes, hnext, -⟩ := nextFit_none (fuel + (l2.length + 1)) (.inr hne) hnone
    have hrb : rbNext (l1 ++ cur :: y :: l2 ++ x :: l3) cur.node = some y := by
      have hnodup := h.map_nodup
      rw [List.append_assoc, List.cons_append] at hnodup ⊢
      rw [rbNext_eq hnodup]
      rfl
    have hy := hnext y hrb
    rw [← Nat.add_assoc] at hy
    rw [hsplit] at h hy htakes ⊢
    have hrest := ih _ h hy
    intro r hr
    rw [List.mem_cons] at hr
    cases hr with
    | inl heq => exact heq ▸ htakes
    | inr hmem => exact hrest r hmem

theorem nextFit_none_all (h : Layout head rs) (hcur : cur ∈ rs)
    (hnone : nextFit rs lo hi need isUser cur.node (rs.length + 1) cur true = none)
    : (∀ (r : Region), r ∈ rs → ¬Takes rs lo hi need isUser r)
      ∧ ∀ (r : Region), rs.head? = some r → ¬TakesFirst lo need r := by
  obtain ⟨l1, l2, hrs⟩ := List.append_of_mem hcur
  subst hrs
  have hother := other_nodes h.map_nodup
  have hfuel : (l1 ++ cur :: l2).length + 1 = l1.length + 1 + l2.length + 1 := by
    simp only [List.length_append, List.length_cons]
    omega
  rw [hfuel] at hnone
  obtain ⟨htail, hwrap⟩ := nextFit_none_tail h _ (.inl rfl)
    (fun r hr => hother r (List.mem_append_right _ hr)) hnone
  refine ⟨?_, fun r hr => (hwrap r hr).1⟩
  intro r hr
  rw [List.mem_append] at hr
  cases hr with
  | inr hmem => exact htail r hmem
  | inl hmem =>
    cases l1 with
    | nil => cases hmem
    | cons y l1 =>
      obtain ⟨-, hy⟩ := hwrap y rfl
      have hfuel : (y :: l1).length + 1 = 1 + l1.length + 1 := by
        simp only [List.length_cons]
        omega
      rw [hfuel] at hy
      exact nextFit_none_upto [] h 1 hy r hmem

theorem not_roomy (h : Searchable head rs lo hi top need isUser)
    (htakes : ∀ (r : Region), r ∈ rs → ¬Takes rs lo hi need isUser r)
    (hfirst : ∀ (r : Region), rs.head? = some r → ¬TakesFirst lo need r) (hne : rs ≠ [])
    (hlo : lo ≤ addr) (hhi : addr + need ≤ top)
    : ∃ r ∈ rs, r.start < addr + need ∧ addr < r.stop := by
  apply Classical.byContradiction
  intro hfree
  have hapart : ∀ (r : Region), r ∈ rs → addr + need ≤ r.start ∨ r.stop ≤ addr := by
    intro r hr
    apply Classical.byContradiction
    intro hmeets
    exact hfree ⟨r, hr, by omega, by omega⟩
  have hpos := h.pos
  -- the regions below `addr` and those behind it
  have hsplit := List.takeWhile_append_dropWhile (p := fun r => decide (r.stop ≤ addr)) (l := rs)
  have hbehind : ∀ (b : Region), (rs.dropWhile fun r => decide (r.stop ≤ addr)).head? = some b →
      addr + need ≤ b.start := by
    intro b hb
    have hstop : ¬b.stop ≤ addr := by
      have := List.head?_dropWhile_not (fun r => decide (r.stop ≤ addr)) rs
      simpa [hb] using this
    have hmem : b ∈ rs := (List.dropWhile_sublist _).subset (List.mem_of_head? hb)
    have := hapart b hmem
    omega
  have hbelow : ∀ (a : Region), a ∈ rs.takeWhile (fun r => decide (r.stop ≤ addr))
      → a.stop ≤ addr := by
    intro a ha
    have hall := List.all_takeWhile (p := fun r : Region => decide (r.stop ≤ addr)) (l := rs)
    simpa using List.all_eq_true.mp hall a ha
  generalize rs.takeWhile (fun r => decide (r.stop ≤ addr)) = l1 at hsplit hbelow
  generalize rs.dropWhile (fun r => decide (r.stop ≤ addr)) = l2 at hsplit hbehind
  subst hsplit
  cases List.eq_nil_or_concat l1 with
  | inl hnil =>
    subst hnil
    cases l2 with
    | nil => exact hne rfl
    | cons b =>
      apply hfirst b rfl
      have := hbehind b rfl
      constructor <;> omega
  | inr hconcat =>
    obtain ⟨l, a, hl⟩ := hconcat
    rw [List.concat_eq_append] at hl
    subst hl
    have hsplit : (l ++ [a]) ++ l2 = l ++ a :: l2 := by simp
    have hmem : a ∈ (l ++ [a]) ++ l2 := by simp
    apply htakes a hmem
    have hstop := hbelow a (by simp)
    have hgap := le_gapHi h hhi hbehind
    have hlow : gapLo lo a ≤ addr := by
      unfold gapLo
      rw [(h.layout.ok a hmem).regionEnd_eq]
      split <;> omega
    unfold Takes
    have hnodup := h.layout.map_nodup
    rw [hsplit] at hnodup ⊢
    rw [rbNext_eq hnodup]
    constructor <;> omega

end

section

variable {map : Pagemap} {head : Region} {lo hi top need hint rand : Nat} {isUser : Bool}

section

variable (h : Searchable head.node map.regions lo hi top need isUser) (hlaid : Laid map head)
include h hlaid

theorem findGap_found (hgap : findGap map lo hi need isUser = some gap)
    : ∃ l1 l2, map.regions = l1 ++ l2 ∧ gap.Found l1 l2 lo top need := by
  have hfits := h.fits
  unfold findGap at hgap
  simp only [hlaid.tree, rbFirst] at hgap
  split at hgap
  next hstart =>
    injection hgap with hgap
    subst hgap
    have hempty : map.regions = [] := by
      split at hstart
      next => cases hstart
      next => simpa using hstart
    refine ⟨[], [], hempty, ?_⟩
    constructor
    case after => rfl
    case aligned => exact h.aligned
    case room =>
      cases isUser with
      | false => exact Nat.le_trans hfits h.below
      | true => exact h.user rfl ▸ hfits
    case limit => simp
    case roomy => exact ⟨by simp, by simp, Nat.le_refl _, hfits⟩
  next r hstart =>
    apply nextFit_found h _ _ hgap
    split at hstart
    next x hfind =>
      injection hstart with hstart
      exact hstart ▸ List.mem_of_find?_eq_some hfind
    next => exact List.mem_of_head? hstart

theorem findGap_none
    (hgap : findGap map lo hi need isUser = none) (hlo : lo ≤ addr)
    (hhi : addr + need ≤ top)
    : ∃ r ∈ map.regions, r.start < addr + need ∧ addr < r.stop := by
  unfold findGap at hgap
  simp only [hlaid.tree, rbFirst] at hgap
  split at hgap
  next => cases hgap
  next r hstart =>
    have hr : r ∈ map.regions := by
      split at hstart
      next x hfind =>
        injection hstart with hstart
        exact hstart ▸ List.mem_of_find?_eq_some hfind
      next => exact List.mem_of_head? hstart
    obtain ⟨htakes, hfirst⟩ := nextFit_none_all h.layout hr hgap
    exact not_roomy h htakes hfirst (List.ne_nil_of_mem hr) hlo hhi

end

theorem slide_roomy {l1 l2 : List Region} (rand : Nat) (huser : isUser = true → top = userCeil)
    (hpos : 0 < need) (hfound : gap.Found l1 l2 lo top need)
    : Roomy l1 l2 lo top need (slide gap need isUser rand)
      ∧ slide gap need isUser rand % 4096 = 0 := by
  have hstay : ∀ (addr : Nat), gap.addr ≤ addr → addr + need ≤ gap.hi → addr + need ≤ top →
      Roomy l1 l2 lo top need addr := by
    intro addr hlo hgap hhi
    have hroomy := hfound.roomy
    constructor
    case before => exact fun a ha => Nat.le_trans (hroomy.before a ha) hlo
    case behind => exact fun b hb => Nat.le_trans hgap (hfound.limit b hb)
    case lower => exact Nat.le_trans hroomy.lower hlo
    case upper => exact hhi
  have hupper := hfound.roomy.upper
  have haligned := hfound.aligned
  have hroom := hfound.room
  unfold slide
  cases isUser with
  | false => exact ⟨hfound.roomy, haligned⟩
  | true =>
    rw [huser rfl] at hstay hupper
    have hzero : ¬gap.hi = 0 := by omega
    simp only [if_true, hzero, false_or]
    generalize hslide : (if gap.hi > userCeil then userCeil else gap.hi) = slideHi
    have hle : slideHi ≤ gap.hi ∧ slideHi ≤ userCeil := by
      subst hslide
      split <;> omega
    rw [huser rfl]
    split
    next hslack =>
      split
      next hpages =>
        have hlt := Nat.mod_lt rand hpages
        have hmul : rand % ((slideHi - gap.addr - need) / 4096) * 4096
            ≤ slideHi - gap.addr - need := by
          omega
        refine ⟨hstay _ (by omega) (by omega) (by omega), by omega⟩
      next => exact ⟨hstay _ (Nat.le_refl _) hroom hupper, haligned⟩
    next => exact ⟨hstay _ (Nat.le_refl _) hroom hupper, haligned⟩

theorem findLe_none {rs : List Region} (hnone : vmaTreeFindLe rs addr = none)
    : ∀ (r : Region), r ∈ rs → addr < r.start := by
  induction rs with
  | nil => simp
  | cons _ _ ih =>
    unfold vmaTreeFindLe at hnone
    split at hnone
    next hrest =>
      split at hnone
      next => cases hnone
      next hx =>
        intro r hr
        rw [List.mem_cons] at hr
        cases hr with
        | inl heq => rw [heq]; omega
        | inr hmem => exact ih hrest r hmem
    next => cases hnone

theorem findLe_some {n : Nat} {rs : List Region} {best : Region} (h : Layout n rs)
    (hsome : vmaTreeFindLe rs addr = some best)
    : ∃ l1 l2, rs = l1 ++ best :: l2 ∧ best.start ≤ addr
      ∧ ∀ (r : Region), r ∈ l2 → addr < r.start := by
  induction rs with
  | nil => cases hsome
  | cons x rs ih =>
    unfold vmaTreeFindLe at hsome
    split at hsome
    next hrest =>
      split at hsome
      next hx =>
        cases hsome
        exact ⟨[], rs, rfl, hx, findLe_none hrest⟩
      next => cases hsome
    next y hrest =>
      cases hsome
      obtain ⟨l1, l2, hrs, hle, hgt⟩ := ih (h.sublist (by simp)) hrest
      exact ⟨x :: l1, l2, by rw [hrs]; rfl, hle, hgt⟩

theorem findGt_le {n : Nat} {rs : List Region} {r : Region} (h : Layout n rs)
    (hfind : vmaTreeFindGt rs addr = some r) (hb : b ∈ rs) (hlt : addr < b.start)
    : r.start ≤ b.start := by
  unfold vmaTreeFindGt at hfind
  obtain ⟨-, l1, l2, hrs, hbefore⟩ := List.find?_eq_some_iff_append.mp hfind
  subst hrs
  rw [List.mem_append, List.mem_cons] at hb
  cases hb with
  | inl hmem =>
    have := hbefore b hmem
    simp only [Bool.not_eq_eq_eq_not, Bool.not_true, decide_eq_false_iff_not] at this
    exact absurd hlt this
  | inr hmem =>
    cases hmem with
    | inl heq => exact heq ▸ Nat.le_refl _
    | inr hmem =>
      have := (List.pairwise_cons.mp (List.pairwise_append.mp h.apart).2.1).1 b hmem
      have := (h.ok r (by simp)).lt
      omega

theorem findGt_none {rs : List Region}
    (hfind : vmaTreeFindGt rs addr = none) (hb : b ∈ rs) : b.start ≤ addr := by
  unfold vmaTreeFindGt at hfind
  simpa using List.find?_eq_none.mp hfind b hb

section

variable (h : Searchable head.node map.regions lo hi top need isUser)
include h

theorem hintGap_roomy (hhint : hint < lo ∨ hint + need ≤ top) {place : Option Region × Nat}
    (hplace : hintGap map.regions lo hi need hint = some place)
    : place.2 = hint ∧ ∃ l1 l2, map.regions = l1 ++ l2 ∧ place.1 = l1.getLast?
      ∧ Roomy l1 l2 lo top need hint := by
  have hfits := h.fits
  unfold hintGap at hplace
  simp only [Option.ite_none_right_eq_some] at hplace
  obtain ⟨hwindow, hfree, heq⟩ := hplace
  cases heq
  refine ⟨rfl, ?_⟩
  have hbehind : ∀ (b : Region), b ∈ map.regions → hint < b.start → hint + need ≤ b.start := by
    intro b hb hlt
    cases hgt : vmaTreeFindGt map.regions hint with
    | none =>
      have := findGt_none hgt hb
      omega
    | some =>
      have := findGt_le h.layout hgt hb hlt
      simp only [hgt] at hfree
      omega
  cases hle : vmaTreeFindLe map.regions hint with
  | none =>
    refine ⟨[], map.regions, rfl, rfl, ?_⟩
    exact ⟨by simp, fun b hb => hbehind b hb (findLe_none hle b hb), hwindow.1, by omega⟩
  | some r =>
    obtain ⟨l1, l2, hrs, -, hgt⟩ := findLe_some h.layout hle
    refine ⟨l1 ++ [r], l2, by simp [hrs], by simp, ?_⟩
    constructor
    case before =>
      intro a ha
      have hlayout := h.layout
      rw [hrs] at hlayout
      have := le_gapLo lo hlayout ha
      simp only [hle] at hfree
      exact Nat.le_trans this hfree.1
    case behind =>
      intro b hb
      exact hbehind b (by simp [hrs, hb]) (hgt b hb)
    case lower => exact hwindow.1
    case upper => omega

theorem choosePlace_roomy (hlaid : Laid map head)
    (hhint : hint % 4096 = 0) (hinside : hint < lo ∨ hint + need ≤ top)
    {place : Option Region × Nat}
    (hplace : choosePlace map lo hi need hint isUser rand = some place)
    : place.2 % 4096 = 0 ∧ ∃ l1 l2, map.regions = l1 ++ l2 ∧ place.1 = l1.getLast?
      ∧ Roomy l1 l2 lo top need place.2 := by
  unfold choosePlace at hplace
  rw [hlaid.tree] at hplace
  split at hplace
  next p hp =>
    cases hplace
    obtain ⟨heq, l1, l2, hrs, hafter, hroomy⟩ := hintGap_roomy h hinside hp
    rw [heq]
    exact ⟨hhint, l1, l2, hrs, hafter, hroomy⟩
  next =>
    split at hplace
    next => cases hplace
    next gap hgap =>
      cases hplace
      obtain ⟨l1, l2, hrs, hfound⟩ := findGap_found h hlaid hgap
      have hslide := slide_roomy rand h.user h.pos hfound
      exact ⟨hslide.2, l1, l2, hrs, hfound.after, hslide.1⟩

theorem choosePlace_none (hlaid : Laid map head)
    (hplace : choosePlace map lo hi need hint isUser rand = none) (hlo : lo ≤ addr)
    (hhi : addr + need ≤ top)
    : ∃ r ∈ map.regions, r.start < addr + need ∧ addr < r.stop := by
  unfold choosePlace at hplace
  split at hplace
  next => cases hplace
  next =>
    split at hplace
    next hgap => exact findGap_none h hlaid hgap hlo hhi
    next => cases hplace

end

end

/--
The end of the half of the address space that the window starts in.
-/
def windowTop (lo : Nat) : Nat :=
  if lo < userCeil then userCeil else 2 ^ 64 - 1

structure Searches (hhdmOffset : Nat) (head : Region) (pageCount : Nat) (flags : BitVec 64)
    (hint : Nat) : Prop where
  pages : 0 < pageCount
  inside : hint < head.start ∨ hint + pageCount * 4096 ≤ windowTop head.start
  aligned : hint % 4096 = 0
  user : has flags mmUser = true → head.start + pageCount * 4096 ≤ userCeil
  kernel : has flags mmUser = false →
    userCeil ≤ head.start ∧ higherHalfZero hhdmOffset ≤ head.start

section

variable {hhdmOffset : Nat} {map : Pagemap} {head : Region} {pageCount : Nat} {flags : BitVec 64}
variable {hint rand : Nat}

theorem windowTop_lt (lo : Nat) : windowTop lo < 2 ^ 64 := by
  unfold windowTop
  split <;> decide

theorem windowTop_le (hhdmOffset : Nat) {lo : Nat} (h : lo < windowEnd hhdmOffset lo)
    : windowTop lo ≤ windowEnd hhdmOffset lo := by
  have hceil : userCeil = 0x800000000000 := rfl
  unfold windowTop
  unfold windowEnd at h ⊢
  by_cases hhalf : lo ≥ higherHalfZero hhdmOffset
  . rw [if_pos hhalf]
    split <;> omega
  . rw [if_neg hhalf] at h ⊢
    rw [if_pos (hceil ▸ h), hceil]

theorem windowEnd_lt (hhdmOffset lo : Nat) : windowEnd hhdmOffset lo < 2 ^ 64 := by
  unfold windowEnd
  split <;> decide

section

variable (h : Searches hhdmOffset head pageCount flags hint) (hlaid : Laid map head)
variable (hstart : head.start % 4096 = 0)
include h hlaid hstart

theorem Searches.searchable (hbelow : windowTop head.start ≤ windowEnd hhdmOffset head.start)
    (hfits : head.start + pageCount * 4096 ≤ windowEnd hhdmOffset head.start)
    : Searchable head.node map.regions head.start (windowEnd hhdmOffset head.start)
        (windowTop head.start) (pageCount * 4096) (has flags mmUser) := by
  have hpages := h.pages
  have hwhole : has flags mmUser = false
      → windowTop head.start = windowEnd hhdmOffset head.start := by
    intro hkernel
    obtain ⟨hceil, hhalf⟩ := h.kernel hkernel
    rw [windowTop, windowEnd, if_neg (by omega), if_pos hhalf]
  have hceil : has flags mmUser = true → windowTop head.start = userCeil := by
    intro huser
    have := h.user huser
    rw [windowTop, if_pos (by omega)]
  refine ⟨hlaid.layout, hstart, by omega, ?_, hbelow, hceil, fun hkernel => ⟨hwhole hkernel, ?_⟩⟩
  . cases huser : has flags mmUser with
    | true =>
      rw [hceil huser]
      exact h.user huser
    | false =>
      rw [hwhole huser]
      exact hfits
  . intro r hr
    have hok := hlaid.layout.ok r hr
    have hlt := hok.lt
    have hfits := hok.fits
    obtain ⟨-, hhalf⟩ := h.kernel hkernel
    rw [windowEnd, if_pos hhalf]
    omega

theorem internalPlace_some {after : Nat}
    (hplace : internalPlace hhdmOffset map head pageCount flags hint rand = some (after, addr))
    : addr % 4096 = 0 ∧ ∃ l1 l2, map.regions = l1 ++ l2 ∧ after = lastOf head.node l1
      ∧ Roomy l1 l2 head.start (windowTop head.start) (pageCount * 4096) addr := by
  have htop := windowEnd_lt hhdmOffset head.start
  have hpages := h.pages
  unfold internalPlace at hplace
  simp only at hplace
  split at hplace
  next => cases hplace
  next hneed =>
    have hmod : pageCount * 4096 % 2 ^ 64 = pageCount * 4096 := by omega
    rw [hmod] at hplace
    split at hplace
    next => cases hplace
    next hwindow =>
      have hs := h.searchable hlaid hstart (windowTop_le hhdmOffset (by omega)) (by omega)
      generalize hchoose : choosePlace _ _ _ _ _ _ _ = place at hplace
      cases place with
      | none => cases hplace
      | some place =>
        obtain ⟨r, addr'⟩ := place
        obtain ⟨haligned, l1, l2, hrs, hafter, hroomy⟩ :=
          choosePlace_roomy hs hlaid h.aligned h.inside hchoose
        cases r with
        | none => cases hplace; exact ⟨haligned, l1, l2, hrs, by rw [lastOf, ← hafter], hroomy⟩
        | some => cases hplace; exact ⟨haligned, l1, l2, hrs, by rw [lastOf, ← hafter], hroomy⟩

theorem internalPlace_none
    (hplace : internalPlace hhdmOffset map head pageCount flags hint rand = none)
    (hlo : head.start ≤ addr) (hhi : addr + pageCount * 4096 ≤ windowTop head.start)
    : ∃ r ∈ map.regions, r.start < addr + pageCount * 4096 ∧ addr < r.stop := by
  have htop := windowEnd_lt hhdmOffset head.start
  have hpages := h.pages
  have hlt : head.start < windowEnd hhdmOffset head.start := by
    cases huser : has flags mmUser with
    | true =>
      have := h.user huser
      unfold windowEnd
      simp only [userCeil] at this
      split <;> omega
    | false =>
      obtain ⟨-, hhalf⟩ := h.kernel huser
      have hceil : userCeil = 0x800000000000 := rfl
      unfold windowTop at hhi
      rw [windowEnd, if_pos hhalf]
      split at hhi <;> omega
  have hbelow := windowTop_le hhdmOffset hlt
  have hmod : pageCount * 4096 % 2 ^ 64 = pageCount * 4096 := by omega
  unfold internalPlace at hplace
  simp only [hmod] at hplace
  rw [if_neg (by omega), if_neg (by omega)] at hplace
  have hs := h.searchable hlaid hstart hbelow (by omega)
  split at hplace
  next hchoose => exact choosePlace_none hs hlaid hchoose hlo hhi
  next => cases hplace
  next => cases hplace

end

end

end VMM
