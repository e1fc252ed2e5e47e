import Skyline.VMM.Impl.Region

/-!
This module contains the layout of the regions of a page map.
-/

namespace VMM

def Region.stop (r : Region) : Nat :=
  r.start + r.pageCount * 4096

structure Region.Ok (r : Region) : Prop where
  aligned : r.start % 4096 = 0
  pos : 0 < r.pageCount
  fits : r.stop < 2 ^ 64

theorem Region.Ok.regionEnd_eq {r : Region} (h : r.Ok) : regionEnd r = r.stop := by
  unfold regionEnd
  exact Nat.mod_eq_of_lt h.fits

theorem Region.Ok.lt {r : Region} (h : r.Ok) : r.start < r.stop := by
  have := h.pos
  unfold Region.stop
  omega

structure Layout (head : Nat) (regions : List Region) : Prop where
  ok : ∀ (r : Region), r ∈ regions → r.Ok
  apart : regions.Pairwise fun a b => a.stop ≤ b.start
  nodes : (head :: regions.map Region.node).Nodup

structure Laid (map : Pagemap) (head : Region) : Prop where
  sentinel : map.vmaHead = some head
  layout : Layout head.node map.regions
  tree : map.vmaTree = map.regions
  cursor : map.vmaCursor ∈ head.node :: map.regions.map Region.node

def lastOf (head : Nat) (l : List Region) : Nat :=
  match l.getLast? with
  | none => head
  | some r => r.node

section

variable {head : Nat} {l l1 l2 : List Region} {r x : Region}

theorem Layout.sublist (h : Layout head l) (hsub : l1.Sublist l) : Layout head l1 where
  ok := fun r hr => h.ok r (hsub.subset hr)
  apart := h.apart.sublist hsub
  nodes := h.nodes.sublist ((hsub.map Region.node).cons_cons head)

theorem Layout.append_lt (h : Layout head (l1 ++ l2)) {a b : Region} (ha : a ∈ l1) (hb : b ∈ l2)
    : a.stop ≤ b.start := by
  exact (List.pairwise_append.mp h.apart).2.2 a ha b hb

theorem Layout.insert (h : Layout head (l1 ++ l2)) (hr : r.Ok)
    (hnode : r.node ∉ head :: (l1 ++ l2).map Region.node)
    (hbefore : ∀ (a : Region), a ∈ l1 → a.stop ≤ r.start)
    (hafter : ∀ (b : Region), b ∈ l2 → r.stop ≤ b.start)
    : Layout head (l1 ++ r :: l2) := by
  have hperm : (l1 ++ r :: l2).Perm (r :: (l1 ++ l2)) := List.perm_middle
  constructor
  case ok =>
    intro a ha
    rw [hperm.mem_iff, List.mem_cons] at ha
    cases ha with
    | inl heq => exact heq ▸ hr
    | inr hmem => exact h.ok a hmem
  case apart =>
    have happ := List.pairwise_append.mp h.apart
    apply List.pairwise_append.mpr
    refine ⟨happ.1, List.pairwise_cons.mpr ⟨hafter, happ.2.1⟩, ?_⟩
    intro a ha b hb
    rw [List.mem_cons] at hb
    cases hb with
    | inl heq => exact heq ▸ hbefore a ha
    | inr hmem => exact happ.2.2 a ha b hmem
  case nodes =>
    have hp : (head :: (l1 ++ r :: l2).map Region.node).Perm
        (r.node :: head :: (l1 ++ l2).map Region.node) := by
      apply ((hperm.map Region.node).cons head).trans
      exact List.Perm.swap ..
    rw [hp.nodup_iff, List.nodup_cons]
    exact ⟨hnode, h.nodes⟩

theorem insertAfter_eq (h : (head :: (l1 ++ l2).map Region.node).Nodup) (hl : l1 ≠ [])
    : insertAfter (l1 ++ l2) (lastOf head l1) r = l1 ++ r :: l2 := by
  induction l1 generalizing head with
  | nil => exact absurd rfl hl
  | cons y l1 ih =>
    simp only [List.cons_append, insertAfter, List.map_cons] at h ⊢
    cases l1 with
    | nil => simp [lastOf]
    | cons z l1 =>
      have hlast : lastOf head (y :: z :: l1) = lastOf y.node (z :: l1) := by
        unfold lastOf
        rw [List.getLast?_cons_cons]
        cases hz : (z :: l1).getLast? with
        | none => simp at hz
        | some => rfl
      have hne : ¬y.node = lastOf y.node (z :: l1) := by
        intro heq
        have hmem : lastOf y.node (z :: l1) ∈ (z :: l1 ++ l2).map Region.node := by
          unfold lastOf
          cases hz : (z :: l1).getLast? with
          | none => simp at hz
          | some =>
            simp only
            apply List.mem_map_of_mem
            exact List.mem_append_left _ (List.mem_of_getLast? hz)
        rw [← heq] at hmem
        have := (List.nodup_cons.mp (List.nodup_cons.mp h).2).1
        exact this hmem
      rw [hlast, if_neg hne]
      rw [ih (List.nodup_cons.mp h).2 (by simp)]

theorem rbInsert_eq (hbefore : ∀ (a : Region), a ∈ l1 → a.start ≤ r.start)
    (hafter : ∀ (b : Region), b ∈ l2 → r.start < b.start)
    : rbInsert (l1 ++ l2) r = l1 ++ r :: l2 := by
  induction l1 with
  | nil =>
    cases l2 with
    | nil => rfl
    | cons b =>
      have := hafter b (by simp)
      simp [rbInsert, this]
  | cons a _ ih =>
    have ha := hbefore a (by simp)
    have : ¬r.start < a.start := by omega
    simp only [List.cons_append, rbInsert, if_neg this]
    rw [ih fun b hb => hbefore b (List.mem_cons_of_mem _ hb)]

section

variable (h : ((l1 ++ x :: l2).map Region.node).Nodup)
include h

theorem other_nodes
    : ∀ (a : Region), a ∈ l1 ++ l2 → a.node ≠ x.node := by
  have hp : ((l1 ++ x :: l2).map Region.node).Perm (x.node :: (l1 ++ l2).map Region.node) :=
    List.perm_middle.map Region.node
  rw [hp.nodup_iff, List.nodup_cons] at h
  intro a ha heq
  exact h.1 (heq ▸ List.mem_map_of_mem ha)

theorem filter_node_eq
    : (l1 ++ x :: l2).filter (fun r => r.node != x.node) = l1 ++ l2 := by
  rw [List.filter_append, List.filter_cons]
  simp only [bne_self_eq_false, Bool.false_eq_true, if_false]
  rw [← List.filter_append, List.filter_eq_self]
  intro a ha
  simpa using other_nodes h a ha

theorem map_node_eq (f : Region → Region)
    : (l1 ++ x :: l2).map (fun r => if r.node = x.node then f r else r) = l1 ++ f x :: l2 := by
  have hsame : ∀ (l : List Region), (∀ (a : Region), a ∈ l → a.node ≠ x.node) →
      l.map (fun r => if r.node = x.node then f r else r) = l := by
    intro l hl
    rw [List.map_congr_left (g := id), List.map_id]
    intro a ha
    exact if_neg (hl a ha)
  have hother := other_nodes h
  rw [List.map_append, List.map_cons, if_pos rfl]
  rw [hsame l1 fun a ha => hother a (List.mem_append_left _ ha)]
  rw [hsame l2 fun a ha => hother a (List.mem_append_right _ ha)]

theorem prevNode_eq
    : prevNode head (l1 ++ x :: l2) x.node = lastOf head l1 := by
  induction l1 generalizing head with
  | nil => simp [prevNode, lastOf]
  | cons y l1 ih =>
    have hne : ¬y.node = x.node := other_nodes h y (by simp)
    simp only [List.cons_append, prevNode, if_neg hne]
    rw [ih (List.nodup_cons.mp h).2]
    unfold lastOf
    cases l1 with
    | nil => rfl
    | cons z l1 =>
      rw [List.getLast?_cons_cons]
      cases hz : (z :: l1).getLast? with
      | none => simp at hz
      | some => rfl

end

theorem lastOf_mem (head : Nat) (l : List Region) : lastOf head l ∈ head :: l.map Region.node := by
  unfold lastOf
  cases hl : l.getLast? with
  | none => simp
  | some => exact List.mem_cons_of_mem _ (List.mem_map_of_mem (List.mem_of_getLast? hl))

theorem lastOf_concat (head : Nat) (l : List Region) (r : Region)
    : lastOf head (l ++ [r]) = r.node := by
  simp [lastOf]

end

def Pagemap.withRegions (map : Pagemap) (rs : List Region) (cursor : Nat) : Pagemap :=
  { map with regions := rs, vmaTree := rs, vmaCursor := cursor }

section

variable {map : Pagemap} {head r x : Region} {l1 l2 rs : List Region} {cursor : Nat}

theorem Laid.eq_withRegions (h : Laid map head)
    : map = map.withRegions map.regions map.vmaCursor := by
  have htree := h.tree
  unfold Pagemap.withRegions
  clear h
  cases map
  simp only at htree
  subst htree
  rfl

theorem Layout.laid (h : Layout head.node rs) (hhead : map.vmaHead = some head)
    (hcursor : cursor ∈ head.node :: rs.map Region.node)
    : Laid (map.withRegions rs cursor) head where
  sentinel := hhead
  layout := h
  tree := rfl
  cursor := hcursor

theorem link_eq (hnodes : (head.node :: (l1 ++ l2).map Region.node).Nodup)
    (hbefore : ∀ (a : Region), a ∈ l1 → a.start ≤ r.start)
    (hafter : ∀ (b : Region), b ∈ l2 → r.start < b.start)
    : linkRegion (map.withRegions (l1 ++ l2) cursor) head (lastOf head.node l1) r
        = map.withRegions (l1 ++ r :: l2) cursor := by
  unfold linkRegion Pagemap.withRegions
  simp only [rbInsert_eq hbefore hafter]
  cases l1 with
  | nil => simp [lastOf]
  | cons y l1 =>
    have hne : ¬lastOf head.node (y :: l1) = head.node := by
      intro heq
      have hmem : lastOf head.node (y :: l1) ∈ (y :: l1).map Region.node := by
        unfold lastOf
        cases hz : (y :: l1).getLast? with
        | none => simp at hz
        | some => exact List.mem_map_of_mem (List.mem_of_getLast? hz)
      rw [heq] at hmem
      apply (List.nodup_cons.mp hnodes).1
      rw [List.map_append]
      exact List.mem_append_left _ hmem
    rw [if_neg hne, insertAfter_eq hnodes (by simp)]

theorem unlink_eq (hnodes : ((l1 ++ x :: l2).map Region.node).Nodup)
    : unlinkRegion (map.withRegions (l1 ++ x :: l2) cursor) head x.node
        = map.withRegions (l1 ++ l2) (if cursor = x.node then lastOf head.node l1 else cursor) := by
  unfold unlinkRegion Pagemap.withRegions
  simp only [filter_node_eq hnodes, prevNode_eq hnodes]

theorem update_eq (hnodes : ((l1 ++ x :: l2).map Region.node).Nodup) (f : Region → Region)
    : updateRegion (map.withRegions (l1 ++ x :: l2) cursor) x.node f
        = map.withRegions (l1 ++ f x :: l2) cursor := by
  unfold updateRegion Pagemap.withRegions
  simp only [map_node_eq hnodes]

theorem cursor_unlink (hcursor : cursor ∈ head.node :: (l1 ++ x :: l2).map Region.node)
    : (if cursor = x.node then lastOf head.node l1 else cursor)
        ∈ head.node :: (l1 ++ l2).map Region.node := by
  split
  next =>
    have := lastOf_mem head.node l1
    simp only [List.mem_cons, List.map_append, List.mem_append] at this ⊢
    tauto
  next hne =>
    simp only [List.mem_cons, List.map_append, List.map_cons, List.mem_append] at hcursor ⊢
    tauto

end

def Covers (rs : List Region) (a : Nat) (f : BitVec 64) : Prop :=
  ∃ r ∈ rs, r.start ≤ a ∧ a < r.stop ∧ r.flags = f

structure Recut (head : Nat) (rs rs' : List Region) : Prop where
  layout : Layout head rs'
  covers : ∀ (a : Nat) (f : BitVec 64), Covers rs' a f ↔ Covers rs a f

section

variable {head : Nat} {l l1 l2 rs rs' : List Region} {r x : Region}

theorem Covers.append (a : Nat) (f : BitVec 64)
    : Covers (l1 ++ l2) a f ↔ Covers l1 a f ∨ Covers l2 a f := by
  unfold Covers
  simp only [List.mem_append]
  constructor
  . rintro ⟨r, hr | hr, h⟩
    . exact .inl ⟨r, hr, h⟩
    . exact .inr ⟨r, hr, h⟩
  . rintro (⟨r, hr, h⟩ | ⟨r, hr, h⟩)
    . exact ⟨r, .inl hr, h⟩
    . exact ⟨r, .inr hr, h⟩

theorem Covers.cons (a : Nat) (f : BitVec 64)
    : Covers (r :: l) a f ↔ (r.start ≤ a ∧ a < r.stop ∧ r.flags = f) ∨ Covers l a f := by
  unfold Covers
  simp only [List.mem_cons, exists_eq_or_imp]

theorem Layout.fresh (h : Layout head (l1 ++ r :: l2))
    : r.node ∉ head :: (l1 ++ l2).map Region.node := by
  have hp : (head :: (l1 ++ r :: l2).map Region.node).Perm
      (r.node :: head :: (l1 ++ l2).map Region.node) := by
    apply ((List.perm_middle.map Region.node).cons head).trans
    exact List.Perm.swap ..
  exact (List.nodup_cons.mp (hp.nodup_iff.mp h.nodes)).1

theorem Layout.join {a b : Region} (h : Layout head (l1 ++ a :: b :: l2))
    (htouch : a.stop = b.start) (hflags : b.flags = a.flags)
    : Recut head (l1 ++ a :: b :: l2)
        (l1 ++ { a with pageCount := a.pageCount + b.pageCount } :: l2) := by
  have hstop : Region.stop { a with pageCount := a.pageCount + b.pageCount } = b.stop := by
    unfold Region.stop at htouch ⊢
    rw [Nat.add_mul, ← Nat.add_assoc, htouch]
  have ha := h.ok a (by simp)
  have hb := h.ok b (by simp)
  have hrest : Layout head (l1 ++ l2) := h.sublist (by simp)
  have happ := List.pairwise_append.mp h.apart
  constructor
  case layout =>
    have hok : Region.Ok { a with pageCount := a.pageCount + b.pageCount } := by
      exact ⟨ha.aligned, Nat.add_pos_left ha.pos _, hstop ▸ hb.fits⟩
    apply hrest.insert hok
    . have hone : Layout head (l1 ++ a :: l2) := h.sublist (by simp)
      exact hone.fresh
    . intro y hy
      exact happ.2.2 y hy a (by simp)
    . intro y hy
      rw [hstop]
      exact (List.pairwise_cons.mp (List.pairwise_cons.mp happ.2.1).2).1 y hy
  case covers =>
    intro y f
    have hlt := ha.lt
    have hlt' := hb.lt
    simp only [Covers.append, Covers.cons, hstop, hflags]
    have : (a.start ≤ y ∧ y < b.stop ∧ a.flags = f)
        ↔ (a.start ≤ y ∧ y < a.stop ∧ a.flags = f) ∨ (b.start ≤ y ∧ y < b.stop ∧ a.flags = f) := by
      by_cases hf : a.flags = f
      . simp only [hf, and_true]
        omega
      . simp [hf]
    rw [this, or_assoc]

theorem Recut.refl (h : Layout head rs) : Recut head rs rs where
  layout := h
  covers := fun _ _ => Iff.rfl

theorem Recut.trans {rs'' : List Region} (h1 : Recut head rs rs') (h2 : Recut head rs' rs'')
    : Recut head rs rs'' where
  layout := h2.layout
  covers := fun a f => (h2.covers a f).trans (h1.covers a f)

end

section

variable {map : Pagemap} {head r x : Region} {l1 l2 rs : List Region} {cursor : Nat}

theorem Layout.map_nodup {n : Nat} (h : Layout n rs) : (rs.map Region.node).Nodup :=
  (List.nodup_cons.mp h.nodes).2

theorem join_eq (map : Pagemap) {a b : Region} (h : Layout head.node (l1 ++ a :: b :: l2))
    (hcursor : cursor ∈ head.node :: (l1 ++ a :: b :: l2).map Region.node)
    : ∃ cursor',
        unlinkRegion (updateRegion (map.withRegions (l1 ++ a :: b :: l2) cursor) a.node fun r =>
          { r with pageCount := a.pageCount + b.pageCount }) head b.node
          = map.withRegions (l1 ++ { a with pageCount := a.pageCount + b.pageCount } :: l2) cursor'
        ∧ cursor' ∈ head.node
          :: (l1 ++ { a with pageCount := a.pageCount + b.pageCount } :: l2).map Region.node := by
  have hnodes : ((l1 ++ a :: b :: l2).map Region.node).Nodup := h.map_nodup
  have hsplit : ∀ (y : Region), l1 ++ y :: b :: l2 = (l1 ++ [y]) ++ b :: l2 := by simp
  have hnodes' : (((l1 ++ [{ a with pageCount := a.pageCount + b.pageCount }]) ++ b :: l2).map
      Region.node).Nodup := by
    rw [← hsplit]
    simpa using hnodes
  have hcursor' : cursor ∈ head.node
      :: ((l1 ++ [{ a with pageCount := a.pageCount + b.pageCount }]) ++ b :: l2).map
      Region.node := by
    simpa using hcursor
  have hafter := cursor_unlink hcursor'
  rw [List.append_assoc, List.singleton_append] at hafter
  rw [update_eq hnodes, hsplit, unlink_eq hnodes', List.append_assoc, List.singleton_append]
  exact ⟨_, rfl, hafter⟩

theorem mergeNext_recut (map : Pagemap) (next : List Region)
    (h : Layout head.node (l1 ++ r :: next))
    (hcursor : cursor ∈ head.node :: (l1 ++ r :: next).map Region.node)
    : ∃ (r' : Region) (next' : List Region) (cursor' : Nat) (freed : List Nat),
        mergeNext (map.withRegions (l1 ++ r :: next) cursor) head r next
          = (r', map.withRegions (l1 ++ r' :: next') cursor', freed)
        ∧ Recut head.node (l1 ++ r :: next) (l1 ++ r' :: next')
        ∧ cursor' ∈ head.node :: (l1 ++ r' :: next').map Region.node := by
  induction next generalizing r cursor with
  | nil => exact ⟨r, [], cursor, [], rfl, .refl h, hcursor⟩
  | cons cur next ih =>
    unfold mergeNext
    split
    next hjoin =>
      obtain ⟨htouch, hflags⟩ := hjoin
      rw [(h.ok r (by simp)).regionEnd_eq] at htouch
      obtain ⟨cursor1, heq, hcursor1⟩ := join_eq map h hcursor
      have hrecut := h.join htouch hflags
      obtain ⟨r', next', cursor', freed, hmerge, hrecut', hcursor'⟩ := ih hrecut.layout hcursor1
      refine ⟨r', next', cursor', cur.node :: freed, ?_, hrecut.trans hrecut', hcursor'⟩
      simp only [heq, hmerge]
    next => exact ⟨r, cur :: next, cursor, [], rfl, .refl h, hcursor⟩

theorem mergePrev_recut (map : Pagemap) (before next : List Region)
    (h : Layout head.node (before.reverse ++ r :: next))
    (hcursor : cursor ∈ head.node :: (before.reverse ++ r :: next).map Region.node)
    : ∃ (rs : List Region) (cursor' : Nat) (freed : List Nat),
        mergePrev (map.withRegions (before.reverse ++ r :: next) cursor) head r before
          = (map.withRegions rs cursor', freed)
        ∧ Recut head.node (before.reverse ++ r :: next) rs
        ∧ cursor' ∈ head.node :: rs.map Region.node := by
  induction before generalizing r cursor with
  | nil => exact ⟨_, cursor, [], rfl, .refl h, hcursor⟩
  | cons prev before ih =>
    have hsplit : (prev :: before).reverse ++ r :: next = before.reverse ++ prev :: r :: next := by
      simp
    rw [hsplit] at h hcursor ⊢
    unfold mergePrev
    split
    next hjoin =>
      obtain ⟨htouch, hflags⟩ := hjoin
      rw [(h.ok prev (by simp)).regionEnd_eq] at htouch
      obtain ⟨cursor1, heq, hcursor1⟩ := join_eq map h hcursor
      have hrecut := h.join htouch hflags.symm
      obtain ⟨rs, cursor', freed, hmerge, hrecut', hcursor'⟩ := ih hrecut.layout hcursor1
      refine ⟨rs, cursor', r.node :: freed, ?_, hrecut.trans hrecut', hcursor'⟩
      simp only [heq, hmerge]
    next => exact ⟨_, cursor, [], rfl, .refl h, hcursor⟩

theorem mergeAt_laid (h : Laid map head) (hr : r ∈ map.regions)
    : Laid (mergeAt map head r).1 head
      ∧ Recut head.node map.regions (mergeAt map head r).1.regions := by
  obtain ⟨l1, l2, hregions⟩ := List.append_of_mem hr
  have hlayout := h.layout
  have hcursor := h.cursor
  have hnodes := h.layout.map_nodup
  rw [hregions] at hlayout hcursor hnodes
  have hother := other_nodes hnodes
  have htake : map.regions.takeWhile (fun x => x.node != r.node) = l1 := by
    rw [hregions, List.takeWhile_append_of_pos]
    . simp
    . intro a ha
      simpa using hother a (List.mem_append_left _ ha)
  have hdrop : (map.regions.dropWhile fun x => x.node != r.node).drop 1 = l2 := by
    rw [hregions, List.dropWhile_append_of_pos]
    . simp
    . intro a ha
      simpa using hother a (List.mem_append_left _ ha)
  obtain ⟨r', next', cursor1, freed1, hnext, hrecut1, hcursor1⟩ :=
    mergeNext_recut map l2 hlayout hcursor
  have hlayout1 := hrecut1.layout
  rw [← List.reverse_reverse l1] at hlayout1 hcursor1
  obtain ⟨rs, cursor2, freed2, hprev, hrecut2, hcursor2⟩ :=
    mergePrev_recut map l1.reverse next' hlayout1 hcursor1
  rw [List.reverse_reverse] at hprev hrecut2
  have heq : (mergeAt map head r).1 = map.withRegions rs cursor2 := by
    have hmap := h.eq_withRegions
    rw [hregions] at hmap
    rw [← hmap] at hnext
    unfold mergeAt
    simp only [htake, hdrop, hnext, hprev]
  rw [heq]
  refine ⟨hrecut2.layout.laid h.sentinel hcursor2, ?_⟩
  rw [hregions]
  exact hrecut1.trans hrecut2

theorem unlink_laid (h : Laid map head) (hr : r ∈ map.regions)
    : Laid (unlinkRegion map head r.node) head
      ∧ ∀ (x : Region), x ∈ (unlinkRegion map head r.node).regions ↔ x ∈ map.regions ∧ x ≠ r := by
  obtain ⟨l1, l2, hregions⟩ := List.append_of_mem hr
  have hlayout := h.layout
  have hcursor := h.cursor
  have hnodes := h.layout.map_nodup
  have hmap := h.eq_withRegions
  rw [hregions] at hlayout hcursor hnodes hmap
  have heq : unlinkRegion map head r.node = map.withRegions (l1 ++ l2)
      (if map.vmaCursor = r.node then lastOf head.node l1 else map.vmaCursor) := by
    conv_lhs => rw [hmap]
    exact unlink_eq hnodes
  rw [heq]
  constructor
  . apply Layout.laid _ h.sentinel (cursor_unlink hcursor)
    exact hlayout.sublist (by simp)
  . intro x
    have hother := other_nodes hnodes x
    simp only [Pagemap.withRegions, hregions, List.mem_append, List.mem_cons] at hother ⊢
    constructor
    . intro hx
      refine ⟨by tauto, ?_⟩
      rintro rfl
      exact hother hx rfl
    . rintro ⟨hx, hne⟩
      tauto

structure Fits (head : Nat) (r : Region) (l1 l2 : List Region) : Prop where
  ok : r.Ok
  fresh : r.node ∉ head :: (l1 ++ l2).map Region.node
  before : ∀ (a : Region), a ∈ l1 → a.stop ≤ r.start
  after : ∀ (b : Region), b ∈ l2 → r.stop ≤ b.start

theorem link_laid (h : Laid map head) (hregions : map.regions = l1 ++ l2)
    (hr : Fits head.node r l1 l2)
    : linkRegion map head (lastOf head.node l1) r = map.withRegions (l1 ++ r :: l2) map.vmaCursor
      ∧ Layout head.node (l1 ++ r :: l2) := by
  have hlayout := h.layout
  have hmap := h.eq_withRegions
  rw [hregions] at hlayout hmap
  constructor
  . conv_lhs => rw [hmap]
    apply link_eq hlayout.nodes
    . intro a ha
      have := hr.before a ha
      have := (hlayout.ok a (List.mem_append_left _ ha)).lt
      omega
    . intro b hb
      have := hr.after b hb
      have := hr.ok.lt
      omega
  . exact hlayout.insert hr.ok hr.fresh hr.before hr.after

theorem addAt_laid (h : Laid map head) (hr : Fits head.node r map.regions [])
    : Laid (addAt map head r).1 head
      ∧ ∀ (a : Nat) (f : BitVec 64), Covers (addAt map head r).1.regions a f
        ↔ Covers (r :: map.regions) a f := by
  have hlast : lastNode map head = lastOf head.node map.regions := rfl
  obtain ⟨heq, hlayout⟩ := link_laid h (List.append_nil _).symm hr
  unfold addAt
  rw [hlast, heq]
  have hlaid : Laid (map.withRegions (map.regions ++ [r]) map.vmaCursor) head := by
    apply hlayout.laid h.sentinel
    have := h.cursor
    simp only [List.mem_cons, List.map_append, List.mem_append] at this ⊢
    tauto
  have hmerge := mergeAt_laid hlaid (r := r) (by simp [Pagemap.withRegions])
  refine ⟨hmerge.1, ?_⟩
  intro a f
  rw [hmerge.2.covers a f]
  simp only [Pagemap.withRegions, Covers.append, Covers.cons]
  have hnil : ¬Covers [] a f := by simp [Covers]
  tauto

theorem placeAt_laid (h : Laid map head) (hregions : map.regions = l1 ++ l2)
    (hr : Fits head.node r l1 l2)
    : Laid (placeAt map head (lastOf head.node l1) r) head
      ∧ (placeAt map head (lastOf head.node l1) r).regions = l1 ++ r :: l2 := by
  obtain ⟨heq, hlayout⟩ := link_laid h hregions hr
  unfold placeAt
  rw [heq]
  refine ⟨?_, rfl⟩
  apply hlayout.laid h.sentinel
  simp

theorem Layout.split {n node split : Nat} (h : Layout n (l1 ++ r :: l2))
    (hnode : node ∉ n :: (l1 ++ r :: l2).map Region.node) (haligned : split % 4096 = 0)
    (hlo : r.start < split) (hhi : split < r.stop)
    : Recut n (l1 ++ r :: l2) (l1 ++ { r with pageCount := (split - r.start) / 4096 }
        :: { node, start := split, pageCount := (r.stop - split) / 4096,
             flags := r.flags } :: l2) := by
  have hok := h.ok r (by simp)
  have halign := hok.aligned
  have hfits := hok.fits
  have hpages : r.stop = r.start + r.pageCount * 4096 := rfl
  have hstop : Region.stop { r with pageCount := (split - r.start) / 4096 } = split := by
    unfold Region.stop
    simp only
    omega
  have htail : Region.stop
      { node, start := split, pageCount := (r.stop - split) / 4096,
        flags := r.flags } = r.stop := by
    conv_lhs => unfold Region.stop
    simp only
    omega
  have happ := List.pairwise_append.mp h.apart
  have hcons := List.pairwise_cons.mp happ.2.1
  have hrest : Layout n (l1 ++ l2) := h.sublist (by simp)
  have hfirst : Layout n (l1 ++ { r with pageCount := (split - r.start) / 4096 } :: l2) := by
    apply hrest.insert
    . refine ⟨halign, ?_, ?_⟩
      . simp only
        omega
      . rw [hstop]
        omega
    . exact h.fresh
    . exact fun a ha => happ.2.2 a ha r (by simp)
    . intro b hb
      have := hcons.1 b hb
      omega
  have hboth : Layout n ((l1 ++ [{ r with pageCount := (split - r.start) / 4096 }])
      ++ { node, start := split, pageCount := (r.stop - split) / 4096,
           flags := r.flags } :: l2) := by
    rw [← List.singleton_append, ← List.append_assoc] at hfirst
    apply hfirst.insert
    . refine ⟨haligned, ?_, ?_⟩
      . simp only
        omega
      . rw [htail]
        exact hfits
    . simpa using hnode
    . intro a ha
      rw [List.mem_append, List.mem_singleton] at ha
      cases ha with
      | inl hmem =>
        have := happ.2.2 a hmem r (by simp)
        simp only
        omega
      | inr heq =>
        subst heq
        exact Nat.le_of_eq hstop
    . intro b hb
      rw [htail]
      exact hcons.1 b hb
  rw [List.append_assoc, List.singleton_append] at hboth
  have hjoin := hboth.join hstop rfl
  have hsame : { r with pageCount := (split - r.start) / 4096 + (r.stop - split) / 4096 } = r := by
    have : (split - r.start) / 4096 + (r.stop - split) / 4096 = r.pageCount := by omega
    rw [this]
  constructor
  case layout => exact hboth
  case covers =>
    intro a f
    have := hjoin.covers a f
    simp only [hsame] at this
    exact this.symm

theorem link_after (h : Layout head.node (l1 ++ r :: l2)) (hlo : r.start ≤ x.start)
    (hafter : ∀ (b : Region), b ∈ l2 → x.start < b.start)
    : linkRegion (map.withRegions (l1 ++ r :: l2) cursor) head r.node x
        = map.withRegions (l1 ++ r :: x :: l2) cursor := by
  have hsplit : ∀ (l : List Region), l1 ++ r :: l = (l1 ++ [r]) ++ l := by simp
  have hlast : r.node = lastOf head.node (l1 ++ [r]) := (lastOf_concat ..).symm
  have hlt := List.pairwise_append.mp h.apart
  conv_lhs => rw [hlast]
  rw [hsplit l2, hsplit (x :: l2)]
  apply link_eq
  . rw [← hsplit]
    exact h.nodes
  . intro a ha
    rw [List.mem_append, List.mem_singleton] at ha
    cases ha with
    | inl hmem =>
      have := hlt.2.2 a hmem r (by simp)
      have := (h.ok a (List.mem_append_left _ hmem)).lt
      omega
    | inr heq => exact heq ▸ hlo
  . exact hafter

theorem splitAt_laid (h : Laid map head) (hr : r ∈ map.regions) {splitAddr split node : Nat}
    (hsplit : splitPoint r splitAddr = some split)
    (hnode : node ∉ head.node :: map.regions.map Region.node)
    : Laid (splitAt map head r split node) head
      ∧ Recut head.node map.regions (splitAt map head r split node).regions
      ∧ { r with pageCount := (split - r.start) / 4096 }
          ∈ (splitAt map head r split node).regions := by
  obtain ⟨l1, l2, hregions⟩ := List.append_of_mem hr
  have hlayout := h.layout
  have hmap := h.eq_withRegions
  have hcursor := h.cursor
  have hok := h.layout.ok r hr
  rw [hregions] at hlayout hmap hcursor hnode
  unfold splitPoint at hsplit
  simp only [hok.regionEnd_eq] at hsplit
  split at hsplit
  next => cases hsplit
  next hinside =>
    rw [not_or, Nat.not_le, ge_iff_le, Nat.not_le] at hinside
    injection hsplit with hsplit
    rw [hsplit] at hinside
    have hrecut := hlayout.split hnode (by omega) hinside.1 hinside.2
    have heq : splitAt map head r split node
        = map.withRegions (l1 ++ { r with pageCount := (split - r.start) / 4096 }
            :: { node, start := split, pageCount := (r.stop - split) / 4096,
                 flags := r.flags } :: l2)
          map.vmaCursor := by
      unfold splitAt
      rw [hok.regionEnd_eq]
      conv_lhs => rw [hmap]
      simp only
      rw [link_after hlayout]
      . apply update_eq
        simpa using hrecut.layout.map_nodup
      . exact Nat.le_of_lt hinside.1
      . intro b hb
        have hrest := List.pairwise_cons.mp (List.pairwise_append.mp hlayout.apart).2.1
        exact Nat.lt_of_lt_of_le hinside.2 (hrest.1 b hb)
    rw [heq, hregions]
    refine ⟨hrecut.layout.laid h.sentinel ?_, hrecut, List.mem_append_right _ List.mem_cons_self⟩
    simp only [List.map_append, List.map_cons, List.mem_cons, List.mem_append] at hcursor ⊢
    tauto

end

end VMM
