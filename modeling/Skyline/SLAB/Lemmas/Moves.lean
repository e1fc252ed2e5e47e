import Skyline.SLAB.Impl
import Skyline.Places.Basic

/-!
This module contains the invariant of the SLAB allocator and the moves of objects between its lists.
-/

namespace SLAB

open Function

variable {s s' : State} {c d p q o cpu : Nat} {k : Kind} {batch batch' : List Nat}
  {kind : Nat → Kind}

theorem objectsPer_pos (hc : c < maxSlabOrder) : 0 < objectsPer c := by
  simp only [maxSlabOrder] at hc
  interval_cases c <;> decide

theorem objSize_pos : 0 < objSize c := by
  unfold objSize
  rw [Nat.shiftLeft_eq]
  exact Nat.mul_pos (by decide) (Nat.two_pow_pos c)

theorem slots_fit (hc : c < maxSlabOrder) : headerSize c + objectsPer c * objSize c ≤ pageSize := by
  simp only [maxSlabOrder] at hc
  interval_cases c <;> decide

theorem length_slots : (slots c p).length = objectsPer c := by
  simp [slots]

theorem nodup_slots : (slots c p).Nodup := by
  unfold slots
  apply List.Nodup.map
  . intro i j hij
    have hmul : i * objSize c = j * objSize c := by
      simp only at hij
      omega
    exact Nat.eq_of_mul_eq_mul_right objSize_pos hmul
  . exact List.nodup_range

theorem mem_slots : o ∈ slots c p ↔ ∃ i < objectsPer c, p + (headerSize c + i * objSize c) = o := by
  simp [slots]

theorem slot_bounds (hc : c < maxSlabOrder) (ho : o ∈ slots c p)
    : p + headerSize c ≤ o ∧ o + objSize c ≤ p + pageSize
      ∧ (o - p - headerSize c) % objSize c = 0 := by
  rw [mem_slots] at ho
  obtain ⟨i, hi, rfl⟩ := ho
  have hfit := slots_fit hc
  have hle : (i + 1) * objSize c ≤ objectsPer c * objSize c := Nat.mul_le_mul_right _ hi
  rw [Nat.add_mul, Nat.one_mul] at hle
  refine ⟨by omega, by omega, ?_⟩
  have hsub : p + (headerSize c + i * objSize c) - p - headerSize c = i * objSize c := by omega
  rw [hsub]
  exact Nat.mul_mod_left i (objSize c)

theorem pageOf_slot (hc : c < maxSlabOrder) (hp : p % pageSize = 0) (ho : o ∈ slots c p)
    : pageOf o = p := by
  have hbounds := slot_bounds hc ho
  have hpos : 0 < objSize c := objSize_pos
  unfold pageOf
  simp only [pageSize] at *
  omega

theorem slabFpOk_slot (hc : c < maxSlabOrder) (ho : o ∈ slots c p) : slabFpOk c p (some o) := by
  have hbounds := slot_bounds hc ho
  simp only [slabFpOk, Bool.and_eq_true, decide_eq_true_eq]
  refine ⟨⟨⟨?_, ?_⟩, ?_⟩, hbounds.2.2⟩ <;> omega

def State.around (s : State) (batch : List Nat) : Option Place → List Nat
  | none => batch
  | some pl => s.items pl

def State.Holds (s : State) (c : Nat) : Option Place → Nat → Prop
  | none, o => (s.page (pageOf o)).cache = c
  | some .live, _ => True
  | some (.magazine _ d), o => (s.page (pageOf o)).cache = d
  | some (.globalFree d), o => (s.page (pageOf o)).cache = d
  | some (.page p), o => pageOf o = p

structure Objects (s : State) (c : Nat) (batch : List Nat) : Prop where
  apart : Apart (s.around batch)
  slots : ∀ o, (∃ pl, o ∈ s.around batch pl) ↔ ∃ p ∈ s.taken, o ∈ slots (s.page p).cache p
  holds : ∀ pl o, o ∈ s.around batch pl → s.Holds c pl o

structure Lists (s : State) (kind : Nat → Kind) : Prop where
  mem_iff : ∀ c < maxSlabOrder, ∀ k q, q ∈ (s.cache c).pages k ↔
    q ∈ s.taken ∧ q ∉ s.lost ∧ (s.page q).cache = c ∧ kind q = k
  nodup : ∀ c < maxSlabOrder, ∀ k, ((s.cache c).pages k).Nodup
  emptyCount : ∀ c < maxSlabOrder, (s.cache c).emptyCount = (s.cache c).empty.length
  total : ∀ c < maxSlabOrder, (s.cache c).totalPages
    = (s.cache c).partialList.length + (s.cache c).full.length + (s.cache c).empty.length
      + s.lost.countP fun q => (s.page q).cache = c

structure Header (pg : Page) (p : Nat) : Prop where
  aligned : p % pageSize = 0
  magic : pg.magic = slabPageMagic
  cache : pg.cache < maxSlabOrder
  objects : pg.objects = objectsPer pg.cache
  inuse : pg.inuse + pg.freelist.length = pg.objects

def State.kinds (s : State) (p : Nat) : Kind := (s.page p).kind

structure OkWith (kind : Nat → Kind) (s : State) (c : Nat) (batch : List Nat) : Prop where
  objects : Objects s c batch
  lists : Lists s kind
  header : ∀ p ∈ s.taken, Header (s.page p) p
  lost : ∀ p ∈ s.lost, p ∈ s.taken ∧ (s.page p).inuse = 0
  pool : s.pool = []
  globalFree : ∀ d, (s.cache d).globalFreeCount = (s.cache d).globalFreeList.length
  magazine : ∀ cpu d, (s.magazine cpu d).count = (s.magazine cpu d).freelist.length
  large : ∀ b ∈ s.large, b.1 ∉ s.taken ∧ b.1 % pageSize = 0 ∧ (s.page b.1).magic = largePageMagic

abbrev Ok (s : State) (c : Nat) (batch : List Nat) : Prop := OkWith s.kinds s c batch

structure Grown (answers : List Nat) (s s' : State) : Prop where
  live : s'.live = s.live
  large : s'.large = s.large
  lost : s'.lost = s.lost
  taken : ∀ q ∈ s'.taken, q ∈ s.taken ∨ q ∈ answers
  cache : ∀ q ∈ s.taken, q ∈ s'.taken ∧ (s'.page q).cache = (s.page q).cache

namespace Grown

variable {t : State} {answers answers' : List Nat}

theorem refl : Grown answers s s := ⟨rfl, rfl, rfl, fun _ hq => .inl hq, fun _ hq => ⟨hq, rfl⟩⟩

theorem trans (h : Grown answers s t) (h' : Grown answers' t s') (hsub : answers' ⊆ answers)
    : Grown answers s s' := by
  refine ⟨h'.live.trans h.live, h'.large.trans h.large, h'.lost.trans h.lost, ?_, ?_⟩
  . intro q hq
    cases h'.taken q hq with
    | inl hin => exact h.taken q hin
    | inr hin => exact .inr (hsub hin)
  . intro q hq
    obtain ⟨hin, hcache⟩ := h.cache q hq
    obtain ⟨hin', hcache'⟩ := h'.cache q hin
    exact ⟨hin', hcache'.trans hcache⟩

theorem setCache (h : Grown answers s s') (k : Cache) : Grown answers s (s'.setCache c k) :=
  ⟨h.live, h.large, h.lost, h.taken, h.cache⟩

end Grown

namespace Objects

theorem cast (h : Objects s c []) (d : Nat) : Objects s d [] := by
  refine ⟨h.apart, h.slots, ?_⟩
  intro pl o ho
  have hold := h.holds pl o ho
  cases pl with
  | none => cases ho
  | some pl => cases pl <;> exact hold

theorem holds_congr (hcache : ∀ p, (s'.page p).cache = (s.page p).cache) {pl : Option Place}
    : s'.Holds c pl o ↔ s.Holds c pl o := by
  rcases pl with _ | _ | _ | _ | _ <;> simp only [State.Holds, hcache]

theorem moved (h : Objects s c batch) (o : Nat) (i j : Option Place) (htaken : s'.taken = s.taken)
    (hcache : ∀ p, (s'.page p).cache = (s.page p).cache)
    (hm : Moved (s.around batch) (s'.around batch') o i j) (hj : s.Holds c j o)
    : Objects s' c batch' := by
  refine ⟨hm.apart h.apart, ?_, ?_⟩
  . intro b
    rw [hm.exists_mem_iff, h.slots b, htaken]
    simp only [hcache]
  . intro pl b hb
    rw [holds_congr hcache]
    cases hm.mem hb with
    | inl hmem => exact h.holds pl b hmem
    | inr heq =>
      rw [heq.1, heq.2]
      exact hj

theorem of_mem_batch (h : Objects s c batch) (ho : o ∈ batch) : (s.page (pageOf o)).cache = c :=
  h.holds none o ho

end Objects

namespace Ok

theorem cast (h : Ok s c []) (d : Nat) : Ok s d [] :=
  { h with objects := h.objects.cast d }

end Ok

theorem OkWith.page_of_mem (h : OkWith kind s c batch) (pl : Option Place)
    (ho : o ∈ s.around batch pl)
    : pageOf o ∈ s.taken ∧ o ∈ slots (s.page (pageOf o)).cache (pageOf o) := by
  obtain ⟨p, hp, hslot⟩ := (h.objects.slots o).mp ⟨pl, ho⟩
  have hheader := h.header p hp
  rw [pageOf_slot hheader.cache hheader.aligned hslot]
  exact ⟨hp, hslot⟩

structure Same (s s' : State) : Prop where
  page : s'.page = s.page
  pool : s'.pool = s.pool
  taken : s'.taken = s.taken
  lost : s'.lost = s.lost
  large : s'.large = s.large
  pages : ∀ c k, (s'.cache c).pages k = (s.cache c).pages k
  emptyCount : ∀ c, (s'.cache c).emptyCount = (s.cache c).emptyCount
  totalPages : ∀ c, (s'.cache c).totalPages = (s.cache c).totalPages

theorem Lists.same (h : Lists s kind) (hsame : Same s s') : Lists s' kind := by
  have hpartial := fun c => hsame.pages c .part
  have hfull := fun c => hsame.pages c .full
  have hempty := fun c => hsame.pages c .empty
  simp only [Cache.pages] at hpartial hfull hempty
  constructor
  . intro c hc k q
    rw [hsame.pages, h.mem_iff c hc, hsame.taken, hsame.lost, hsame.page]
  . intro c hc k
    rw [hsame.pages]
    exact h.nodup c hc k
  . intro c hc
    rw [hsame.emptyCount, hempty]
    exact h.emptyCount c hc
  . intro c hc
    rw [hsame.totalPages, hpartial, hfull, hempty, hsame.lost, hsame.page]
    exact h.total c hc

theorem Ok.moved (h : Ok s c batch) (o : Nat) (i j : Option Place) (hsame : Same s s')
    (hm : Moved (s.around batch) (s'.around batch') o i j) (hj : s.Holds c j o)
    (hglobal : ∀ d, (s'.cache d).globalFreeCount = (s'.cache d).globalFreeList.length)
    (hmagazine : ∀ cpu d, (s'.magazine cpu d).count = (s'.magazine cpu d).freelist.length)
    : Ok s' c batch' := by
  have hkinds : s'.kinds = s.kinds := by
    unfold State.kinds
    rw [hsame.page]
  constructor
  . apply h.objects.moved o i j hsame.taken _ hm hj
    intro p
    rw [hsame.page]
  . rw [hkinds]
    exact h.lists.same hsame
  . rw [hsame.taken, hsame.page]
    exact h.header
  . rw [hsame.lost, hsame.taken, hsame.page]
    exact h.lost
  . rw [hsame.pool]
    exact h.pool
  . exact hglobal
  . exact hmagazine
  . rw [hsame.large, hsame.taken, hsame.page]
    exact h.large

variable {rest : List Nat}

theorem setMagazine_magazine (s : State) (cpu c : Nat) (m : Magazine) (i d : Nat)
    : (s.setMagazine cpu c m).magazine i d = if i = cpu ∧ d = c then m else s.magazine i d := by
  simp only [State.setMagazine, update_apply]
  split
  next hi =>
    rw [update_apply]
    simp [hi]
  next hi => simp [hi]

theorem setCache_cache (s : State) (c : Nat) (k : Cache) (d : Nat)
    : (s.setCache c k).cache d = if d = c then k else s.cache d := by
  simp [State.setCache, update_apply]

theorem setPage_page (s : State) (p : Nat) (pg : Page) (q : Nat)
    : (s.setPage p pg).page q = if q = p then pg else s.page q := by
  simp [State.setPage, update_apply]

theorem same_setMagazine (m : Magazine) : Same s (s.setMagazine cpu c m) :=
  ⟨rfl, rfl, rfl, rfl, rfl, fun _ _ => rfl, fun _ => rfl, fun _ => rfl⟩

theorem around_setMagazine (m : Magazine) {k : Option Place} (hk : k ≠ some (.magazine cpu c))
    (hnone : k ≠ none)
    : (s.setMagazine cpu c m).around batch' k = s.around batch k := by
  rcases k with _ | _ | ⟨i, d⟩ | _ | _
  . exact absurd rfl hnone
  . rfl
  . have hne : ¬ (i = cpu ∧ d = c) := by
      intro heq
      rw [heq.1, heq.2] at hk
      exact hk rfl
    simp [State.around, State.items, setMagazine_magazine, hne]
  . rfl
  . rfl

theorem magazine_setMagazine {m : Magazine} (hm : m.count = m.freelist.length)
    (h : ∀ i d, (s.magazine i d).count = (s.magazine i d).freelist.length) (i d : Nat)
    : ((s.setMagazine cpu c m).magazine i d).count
        = ((s.setMagazine cpu c m).magazine i d).freelist.length := by
  rw [setMagazine_magazine]
  split
  . exact hm
  . exact h i d

theorem same_setCache {k : Cache} (hpages : ∀ l, k.pages l = (s.cache c).pages l)
    (hempty : k.emptyCount = (s.cache c).emptyCount)
    (htotal : k.totalPages = (s.cache c).totalPages)
    : Same s (s.setCache c k) := by
  refine ⟨rfl, rfl, rfl, rfl, rfl, ?_, ?_, ?_⟩
  . intro d l
    rw [setCache_cache]
    split
    next heq => rw [hpages, heq]
    next => rfl
  . intro d
    rw [setCache_cache]
    split
    next heq => rw [hempty, heq]
    next => rfl
  . intro d
    rw [setCache_cache]
    split
    next heq => rw [htotal, heq]
    next => rfl

theorem around_setCache (l : Cache) {k : Option Place} (hk : k ≠ some (.globalFree c))
    (hnone : k ≠ none)
    : (s.setCache c l).around batch' k = s.around batch k := by
  rcases k with _ | _ | _ | d | _
  . exact absurd rfl hnone
  . rfl
  . rfl
  . have hne : d ≠ c := by
      intro heq
      rw [heq] at hk
      exact hk rfl
    simp [State.around, State.items, setCache_cache, hne]
  . rfl

theorem globalFree_setCache {k : Cache} (hk : k.globalFreeCount = k.globalFreeList.length)
    (h : ∀ d, (s.cache d).globalFreeCount = (s.cache d).globalFreeList.length) (d : Nat)
    : ((s.setCache c k).cache d).globalFreeCount
      = ((s.setCache c k).cache d).globalFreeList.length := by
  rw [setCache_cache]
  split
  . exact hk
  . exact h d

namespace Ok

section

variable (h : Ok s c batch)
include h

theorem pushMagazine (cpu : Nat) (hb : batch.Perm (o :: batch'))
    : Ok (pushMagazine cpu c s o) c batch' := by
  have ho : o ∈ batch := hb.mem_iff.mpr List.mem_cons_self
  refine h.moved o none (some (.magazine cpu c)) (same_setMagazine _) ?_ ?_ h.globalFree ?_
  . refine ⟨nofun, hb, ?_, ?_⟩
    . simp only [SLAB.pushMagazine, State.around, State.items, setMagazine_magazine,
        and_self, if_true]
      exact List.Perm.refl _
    . exact fun k hi hj => around_setMagazine _ hj hi
  . exact h.objects.of_mem_batch ho
  . apply magazine_setMagazine _ h.magazine
    simp [h.magazine]

theorem setMagazine (hm : (s.magazine cpu c).freelist = o :: rest)
    (hb : batch'.Perm (o :: batch))
    : Ok (s.setMagazine cpu c ⟨rest, (s.magazine cpu c).count - 1⟩) c batch' := by
  have ho : o ∈ s.around batch (some (.magazine cpu c)) := by
    simp only [State.around, State.items, hm]
    exact List.mem_cons_self
  refine h.moved o (some (.magazine cpu c)) none (same_setMagazine _) ?_ ?_ h.globalFree ?_
  . refine ⟨nofun, ?_, hb, ?_⟩
    . simp only [State.around, State.items, setMagazine_magazine, and_self, if_true, hm]
      exact List.Perm.refl _
    . exact fun k hi hj => around_setMagazine _ hi hj
  . exact h.objects.holds (some (.magazine cpu c)) o ho
  . apply magazine_setMagazine _ h.magazine
    simp [h.magazine, hm]

theorem pushGlobal (hb : batch.Perm (o :: batch'))
    : Ok (pushGlobal c s o) c batch' := by
  have ho : o ∈ batch := hb.mem_iff.mpr List.mem_cons_self
  refine h.moved o none (some (.globalFree c)) (same_setCache ?_ rfl rfl) ?_ ?_ ?_ h.magazine
  . intro l
    cases l <;> rfl
  . refine ⟨nofun, hb, ?_, ?_⟩
    . simp only [SLAB.pushGlobal, State.around, State.items, setCache_cache, if_true]
      exact List.Perm.refl _
    . exact fun k hi hj => around_setCache _ hj hi
  . exact h.objects.of_mem_batch ho
  . apply globalFree_setCache _ h.globalFree
    simp [h.globalFree]

theorem popGlobal (hk : (s.cache c).globalFreeList = o :: rest)
    (hb : batch'.Perm (o :: batch))
    : Ok (s.setCache c
        { s.cache c with
          globalFreeList := rest
          globalFreeCount := (s.cache c).globalFreeCount - 1 }) c batch' := by
  have ho : o ∈ s.around batch (some (.globalFree c)) := by
    simp only [State.around, State.items, hk]
    exact List.mem_cons_self
  refine h.moved o (some (.globalFree c)) none (same_setCache ?_ rfl rfl) ?_ ?_ ?_ h.magazine
  . intro l
    cases l <;> rfl
  . refine ⟨nofun, ?_, hb, ?_⟩
    . simp only [State.around, State.items, setCache_cache, if_true, hk]
      exact List.Perm.refl _
    . exact fun k hi hj => around_setCache _ hi hj
  . exact h.objects.holds (some (.globalFree c)) o ho
  . apply globalFree_setCache _ h.globalFree
    simp [h.globalFree, hk]

end

theorem around_live (live : List Nat) {k : Option Place} (hk : k ≠ some .live) (hnone : k ≠ none)
    : ({ s with live := live } : State).around batch' k = s.around batch k := by
  rcases k with _ | _ | _ | _ | _
  . exact absurd rfl hnone
  . exact absurd rfl hk
  . rfl
  . rfl
  . rfl

theorem same_live (live : List Nat) : Same s { s with live := live } :=
  ⟨rfl, rfl, rfl, rfl, rfl, fun _ _ => rfl, fun _ => rfl, fun _ => rfl⟩

theorem handOut (h : Ok s c batch) (hb : batch.Perm (o :: batch'))
    : Ok { s with live := o :: s.live } c batch' := by
  refine h.moved o none (some .live) (same_live _) ?_ trivial h.globalFree h.magazine
  exact ⟨nofun, hb, List.Perm.refl _, fun k hi hj => around_live _ hj hi⟩

theorem takeBack (h : Ok s c []) (ho : o ∈ s.live)
    : Ok { s with live := s.live.erase o } (s.page (pageOf o)).cache [o] := by
  refine (h.cast _).moved o (some .live) none (same_live _) ?_ rfl h.globalFree h.magazine
  exact ⟨nofun, List.perm_cons_erase ho, List.Perm.refl _, fun k hi hj => around_live _ hi hj⟩

theorem foldl_pushMagazine (hand : List Nat) (cpu : Nat) (h : Ok s c (hand ++ batch))
    : Ok (batch.foldl (SLAB.pushMagazine cpu c) s) c hand := by
  induction batch generalizing s with
  | nil => rwa [List.append_nil] at h
  | cons _ _ ih => exact ih (h.pushMagazine cpu List.perm_middle)

theorem foldl_pushGlobal (hand : List Nat) (h : Ok s c (hand ++ batch))
    : Ok (batch.foldl (SLAB.pushGlobal c) s) c hand := by
  induction batch generalizing s with
  | nil => rwa [List.append_nil] at h
  | cons _ _ ih => exact ih (h.pushGlobal List.perm_middle)

theorem popMagazine (h : Ok s c batch) (cpu n : Nat)
    : Ok (popMagazine cpu c n s batch).2 c (SLAB.popMagazine cpu c n s batch).1 := by
  induction n generalizing s batch with
  | zero => exact h
  | succ _ ih =>
    simp only [SLAB.popMagazine]
    split
    next => exact h
    next o rest hm => exact ih (h.setMagazine hm (List.perm_append_singleton o batch))

end Ok

end SLAB
