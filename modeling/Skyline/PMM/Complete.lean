import Skyline.PMM.Scan

/-!
This module contains for which states of the manager a request for `n` pages finds a run of free
pages whenever there is one.
-/

namespace PMM

variable {s : State} {n : Nat}

def Straddles (b n hint : Nat) : Prop :=
  b < hint ∧ hint < b + n

instance (b n hint : Nat) : Decidable (Straddles b n hint) :=
  inferInstanceAs (Decidable (_ ∧ _))

theorem scanAround_eq_none_iff (hs : Levels s) (start hint stop : Nat) (hn : 0 < n)
    (hstart : start ≤ hint) (hhint : hint ≤ stop) (hstop : stop ≤ s.bitmapPages)
    : (scanAround s start hint stop n).1 = none ↔
      ∀ (b : Nat), FreeRun s start stop n b → Straddles b n hint := by
  have hup := scanForRun_finds hs hint stop n hn hstop
  have hdown := scanForRun_finds hs start hint n hn (by omega)
  have hstate := (scanForRun_ok hs hint stop n hstop).state_eq
  unfold scanAround
  generalize scanForRun s hint stop n = res at hup hstate
  match res with
  | (some bit, t) =>
    refine iff_of_false (fun h => nomatch h) fun h => ?_
    have hrun := (hup.found bit rfl).left
    have hin := h bit ⟨Nat.le_trans hstart hrun.start_le, hrun.stop_le, hrun.free⟩
    have := hrun.start_le
    have := hin.left
    omega
  | (none, t) =>
    have ht : t = s := hstate
    subst ht
    have hupper := hup.none rfl
    -- a run that the upper scan misses starts below the hint
    have hlow : ∀ (b : Nat), FreeRun t start stop n b → b < hint := by
      intro b hb
      rcases Nat.lt_or_ge b hint with hlt | hge
      . exact hlt
      . exact absurd ⟨hge, hb.stop_le, hb.free⟩ (hupper b)
    dsimp only
    split
    . generalize (scanForRun t start hint n).1 = low at hdown
      cases low with
      | none =>
        refine iff_of_true rfl fun b hb => ⟨hlow b hb, ?_⟩
        rcases Nat.lt_or_ge hint (b + n) with hlt | hge
        . exact hlt
        . exact absurd ⟨hb.start_le, hge, hb.free⟩ (hdown.none rfl b)
      | some bit =>
        refine iff_of_false (fun h => nomatch h) fun h => ?_
        have hrun := (hdown.found bit rfl).left
        have hin := h bit ⟨hrun.start_le, Nat.le_trans hrun.stop_le hhint, hrun.free⟩
        have := hrun.stop_le
        have := hin.right
        omega
    . refine iff_of_true rfl fun b hb => ?_
      have h1 := hlow b hb
      have h2 := hb.start_le
      omega

def shardHint (s : State) (si : Nat) : Nat :=
  let shard := s.shards si
  if shard.hint < shard.firstPage ∨ shard.hint > shard.firstPage + shard.npages then shard.firstPage
    else shard.hint

def globalHint (s : State) : Nat :=
  if s.slowHint > s.bitmapPages then s.bitmapPages else s.slowHint

def SeenInShard (s : State) (n si b : Nat) : Prop :=
  let shard := s.shards si
  n ≤ shard.freePages ∧ FreeRun s shard.firstPage (shard.firstPage + shard.npages) n b ∧
    ¬Straddles b n (shardHint s si)

def SeenGlobally (s : State) (n b : Nat) : Prop :=
  FreeRun s 0 s.bitmapPages n b ∧ ¬Straddles b n (globalHint s)

def Seen (s : State) (n : Nat) : Prop :=
  (n ≤ 524288 ∧ ∃ (si : Nat), si < s.shardCount ∧ ∃ (b : Nat), SeenInShard s n si b) ∨
    ∃ (b : Nat), SeenGlobally s n b

theorem shard_end_le (h : Levels s) {si : Nat} (hsi : si < s.shardCount)
    : (s.shards si).firstPage + (s.shards si).npages ≤ s.bitmapPages := by
  have := h.firstPage_eq si
  have := h.npages_eq si
  have := h.totalL2Bits_eq
  have := h.totalL3Bits_eq
  have := h.shardCount_eq
  omega

theorem allocInShardLocked_eq_none_iff (h : Levels s) (si : Nat) (hsi : si < s.shardCount)
    (hn : 0 < n)
    : (allocInShardLocked s si n).1 = none ↔ ¬∃ (b : Nat), SeenInShard s n si b := by
  have hend := shard_end_le h hsi
  have hhint : (s.shards si).firstPage ≤ shardHint s si ∧
      shardHint s si ≤ (s.shards si).firstPage + (s.shards si).npages := by
    unfold shardHint
    dsimp only
    split <;> omega
  have hscan := scanAround_eq_none_iff h (s.shards si).firstPage (shardHint s si)
    ((s.shards si).firstPage + (s.shards si).npages) hn hhint.left hhint.right hend
  have halloc : (allocInShardLocked s si n).1 = none ↔ (s.shards si).freePages < n ∨
      (scanAround s (s.shards si).firstPage (shardHint s si)
        ((s.shards si).firstPage + (s.shards si).npages) n).1 = none := by
    unfold allocInShardLocked
    dsimp only
    split
    . next hlt => exact iff_of_true rfl (.inl hlt)
    . next hge =>
      rw [or_iff_right hge]
      show _ ↔ (scanAround s (s.shards si).firstPage (if _ then _ else _) _ n).1 = none
      split
      . next hres => rw [hres]
      . next hres => rw [hres]; exact iff_of_false (fun h => nomatch h) fun h => nomatch h
  rw [halloc, hscan]
  unfold SeenInShard
  dsimp only
  constructor
  . rintro (hlt | hall) ⟨b, hfree, hrun, hout⟩
    . omega
    . exact hout (hall b hrun)
  . intro hnone
    rcases Nat.lt_or_ge (s.shards si).freePages n with hlt | hge
    . exact .inl hlt
    . refine .inr fun b hb => ?_
      by_contra hout
      exact hnone ⟨b, hge, hb, hout⟩

theorem allocGlobalSlowpath_eq_none_iff (h : Levels s) (hn : 0 < n)
    : (allocGlobalSlowpath s n).1 = none ↔ ¬∃ (b : Nat), SeenGlobally s n b := by
  have hhint : globalHint s ≤ s.bitmapPages := by
    unfold globalHint
    split <;> omega
  have hscan := scanAround_eq_none_iff h 0 (globalHint s) s.bitmapPages hn
    (Nat.zero_le _) hhint (Nat.le_refl _)
  have hslow : (allocGlobalSlowpath s n).1 = none
      ↔ (scanAround s 0 (globalHint s) s.bitmapPages n).1 = none := by
    unfold allocGlobalSlowpath
    show _ ↔ (scanAround s 0 (if _ then _ else _) s.bitmapPages n).1 = none
    dsimp only
    split
    . next hres => rw [hres]
    . next hres => rw [hres]; exact iff_of_false (fun h => nomatch h) fun h => nomatch h
  rw [hslow, hscan]
  unfold SeenGlobally
  constructor
  . rintro hall ⟨b, hrun, hout⟩
    exact hout (hall b hrun)
  . intro hnone b hb
    by_contra hout
    exact hnone ⟨b, hb, hout⟩

theorem exists_shardAt (s : State) (first : Nat) (hfirst : first < s.shardCount) {si : Nat}
    (hsi : si < s.shardCount)
    : ∃ (t : Nat), t < s.shardCount ∧ shardAt s first t = si := by
  rcases Nat.lt_or_ge si first with hlt | hge
  . refine ⟨si + s.shardCount - first, by omega, ?_⟩
    unfold shardAt
    rw [if_pos (by omega)]
    omega
  . refine ⟨si - first, by omega, ?_⟩
    unfold shardAt
    rw [if_neg (by omega)]
    omega

section

variable (h : Levels s) (first t : Nat) (hsi : shardAt s first t < s.shardCount)
include h first t hsi

theorem requestFrom_same
    (hnone : (requestShared.requestFrom n first t s).1 = none)
    : (requestShared.requestFrom n first t s).2 = s := by
  have hok := allocInShardLocked_ok h (shardAt s first t) n hsi
  unfold requestShared.requestFrom at hnone ⊢
  dsimp only at hnone ⊢
  split
  . rfl
  . next hge =>
    rw [if_neg hge] at hnone
    generalize allocInShardLocked s (shardAt s first t) n = res at hok hnone
    match res with
    | (none, s') => exact hok
    | (some page, s') => cases hnone

theorem requestFrom_eq_none_iff (hn : 0 < n)
    : (requestShared.requestFrom n first t s).1 = none
      ↔ ¬∃ (b : Nat), SeenInShard s n (shardAt s first t) b := by
  rw [← allocInShardLocked_eq_none_iff h _ hsi hn]
  unfold requestShared.requestFrom
  dsimp only
  split
  . next hlt =>
    refine iff_of_true rfl ?_
    unfold allocInShardLocked
    rw [if_pos hlt]
  . generalize allocInShardLocked s (shardAt s first t) n = res
    match res with
    | (none, s') => rfl
    | (some page, s') => exact iff_of_false (fun h => nomatch h) fun h => nomatch h

end

theorem Levels.rrSeq (h : Levels s) (r : Nat) : Levels { s with rrSeq := r } :=
  h.of_maps_eq (by constructor <;> simp) rfl rfl rfl rfl

theorem freeRun_rrSeq (s : State) (r start stop n b : Nat)
    : FreeRun { s with rrSeq := r } start stop n b ↔ FreeRun s start stop n b :=
  ⟨fun h => ⟨h.start_le, h.stop_le, h.free⟩, fun h => ⟨h.start_le, h.stop_le, h.free⟩⟩

theorem seenInShard_rrSeq (s : State) (r n si b : Nat)
    : SeenInShard { s with rrSeq := r } n si b ↔ SeenInShard s n si b := by
  unfold SeenInShard
  dsimp only
  rw [freeRun_rrSeq]
  rfl

theorem seenGlobally_rrSeq (s : State) (r n b : Nat)
    : SeenGlobally { s with rrSeq := r } n b ↔ SeenGlobally s n b := by
  unfold SeenGlobally
  rw [freeRun_rrSeq]
  rfl

theorem requestShared_eq_none_iff (h : Levels s) (hn : 0 < n)
    : (requestShared s n).1 = none ↔ ¬Seen s n := by
  unfold requestShared Seen
  split
  . next hle =>
    have ht := h.rrSeq (fetchAdd s.rrSeq 1)
    have hfirst : s.rrSeq % s.shardCount < s.shardCount := Nat.mod_lt _ h.shardCount_pos
    generalize hfs : s.rrSeq % s.shardCount = first at hfirst
    have hrr : shardRrFirst s = (first, { s with rrSeq := fetchAdd s.rrSeq 1 }) := by
      unfold shardRrFirst
      rw [hfs]
    rw [hrr]
    dsimp only
    have hat : ∀ (t : Nat), t < s.shardCount → shardAt s first t < s.shardCount := fun t =>
      shardAt_lt h.toGeometry first t hfirst
    have hsame : ∀ (t : Nat), 0 ≤ t → t < 0 + s.shardCount →
        (requestShared.requestFrom n first t { s with rrSeq := fetchAdd s.rrSeq 1 }).1 = none →
        (requestShared.requestFrom n first t { s with rrSeq := fetchAdd s.rrSeq 1 }).2 =
          { s with rrSeq := fetchAdd s.rrSeq 1 } := by
      intro t _ hlt
      exact requestFrom_same ht first t (hat t (by omega))
    have hsearch := Loop.search_eq_none_iff _ 0 s.shardCount _ hsame
    have hstate := Loop.search_state_of_none _ 0 s.shardCount _ hsame
    have hshards : (∀ (t : Nat), 0 ≤ t → t < 0 + s.shardCount →
        (requestShared.requestFrom n first t { s with rrSeq := fetchAdd s.rrSeq 1 }).1 = none) ↔
        ¬∃ (si : Nat), si < s.shardCount ∧ ∃ (b : Nat), SeenInShard s n si b := by
      constructor
      . rintro hall ⟨si, hsi, hseen⟩
        obtain ⟨t, hlt, hsit⟩ := exists_shardAt s first hfirst hsi
        have hnone := hall t (Nat.zero_le _) (by omega)
        rw [requestFrom_eq_none_iff ht first t (hat t hlt) hn] at hnone
        simp only [seenInShard_rrSeq] at hnone
        rw [← hsit] at hseen
        exact hnone hseen
      . intro hnone t _ hlt
        rw [requestFrom_eq_none_iff ht first t (hat t (by omega)) hn]
        simp only [seenInShard_rrSeq]
        exact fun hseen => hnone ⟨_, hat t (by omega), hseen⟩
    have hslow := allocGlobalSlowpath_eq_none_iff ht hn
    simp only [seenGlobally_rrSeq] at hslow
    rw [hshards] at hsearch
    generalize Loop.search (requestShared.requestFrom n first) 0 s.shardCount
      { s with rrSeq := fetchAdd s.rrSeq 1 } = res at hsearch hstate
    match res with
    | (some page, t) =>
      refine iff_of_false (fun h => nomatch h) fun hnone => ?_
      have : (some page : Option Nat) = none := hsearch.mpr fun hseen => hnone (.inl ⟨hle, hseen⟩)
      cases this
    | (none, t) =>
      have ht : t = { s with rrSeq := fetchAdd s.rrSeq 1 } := hstate rfl
      rw [ht]
      dsimp only
      rw [hslow, not_or]
      exact ⟨fun hglobal => ⟨fun hshard => hsearch.mp rfl hshard.right, hglobal⟩,
        fun hboth => hboth.right⟩
  . next hgt =>
    rw [allocGlobalSlowpath_eq_none_iff h hn, not_or]
    exact ⟨fun hglobal => ⟨fun hshard => hgt hshard.left, hglobal⟩, fun hboth => hboth.right⟩

theorem Seen.rrSeq_iff (s : State) (r n : Nat) : Seen { s with rrSeq := r } n ↔ Seen s n := by
  unfold Seen
  simp only [seenInShard_rrSeq, seenGlobally_rrSeq]

theorem pcpRefill_same (h : Levels s) (cpu : Nat) (hnone : (pcpRefill s cpu).1 = none)
    : (pcpRefill s cpu).2 = { s with rrSeq := fetchAdd s.rrSeq 1 } := by
  have ht := h.rrSeq (fetchAdd s.rrSeq 1)
  have hfirst : s.rrSeq % s.shardCount < s.shardCount := Nat.mod_lt _ h.shardCount_pos
  unfold pcpRefill shardRrFirst at hnone ⊢
  apply Loop.search_state_of_none _ _ _ _ _ hnone
  intro t _ hlt hbody
  have hok := allocInShardLocked_ok ht (shardAt s (s.rrSeq % s.shardCount) t) 1
    (shardAt_lt h.toGeometry _ t hfirst (by dsimp only at hlt; omega))
  unfold pcpRefill.refillFrom at hbody ⊢
  dsimp only at hbody ⊢
  split
  . rfl
  . next hge =>
    rw [if_neg hge] at hbody
    change Loop.Outcome _ _
      (allocInShardLocked _ (shardAt { s with rrSeq := fetchAdd s.rrSeq 1 } _ t) 1) at hok
    generalize allocInShardLocked { s with rrSeq := fetchAdd s.rrSeq 1 }
      (shardAt { s with rrSeq := fetchAdd s.rrSeq 1 } (s.rrSeq % s.shardCount) t) 1
      = res at hok hbody
    match res with
    | (none, s') => exact hok
    | (some page, s') => cases hbody

theorem request_eq_none (h : Levels s) (cpu : Option Nat) (hn : 0 < n) (hle : n ≤ s.bitmapPages)
    (hnone : (request s cpu n).1 = none)
    : ¬Seen s n := by
  unfold request at hnone
  rw [if_neg (by omega)] at hnone
  split at hnone
  . rwa [requestShared_eq_none_iff h hn] at hnone
  . next cpu _ =>
    split at hnone
    . cases hnone
    . have hsame := pcpRefill_same h cpu
      generalize pcpRefill s cpu = res at hnone hsame
      match res with
      | (some page, t) => cases hnone
      | (none, t) =>
        have ht : t = { s with rrSeq := fetchAdd s.rrSeq 1 } := hsame rfl
        rw [ht] at hnone
        rw [← Seen.rrSeq_iff s (fetchAdd s.rrSeq 1)]
        exact (requestShared_eq_none_iff (h.rrSeq _) hn).mp hnone

theorem seen_one (h : ∃ (b : Nat), FreeRun s 0 s.bitmapPages 1 b) : Seen s 1 := by
  obtain ⟨b, hb⟩ := h
  refine .inr ⟨b, hb, ?_⟩
  unfold Straddles
  omega

/--
A request finds a run whenever there is one exactly if there is one that no hint hides.
-/
theorem request_complete_iff (s : State) (h : Levels s) (cpu : Option Nat) (n : Nat) (hn : 1 ≤ n)
    : ((request s cpu n).1 = none → ¬∃ (b : Nat), FreeRun s 0 s.bitmapPages n b) ↔
      ((∃ (b : Nat), FreeRun s 0 s.bitmapPages n b) → Seen s n) := by
  constructor
  . intro hcomplete hrun
    by_cases hone : n = 1
    . rw [hone] at hrun ⊢
      exact seen_one hrun
    . obtain ⟨b, hb⟩ := hrun
      have hle := hb.stop_le
      have hshared : request s cpu n = requestShared s n := by
        unfold request
        rw [if_neg (by omega), if_neg hone]
      by_contra hseen
      apply hcomplete _ ⟨b, hb⟩
      rw [hshared, requestShared_eq_none_iff h hn]
      exact hseen
  . intro hseen hnone hrun
    obtain ⟨b, hb⟩ := hrun
    have hle := hb.stop_le
    exact request_eq_none h cpu hn (by omega) hnone (hseen ⟨b, hb⟩)

theorem request_complete_iff_smallState
    : Levels smallState ∧ Seen smallState 2 ∧
      ((request smallState none 2).1 = none
        → ¬∃ (b : Nat), FreeRun smallState 0 smallState.bitmapPages 2 b) := by
  have hlevels : Levels smallState := (init_inv _ _ init_smallMemmap_eq).left.levels
  have hscan : (scanForRun smallState 0 32 2).1 = some 1 := by decide +kernel
  have hpages : smallState.bitmapPages = 32 := by decide +kernel
  have hrun := (scanForRun_ok hlevels 0 32 2 (by rw [hpages])).found 1 hscan
  have hseen : Seen smallState 2 := by
    refine .inr ⟨1, ?_, by decide +kernel⟩
    rw [hpages]
    exact hrun
  exact ⟨hlevels, hseen,
    (request_complete_iff smallState hlevels none 2 (by decide)).2 fun _ => hseen⟩

def straddleOps : List Op :=
  List.replicate 10 (Op.request none 1) ++
    [Op.free none (20 * 4096) 1, .free none (24 * 4096) 1, .free none (25 * 4096) 1,
      .request none 2, .free none (21 * 4096) 1, .request none 2, .free none (20 * 4096) 2,
      .request none 1, .free none (24 * 4096) 2, .request none 2, .free none (22 * 4096) 1]

def straddled : State :=
  (Sys.run { pmm := smallState, live := [] } straddleOps).pmm

theorem request_incomplete
    : Sys.OwnedRun { pmm := smallState, live := [] } straddleOps ∧
      (∀ (cpu : Nat), cpu < 4 → straddled.pmmCache cpu = []) ∧ (request straddled none 2).1 = none ∧
      FreeRun straddled 0 straddled.bitmapPages 2 21 := by
  refine ⟨by decide +kernel, by decide +kernel, by decide +kernel, Nat.zero_le _, by decide +kernel,
    ?_⟩
  intro p h1 h2
  have hfree : bitTest straddled.l1Map 21 = false ∧ bitTest straddled.l1Map 22 = false := by
    decide +kernel
  rcases Nat.eq_or_lt_of_le h1 with heq | hlt
  . rw [← heq]
    exact hfree.left
  . rw [show p = 22 by omega]
    exact hfree.right

end PMM
