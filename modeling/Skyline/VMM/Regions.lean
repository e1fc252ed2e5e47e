import Skyline.VMM.Lemmas.Gap
import Skyline.VMM.Mappings

/-!
This module contains the operations on the regions of one page map as a transition system.
-/

namespace VMM

inductive VmaOp where
  | setStart (start : Nat)
  | addRegion (start pageCount : Nat) (flags : BitVec 64)
  | splitRegion (region : Region) (splitAddr : Nat)
  | mergeRegion (region : Region)
  | removeRegion (region : Region)
  | internalAlloc (pageCount : Nat) (flags : BitVec 64) (hint rand : Nat)

def vmaExec (s : State) (pm : Nat) (op : VmaOp) : Except Fault State :=
  match op with
  | .setStart start => setStart s pm start
  | .addRegion start pageCount flags => addRegion s pm start pageCount flags
  | .splitRegion region splitAddr => splitRegion s pm region splitAddr
  | .mergeRegion region => return mergeRegion s pm region
  | .removeRegion region => return removeRegion s pm region.node
  | .internalAlloc pageCount flags hint rand => do
    let (_, s) ← internalAlloc s pm pageCount flags hint rand
    return s

/--
What an operation does to the page map when the record it gets is `node`.
-/
def vmaStep (hhdmOffset : Nat) (map : Pagemap) (op : VmaOp) (node : Nat) : Option Pagemap :=
  match op, map.vmaHead with
  | .setStart start, none => some (firstStart map node start)
  | .setStart start, some head => some (moveStart map head start)
  | .addRegion _ _ _, none => some map
  | .addRegion start pageCount flags, some head =>
    if pageCount = 0 then some map else some (addAt map head { node, start, pageCount, flags }).1
  | .splitRegion _ _, none => some map
  | .splitRegion region splitAddr, some head =>
    match splitPoint region splitAddr with
    | none => some map
    | some split =>
      if region.node = head.node then some map else some (splitAt map head region split node)
  | .mergeRegion _, none => some map
  | .mergeRegion region, some head =>
    if region.node = head.node then some map else some (mergeAt map head region).1
  | .removeRegion _, none => some map
  | .removeRegion region, some head => some (unlinkRegion map head region.node)
  | .internalAlloc pageCount _ _ _, none => if pageCount = 0 then some map else none
  | .internalAlloc pageCount flags hint rand, some head =>
    match internalPlace hhdmOffset map head pageCount flags hint rand with
    | none => some map
    | some (after, addr) => some (placeAt map head after { node, start := addr, pageCount, flags })

def vmaAlloc (hhdmOffset : Nat) (map : Pagemap) (pageCount : Nat) (flags : BitVec 64)
    (hint rand : Nat) : Nat :=
  match map.vmaHead with
  | none => 0
  | some head =>
    match internalPlace hhdmOffset map head pageCount flags hint rand with
    | none => 0
    | some (_, addr) => addr

def Pagemap.vmaNodes (map : Pagemap) : List Nat :=
  (map.vmaHead.toList ++ map.regions).map Region.node

variable {op : VmaOp} {pageCount hint rand : Nat} {flags : BitVec 64}

section

variable {s s' : State} {pm : Nat}

theorem vmaFreeNode_pagemap (s : State) (freed : List Nat)
    : (freed.foldl vmaFreeNode s).pagemap = s.pagemap := by
  induction freed generalizing s with
  | nil => rfl
  | cons _ _ ih => exact ih _

theorem vmaAllocNode_pagemap {node : Option Nat} (h : vmaAllocNode s = .ok (node, s'))
    : s'.pagemap = s.pagemap := by
  unfold vmaAllocNode at h
  split at h
  next => cases h; rfl
  next =>
    obtain ⟨⟨ptr, t⟩, ht, h⟩ := bind_ok.mp h
    have hrest := request_rest ht
    cases ptr with
    | none => cases h; rw [hrest]
    | some => cases h; rw [hrest]

theorem setPagemap_self (s : State) (pm : Nat) (map : Pagemap)
    : (s.setPagemap pm map).pagemap pm = map := by
  simp [State.setPagemap]

/--
The page map makes the step for a record that is not in use, or there was no record.
-/
def Mirrors (s s' : State) (pm : Nat) (op : VmaOp) : Prop :=
  (∃ node, ((∃ t, vmaAllocNode s = .ok (some node, t)) ∨ node ∉ (s.pagemap pm).vmaNodes)
    ∧ vmaStep s.hhdmOffset (s.pagemap pm) op node = some (s'.pagemap pm))
  ∨ (∃ t, vmaAllocNode s = .ok (none, t)) ∧ s'.pagemap pm = s.pagemap pm

theorem Mirrors.of_any
    (h : ∀ node, vmaStep s.hhdmOffset (s.pagemap pm) op node = some (s'.pagemap pm))
    : Mirrors s s' pm op := by
  obtain ⟨node, hnode⟩ := Infinite.exists_notMem_finset (s.pagemap pm).vmaNodes.toFinset
  rw [List.mem_toFinset] at hnode
  exact .inl ⟨node, .inr hnode, h node⟩

theorem Mirrors.of_bind {f : Option Nat × State → Except Fault State}
    (h : vmaAllocNode s >>= f = .ok s')
    (hnone : ∀ t, t.pagemap = s.pagemap → f (none, t) = .ok s' → s'.pagemap pm = s.pagemap pm)
    (hsome : ∀ node t, t.pagemap = s.pagemap → f (some node, t) = .ok s' →
      vmaStep s.hhdmOffset (s.pagemap pm) op node = some (s'.pagemap pm))
    : Mirrors s s' pm op := by
  obtain ⟨⟨node, t⟩, halloc, h⟩ := bind_ok.mp h
  have ht := vmaAllocNode_pagemap halloc
  cases node with
  | none => exact .inr ⟨⟨t, halloc⟩, hnone t ht h⟩
  | some node => exact .inl ⟨node, .inl ⟨t, halloc⟩, hsome node t ht h⟩

theorem internalAlloc_ok {addr : Nat}
    (h : internalAlloc s pm pageCount flags hint rand = .ok (addr, s'))
    : Mirrors s s' pm (.internalAlloc pageCount flags hint rand)
      ∧ ((∃ node t, vmaAllocNode s = .ok (some node, t)) →
        addr = vmaAlloc s.hhdmOffset (s.pagemap pm) pageCount flags hint rand) := by
  unfold internalAlloc at h
  split at h
  next hhead =>
    split at h
    next hzero =>
      cases h
      exact ⟨.of_any fun _ => by simp only [vmaStep, hhead, if_pos hzero],
        fun _ => by simp only [vmaAlloc, hhead]⟩
    next => cases h
  next hhead =>
    split at h
    next hplace =>
      cases h
      exact ⟨.of_any fun _ => by simp only [vmaStep, hhead, hplace],
        fun _ => by simp only [vmaAlloc, hhead, hplace]⟩
    next hplace =>
      obtain ⟨⟨_ | node, t⟩, halloc, h⟩ := bind_ok.mp h
      . cases h
        refine ⟨.inr ⟨⟨_, halloc⟩, congrFun (vmaAllocNode_pagemap halloc) pm⟩, ?_⟩
        rintro ⟨node, t, hsome⟩
        rw [halloc] at hsome
        cases hsome
      . cases h
        refine ⟨.inl ⟨node, .inl ⟨t, halloc⟩, ?_⟩, ?_⟩
        . simp only [vmaStep, hhead, hplace, setPagemap_self, vmaAllocNode_pagemap halloc]
        . exact fun _ => by simp only [vmaAlloc, hhead, hplace]

theorem vmaExec_mirrors (h : vmaExec s pm op = .ok s') : Mirrors s s' pm op := by
  cases op with
  | setStart =>
    simp only [vmaExec, setStart] at h
    split at h
    next hhead =>
      cases h
      exact .of_any fun _ => by simp only [vmaStep, hhead, setPagemap_self]
    next hhead =>
      refine .of_bind h (fun t ht h => ?_) (fun node t ht h => ?_)
      . cases h
        exact congrFun ht pm
      . cases h
        simp only [vmaStep, hhead, setPagemap_self, ht]
  | addRegion =>
    simp only [vmaExec, addRegion] at h
    split at h
    next hhead => cases h; exact .of_any fun _ => by simp only [vmaStep, hhead]
    next hhead =>
      split at h
      next hzero => cases h; exact .of_any fun _ => by simp only [vmaStep, hhead, if_pos hzero]
      next hpages =>
        refine .of_bind h (fun t ht h => ?_) (fun node t ht h => ?_)
        . cases h
          exact congrFun ht pm
        . cases h
          simp only [vmaStep, hhead, if_neg hpages, vmaFreeNode_pagemap, setPagemap_self, ht]
  | splitRegion =>
    simp only [vmaExec, splitRegion] at h
    split at h
    next hhead => cases h; exact .of_any fun _ => by simp only [vmaStep, hhead]
    next hhead =>
      split at h
      next hsplit => cases h; exact .of_any fun _ => by simp only [vmaStep, hhead, hsplit]
      next hsplit =>
        split at h
        next hsame =>
          cases h; exact .of_any fun _ => by simp only [vmaStep, hhead, hsplit, if_pos hsame]
        next hregion =>
          refine .of_bind h (fun t ht h => ?_) (fun node t ht h => ?_)
          . cases h
            exact congrFun ht pm
          . cases h
            simp only [vmaStep, hhead, hsplit, if_neg hregion, setPagemap_self, ht]
  | mergeRegion =>
    simp only [vmaExec, mergeRegion] at h
    split at h
    next hhead => cases h; exact .of_any fun _ => by simp only [vmaStep, hhead]
    next hhead =>
      split at h
      next hsame => cases h; exact .of_any fun _ => by simp only [vmaStep, hhead, if_pos hsame]
      next hregion =>
        cases h
        refine .of_any fun _ => ?_
        simp only [vmaStep, hhead, if_neg hregion, vmaFreeNode_pagemap, setPagemap_self]
  | removeRegion =>
    simp only [vmaExec, removeRegion] at h
    split at h
    next hhead => cases h; exact .of_any fun _ => by simp only [vmaStep, hhead]
    next hhead =>
      cases h
      exact .of_any fun _ => by simp only [vmaStep, hhead, vmaFreeNode, setPagemap_self]
  | internalAlloc =>
    obtain ⟨⟨addr, t⟩, halloc, h⟩ := bind_ok.mp h
    cases h
    exact (internalAlloc_ok halloc).1

end

def HasNode (s : State) : Prop :=
  ∃ node t, vmaAllocNode s = .ok (some node, t)

def FreshNode (s : State) (pm : Nat) : Prop :=
  ∀ res ∈ (vmaAllocNode s).toOption, ∀ node ∈ res.1, node ∉ (s.pagemap pm).vmaNodes

instance (s : State) (pm : Nat) : Decidable (FreshNode s pm) := by
  unfold FreshNode
  infer_instance

theorem FreshNode.not_mem {s t : State} {pm node : Nat} (h : FreshNode s pm)
    (halloc : vmaAllocNode s = .ok (some node, t))
    : node ∉ (s.pagemap pm).vmaNodes :=
  h (some node, t) (by simp [halloc, Except.toOption]) node rfl

def Proper (hhdmOffset : Nat) (map : Pagemap) : VmaOp → Prop
  | .setStart start => start % 4096 = 0 ∧ 0 < start
  | .addRegion start pageCount _ =>
    start % 4096 = 0 ∧ start + pageCount * 4096 < 2 ^ 64 ∧ ∀ r ∈ map.regions, r.stop ≤ start
  | .splitRegion region _ => region ∈ map.regions
  | .mergeRegion region => region ∈ map.regions
  | .removeRegion region => region ∈ map.regions
  | .internalAlloc pageCount flags hint _ =>
    ∀ head ∈ map.vmaHead, Searches hhdmOffset head pageCount flags hint

instance (hhdmOffset : Nat) (head : Region) (pageCount : Nat) (flags : BitVec 64) (hint : Nat)
    : Decidable (Searches hhdmOffset head pageCount flags hint) :=
  decidable_of_iff (0 < pageCount
      ∧ (hint < head.start ∨ hint + pageCount * 4096 ≤ windowTop head.start) ∧ hint % 4096 = 0
      ∧ (has flags mmUser = true → head.start + pageCount * 4096 ≤ userCeil)
      ∧ (has flags mmUser = false →
        userCeil ≤ head.start ∧ higherHalfZero hhdmOffset ≤ head.start))
    ⟨fun ⟨h1, h2, h3, h4, h5⟩ => ⟨h1, h2, h3, h4, h5⟩,
      fun h => ⟨h.pages, h.inside, h.aligned, h.user, h.kernel⟩⟩

instance (hhdmOffset : Nat) (map : Pagemap) (op : VmaOp)
    : Decidable (Proper hhdmOffset map op) := by
  cases op <;> simp only [Proper] <;> infer_instance

def ProperCall (pm : Nat) (s : State) (op : VmaOp) : Prop :=
  FreshNode s pm ∧ Proper s.hhdmOffset (s.pagemap pm) op

instance (pm : Nat) (s : State) (op : VmaOp) : Decidable (ProperCall pm s op) := by
  unfold ProperCall
  infer_instance

def Kept (map : Pagemap) : Prop :=
  match map.vmaHead with
  | none => map.regions = [] ∧ map.vmaTree = []
  | some head => Laid map head ∧ head.start % 4096 = 0 ∧ 0 < head.start

section

variable {hhdmOffset : Nat} {map map' : Pagemap} {head : Region} {node : Nat}

theorem Kept.laid (h : Kept map) (hhead : map.vmaHead = some head)
    : Laid map head ∧ head.start % 4096 = 0 ∧ 0 < head.start := by
  unfold Kept at h
  rw [hhead] at h
  exact h

theorem Laid.kept (h : Laid map head) (haligned : head.start % 4096 = 0) (hpos : 0 < head.start)
    : Kept map := by
  unfold Kept
  rw [h.sentinel]
  exact ⟨h, haligned, hpos⟩

theorem vmaNodes_of_head (hhead : map.vmaHead = some head)
    : map.vmaNodes = head.node :: map.regions.map Region.node := by
  simp [Pagemap.vmaNodes, hhead]

theorem moveStart_laid (h : Laid map head) (start : Nat)
    : Laid (moveStart map head start) { head with start } where
  __ := h
  sentinel := rfl

theorem firstStart_laid (map : Pagemap) (node start : Nat)
    : Laid (firstStart map node start) { node, start, pageCount := 0, flags := 0#64 } where
  sentinel := rfl
  layout := ⟨by simp [firstStart], by simp [firstStart], by simp [firstStart]⟩
  tree := rfl
  cursor := by simp [firstStart]

theorem placed_fits {after addr : Nat} (h : Laid map head)
    (hstart : head.start % 4096 = 0) (hsearch : Searches hhdmOffset head pageCount flags hint)
    (hnode : node ∉ head.node :: map.regions.map Region.node)
    (hplace : internalPlace hhdmOffset map head pageCount flags hint rand = some (after, addr))
    : ∃ l1 l2, map.regions = l1 ++ l2 ∧ after = lastOf head.node l1
      ∧ Fits head.node { node, start := addr, pageCount, flags } l1 l2 := by
  obtain ⟨haligned, l1, l2, hrs, hafter, hroomy⟩ := internalPlace_some hsearch h hstart hplace
  have htop := windowTop_lt head.start
  have hupper := hroomy.upper
  refine ⟨l1, l2, hrs, hafter, ?_⟩
  constructor
  case ok =>
    refine ⟨haligned, hsearch.pages, ?_⟩
    unfold Region.stop
    simp only
    omega
  case fresh => rwa [← hrs]
  case before => exact hroomy.before
  case after => exact hroomy.behind

theorem vmaStep_kept (h : Kept map) (hnode : node ∉ map.vmaNodes) (hok : Proper hhdmOffset map op)
    (hstep : vmaStep hhdmOffset map op node = some map')
    : Kept map' := by
  cases hhead : map.vmaHead with
  | none =>
    -- Before the first `SetStart` every operation leaves the page map as it is.
    cases op with
    | setStart start =>
      simp only [vmaStep, hhead, Option.some.injEq] at hstep
      simp only [Proper] at hok
      subst hstep
      exact (firstStart_laid map node start).kept hok.1 hok.2
    | internalAlloc =>
      simp only [vmaStep, hhead] at hstep
      split at hstep
      next => cases hstep; exact h
      next => cases hstep
    | _ =>
      simp only [vmaStep, hhead, Option.some.injEq] at hstep
      exact hstep ▸ h
  | some head =>
    obtain ⟨hlaid, haligned, hpos⟩ := h.laid hhead
    rw [vmaNodes_of_head hhead] at hnode
    cases op with
    | setStart start =>
      simp only [vmaStep, hhead, Option.some.injEq] at hstep
      simp only [Proper] at hok
      subst hstep
      exact (moveStart_laid hlaid start).kept hok.1 hok.2
    | addRegion =>
      simp only [vmaStep, hhead] at hstep
      simp only [Proper] at hok
      split at hstep
      next => cases hstep; exact h
      next hpages =>
        cases hstep
        refine (addAt_laid hlaid ?_).1.kept haligned hpos
        constructor
        case ok => exact ⟨hok.1, Nat.pos_of_ne_zero hpages, hok.2.1⟩
        case fresh => rwa [List.append_nil]
        case before => exact hok.2.2
        case after => simp
    | splitRegion =>
      simp only [vmaStep, hhead] at hstep
      simp only [Proper] at hok
      split at hstep
      next => cases hstep; exact h
      next split hsplit =>
        split at hstep
        next => cases hstep; exact h
        next =>
          cases hstep
          exact (splitAt_laid hlaid hok hsplit hnode).1.kept haligned hpos
    | mergeRegion =>
      simp only [vmaStep, hhead] at hstep
      simp only [Proper] at hok
      split at hstep
      next => cases hstep; exact h
      next =>
        cases hstep
        exact (mergeAt_laid hlaid hok).1.kept haligned hpos
    | removeRegion =>
      simp only [vmaStep, hhead] at hstep
      simp only [Proper] at hok
      cases hstep
      exact (unlink_laid hlaid hok).1.kept haligned hpos
    | internalAlloc =>
      simp only [vmaStep, hhead] at hstep
      simp only [Proper] at hok
      split at hstep
      next => cases hstep; exact h
      next after addr hplace =>
        cases hstep
        obtain ⟨l1, l2, hrs, hafter, hfits⟩ :=
          placed_fits hlaid haligned (hok head hhead) hnode hplace
        rw [hafter]
        exact (placeAt_laid hlaid hrs hfits).1.kept haligned hpos

theorem recut_covers (h : Kept map) (hnode : node ∉ map.vmaNodes) (hok : Proper hhdmOffset map op)
    (hop : (∃ region splitAddr, op = .splitRegion region splitAddr)
      ∨ ∃ region, op = .mergeRegion region)
    (hstep : vmaStep hhdmOffset map op node = some map') (a : Nat) (f : BitVec 64)
    : Covers map'.regions a f ↔ Covers map.regions a f := by
  obtain ⟨region, splitAddr, hop⟩ | ⟨region, hop⟩ := hop
  . subst hop
    cases hhead : map.vmaHead with
    | none =>
      simp only [vmaStep, hhead, Option.some.injEq] at hstep
      rw [hstep]
    | some =>
      obtain ⟨hlaid, -, -⟩ := h.laid hhead
      rw [vmaNodes_of_head hhead] at hnode
      simp only [vmaStep, hhead] at hstep
      simp only [Proper] at hok
      split at hstep
      next => cases hstep; rfl
      next split hsplit =>
        split at hstep
        next => cases hstep; rfl
        next =>
          cases hstep
          exact (splitAt_laid hlaid hok hsplit hnode).2.1.covers a f
  . subst hop
    cases hhead : map.vmaHead with
    | none =>
      simp only [vmaStep, hhead, Option.some.injEq] at hstep
      rw [hstep]
    | some =>
      obtain ⟨hlaid, -, -⟩ := h.laid hhead
      simp only [vmaStep, hhead] at hstep
      simp only [Proper] at hok
      split at hstep
      next => cases hstep; rfl
      next =>
        cases hstep
        exact (mergeAt_laid hlaid hok).2.covers a f

def FreeRange (rs : List Region) (addr len : Nat) : Prop :=
  ∀ r ∈ rs, addr + len ≤ r.start ∨ r.stop ≤ addr

def AllocOk (map : Pagemap) (head : Region) (pageCount addr : Nat) : Prop :=
  if addr = 0 then
    ∀ (a : Nat), head.start ≤ a → a + pageCount * 4096 ≤ windowTop head.start →
      ¬FreeRange map.regions a (pageCount * 4096)
  else
    head.start ≤ addr ∧ addr + pageCount * 4096 ≤ windowTop head.start
      ∧ FreeRange map.regions addr (pageCount * 4096)

theorem vmaAlloc_ok (h : Kept map)
    (hhead : map.vmaHead = some head) (hsearch : Searches hhdmOffset head pageCount flags hint)
    : AllocOk map head pageCount (vmaAlloc hhdmOffset map pageCount flags hint rand) := by
  obtain ⟨hlaid, haligned, hpos⟩ := h.laid hhead
  unfold vmaAlloc
  rw [hhead]
  simp only
  split
  next hplace =>
    unfold AllocOk
    rw [if_pos rfl]
    intro a hlo hhi hfree
    obtain ⟨r, hr, hstart, hstop⟩ := internalPlace_none hsearch hlaid haligned hplace hlo hhi
    have := hfree r hr
    omega
  next after addr hplace =>
    obtain ⟨-, l1, l2, hrs, -, hroomy⟩ := internalPlace_some hsearch hlaid haligned hplace
    have hlower := hroomy.lower
    unfold AllocOk
    rw [if_neg (by omega)]
    refine ⟨hlower, hroomy.upper, ?_⟩
    intro r hr
    rw [hrs, List.mem_append] at hr
    cases hr with
    | inl hmem => exact .inr (hroomy.before r hmem)
    | inr hmem => exact .inl (hroomy.behind r hmem)

theorem Kept.layout (h : Kept map)
    : map.vmaTree = map.regions ∧ ∃ (n : Nat), Layout n map.regions := by
  cases hhead : map.vmaHead with
  | none =>
    unfold Kept at h
    rw [hhead] at h
    rw [h.1, h.2]
    exact ⟨rfl, 0, by simp, by simp, by simp⟩
  | some head =>
    obtain ⟨hlaid, -, -⟩ := h.laid hhead
    exact ⟨hlaid.tree, head.node, hlaid.layout⟩

end

/--
The regions of the page map are apart, the tree and the list have them in the order of their
addresses, a split or a merge keeps what is covered, and `InternalAlloc` finds a place whenever
there is one.
-/
structure RegionsOk (s : State) (pm : Nat) : Prop where
  disjoint : (s.pagemap pm).regions.Pairwise fun a b => a.stop ≤ b.start ∨ b.stop ≤ a.start
  same : (s.pagemap pm).vmaTree = (s.pagemap pm).regions
  order : (s.pagemap pm).regions.Pairwise fun a b => a.start < b.start
  recut : ∀ op s', ProperCall pm s op →
    ((∃ region splitAddr, op = .splitRegion region splitAddr)
      ∨ ∃ region, op = .mergeRegion region) →
    vmaExec s pm op = .ok s' →
    ∀ a f, Covers (s'.pagemap pm).regions a f ↔ Covers (s.pagemap pm).regions a f
  alloc : ∀ pageCount flags hint rand addr s',
    ProperCall pm s (.internalAlloc pageCount flags hint rand) →
    HasNode s → internalAlloc s pm pageCount flags hint rand = .ok (addr, s') →
    ∀ head ∈ (s.pagemap pm).vmaHead, AllocOk (s.pagemap pm) head pageCount addr

section

variable {s s0 s' : State} {pm : Nat}

theorem vmaExec_kept (h : Kept (s.pagemap pm)) (hok : ProperCall pm s op)
    (hexec : vmaExec s pm op = .ok s')
    : Kept (s'.pagemap pm) := by
  rcases vmaExec_mirrors hexec with ⟨node, hnode, hstep⟩ | ⟨-, hsame⟩
  . refine vmaStep_kept h ?_ hok.2 hstep
    rcases hnode with ⟨t, halloc⟩ | hnode
    . exact hok.1.not_mem halloc
    . exact hnode
  . rw [hsame]
    exact h

theorem recut_exec (h : Kept (s.pagemap pm)) (hok : ProperCall pm s op)
    (hop : (∃ region splitAddr, op = .splitRegion region splitAddr)
      ∨ ∃ region, op = .mergeRegion region)
    (hexec : vmaExec s pm op = .ok s') (a : Nat) (f : BitVec 64)
    : Covers (s'.pagemap pm).regions a f ↔ Covers (s.pagemap pm).regions a f := by
  rcases vmaExec_mirrors hexec with ⟨node, hnode, hstep⟩ | ⟨-, hsame⟩
  . refine recut_covers h ?_ hok.2 hop hstep a f
    rcases hnode with ⟨t, halloc⟩ | hnode
    . exact hok.1.not_mem halloc
    . exact hnode
  . rw [hsame]

theorem regions_of_proper_calls
    (hinit : (s0.pagemap pm).vmaHead = none ∧ (s0.pagemap pm).regions = []
      ∧ (s0.pagemap pm).vmaTree = [])
    (h : Steps.Reach (fun s op => (vmaExec s pm op).toOption) (ProperCall pm) s0 s)
    : RegionsOk s pm := by
  have hkept : Kept (s.pagemap pm) := by
    apply h.invariant (fun s => Kept (s.pagemap pm))
    . unfold Kept
      rw [hinit.1]
      exact hinit.2
    . intro t op u ht hok hs
      exact vmaExec_kept ht hok (ok_of_toOption hs)
  obtain ⟨htree, n, hlayout⟩ := hkept.layout
  constructor
  case disjoint => exact hlayout.apart.imp fun hab => .inl hab
  case same => exact htree
  case order =>
    apply List.Pairwise.imp_of_mem _ hlayout.apart
    intro a b ha _ hab
    have := (hlayout.ok a ha).lt
    omega
  case recut => exact fun op s' hok hop hexec => recut_exec hkept hok hop hexec
  case alloc =>
    intro pageCount flags hint rand addr s' hok hnode halloc head hhead
    rw [(internalAlloc_ok halloc).2 hnode]
    exact vmaAlloc_ok hkept hhead (hok.2 head hhead)

end

def properCalls : List VmaOp := [
  .setStart 0x400000,
  .addRegion 0x400000 2 7#64,
  .addRegion 0x800000 1 7#64,
  .internalAlloc 3 7#64 0x500000 0,
  .splitRegion ⟨4408, 0x500000, 3, 7#64⟩ 0x501000,
  .removeRegion ⟨4408, 0x500000, 1, 7#64⟩,
  .internalAlloc 2 7#64 0 5]

theorem regions_of_proper_calls_split : ∃ s,
    RegionsOk s 0x1000000
      ∧ (s.pagemap 0x1000000).regions.map Region.start = [0x400000, 0x407000,
        0x501000, 0x800000] := by
  obtain ⟨s, hreach, hstarts⟩ := Steps.Reach.exists_of_run
    (fun s op => (vmaExec s 0x1000000 op).toOption) (ProperCall 0x1000000) bootState properCalls
    (fun s => (s.pagemap 0x1000000).regions.map Region.start = [0x400000, 0x407000,
      0x501000, 0x800000])
    (by decide +kernel)
  exact ⟨s, regions_of_proper_calls ⟨rfl, rfl, rfl⟩ hreach, hstarts⟩

def addCalls : List VmaOp := [
  .setStart 0x400000,
  .addRegion 0x800000 1 7#64,
  .addRegion 0x400000 2 7#64,
  .addRegion 0x401000 1 3#64]

/--
`AddRegion` records a region where another one is, and the ring is not in the order of the tree.
-/
theorem addRegion_out_of_order : ∃ s,
    Steps.Reach (fun s op => (vmaExec s 0x1000000 op).toOption) (fun s _ => FreshNode s 0x1000000)
      bootState s
      ∧ (s.pagemap 0x1000000).vmaTree ≠ (s.pagemap 0x1000000).regions
      ∧ ¬(s.pagemap 0x1000000).regions.Pairwise fun a b => a.stop ≤ b.start ∨ b.stop ≤ a.start := by
  apply Steps.Reach.exists_of_run _ _ _ addCalls
  decide +kernel

end VMM
