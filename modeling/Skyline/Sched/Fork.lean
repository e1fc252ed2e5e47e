import Skyline.FD.Dup
import Skyline.VMM.Destroy

/-!
This module contains `sys_fork` and what is left when one of its copies fails.
-/

namespace Fork

open Function

inductive Block where
  | proc (pid : Nat)
  | fdMan (pid : Nat)
  | fd (pid fd : Nat)
  | path (pid fd : Nat)
  | filedesc (pid fd : Nat)
  | thread (pid : Nat)
  deriving DecidableEq

structure Proc where
  id : Nat
  pagemap : Nat
  fdMan : FD.Manager

structure Kernel where
  vmm : VMM.State
  schedPid : Nat
  schedTid : Nat
  blocks : Multiset Block
  pidTree : Finset Nat
  children : Nat → List Nat
  threads : Nat → List Nat
  runQueue : Nat → List Nat

structure Call where
  proc : Option Proc
  fdMem : Nat
  cpu : Nat
  fxPages : Nat
  fxRand : Nat
  stackRand : Nat
  exiting : Bool

def kmalloc (k : Kernel) (b : Block) : Bool × Kernel :=
  match VMM.kmalloc k.vmm with
  | (false, vmm) => (false, { k with vmm })
  | (true, vmm) => (true, { k with vmm, blocks := b ::ₘ k.blocks })

def kfree (k : Kernel) (b : Block) : Kernel :=
  { k with blocks := k.blocks.erase b }

def copied (mem : Nat) : List FD.Entry → List FD.Entry
  | [] => []
  | e :: es => if mem < e.kmallocs then [] else e :: copied (mem - e.kmallocs) es

def contentBlocks (pid : Nat) (e : FD.Entry) : List Block :=
  (if e.path.isSome then [.path pid e.fd]
    else []) ++ (if e.copiesFiledesc then [.filedesc pid e.fd] else [])

def dupBlocks (pid : Nat) (es : List FD.Entry) : Multiset Block :=
  ↑(es.map fun e => Block.fd pid e.fd) + ↑(es.flatMap (contentBlocks pid))

def fdManagerDestroy (k : Kernel) (pid : Nat) (es : List FD.Entry) : Kernel :=
  { k with blocks := k.blocks - ↑(es.map fun e => Block.fd pid e.fd) }

def forkProcess (k : Kernel) (c : Call) : Except VMM.Fault (Option Proc × Kernel) :=
  match c.proc with
  | none => .ok (none, k)
  | some parent =>
    let pid := k.schedPid + 1
    match kmalloc k (.proc pid) with
    | (false, k) => .ok (none, k)
    | (true, k) => do
      let (pagemap, vmm) ← VMM.fork k.vmm parent.pagemap
      let k := { k with vmm, schedPid := pid }
      match pagemap with
      | none => return (none, kfree k (.proc pid))
      | some pagemap =>
        match kmalloc k (.fdMan pid) with
        | (false, k) =>
          let vmm ← VMM.destroyPM k.vmm pagemap
          return (none, kfree { k with vmm } (.proc pid))
        | (true, k) =>
          let es := copied c.fdMem parent.fdMan.entries
          let k := { k with blocks := dupBlocks pid es + k.blocks }
          match FD.fdManagerDup c.fdMem .init parent.fdMan with
          | none =>
            let k := kfree (fdManagerDestroy k pid es) (.fdMan pid)
            let vmm ← VMM.destroyPM k.vmm pagemap
            return (none, kfree { k with vmm } (.proc pid))
          | some fdMan =>
            -- from here on the child can be found
            let k := { k with
              children := update k.children parent.id (k.children parent.id ++ [pid])
              pidTree := insert pid k.pidTree
            }
            return (some { id := pid, pagemap, fdMan }, k)

def forkThread (k : Kernel) (proc : Proc) (c : Call) : Except VMM.Fault (Option Nat × Kernel) :=
  match kmalloc k (.thread proc.id) with
  | (false, k) => .ok (none, k)
  | (true, k) => do
    let (fxArea, vmm) ← VMM.alloc k.vmm k.vmm.kernelPagemap c.fxPages false c.fxRand
    let k := { k with vmm }
    if fxArea = 0 then
      return (none, kfree k (.thread proc.id))
    else
      let (kernelStack, vmm) ← VMM.alloc k.vmm k.vmm.kernelPagemap 4 false c.stackRand
      let k := { k with vmm }
      if kernelStack = 0 then
        let vmm ← VMM.free k.vmm k.vmm.kernelPagemap fxArea
        return (none, kfree { k with vmm } (.thread proc.id))
      else
        let tid := k.schedTid + 1
        let k := { k with schedTid := tid }
        if c.exiting then
          -- `ProcessAddThread` has refused; `fx_area` is not freed here
          let vmm ← VMM.free k.vmm k.vmm.kernelPagemap kernelStack
          return (none, kfree { k with vmm } (.thread proc.id))
        else
          return (some tid, { k with
            threads := update k.threads proc.id (k.threads proc.id ++ [tid])
            runQueue := update k.runQueue c.cpu (k.runQueue c.cpu ++ [tid])
          })

def sysFork (k : Kernel) (c : Call) : Except VMM.Fault (Option Nat × Kernel) := do
  match ← forkProcess k c with
  | (none, k) => return (none, k)
  | (some proc, k) =>
    match ← forkThread k proc c with
    | (none, k) => return (none, k)
    | (some _, k) => return (some proc.id, k)

structure NoTrace (k k' : Kernel) : Prop where
  pidTree : k'.pidTree = k.pidTree
  children : k'.children = k.children
  runQueue : k'.runQueue = k.runQueue
  blocks : k'.blocks = k.blocks
  avail : VMM.avail k'.vmm = VMM.avail k.vmm
  rcTree : k'.vmm.rcTree = k.vmm.rcTree
  pool : VMM.SamePool k.vmm k'.vmm

structure Sound (k : Kernel) (c : Call) : Prop where
  backed : VMM.Backed k.vmm
  nodup : k.vmm.nodeFreeList.Nodup
  parent : ∀ parent ∈ c.proc, parent.pagemap / 4096 ∉ VMM.avail k.vmm

def DupFailsClean (c : Call) (parent : Proc) : Prop :=
  FD.fdManagerDup c.fdMem .init parent.fdMan = none
    ∧ ∀ e ∈ copied c.fdMem parent.fdMan.entries, e.path = none ∧ e.copiesFiledesc = false

/--
The call fails before there is anything to undo, or after the copy of an address space without
regions and with nothing in the descriptor table that would have to be freed.
-/
def FailsClean (k : Kernel) (c : Call) : Prop :=
  c.proc = none ∨ (VMM.kmalloc k.vmm).1 = false
    ∨ ∃ parent ∈ c.proc, (k.vmm.pagemap parent.pagemap).vmaHead = none
        ∧ ((VMM.kmalloc (VMM.kmalloc k.vmm).2).1 = false ∨ DupFailsClean c parent)

variable {k k' : Kernel} {c : Call}

theorem kmalloc_rest (s : VMM.State)
    : (VMM.kmalloc s).2 = { s with heap := (VMM.kmalloc s).2.heap } := by
  unfold VMM.kmalloc
  split
  next => rfl
  next => rfl

section

variable (s : VMM.State)

@[simp]
theorem kmalloc_pagemap : (VMM.kmalloc s).2.pagemap = s.pagemap := by
  rw [kmalloc_rest]

@[simp]
theorem kmalloc_rcTree : (VMM.kmalloc s).2.rcTree = s.rcTree := by
  rw [kmalloc_rest]

@[simp]
theorem kmalloc_nodePages : (VMM.kmalloc s).2.nodePages = s.nodePages := by
  rw [kmalloc_rest]

@[simp]
theorem kmalloc_nodeFreeList : (VMM.kmalloc s).2.nodeFreeList = s.nodeFreeList := by
  rw [kmalloc_rest]

@[simp]
theorem kmalloc_avail : VMM.avail (VMM.kmalloc s).2 = VMM.avail s := by
  rw [kmalloc_rest]
  rfl

theorem kmalloc_backed {s : VMM.State} (h : VMM.Backed s) : VMM.Backed (VMM.kmalloc s).2 := by
  rw [kmalloc_rest]
  exact h.congr rfl rfl

end

variable {t vmm : VMM.State} {parent : Proc} {pm : Nat}

theorem samePool_kmalloc {s : VMM.State} : VMM.SamePool (VMM.kmalloc s).2 t ↔ VMM.SamePool s t := by
  unfold VMM.SamePool
  rw [kmalloc_nodePages, kmalloc_nodeFreeList]

theorem kmalloc_fst_congr {s : VMM.State} (h : t.heap = s.heap)
    : (VMM.kmalloc t).1 = (VMM.kmalloc s).1 := by
  unfold VMM.kmalloc
  rw [h]
  split
  next => rfl
  next => rfl

theorem kmalloc_false {b : Block} (h : kmalloc k b = (false, k'))
    : (VMM.kmalloc k.vmm).1 = false ∧ k' = { k with vmm := (VMM.kmalloc k.vmm).2 } := by
  unfold kmalloc at h
  split at h
  next vmm heq =>
    cases h
    rw [heq]
    exact ⟨rfl, rfl⟩
  next => cases h

theorem kmalloc_true {b : Block} (h : kmalloc k b = (true, k'))
    : (VMM.kmalloc k.vmm).1 = true
      ∧ k' = { k with vmm := (VMM.kmalloc k.vmm).2, blocks := b ::ₘ k.blocks } := by
  unfold kmalloc at h
  split at h
  next => cases h
  next vmm heq =>
    cases h
    rw [heq]
    exact ⟨rfl, rfl⟩

theorem blocks_after_dup (pid : Nat) (es : List FD.Entry) (b : Multiset Block)
    : ((dupBlocks pid es + .fdMan pid ::ₘ .proc pid ::ₘ b
      - ↑(es.map fun e => Block.fd pid e.fd)).erase
        (.fdMan pid)).erase (.proc pid)
        =
      ↑(es.flatMap (contentBlocks pid)) + b := by
  unfold dupBlocks
  rw [add_assoc, add_tsub_cancel_left, Multiset.add_cons, Multiset.erase_cons_head,
    Multiset.add_cons, Multiset.erase_cons_head]

theorem contentBlocks_eq_nil {pid : Nat} {e : FD.Entry}
    : contentBlocks pid e = [] ↔ e.path = none ∧ e.copiesFiledesc = false := by
  unfold contentBlocks
  cases e.path with
  | none => cases e.copiesFiledesc <;> simp
  | some => simp

theorem blocks_kept_iff {pid : Nat} {es : List FD.Entry} {b : Multiset Block}
    : (↑(es.flatMap (contentBlocks pid)) + b : Multiset Block) = b
        ↔
      ∀ e ∈ es, e.path = none ∧ e.copiesFiledesc = false := by
  rw [add_eq_right, Multiset.coe_eq_zero, List.flatMap_eq_nil_iff]
  constructor
  . exact fun h e he => contentBlocks_eq_nil.mp (h e he)
  . exact fun h e he => contentBlocks_eq_nil.mpr (h e he)

inductive DupFails (k : Kernel) (c : Call) (parent : Proc) (vmm : VMM.State)
    : Multiset Block → Prop where
  | noTable : (VMM.kmalloc vmm).1 = false → DupFails k c parent vmm 0
  | noEntry : (VMM.kmalloc vmm).1 = true → FD.fdManagerDup c.fdMem .init parent.fdMan = none
    → DupFails k c parent vmm
    ↑((copied c.fdMem parent.fdMan.entries).flatMap (contentBlocks (k.schedPid + 1)))

inductive Ends (k : Kernel) (c : Call) : Option Proc → Kernel → Prop where
  | noCaller : c.proc = none → Ends k c none k
  | noMemory : (VMM.kmalloc k.vmm).1 = false → Ends k c none { k with vmm := (VMM.kmalloc k.vmm).2 }
  | noFork (parent : Proc) (vmm : VMM.State) : c.proc = some parent → (VMM.kmalloc k.vmm).1 = true
    → VMM.fork (VMM.kmalloc k.vmm).2 parent.pagemap = .ok (none, vmm)
    → Ends k c none { k with vmm, schedPid := k.schedPid + 1 }
  | noTable (parent : Proc) (pm : Nat) (vmm vmm' : VMM.State) (left : Multiset Block)
    : c.proc = some parent → (VMM.kmalloc k.vmm).1 = true
    → VMM.fork (VMM.kmalloc k.vmm).2 parent.pagemap = .ok (some pm, vmm)
    → DupFails k c parent vmm left
    → VMM.destroyPM (VMM.kmalloc vmm).2 pm = .ok vmm'
    → Ends k c none { k with vmm := vmm', schedPid := k.schedPid + 1, blocks := left + k.blocks }
  | child (parent proc : Proc) (pm : Nat) (vmm : VMM.State) (k' : Kernel)
    : c.proc = some parent → (VMM.kmalloc k.vmm).1 = true
    → VMM.fork (VMM.kmalloc k.vmm).2 parent.pagemap = .ok (some pm, vmm)
    → (VMM.kmalloc vmm).1 = true → FD.fdManagerDup c.fdMem .init parent.fdMan ≠ none
    → k'.children = update k.children parent.id (k.children parent.id ++ [k.schedPid + 1])
    → Ends k c (some proc) k'

theorem forkProcess_ends {res : Option Proc} (h : forkProcess k c = .ok (res, k'))
    : Ends k c res k' := by
  unfold forkProcess at h
  split at h
  next hproc =>
    cases h
    exact .noCaller hproc
  next parent hproc =>
    dsimp only at h
    split at h
    next k1 h1 =>
      cases h
      obtain ⟨hfalse, rfl⟩ := kmalloc_false h1
      exact .noMemory hfalse
    next k1 h1 =>
      obtain ⟨hheap, rfl⟩ := kmalloc_true h1
      obtain ⟨⟨pagemap, vmm⟩, hfork, h⟩ := VMM.bind_ok.mp h
      dsimp only at h
      split at h
      next =>
        cases Except.ok.inj h
        simp only [kfree, Multiset.erase_cons_head]
        exact .noFork parent vmm hproc hheap hfork
      next pm =>
        split at h
        next k2 h2 =>
          obtain ⟨hfalse, rfl⟩ := kmalloc_false h2
          obtain ⟨vmm', hdestroy, h⟩ := VMM.bind_ok.mp h
          cases Except.ok.inj h
          simp only [kfree, Multiset.erase_cons_head]
          have hend := Ends.noTable parent pm vmm vmm' 0 hproc hheap hfork
            (.noTable hfalse) hdestroy
          rwa [zero_add] at hend
        next k2 h2 =>
          obtain ⟨hheap', rfl⟩ := kmalloc_true h2
          split at h
          next hdup =>
            obtain ⟨vmm', hdestroy, h⟩ := VMM.bind_ok.mp h
            cases Except.ok.inj h
            simp only [kfree, fdManagerDestroy, blocks_after_dup]
            exact .noTable parent pm vmm vmm' _ hproc hheap hfork (.noEntry hheap' hdup) hdestroy
          next fdMan hdup =>
            cases Except.ok.inj h
            exact .child parent _ pm vmm _ hproc hheap hfork hheap'
              (by rw [hdup]; exact Option.some_ne_none _) rfl

theorem forkThread_children {proc : Proc} {res : Option Nat}
    (h : forkThread k proc c = .ok (res, k'))
    : k'.children = k.children := by
  unfold forkThread at h
  split at h
  next k1 h1 =>
    cases h
    rw [(kmalloc_false h1).2]
  next k1 h1 =>
    obtain ⟨-, rfl⟩ := kmalloc_true h1
    obtain ⟨⟨fxArea, vmm⟩, -, h⟩ := VMM.bind_ok.mp h
    dsimp only at h
    split at h
    next => cases Except.ok.inj h; rfl
    next =>
      obtain ⟨⟨kernelStack, vmm'⟩, -, h⟩ := VMM.bind_ok.mp h
      dsimp only at h
      split at h
      next =>
        obtain ⟨_, -, h⟩ := VMM.bind_ok.mp h
        cases Except.ok.inj h
        rfl
      next =>
        split at h
        next =>
          obtain ⟨_, -, h⟩ := VMM.bind_ok.mp h
          cases Except.ok.inj h
          rfl
        next => cases Except.ok.inj h; rfl

theorem noTable_noTrace_iff {vmm' : VMM.State} {left : Multiset Block}
    (hk : Sound k c) (hhead : (k.vmm.pagemap parent.pagemap).vmaHead = none)
    (hfork : VMM.fork (VMM.kmalloc k.vmm).2 parent.pagemap = .ok (some pm, vmm))
    (hdestroy : VMM.destroyPM (VMM.kmalloc vmm).2 pm = .ok vmm')
    : NoTrace k { k with vmm := vmm', schedPid := k.schedPid + 1, blocks := left + k.blocks }
        ↔
      left + k.blocks = k.blocks := by
  obtain ⟨child, hchild, hbase⟩ := VMM.fork_of_bare (by rw [kmalloc_pagemap]; exact hhead) hfork
  cases hchild
  obtain ⟨havail, hrc, hpool⟩ :=
    VMM.forkBase_destroyPM (kmalloc_backed hk.backed) hbase (kmalloc_rest vmm) hdestroy
  constructor
  . exact fun h => h.blocks
  . intro hblocks
    refine ⟨rfl, rfl, rfl, hblocks, ?_, ?_, samePool_kmalloc.mp hpool⟩
    . rw [← kmalloc_avail k.vmm]
      exact havail
    . rw [← kmalloc_rcTree k.vmm]
      exact hrc

theorem fork_spends {res : Option Nat} {head : VMM.Region} (hk : Sound k c)
    (hproc : c.proc = some parent) (hhead : (k.vmm.pagemap parent.pagemap).vmaHead = some head)
    (hfork : VMM.fork (VMM.kmalloc k.vmm).2 parent.pagemap = .ok (res, vmm))
    : VMM.NoSentinel (VMM.kmalloc k.vmm).2
      ∨ (∃ child, res = some child ∧ VMM.Spent (VMM.kmalloc k.vmm).2 vmm child)
      ∨ res = none ∧ ¬VMM.SamePool (VMM.kmalloc k.vmm).2 vmm := by
  apply VMM.fork_of_regions (kmalloc_backed hk.backed) _ _ _ hfork
  . exact head
  . rw [kmalloc_avail]
    exact hk.parent parent hproc
  . rw [kmalloc_nodeFreeList]
    exact hk.nodup
  . rw [kmalloc_pagemap]
    exact hhead

theorem noTable_trace {vmm' : VMM.State} {head : VMM.Region}
    (hk : Sound k c) (hproc : c.proc = some parent)
    (hhead : (k.vmm.pagemap parent.pagemap).vmaHead = some head)
    (hfork : VMM.fork (VMM.kmalloc k.vmm).2 parent.pagemap = .ok (some pm, vmm))
    (hdestroy : VMM.destroyPM (VMM.kmalloc vmm).2 pm = .ok vmm')
    : VMM.NoSentinel (VMM.kmalloc k.vmm).2 ∨ ¬VMM.SamePool k.vmm vmm' := by
  rcases fork_spends hk hproc hhead hfork with hnone | hspent | ⟨hnone, -⟩
  . exact .inl hnone
  . obtain ⟨child, hchild, n, pages, hlost, hpages⟩ := hspent
    cases hchild
    have hlost' : VMM.Lost (VMM.kmalloc vmm).2 pm n pages := by
      apply hlost.congr
      . exact kmalloc_nodePages vmm
      . exact kmalloc_nodeFreeList vmm
      . rw [kmalloc_pagemap]
    apply Or.inr
    rw [← samePool_kmalloc]
    exact VMM.Spent.destroyPM ⟨n, pages, hlost', hpages⟩ hdestroy
  . cases hnone

theorem FailsClean.head (h : FailsClean k c) (hproc : c.proc = some parent)
    (hheap : (VMM.kmalloc k.vmm).1 = true)
    : (k.vmm.pagemap parent.pagemap).vmaHead = none
      ∧ ((VMM.kmalloc (VMM.kmalloc k.vmm).2).1 = false ∨ DupFailsClean c parent) := by
  rcases h with hnone | hfalse | ⟨parent', hproc', hclean⟩
  . rw [hproc] at hnone
    cases hnone
  . rw [hheap] at hfalse
    cases hfalse
  . rw [hproc] at hproc'
    cases hproc'
    exact hclean

theorem kmalloc_fork {parent : Nat} {s : VMM.State} (hhead : (s.pagemap parent).vmaHead = none)
    (h : VMM.fork s parent = .ok (some pm, t)) : (VMM.kmalloc t).1 = (VMM.kmalloc s).1 := by
  obtain ⟨child, -, hbase⟩ := VMM.fork_of_bare hhead h
  obtain ⟨-, -, -, hheap, -⟩ := VMM.forkBase_rest hbase
  exact kmalloc_fst_congr hheap

theorem DupFails.kept_iff {left : Multiset Block}
    (h : DupFails k c parent vmm left)
    : left + k.blocks = k.blocks ↔ (VMM.kmalloc vmm).1 = false ∨ DupFailsClean c parent := by
  cases h with
  | noTable hfalse =>
    rw [zero_add]
    exact ⟨fun _ => .inl hfalse, fun _ => rfl⟩
  | noEntry htrue hdup =>
    rw [blocks_kept_iff]
    constructor
    . exact fun hes => .inr ⟨hdup, hes⟩
    . rintro (hfalse | hclean)
      . rw [htrue] at hfalse
        cases hfalse
      . exact hclean.2

theorem update_append_ne {f : Nat → List Nat} (i x : Nat) : update f i (f i ++ [x]) ≠ f := by
  intro h
  have hi := congrFun h i
  rw [update_self] at hi
  simp at hi

/--
A failing call leaves no trace of a child if and only if it fails clean.
-/
theorem fork_leaves_no_trace (hk : Sound k c) (h : sysFork k c = .ok (none, k'))
    : (FailsClean k c → NoTrace k k')
      ∧ (NoTrace k k' → FailsClean k c ∨ VMM.NoSentinel (VMM.kmalloc k.vmm).2) := by
  obtain ⟨⟨res, k1⟩, hprocess, h⟩ := VMM.bind_ok.mp h
  cases forkProcess_ends hprocess with
  | noCaller hproc =>
    cases Except.ok.inj h
    exact ⟨fun _ => ⟨rfl, rfl, rfl, rfl, rfl, rfl, rfl, rfl⟩, fun _ => .inl (.inl hproc)⟩
  | noMemory hfalse =>
    cases Except.ok.inj h
    have hpool : VMM.SamePool k.vmm (VMM.kmalloc k.vmm).2 :=
      ⟨kmalloc_nodePages _, kmalloc_nodeFreeList _⟩
    exact ⟨fun _ => ⟨rfl, rfl, rfl, rfl, kmalloc_avail _, kmalloc_rcTree _, hpool⟩,
      fun _ => .inl (.inr (.inl hfalse))⟩
  | noFork parent _ hproc hheap hfork =>
    cases Except.ok.inj h
    cases hhead : (k.vmm.pagemap parent.pagemap).vmaHead with
    | none =>
      obtain ⟨child, hnone, -⟩ := VMM.fork_of_bare (by rw [kmalloc_pagemap]; exact hhead) hfork
      cases hnone
    | some =>
      constructor
      . intro hclean
        rw [(hclean.head hproc hheap).1] at hhead
        cases hhead
      . intro hnone
        rcases fork_spends hk hproc hhead hfork with hno | ⟨child, hsome, -⟩ | ⟨-, hpool⟩
        . exact .inr hno
        . cases hsome
        . exact absurd (samePool_kmalloc.mpr hnone.pool) hpool
  | noTable parent _ _ _ _ hproc hheap hfork hdup hdestroy =>
    cases Except.ok.inj h
    cases hhead : (k.vmm.pagemap parent.pagemap).vmaHead with
    | none =>
      have hfirst := kmalloc_fork (by rw [kmalloc_pagemap]; exact hhead) hfork
      rw [noTable_noTrace_iff hk hhead hfork hdestroy, hdup.kept_iff, hfirst]
      exact ⟨fun hclean => (hclean.head hproc hheap).2,
        fun hfails => .inl (.inr (.inr ⟨parent, hproc, hhead, hfails⟩))⟩
    | some =>
      constructor
      . intro hclean
        rw [(hclean.head hproc hheap).1] at hhead
        cases hhead
      . intro hnone
        rcases noTable_trace hk hproc hhead hfork hdestroy with hno | hpool
        . exact .inr hno
        . exact absurd hnone.pool hpool
  | child parent _ _ _ _ hproc hheap hfork hheap' hdup hchildren =>
    -- whatever `ForkThread` does, the child is in the list of its parent
    have hne : k'.children ≠ k.children := by
      obtain ⟨⟨tid, k2⟩, hthread, h⟩ := VMM.bind_ok.mp h
      have hsame := forkThread_children hthread
      cases tid with
      | some => cases Except.ok.inj h
      | none =>
        cases Except.ok.inj h
        rw [hsame, hchildren]
        exact update_append_ne _ _
    constructor
    . intro hclean
      obtain ⟨hhead, hfalse | hnone⟩ := hclean.head hproc hheap
      . rw [← kmalloc_fork (by rw [kmalloc_pagemap]; exact hhead) hfork, hheap'] at hfalse
        cases hfalse
      . exact absurd hnone.1 hdup
    . exact fun hnone => absurd hnone.children hne

def firstProcess (vmm : VMM.State) (heap : List Bool) : Kernel where
  vmm := { vmm with heap }
  schedPid := 1
  schedTid := 1
  blocks := 0
  pidTree := {1}
  children := fun _ => []
  threads := fun _ => []
  runQueue := fun _ => []

def forkFirst (pagemap : Nat) : Call where
  proc := some { id := 1, pagemap, fdMan := .init }
  fdMem := 0
  cpu := 0
  fxPages := 1
  fxRand := 0
  stackRand := 0
  exiting := false

theorem firstProcess_sound {σ : VMM.Sys} {pm : Nat} (h : VMM.Sound σ) (hlive : VMM.Live σ.vmm pm)
    (hnodup : σ.vmm.nodeFreeList.Nodup) (heap : List Bool)
    : Sound (firstProcess σ.vmm heap) (forkFirst pm) := by
  refine ⟨h.held.backed.congr rfl rfl, hnodup, ?_⟩
  intro parent hparent
  cases Option.some.inj hparent
  apply (h.held.out (some pm) pm _).out
  show pm ∈ VMM.own σ.vmm pm
  rw [VMM.own, if_neg hlive]
  exact Multiset.mem_cons_self _ _

/--
`NewPM` found no memory for a sentinel, and there is none for the descriptor table of the child.
-/
theorem fork_leaves_no_trace_table
    : ∃ σ k', Steps.Reach (fun σ op => (VMM.spaceExec σ op).toOption) VMM.ProperOp VMM.bootSys σ
      ∧ sysFork (firstProcess σ.vmm [true, false]) (forkFirst 102400) = .ok (none, k')
      ∧ NoTrace (firstProcess σ.vmm [true, false]) k' := by
  obtain ⟨σ, hreach, hlive, hnodup, hhead, hrun⟩ := Steps.Reach.exists_of_run
    (fun σ op => (VMM.spaceExec σ op).toOption) VMM.ProperOp VMM.bootSys VMM.scarceOps
    (fun σ => VMM.Live σ.vmm 102400 ∧ σ.vmm.nodeFreeList.Nodup
      ∧ (σ.vmm.pagemap 102400).vmaHead = none
      ∧ ∃ res ∈ (sysFork (firstProcess σ.vmm [true, false])
        (forkFirst 102400)).toOption, res.1 = none)
    (by decide +kernel)
  obtain ⟨⟨res, k'⟩, hrun, rfl⟩ := VMM.exists_ok hrun
  have hsound := firstProcess_sound (VMM.bootSys_booted.sound_of_reach hreach) hlive hnodup [true,
    false]
  refine ⟨σ, k', hreach, hrun, (fork_leaves_no_trace hsound hrun).1 ?_⟩
  exact .inr (.inr ⟨_, rfl, hhead, .inl rfl⟩)

/--
There is no memory for the thread, and the child stays in the tree and in the list of its parent.
-/
theorem fork_leaves_child
    : ∃ k', sysFork (firstProcess VMM.newSpace [true, true, false])
      (forkFirst 4096) = .ok (none, k')
      ∧ 2 ∈ k'.pidTree ∧ k'.children 1 = [2] ∧ .proc 2 ∈ k'.blocks
      ∧ ¬NoTrace (firstProcess VMM.newSpace [true, true, false]) k' := by
  have hrun : ∃ res ∈ (sysFork (firstProcess VMM.newSpace [true, true, false])
      (forkFirst 4096)).toOption,
      res.1 = none ∧ 2 ∈ res.2.pidTree ∧ res.2.children 1 = [2] ∧ .proc 2 ∈ res.2.blocks := by
    decide +kernel
  obtain ⟨⟨res, k'⟩, hrun, rfl, htree, hchildren, hblock⟩ := VMM.exists_ok hrun
  refine ⟨k', hrun, htree, hchildren, hblock, fun hnone => ?_⟩
  have hsame := congrFun hnone.children 1
  rw [hchildren] at hsame
  cases hsame

end Fork
