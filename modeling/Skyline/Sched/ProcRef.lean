import Skyline.Steps.Basic

/-!
This module contains the life of the process structures.
-/

namespace ProcRef

open Function

/--
How far the process has got in `DeleteProc` or `PROC_KILL`.
-/
inductive Exit where
  | none
  | marked
  | detached
  | queued
deriving DecidableEq

/--
How far `DrainProcZombieList` has got with the process.
-/
inductive Drain where
  | idle
  | taken
  | unlinked
  | orphaned
  | reclaimed
  | dropped
deriving DecidableEq

structure Proc where
  refcount : Int
  exiting : Bool
  parent : Option Nat
  children : List Nat
  inTree : Bool
  resources : Bool
  exit : Exit
  drain : Drain
  holders : List Nat
  frees : Nat
deriving DecidableEq

structure State where
  proc : Nat → Option Proc
  zombies : List Nat

def init : State where
  proc := fun _ => none
  zombies := []

namespace State

def set (s : State) (p : Nat) (x : Proc) : State :=
  { s with proc := update s.proc p (some x) }

def modify (s : State) (p : Nat) (f : Proc → Proc) : State :=
  match s.proc p with
  | none => s
  | some x => s.set p (f x)

end State

inductive Event where
  | newProcess (p : Nat)
  | forkProcess (parent p : Nat)
  | get (p holder : Nat)
  | put (p holder : Nat)
  | mark (p : Nat)
  | detach (p : Nat)
  | enqueue (p : Nat)
  | takeZombie (p : Nat)
  | unlink (p : Nat)
  | orphan (p : Nat)
  | reclaim (p : Nat)
  | drop (p : Nat)
deriving DecidableEq

def created (parent : Option Nat) : Proc where
  refcount := 1
  exiting := false
  parent := parent
  children := []
  inTree := true
  resources := true
  exit := .none
  drain := .idle
  holders := []
  frees := 0

def newProcess (s : State) (p : Nat) : Option State :=
  match s.proc p with
  | some _ => none
  | none => some (s.set p (created none))

def forkProcess (s : State) (parent p : Nat) : Option State :=
  match s.proc p, s.proc parent with
  | none, some x =>
    some ((s.set parent { x with children := x.children ++ [p] }).set p (created (some parent)))
  | _, _ => none

def procGet (x : Proc) (holder : Nat) : Option Proc :=
  if x.inTree then
    some { x with refcount := x.refcount + 1, holders := holder :: x.holders }
  else
    none

def procPut (x : Proc) (holder : Nat) : Option Proc :=
  if holder ∈ x.holders then
    some { x with refcount := x.refcount - 1, holders := x.holders.erase holder }
  else
    none

def mark (x : Proc) : Proc :=
  if x.exiting then x else { x with exiting := true, exit := .marked }

def enqueueProcZombie (s : State) (p : Nat) : State :=
  { s with zombies := p :: s.zombies }

def detach (s : State) (p : Nat) (x : Proc) : Option State :=
  if x.exit = .marked then
    let s :=
      match x.parent with
      | none => s
      | some parent => s.modify parent fun y => { y with children := y.children.erase p }
    some (s.modify p fun x => { x with parent := none, exit := .detached })
  else
    none

def enqueue (s : State) (p : Nat) (x : Proc) : Option State :=
  if x.exit = .detached then
    some (enqueueProcZombie (s.set p { x with exit := .queued }) p)
  else
    none

def takeZombie (s : State) (p : Nat) (x : Proc) : Option State :=
  if p ∈ s.zombies then
    some { s.set p { x with drain := .taken } with zombies := s.zombies.erase p }
  else
    none

def unlink (x : Proc) : Option Proc :=
  if x.drain = .taken then some { x with inTree := false, drain := .unlinked } else none

/--
One turn of the loop over the children: a child that is not exiting is put on the zombie list as it
is.
-/
def orphanChild (s : State) (child : Nat) : State :=
  match s.proc child with
  | none => s
  | some y =>
    if y.exiting then s.set child { y with parent := none }
    else enqueueProcZombie (s.set child { y with exiting := true, parent := none }) child

def orphan (s : State) (p : Nat) (x : Proc) : Option State :=
  if x.drain = .unlinked then
    let s := x.children.foldl orphanChild s
    some (s.modify p fun x => { x with children := [], drain := .orphaned })
  else
    none

def reclaim (x : Proc) : Option Proc :=
  if x.drain = .orphaned then some { x with resources := false, drain := .reclaimed } else none

def drop (x : Proc) : Option Proc :=
  if x.drain = .reclaimed then
    let n := x.refcount - 1
    some { x with
      refcount := n
      drain := .dropped
      frees := if n = 0 then x.frees + 1 else x.frees }
  else
    none

def onProc (s : State) (p : Nat) (f : Proc → Option Proc) : Option State :=
  (s.proc p).bind fun x => (f x).map (s.set p)

def step (s : State) : Event → Option State
  | .newProcess p => newProcess s p
  | .forkProcess parent p => forkProcess s parent p
  | .get p holder => onProc s p fun x => procGet x holder
  | .put p holder => onProc s p fun x => procPut x holder
  | .mark p => onProc s p fun x => some (mark x)
  | .detach p => (s.proc p).bind (detach s p)
  | .enqueue p => (s.proc p).bind (enqueue s p)
  | .takeZombie p => (s.proc p).bind (takeZombie s p)
  | .unlink p => onProc s p unlink
  | .orphan p => (s.proc p).bind (orphan s p)
  | .reclaim p => onProc s p reclaim
  | .drop p => onProc s p drop

/--
When `DrainProcZombieList` drops the reference of the process table it is the last one, and when it
goes through the children of a process all of them are exiting.
-/
def Proper (s : State) (e : Event) : Prop :=
  match e with
  | .drop p => ∀ x ∈ s.proc p, x.refcount = 1
  | .orphan p => ∀ x ∈ s.proc p, ∀ child ∈ x.children, ∀ y ∈ s.proc child, y.exiting
  | _ => True

instance (s : State) (e : Event) : Decidable (Proper s e) := by
  unfold Proper
  cases e <;> infer_instance

def Proc.tableRefs (x : Proc) : Nat := if x.drain = .dropped then 0 else 1

/--
A process is on the zombie list from the end of its exit until `DrainProcZombieList` takes it.
-/
structure Ok (x : Proc) (listed : Prop) : Prop where
  refcount : x.refcount = x.holders.length + x.tableRefs
  inTree : x.inTree ↔ x.drain = .idle ∨ x.drain = .taken
  exiting : x.exiting ↔ x.exit ≠ .none
  queued : x.exit = .queued ↔ listed ∨ x.drain ≠ .idle
  once : listed → x.drain = .idle
  dropped : x.drain = .dropped → x.holders = []
  frees : x.frees = if x.drain = .dropped then 1 else 0

structure Inv (s : State) : Prop where
  nodup : s.zombies.Nodup
  known : ∀ p ∈ s.zombies, s.proc p ≠ none
  ok : ∀ p x, s.proc p = some x → Ok x (p ∈ s.zombies)

section

variable {s s' : State} {p holder : Nat} {x x' : Proc} {listed : Prop}

theorem Ok.get (h : Ok x listed) (hs : procGet x holder = some x') : Ok x' listed := by
  simp only [procGet, Option.ite_none_right_eq_some, Option.some.injEq] at hs
  obtain ⟨htree, rfl⟩ := hs
  have hdrain := h.inTree.mp htree
  refine ⟨?_, h.inTree, h.exiting, h.queued, h.once, ?_, h.frees⟩
  . have hrefs := h.refcount
    simp only [Proc.tableRefs, List.length_cons] at hrefs ⊢
    omega
  . intro hdropped
    simp only at hdropped
    simp [hdropped] at hdrain

theorem Ok.put (h : Ok x listed) (hs : procPut x holder = some x') : Ok x' listed := by
  simp only [procPut, Option.ite_none_right_eq_some, Option.some.injEq] at hs
  obtain ⟨hholder, rfl⟩ := hs
  have hlen := List.length_erase_add_one hholder
  refine ⟨?_, h.inTree, h.exiting, h.queued, h.once, ?_, h.frees⟩
  . have hrefs := h.refcount
    simp only [Proc.tableRefs] at hrefs ⊢
    omega
  . intro hdropped
    simp only
    rw [h.dropped hdropped]
    rfl

theorem Ok.mark (h : Ok x listed) : Ok (mark x) listed := by
  unfold ProcRef.mark
  split
  next => exact h
  next hexiting =>
    have hnone : x.exit = .none := Classical.byContradiction fun hne => hexiting (h.exiting.mpr hne)
    refine ⟨h.refcount, h.inTree, by simp, ?_, h.once, h.dropped, h.frees⟩
    have hnot := h.queued
    rw [hnone] at hnot
    simp only [reduceCtorEq, false_iff] at hnot ⊢
    exact hnot

theorem Ok.advance (h : Ok x listed) {inTree resources : Bool} {drain : Drain}
    (htree : inTree ↔ drain = .idle ∨ drain = .taken) (hbusy : x.drain ≠ .idle)
    (hkept : x.drain ≠ .dropped) (hbusy' : drain ≠ .idle) (hkept' : drain ≠ .dropped)
    : Ok { x with inTree, resources, drain } listed := by
  have hrefs := h.refcount
  have hfrees := h.frees
  simp only [Proc.tableRefs, if_neg hkept] at hrefs hfrees
  refine ⟨?_, htree, h.exiting, ?_, fun hq => absurd (h.once hq) hbusy,
    fun hdropped => absurd hdropped hkept', ?_⟩
  . rw [hrefs, Proc.tableRefs, if_neg hkept']
  . simp only [hbusy', ne_eq, not_false_iff, or_true, iff_true]
    exact h.queued.mpr (.inr hbusy)
  . rw [hfrees, if_neg hkept']

theorem Ok.unlink (h : Ok x listed) (hs : unlink x = some x') : Ok x' listed := by
  simp only [ProcRef.unlink, Option.ite_none_right_eq_some, Option.some.injEq] at hs
  obtain ⟨hdrain, rfl⟩ := hs
  apply h.advance <;> simp [hdrain]

theorem Ok.reclaim (h : Ok x listed) (hs : reclaim x = some x') : Ok x' listed := by
  simp only [ProcRef.reclaim, Option.ite_none_right_eq_some, Option.some.injEq] at hs
  obtain ⟨hdrain, rfl⟩ := hs
  apply h.advance <;> simp [h.inTree, hdrain]

theorem Ok.drop (h : Ok x listed) (hone : x.refcount = 1) (hs : drop x = some x')
    : Ok x' listed := by
  simp only [ProcRef.drop, Option.ite_none_right_eq_some, Option.some.injEq] at hs
  obtain ⟨hdrain, rfl⟩ := hs
  have hrefs := h.refcount
  have hfrees := h.frees
  simp only [Proc.tableRefs, hdrain, reduceCtorEq, if_false] at hrefs hfrees
  have hnil : x.holders = [] := by
    apply List.eq_nil_of_length_eq_zero
    omega
  have hbusy : x.drain ≠ .idle := by simp [hdrain]
  refine ⟨?_, ?_, h.exiting, ?_, fun hq => absurd (h.once hq) hbusy, fun _ => hnil, ?_⟩
  . simp [Proc.tableRefs, hnil, hone]
  . simp [h.inTree, hdrain]
  . simp [h.queued, hbusy]
  . simp [hone, hfrees]

theorem Inv.set (h : Inv s) (hx : s.proc p = some x)
    (hok : Ok x (p ∈ s.zombies) → Ok x' (p ∈ s.zombies))
    : Inv (s.set p x') := by
  refine ⟨h.nodup, fun q hq => ?_, fun q y hq => ?_⟩
  . by_cases heq : q = p
    . subst heq
      simp [State.set]
    . simp only [State.set, update_of_ne heq]
      exact h.known q hq
  . by_cases heq : q = p
    . subst heq
      simp only [State.set, update_self, Option.some.injEq] at hq
      subst hq
      exact hok (h.ok q x hx)
    . simp only [State.set, update_of_ne heq] at hq
      exact h.ok q y hq

theorem Inv.modify (h : Inv s) (f : Proc → Proc)
    (hok : ∀ x, s.proc p = some x → Ok x (p ∈ s.zombies) → Ok (f x) (p ∈ s.zombies))
    : Inv (s.modify p f) := by
  unfold State.modify
  split
  next => exact h
  next x hx => exact h.set hx (hok x hx)

theorem Inv.onProc (h : Inv s) {f : Proc → Option Proc} (hs : onProc s p f = some s')
    (hok : ∀ x x', s.proc p = some x → f x = some x' → Ok x (p ∈ s.zombies) → Ok x' (p ∈ s.zombies))
    : Inv s' := by
  simp only [ProcRef.onProc, Option.bind_eq_some_iff, Option.map_eq_some_iff] at hs
  obtain ⟨x, hx, x', hx', rfl⟩ := hs
  exact h.set hx (hok x x' hx hx')

theorem created_ok (parent : Option Nat) (hlisted : ¬listed) : Ok (created parent) listed := by
  constructor <;> simp [created, Proc.tableRefs, hlisted]

theorem Inv.create (h : Inv s) (hnone : s.proc p = none) (parent : Option Nat)
    : Inv (s.set p (created parent)) := by
  have hnot : p ∉ s.zombies := fun hmem => h.known p hmem hnone
  refine ⟨h.nodup, fun q hq => ?_, fun q y hq => ?_⟩
  . by_cases heq : q = p
    . exact absurd (heq ▸ hq) hnot
    . simp only [State.set, update_of_ne heq]
      exact h.known q hq
  . by_cases heq : q = p
    . subst heq
      simp only [State.set, update_self, Option.some.injEq] at hq
      subst hq
      exact created_ok parent hnot
    . simp only [State.set, update_of_ne heq] at hq
      exact h.ok q y hq

theorem Ok.family (h : Ok x listed) (parent : Option Nat) (children : List Nat)
    : Ok { x with parent, children } listed :=
  ⟨h.refcount, h.inTree, h.exiting, h.queued, h.once, h.dropped, h.frees⟩

theorem Inv.fork (h : Inv s) {parent : Nat} (hs : forkProcess s parent p = some s') : Inv s' := by
  unfold forkProcess at hs
  split at hs
  next hnone hparent =>
    cases hs
    apply (h.set hparent fun hok => hok.family _ _).create
    have hne : p ≠ parent := by
      rintro rfl
      rw [hnone] at hparent
      cases hparent
    simp only [State.set, update_of_ne hne]
    exact hnone
  next => cases hs

theorem Inv.detach (h : Inv s) (hx : s.proc p = some x) (hs : detach s p x = some s') : Inv s' := by
  simp only [ProcRef.detach, Option.ite_none_right_eq_some, Option.some.injEq] at hs
  obtain ⟨hmarked, rfl⟩ := hs
  have hdetached : ∀ {t : State}, Inv t → (∀ y, t.proc p = some y → y.exit = .marked)
      → Inv (t.modify p fun x => { x with parent := none, exit := .detached }) := by
    intro t ht hexit
    apply ht.modify
    intro y hy hok
    have hmarked := hexit y hy
    have hexiting := hok.exiting
    have hqueued := hok.queued
    rw [hmarked] at hexiting hqueued
    simp only [ne_eq, reduceCtorEq, not_false_iff, iff_true, false_iff] at hexiting hqueued
    refine ⟨hok.refcount, hok.inTree, ?_, ?_, hok.once, hok.dropped, hok.frees⟩
    . simpa using hexiting
    . simpa using hqueued
  cases hparent : x.parent with
  | none =>
    apply hdetached h
    intro y hy
    rw [hx] at hy
    exact Option.some.inj hy ▸ hmarked
  | some parent =>
    apply hdetached (h.modify _ fun y _ hok => hok.family _ _)
    intro y hy
    unfold State.modify at hy
    split at hy
    next =>
      rw [hx] at hy
      exact Option.some.inj hy ▸ hmarked
    next z hz =>
      by_cases heq : p = parent
      . subst heq
        rw [hx] at hz
        cases hz
        simp only [State.set, update_self, Option.some.injEq] at hy
        exact hy ▸ hmarked
      . simp only [State.set, update_of_ne heq, hx, Option.some.injEq] at hy
        exact hy ▸ hmarked

theorem Inv.enqueue (h : Inv s) (hx : s.proc p = some x) (hs : enqueue s p x = some s')
    : Inv s' := by
  simp only [ProcRef.enqueue, Option.ite_none_right_eq_some, Option.some.injEq] at hs
  obtain ⟨hexit, rfl⟩ := hs
  have hok := h.ok p x hx
  have hexiting := hok.exiting
  have hqueued := hok.queued
  rw [hexit] at hexiting hqueued
  simp only [ne_eq, reduceCtorEq, not_false_iff, iff_true, false_iff, not_or, not_not]
    at hexiting hqueued
  refine ⟨List.nodup_cons.mpr ⟨hqueued.1, h.nodup⟩, fun q hq => ?_, fun q y hq => ?_⟩
  . by_cases heq : q = p
    . subst heq
      simp [enqueueProcZombie, State.set]
    . simp only [enqueueProcZombie, State.set, update_of_ne heq]
      exact h.known q (List.mem_of_ne_of_mem heq hq)
  . by_cases heq : q = p
    . subst heq
      simp only [enqueueProcZombie, State.set, update_self, Option.some.injEq] at hq
      subst hq
      refine ⟨hok.refcount, hok.inTree, ?_, ?_, fun _ => hqueued.2, hok.dropped, hok.frees⟩
      . simpa using hexiting
      . simp [enqueueProcZombie]
    . simp only [enqueueProcZombie, State.set, update_of_ne heq] at hq
      have hmem : (q ∈ p :: s.zombies) = (q ∈ s.zombies) := by simp [heq]
      exact hmem ▸ h.ok q y hq

theorem Inv.takeZombie (h : Inv s) (hx : s.proc p = some x) (hs : takeZombie s p x = some s')
    : Inv s' := by
  simp only [ProcRef.takeZombie, Option.ite_none_right_eq_some, Option.some.injEq] at hs
  obtain ⟨hzombie, rfl⟩ := hs
  have hok := h.ok p x hx
  have hidle := hok.once hzombie
  have hqueued := hok.queued.mpr (.inl hzombie)
  refine ⟨h.nodup.erase p, fun q hq => ?_, fun q y hq => ?_⟩
  . by_cases heq : q = p
    . subst heq
      simp [State.set]
    . simp only [State.set, update_of_ne heq]
      exact h.known q (List.mem_of_mem_erase hq)
  . by_cases heq : q = p
    . subst heq
      simp only [State.set, update_self, Option.some.injEq] at hq
      subst hq
      have hgone : q ∉ s.zombies.erase q := h.nodup.not_mem_erase
      have hrefs := hok.refcount
      have htree := hok.inTree
      have hfrees := hok.frees
      simp only [Proc.tableRefs, hidle] at hrefs htree hfrees
      exact ⟨hrefs, by simpa using htree, hok.exiting, by simpa using hqueued,
        fun hq => absurd hq hgone, nofun, hfrees⟩
    . simp only [State.set, update_of_ne heq] at hq
      have hmem : (q ∈ s.zombies.erase p) = (q ∈ s.zombies) := propext (List.mem_erase_of_ne heq)
      exact hmem ▸ h.ok q y hq

theorem orphanChildren (h : Inv s) (children : List Nat)
    (hall : ∀ child ∈ children, ∀ y ∈ s.proc child, y.exiting)
    : Inv (children.foldl orphanChild s)
      ∧ ∀ q y, (children.foldl orphanChild s).proc q = some y →
        ∃ z, s.proc q = some z ∧ y.drain = z.drain ∧ y.exiting = z.exiting := by
  induction children generalizing s with
  | nil => exact ⟨h, fun q y hy => ⟨y, hy, rfl, rfl⟩⟩
  | cons child children ih =>
    have hfirst : Inv (orphanChild s child)
        ∧ ∀ q y, (orphanChild s child).proc q = some y →
          ∃ z, s.proc q = some z ∧ y.drain = z.drain ∧ y.exiting = z.exiting := by
      unfold orphanChild
      split
      next => exact ⟨h, fun q y hy => ⟨y, hy, rfl, rfl⟩⟩
      next y hy =>
        rw [if_pos (hall child List.mem_cons_self y hy)]
        refine ⟨h.set hy fun hok => hok.family none y.children, fun q z hz => ?_⟩
        by_cases heq : q = child
        . subst heq
          simp only [State.set, update_self, Option.some.injEq] at hz
          exact ⟨y, hy, hz ▸ rfl, hz ▸ rfl⟩
        . simp only [State.set, update_of_ne heq] at hz
          exact ⟨z, hz, rfl, rfl⟩
    have hrest := ih hfirst.1 (by
      intro c hc y hy
      obtain ⟨z, hz, -, hsame⟩ := hfirst.2 c y hy
      rw [hsame]
      exact hall c (List.mem_cons_of_mem _ hc) z hz)
    refine ⟨hrest.1, fun q y hy => ?_⟩
    obtain ⟨z, hz, hdrain, hexiting⟩ := hrest.2 q y hy
    obtain ⟨w, hw, hdrain', hexiting'⟩ := hfirst.2 q z hz
    exact ⟨w, hw, hdrain.trans hdrain', hexiting.trans hexiting'⟩

theorem Inv.orphan (h : Inv s) (hx : s.proc p = some x) (hs : orphan s p x = some s')
    (hall : ∀ child ∈ x.children, ∀ y ∈ s.proc child, y.exiting) : Inv s' := by
  simp only [ProcRef.orphan, Option.ite_none_right_eq_some, Option.some.injEq] at hs
  obtain ⟨hunlinked, rfl⟩ := hs
  obtain ⟨hinv, hsame⟩ := orphanChildren h x.children hall
  apply hinv.modify
  intro y hy hok
  obtain ⟨z, hz, hdrain, -⟩ := hsame p y hy
  rw [hx] at hz
  cases hz
  rw [hunlinked] at hdrain
  have hnext : Ok { y with drain := .orphaned } (p ∈ (x.children.foldl orphanChild s).zombies) := by
    apply hok.advance <;> simp [hok.inTree, hdrain]
  exact hnext.family y.parent []

theorem Inv.step (h : Inv s) (e : Event) (hok : Proper s e) (hs : step s e = some s') : Inv s' := by
  cases e with
  | newProcess =>
    simp only [ProcRef.step, newProcess] at hs
    split at hs
    next => cases hs
    next hnone =>
      cases hs
      exact h.create hnone none
  | forkProcess => exact h.fork hs
  | get => exact h.onProc hs fun _ _ _ hx' hok => hok.get hx'
  | put => exact h.onProc hs fun _ _ _ hx' hok => hok.put hx'
  | mark =>
    apply h.onProc hs
    intro x x' _ hx' hok
    exact Option.some.inj hx' ▸ hok.mark
  | detach =>
    obtain ⟨x, hx, hs⟩ := Option.bind_eq_some_iff.mp hs
    exact h.detach hx hs
  | enqueue =>
    obtain ⟨x, hx, hs⟩ := Option.bind_eq_some_iff.mp hs
    exact h.enqueue hx hs
  | takeZombie =>
    obtain ⟨x, hx, hs⟩ := Option.bind_eq_some_iff.mp hs
    exact h.takeZombie hx hs
  | unlink => exact h.onProc hs fun _ _ _ hx' hok => hok.unlink hx'
  | orphan =>
    obtain ⟨x, hx, hs⟩ := Option.bind_eq_some_iff.mp hs
    exact h.orphan hx hs (hok x hx)
  | reclaim => exact h.onProc hs fun _ _ _ hx' hok => hok.reclaim hx'
  | drop => exact h.onProc hs fun x _ hx hx' hx'' => hx''.drop (hok x hx) hx'

theorem inv_init : Inv init :=
  ⟨List.nodup_nil, fun _ h => absurd h List.not_mem_nil, fun _ _ h => by cases h⟩

end

def FreedAtZero (x : Proc) : Prop := x.frees = if x.refcount = 0 then 1 else 0

/--
A structure is freed once when its count is zero and not before, and then its process has gone
through its exit and nobody has a reference.
-/
theorem freed_at_zero (s : State) (h : Steps.Reach step Proper init s) (p : Nat) (x : Proc)
    (hx : s.proc p = some x)
    : FreedAtZero x ∧ (0 < x.frees → x.exit = .queued ∧ x.holders = []) := by
  have hok := (h.invariant Inv inv_init fun _ e _ hi he hs => hi.step e he hs).ok p x hx
  have hrefs := hok.refcount
  have hfrees := hok.frees
  by_cases hdropped : x.drain = .dropped
  . have hnil := hok.dropped hdropped
    simp only [Proc.tableRefs, hdropped, if_true, hnil, List.length_nil] at hrefs hfrees
    refine ⟨?_, fun _ => ⟨hok.queued.mpr (.inr (by simp [hdropped])), hnil⟩⟩
    rw [FreedAtZero, hfrees, if_pos (by omega)]
  . simp only [Proc.tableRefs, hdropped, if_false] at hrefs hfrees
    refine ⟨?_, fun hpos => by omega⟩
    rw [FreedAtZero, hfrees, if_neg (by omega)]

def exitOf (p : Nat) : List Event := [.mark p, .detach p, .enqueue p]

def drainOf (p : Nat) : List Event := [.takeZombie p, .unlink p, .orphan p, .reclaim p, .drop p]

/--
A child is killed and then its parent exits. The caller of `sys_kill` has dropped its reference
before the structure of the child is reclaimed.
-/
theorem freed_at_zero_killed
    : ∃ s x, Steps.Reach step Proper init s ∧ s.proc 2 = some x ∧ x.refcount = 0 ∧ FreedAtZero x
      ∧ x.exit = .queued := by
  obtain ⟨s, hreach, hx⟩ := Steps.Reach.exists_of_run step Proper init
    ([.newProcess 1, .forkProcess 1 2, .get 2 7] ++ exitOf 2 ++ [.put 2 7] ++ exitOf 1 ++ drainOf 1
      ++ drainOf 2)
    (fun s => ∃ x ∈ s.proc 2, x.refcount = 0 ∧ 0 < x.frees) (by decide)
  obtain ⟨x, hx, hzero, hpos⟩ := hx
  have hfreed := freed_at_zero s hreach 2 x hx
  exact ⟨s, x, hreach, hx, hzero, hfreed.1, (hfreed.2 hpos).1⟩

/--
The caller of `sys_kill` drops its reference after the reclaimer, and nobody frees the structure. A
parent exits before its child, and the child is freed although it runs.
-/
theorem freed_never_or_alive
    : (∃ s, Steps.Reach step (fun _ _ => True) init s
        ∧ ∃ x ∈ s.proc 1, x.exit = .queued ∧ x.refcount = 0 ∧ x.frees = 0 ∧ x.holders = [])
      ∧ ∃ s, Steps.Reach step (fun _ _ => True) init s
        ∧ ∃ x ∈ s.proc 2, x.exit = .none ∧ x.frees = 1 := by
  constructor
  . exact Steps.Reach.exists_of_run step (fun _ _ => True) init
      ([.newProcess 1, .get 1 7] ++ exitOf 1 ++ drainOf 1 ++ [.put 1 7])
      (fun s => ∃ x ∈ s.proc 1, x.exit = .queued ∧ x.refcount = 0 ∧ x.frees = 0 ∧ x.holders = [])
      (by decide)
  . exact Steps.Reach.exists_of_run step (fun _ _ => True) init
      ([.newProcess 1, .forkProcess 1 2] ++ exitOf 1 ++ drainOf 1 ++ drainOf 2)
      (fun s => ∃ x ∈ s.proc 2, x.exit = .none ∧ x.frees = 1) (by decide)

end ProcRef
