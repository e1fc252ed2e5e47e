import Skyline.Comp.Registry

/-!
This module contains the safety of the workers of the compositor.
-/

namespace Comp

open Function

variable {s s' : State}

structure Tracked (all : List Nat) (bound : Nat) (freed : Nat → Bool) : Prop where
  nodup : all.Nodup
  lt : ∀ x ∈ all, x < bound
  live : ∀ x ∈ all, freed x = false
  freed : ∀ x, freed x = true → x < bound

namespace Tracked

variable {all all' ids retired : List Nat} {bound : Nat} {freed : Nat → Bool}

theorem perm (h : Tracked all bound freed) (hperm : all'.Perm all) : Tracked all' bound freed where
  nodup := hperm.nodup_iff.2 h.nodup
  lt := fun x hx => h.lt x (hperm.mem_iff.1 hx)
  live := fun x hx => h.live x (hperm.mem_iff.1 hx)
  freed := h.freed

theorem new (h : Tracked all bound freed) : Tracked (bound :: all) (bound + 1) freed where
  nodup := by
    rw [List.nodup_cons]
    exact ⟨fun hin => Nat.lt_irrefl _ (h.lt bound hin), h.nodup⟩
  lt := by
    intro x hx
    rcases List.mem_cons.1 hx with rfl | hx
    . exact Nat.lt_succ_self x
    . exact Nat.lt_succ_of_lt (h.lt x hx)
  live := by
    intro x hx
    rcases List.mem_cons.1 hx with rfl | hx
    . by_contra hne
      exact Nat.lt_irrefl _ (h.freed x (by simpa using hne))
    . exact h.live x hx
  freed := fun x hx => Nat.lt_succ_of_lt (h.freed x hx)

theorem reclaim (h : Tracked (ids ++ retired) bound freed)
    : Tracked (ids ++ []) bound fun x => freed x || decide (x ∈ retired) where
  nodup := by
    rw [List.append_nil]
    exact (List.nodup_append.1 h.nodup).1
  lt := by
    intro x hx
    rw [List.append_nil] at hx
    exact h.lt x (List.mem_append_left _ hx)
  live := by
    intro x hx
    rw [List.append_nil] at hx
    rw [h.live x (List.mem_append_left _ hx), Bool.false_or, decide_eq_false_iff_not]
    intro hretired
    exact (List.nodup_append.1 h.nodup).2.2 x hx x hretired rfl
  freed := by
    intro x hx
    rw [Bool.or_eq_true, decide_eq_true_iff] at hx
    rcases hx with hx | hx
    . exact h.freed x hx
    . exact h.lt x (List.mem_append_right _ hx)

end Tracked

def regNodes (layers : List Layer) : List Nat :=
  layers.flatMap Layer.nodeIds

structure Lists (s : State) : Prop where
  layers : Tracked (layerIds s ++ s.retireLayers) s.made s.freedLayer
  nodes : Tracked (regNodes s.layers ++ s.retireList) s.nodes s.freedNode

theorem Lists.layers_nodup (h : Lists s) : (layerIds s).Nodup :=
  (List.nodup_append.1 h.layers.nodup).1

theorem insertLayerOrdered_perm (layers : List Layer) (layer : Layer)
    : (insertLayerOrdered layers layer).Perm (layer :: layers) := by
  induction layers with
  | nil => exact .refl _
  | cons first rest ih =>
    unfold insertLayerOrdered
    split
    . exact (ih.cons first).trans (.swap layer first rest)
    . exact .refl _

theorem perm_filter {α : Type} (key : α → Nat) {l : List α} {x : α} (hnodup : (l.map key).Nodup)
    (hmem : x ∈ l)
    : l.Perm (x :: l.filter fun y => key y ≠ key x) := by
  induction l with
  | nil => cases hmem
  | cons first rest ih =>
    rw [List.map_cons, List.nodup_cons] at hnodup
    rcases List.mem_cons.1 hmem with rfl | hmem
    . have hrest : rest.filter (fun y => key y ≠ key x) = rest := by
        rw [List.filter_eq_self]
        intro y hy
        apply decide_eq_true
        intro heq
        apply hnodup.left
        rw [← heq]
        exact List.mem_map_of_mem hy
      rw [List.filter_cons_of_neg (by simp), hrest]
    . have hne : key first ≠ key x := by
        intro heq
        apply hnodup.left
        rw [heq]
        exact List.mem_map_of_mem hmem
      rw [List.filter_cons_of_pos (by simpa using hne)]
      exact ((ih hnodup.right hmem).cons first).trans (.swap _ _ _)

theorem regNodes_perm {layers layers' : List Layer} (h : layers.Perm layers')
    : (regNodes layers).Perm (regNodes layers') :=
  h.flatMap_right _

variable {layer : Layer}

theorem findLayer_some {l : Nat} (h : findLayer s l = some layer)
    : layer ∈ s.layers ∧ layer.id = l := by
  unfold findLayer at h
  have hid := List.find?_some h
  exact ⟨List.mem_of_find?_eq_some h, of_decide_eq_true hid⟩

theorem findNode_some {w : Nat} {node : WinNode} (h : findNode s w = some (layer, node))
    : layer ∈ s.layers ∧ node ∈ layer.nodes := by
  obtain ⟨layer', hlayer, hfind⟩ := List.exists_of_findSome?_eq_some h
  obtain ⟨node', hnode, heq⟩ := Option.map_eq_some_iff.1 hfind
  cases heq
  exact ⟨hlayer, List.mem_of_find?_eq_some hnode⟩

theorem setNodes_perm (h : Lists s) (hmem : layer ∈ s.layers) (nodes : List WinNode)
    : layerIds (setNodes s layer.id nodes) = layerIds s ∧
      (setNodes s layer.id nodes).layers.Perm
        ({ layer with nodes } :: s.layers.filter fun l => l.id ≠ layer.id) := by
  constructor
  . unfold layerIds setNodes
    rw [List.map_map]
    apply List.map_congr_left
    intro l _
    rw [comp_apply]
    split <;> rfl
  . have hperm := (perm_filter Layer.id h.layers_nodup hmem).map
      fun l => if l.id = layer.id then { l with nodes } else l
    rw [List.map_cons, if_pos rfl] at hperm
    have hrest : (s.layers.filter fun l => l.id ≠ layer.id).map
        (fun l => if l.id = layer.id then { l with nodes } else l) = s.layers.filter
        fun l => l.id ≠ layer.id := by
      conv => rhs; rw [← List.map_id (s.layers.filter fun l => l.id ≠ layer.id)]
      apply List.map_congr_left
      intro l hl
      rw [if_neg (of_decide_eq_true (List.mem_filter.1 hl).2), id]
    rw [hrest] at hperm
    exact hperm

theorem Lists.createLayer (h : Lists s) (z : Nat) : Lists (createLayer s z) where
  layers := by
    apply h.layers.new.perm
    exact ((insertLayerOrdered_perm s.layers ⟨s.made, z, []⟩).map Layer.id).append_right _
  nodes := by
    apply h.nodes.perm
    exact (regNodes_perm (insertLayerOrdered_perm s.layers ⟨s.made, z, []⟩)).append_right _

theorem retireLayer_lists (hmem : layer ∈ s.layers) (hnodup : (layerIds s).Nodup)
    (hlayers : Tracked (layerIds s ++ s.retireLayers) s.made s.freedLayer)
    (hnodes : Tracked (regNodes (s.layers.filter fun l => l.id ≠ layer.id) ++ s.retireList)
      s.nodes s.freedNode)
    : Lists (retireLayer s layer) where
  layers := by
    apply hlayers.perm
    have hperm := ((perm_filter Layer.id hnodup hmem).map Layer.id).append_right s.retireLayers
    exact (List.perm_middle.trans hperm.symm)
  nodes := hnodes

theorem Lists.destroyLayer (h : Lists s) (hmem : layer ∈ s.layers)
    : Lists (destroyLayer s layer) := by
  apply retireLayer_lists (s := retireNodes s layer) hmem h.layers_nodup h.layers
  apply h.nodes.perm
  have hperm := (regNodes_perm (perm_filter Layer.id h.layers_nodup hmem)).append_right s.retireList
  have hrest : (regNodes (s.layers.filter fun l => l.id ≠ layer.id)
    ++ (layer.nodeIds.reverse ++ s.retireList)).Perm
      (layer.nodeIds ++ regNodes (s.layers.filter fun l => l.id ≠ layer.id) ++ s.retireList) := by
    rw [← List.append_assoc]
    exact (List.perm_append_comm.trans (List.reverse_perm _ |>.append_right _)).append_right _
  exact hrest.trans hperm.symm

theorem Lists.registerWindow (h : Lists s) (hmem : layer ∈ s.layers) (w : Nat)
    : Lists (registerWindow s w layer) := by
  unfold Comp.registerWindow
  split
  . exact h
  . obtain ⟨hids, hperm⟩ := setNodes_perm h hmem (layer.nodes ++ [⟨s.nodes, w⟩])
    constructor
    . apply h.layers.perm
      exact .of_eq (congrArg (· ++ s.retireLayers) hids)
    . apply h.nodes.new.perm
      have hold := (regNodes_perm (perm_filter Layer.id h.layers_nodup hmem)).append_right
        s.retireList
      have hnew := (regNodes_perm hperm).append_right s.retireList
      apply hnew.trans
      have hcons : regNodes ({ layer with nodes := layer.nodes ++ [⟨s.nodes, w⟩] } ::
          s.layers.filter fun l => l.id ≠ layer.id) =
          layer.nodeIds ++ s.nodes :: regNodes (s.layers.filter fun l => l.id ≠ layer.id) := by
        simp [regNodes, Layer.nodeIds]
      rw [hcons, List.append_assoc, List.cons_append]
      apply List.perm_middle.trans
      apply List.Perm.cons
      rw [← List.append_assoc]
      exact hold.symm

theorem Lists.registerWindowAuto (h : Lists s) (w : Nat) : Lists (registerWindowAuto s w) := by
  unfold Comp.registerWindowAuto
  split
  . exact h
  . have hperm := fun z => insertLayerOrdered_perm s.layers ⟨s.made, z, [⟨s.nodes, w⟩]⟩
    constructor
    . apply h.layers.new.perm
      exact ((hperm _).map Layer.id).append_right _
    . apply h.nodes.new.perm
      exact (regNodes_perm (hperm _)).append_right _

theorem nodeIds_nodup (h : Lists s) (hmem : layer ∈ s.layers) : layer.nodeIds.Nodup := by
  have hall := (List.nodup_append.1 h.nodes.nodup).1
  exact (List.nodup_flatMap.1 hall).1 layer hmem

theorem Lists.unregisterWindow (h : Lists s) (w : Nat) : Lists (unregisterWindow s w) := by
  unfold Comp.unregisterWindow
  split
  next => exact h
  next layer node hfind =>
    obtain ⟨hlayer, hnode⟩ := findNode_some hfind
    dsimp only
    generalize hrest : (layer.nodes.filter fun n => n.id ≠ node.id) = rest
    obtain ⟨hids, hperm⟩ := setNodes_perm h hlayer rest
    have hnodePerm : layer.nodeIds.Perm (node.id :: rest.map WinNode.id) := by
      rw [← hrest]
      exact (perm_filter WinNode.id (nodeIds_nodup h hlayer) hnode).map WinNode.id
    -- The node goes from the registered ones to the retired ones.
    have hmove : (regNodes
      ({ layer with nodes := rest } :: s.layers.filter fun l => l.id ≠ layer.id) ++
        node.id :: s.retireList).Perm (regNodes s.layers ++ s.retireList) := by
      apply List.perm_middle.trans
      have hold := (regNodes_perm (perm_filter Layer.id h.layers_nodup hlayer)).append_right
        s.retireList
      apply List.Perm.trans _ hold.symm
      exact ((hnodePerm.symm.append_right _).append_right _)
    have hids' : layerIds { setNodes s layer.id rest with
        nodeNext := update s.nodeNext node.id (after layer.nodeIds node.id)
        retireList := node.id :: s.retireList } = layerIds s := hids
    split
    next hempty =>
      have hnew : ({ layer with nodes := rest } : Layer) ∈ (setNodes s layer.id rest).layers :=
        hperm.mem_iff.2 List.mem_cons_self
      refine retireLayer_lists (s := { setNodes s layer.id rest with
        nodeNext := update s.nodeNext node.id (after layer.nodeIds node.id)
        retireList := node.id :: s.retireList }) hnew ?_ ?_ ?_
      . rw [hids']
        exact h.layers_nodup
      . rw [hids']
        exact h.layers
      . apply h.nodes.perm
        apply List.Perm.trans _ hmove
        have hfilter : ((setNodes s layer.id rest).layers.filter fun l => l.id ≠ layer.id).Perm
            (s.layers.filter fun l => l.id ≠ layer.id) := by
          have := hperm.filter fun l => decide (l.id ≠ layer.id)
          rw [List.filter_cons_of_neg (by simp), List.filter_filter] at this
          simpa using this
        have hnil : regNodes ({ layer with nodes := rest } :: s.layers.filter
          fun l => l.id ≠ layer.id) =
            regNodes (s.layers.filter fun l => l.id ≠ layer.id) := by
          rw [hempty]
          rfl
        rw [hnil]
        exact (regNodes_perm hfilter).append_right _
    next =>
      constructor
      . rw [hids']
        exact h.layers
      . apply h.nodes.perm
        exact ((regNodes_perm hperm).append_right _).trans hmove

theorem relabel_ids (layers : List Layer) (zrel : Nat)
    : (relabel layers zrel).map Layer.id = layers.map Layer.id
      ∧ regNodes (relabel layers zrel) = regNodes layers := by
  induction layers generalizing zrel with
  | nil => exact ⟨rfl, rfl⟩
  | cons layer _ ih =>
    obtain ⟨hids, hnodes⟩ := ih (zrel + 1)
    constructor
    . unfold relabel
      rw [List.map_cons, List.map_cons, hids]
    . unfold relabel regNodes
      rw [List.flatMap_cons, List.flatMap_cons]
      exact congrArg (layer.nodeIds ++ ·) hnodes

theorem Lists.raiseWindow (h : Lists s) (w : Nat) : Lists (raiseWindow s w) := by
  unfold Comp.raiseWindow
  split
  next => exact h
  next layer node hfind =>
    obtain ⟨hlayer, -⟩ := findNode_some hfind
    split
    next => exact h
    next =>
      split
      next => exact h
      next =>
        dsimp only
        have hall := perm_filter Layer.id h.layers_nodup hlayer
        have hperm := fun z => insertLayerOrdered_perm
          (s.layers.filter fun l => l.id ≠ layer.id) { layer with z }
        constructor
        . apply h.layers.perm
          apply List.Perm.append_right
          unfold layerIds
          dsimp only
          rw [(relabel_ids _ _).left]
          exact ((hperm _).map Layer.id).trans (hall.map Layer.id).symm
        . apply h.nodes.perm
          apply List.Perm.append_right
          dsimp only
          rw [(relabel_ids _ _).right]
          exact (regNodes_perm (hperm _)).trans (regNodes_perm hall).symm

theorem Lists.reclaim (h : Lists s) : Lists (compReclaimRetired s) :=
  ⟨h.layers.reclaim, h.nodes.reclaim⟩

def Walk.On (s : State) : Walk → Prop
  | .row | .layer none => True
  | .layer (some l) => l ∈ layerIds s
  | .node l n => l ∈ layerIds s ∧ ∀ n' ∈ n, n' ∈ regNodes s.layers

theorem mem_of_after {l : List Nat} {x y : Nat} (h : after l x = some y) : y ∈ l := by
  induction l with
  | nil => cases h
  | cons a _ ih =>
    unfold after at h
    split at h
    . exact List.mem_cons_of_mem a (List.mem_of_head? h)
    . exact List.mem_cons_of_mem a (ih h)

theorem mem_regNodes {layers : List Layer} {n : Nat} (hlayer : layer ∈ layers)
    (hn : n ∈ layer.nodeIds)
    : n ∈ regNodes layers :=
  List.mem_flatMap.2 ⟨layer, hlayer, hn⟩

theorem walkStep_on {walk : Walk} (h : Lists s) (hon : walk.On s)
    : (walkStep s walk).2 = false ∧ ∀ walk' ∈ (walkStep s walk).1, walk'.On s := by
  have hlive : ∀ l ∈ layerIds s, s.freedLayer l = false :=
    fun l hl => h.layers.live l (List.mem_append_left _ hl)
  cases walk with
  | row =>
    refine ⟨rfl, ?_⟩
    intro walk' hwalk'
    cases hwalk'
    cases hhead : (layerIds s).head? with
    | none => trivial
    | some => exact List.mem_of_head? hhead
  | layer l =>
    cases l with
    | none => exact ⟨rfl, nofun⟩
    | some l =>
      refine ⟨hlive l hon, ?_⟩
      intro walk' hwalk'
      cases hwalk'
      refine ⟨hon, ?_⟩
      intro n hn
      unfold winHead at hn
      obtain ⟨layer, hlayer, hid⟩ := List.mem_map.1 hon
      cases hfind : findLayer s l with
      | none =>
        have := List.find?_eq_none.1 hfind layer hlayer
        simp [hid] at this
      | some =>
        rw [hfind] at hn
        exact mem_regNodes (findLayer_some hfind).left (List.mem_of_head? hn)
  | node l n =>
    cases n with
    | none =>
      refine ⟨hlive l hon.left, ?_⟩
      intro walk' hwalk'
      cases hwalk'
      have hnext : lNext s l = after (layerIds s) l := if_pos hon.left
      rw [hnext]
      cases hafter : after (layerIds s) l with
      | none => trivial
      | some => exact mem_of_after hafter
    | some n =>
      have hn := hon.right n rfl
      refine ⟨h.nodes.live n (List.mem_append_left _ hn), ?_⟩
      intro walk' hwalk'
      cases hwalk'
      refine ⟨hon.left, ?_⟩
      intro n' hn'
      unfold next at hn'
      obtain ⟨layer, hlayer, hin⟩ := List.mem_flatMap.1 hn
      cases hfind : s.layers.find? fun layer => n ∈ layer.nodeIds with
      | none =>
        have := List.find?_eq_none.1 hfind layer hlayer
        simp [hin] at this
      | some =>
        rw [hfind] at hn'
        exact mem_regNodes (List.mem_of_find?_eq_some hfind) (mem_of_after hn')

def Worker.Through (f : Nat) (w : Worker) : Prop :=
  w = .wait f ∨ w = .poll f

def Worker.InFrame (f : Nat) : Worker → Prop
  | .off => False
  | .wait seq | .poll seq => seq = f ∨ seq + 1 = f
  | .check seq | .render seq _ _ | .publish seq | .count seq => seq = f

structure Control where
  main : Main
  workers : Nat
  worker : Nat → Worker
  launched : Bool
  ncpus : Nat
  shutdown : Bool
  frameSeq : Nat
  doneCompose : Nat
  bad : Bool

def State.control (s : State) : Control where
  main := s.main
  workers := s.workers
  worker := s.worker
  launched := s.launched
  ncpus := s.ncpus
  shutdown := s.shutdown
  frameSeq := s.frameSeq
  doneCompose := s.doneCompose
  bad := s.bad

namespace Control

variable {c : Control}

def Peer (c : Control) (i : Nat) : Prop :=
  1 ≤ i ∧ i ≤ c.workers

def Between (c : Control) : Prop :=
  ∀ i, c.Peer i → (c.worker i).Through c.frameSeq

structure Within (c : Control) : Prop where
  inFrame : ∀ i, c.Peer i → (c.worker i).InFrame c.frameSeq
  counted : ∃ l : List Nat, l.Nodup ∧ l.length = c.doneCompose ∧
    ∀ i, i ∈ l ↔ c.Peer i ∧ (c.worker i).Through c.frameSeq

def Quiet (c : Control) : Prop :=
  ∀ i, ¬(c.worker i).Walking

inductive Phase (c : Control) : Prop where
  | between (hshut : c.shutdown = false)
    (hmain : c.main = .idle ∨ c.main = .reclaim) (h : c.Between)
  | bump (hshut : c.shutdown = false) (hmain : c.main = .bump) (hlaunched : c.launched = true)
    (hdone : c.doneCompose = 0) (h : c.Between)
  | within (hshut : c.shutdown = false) (hmain : c.main = .barrier ∨ c.main = .late)
    (hlaunched : c.launched = true)
    (h : c.Within)
  | wake (hshut : c.shutdown = true) (hmain : c.main = .wake) (h : c.Quiet)
  | stopped (hshut : c.shutdown = true) (hmain : c.main = .idle ∨ c.main = .reclaim)
    (hncpus : c.ncpus ≤ 1)
    (h : c.Quiet)

structure Frame (c : Control) : Prop where
  off : ∀ i, ¬c.Peer i → c.worker i = .off
  unlaunched : c.launched = false → c.workers = 0
  peers : c.shutdown = false → c.launched = true → c.workers ≤ c.ncpus - 1
  phase : c.Phase

end Control

open Control

theorem Worker.Through.not_walking {f : Nat} {w : Worker} (h : w.Through f) : ¬w.Walking := by
  rcases h with rfl | rfl <;> exact id

namespace Control.Frame

variable {c : Control}

theorem quiet (h : Frame c) (hpeer : ∀ i, c.Peer i → ¬(c.worker i).Walking) : c.Quiet := by
  intro i
  by_cases hi : c.Peer i
  . exact hpeer i hi
  . rw [h.off i hi]
    exact id

theorem not_walking (h : Frame c) (hmain : c.main ≠ .barrier ∧ c.main ≠ .late) : c.Quiet := by
  cases h.phase with
  | between _ _ hb => exact h.quiet fun i hi => (hb i hi).not_walking
  | bump _ _ _ _ hb => exact h.quiet fun i hi => (hb i hi).not_walking
  | within _ hm => exact absurd hm (not_or.2 hmain)
  | wake _ _ hq => exact hq
  | stopped _ _ _ hq => exact hq

theorem within_of_main (h : Frame c) (hmain : c.main = .barrier ∨ c.main = .late)
    : c.shutdown = false ∧ c.launched = true ∧ c.Within := by
  cases h.phase with
  | within hshut _ hlaunched hw => exact ⟨hshut, hlaunched, hw⟩
  | between _ hm | bump _ hm | wake _ hm | stopped _ hm =>
    rcases hmain with hmain | hmain <;> simp [hmain] at hm

theorem quiet_of_shutdown (h : Frame c) (hshut : c.shutdown = true) : c.Quiet := by
  cases h.phase with
  | between hrun | bump hrun | within hrun =>
    rw [hshut] at hrun
    cases hrun
  | wake _ _ hq => exact hq
  | stopped _ _ _ hq => exact hq

end Control.Frame

structure Inv (s : State) : Prop where
  lists : Lists s
  frame : Frame s.control
  walks : ∀ i seq y walk, s.worker i = .render seq y walk → walk.On s
  good : s.bad = false

theorem tracked_nil : Tracked [] 0 fun _ => false where
  nodup := List.nodup_nil
  lt := nofun
  live := nofun
  freed := nofun

theorem inv_init (height : Nat) : Inv (init height) where
  lists := ⟨tracked_nil, tracked_nil⟩
  frame := {
    off := fun _ _ => rfl
    unlaunched := fun _ => rfl
    peers := nofun
    phase := .between rfl (.inl rfl) fun _ hi => absurd hi.right (Nat.not_le.2 hi.left) }
  walks := nofun
  good := rfl

theorem Inv.registry (h : Inv s) (hmain : s.main = .idle) (hsame : s'.control = s.control)
    (hlists : Lists s')
    : Inv s' where
  lists := hlists
  frame := hsame ▸ h.frame
  walks := by
    intro i seq y walk hworker
    have hwalking := h.frame.not_walking (by simp [State.control, hmain]) i
    rw [← hsame] at hwalking
    exact absurd (show (s'.worker i).Walking by rw [hworker]; trivial) hwalking
  good := (congrArg Control.bad hsame).trans h.good

theorem unregisterWindow_control (s : State) (w : Nat)
    : (unregisterWindow s w).control = s.control := by
  unfold unregisterWindow
  split
  . rfl
  . dsimp only
    split <;> rfl

theorem raiseWindow_control (s : State) (w : Nat) : (raiseWindow s w).control = s.control := by
  unfold raiseWindow
  split
  . rfl
  . split
    . rfl
    . split <;> rfl

theorem registerWindow_control (s : State) (w : Nat) (layer : Layer)
    : (registerWindow s w layer).control = s.control := by
  unfold registerWindow
  split <;> rfl

theorem registerWindowAuto_control (s : State) (w : Nat)
    : (registerWindowAuto s w).control = s.control := by
  unfold registerWindowAuto
  split <;> rfl

structure Control.Moves (c : Control) (i : Nat) (w : Worker) (more : Bool) : Prop where
  through : c.shutdown = false → (c.worker i).Through c.frameSeq
    → w.Through c.frameSeq ∧ more = false
  inFrame : c.shutdown = false → (c.worker i).InFrame c.frameSeq →
    w.InFrame c.frameSeq ∧ (w.Through c.frameSeq ↔ (c.worker i).Through c.frameSeq ∨ more = true)
  counts : more = true → ¬(c.worker i).Through c.frameSeq
  stops : c.shutdown = true → ¬w.Walking

def Control.setWorker (c : Control) (i : Nat) (w : Worker) (more : Bool) : Control :=
  { c with worker := update c.worker i w, doneCompose := c.doneCompose + if more then 1 else 0 }

namespace Control

variable {c : Control} {i : Nat} {w : Worker} {more : Bool}

theorem setWorker_self (c : Control) (i : Nat) (w : Worker) (more : Bool)
    : (c.setWorker i w more).worker i = w :=
  update_self ..

theorem setWorker_other (c : Control) {j : Nat} (hj : j ≠ i) (w : Worker) (more : Bool)
    : (c.setWorker i w more).worker j = c.worker j :=
  update_of_ne hj ..

theorem Between.setWorker (h : c.Between) (hw : w.Through c.frameSeq)
    : (c.setWorker i w more).Between := by
  intro j hj
  by_cases heq : j = i
  . rw [heq, setWorker_self]
    exact hw
  . rw [setWorker_other c heq]
    exact h j hj

theorem Quiet.setWorker (h : c.Quiet) (hw : ¬w.Walking) : (c.setWorker i w more).Quiet := by
  intro j
  by_cases heq : j = i
  . rw [heq, setWorker_self]
    exact hw
  . rw [setWorker_other c heq]
    exact h j

theorem Within.setWorker (h : c.Within) (hi : c.Peer i) (hin : w.InFrame c.frameSeq)
    (hiff : w.Through c.frameSeq ↔ (c.worker i).Through c.frameSeq ∨ more = true)
    (hnew : more = true → ¬(c.worker i).Through c.frameSeq) : (c.setWorker i w more).Within := by
  obtain ⟨hall, l, hnodup, hlength, hmem⟩ := h
  constructor
  . intro j hj
    by_cases heq : j = i
    . rw [heq, setWorker_self]
      exact hin
    . rw [setWorker_other c heq]
      exact hall j hj
  . cases more with
    | false =>
      refine ⟨l, hnodup, hlength, ?_⟩
      intro j
      rw [hmem]
      by_cases heq : j = i
      . rw [heq, setWorker_self]
        exact and_congr_right fun _ => (hiff.trans (or_iff_left Bool.false_ne_true)).symm
      . rw [setWorker_other c heq]
        rfl
    | true =>
      refine ⟨i :: l, ?_, congrArg (· + 1) hlength, ?_⟩
      . rw [List.nodup_cons, hmem]
        exact ⟨fun hin => hnew rfl hin.right, hnodup⟩
      . intro j
        rw [List.mem_cons, hmem]
        by_cases heq : j = i
        . rw [heq, setWorker_self]
          exact iff_of_true (.inl rfl) ⟨hi, hiff.2 (.inr rfl)⟩
        . rw [setWorker_other c heq]
          exact or_iff_right heq

theorem Frame.setWorker (h : Frame c) (hi : c.Peer i) (hmoves : c.Moves i w more)
    : Frame (c.setWorker i w more) := by
  refine ⟨?_, h.unlaunched, h.peers, ?_⟩
  . intro j hj
    have hne : j ≠ i := by
      rintro rfl
      exact hj hi
    rw [setWorker_other c hne]
    exact h.off j hj
  . cases h.phase with
    | between hshut hmain hb =>
      exact .between hshut hmain (hb.setWorker (hmoves.through hshut (hb i hi)).left)
    | bump hshut hmain hlaunched hdone hb =>
      obtain ⟨hthrough, rfl⟩ := hmoves.through hshut (hb i hi)
      exact .bump hshut hmain hlaunched hdone (hb.setWorker hthrough)
    | within hshut hmain hlaunched hw =>
      obtain ⟨hin, hiff⟩ := hmoves.inFrame hshut (hw.inFrame i hi)
      exact .within hshut hmain hlaunched (hw.setWorker hi hin hiff hmoves.counts)
    | wake hshut hmain hq => exact .wake hshut hmain (hq.setWorker (hmoves.stops hshut))
    | stopped hshut hmain hncpus hq =>
      exact .stopped hshut hmain hncpus (hq.setWorker (hmoves.stops hshut))

end Control

theorem Inv.setWorker {i : Nat} (w : Worker) (more : Bool) (h : Inv s) (hoff : s.worker i ≠ .off)
    (hmoves : s.control.Moves i w more) (hwalk : ∀ seq y walk, w = .render seq y walk → walk.On s)
    (workerDoneSeq : Nat → Nat)
    : Inv { setWorker s i w with
      workerDoneSeq, doneCompose := s.doneCompose + if more then 1 else 0 } := by
  have hi : s.control.Peer i := by
    by_contra hi
    exact hoff (h.frame.off i hi)
  refine ⟨⟨h.lists.layers, h.lists.nodes⟩, h.frame.setWorker hi hmoves, ?_, h.good⟩
  intro j seq y walk hj
  have hon : walk.On s := by
    by_cases heq : j = i
    . rw [heq] at hj
      exact hwalk seq y walk ((setWorker_self s.control i w more).symm.trans hj)
    . exact h.walks j seq y walk ((setWorker_other s.control heq w more).symm.trans hj)
  exact hon

theorem Inv.workerStep (h : Inv s) (i : Nat) : Inv (workerStep s i) := by
  have hidle : ∀ w more, ¬w.Walking → s.worker i ≠ .off → s.control.Moves i w more → ∀ done,
      Inv { Comp.setWorker s i w with
        workerDoneSeq := done, doneCompose := s.doneCompose + if more then 1 else 0 } := by
    intro w more hw hoff hmoves done
    refine h.setWorker w more hoff hmoves ?_ done
    rintro seq y walk rfl
    exact absurd trivial hw
  have hquit : s.worker i ≠ .off → s.shutdown = true → Inv (Comp.setWorker s i .off) := by
    intro hoff hshut
    refine hidle .off false id hoff ?_ s.workerDoneSeq
    constructor <;> simp [State.control, hshut, Worker.Walking]
  unfold Comp.workerStep
  split
  next => exact h
  next lastSeq hw =>
    have hoff : s.worker i ≠ .off := by simp [hw]
    split
    next hshut => exact hquit hoff hshut
    next hshut =>
      refine hidle (.poll lastSeq) false id hoff ?_ s.workerDoneSeq
      constructor <;> simp [State.control, hw, Worker.Through, Worker.InFrame, Worker.Walking]
  next lastSeq hw =>
    have hoff : s.worker i ≠ .off := by simp [hw]
    split
    next hne =>
      refine hidle (.check s.frameSeq) false id hoff ?_ s.workerDoneSeq
      constructor <;> simp [State.control, hw, Worker.Through, Worker.InFrame,
        Worker.Walking, Ne.symm hne]
    next heq =>
      refine hidle (.wait lastSeq) false id hoff ?_ s.workerDoneSeq
      constructor <;> simp [State.control, hw, Worker.Through, Worker.InFrame, Worker.Walking]
  next seq hw =>
    have hoff : s.worker i ≠ .off := by simp [hw]
    split
    next hshut => exact hquit hoff hshut
    next hshut =>
      refine h.setWorker (.render seq (s.strips i).y0 .row) false hoff ?_ ?_ s.workerDoneSeq
      . constructor <;> simp [State.control, hw, hshut, Worker.Through, Worker.InFrame]
      . intro seq' y walk heq
        cases heq
        trivial
  next seq y walk hw =>
    have hoff : s.worker i ≠ .off := by simp [hw]
    have hrun : s.shutdown = false := by
      by_contra hshut
      refine h.frame.quiet_of_shutdown (Bool.not_eq_false _ ▸ hshut) i ?_
      show (s.worker i).Walking
      rw [hw]
      trivial
    have hrender : ∀ (y' : Nat) (walk' : Walk), walk'.On s
        → Inv (Comp.setWorker s i (.render seq y' walk')) := by
      intro y' walk' hon
      refine h.setWorker (.render seq y' walk') false hoff ?_ ?_ s.workerDoneSeq
      . constructor <;> simp [State.control, hw, hrun, Worker.Through, Worker.InFrame]
      . intro seq'' y'' walk'' heq
        cases heq
        exact hon
    split
    next =>
      obtain ⟨hgood, hon⟩ := walkStep_on h.lists (h.walks i seq y walk hw)
      dsimp only
      have hsame : ({ s with bad := s.bad || (walkStep s walk).2 } : State) = s := by
        rw [hgood, Bool.or_false]
      rw [hsame]
      split
      next walk' hwalk' => exact hrender y walk' (hon walk' hwalk')
      next => exact hrender (y + 1) .row trivial
    next =>
      refine hidle (.publish seq) false id hoff ?_ s.workerDoneSeq
      constructor <;> simp [State.control, hw, Worker.Through, Worker.InFrame, Worker.Walking]
  next seq hw =>
    have hoff : s.worker i ≠ .off := by simp [hw]
    refine hidle (.count seq) false id hoff ?_ _
    constructor <;> simp [State.control, hw, Worker.Through, Worker.InFrame, Worker.Walking]
  next seq hw =>
    have hoff : s.worker i ≠ .off := by simp [hw]
    refine hidle (.wait seq) true id hoff ?_ s.workerDoneSeq
    constructor <;> simp +contextual [State.control, hw, Worker.Through,
      Worker.InFrame, Worker.Walking]

theorem Control.Within.between {c : Control} (h : c.Within) (hpeers : c.workers ≤ c.ncpus - 1)
    (hdone : c.doneCompose ≥ c.ncpus - 1) : c.Between := by
  obtain ⟨-, l, hnodup, hlength, hmem⟩ := h
  have hsub : l ⊆ List.range' 1 c.workers := by
    intro i hi
    have hpeer : 1 ≤ i ∧ i ≤ c.workers := ((hmem i).1 hi).left
    rw [List.mem_range'_1]
    omega
  have hperm := (List.subperm_of_subset hnodup hsub).perm_of_length_le
    (by rw [List.length_range']; omega)
  intro i hi
  have hin : i ∈ List.range' 1 c.workers := by
    have hpeer : 1 ≤ i ∧ i ≤ c.workers := hi
    rw [List.mem_range'_1]
    omega
  exact ((hmem i).1 (hperm.mem_iff.2 hin)).right

theorem Control.Between.within {c : Control} (h : c.Between) (hdone : c.doneCompose = 0)
    : Within { c with frameSeq := c.frameSeq + 1, main := .barrier } := by
  refine ⟨?_, [], List.nodup_nil, hdone.symm, ?_⟩
  . intro i hi
    rcases h i hi with hw | hw <;> (dsimp only; rw [hw]; exact .inr rfl)
  . intro i
    refine iff_of_false nofun ?_
    rintro ⟨hi, hthrough⟩
    rcases h i hi with hw | hw <;> simp [hw, Worker.Through] at hthrough

theorem Inv.advance (h : Inv s) (hlists : Lists s') (hlayers : s'.layers = s.layers)
    (hcontrol : s'.worker = s.worker ∧ s'.workers = s.workers
      ∧ s'.launched = s.launched ∧ s'.bad = s.bad)
    (hpeers : s'.shutdown = false → s'.launched = true → s'.workers ≤ s'.ncpus - 1)
    (hphase : s'.control.Phase)
    : Inv s' where
  lists := hlists
  frame := by
    obtain ⟨hworker, hworkers, hlaunched, -⟩ := hcontrol
    refine ⟨?_, ?_, hpeers, hphase⟩
    . simp only [State.control, Peer, hworker, hworkers]
      exact h.frame.off
    . simp only [State.control, hlaunched, hworkers]
      exact h.frame.unlaunched
  walks := by
    intro i seq y walk hw
    rw [hcontrol.1] at hw
    have hon := h.walks i seq y walk hw
    cases walk <;> simpa only [Walk.On, layerIds, hlayers] using hon
  good := hcontrol.2.2.2.trans h.good

theorem Inv.mainStep (h : Inv s) (hok : Orderly s .main) (hstep : mainStep s = some s')
    : Inv s' := by
  have hphase := h.frame.phase
  unfold Comp.mainStep at hstep
  split at hstep
  next => cases hstep
  next hmain =>
    cases hstep
    cases hphase with
    | bump hshut _ hlaunched hdone hb =>
      exact h.advance ⟨h.lists.layers, h.lists.nodes⟩ rfl ⟨rfl, rfl, rfl, rfl⟩ h.frame.peers
        (.within hshut (.inl rfl) hlaunched (hb.within hdone))
    | between _ hm | within _ hm | wake _ hm | stopped _ hm => simp [State.control, hmain] at hm
  next hmain =>
    split at hstep
    next hdone =>
      cases hstep
      obtain ⟨hshut, hlaunched, hwithin⟩ := h.frame.within_of_main (.inl hmain)
      exact h.advance ⟨h.lists.layers, h.lists.nodes⟩ rfl ⟨rfl, rfl, rfl, rfl⟩ h.frame.peers
        (.between hshut (.inr rfl) (hwithin.between (h.frame.peers hshut hlaunched) hdone))
    next => cases hstep
  next hmain =>
    cases hstep
    exact h.advance ⟨h.lists.layers, h.lists.nodes⟩ rfl ⟨rfl, rfl, rfl, rfl⟩ nofun
      (.wake rfl rfl (h.frame.quiet fun i hi => hok hmain i hi.right))
  next hmain =>
    cases hstep
    cases hphase with
    | wake hshut _ hq =>
      have hstop : s.shutdown = true := hshut
      exact h.advance ⟨h.lists.layers, h.lists.nodes⟩ rfl ⟨rfl, rfl, rfl, rfl⟩
        (fun hrun => absurd (hstop.symm.trans hrun) (by simp))
        (.stopped hshut (.inr rfl) (Nat.le_refl 1) hq)
    | between _ hm | bump _ hm | within _ hm | stopped _ hm => simp [State.control, hmain] at hm
  next hmain =>
    cases hstep
    refine h.advance ⟨h.lists.reclaim.layers, h.lists.reclaim.nodes⟩ rfl
      ⟨rfl, rfl, rfl, rfl⟩ h.frame.peers ?_
    cases hphase with
    | between hshut _ hb => exact .between hshut (.inl rfl) hb
    | stopped hshut _ hncpus hq => exact .stopped hshut (.inl rfl) hncpus hq
    | bump _ hm | within _ hm | wake _ hm => simp [State.control, hmain] at hm

theorem Inv.timeout (h : Inv s) (hmain : s.main = .barrier) : Inv { s with main := .late } := by
  obtain ⟨hshut, hlaunched, hwithin⟩ := h.frame.within_of_main (.inl hmain)
  exact h.advance ⟨h.lists.layers, h.lists.nodes⟩ rfl ⟨rfl, rfl, rfl, rfl⟩ h.frame.peers
    (.within hshut (.inr rfl) hlaunched ⟨hwithin.inFrame, hwithin.counted⟩)

theorem Inv.compose (h : Inv s) (hmain : s.main = .idle) : Inv (compose s) := by
  unfold Comp.compose
  split
  next => exact h.registry hmain rfl h.lists.reclaim
  next hmulti =>
    rw [not_or, Decidable.not_not, Nat.not_le] at hmulti
    refine h.advance ⟨h.lists.layers, h.lists.nodes⟩ rfl ⟨rfl, rfl, rfl, rfl⟩ h.frame.peers ?_
    cases h.frame.phase with
    | between hshut _ hb => exact .bump hshut rfl hmulti.left rfl hb
    | stopped _ _ hncpus => exact absurd hncpus (Nat.not_le.2 hmulti.right)
    | bump _ hm | within _ hm | wake _ hm => simp [State.control, hmain] at hm

theorem Inv.startWorkers {n ok : Nat} (h : Inv s) (hmain : s.main = .idle) (hok : ok ≤ n - 1)
    (tooLong : Bool)
    : Inv (startWorkers s n ok tooLong) := by
  have hquiet : (Comp.startWorkers s n ok tooLong).control.Quiet := by
    intro i
    unfold Comp.startWorkers State.control
    dsimp only
    split <;> exact id
  refine ⟨⟨h.lists.layers, h.lists.nodes⟩, ⟨fun i hi => if_neg hi, (nomatch ·), ?_, ?_⟩, ?_, h.good⟩
  . intro hshut _
    cases tooLong with
    | false => exact hok
    | true => cases hshut
  . cases tooLong with
    | false => exact .between rfl (.inl hmain) fun i hi => .inl (if_pos hi)
    | true => exact .stopped rfl (.inl hmain) (Nat.le_refl 1) hquiet
  . intro i seq y walk hw
    exact absurd (show ((Comp.startWorkers s n ok tooLong).worker i).Walking by rw [hw]; trivial)
      (hquiet i)

theorem Inv.step {e : Event} (h : Inv s) (hok : Orderly s e) (hstep : step s e = some s')
    : Inv s' := by
  cases e with
  | createLayer z =>
    simp only [Comp.step, Option.ite_none_right_eq_some, Option.some.injEq] at hstep
    obtain ⟨hmain, rfl⟩ := hstep
    exact h.registry hmain rfl (h.lists.createLayer z)
  | destroyLayer =>
    simp only [Comp.step, Option.ite_none_right_eq_some, Option.map_eq_some_iff] at hstep
    obtain ⟨hmain, layer, hfind, rfl⟩ := hstep
    exact h.registry hmain rfl
      (h.lists.destroyLayer (findLayer_some hfind).left)
  | registerWindow w =>
    simp only [Comp.step, Option.ite_none_right_eq_some, Option.map_eq_some_iff] at hstep
    obtain ⟨hmain, layer, hfind, rfl⟩ := hstep
    exact h.registry hmain (registerWindow_control s w layer)
      (h.lists.registerWindow (findLayer_some hfind).left w)
  | registerWindowAuto w =>
    simp only [Comp.step, Option.ite_none_right_eq_some, Option.some.injEq] at hstep
    obtain ⟨hmain, rfl⟩ := hstep
    exact h.registry hmain (registerWindowAuto_control s w) (h.lists.registerWindowAuto w)
  | unregisterWindow w =>
    simp only [Comp.step, Option.ite_none_right_eq_some, Option.some.injEq] at hstep
    obtain ⟨hmain, rfl⟩ := hstep
    exact h.registry hmain (unregisterWindow_control s w) (h.lists.unregisterWindow w)
  | raiseWindow w =>
    simp only [Comp.step, Option.ite_none_right_eq_some, Option.some.injEq] at hstep
    obtain ⟨hmain, rfl⟩ := hstep
    exact h.registry hmain (raiseWindow_control s w) (h.lists.raiseWindow w)
  | startWorkers _ _ tooLong =>
    simp only [Comp.step, Option.ite_none_right_eq_some, Option.some.injEq] at hstep
    obtain ⟨⟨hmain, -, -, -, hle⟩, rfl⟩ := hstep
    exact h.startWorkers hmain hle tooLong
  | compose =>
    simp only [Comp.step, Option.ite_none_right_eq_some, Option.some.injEq] at hstep
    obtain ⟨hmain, rfl⟩ := hstep
    exact h.compose hmain
  | main => exact h.mainStep hok hstep
  | timeout =>
    simp only [Comp.step, Option.ite_none_right_eq_some, Option.some.injEq] at hstep
    obtain ⟨hmain, rfl⟩ := hstep
    exact h.timeout hmain
  | worker i =>
    simp only [Comp.step, Option.some.injEq] at hstep
    rw [← hstep]
    exact h.workerStep i

/--
No worker uses a node or a layer that was freed, in a run in which the main thread gives up on the
workers only while none of them is on its walk.
-/
theorem walks_live {height : Nat} (h : Steps.Reach step Orderly (init height) s) : s.bad = false :=
  (h.invariant Inv (inv_init height) (fun _ _ _ hinv hok hstep => hinv.step hok hstep)).good

def twoFrames : List Event :=
  let frame := [Event.compose, .main] ++ List.replicate 24 (Event.worker 1) ++ [Event.main, .main]
  [Event.registerWindowAuto 1, .registerWindowAuto 2, .startWorkers 2 1 false] ++ frame ++
    [Event.raiseWindow 1, .unregisterWindow 2] ++ frame

theorem walks_live_twoFrames
    : ∃ s, Steps.Reach step Orderly (init 4) s
      ∧ (s.frameSeq = 2 ∧ s.freedNode 1 = true ∧ s.bad = false) := by
  obtain ⟨s, hreach, hseq, hfreed⟩ := Steps.Reach.exists_of_run step Orderly (init 4) twoFrames
    (fun s => s.frameSeq = 2 ∧ s.freedNode 1 = true) (by decide +kernel)
  exact ⟨s, hreach, hseq, hfreed, walks_live hreach⟩

def lateWorker : List Event :=
  [Event.registerWindowAuto 1, .startWorkers 2 1 false, .compose, .main]
    ++ List.replicate 5 (Event.worker 1) ++
    [Event.timeout, .main, .main, .main, .unregisterWindow 1, .compose, .worker 1]

theorem walk_freed : ∃ s, Steps.Reach step (fun _ _ => True) (init 4) s ∧ s.bad = true :=
  Steps.Reach.exists_of_run step (fun _ _ => True) (init 4) lateWorker (fun s => s.bad = true)
    (by decide +kernel)

end Comp
