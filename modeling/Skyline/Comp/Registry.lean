import Skyline.Steps.Basic

/-!
This module contains the strips, the layers and the windows of the compositor in `window.cpp`.
-/

namespace Comp

open Function

section

def cpusSanity : Nat := 64

structure Strip where
  y0 : Nat
  y1 : Nat
  deriving DecidableEq, Repr

def band (height n : Nat) : Nat :=
  if height / n = 0 then height else height / n

def strip (height n i : Nat) : Strip :=
  let y1 := if i = n - 1 then height else (i + 1) * band height n
  ⟨i * band height n, if y1 > height then height else y1⟩

def Strip.Has (s : Strip) (y : Nat) : Prop := s.y0 ≤ y ∧ y < s.y1

variable {n i height y : Nat}

theorem strip_y1_le (height : Nat) {j : Nat} (hij : i < j) (hj : j < n)
    : (strip height n i).y1 ≤ (strip height n j).y0 := by
  have hlast : i ≠ n - 1 := by omega
  have hle : (i + 1) * band height n ≤ j * band height n := Nat.mul_le_mul_right _ hij
  unfold strip
  dsimp only
  rw [if_neg hlast]
  split <;> omega

theorem strip_y1_of_lt (hband : height / n ≠ 0) (hi : i + 1 < n)
    : (strip height n i).y1 = (i + 1) * (height / n) := by
  have hlast : i ≠ n - 1 := by omega
  have hle : (i + 1) * (height / n) ≤ height :=
    calc (i + 1) * (height / n) ≤ n * (height / n) := Nat.mul_le_mul_right _ (by omega)
      _ ≤ height := Nat.mul_div_le height n
  unfold strip band
  dsimp only
  rw [if_neg hlast, if_neg hband, if_neg (by omega)]

theorem exists_strip (hn : 1 ≤ n) (hy : y < height) : ∃ i < n, (strip height n i).Has y := by
  by_cases hband : height / n = 0
  . refine ⟨0, hn, ?_⟩
    unfold Strip.Has strip band
    simp [hband, hy]
  . by_cases hlast : y / (height / n) < n - 1
    . refine ⟨y / (height / n), by omega, ?_, ?_⟩
      . unfold strip band
        rw [if_neg hband]
        exact Nat.div_mul_le_self y _
      . rw [strip_y1_of_lt hband (by omega), Nat.mul_comm]
        exact Nat.lt_mul_div_succ y (Nat.pos_of_ne_zero hband)
    . refine ⟨n - 1, by omega, ?_, ?_⟩
      . unfold strip band
        rw [if_neg hband]
        calc (n - 1) * (height / n) ≤ y / (height / n) * (height / n) :=
          Nat.mul_le_mul_right _ (by omega)
          _ ≤ y := Nat.div_mul_le_self y _
      . simpa [strip] using hy

theorem existsUnique_strip (hn : 1 ≤ n) (hy : y < height)
    : ∃! i, i < n ∧ (strip height n i).Has y := by
  obtain ⟨i, hi, hhas⟩ := exists_strip hn hy
  refine ⟨i, ⟨hi, hhas⟩, ?_⟩
  rintro j ⟨hj, hhas'⟩
  by_contra hne
  rcases Nat.lt_or_gt_of_ne hne with hlt | hlt
  . have := strip_y1_le height hlt hi
    unfold Strip.Has at hhas hhas'
    omega
  . have := strip_y1_le height hlt hj
    unfold Strip.Has at hhas hhas'
    omega

theorem strip_y1_le_height (height n i : Nat) : (strip height n i).y1 ≤ height := by
  unfold strip
  generalize (if i = n - 1 then height else (i + 1) * band height n) = y1
  dsimp only
  split <;> omega

def stripRows (height n : Nat) : List Nat :=
  (List.range n).flatMap
    fun i => List.range' (strip height n i).y0 ((strip height n i).y1 - (strip height n i).y0)

theorem mem_stripRows (hn : 1 ≤ n) : y ∈ stripRows height n ↔ y < height := by
  unfold stripRows
  simp only [List.mem_flatMap, List.mem_range, List.mem_range'_1]
  constructor
  . rintro ⟨i, -, h1, h2⟩
    have := strip_y1_le_height height n i
    omega
  . intro hy
    obtain ⟨i, hi, h1, h2⟩ := exists_strip hn hy
    exact ⟨i, hi, h1, by omega⟩

end

structure WinNode where
  id : Nat
  win : Nat
  deriving DecidableEq, Repr

structure Layer where
  id : Nat
  z : Nat
  nodes : List WinNode
  deriving DecidableEq, Repr

def after (l : List Nat) (x : Nat) : Option Nat :=
  match l with
  | [] => none
  | a :: l => if a = x then l.head? else after l x

inductive Walk where
  | row
  | layer (l : Option Nat)
  | node (l : Nat) (n : Option Nat)
  deriving DecidableEq, Repr

inductive Worker where
  | off
  | wait (lastSeq : Nat)
  | poll (lastSeq : Nat)
  | check (seq : Nat)
  | render (seq y : Nat) (walk : Walk)
  | publish (seq : Nat)
  | count (seq : Nat)
  deriving DecidableEq, Repr

inductive Main where
  | idle
  | bump
  | barrier
  | late
  | wake
  | reclaim
  deriving DecidableEq, Repr

structure State where
  height : Nat
  layers : List Layer
  nodeNext : Nat → Option Nat
  layerNext : Nat → Option Nat
  layerWin : Nat → Option Nat
  retireList : List Nat
  retireLayers : List Nat
  nodes : Nat
  made : Nat
  ncpus : Nat
  launched : Bool
  shutdown : Bool
  frameSeq : Nat
  doneCompose : Nat
  workerDoneSeq : Nat → Nat
  strips : Nat → Strip
  main : Main
  workers : Nat
  worker : Nat → Worker
  freedNode : Nat → Bool
  freedLayer : Nat → Bool
  bad : Bool

def init (height : Nat) : State where
  height
  layers := []
  nodeNext := fun _ => none
  layerNext := fun _ => none
  layerWin := fun _ => none
  retireList := []
  retireLayers := []
  nodes := 0
  made := 0
  ncpus := 0
  launched := false
  shutdown := false
  frameSeq := 0
  doneCompose := 0
  workerDoneSeq := fun _ => 0
  strips := fun _ => ⟨0, 0⟩
  main := .idle
  workers := 0
  worker := fun _ => .off
  freedNode := fun _ => false
  freedLayer := fun _ => false
  bad := false

def layerIds (s : State) : List Nat := s.layers.map Layer.id

def Layer.nodeIds (l : Layer) : List Nat := l.nodes.map WinNode.id

def findLayer (s : State) (l : Nat) : Option Layer :=
  s.layers.find? fun layer => layer.id = l

def lNext (s : State) (l : Nat) : Option Nat :=
  if l ∈ layerIds s then after (layerIds s) l else s.layerNext l

def winHead (s : State) (l : Nat) : Option Nat :=
  match findLayer s l with
  | some layer => layer.nodeIds.head?
  | none => s.layerWin l

def next (s : State) (n : Nat) : Option Nat :=
  match s.layers.find? fun layer => n ∈ layer.nodeIds with
  | some layer => after layer.nodeIds n
  | none => s.nodeNext n

def insertLayerOrdered (layers : List Layer) (layer : Layer) : List Layer :=
  match layers with
  | [] => [layer]
  | at' :: rest =>
    if at'.z ≤ layer.z then at' :: insertLayerOrdered rest layer else layer :: at' :: rest

def createLayer (s : State) (z : Nat) : State :=
  { s with layers := insertLayerOrdered s.layers ⟨s.made, z, []⟩, made := s.made + 1 }

def retireLayer (s : State) (layer : Layer) : State :=
  { s with
    layers := s.layers.filter fun l => l.id ≠ layer.id
    layerNext := update s.layerNext layer.id (lNext s layer.id)
    layerWin := update s.layerWin layer.id layer.nodeIds.head?
    retireLayers := layer.id :: s.retireLayers }

def retireNodes (s : State) (layer : Layer) : State :=
  { s with
    nodeNext := fun n => if n ∈ layer.nodeIds then after layer.nodeIds n else s.nodeNext n
    retireList := layer.nodeIds.reverse ++ s.retireList }

def destroyLayer (s : State) (layer : Layer) : State :=
  retireLayer (retireNodes s layer) layer

def findNode (s : State) (w : Nat) : Option (Layer × WinNode) :=
  s.layers.findSome? fun layer => (layer.nodes.find? fun n => n.win = w).map fun n => (layer, n)

def setNodes (s : State) (l : Nat) (nodes : List WinNode) : State :=
  { s with
    layers := s.layers.map fun layer => if layer.id = l then { layer with nodes } else layer }

def registerWindow (s : State) (w : Nat) (layer : Layer) : State :=
  match findNode s w with
  | some _ => s
  | none => { setNodes s layer.id (layer.nodes ++ [⟨s.nodes, w⟩]) with nodes := s.nodes + 1 }

def registerWindowAuto (s : State) (w : Nat) : State :=
  match findNode s w with
  | some _ => s
  | none =>
    let z := match s.layers.getLast? with
      | some tail => (tail.z + 1) % 2 ^ 32
      | none => 0
    { s with
      layers := insertLayerOrdered s.layers ⟨s.made, z, [⟨s.nodes, w⟩]⟩
      made := s.made + 1
      nodes := s.nodes + 1 }

def unregisterWindow (s : State) (w : Nat) : State :=
  match findNode s w with
  | none => s
  | some (layer, node) =>
    let rest := layer.nodes.filter fun n => n.id ≠ node.id
    let s := { setNodes s layer.id rest with
      nodeNext := update s.nodeNext node.id (after layer.nodeIds node.id)
      retireList := node.id :: s.retireList }
    if rest = [] then retireLayer s { layer with nodes := rest } else s

def relabel (layers : List Layer) (zrel : Nat) : List Layer :=
  match layers with
  | [] => []
  | layer :: rest => { layer with z := zrel } :: relabel rest (zrel + 1)

def raiseWindow (s : State) (w : Nat) : State :=
  match findNode s w with
  | none => s
  | some (layer, _) =>
    match s.layers.getLast? with
    | none => s
    | some top =>
      if layer.id = top.id then
        s
      else
        let rest := s.layers.filter fun l => l.id ≠ layer.id
        let z := match rest.getLast? with
          | some tail => (tail.z + 1) % 2 ^ 32
          | none => layer.z
        { s with layers := relabel (insertLayerOrdered rest { layer with z }) 0 }

def compReclaimRetired (s : State) : State :=
  { s with
    freedNode := fun n => s.freedNode n || decide (n ∈ s.retireList)
    freedLayer := fun l => s.freedLayer l || decide (l ∈ s.retireLayers)
    retireList := []
    retireLayers := [] }

def setWorker (s : State) (i : Nat) (w : Worker) : State :=
  { s with worker := update s.worker i w }

def startWorkers (s : State) (n ok : Nat) (tooLong : Bool) : State :=
  { s with
    ncpus := if tooLong then 1 else n
    launched := true
    strips := if tooLong then update (strip s.height n) 0 ⟨0, s.height⟩ else strip s.height n
    workers := ok
    worker := fun i => if 1 ≤ i ∧ i ≤ ok then .wait 0 else .off
    workerDoneSeq := fun _ => 0
    frameSeq := if tooLong then 1 else 0
    shutdown := tooLong }

def walkStep (s : State) : Walk → Option Walk × Bool
  | .row => (some (.layer (layerIds s).head?), false)
  | .layer none => (none, false)
  | .layer (some l) => (some (.node l (winHead s l)), s.freedLayer l)
  | .node l none => (some (.layer (lNext s l)), s.freedLayer l)
  | .node l (some n) => (some (.node l (next s n)), s.freedNode n)

def workerStep (s : State) (i : Nat) : State :=
  match s.worker i with
  | .off => s
  | .wait lastSeq => if s.shutdown then setWorker s i .off else setWorker s i (.poll lastSeq)
  | .poll lastSeq =>
    if s.frameSeq ≠ lastSeq then setWorker s i (.check s.frameSeq)
      else setWorker s i (.wait lastSeq)
  | .check seq =>
    if s.shutdown then setWorker s i .off else setWorker s i (.render seq (s.strips i).y0 .row)
  | .render seq y walk =>
    if y < (s.strips i).y1 then
      let (walk, bad) := walkStep s walk
      let s := { s with bad := s.bad || bad }
      match walk with
      | some walk => setWorker s i (.render seq y walk)
      | none => setWorker s i (.render seq (y + 1) .row)
    else
      setWorker s i (.publish seq)
  | .publish seq =>
    { setWorker s i (.count seq) with workerDoneSeq := update s.workerDoneSeq i seq }
  | .count seq => { setWorker s i (.wait seq) with doneCompose := s.doneCompose + 1 }

inductive Event where
  | createLayer (z : Nat)
  | destroyLayer (l : Nat)
  | registerWindow (w l : Nat)
  | registerWindowAuto (w : Nat)
  | unregisterWindow (w : Nat)
  | raiseWindow (w : Nat)
  | startWorkers (n ok : Nat) (tooLong : Bool)
  | compose
  | main
  | timeout
  | worker (i : Nat)
  deriving DecidableEq, Repr

def compose (s : State) : State :=
  if ¬s.launched ∨ s.ncpus ≤ 1 then compReclaimRetired s
    else { s with doneCompose := 0, main := .bump }

def mainStep (s : State) : Option State :=
  match s.main with
  | .idle => none
  | .bump => some { s with frameSeq := s.frameSeq + 1, main := .barrier }
  | .barrier => if s.doneCompose ≥ s.ncpus - 1 then some { s with main := .reclaim } else none
  | .late => some { s with shutdown := true, main := .wake }
  | .wake =>
    some { s with
      frameSeq := s.frameSeq + 1
      strips := update s.strips 0 ⟨0, s.height⟩
      ncpus := 1
      main := .reclaim }
  | .reclaim => some { compReclaimRetired s with main := .idle }

def step (s : State) : Event → Option State
  | .createLayer z => if s.main = .idle then some (createLayer s z) else none
  | .destroyLayer l => if s.main = .idle then (findLayer s l).map (destroyLayer s) else none
  | .registerWindow w l => if s.main = .idle then (findLayer s l).map (registerWindow s w) else none
  | .registerWindowAuto w => if s.main = .idle then some (registerWindowAuto s w) else none
  | .unregisterWindow w => if s.main = .idle then some (unregisterWindow s w) else none
  | .raiseWindow w => if s.main = .idle then some (raiseWindow s w) else none
  | .startWorkers n ok tooLong =>
    if s.main = .idle ∧ s.launched = false ∧ 1 ≤ n ∧ n ≤ cpusSanity ∧ ok ≤ n - 1 then
      some (startWorkers s n ok tooLong)
    else
      none
  | .compose => if s.main = .idle then some (compose s) else none
  | .main => mainStep s
  | .timeout => if s.main = .barrier then some { s with main := .late } else none
  | .worker i => some (workerStep s i)

def Worker.Walking : Worker → Prop
  | .render _ _ _ => True
  | _ => False

instance (w : Worker) : Decidable w.Walking :=
  match w with
  | .render _ _ _ => .isTrue trivial
  | .off | .wait _ | .poll _ | .check _ | .publish _ | .count _ => .isFalse id

/--
The condition on a step: when the main thread gives up on the workers, none of them is on its walk.
-/
def Orderly (s : State) : Event → Prop
  | .main => s.main = .late → ∀ i ≤ s.workers, ¬(s.worker i).Walking
  | _ => True

instance (s : State) (e : Event) : Decidable (Orderly s e) :=
  match e with
  | .main => inferInstanceAs (Decidable (s.main = .late → ∀ i ≤ s.workers, ¬(s.worker i).Walking))
  | .createLayer _ | .destroyLayer _ | .registerWindow _ _ | .registerWindowAuto _
  | .unregisterWindow _
  | .raiseWindow _ | .startWorkers _ _ _ | .compose | .timeout | .worker _ => .isTrue trivial

end Comp
