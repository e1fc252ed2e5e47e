import Skyline.Steps.Basic

/-!
This module contains the interrupt vectors that `InitIntr` of `nvme.cpp` gives to the queues of a
controller.
-/

namespace NVME

open Function

inductive Handler where
  | msix
  | other
deriving DecidableEq

structure Cpu where
  intrBitMap : Nat → Bool
  intrRegistCount : Nat
  handlers : Nat → Option Handler

structure IrqMap where
  inst : Nat
  queueId : Nat
  cpuId : Nat
  vecId : Nat
deriving DecidableEq

def IrqMap.queue (m : IrqMap) : Nat × Nat := (m.inst, m.queueId)

structure Intr where
  smpLastCpu : Nat
  smpCpuCount : Nat
  smpCpuList : Nat → Option Cpu
  routes : Nat → Option (Nat × Nat)
  irqMap : List IrqMap

def Intr.cpu (s : Intr) (c : Nat) : Cpu := (s.smpCpuList c).getD ⟨fun _ => false, 0, fun _ => none⟩

def getLWIntrCpu (s : Intr) : Option Nat :=
  (List.range (s.smpLastCpu + 1)).foldl (fun best i =>
    if s.smpCpuList i = none then best
    else
      match best with
      | none => some i
      | some c =>
        if (s.cpu i).intrRegistCount < (s.cpu c).intrRegistCount then some i else best) none

def freeVector (x : Cpu) : Option Nat := (List.range 256).find? fun v => !x.intrBitMap v

def Intr.modCpu (s : Intr) (c : Nat) (f : Cpu → Cpu) : Intr :=
  { s with smpCpuList := update s.smpCpuList c ((s.smpCpuList c).map f) }

def requestFreeIRQPerCPU (s : Intr) : Intr × Nat :=
  match getLWIntrCpu s with
  | none => (s, 0xFF)
  | some c =>
    match freeVector (s.cpu c) with
    | none => (s, 0xFF)
    | some v => (s.modCpu c fun x => { x with intrBitMap := update x.intrBitMap v true }, v)

def idtInstallIrqCpu (s : Intr) (c irq : Nat) (handler : Handler) : Intr :=
  s.modCpu c fun x =>
    { intrBitMap := update x.intrBitMap irq true
      intrRegistCount := (x.intrRegistCount + 1) % 256
      handlers := update x.handlers irq (some handler) }

def initQueue (inst : Nat) (s : Intr) (i : Nat) : Option Intr :=
  match getLWIntrCpu s with
  | none => none
  | some targetCpu =>
    let r := requestFreeIRQPerCPU s
    let s := { r.1 with
      routes := update r.1.routes r.2 (some (inst, i))
      irqMap := ⟨inst, i, targetCpu, r.2⟩ :: r.1.irqMap }
    some (idtInstallIrqCpu s targetCpu r.2 .msix)

def intrNum (s : Intr) (vecNum : Nat) : Nat := max 2 (min vecNum (max 2 (min 4 s.smpCpuCount)))

def initIntr (s : Intr) (inst vecNum : Nat) : Option Intr :=
  (List.range (min (intrNum s vecNum) vecNum)).foldlM (initQueue inst) s

def msixHandler (s : Intr) (c v : Nat) : Option (Nat × Nat) :=
  if (s.cpu c).handlers v = some .msix then s.routes v else none

/--
The least loaded CPU has a free vector, and no queue has a vector of that number.
-/
def Unrouted (s : Intr) : Prop :=
  ∃ c v, getLWIntrCpu s = some c ∧ freeVector (s.cpu c) = some v ∧ s.routes v = none

def AllUnrouted (inst : Nat) (s : Intr) : List Nat → Prop
  | [] => True
  | i :: queues => Unrouted s ∧ ∀ t, initQueue inst s i = some t → AllUnrouted inst t queues

structure Routed (s₀ s : Intr) : Prop where
  used : ∀ c v, (s₀.cpu c).intrBitMap v → (s.cpu c).intrBitMap v
  handled : ∀ m ∈ s.irqMap, msixHandler s m.cpuId m.vecId = some (m.inst, m.queueId)
  fresh : ∀ m ∈ s.irqMap, (s₀.cpu m.cpuId).intrBitMap m.vecId = false
  apart : s.irqMap.Pairwise fun m m' => (m.cpuId, m.vecId) ≠ (m'.cpuId, m'.vecId)

section

variable {s s₀ t : Intr} {c d v : Nat} {f : Cpu → Cpu}

theorem cpu_modCpu_self (h : s.smpCpuList c ≠ none) : (s.modCpu c f).cpu c = f (s.cpu c) := by
  obtain ⟨x, hx⟩ := Option.ne_none_iff_exists'.mp h
  simp [Intr.cpu, Intr.modCpu, hx]

theorem cpu_modCpu_ne (h : d ≠ c) : (s.modCpu c f).cpu d = s.cpu d := by
  simp [Intr.cpu, Intr.modCpu, update_of_ne h]

theorem getLWIntrCpu_some (h : getLWIntrCpu s = some c) : s.smpCpuList c ≠ none := by
  unfold getLWIntrCpu at h
  have hfold : ∀ (l : List Nat) (best : Option Nat), (∀ c, best = some c → s.smpCpuList c ≠ none) →
      ∀ c, l.foldl (fun best i =>
        if s.smpCpuList i = none then best
        else
          match best with
          | none => some i
          | some c =>
            if (s.cpu i).intrRegistCount < (s.cpu c).intrRegistCount then some i else best) best
        = some c → s.smpCpuList c ≠ none := by
    intro l
    induction l with
    | nil => exact fun best h => h
    | cons _ _ ih =>
      intro best hbest
      refine ih _ fun c hc => ?_
      dsimp only at hc
      split at hc
      . exact hbest c hc
      . next hi =>
        split at hc
        . cases hc
          exact hi
        . split at hc
          . cases hc
            exact hi
          . exact hbest c hc
  exact hfold _ none nofun c h

theorem initQueue_cases (h : Unrouted s) (inst i : Nat)
    : ∃ c v, s.smpCpuList c ≠ none ∧ (s.cpu c).intrBitMap v = false ∧ s.routes v = none
      ∧ ∃ t, initQueue inst s i = some t ∧ t.smpCpuCount = s.smpCpuCount
        ∧ t.routes = update s.routes v (some (inst, i))
      ∧ t.irqMap = ⟨inst, i, c, v⟩ :: s.irqMap ∧ (∀ d, d ≠ c → t.cpu d = s.cpu d)
      ∧ (t.cpu c).intrBitMap = update (s.cpu c).intrBitMap v true
      ∧ (t.cpu c).handlers = update (s.cpu c).handlers v (some .msix) := by
  obtain ⟨c, v, hcpu, hfree, hroute⟩ := h
  have hc := getLWIntrCpu_some hcpu
  have hbit : (s.cpu c).intrBitMap v = false := by
    simpa using List.find?_some hfree
  refine ⟨c, v, hc, hbit, hroute, ?_⟩
  unfold initQueue requestFreeIRQPerCPU
  simp only [hcpu, hfree]
  refine ⟨_, rfl, rfl, rfl, rfl, fun d hd => ?_, ?_, ?_⟩
  . rw [idtInstallIrqCpu, cpu_modCpu_ne hd]
    exact cpu_modCpu_ne hd
  all_goals
    have hc' : (s.modCpu c fun x => { x with intrBitMap := update x.intrBitMap v true }).smpCpuList
        c ≠ none := by
      simpa [Intr.modCpu] using hc
    have hreq := cpu_modCpu_self
      (f := fun x => { x with intrBitMap := update x.intrBitMap v true }) hc
    unfold idtInstallIrqCpu
    rw [cpu_modCpu_self (by exact hc')]
    simp only [Intr.cpu] at hreq ⊢
    rw [hreq]
  simp

theorem Routed.initQueue (h : Routed s₀ s) (hfree : Unrouted s) (inst i : Nat)
    : ∃ t, initQueue inst s i = some t ∧ t.smpCpuCount = s.smpCpuCount
      ∧ t.irqMap.map IrqMap.queue = (inst, i) :: s.irqMap.map IrqMap.queue ∧ Routed s₀ t := by
  obtain ⟨c, v, -, hbit, hroute, t, ht, hcount, hroutes, hmap, hother, hbits, hhandlers⟩ :=
    initQueue_cases hfree inst i
  -- a vector in the map has a route, so it is not the new one
  have hne : ∀ m ∈ s.irqMap, m.vecId ≠ v := by
    intro m hm hv
    have := h.handled m hm
    unfold msixHandler at this
    split at this
    . rw [hv, hroute] at this
      cases this
    . cases this
  refine ⟨t, ht, hcount, by rw [hmap]; rfl, ⟨fun d w hd => ?_, fun m hm => ?_, fun m hm => ?_, ?_⟩⟩
  . have hused := h.used d w hd
    by_cases hdc : d = c
    . subst hdc
      rw [hbits]
      by_cases hw : w = v
      . simp [hw]
      . rw [update_of_ne hw]
        exact hused
    . rw [hother d hdc]
      exact hused
  . rw [hmap] at hm
    cases hm with
    | head => simp [msixHandler, hhandlers, hroutes]
    | tail _ hm =>
      have hhandled := h.handled m hm
      unfold msixHandler at hhandled ⊢
      rw [hroutes, update_of_ne (hne m hm)]
      by_cases hmc : m.cpuId = c
      . rw [hmc, hhandlers, update_of_ne (hne m hm), ← hmc]
        exact hhandled
      . rw [hother _ hmc]
        exact hhandled
  . rw [hmap] at hm
    cases hm with
    | head =>
      refine Bool.eq_false_iff.mpr fun hin => ?_
      rw [h.used c v hin] at hbit
      cases hbit
    | tail _ hm => exact h.fresh m hm
  . rw [hmap]
    refine List.pairwise_cons.mpr ⟨fun m hm heq => ?_, h.apart⟩
    exact hne m hm (Prod.ext_iff.mp heq).2.symm

theorem Routed.foldlM (inst : Nat)
    : ∀ (queues : List Nat) {s : Intr}, Routed s₀ s → AllUnrouted inst s queues
    → ∃ t, queues.foldlM (NVME.initQueue inst) s = some t ∧ t.smpCpuCount = s.smpCpuCount
      ∧ t.irqMap.map IrqMap.queue = (queues.map (inst, ·)).reverse ++ s.irqMap.map IrqMap.queue
      ∧ Routed s₀ t
  | [], s, h, _ => ⟨s, rfl, rfl, rfl, h⟩
  | i :: queues, s, h, hall => by
    obtain ⟨t, ht, hcount, hmap, hrouted⟩ := h.initQueue hall.1 inst i
    obtain ⟨u, hu, hcount', hmap', hend⟩ := Routed.foldlM inst queues hrouted (hall.2 t ht)
    refine ⟨u, ?_, hcount'.trans hcount, ?_, hend⟩
    . rw [List.foldlM_cons, ht]
      exact hu
    . rw [hmap', hmap]
      simp

end

def initControllers (s : Intr) (ctrls : List (Nat × Nat)) : Option Intr :=
  ctrls.foldlM (fun s ctrl => initIntr s ctrl.1 ctrl.2) s

def ControllersUnrouted (s : Intr) : List (Nat × Nat) → Prop
  | [] => True
  | ctrl :: ctrls =>
    AllUnrouted ctrl.1 s (List.range (min (intrNum s ctrl.2) ctrl.2))
      ∧ ∀ t, initIntr s ctrl.1 ctrl.2 = some t → ControllersUnrouted t ctrls

def queuesOf (s : Intr) (ctrls : List (Nat × Nat)) : List (Nat × Nat) :=
  ctrls.flatMap fun ctrl => (List.range (min (intrNum s ctrl.2) ctrl.2)).map (ctrl.1, ·)

theorem Routed.initControllers {s₀ : Intr} : ∀ (ctrls : List (Nat × Nat)) {s : Intr}, Routed s₀ s
    → ControllersUnrouted s ctrls → ∃ t, NVME.initControllers s ctrls = some t
      ∧ t.irqMap.map IrqMap.queue = (queuesOf s ctrls).reverse ++ s.irqMap.map IrqMap.queue
      ∧ Routed s₀ t
  | [], s, h, _ => ⟨s, rfl, rfl, h⟩
  | ctrl :: ctrls, s, h, hall => by
    obtain ⟨t, ht, hcount, hmap, hrouted⟩ := Routed.foldlM ctrl.1 _ h hall.1
    obtain ⟨u, hu, hmap', hend⟩ := Routed.initControllers ctrls hrouted (hall.2 t ht)
    have hqueues : queuesOf t ctrls = queuesOf s ctrls := by
      simp only [queuesOf, intrNum, hcount]
    refine ⟨u, ?_, ?_, hend⟩
    . unfold NVME.initControllers at hu ⊢
      rw [List.foldlM_cons, show initIntr s ctrl.1 ctrl.2 = some t from ht]
      exact hu
    . rw [hmap', hmap, hqueues]
      simp [queuesOf]

theorem controllers_routed (s : Intr) (ctrls : List (Nat × Nat)) (hmap : s.irqMap = [])
    (hall : ControllersUnrouted s ctrls)
    : ∃ t, initControllers s ctrls = some t ∧ t.irqMap.map IrqMap.queue = (queuesOf s ctrls).reverse
      ∧ Routed s t := by
  have hstart : Routed s s := ⟨fun _ _ h => h, by simp [hmap], by simp [hmap], by simp [hmap]⟩
  simpa [hmap] using Routed.initControllers ctrls hstart hall

def booted (cpus : Nat) : Intr where
  smpLastCpu := cpus - 1
  smpCpuCount := cpus
  smpCpuList c := if c < cpus then some ⟨fun v => decide (v < 32), 32, fun _ => none⟩ else none
  routes _ := none
  irqMap := []

theorem controllers_routed_twoControllers : ControllersUnrouted (booted 1) [(0, 2), (1, 2)]
    ∧ ∃ t, initControllers (booted 1) [(0, 2), (1, 2)] = some t
      ∧ t.irqMap.map IrqMap.queue = [(1, 1), (1, 0), (0, 1), (0, 0)] ∧ Routed (booted 1) t := by
  have hall : ControllersUnrouted (booted 1) [(0, 2), (1, 2)] := by
    refine ⟨⟨⟨0, 32, by decide +kernel, by decide +kernel, rfl⟩, ?_⟩, ?_⟩
    . rintro _ ⟨⟩
      exact ⟨⟨0, 33, by decide +kernel, by decide +kernel, by decide +kernel⟩, fun _ _ => trivial⟩
    . rintro _ ⟨⟩
      refine ⟨⟨⟨0, 34, by decide +kernel, by decide +kernel, by decide +kernel⟩, ?_⟩,
        fun _ _ => trivial⟩
      rintro _ ⟨⟩
      exact ⟨⟨0, 35, by decide +kernel, by decide +kernel, by decide +kernel⟩, fun _ _ => trivial⟩
  exact ⟨hall, controllers_routed (booted 1) [(0, 2), (1, 2)] rfl hall⟩

/--
Both CPUs have the same vector free: the second queue takes over the route of the first.
-/
theorem controllers_misrouted : ∃ t, initControllers (booted 2) [(0, 2)] = some t
    ∧ t.irqMap = [⟨0, 1, 1, 32⟩, ⟨0, 0, 0, 32⟩] ∧ msixHandler t 0 32 = some (0, 1) := by
  refine ⟨_, rfl, ?_, ?_⟩ <;> decide +kernel

end NVME
