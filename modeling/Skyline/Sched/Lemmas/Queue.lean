import Skyline.Sched.Impl

/-!
This module contains what the queue operations do to a run queue and its counters.
-/

namespace Sched

variable {n : Nat} {s : State n} {c : Fin n} {t : Nat}

theorem Thread.setOnRq_self (th : Thread n) (b : Bool) (h : th.onRq = b)
    : { th with onRq := b } = th := by
  subst h
  rfl

section Frame

variable (dl : Nat → Nat) (s : State n) (c : Fin n) (t u : Nat)

@[simp]
theorem insertToQueue_cpu : (insertToQueue dl s c t).cpu = s.cpu := by
  unfold insertToQueue
  split <;> rfl

@[simp]
theorem insertToQueue_making : (insertToQueue dl s c t).making = s.making := by
  unfold insertToQueue
  split <;> rfl

theorem insertToQueue_thread
    : ∃ d, (insertToQueue dl s c t).thread u
      = { s.thread u with onRq := (u == t) || (s.thread u).onRq, deadline := d } := by
  by_cases h : (s.thread t).onRq = true
  . refine ⟨(s.thread u).deadline, ?_⟩
    have hsame : (s.thread u).onRq = ((u == t) || (s.thread u).onRq) := by
      by_cases hu : u = t
      . subst hu
        simp [h]
      . simp [hu]
    unfold insertToQueue
    rw [if_pos h]
    exact (Thread.setOnRq_self _ _ hsame).symm
  . unfold insertToQueue
    rw [if_neg h]
    by_cases hu : u = t
    . subst hu
      exact ⟨dl u, by simp⟩
    . refine ⟨(s.thread u).deadline, ?_⟩
      have hsame : (s.thread u).onRq = ((u == t) || (s.thread u).onRq) := by
        simp [hu]
      simpa [hu] using (Thread.setOnRq_self _ _ hsame).symm

@[simp]
theorem insertToQueue_onRq
    : ((insertToQueue dl s c t).thread u).onRq = ((u == t) || (s.thread u).onRq) := by
  obtain ⟨d, h⟩ := insertToQueue_thread dl s c t u
  rw [h]

@[simp]
theorem insertToQueue_state : ((insertToQueue dl s c t).thread u).state = (s.thread u).state := by
  obtain ⟨d, h⟩ := insertToQueue_thread dl s c t u
  rw [h]

@[simp]
theorem insertToQueue_cpuNum
    : ((insertToQueue dl s c t).thread u).cpuNum = (s.thread u).cpuNum := by
  obtain ⟨d, h⟩ := insertToQueue_thread dl s c t u
  rw [h]

@[simp]
theorem insertToQueue_timerBucket
    : ((insertToQueue dl s c t).thread u).timerBucket = (s.thread u).timerBucket := by
  obtain ⟨d, h⟩ := insertToQueue_thread dl s c t u
  rw [h]

@[simp]
theorem insertToQueue_weight
    : ((insertToQueue dl s c t).thread u).weight = (s.thread u).weight := by
  obtain ⟨d, h⟩ := insertToQueue_thread dl s c t u
  rw [h]

@[simp]
theorem insertToQueue_pinned
    : ((insertToQueue dl s c t).thread u).pinned = (s.thread u).pinned := by
  obtain ⟨d, h⟩ := insertToQueue_thread dl s c t u
  rw [h]

@[simp]
theorem removeFromQueue_cpu : (removeFromQueue s c t).cpu = s.cpu := by
  unfold removeFromQueue
  split <;> rfl

@[simp]
theorem removeFromQueue_making : (removeFromQueue s c t).making = s.making := by
  unfold removeFromQueue
  split <;> rfl

@[simp]
theorem removeFromQueue_killed : (removeFromQueue s c t).killed = s.killed := by
  unfold removeFromQueue
  split <;> rfl

@[simp]
theorem removeFromQueue_appended : (removeFromQueue s c t).appended = s.appended := by
  unfold removeFromQueue
  split <;> rfl

theorem removeFromQueue_thread
    : (removeFromQueue s c t).thread u
      = { s.thread u with onRq := (u != t) && (s.thread u).onRq } := by
  unfold removeFromQueue
  by_cases hu : u = t
  . subst hu
    split
    . simp
    . next h => simp [Thread.setOnRq_self _ _ (Bool.not_eq_true _ ▸ h)]
  . have hsame : (s.thread u).onRq = ((u != t) && (s.thread u).onRq) := by
      simp [hu]
    split
    . simpa [hu] using (Thread.setOnRq_self _ _ hsame).symm
    . exact (Thread.setOnRq_self _ _ hsame).symm

@[simp]
theorem removeFromQueue_onRq
    : ((removeFromQueue s c t).thread u).onRq = ((u != t) && (s.thread u).onRq) := by
  rw [removeFromQueue_thread]

@[simp]
theorem removeFromQueue_state : ((removeFromQueue s c t).thread u).state = (s.thread u).state := by
  rw [removeFromQueue_thread]

@[simp]
theorem removeFromQueue_cpuNum
    : ((removeFromQueue s c t).thread u).cpuNum = (s.thread u).cpuNum := by
  rw [removeFromQueue_thread]

@[simp]
theorem removeFromQueue_timerBucket
    : ((removeFromQueue s c t).thread u).timerBucket = (s.thread u).timerBucket := by
  rw [removeFromQueue_thread]

@[simp]
theorem removeFromQueue_weight
    : ((removeFromQueue s c t).thread u).weight = (s.thread u).weight := by
  rw [removeFromQueue_thread]

@[simp]
theorem removeFromQueue_pinned
    : ((removeFromQueue s c t).thread u).pinned = (s.thread u).pinned := by
  rw [removeFromQueue_thread]

end Frame

structure Counted (s : State n) (c : Fin n) : Prop where
  threadCount : (s.queue c).threadCount = (s.queue c).runqueue.length
  totalWeight : (s.queue c).totalWeight
    = ((s.queue c).runqueue.map fun t => (s.thread t).weight).sum
  hasRunnableThread : (s.queue c).hasRunnableThread = decide (1 ≤ (s.queue c).runqueue.length)
  hasSurplus : (s.queue c).hasSurplus = decide (2 ≤ (s.queue c).runqueue.length)

structure QueueOk (s : State n) (c : Fin n) : Prop where
  nodup : (s.queue c).runqueue.Nodup
  mem_iff : ∀ t, t ∈ (s.queue c).runqueue ↔ (s.thread t).onRq = true ∧ (s.thread t).cpuNum = c
  counted : Counted s c

theorem QueueOk.congr {s' : State n} (h : QueueOk s c) (hq : s'.queue c = s.queue c)
    (hmem : ∀ t, (s'.thread t).onRq = true ∧ (s'.thread t).cpuNum = c
      ↔ (s.thread t).onRq = true ∧ (s.thread t).cpuNum = c)
    (hw : ∀ t ∈ (s.queue c).runqueue, (s'.thread t).weight = (s.thread t).weight)
    : QueueOk s' c := by
  have hsum : ((s'.queue c).runqueue.map fun t => (s'.thread t).weight)
      = (s.queue c).runqueue.map fun t => (s.thread t).weight := by
    rw [hq]
    exact List.map_congr_left hw
  constructor
  . rw [hq]
    exact h.nodup
  . intro t
    rw [hq, hmem]
    exact h.mem_iff t
  . constructor
    . rw [hq]
      exact h.counted.threadCount
    . rw [hsum, hq]
      exact h.counted.totalWeight
    . rw [hq]
      exact h.counted.hasRunnableThread
    . rw [hq]
      exact h.counted.hasSurplus

theorem QueueOk.insert (h : ∀ d, QueueOk s d) (dl : Nat → Nat) (hrq : (s.thread t).onRq = false)
    (hc : (s.thread t).cpuNum = c) (d : Fin n)
    : QueueOk (insertToQueue dl s c t) d := by
  by_cases hd : d = c
  . subst hd
    have hnot : t ∉ (s.queue d).runqueue := by
      rw [(h d).mem_iff, hrq]
      simp
    have hq : ∃ r : Nat → Nat → Bool, (insertToQueue dl s d t).queue d
        = ⟨(s.queue d).runqueue.orderedInsert (fun a b => r a b) t, (s.queue d).threadCount + 1,
          (s.queue d).totalWeight + (s.thread t).weight,
          if (s.queue d).threadCount + 1 = 1 then true else (s.queue d).hasRunnableThread,
          if (s.queue d).threadCount + 1 = 2 then true else (s.queue d).hasSurplus⟩ := by
      unfold insertToQueue
      rw [if_neg (by simp [hrq])]
      refine ⟨threadRbCmp (s.setThread t { s.thread t with deadline := dl t, onRq := true }), ?_⟩
      simp only [State.setQueue_queue, State.setThread_queue, if_pos, State.setThread_thread]
      rfl
    obtain ⟨r, hq⟩ := hq
    have hperm := List.perm_orderedInsert (fun a b => r a b = true) t (s.queue d).runqueue
    have hcounted := (h d).counted
    constructor
    . rw [hq]
      exact hperm.nodup_iff.mpr (List.nodup_cons.mpr ⟨hnot, (h d).nodup⟩)
    . intro u
      rw [hq]
      simp only
      rw [hperm.mem_iff, List.mem_cons, (h d).mem_iff, insertToQueue_onRq, insertToQueue_cpuNum]
      constructor
      . rintro (rfl | hu)
        . simp [hc]
        . simp [hu]
      . rintro ⟨hu, hd⟩
        rw [Bool.or_eq_true, beq_iff_eq] at hu
        exact hu.imp_right fun hu => ⟨hu, hd⟩
    . constructor
      . rw [hq]
        simp only
        rw [hperm.length_eq, hcounted.threadCount, List.length_cons]
      . simp only [hq, insertToQueue_weight]
        rw [(hperm.map _).sum_nat, List.map_cons, List.sum_cons, hcounted.totalWeight, Nat.add_comm]
      . rw [hq]
        simp only
        rw [hperm.length_eq, hcounted.hasRunnableThread, hcounted.threadCount, List.length_cons]
        split <;> simp <;> omega
      . rw [hq]
        simp only
        rw [hperm.length_eq, hcounted.hasSurplus, hcounted.threadCount, List.length_cons]
        split <;> simp <;> omega
  . apply (h d).congr
    . unfold insertToQueue
      rw [if_neg (by simp [hrq])]
      simp [hd]
    . intro u
      simp only [insertToQueue_onRq, insertToQueue_cpuNum, Bool.or_eq_true, beq_iff_eq]
      constructor
      . rintro ⟨rfl | hu, hd'⟩
        . rw [hc] at hd'
          exact absurd hd'.symm hd
        . exact ⟨hu, hd'⟩
      . exact fun hu => ⟨.inr hu.1, hu.2⟩
    . intro u _
      exact insertToQueue_weight dl s c t u

theorem QueueOk.remove (h : ∀ d, QueueOk s d) (hc : (s.thread t).cpuNum = c) (d : Fin n)
    : QueueOk (removeFromQueue s c t) d := by
  by_cases hrq : (s.thread t).onRq = true
  . by_cases hd : d = c
    . subst hd
      have hin : t ∈ (s.queue d).runqueue := ((h d).mem_iff t).mpr ⟨hrq, hc⟩
      have hq : (removeFromQueue s d t).queue d
          = ⟨(s.queue d).runqueue.erase t, (s.queue d).threadCount - 1,
            (s.queue d).totalWeight - (s.thread t).weight,
            if (s.queue d).threadCount - 1 = 0 then false else (s.queue d).hasRunnableThread,
            if (s.queue d).threadCount - 1 = 1 then false else (s.queue d).hasSurplus⟩ := by
        unfold removeFromQueue
        rw [if_pos hrq]
        simp only [State.setQueue_queue, if_pos, State.setThread_thread]
      have hlen : ((s.queue d).runqueue.erase t).length = (s.queue d).runqueue.length - 1 :=
        List.length_erase_of_mem hin
      have hpos : 0 < (s.queue d).runqueue.length := List.length_pos_of_mem hin
      have hcounted := (h d).counted
      constructor
      . rw [hq]
        exact (h d).nodup.erase t
      . intro u
        rw [hq]
        simp only
        rw [(h d).nodup.mem_erase_iff, (h d).mem_iff]
        simp [and_assoc]
      . constructor
        . rw [hq]
          simp only
          rw [hlen, hcounted.threadCount]
        . simp only [hq, removeFromQueue_weight]
          rw [hcounted.totalWeight, ((List.perm_cons_erase hin).map _).sum_nat, List.map_cons,
            List.sum_cons, Nat.add_sub_cancel_left]
        . rw [hq]
          simp only
          rw [hlen, hcounted.hasRunnableThread, hcounted.threadCount]
          split <;> simp <;> omega
        . rw [hq]
          simp only
          rw [hlen, hcounted.hasSurplus, hcounted.threadCount]
          split <;> simp <;> omega
    . apply (h d).congr
      . unfold removeFromQueue
        rw [if_pos hrq]
        simp [hd]
      . intro u
        simp only [removeFromQueue_onRq, removeFromQueue_cpuNum, Bool.and_eq_true, bne_iff_ne]
        constructor
        . exact fun hu => ⟨hu.1.2, hu.2⟩
        . rintro ⟨hu, hd'⟩
          refine ⟨⟨?_, hu⟩, hd'⟩
          rintro rfl
          rw [hc] at hd'
          exact hd hd'.symm
      . intro u _
        exact removeFromQueue_weight s c t u
  . unfold removeFromQueue
    rw [if_neg hrq]
    exact h d

end Sched
