import Skyline.FC.Step
import Skyline.FC.Lemmas.Frame

/-!
This module contains what the threads have between two sections.
-/

namespace FC

namespace Task

def flushes : Task → List Ptr
  | .writeback _ p => [p]
  | .flush _ _ done todo => done ++ todo
  | _ => []

def cpu : Task → Nat
  | .writeback b _ => b.cpu
  | .flush _ c _ _ => c
  | _ => 0

def owns : Task → Option Ptr
  | .migrate _ p _ => some p
  | .readahead _ p => some p
  | _ => none

structure Free (task : Task) : Prop where
  flushes : task.flushes = []
  owns : task.owns = none

end Task

structure Busy (s : State) (task : Task) : Prop where
  nodup : task.flushes.Nodup
  flushes : ∀ p ∈ task.flushes, p ∈ s.flushed ∧ p ∈ (s.cache task.cpu).lru
  owns : ∀ p, task.owns = some p → p ∈ s.loose ∧ (s.entry p).idle

structure TasksOk (s : State) : Prop where
  busy : ∀ t, Busy s (s.task t)
  flushes_apart : ∀ t t' p, p ∈ (s.task t).flushes → p ∈ (s.task t').flushes → t = t'
  owns_apart : ∀ t t' p, (s.task t).owns = some p → (s.task t').owns = some p → t = t'
  loose : ∀ p ∈ s.loose, ∃ t, (s.task t).owns = some p

variable {s s' s₁ : State} {allowed : State → Tag → Prop} {t : Nat} {task : Task}

theorem Busy.of_free (hfree : task.Free) : Busy s task where
  nodup := hfree.flushes ▸ .nil
  flushes p hp := by
    rw [hfree.flushes] at hp
    cases hp
  owns p hp := by
    rw [hfree.owns] at hp
    cases hp

theorem Busy.keep (h : Ok s) (hbusy : Busy s task) (hmoves : Moves allowed s s')
    (hflush : ∀ s₁ tag, allowed s₁ tag → ∀ p ∈ task.flushes, ¬tag.FlushOf p)
    (howns : ∀ s₁ tag, allowed s₁ tag → ∀ p, task.owns = some p → ¬tag.Owns p)
    : Busy s' task where
  nodup := hbusy.nodup
  flushes p hp := by
    have hhas := hbusy.flushes p hp
    have hstill := hmoves.flushed h hhas.1 fun s₁ tag hallowed => hflush s₁ tag hallowed p hp
    exact ⟨hstill.1, hstill.2 _ hhas.2⟩
  owns p hp := by
    have hhas := hbusy.owns p hp
    have hloose := hmoves.loose h hhas.1 fun s₁ tag hallowed => howns s₁ tag hallowed p hp
    rw [hloose.2]
    exact ⟨hloose.1, hhas.2⟩

structure Tag.Quiet (s : State) (tag : Tag) : Prop where
  flush : ∀ p, ¬tag.FlushOf p
  owns : ∀ p, tag.Owns p → p ∉ s.loose

theorem apart_of_update {tasks tasks' : Nat → Task} (has : Task → Ptr → Prop)
    (hother : ∀ t', t' ≠ t → tasks' t' = tasks t')
    (hnew : ∀ t' p, t' ≠ t → has (tasks' t) p → ¬has (tasks t') p)
    (hapart : ∀ t t' p, has (tasks t) p → has (tasks t') p → t = t') (t' t'' : Nat) (p : Ptr)
    (hp : has (tasks' t') p) (hp' : has (tasks' t'') p) : t' = t'' := by
  by_cases ht : t' = t
  . by_cases ht' : t'' = t
    . rw [ht, ht']
    . rw [ht] at hp
      rw [hother t'' ht'] at hp'
      exact absurd hp' (hnew t'' p ht' hp)
  . rw [hother t' ht] at hp
    by_cases ht' : t'' = t
    . rw [ht'] at hp'
      exact absurd hp (hnew t' p ht hp')
    . rw [hother t'' ht'] at hp'
      exact hapart t' t'' p hp hp'

namespace TasksOk

section

variable (h : Ok s) (htasks : TasksOk s)
include h htasks

theorem advance (hmoves : Moves allowed s s₁) (t : Nat) (task : Task)
    (hflush : ∀ s₁ tag p, allowed s₁ tag → tag.FlushOf p → p ∈ (s.task t).flushes)
    (howns : ∀ s₁ tag p, allowed s₁ tag → tag.Owns p → p ∈ s.loose → (s.task t).owns = some p)
    (hbusy : Busy s₁ task)
    (hnew : ∀ p ∈ task.flushes, p ∈ (s.task t).flushes ∨ p ∉ s.flushed)
    (hown : ∀ p, task.owns = some p → (s.task t).owns = some p ∨ p ∉ s.loose)
    (hloose : ∀ p ∈ s₁.loose, task.owns = some p ∨ p ∈ s.loose ∧ (s.task t).owns ≠ some p)
    : TasksOk (s₁.setTask t task) := by
  have hself : (s₁.setTask t task).task t = task := Function.update_self ..
  have hother : ∀ t', t' ≠ t → (s₁.setTask t task).task t' = s.task t' := by
    intro t' ht
    rw [← hmoves.task_eq.1]
    exact Function.update_of_ne ht _ _
  refine ⟨?_, ?_, ?_, ?_⟩
  . intro t'
    by_cases ht : t' = t
    . rw [ht, hself]
      exact ⟨hbusy.nodup, hbusy.flushes, hbusy.owns⟩
    . rw [hother t' ht]
      have hkeep := (htasks.busy t').keep h hmoves
        (fun s₁ tag hallowed p hp hflushOf =>
          ht (htasks.flushes_apart t' t p hp (hflush s₁ tag p hallowed hflushOf)))
        (fun s₁ tag hallowed p hp hownsOf =>
          ht (htasks.owns_apart t' t p hp
            (howns s₁ tag p hallowed hownsOf ((htasks.busy t').owns p hp).1)))
      exact ⟨hkeep.nodup, hkeep.flushes, hkeep.owns⟩
  . refine apart_of_update (fun task p => p ∈ task.flushes) hother ?_ htasks.flushes_apart
    intro t' p ht hp hp'
    rcases hnew p (hself ▸ hp) with hold | hnot
    . exact ht (htasks.flushes_apart t' t p hp' hold)
    . exact hnot ((htasks.busy t').flushes p hp').1
  . refine apart_of_update (fun task p => task.owns = some p) hother ?_ htasks.owns_apart
    intro t' p ht hp hp'
    rcases hown p (hself ▸ hp) with hold | hnot
    . exact ht (htasks.owns_apart t' t p hp' hold)
    . exact hnot ((htasks.busy t').owns p hp').1
  . intro p hp
    rcases hloose p hp with hp | ⟨hp, hnot⟩
    . refine ⟨t, ?_⟩
      rw [hself]
      exact hp
    . obtain ⟨t', ht'⟩ := htasks.loose p hp
      refine ⟨t', ?_⟩
      rw [hother t']
      . exact ht'
      . rintro rfl
        exact hnot ht'

theorem flushing (hmoves : Moves allowed s s₁)
    (hflush : ∀ s₁ tag p, allowed s₁ tag → tag.FlushOf p → p ∈ (s.task t).flushes)
    (howns : ∀ s₁ tag p, allowed s₁ tag → tag.Owns p → p ∉ s.loose) (hloose : s₁.loose = s.loose)
    (hold : (s.task t).owns = none) (hnew : task.owns = none) (hnodup : task.flushes.Nodup)
    (hlru : ∀ p ∈ task.flushes, p ∈ s₁.flushed ∧ p ∈ (s₁.cache task.cpu).lru)
    (hfresh : ∀ p ∈ task.flushes, p ∈ (s.task t).flushes ∨ p ∉ s.flushed)
    : TasksOk (s₁.setTask t task) := by
  refine htasks.advance h hmoves t task hflush ?_ ⟨hnodup, hlru, ?_⟩ hfresh ?_ ?_
  . intro s₁ tag p hallowed hownsOf hp
    exact absurd hp (howns s₁ tag p hallowed hownsOf)
  . simp [hnew]
  . simp [hnew]
  . intro p hp
    rw [hloose] at hp
    exact .inr ⟨hp, by simp [hold]⟩

theorem owning {p : Ptr} (hmoves : Moves allowed s s₁)
    (hquiet : ∀ s₁ tag, allowed s₁ tag → tag.Quiet s)
    (hold : (s.task t).Free) (hflushes : task.flushes = []) (howns : task.owns = some p)
    (hp : p ∉ s.loose) (hloose : s₁.loose = p :: s.loose) (hidle : (s₁.entry p).idle)
    : TasksOk (s₁.setTask t task) := by
  have hself : ∀ q, task.owns = some q → q = p := by
    intro q hq
    exact (Option.some.inj (howns.symm.trans hq)).symm
  refine htasks.advance h hmoves t task ?_ ?_ ⟨hflushes ▸ .nil, ?_, ?_⟩ ?_ ?_ ?_
  . intro s₁ tag q hallowed hflushOf
    exact absurd hflushOf ((hquiet s₁ tag hallowed).flush q)
  . intro s₁ tag q hallowed hownsOf hq
    exact absurd hq ((hquiet s₁ tag hallowed).owns q hownsOf)
  . simp [hflushes]
  . intro q hq
    rw [hself q hq, hloose]
    exact ⟨List.mem_cons_self, hidle⟩
  . simp [hflushes]
  . intro q hq
    rw [hself q hq]
    exact .inr hp
  . intro q hq
    rw [hloose] at hq
    rcases List.mem_cons.mp hq with rfl | hq
    . exact .inl howns
    . exact .inr ⟨hq, by simp [hold.owns]⟩

theorem free (hmoves : Moves allowed s s₁) (hquiet : ∀ s₁ tag, allowed s₁ tag → tag.Quiet s)
    (hloose : s₁.loose = s.loose) (hold : (s.task t).Free) (hnew : task.Free)
    : TasksOk (s₁.setTask t task) := by
  refine htasks.flushing h hmoves ?_ ?_ hloose hold.owns hnew.owns (hnew.flushes ▸ .nil) ?_ ?_
  . intro s₁ tag p hallowed hflushOf
    exact absurd hflushOf ((hquiet s₁ tag hallowed).flush p)
  . exact fun s₁ tag p hallowed => (hquiet s₁ tag hallowed).owns p
  . simp [hnew.flushes]
  . simp [hnew.flushes]

theorem quiet (hmoves : Moves allowed s s') (hquiet : ∀ s₁ tag, allowed s₁ tag → tag.Quiet s)
    (hloose : s'.loose = s.loose) : TasksOk s' := by
  have htask := hmoves.task_eq.1
  refine ⟨?_, ?_, ?_, ?_⟩
  . intro t
    rw [htask]
    apply (htasks.busy t).keep h hmoves
    . intro s₁ tag hallowed p _
      exact (hquiet s₁ tag hallowed).flush p
    . intro s₁ tag hallowed p hp hownsOf
      exact (hquiet s₁ tag hallowed).owns p hownsOf ((htasks.busy t).owns p hp).1
  . rw [htask]
    exact htasks.flushes_apart
  . rw [htask]
    exact htasks.owns_apart
  . rw [htask, hloose]
    exact htasks.loose

end

end TasksOk

end FC
