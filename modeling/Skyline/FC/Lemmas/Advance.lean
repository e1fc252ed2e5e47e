import Skyline.FC.Lemmas.Tasks
import Skyline.FC.Lemmas.Upkeep
import Skyline.Steps.Basic

/-!
This module contains the moves of each event, and that the events keep what the moves need.
-/

namespace FC

def Bounded (s : State) : Prop := ∀ buffer, .data buffer ∈ s.history.owned → buffer < s.next

structure Inv (s : State) : Prop where
  ok : Ok s
  cursor : ∀ c, (s.cache c).CursorOk
  bounded : Bounded s
  tasks : TasksOk s

/--
An entry that has left its cache or is new is put into a cache that has nothing for its key.
-/
def Fits (s : State) : Event → Prop
  | .getInsert t =>
    match s.task t with
    | .migrate c p _ => (s.cache c).index.lookup (s.entry p).key = none
    | _ => True
  | .readaheadInsert t =>
    match s.task t with
    | .readahead c p => (s.cache c).index.lookup (s.entry p).key = none
    | _ => True
  | _ => True

instance (s : State) (event : Event) : Decidable (Fits s event) := by
  unfold Fits
  split
  . split <;> infer_instance
  . split <;> infer_instance
  . infer_instance

inductive Allows (s : State) : Event → State → Tag → Prop where
  | plain {event : Event} {s₁ : State} : Allows s event s₁ .plain
  | detach {t c k since : Nat} {key : Key} {p : Ptr} (htask : s.task t = .scan c key k since)
      (hlookup : (s.cache ((c + k) % s.ncpu)).index.lookup key = some p)
    : Allows s (.getRemote t) s (.detach p)
  | attach {t c since : Nat} {p : Ptr} {s₁ : State} (htask : s.task t = .migrate c p since)
    : Allows s (.getInsert t) s₁ (.attach p)
  | promote {t c : Nat} {a : State.Promotion} {s₁ : State} {tag : Tag}
      (h : State.Promotes { s with next := s.next + 1 } c a s₁ tag)
    : Allows s (.promote t c a) s₁ tag
  | build {t c : Nat} {a : State.Promotion} {s₁ : State} {tag : Tag}
    (h : State.Builds (s.next + 1) s₁ tag)
    : Allows s (.readahead t c a) s₁ tag
  | readahead {t c : Nat} {p : Ptr} {s₁ : State} (htask : s.task t = .readahead c p)
    : Allows s (.readaheadInsert t) s₁ (.attach p)
  | visit {t : Nat} {b : Broadcast} {s₁ : State} {tag : Tag} (htask : s.task t = .broadcast b)
      (h : State.Visits (s.noteDropped b) b.cpu b.key s₁ tag)
    : Allows s (.broadcast t) s₁ tag
  | returned {t stamp : Nat} {b : Broadcast} (htask : s.task t = .broadcast b)
    (hcpu : s.ncpu ≤ b.cpu)
      (hafter : b.after = .promote stamp)
    : Allows s (.broadcast t) s (.returned b.key stamp)
  | written {t : Nat} {b : Broadcast} {p : Ptr} {ok : Bool} {s₁ : State} {tag : Tag}
      (htask : s.task t = .writeback b p) (h : State.Writes s p ok s₁ tag)
    : Allows s (.written t ok) s₁ tag
  | drop {t c : Nat} {fileId block blocks : UInt64} {s₁ : State} {tag : Tag}
      (htask : s.task t = .dropBlock c fileId block blocks)
      (h : State.Drops s c (fcBlockKey fileId block) s₁ tag)
    : Allows s (.dropBlock t) s₁ tag
  | fsync {t : Nat} {p : Ptr} {s₁ : State} : Allows s (.fsyncCollect t) s₁ (.flush p)
  | idle {t c max : Nat} {now : UInt64} {p : Ptr} {s₁ : State}
    : Allows s (.idleCollect t c max now) s₁ (.flush p)
  | retry {t c : Nat} {who : Flusher} {done todo : List Ptr} {p : Ptr} {ok : Bool} {s₁ : State}
      (htask : s.task t = .flush who c done (p :: todo))
    : Allows s (.write t ok) s₁ (.retry p)
  | settle {t c : Nat} {who : Flusher} {done todo : List Ptr} {s₁ : State} {tag : Tag}
      (htask : s.task t = .flush who c done todo) (h : State.Settles s (done ++ todo) s₁ tag)
    : Allows s (.flushEnd t) s₁ tag
  | migrate {src dst : Nat} {s₁ : State} {tag : Tag} (h : State.Migrates s (s.cache src).lru s₁ tag)
    : Allows s (.checkLoad src dst) s₁ tag
  | store {p : Ptr} {data : List UInt8} : Allows s (.store p data) s (.store p)

def Advances (s : State) (event : Event) (s' : State) : Prop :=
  ∃ s₁ t task, Moves (Allows s event) s s₁ ∧ s' = s₁.setTask t task ∧ TasksOk s'

variable {s s' s₁ : State} {event : Event} {tag : Tag} {t c : Nat} {p : Ptr} {task : Task}

theorem Move.bounded (hbounded : Bounded s) (hmove : Move s tag s') : Bounded s' := by
  have htake : ∀ (a : State.Promotion) (buffer b : Ptr), buffer < s.next
      → .data b ∈ (s.takeData a buffer).history.owned → b < s.next := by
    intro a buffer b hbuffer hb
    have hb : .data b ∈ if a.useInline then s.history.owned else .data buffer :: s.history.owned :=
      hb
    split at hb
    . exact hbounded b hb
    . rcases List.mem_cons.mp hb with hb | hb
      . cases hb
        exact hbuffer
      . exact hbounded b hb
  cases hmove with
  | alloc =>
    intro b hb
    have hb : .data b ∈ .entry s.next :: .key s.next :: s.history.owned := hb
    simp only [List.mem_cons, reduceCtorEq, false_or] at hb
    exact Nat.lt_succ_of_lt (hbounded b hb)
  | build _ a buffer _ _ _ hbuffer => exact fun b hb => htake a buffer b hbuffer hb
  | insert _ _ a buffer _ _ _ hbuffer =>
    exact fun b hb => htake a buffer b hbuffer hb
  | reuse _ _ a buffer _ _ _ hbuffer => exact fun b hb => htake a buffer b hbuffer hb
  | fresh => exact fun b hb => Nat.lt_succ_of_lt (hbounded b hb)
  | _ => exact hbounded

theorem Moves.bounded {allowed : State → Tag → Prop} (hbounded : Bounded s)
    (hmoves : Moves allowed s s')
    : Bounded s' := by
  induction hmoves with
  | refl => exact hbounded
  | tail _ _ _ hmove ih => exact hmove.bounded ih

theorem Inv.of_advances (h : Inv s) (hadvances : Advances s event s') : Inv s' := by
  obtain ⟨s₁, t, task, hmoves, rfl, htasks⟩ := hadvances
  have hok := h.ok.moves hmoves
  have hcursor := hmoves.cursor h.ok h.cursor
  have hbounded := hmoves.bounded h.bounded
  exact ⟨hok.freed rfl rfl rfl rfl rfl rfl, hcursor, hbounded, htasks⟩

namespace Advances

theorem setTask_self (s : State) (t : Nat) : s.setTask t (s.task t) = s := by
  unfold State.setTask
  rw [Function.update_eq_self]

theorem of_quiet (h : Inv s) (hmoves : Moves (Allows s event) s s')
    (hquiet : ∀ s₁ tag, Allows s event s₁ tag → tag.Quiet s) (hloose : s'.loose = s.loose)
    : Advances s event s' :=
  ⟨s', 0, s'.task 0, hmoves, (setTask_self s' 0).symm, h.tasks.quiet h.ok hmoves hquiet hloose⟩

theorem quiet_of_plain (htag : Plain s₁ tag) : tag.Quiet s := by
  cases htag
  exact ⟨fun _ => id, fun _ => False.elim⟩

theorem allows_of_plain (htag : Plain s₁ tag) : Allows s event s₁ tag := by
  cases htag
  exact .plain

theorem loose_of_plain (hmoves : Moves Plain s s') : s'.loose = s.loose := by
  apply hmoves.loose_eq
  rintro s₁ tag rfl loose
  rfl

theorem of_plain (h : Inv s) (hmoves : Moves Plain s s') : Advances s event s' := by
  refine ⟨s', 0, s'.task 0, hmoves.mono fun _ _ => allows_of_plain, (setTask_self s' 0).symm, ?_⟩
  exact h.tasks.quiet h.ok hmoves (fun _ _ => quiet_of_plain) (loose_of_plain hmoves)

theorem refl (h : Inv s) : Advances s event s := of_plain h .refl

theorem of_free (h : Inv s) (hmoves : Moves Plain s s₁) (hold : (s.task t).Free) (hnew : task.Free)
    : Advances s event (s₁.setTask t task) := by
  refine ⟨s₁, t, task, hmoves.mono fun _ _ => allows_of_plain, rfl, ?_⟩
  exact h.tasks.free h.ok hmoves (fun _ _ => quiet_of_plain) (loose_of_plain hmoves) hold hnew

theorem free_of_ready (hready : s.isReady t) : (s.task t).Free := by
  unfold State.isReady at hready
  split at hready
  next htask =>
    rw [htask]
    exact ⟨rfl, rfl⟩
  next => cases hready

section

variable (h : Inv s)
include h

theorem get (t c : Nat) (key : Key) (ioLen : UInt64)
    : Advances s (.get t c key ioLen) (s.step (.get t c key ioLen)) := by
  have hmoves := State.getLocal_moves h.ok c key ioLen
  simp only [State.step]
  split
  next hcond =>
    split
    next s₁ heq =>
      rw [heq] at hmoves
      exact of_free h hmoves (free_of_ready hcond.1) ⟨rfl, rfl⟩
    next s₁ _ _ heq =>
      rw [heq] at hmoves
      exact of_plain h hmoves
  next => exact refl h

theorem getRemote (t : Nat) : Advances s (.getRemote t) (s.step (.getRemote t)) := by
  simp only [State.step]
  split
  next c key k since htask =>
    have hfree : (s.task t).Free := htask ▸ ⟨rfl, rfl⟩
    split
    . split
      next s₁ p hget =>
        rcases State.getRemote_eq h.ok hget with ⟨_, hnone⟩ | ⟨q, hq, rfl, hlookup, hp, hidle⟩
        . cases hnone
        cases hq
        have hmoves : Moves (Allows s (.getRemote t)) s (s.unlink ((c + k) % s.ncpu) p false) :=
          .single (.detach htask hlookup) (.detach _ p hp hidle)
        have hnot : p ∉ s.loose := fun hmem => h.ok.loose_apart p hmem _ hp
        refine ⟨_, t, _, hmoves, rfl, h.tasks.owning h.ok hmoves ?_ hfree rfl rfl hnot rfl hidle⟩
        intro s₁ tag hallowed
        cases hallowed <;> exact ⟨fun _ => id, fun _ => False.elim⟩
      next s₁ hget =>
        rcases State.getRemote_eq h.ok hget with ⟨rfl, _⟩ | ⟨q, hq, _⟩
        . exact of_free h .refl hfree ⟨rfl, rfl⟩
        . cases hq
    . exact of_free h .refl hfree ⟨rfl, rfl⟩
  next => exact refl h

theorem attach (hmoves : Moves (PlainOr (.attach p)) s s₁)
    (hallows : ∀ s₁, Allows s event s₁ (.attach p)) (howns : (s.task t).owns = some p)
    (hloose : s₁.loose = s.loose.erase p) : Advances s event (s₁.setTask t .ready) := by
  have hmoves' : Moves (Allows s event) s s₁ := by
    apply hmoves.mono
    rintro s₁ tag (rfl | rfl)
    . exact .plain
    . exact hallows s₁
  refine ⟨s₁, t, _, hmoves', rfl,
    h.tasks.advance h.ok hmoves t _ ?_ ?_ (.of_free ⟨rfl, rfl⟩) ?_ ?_ ?_⟩
  . rintro s₁ tag q (rfl | rfl) hflush <;> cases hflush
  . rintro s₁ tag q (rfl | rfl) hown _
    . cases hown
    . cases hown
      exact howns
  . intro q hq
    cases hq
  . intro q hq
    cases hq
  . intro q hq
    rw [hloose, h.ok.loose_nodup.mem_erase_iff] at hq
    refine .inr ⟨hq.2, ?_⟩
    rw [howns]
    exact fun heq => hq.1 (Option.some.inj heq).symm

theorem getInsert (t : Nat) (hfits : Fits s (.getInsert t))
    : Advances s (.getInsert t) (s.step (.getInsert t)) := by
  simp only [State.step]
  split
  next c p since htask =>
    simp only [Fits, htask] at hfits
    have howns : (s.task t).owns = some p := htask ▸ rfl
    obtain ⟨hp, hidle⟩ := (h.tasks.busy t).owns p howns
    exact attach h (State.getInsert_moves hp hfits (Entry.idle_iff.mp hidle).2.1 since)
      (fun _ => .attach htask) howns rfl
  next => exact refl h

theorem readaheadInsert (t : Nat) (hfits : Fits s (.readaheadInsert t))
    : Advances s (.readaheadInsert t) (s.step (.readaheadInsert t)) := by
  simp only [State.step]
  split
  next c p htask =>
    simp only [Fits, htask] at hfits
    have howns : (s.task t).owns = some p := htask ▸ rfl
    obtain ⟨hp, hidle⟩ := (h.tasks.busy t).owns p howns
    exact attach h (.single (.inr rfl) (.attach c p Cache.fcLruPushFront hp (.inr rfl) hfits))
      (fun _ => .readahead htask) howns rfl
  next => exact refl h

theorem put (c : Nat) (p : Ptr) : Advances s (.put c p) (s.step (.put c p)) := by
  simp only [State.step]
  split
  next hcond => exact of_plain h (State.fileCachePut_moves h.ok hcond.2 hcond.1)
  next => exact refl h

theorem recordIo (c : Nat) (key : Key) (ioLen fileSize fileId : UInt64)
    : Advances s (.recordIo c key ioLen fileSize fileId)
      (s.step (.recordIo c key ioLen fileSize fileId)) := by
  simp only [State.step]
  split
  . exact of_plain h (State.recordIo_moves h.ok c key ioLen fileSize fileId)
  . exact refl h

theorem fresh_next : .data s.next ∉ s.history.owned :=
  fun hmem => Nat.lt_irrefl _ (h.bounded _ hmem)

theorem next_not_loose : s.next + 1 ∉ s.loose :=
  fun hmem => Nat.lt_asymm (h.ok.loose_bound _ hmem) (Nat.lt_succ_self _)

end

theorem quiet_of_promotes {a : State.Promotion} (h : Inv s)
    (htag : State.Promotes { s with next := s.next + 1 } c a s₁ tag) : tag.Quiet s := by
  have hnext : ∀ {p q : Ptr}, p = q → p = s.next + 1 → q ∉ s.loose := by
    rintro p q rfl rfl
    exact next_not_loose h
  rcases htag with rfl | htag
  . exact ⟨fun _ => id, fun _ => False.elim⟩
  . cases tag with
    | drop => exact ⟨fun _ => id, fun _ hown => hnext hown htag⟩
    | insert => exact ⟨fun _ => id, fun _ hown => hnext hown htag⟩
    | _ => first | exact ⟨fun _ => id, fun _ => False.elim⟩ | exact htag.elim

theorem promote (h : Inv s) (t c : Nat) (a : State.Promotion)
    : Advances s (.promote t c a) (s.step (.promote t c a)) := by
  obtain ⟨hmoves, hloose, _⟩ :=
    State.promoteLocked_moves (h.ok.move .fresh) c a s.next (Nat.lt_succ_self _)
    (fresh_next h)
  have hmoves : Moves (Allows s (.promote t c a)) s _ :=
    (Moves.single .plain .fresh).trans (hmoves.mono fun _ _ htag => .promote htag)
  have hquiet : ∀ s₁ tag, Allows s (.promote t c a) s₁ tag → tag.Quiet s := by
    intro s₁ tag hallowed
    cases hallowed with
    | plain => exact ⟨fun _ => id, fun _ => False.elim⟩
    | promote htag => exact quiet_of_promotes h htag
  simp only [State.step]
  split
  next hcond =>
    split
    . refine ⟨_, t, _, hmoves, rfl, ?_⟩
      exact h.tasks.free h.ok hmoves hquiet hloose (free_of_ready hcond.1) ⟨rfl, rfl⟩
    . exact of_quiet h hmoves hquiet hloose
  next => exact refl h

theorem readahead (h : Inv s) (t c : Nat) (a : State.Promotion)
    : Advances s (.readahead t c a) (s.step (.readahead t c a)) := by
  simp only [State.step]
  split
  next hcond =>
    have hfree := free_of_ready hcond.1
    have hquiet : ∀ s₁ tag, Allows s (.readahead t c a) s₁ tag → tag.Quiet s := by
      intro s₁ tag hallowed
      cases hallowed with
      | plain => exact ⟨fun _ => id, fun _ => False.elim⟩
      | build htag =>
        rcases htag with rfl | rfl | rfl
        . exact ⟨fun _ => id, fun _ => False.elim⟩
        . exact ⟨fun _ => id, fun _ => False.elim⟩
        . refine ⟨fun _ => id, ?_⟩
          rintro p rfl
          exact next_not_loose h
    generalize hbuild : State.readaheadBuild _ _ _ _ = res
    obtain ⟨s₁, found⟩ := res
    obtain ⟨hmoves, hfound⟩ := State.readaheadBuild_moves (h.ok.move .fresh) a s.next
      (Nat.lt_succ_self _) (fresh_next h) hbuild
    have hmoves : Moves (Allows s (.readahead t c a)) s s₁ :=
      (Moves.single .plain .fresh).trans (hmoves.mono fun _ _ htag => .build htag)
    rcases hfound with ⟨rfl, hloose⟩ | ⟨rfl, hloose, hidle⟩
    . exact of_quiet h hmoves hquiet hloose
    . exact ⟨_, t, _, hmoves, rfl,
        h.tasks.owning h.ok hmoves hquiet hfree rfl rfl (next_not_loose h) hloose hidle⟩
  next => exact refl h

theorem collect (h : Inv s) {cond : Entry → Bool} (hcond : ∀ e, cond e → e.pinCount = 0 ∧ e.isDirty)
    {max : Nat} (hcollect : s.collect cond max (s.cache c).lru = (s₁, task.flushes))
    (hallows : ∀ s₁ p, Allows s event s₁ (.flush p)) (hold : (s.task t).Free)
    (howns : task.owns = none)
    (hcpu : ∀ p ∈ task.flushes, task.cpu = c) : Advances s event (s₁.setTask t task) := by
  obtain ⟨hmoves, hcache, hsub, hnew, hmem⟩ := State.collect_moves h.ok _ hcond _ _
    ⟨h.ok.nodup c, fun _ => id⟩ hcollect
  have hmoves' : Moves (Allows s event) s s₁ := by
    apply hmoves.mono
    rintro s₁ tag ⟨p, rfl⟩
    exact hallows s₁ p
  have hloose : s₁.loose = s.loose := by
    apply hmoves.loose_eq
    rintro s₁ tag ⟨p, rfl⟩ loose
    rfl
  refine ⟨s₁, t, task, hmoves', rfl, h.tasks.flushing h.ok hmoves ?_ ?_ hloose hold.owns howns
    ((h.ok.nodup c).sublist hsub) ?_ ?_⟩
  . rintro s₁ tag q ⟨p, rfl⟩ hflush
    cases hflush
  . rintro s₁ tag q ⟨p, rfl⟩ hown
    cases hown
  . intro p hp
    rw [hcpu p hp, hcache]
    exact ⟨(hmem p).mpr (.inl hp), hsub.subset hp⟩
  . exact fun p hp => .inr (hnew p hp)

theorem noteDropped_moves (s : State) (b : Broadcast) : Moves Plain s (s.noteDropped b) := by
  unfold State.noteDropped
  split
  . exact .single rfl (.note _)
  . exact .refl

theorem broadcast_quiet (hallowed : Allows s (.broadcast t) s₁ tag) : tag.Quiet s := by
  cases hallowed with
  | visit _ htag => cases tag <;> first | exact ⟨fun _ => id, fun _ => False.elim⟩ | exact htag.elim
  | _ => exact ⟨fun _ => id, fun _ => False.elim⟩

section

variable (h : Inv s)
include h

theorem stepBroadcast {b : Broadcast} (htask : s.task t = .broadcast b)
    : Advances s (.broadcast t) (s.stepBroadcast t b) := by
  have hfree : (s.task t).Free := htask ▸ ⟨rfl, rfl⟩
  unfold State.stepBroadcast
  dsimp only
  split
  . split
    . exact of_free h .refl hfree ⟨rfl, rfl⟩
    have hnote := noteDropped_moves s b
    have hok := h.ok.moves hnote
    have hnote' : Moves (Allows s (.broadcast t)) s (s.noteDropped b) :=
      hnote.mono fun _ _ => allows_of_plain
    split
    next s₁ p hvisit =>
      obtain ⟨hmoves, hfound⟩ := State.broadcastVisit_moves hok hvisit
      rcases hfound with ⟨q, hq, rfl, hp, hpin⟩ | ⟨hnone, _⟩
      . cases hq
        have hmoves := hnote'.trans (hmoves.mono fun _ _ => .visit htask)
        have hflushed := (hok.not_held hp hpin).2
        have hsame : (s.noteDropped b).flushed = s.flushed := by
          unfold State.noteDropped
          split <;> rfl
        rw [List.count_eq_zero, hsame] at hflushed
        have hloose := loose_of_plain hnote
        refine ⟨_, t, _, hmoves, rfl, h.tasks.flushing h.ok hmoves ?_ ?_ hloose hfree.owns rfl
          (List.nodup_singleton p) ?_ ?_⟩
        . exact fun _ _ q hallowed hflush => absurd hflush ((broadcast_quiet hallowed).flush q)
        . exact fun _ _ q hallowed => (broadcast_quiet hallowed).owns q
        . intro q hq
          rw [List.mem_singleton.mp hq]
          exact ⟨List.mem_cons_self, hp⟩
        . intro q hq
          rw [List.mem_singleton.mp hq]
          exact .inr hflushed
      . cases hnone
    next s₁ hvisit =>
      obtain ⟨hmoves, _⟩ := State.broadcastVisit_moves hok hvisit
      have hloose : s₁.loose = s.loose := by
        rw [← loose_of_plain hnote]
        apply hmoves.loose_eq
        intro s₁ tag htag loose
        cases tag <;> first | rfl | exact absurd htag id
      have hmoves := hnote'.trans (hmoves.mono fun _ _ => .visit htask)
      exact ⟨_, t, _, hmoves, rfl,
        h.tasks.free h.ok hmoves (fun _ _ => broadcast_quiet) hloose hfree ⟨rfl, rfl⟩⟩
  next hcpu =>
    split
    next stamp hafter =>
      have hmoves : Moves (Allows s (.broadcast t)) s (s.returnPromote b.key stamp) :=
        .single (.returned htask (Nat.le_of_not_lt hcpu) hafter) (.returned b.key stamp)
      exact ⟨_, t, _, hmoves, rfl,
        h.tasks.free h.ok hmoves (fun _ _ => broadcast_quiet) rfl hfree ⟨rfl, rfl⟩⟩
    next => exact of_free h .refl hfree ⟨rfl, rfl⟩
    next => exact of_free h .refl hfree ⟨rfl, rfl⟩

theorem broadcast (t : Nat) : Advances s (.broadcast t) (s.step (.broadcast t)) := by
  simp only [State.step]
  split
  next b htask => exact stepBroadcast h htask
  next => exact refl h

theorem written (t : Nat) (ok : Bool) : Advances s (.written t ok) (s.step (.written t ok)) := by
  simp only [State.step]
  split
  next b p htask =>
    have hflushes : (s.task t).flushes = [p] := htask ▸ rfl
    have hcpu : (s.task t).cpu = b.cpu := htask ▸ rfl
    have howns : (s.task t).owns = none := htask ▸ rfl
    have hhas := (h.tasks.busy t).flushes p (hflushes ▸ List.mem_cons_self)
    rw [hcpu] at hhas
    have hmoves := State.broadcastWritten_moves h.ok hhas.2 hhas.1 b.key ok
    have hloose : (s.broadcastWritten b.cpu b.key p ok).loose = s.loose := by
      apply hmoves.loose_eq
      intro s₁ tag htag loose
      cases tag <;> first | rfl | exact absurd htag id
    have hmoves : Moves (Allows s (.written t ok)) s _ := hmoves.mono fun _ _ => .written htask
    refine ⟨_, t, _, hmoves, rfl,
      h.tasks.flushing h.ok hmoves ?_ ?_ hloose howns rfl .nil nofun nofun⟩
    . intro s₁ tag q hallowed hflush
      rw [hflushes, List.mem_singleton]
      cases hallowed with
      | plain => cases hflush
      | written htask' htag =>
        rw [htask] at htask'
        cases htask'
        cases tag with
        | writtenOut => exact (Eq.symm hflush).trans htag.1
        | fail => exact (Eq.symm hflush).trans htag.1
        | _ => first | exact absurd hflush id | exact absurd htag id
    . intro s₁ tag q hallowed hown
      cases hallowed with
      | plain => cases hown
      | written _ htag => cases tag <;> first | exact absurd hown id | exact absurd htag id
  next => exact refl h

theorem nextBlock (hold : (s.task t).Free) (hmoves : Moves (Allows s event) s s₁)
    (hquiet : ∀ s₁ tag, Allows s event s₁ tag → tag.Quiet s) (hloose : s₁.loose = s.loose)
    (c : Nat) (fileId block blocks : UInt64)
    : Advances s event (s₁.nextBlock t c fileId block blocks) := by
  unfold State.nextBlock
  split
  . exact ⟨_, t, _, hmoves, rfl, h.tasks.free h.ok hmoves hquiet hloose hold ⟨rfl, rfl⟩⟩
  . exact ⟨_, t, _, hmoves, rfl, h.tasks.free h.ok hmoves hquiet hloose hold ⟨rfl, rfl⟩⟩

theorem invalidate (t c : Nat) (key : Key)
    : Advances s (.invalidate t c key) (s.step (.invalidate t c key)) := by
  simp only [State.step]
  split
  next hcond => exact of_free h .refl (free_of_ready hcond.1) ⟨rfl, rfl⟩
  next => exact refl h

theorem invalidateFile (t c : Nat) (fileId fileSize : UInt64)
    : Advances s (.invalidateFile t c fileId fileSize)
      (s.step (.invalidateFile t c fileId fileSize)) := by
  simp only [State.step]
  split
  next hcond =>
    refine nextBlock h (free_of_ready hcond.1) .refl ?_ rfl c fileId _ _
    intro s₁ tag hallowed
    cases hallowed
    exact ⟨fun _ => id, fun _ => False.elim⟩
  next => exact refl h

theorem dropBlock (t : Nat) : Advances s (.dropBlock t) (s.step (.dropBlock t)) := by
  simp only [State.step]
  split
  next c fileId block blocks htask =>
    have hmoves := State.dropBlock_moves h.ok c (fcBlockKey fileId block)
    have hloose : (s.dropBlock c (fcBlockKey fileId block)).loose = s.loose := by
      apply hmoves.loose_eq
      intro s₁ tag htag loose
      cases tag <;> first | rfl | exact absurd htag id
    refine nextBlock h (htask ▸ ⟨rfl, rfl⟩)
      (hmoves.mono fun _ _ => .drop htask) ?_ hloose c fileId _ _
    intro s₁ tag hallowed
    cases hallowed with
    | plain => exact ⟨fun _ => id, fun _ => False.elim⟩
    | drop _ htag =>
      cases tag <;> first | exact ⟨fun _ => id, fun _ => False.elim⟩ | exact htag.elim
  next => exact refl h

theorem fsync (t : Nat) (fileId : UInt64)
    : Advances s (.fsync t fileId) (s.step (.fsync t fileId)) := by
  simp only [State.step]
  split
  next hcond => exact of_free h .refl (free_of_ready hcond) ⟨rfl, rfl⟩
  next => exact refl h

theorem fsyncCollect (t : Nat) : Advances s (.fsyncCollect t) (s.step (.fsyncCollect t)) := by
  simp only [State.step]
  split
  next fileId i htask =>
    have hfree : (s.task t).Free := htask ▸ ⟨rfl, rfl⟩
    split
    . split
      next s₁ heq =>
        exact collect h (State.fsyncWants_cond fileId) heq (fun _ _ => .fsync) hfree rfl nofun
      next s₁ list _ heq =>
        exact collect h (State.fsyncWants_cond fileId) heq
          (fun _ _ => .fsync) hfree rfl fun _ _ => rfl
    . exact of_free h .refl hfree ⟨rfl, rfl⟩
  next => exact refl h

theorem idleCollect (t c max : Nat) (now : UInt64)
    : Advances s (.idleCollect t c max now) (s.step (.idleCollect t c max now)) := by
  simp only [State.step]
  split
  next hcond =>
    exact collect h (State.idleWants_cond now) rfl (fun _ _ => .idle)
      (free_of_ready hcond.1) rfl fun _ _ => rfl
  next => exact refl h

end

theorem flushWrote_flushed (s : State) (c : Nat) (p : Ptr) (ok : Bool)
    : (s.flushWrote c p ok).flushed = s.flushed := by
  cases ok <;> rfl

theorem flushWrote_lru (s : State) (c : Nat) (p : Ptr) (ok : Bool) (d : Nat)
    : ((s.flushWrote c p ok).cache d).lru = (s.cache d).lru := by
  cases ok with
  | false =>
    refine (State.update_frame s.cache c _ ?_ ?_ d).1
    . rfl
    . rfl
  | true =>
    refine (State.update_frame s.cache c _ ?_ ?_ d).1
    . rfl
    . rfl

section

variable (h : Inv s)
include h

theorem write (t : Nat) (ok : Bool) : Advances s (.write t ok) (s.step (.write t ok)) := by
  simp only [State.step]
  split
  next who c done p todo htask =>
    split
    . have hbusy := h.tasks.busy t
      rw [htask] at hbusy
      have hperm : (p :: done ++ todo).Perm (done ++ p :: todo) := List.perm_middle.symm
      have hp : p ∈ s.flushed ∧ p ∈ (s.cache c).lru := hbusy.flushes p (by simp [Task.flushes])
      have hmoves := State.flushWrote_moves hp.2 hp.1 ok
      have hloose : (s.flushWrote c p ok).loose = s.loose := by cases ok <;> rfl
      have hmoves' : Moves (Allows s (.write t ok)) s (s.flushWrote c p ok) := by
        apply hmoves.mono
        rintro s₁ tag (rfl | rfl)
        . exact .plain
        . exact .retry htask
      have howns : (s.task t).owns = none := htask ▸ rfl
      refine ⟨_, t, _, hmoves', rfl, h.tasks.flushing h.ok hmoves ?_ ?_ hloose howns rfl ?_ ?_ ?_⟩
      . rintro s₁ tag q (rfl | rfl) hflush
        . cases hflush
        . cases hflush
          rw [htask]
          simp [Task.flushes]
      . rintro s₁ tag q (rfl | rfl) hown <;> cases hown
      . exact hperm.nodup_iff.mpr hbusy.nodup
      . intro q hq
        rw [flushWrote_flushed, flushWrote_lru]
        exact hbusy.flushes q (hperm.mem_iff.mp hq)
      . intro q hq
        rw [htask]
        exact .inl (hperm.mem_iff.mp hq)
    . exact refl h
  next => exact refl h

theorem flushed {who : Flusher} {done todo : List Ptr} (htask : s.task t = .flush who c done todo)
    (hnew : task.Free)
    : Advances s (.flushEnd t) (((done ++ todo).foldl (State.flushEnd c) s).setTask t task) := by
  have hbusy := h.tasks.busy t
  rw [htask] at hbusy
  have hmoves := State.flushEnd_moves h.ok (done ++ todo) hbusy.nodup
    fun p hp => ⟨(hbusy.flushes p hp).2, (hbusy.flushes p hp).1⟩
  have hloose : ((done ++ todo).foldl (State.flushEnd c) s).loose = s.loose := by
    apply hmoves.loose_eq
    rintro s₁ tag ⟨p, hp, rfl, _⟩ loose
    rfl
  have hmoves' : Moves (Allows s (.flushEnd t)) s _ := hmoves.mono fun _ _ => .settle htask
  refine ⟨_, t, _, hmoves', rfl, h.tasks.flushing h.ok hmoves ?_ ?_ hloose (htask ▸ rfl) hnew.owns
    (hnew.flushes ▸ .nil) ?_ ?_⟩
  . rintro s₁ tag q ⟨p, hp, rfl, _⟩ hflush
    cases hflush
    rw [htask]
    exact hp
  . rintro s₁ tag q ⟨p, hp, rfl, _⟩ hown
    cases hown
  . simp [hnew.flushes]
  . simp [hnew.flushes]

theorem flushEnd (t : Nat) : Advances s (.flushEnd t) (s.step (.flushEnd t)) := by
  simp only [State.step]
  split
  next who c done todo htask =>
    split
    . cases who with
      | fsync => exact flushed h htask ⟨rfl, rfl⟩
      | idle => exact flushed h htask ⟨rfl, rfl⟩
    . exact refl h
  next => exact refl h

theorem checkLoad (src dst : Nat)
    : Advances s (.checkLoad src dst) (s.step (.checkLoad src dst)) := by
  simp only [State.step]
  split
  next hcond =>
    obtain ⟨hmoves, hloose⟩ := State.checkLoad_moves h.ok hcond.2.2
    refine of_quiet h (hmoves.mono fun _ _ => .migrate) ?_ hloose
    intro s₁ tag hallowed
    cases hallowed with
    | plain => exact ⟨fun _ => id, fun _ => False.elim⟩
    | migrate htag =>
      rcases htag with rfl | ⟨p, hp, rfl | rfl, _⟩
      . exact ⟨fun _ => id, fun _ => False.elim⟩
      . exact ⟨fun _ => id, fun _ => False.elim⟩
      . refine ⟨fun _ => id, ?_⟩
        rintro q rfl hq
        exact h.ok.loose_apart _ hq _ hp
  next => exact refl h

theorem store (p : Ptr) (data : List UInt8)
    : Advances s (.store p data) (s.step (.store p data)) := by
  simp only [State.step]
  split
  next hcond =>
    refine of_quiet h (.single .store (.store p data hcond.1 hcond.2)) ?_ rfl
    intro s₁ tag hallowed
    cases hallowed <;> exact ⟨fun _ => id, fun _ => False.elim⟩
  next => exact refl h

theorem of_cpu (hmoves : Moves Plain s s') : Advances s event (if c < s.ncpu then s' else s) := by
  split
  . exact of_plain h hmoves
  . exact refl h

end

end Advances

theorem Inv.advances (h : Inv s) (hfits : Fits s event) : Advances s event (s.step event) := by
  cases event with
  | get t c key ioLen => exact .get h t c key ioLen
  | getRemote t => exact .getRemote h t
  | getInsert t => exact .getInsert h t hfits
  | put c p => exact .put h c p
  | recordIo c key ioLen fileSize fileId => exact .recordIo h c key ioLen fileSize fileId
  | promote t c a => exact .promote h t c a
  | broadcast t => exact .broadcast h t
  | written t ok => exact .written h t ok
  | readahead t c a => exact .readahead h t c a
  | readaheadInsert t => exact .readaheadInsert h t hfits
  | invalidate t c key => exact .invalidate h t c key
  | invalidateFile t c fileId fileSize => exact .invalidateFile h t c fileId fileSize
  | dropBlock t => exact .dropBlock h t
  | fsync t fileId => exact .fsync h t fileId
  | fsyncCollect t => exact .fsyncCollect h t
  | idleCollect t c max now => exact .idleCollect h t c max now
  | write t ok => exact .write h t ok
  | flushEnd t => exact .flushEnd h t
  | idleStats c => exact .of_cpu h (State.idleStats_moves s c)
  | idleOrphans c batch =>
    exact .of_cpu h (State.idleOrphans_moves h.ok batch _ ⟨h.ok.nodup c, fun _ => id⟩)
  | idleQuota c batch => exact .of_cpu h (State.idleQuotaPhase_moves h.ok c batch)
  | idleEvict c batch => exact .of_cpu h (State.idleEvictPhase_moves h.ok c batch)
  | reclaim c pages => exact .of_cpu h (State.reclaim_evicts h.ok c pages).moves
  | checkLoad src dst => exact .checkLoad h src dst
  | tick c => exact .of_cpu h (State.fileCacheTick_moves h.ok h.cursor c)
  | setLimits c softLimit hardLimit =>
    exact .of_cpu h (State.fileCacheSetLimits_moves s c softLimit hardLimit)
  | store p data => exact .store h p data

theorem Inv.step (h : Inv s) (hfits : Fits s event) : Inv (s.step event) :=
  h.of_advances (h.advances hfits)

theorem inv_boot (ncpu : Nat) : Inv (boot ncpu) where
  ok :=
    { keyed := by simp [boot, fileCacheCpuInit]
      listed := by simp [boot, fileCacheCpuInit]
      nodup := by simp [boot, fileCacheCpuInit]
      apart := by simp [boot, fileCacheCpuInit]
      bound := by simp [boot, fileCacheCpuInit]
      loose_nodup := .nil
      loose_apart := by simp [boot]
      loose_bound := by simp [boot]
      loose_ok := by simp [boot]
      entries := by simp [boot, fileCacheCpuInit]
      refs := by simp [boot] }
  cursor _ _ hp := by cases hp
  bounded _ hb := by cases hb
  tasks :=
    { busy := fun _ => .of_free ⟨rfl, rfl⟩
      flushes_apart := by simp [boot, Task.flushes]
      owns_apart := by simp [boot, Task.owns]
      loose := by simp [boot] }

def Reachable (ok : State → Event → Prop) (ncpu : Nat) (s : State) : Prop :=
  Steps.Reach (fun s event => some (s.step event)) ok (boot ncpu) s

theorem Reachable.invariant {ok : State → Event → Prop} {ncpu : Nat} (inv : State → Prop)
    (hfits : ∀ s event, ok s event → Fits s event) (hboot : inv (boot ncpu))
    (hstep : ∀ s event, Inv s → inv s → ok s event → inv (s.step event)) (h : Reachable ok ncpu s)
    : Inv s ∧ inv s := by
  refine Steps.Reach.invariant (fun s => Inv s ∧ inv s) ⟨inv_boot ncpu, hboot⟩ ?_ h
  rintro s event s' ⟨hinv, hs⟩ hok hevent
  cases hevent
  exact ⟨hinv.step (hfits s event hok), hstep s event hinv hs hok⟩

end FC
