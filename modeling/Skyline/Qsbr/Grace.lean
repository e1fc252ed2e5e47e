import Skyline.Qsbr.Basic

/-!
This module contains the safety of the collections.
-/

namespace Qsbr

open Function

variable {s s' : State}

section

variable {t : Nat} {th : Thread}

theorem setThread_self : (setThread s t th).thread t = th := by
  unfold setThread
  dsimp only
  rw [update_self]

theorem setThread_other {t' : Nat} (h : t' ≠ t) : (setThread s t th).thread t' = s.thread t' := by
  unfold setThread
  dsimp only
  rw [update_of_ne h]

end

structure Presence (s : State) : Prop where
  counted : ∀ i, ∃ l : List Nat, l.Nodup ∧ l.length = s.count i ∧
    ∀ t, t ∈ l ↔ (s.thread t).mode = some true ∧ (s.thread t).slot = some i
  slots : ∀ t i, (s.thread t).slot = some i → i < qsbrSlots ∧ i < s.slotAlloc
  entered : ∀ t, (s.thread t).mode = some true → (s.thread t).slot ≠ none
  cleaners : ∀ t, (s.thread t).mode = some false → t ∈ s.cleaners

structure SamePresence (s s' : State) : Prop where
  count : s'.count = s.count
  slotAlloc : s'.slotAlloc = s.slotAlloc
  cleaners : s'.cleaners = s.cleaners
  slot : ∀ t, (s'.thread t).slot = (s.thread t).slot
  mode : ∀ t, (s'.thread t).mode = (s.thread t).mode
  entries : ∀ t, (s'.thread t).entries = (s.thread t).entries

theorem SamePresence.refl (s : State) : SamePresence s s :=
  ⟨rfl, rfl, rfl, fun _ => rfl, fun _ => rfl, fun _ => rfl⟩

theorem SamePresence.trans {s'' : State} (h1 : SamePresence s s') (h2 : SamePresence s' s'')
    : SamePresence s s'' where
  count := h2.count.trans h1.count
  slotAlloc := h2.slotAlloc.trans h1.slotAlloc
  cleaners := h2.cleaners.trans h1.cleaners
  slot := fun t => (h2.slot t).trans (h1.slot t)
  mode := fun t => (h2.mode t).trans (h1.mode t)
  entries := fun t => (h2.entries t).trans (h1.entries t)

theorem SamePresence.presence (h : SamePresence s s') (hp : Presence s) : Presence s' where
  counted := by
    intro i
    simp only [h.count, h.mode, h.slot]
    exact hp.counted i
  slots := by
    intro t i hslot
    rw [h.slot] at hslot
    rw [h.slotAlloc]
    exact hp.slots t i hslot
  entered := by
    intro t hmode
    rw [h.mode] at hmode
    rw [h.slot]
    exact hp.entered t hmode
  cleaners := by
    intro t hmode
    rw [h.mode] at hmode
    rw [h.cleaners]
    exact hp.cleaners t hmode

theorem SamePresence.of_thread {t : Nat} {th : Thread}
    (hthread : s'.thread = (setThread s t th).thread)
    (hcount : s'.count = s.count) (halloc : s'.slotAlloc = s.slotAlloc)
    (hcleaners : s'.cleaners = s.cleaners)
    (hslot : th.slot = (s.thread t).slot) (hmode : th.mode = (s.thread t).mode)
    (hentries : th.entries = (s.thread t).entries) : SamePresence s s' := by
  have hfield : ∀ {α : Type} (f : Thread → α), f th = f (s.thread t) →
      ∀ t', f (s'.thread t') = f (s.thread t') := by
    intro α f hf t'
    rw [hthread]
    by_cases heq : t' = t
    . rw [heq, setThread_self, hf]
    . rw [setThread_other heq]
  exact ⟨hcount, halloc, hcleaners, hfield Thread.slot hslot, hfield Thread.mode hmode,
    hfield Thread.entries hentries⟩

theorem State.present_eq_some {t n : Nat}
    : s.present t = some n ↔ (s.thread t).mode ≠ none ∧ (s.thread t).entries = n := by
  unfold State.present
  cases (s.thread t).mode with
  | none => simp
  | some => simp

theorem SamePresence.present (h : SamePresence s s') : s'.present = s.present := by
  funext t
  unfold State.present
  rw [h.mode, h.entries]

structure Onward (s s' : State) : Prop where
  slotAlloc : s.slotAlloc ≤ s'.slotAlloc
  entries : ∀ t, (s.thread t).entries ≤ (s'.thread t).entries
  present : ∀ t n, s'.present t = some n → n ≤ (s.thread t).entries →
    s.present t = some n ∧ (s'.thread t).mode = (s.thread t).mode
    ∧ (s'.thread t).slot = (s.thread t).slot

theorem SamePresence.onward (h : SamePresence s s') : Onward s s' where
  slotAlloc := Nat.le_of_eq h.slotAlloc.symm
  entries := fun t => Nat.le_of_eq (h.entries t).symm
  present := by
    intro t n hpresent _
    rw [h.present] at hpresent
    exact ⟨hpresent, h.mode t, h.slot t⟩

section

variable {t : Nat} {th : Thread}

theorem Onward.of_thread (hthread : s'.thread = (setThread s t th).thread)
    (hslot : s.slotAlloc ≤ s'.slotAlloc) (hentries : (s.thread t).entries ≤ th.entries)
    (hmode : th.mode = none ∨ (s.thread t).entries < th.entries)
    : Onward s s' := by
  constructor
  . exact hslot
  . intro t'
    rw [hthread]
    by_cases heq : t' = t
    . rw [heq, setThread_self]
      exact hentries
    . rw [setThread_other heq]
  . intro t' n hpresent hle
    rw [State.present_eq_some, hthread] at hpresent
    rw [State.present_eq_some, hthread]
    by_cases heq : t' = t
    . rw [heq] at hpresent hle
      rw [setThread_self] at hpresent
      rcases hmode with hnone | hlt
      . exact absurd hnone hpresent.left
      . omega
    . rw [setThread_other heq] at hpresent ⊢
      exact ⟨hpresent, rfl, rfl⟩

end

theorem Presence.thread {t : Nat} {th : Thread} (h : Presence s)
    (hthread : s'.thread = (setThread s t th).thread)
    (hcounted : ∀ i, ∃ l : List Nat, l.Nodup ∧ l.length = s'.count i ∧
      (t ∈ l ↔ th.mode = some true ∧ th.slot = some i) ∧
      ∀ t', t' ≠ t → (t' ∈ l ↔ (s.thread t').mode = some true ∧ (s.thread t').slot = some i))
    (halloc : s.slotAlloc ≤ s'.slotAlloc)
    (hslot : ∀ i, th.slot = some i → i < qsbrSlots ∧ i < s'.slotAlloc)
    (hentered : th.mode = some true → th.slot ≠ none)
    (hself : th.mode = some false → t ∈ s'.cleaners)
    (hother : ∀ t', t' ≠ t → t' ∈ s.cleaners → t' ∈ s'.cleaners) : Presence s' := by
  constructor
  . intro i
    obtain ⟨l, hnodup, hlength, hmem, hmem'⟩ := hcounted i
    refine ⟨l, hnodup, hlength, fun t' => ?_⟩
    rw [hthread]
    by_cases heq : t' = t
    . rw [heq, setThread_self]
      exact hmem
    . rw [setThread_other heq]
      exact hmem' t' heq
  all_goals
    intro t'
    rw [hthread]
    by_cases heq : t' = t
  . rw [heq, setThread_self]
    exact hslot
  . rw [setThread_other heq]
    intro i hi
    have := h.slots t' i hi
    omega
  . rw [heq, setThread_self]
    exact hentered
  . rw [setThread_other heq]
    exact h.entered t'
  . rw [heq, setThread_self]
    exact hself
  . rw [setThread_other heq]
    exact fun hm => hother t' heq (h.cleaners t' hm)

theorem qsbrEnter_presence {t : Nat} (h : Presence s) (hmode : (s.thread t).mode = none)
    : Presence (qsbrEnter s t) := by
  have hcount : (qsbrEnter s t).count = update s.count
    ((s.thread t).slot.getD (s.slotAlloc % qsbrSlots))
    (s.count ((s.thread t).slot.getD (s.slotAlloc % qsbrSlots)) + 1) := rfl
  have halloc : (qsbrEnter s t).slotAlloc = if (s.thread t).slot = none then s.slotAlloc + 1
    else s.slotAlloc := rfl
  have hslot : (s.thread t).slot.getD (s.slotAlloc % qsbrSlots) < qsbrSlots ∧
      (s.thread t).slot.getD (s.slotAlloc % qsbrSlots) < (qsbrEnter s t).slotAlloc := by
    rw [halloc]
    cases hs : (s.thread t).slot with
    | none =>
      have hle := Nat.mod_le s.slotAlloc qsbrSlots
      have hlt := Nat.mod_lt s.slotAlloc (show qsbrSlots > 0 by decide)
      rw [if_pos rfl]
      exact ⟨hlt, Nat.lt_succ_of_le hle⟩
    | some i =>
      rw [if_neg nofun]
      exact h.slots t i hs
  have hthread : (qsbrEnter s t).thread = (setThread s t { s.thread t with
      slot := some ((s.thread t).slot.getD (s.slotAlloc % qsbrSlots))
      mode := some true, entries := (s.thread t).entries + 1, reads := [] }).thread := rfl
  generalize (s.thread t).slot.getD (s.slotAlloc % qsbrSlots) = slot at *
  refine h.thread hthread ?_ ?_ ?_ nofun nofun (fun _ _ => id)
  . intro i
    obtain ⟨l, hnodup, hlength, hmem⟩ := h.counted i
    have hnot : t ∉ l := by
      rw [hmem, hmode]
      exact fun h => nomatch h.left
    by_cases hi : i = slot
    . refine ⟨t :: l, List.nodup_cons.2 ⟨hnot, hnodup⟩, ?_, ?_, ?_⟩
      . rw [hcount, hi, update_self, List.length_cons, hlength, hi]
      . exact iff_of_true List.mem_cons_self ⟨rfl, congrArg some hi.symm⟩
      . intro t' heq
        rw [List.mem_cons, ← hmem]
        exact or_iff_right heq
    . refine ⟨l, hnodup, ?_, iff_of_false hnot ?_, fun t' _ => hmem t'⟩
      . rw [hcount, update_of_ne hi, hlength]
      . intro h
        exact hi (Option.some.inj h.right).symm
  . rw [halloc]
    split <;> omega
  . intro i hi
    cases hi
    exact hslot

theorem qsbrLeave_presence {t slot : Nat} (h : Presence s) (hslot : (s.thread t).slot = some slot)
    (hmode : (s.thread t).mode = some true) : Presence (qsbrLeave s t slot) := by
  have hcount : (qsbrLeave s t slot).count = update s.count slot (s.count slot - 1) := rfl
  have hthread : (qsbrLeave s t slot).thread
    = (setThread s t { s.thread t with mode := none, reads := [] }).thread := rfl
  refine h.thread hthread ?_ (Nat.le_refl _) (h.slots t) nofun nofun (fun _ _ => id)
  intro i
  obtain ⟨l, hnodup, hlength, hmem⟩ := h.counted i
  by_cases hi : i = slot
  . have hin : t ∈ l := by
      rw [hmem, hi]
      exact ⟨hmode, hslot⟩
    refine ⟨l.erase t, hnodup.erase t, ?_, ?_, ?_⟩
    . rw [hcount, hi, update_self, List.length_erase_of_mem hin, hlength, hi]
    . exact iff_of_false hnodup.not_mem_erase (fun h => nomatch h.left)
    . intro t' heq
      rw [List.mem_erase_of_ne heq]
      exact hmem t'
  . refine ⟨l, hnodup, ?_, iff_of_false ?_ (fun h => nomatch h.left), fun t' _ => hmem t'⟩
    . rw [hcount, update_of_ne hi, hlength]
    . rw [hmem, hslot]
      intro h
      exact hi (Option.some.inj h.right).symm

theorem uncounted_presence {t : Nat} {th : Thread} {cleaners : List Nat} (h : Presence s)
    (hmode : (s.thread t).mode ≠ some true) (hmode' : th.mode ≠ some true)
    (hslot : th.slot = (s.thread t).slot) (hself : th.mode = some false → t ∈ cleaners)
    (hother : ∀ t', t' ≠ t → t' ∈ s.cleaners → t' ∈ cleaners)
    : Presence { setThread s t th with cleaners } := by
  refine h.thread rfl ?_ (Nat.le_refl _) (hslot ▸ h.slots t) (absurd · hmode') hself hother
  intro i
  obtain ⟨l, hnodup, hlength, hmem⟩ := h.counted i
  refine ⟨l, hnodup, hlength, ?_, fun t' _ => hmem t'⟩
  rw [hmem]
  exact iff_of_false (fun h => hmode h.left) (fun h => hmode' h.left)

def Act.blocks : Act → List Nat
  | .detached b _ => [b]
  | .scan l _ _ _ _ | .decide l _ => l.all
  | _ => []

def Listed (s : State) (b : Nat) : Prop :=
  (∃ t, b ∈ (s.thread t).tls.all ∨ b ∈ (s.thread t).act.blocks) ∨ b ∈ s.deferred.all ∨ b ∈ s.old.all

def Gone (s : State) (b : Nat) : Prop :=
  s.status b = .detached ∨ s.status b = .unmapped

def Act.Knows (s : State) : Act → Prop
  | .scan l i slotsInUse _ _ => ∀ b ∈ l.all, ∀ t n, s.watched b t = some n → s.present t = some n →
      (s.thread t).mode = some true → ∃ j, (s.thread t).slot = some j ∧ i ≤ j ∧ j < slotsInUse
  | .decide l true => ∀ b ∈ l.all, ∀ t n, s.watched b t = some n → s.present t = some n →
      (s.thread t).mode ≠ some true
  | _ => True

structure GcInv (s : State) : Prop where
  watched : ∀ b t n, s.watched b t = some n → n ≤ (s.thread t).entries
  gone : ∀ b, Listed s b → Gone s b
  knows : ∀ c, (s.thread c).act.Knows s
  sound : Sound s

theorem Act.Knows.mono {act : Act} (h : act.Knows s) (hon : Onward s s')
    (hwatched : ∀ b ∈ act.blocks, s'.watched b = s.watched b)
    (hold : ∀ b t n, s.watched b t = some n → n ≤ (s.thread t).entries)
    : act.Knows s' := by
  unfold Act.Knows at h ⊢
  split
  next l i slotsInUse _ _ =>
    intro b hb t n hw hpresent hmode
    rw [hwatched b hb] at hw
    obtain ⟨hpresent', hmode', hslot'⟩ := hon.present t n hpresent (hold b t n hw)
    rw [hmode'] at hmode
    rw [hslot']
    exact h b hb t n hw hpresent' hmode
  next l =>
    intro b hb t n hw hpresent
    rw [hwatched b hb] at hw
    obtain ⟨hpresent', hmode', -⟩ := hon.present t n hpresent (hold b t n hw)
    rw [hmode']
    exact h b hb t n hw hpresent'
  next => trivial

theorem GcInv.go (h : GcInv s) (hon : Onward s s') (t : Nat)
    (hother : ∀ c, c ≠ t → (s'.thread c).act = (s.thread c).act) (hunmaps : s'.unmaps = s.unmaps)
    (hwatched : ∀ b, Gone s b → s'.watched b = s.watched b)
    (hold : ∀ b t n, s'.watched b t = some n → n ≤ (s'.thread t).entries)
    (hgone : ∀ b, Listed s' b → Gone s' b) (hact : (s'.thread t).act.Knows s') : GcInv s' where
  watched := hold
  gone := hgone
  knows := by
    intro c
    by_cases heq : c = t
    . rw [heq]
      exact hact
    . rw [hother c heq]
      apply (h.knows c).mono hon _ h.watched
      intro b hb
      exact hwatched b (h.gone b (.inl ⟨c, .inr hb⟩))
  sound := by
    unfold Sound
    rw [hunmaps]
    exact h.sound

theorem Lists.mem_all {l : Lists} {b : Nat} : b ∈ l.all ↔ b ∈ l.small ∨ b ∈ l.large :=
  List.mem_append

theorem Lists.mem_set {l : Lists} {b : Nat} {isLarge : Bool} {bs : List Nat}
    (h : b ∈ (l.set isLarge bs).all)
    : b ∈ bs ∨ b ∈ l.all := by
  cases isLarge <;> simp [Lists.set, Lists.mem_all] at h ⊢ <;> tauto

theorem Lists.mem_get {l : Lists} {b : Nat} {isLarge : Bool} (h : b ∈ l.get isLarge)
    : b ∈ l.all := by
  cases isLarge <;> simp [Lists.get, Lists.mem_all] at h ⊢ <;> tauto

theorem Lists.mem_append {young old : Lists} {b : Nat} (h : b ∈ (young.append old).all)
    : b ∈ young.all ∨ b ∈ old.all := by
  have hlist : ∀ {y o : List Nat}, b ∈ Lists.append.appendList y o → b ∈ y ∨ b ∈ o := by
    intro y o hb
    unfold Lists.append.appendList at hb
    split at hb
    . exact List.mem_append.1 hb
    . exact .inr hb
  rw [Lists.mem_all, Lists.mem_all]
  rcases Lists.mem_all.1 h with h | h
  . exact (hlist h).imp .inl .inl
  . exact (hlist h).imp .inr .inr

theorem Listed.of_thread {t b : Nat} {th : Thread} (hthread : s'.thread = (setThread s t th).thread)
    (h : Listed s' b)
    : b ∈ th.tls.all ∨ b ∈ th.act.blocks ∨ Listed s b ∨ b ∈ s'.deferred.all ∨ b ∈ s'.old.all := by
  rcases h with ⟨t', h⟩ | h
  . rw [hthread] at h
    by_cases heq : t' = t
    . rw [heq, setThread_self] at h
      rcases h with h | h
      . exact .inl h
      . exact .inr (.inl h)
    . rw [setThread_other heq] at h
      exact .inr (.inr (.inl (.inl ⟨t', h⟩)))
  . exact .inr (.inr (.inr h))

theorem Listed.tls {t b : Nat} (h : b ∈ (s.thread t).tls.all) : Listed s b :=
  .inl ⟨t, .inl h⟩

theorem Listed.act {t b : Nat} (h : b ∈ (s.thread t).act.blocks) : Listed s b :=
  .inl ⟨t, .inr h⟩

structure SameBlocks (s s' : State) : Prop where
  deferred : s'.deferred = s.deferred
  old : s'.old = s.old
  status : s'.status = s.status
  watched : s'.watched = s.watched
  unmaps : s'.unmaps = s.unmaps

section

variable {t : Nat} {th : Thread} (h : GcInv s) (hon : Onward s s')
  (hthread : s'.thread = (setThread s t th).thread)
include h hon hthread

theorem GcInv.lists (hstatus : s'.status = s.status) (hwatched : s'.watched = s.watched)
    (hunmaps : s'.unmaps = s.unmaps)
    (hlists : ∀ b, b ∈ th.tls.all ∨ b ∈ th.act.blocks ∨ b ∈ s'.deferred.all
      ∨ b ∈ s'.old.all → Listed s b)
    (hknows : th.act.Knows s) : GcInv s' := by
  have hself : s'.thread t = th := by rw [hthread, setThread_self]
  apply h.go hon t
  . intro c hne
    rw [hthread, setThread_other hne]
  . exact hunmaps
  . intro b _
    rw [hwatched]
  . intro b t' n hw
    rw [hwatched] at hw
    exact Nat.le_trans (h.watched b t' n hw) (hon.entries t')
  . intro b hb
    unfold Gone
    rw [hstatus]
    apply h.gone
    rcases hb.of_thread hthread with hb | hb | hb | hb | hb
    . exact hlists b (.inl hb)
    . exact hlists b (.inr (.inl hb))
    . exact hb
    . exact hlists b (.inr (.inr (.inl hb)))
    . exact hlists b (.inr (.inr (.inr hb)))
  . rw [hself]
    apply hknows.mono hon _ h.watched
    intro b _
    rw [hwatched]

theorem GcInv.thread (hsame : SameBlocks s s') (htls : th.tls = (s.thread t).tls)
    (hblocks : ∀ b ∈ th.act.blocks, Listed s b) (hknows : th.act.Knows s) : GcInv s' := by
  refine h.lists hon hthread hsame.status hsame.watched hsame.unmaps ?_ hknows
  rw [htls, hsame.deferred, hsame.old]
  rintro b (hb | hb | hb)
  . exact .tls hb
  . exact hblocks b hb
  . exact .inr hb

end

theorem GcInv.attach {b : Nat} {isLarge : Bool} (h : GcInv s) (hfresh : s.status b = .fresh)
    : GcInv { s with status := update s.status b (.attached isLarge) } where
  __ := h
  gone := by
    intro b' hb'
    have hgone := h.gone b' hb'
    unfold Gone at hgone ⊢
    have hne : b' ≠ b := by
      intro heq
      rw [heq, hfresh] at hgone
      rcases hgone with hgone | hgone <;> cases hgone
    dsimp only
    rw [update_of_ne hne]
    exact hgone

theorem GcInv.detach {t b : Nat} {isLarge : Bool} (h : GcInv s)
    (hattached : s.status b = .attached isLarge)
    : GcInv (detach s t b isLarge) := by
  have hnotgone : ¬Gone s b := by
    unfold Gone
    rw [hattached]
    exact fun h => h.elim nofun nofun
  have hthread : (Qsbr.detach s t b isLarge).thread
      = (setThread s t { s.thread t with act := .detached b isLarge }).thread := rfl
  have hsame : SamePresence s (Qsbr.detach s t b isLarge) :=
    .of_thread hthread rfl rfl rfl rfl rfl rfl
  have hself : ((Qsbr.detach s t b isLarge).thread t).act = .detached b isLarge := by
    rw [hthread, setThread_self]
  apply h.go hsame.onward t
  . intro c hne
    rw [hthread, setThread_other hne]
  . rfl
  . intro b' hb'
    have hne : b' ≠ b := by
      intro heq
      rw [heq] at hb'
      exact hnotgone hb'
    exact update_of_ne hne _ _
  . intro b' t' n hw
    rw [hsame.entries]
    simp only [Qsbr.detach] at hw
    by_cases heq : b' = b
    . rw [heq, update_self, State.present_eq_some] at hw
      exact Nat.le_of_eq hw.right.symm
    . rw [update_of_ne heq] at hw
      exact h.watched b' t' n hw
  . intro b' hb'
    unfold Gone
    simp only [Qsbr.detach]
    by_cases heq : b' = b
    . rw [heq, update_self]
      exact .inl rfl
    . rw [update_of_ne heq]
      apply h.gone
      rcases hb'.of_thread hthread with hb' | hb' | hb' | hb'
      . exact .tls hb'
      . exact absurd (List.mem_singleton.1 hb') heq
      . exact hb'
      . exact .inr hb'
  . rw [hself]
    trivial

structure Keeps (s s' : State) : Prop where
  same : SamePresence s s'
  inv : GcInv s → GcInv s'

theorem Keeps.trans {s'' : State} (h1 : Keeps s s') (h2 : Keeps s' s'') : Keeps s s'' :=
  ⟨h1.same.trans h2.same, fun h => h2.inv (h1.inv h)⟩

theorem Keeps.of_thread {t : Nat} {th : Thread} (hthread : s'.thread = (setThread s t th).thread)
    (hsame : SamePresence s s') (hstatus : s'.status = s.status) (hwatched : s'.watched = s.watched)
    (hunmaps : s'.unmaps = s.unmaps)
    (hlists : ∀ b, b ∈ th.tls.all ∨ b ∈ th.act.blocks ∨ b ∈ s'.deferred.all
      ∨ b ∈ s'.old.all → Listed s b)
    (hknows : GcInv s → th.act.Knows s) : Keeps s s' :=
  ⟨hsame, fun h => h.lists hsame.onward hthread hstatus hwatched hunmaps hlists (hknows h)⟩

theorem Keeps.of_act {t : Nat} {act : Act} (hthread : s'.thread = (Qsbr.setAct s t act).thread)
    (hcount : s'.count = s.count) (halloc : s'.slotAlloc = s.slotAlloc)
    (hcleaners : s'.cleaners = s.cleaners)
    (hsame : SameBlocks s s') (hblocks : ∀ b ∈ act.blocks, Listed s b) (hknows : act.Knows s)
    : Keeps s s' := by
  have hpresence : SamePresence s s' := .of_thread hthread hcount halloc hcleaners rfl rfl rfl
  exact ⟨hpresence, fun h => h.thread hpresence.onward hthread hsame rfl hblocks hknows⟩

theorem Keeps.setAct {t : Nat} {act : Act} (hblocks : ∀ b ∈ act.blocks, Listed s b)
    (hknows : act.Knows s)
    : Keeps s (setAct s t act) := .of_act rfl rfl rfl rfl ⟨rfl, rfl, rfl, rfl, rfl⟩ hblocks hknows

theorem flushTlsList_keeps (s : State) (t : Nat) (isLarge : Bool)
    : Keeps s (flushTlsList s t isLarge) := by
  unfold flushTlsList
  dsimp only
  split
  next => exact ⟨.refl s, fun h => h⟩
  next =>
    refine .of_thread rfl (.of_thread rfl rfl rfl rfl rfl rfl rfl) rfl rfl rfl ?_ fun h => h.knows t
    intro b hb
    rcases hb with hb | hb | hb | hb
    . rcases Lists.mem_set hb with hb | hb
      . cases hb
      . exact .tls hb
    . exact .act hb
    . rcases Lists.mem_set hb with hb | hb
      . rcases List.mem_append.1 hb with hb | hb
        . exact .tls (Lists.mem_get hb)
        . exact .inr (.inl (Lists.mem_get hb))
      . exact .inr (.inl hb)
    . exact .inr (.inr hb)

theorem pushDeferredScb_keeps {t b : Nat} {isLarge : Bool}
    (hact : (s.thread t).act = .detached b isLarge)
    : Keeps s (pushDeferredScb s t b isLarge) := by
  unfold pushDeferredScb
  dsimp only
  have hpush : Keeps s (setThread s t { s.thread t with
      tls := (s.thread t).tls.set isLarge (b :: (s.thread t).tls.get isLarge)
      pending := update (s.thread t).pending isLarge ((s.thread t).pending isLarge + 1)
      act := .idle }) := by
    refine .of_thread rfl (.of_thread rfl rfl rfl rfl rfl rfl rfl) rfl rfl rfl ?_ fun _ => trivial
    intro b' hb'
    rcases hb' with hb' | hb' | hb' | hb'
    . rcases Lists.mem_set hb' with hb' | hb'
      . rcases List.mem_cons.1 hb' with rfl | hb'
        . apply Listed.act
          rw [hact]
          exact List.mem_singleton_self b'
        . exact .tls (Lists.mem_get hb')
      . exact .tls hb'
    . cases hb'
    . exact .inr (.inl hb')
    . exact .inr (.inr hb')
  split
  . exact (hpush.trans (flushTlsList_keeps _ t isLarge)).trans (.setAct nofun trivial)
  . exact hpush

theorem take_keeps {t : Nat} {act : Act}
    (hblocks : ∀ b ∈ act.blocks, b ∈ s.deferred.all ∨ b ∈ s.old.all) (hknows : act.Knows s)
    : Keeps s (setAct { s with deferred := .empty, old := .empty } t act) := by
  refine .of_thread rfl (.of_thread rfl rfl rfl rfl rfl rfl rfl) rfl rfl rfl ?_ fun _ => hknows
  intro b hb
  rcases hb with hb | hb | hb | hb
  . exact .tls hb
  . exact .inr (hblocks b hb)
  . cases hb
  . cases hb

theorem takeLists_keeps {t : Nat} (hp : Presence s) : Keeps s (takeLists s t) := by
  have hflush : Keeps s (flushTlsScbAll s t) :=
    (flushTlsList_keeps s t false).trans (flushTlsList_keeps _ t true)
  have hpresence := hflush.same.presence hp
  unfold takeLists
  dsimp only
  generalize flushTlsScbAll s t = s1 at *
  split
  next => exact hflush.trans (take_keeps nofun trivial)
  next =>
    split
    next => exact hflush.trans (take_keeps nofun trivial)
    next =>
      apply hflush.trans (take_keeps _ _)
      . intro b hb
        exact Lists.mem_append hb
      . -- A thread that has entered has a slot, and it is one of those in use.
        intro b hb t' n _ _ hmode
        obtain ⟨j, hj⟩ := Option.ne_none_iff_exists'.1 (hpresence.entered t' hmode)
        exact ⟨j, hj, Nat.zero_le j, (hpresence.slots t' j hj).right⟩

theorem Presence.count_ne_zero (h : Presence s) {t i : Nat} (hmode : (s.thread t).mode = some true)
    (hslot : (s.thread t).slot = some i) : s.count i ≠ 0 := by
  obtain ⟨l, -, hlength, hmem⟩ := h.counted i
  have hin := (hmem t).2 ⟨hmode, hslot⟩
  intro hzero
  rw [hzero, List.length_eq_zero_iff] at hlength
  rw [hlength] at hin
  cases hin

section

variable {l : Lists} {i slotsInUse generation aged : Nat} (hp : Presence s)
  (h : (Act.scan l i slotsInUse generation aged).Knows s)
include hp h

theorem scan_knows (hslot : slotQuiescent s i generation aged = true)
    : (Act.scan l (i + 1) slotsInUse generation aged).Knows s := by
  have hzero : s.count i = 0 := by
    unfold slotQuiescent at hslot
    by_contra hne
    rw [if_pos hne] at hslot
    cases hslot
  intro b hb t n hw hpresent hmode
  obtain ⟨j, hj, hle, hlt⟩ := h b hb t n hw hpresent hmode
  have hne : j ≠ i := by
    rintro rfl
    exact hp.count_ne_zero hmode hj hzero
  exact ⟨j, hj, by omega, hlt⟩

theorem scan_done (hend : ¬(i < qsbrSlots ∧ i < slotsInUse))
    : (Act.decide l true).Knows s := by
  intro b hb t n hw hpresent hmode
  obtain ⟨j, hj, hle, hlt⟩ := h b hb t n hw hpresent hmode
  have := (hp.slots t j hj).left
  omega

end

section

variable {t : Nat} {l : Lists} (h : GcInv s) (hp : Presence s)
  (hact : (s.thread t).act = .decide l true) (hcleaners : ∀ t' ∈ s.cleaners, t' = t)
include h hp hact hcleaners

theorem GcInv.unmapBlocks
    : GcInv (unmapBlocks s t l.all) where
  __ := h
  gone := by
    intro b hb
    unfold Gone Qsbr.unmapBlocks
    dsimp only
    split
    . exact .inr rfl
    . exact h.gone b hb
  sound := by
    intro u hu
    rcases List.mem_append.1 hu with hu | hu
    . obtain ⟨b, hb, rfl⟩ := List.mem_map.1 hu
      intro t' n hne hw hpresent
      have hknows := h.knows t
      rw [hact] at hknows
      have hmode := hknows b hb t' n hw hpresent
      have hinside := (State.present_eq_some.1 hpresent).left
      -- The thread is in the allocator without a slot, so it is the collector.
      have hclean : (s.thread t').mode = some false := by
        cases hm : (s.thread t').mode with
        | none => exact absurd hm hinside
        | some c =>
          cases c with
          | false => rfl
          | true => exact absurd hm hmode
      exact hne (hcleaners t' (hp.cleaners t' hclean))
    . exact h.sound u hu

theorem reclaim_true
    : GcInv (reclaim s t l true) ∧ SamePresence s (reclaim s t l true) := by
  have hsame : SamePresence s (reclaim s t l true) := .of_thread rfl rfl rfl rfl rfl rfl rfl
  have hunmap := h.unmapBlocks hp hact hcleaners
  have hsame' : SamePresence (unmapBlocks s t l.all) (reclaim s t l true) :=
    .of_thread rfl rfl rfl rfl rfl rfl rfl
  exact ⟨hunmap.thread hsame'.onward rfl ⟨rfl, rfl, rfl, rfl, rfl⟩ rfl nofun trivial, hsame⟩

end

theorem reclaim_false {t : Nat} {l : Lists} (hact : (s.thread t).act = .decide l false)
    (hstreak : s.failStreak + 1 < failLimit) : Keeps s (reclaim s t l false) := by
  have hforced : decide (s.failStreak + 1 ≥ failLimit) = false :=
    decide_eq_false (Nat.not_le.2 hstreak)
  unfold reclaim
  simp only [hforced, Bool.and_false, Bool.or_false, Bool.false_eq_true, if_false]
  generalize (if Lists.count l.small + Lists.count l.large > 0 then s.failStreak + 1
    else s.failStreak) = streak
  refine .of_thread rfl (.of_thread rfl rfl rfl rfl rfl rfl rfl) rfl rfl rfl ?_ fun _ => trivial
  intro b hb
  rcases hb with hb | hb | hb | hb
  . exact .tls hb
  . cases hb
  . exact .inr (.inl hb)
  . rcases Lists.mem_append hb with hb | hb
    . apply Listed.act
      rw [hact]
      exact hb
    . exact .inr (.inr hb)

structure Inv (s : State) : Prop where
  presence : Presence s
  gc : GcInv s

theorem inv_init : Inv init where
  presence := {
    counted := fun i => ⟨[], List.nodup_nil, rfl,
      fun t => iff_of_false nofun (fun h => nomatch h.left)⟩
    slots := nofun
    entered := nofun
    cleaners := nofun }
  gc := {
    watched := nofun
    gone := by
      intro b h
      rcases h with ⟨t, h | h⟩ | h | h <;> cases h
    knows := fun c => trivial
    sound := nofun }

theorem Inv.keeps (h : Inv s) (hkeeps : Keeps s s') : Inv s' :=
  ⟨hkeeps.same.presence h.presence, hkeeps.inv h.gc⟩

theorem Inv.tryGc {t : Nat} (h : Inv s) (hok : Orderly s (.gc t)) (hstep : tryGc s t = some s')
    : Inv s' := by
  have hknows := h.gc.knows t
  simp only [Orderly] at hok
  have hblocks : ∀ b ∈ (s.thread t).act.blocks, Listed s b := fun b hb => .act hb
  unfold Qsbr.tryGc at hstep
  split at hstep
  next => cases hstep
  next => cases hstep
  next hact =>
    split at hstep
    . cases hstep
      exact h.keeps (.setAct nofun trivial)
    . cases hstep
      exact h.keeps (.of_act rfl rfl rfl rfl ⟨rfl, rfl, rfl, rfl, rfl⟩ nofun trivial)
  next hact =>
    cases hstep
    exact h.keeps (takeLists_keeps h.presence)
  next l i slotsInUse generation aged hact =>
    rw [hact] at hknows hblocks
    split at hstep
    next hlt =>
      split at hstep
      next hslot =>
        cases hstep
        exact h.keeps (.setAct hblocks (scan_knows h.presence hknows hslot))
      next =>
        cases hstep
        exact h.keeps (.setAct hblocks trivial)
    next hend =>
      cases hstep
      exact h.keeps (.setAct hblocks (scan_done h.presence hknows hend))
  next l quiescent hact =>
    cases hstep
    rw [hact] at hok
    cases quiescent with
    | true =>
      obtain ⟨hgc, hsame⟩ := reclaim_true h.gc h.presence hact hok
      exact ⟨hsame.presence h.presence, hgc⟩
    | false => exact h.keeps (reclaim_false hact hok)
  next hact =>
    cases hstep
    exact h.keeps (.of_act rfl rfl rfl rfl ⟨rfl, rfl, rfl, rfl, rfl⟩ nofun trivial)

theorem Inv.thread {t : Nat} {th : Thread} (h : Inv s) (hpresence : Presence s') (hon : Onward s s')
    (hthread : s'.thread = (setThread s t th).thread) (hsame : SameBlocks s s')
    (htls : th.tls = (s.thread t).tls)
    (hact : th.act = (s.thread t).act) : Inv s' :=
  ⟨hpresence, h.gc.thread hon hthread hsame htls (fun _ hb => .act (hact ▸ hb))
    (hact ▸ h.gc.knows t)⟩

theorem Inv.step {e : Event} (h : Inv s) (hok : Orderly s e) (hstep : step s e = some s')
    : Inv s' := by
  cases e with
  | enter t =>
    simp only [Qsbr.step, Option.ite_none_right_eq_some, Option.some.injEq] at hstep
    obtain ⟨hmode, rfl⟩ := hstep
    have halloc : s.slotAlloc ≤ (qsbrEnter s t).slotAlloc := by
      unfold qsbrEnter
      dsimp only
      split <;> omega
    have hon : Onward s (qsbrEnter s t) :=
      .of_thread rfl halloc (Nat.le_succ _) (.inr (Nat.lt_succ_self _))
    exact h.thread (qsbrEnter_presence h.presence hmode) hon rfl ⟨rfl, rfl, rfl, rfl, rfl⟩ rfl rfl
  | leave t =>
    simp only [Qsbr.step] at hstep
    split at hstep
    next => cases hstep
    next slot hslot =>
      simp only [Option.ite_none_right_eq_some, Option.some.injEq] at hstep
      obtain ⟨hmode, rfl⟩ := hstep
      have hon : Onward s (qsbrLeave s t slot) :=
        .of_thread rfl (Nat.le_refl _) (Nat.le_refl _) (.inl rfl)
      exact h.thread (qsbrLeave_presence h.presence hslot hmode.left) hon rfl
        ⟨rfl, rfl, rfl, rfl, rfl⟩ rfl rfl
  | cleanup t =>
    simp only [Qsbr.step, Option.ite_none_right_eq_some, Option.some.injEq] at hstep
    obtain ⟨hmode, rfl⟩ := hstep
    have hon : Onward s (cleanup s t) :=
      .of_thread rfl (Nat.le_refl _) (Nat.le_succ _) (.inr (Nat.lt_succ_self _))
    refine h.thread (uncounted_presence h.presence ?_ nofun rfl (fun _ => List.mem_cons_self)
      fun t' _ => List.mem_cons_of_mem t) hon rfl ⟨rfl, rfl, rfl, rfl, rfl⟩ rfl rfl
    rw [hmode]
    exact nofun
  | cleanupDone t =>
    simp only [Qsbr.step, Option.ite_none_right_eq_some, Option.some.injEq] at hstep
    obtain ⟨hmode, rfl⟩ := hstep
    have hon : Onward s (cleanupDone s t) :=
      .of_thread rfl (Nat.le_refl _) (Nat.le_refl _) (.inl rfl)
    refine h.thread (uncounted_presence h.presence ?_ nofun rfl nofun ?_)
      hon rfl ⟨rfl, rfl, rfl, rfl, rfl⟩ rfl rfl
    . rw [hmode.left]
      exact nofun
    . intro t' hne hin
      exact List.mem_filter.2 ⟨hin, decide_eq_true hne⟩
  | attach _ b isLarge =>
    simp only [Qsbr.step, Option.ite_none_right_eq_some, Option.some.injEq] at hstep
    obtain ⟨hfresh, rfl⟩ := hstep
    have hsame : SamePresence s { s with status := update s.status b (.attached isLarge) } :=
      ⟨rfl, rfl, rfl, fun _ => rfl, fun _ => rfl, fun _ => rfl⟩
    exact ⟨hsame.presence h.presence, h.gc.attach hfresh.right⟩
  | read t b =>
    simp only [Qsbr.step, Option.ite_none_right_eq_some, Option.some.injEq] at hstep
    obtain ⟨-, rfl⟩ := hstep
    have hsame : SamePresence s
        (setThread s t { s.thread t with reads := b :: (s.thread t).reads }) :=
      .of_thread rfl rfl rfl rfl rfl rfl rfl
    exact h.thread (hsame.presence h.presence) hsame.onward rfl ⟨rfl, rfl, rfl, rfl, rfl⟩ rfl rfl
  | detach t b isLarge =>
    simp only [Qsbr.step, Option.ite_none_right_eq_some, Option.some.injEq] at hstep
    obtain ⟨hattached, rfl⟩ := hstep
    have hsame : SamePresence s (detach s t b isLarge) := .of_thread rfl rfl rfl rfl rfl rfl rfl
    exact ⟨hsame.presence h.presence, h.gc.detach hattached.right⟩
  | push =>
    simp only [Qsbr.step] at hstep
    split at hstep
    next b isLarge hact =>
      cases hstep
      exact h.keeps (pushDeferredScb_keeps hact)
    next => cases hstep
  | collect =>
    simp only [Qsbr.step, Option.ite_none_right_eq_some, Option.some.injEq] at hstep
    obtain ⟨-, rfl⟩ := hstep
    exact h.keeps (.setAct nofun trivial)
  | gc => exact h.tryGc hok hstep

/--
In every run in which no collection is forced, and none succeeds beside a thread in
`allocator_thread_exit_cleanup`, blocks are unmapped after all other threads have left.
-/
theorem unmap_after_grace (h : Steps.Reach step Orderly init s) : Sound s :=
  (h.invariant Inv inv_init fun _ _ _ hinv hok hstep => hinv.step hok hstep).gc.sound

/--
Thread 0 has four large blocks, and its clean-up detaches them while thread 1 still reads the last
one.
-/
def quietRun : List Event :=
  [4, 5, 6, 7].flatMap (fun b => [Event.enter 0, .attach 0 b true, .leave 0]) ++
    [Event.cleanup 0, .enter 1, .read 1 7] ++
    [4, 5, 6].flatMap (fun b => [Event.detach 0 b true, .push 0]) ++
    [Event.detach 0 7 true, .leave 1, .push 0] ++ List.replicate 6 (Event.gc 0)

theorem unmap_after_grace_quietRun
    : ∃ s, Steps.Reach step Orderly init s ∧ (s.status 7 = .unmapped ∧ Sound s) := by
  obtain ⟨s, hreach, hstatus⟩ := Steps.Reach.exists_of_run step Orderly init quietRun
    (fun s => s.status 7 = .unmapped) (by decide +kernel)
  exact ⟨s, hreach, hstatus, unmap_after_grace hreach⟩

/--
Thread 1 reads a block that thread 0 frees. Then `MoreCore` fails in 64 calls of `malloc`.
-/
def forcedRun : List Event :=
  [Event.enter 0, .attach 0 7 false, .leave 0, .enter 1, .read 1 7, .enter 0, .detach 0 7 false,
    .push 0, .leave 0] ++
    (List.replicate 64
      ([Event.enter 0, .collect 0] ++ List.replicate 5 (Event.gc 0) ++ [Event.leave 0])).flatten

theorem unmap_before_grace
    : ∃ s, Steps.Reach step (fun _ _ => True) init s ∧ (7 ∈ (s.thread 1).reads ∧ ¬Sound s) := by
  obtain ⟨s, hreach, hreads, u, hu, hcollector, hwatched, hpresent⟩ :=
    Steps.Reach.exists_of_run step (fun _ _ => True) init forcedRun
      (fun s => 7 ∈ (s.thread 1).reads ∧
        ∃ u ∈ s.unmaps, u.collector = 0 ∧ u.watched 1 = some 1 ∧ u.present 1 = some 1)
      (by decide +kernel)
  refine ⟨s, hreach, hreads, fun hsound => ?_⟩
  exact hsound u hu 1 1 (by rw [hcollector]; decide) hwatched hpresent

end Qsbr
