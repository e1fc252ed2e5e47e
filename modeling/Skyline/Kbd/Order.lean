import Skyline.Kbd.Basic

/-!
This module contains what the readers of the keyboard ring return.
-/

namespace Kbd

open Function

variable {s s' : State}

def Posting.Stored (p : Posting) (e : KbdEvent) : Prop :=
  match p.stage with
  | .key => True
  | .action => e.key = p.event.key
  | .mods => e.key = p.event.key ∧ e.action = p.event.action
  | .publish => e = p.event

structure RingInv (s : State) : Prop where
  length : s.posted.length = s.head
  bound : s.head < 2 ^ 64
  posting : ∀ p ∈ s.posting, p.h = s.head ∧ p.Stored (s.ring (s.head % ringCap))
  slots : ∀ q, q < s.head → s.written ≤ q + ringCap → s.posted[q]? = some (s.ring (q % ringCap))

def Pc.Holds (pc : Pc) (pos head : Nat) (posted : List KbdEvent) : Prop :=
  match pc with
  | .out | .load => True
  | .resync h | .focus h | .read h _ => h ≤ head
  | .advance h _ e => pos < h ∧ h ≤ head ∧ posted[pos]? = some e

structure ReaderInv (rd : Reader) (head : Nat) (posted : List KbdEvent) : Prop where
  start_le : rd.start ≤ rd.pos
  pos_le : rd.pos ≤ head
  returned : rd.returned.Sublist ((posted.take rd.pos).drop rd.start)
  pc : rd.pc.Holds rd.pos head posted

structure Inv (s : State) : Prop where
  ring : RingInv s
  readers : ∀ r, ReaderInv (s.reader r) s.head s.posted

theorem inv_init : Inv init where
  ring := {
    length := rfl
    bound := by decide
    posting := nofun
    slots := fun q hq => absurd hq (Nat.not_lt_zero q) }
  readers := fun _ => ⟨Nat.le_refl _, Nat.le_refl _, List.Sublist.refl _, trivial⟩

theorem RingInv.post (h : RingInv s) (hidle : s.posting = none) (e : KbdEvent)
    : RingInv (post s e) where
  __ := h
  posting := by
    intro p hp
    cases hp
    exact ⟨rfl, trivial⟩
  slots := by
    intro q hq hwritten
    apply h.slots q hq
    unfold State.written
    rw [hidle]
    exact hwritten

theorem slot_ne {q : Nat} (hq : q < s.head) (hle : s.head + 1 ≤ q + ringCap)
    : q % ringCap ≠ s.head % ringCap :=
  Cyclic.mod_ne (Nat.le_refl q) (by omega) (Nat.le_of_lt hq) (by omega) (by omega)

theorem RingInv.field {p p' : Posting} {e : KbdEvent} (h : RingInv s)
    (hposting : s.posting = some p)
    (hp' : p'.h = p.h) (hstored : p'.Stored e) (hstage : p'.stage ≠ .key)
    : RingInv { s with ring := update s.ring (p.h % ringCap) e, posting := some p' } := by
  obtain ⟨hph, -⟩ := h.posting p hposting
  constructor
  . exact h.length
  . exact h.bound
  . intro p'' hp''
    cases hp''
    refine ⟨hp'.trans hph, ?_⟩
    dsimp only
    rw [hph, update_self]
    exact hstored
  . intro q hq hwritten
    unfold State.written at hwritten
    simp only [hstage, if_false] at hwritten
    have hne := slot_ne hq hwritten
    dsimp only
    rw [hph, update_of_ne hne]
    apply h.slots q hq
    unfold State.written
    rw [hposting]
    dsimp only
    split <;> omega

section

variable {p : Posting} (h : RingInv s) (hposting : s.posting = some p) (hlt : s.head + 1 < 2 ^ 64)
include h hposting hlt

theorem RingInv.store
    : RingInv (store s p) := by
  obtain ⟨hph, hstored⟩ := h.posting p hposting
  unfold Posting.Stored at hstored
  unfold Kbd.store
  split
  next hstage => exact h.field hposting rfl rfl nofun
  next hstage =>
    rw [hstage] at hstored
    rw [← hph] at hstored
    exact h.field hposting rfl ⟨hstored, rfl⟩ nofun
  next hstage =>
    rw [hstage] at hstored
    rw [← hph] at hstored
    have hwhole : Posting.Stored ⟨p.h, p.event, .publish⟩
        { s.ring (p.h % ringCap) with mods := p.event.mods } := by
      unfold Posting.Stored
      dsimp only
      rw [hstored.left, hstored.right]
    exact h.field hposting rfl hwhole nofun
  next hstage =>
    rw [hstage] at hstored
    have hhead : (p.h + 1) % 2 ^ 64 = s.head + 1 := by
      rw [hph, Nat.mod_eq_of_lt hlt]
    have hlength := h.length
    constructor
    . dsimp only
      rw [hhead, List.length_append, hlength, List.length_singleton]
    . dsimp only
      rw [hhead]
      exact hlt
    . exact nofun
    . intro q hq hwritten
      unfold State.written at hwritten
      dsimp only at hq hwritten ⊢
      rw [hhead] at hq hwritten
      by_cases heq : q = s.head
      . rw [heq, List.getElem?_append_right (by omega), hlength, Nat.sub_self, hstored]
        rfl
      . rw [List.getElem?_append_left (by omega)]
        apply h.slots q (by omega)
        unfold State.written
        rw [hposting]
        simp only [hstage, reduceCtorEq, if_false]
        exact hwritten

theorem store_head
    : (store s p).reader = s.reader ∧ s.head ≤ (store s p).head
      ∧ s.posted <+: (store s p).posted := by
  obtain ⟨hph, -⟩ := h.posting p hposting
  unfold Kbd.store
  split
  . exact ⟨rfl, Nat.le_refl _, List.prefix_refl _⟩
  . exact ⟨rfl, Nat.le_refl _, List.prefix_refl _⟩
  . exact ⟨rfl, Nat.le_refl _, List.prefix_refl _⟩
  . refine ⟨rfl, ?_, List.prefix_append _ _⟩
    dsimp only
    rw [hph, Nat.mod_eq_of_lt hlt]
    omega

end

section

variable {rd : Reader} {head head' : Nat} {posted posted' : List KbdEvent}

theorem Pc.Holds.mono {pc : Pc} {pos : Nat} (h : pc.Holds pos head posted) (hhead : head ≤ head')
    (hposted : posted <+: posted') : pc.Holds pos head' posted' := by
  unfold Pc.Holds at h ⊢
  split
  . trivial
  . trivial
  . exact Nat.le_trans h hhead
  . exact Nat.le_trans h hhead
  . exact Nat.le_trans h hhead
  . obtain ⟨hlt, hle, he⟩ := h
    obtain ⟨more, rfl⟩ := hposted
    have hlength := (List.getElem?_eq_some_iff.1 he).1
    refine ⟨hlt, Nat.le_trans hle hhead, ?_⟩
    rw [List.getElem?_append_left hlength]
    exact he

section

variable (h : ReaderInv rd head posted)
include h

theorem ReaderInv.mono (hhead : head ≤ head') (hposted : posted <+: posted')
    : ReaderInv rd head' posted' where
  start_le := h.start_le
  pos_le := Nat.le_trans h.pos_le hhead
  returned := h.returned.trans ((hposted.take _).sublist.drop _)
  pc := h.pc.mono hhead hposted

theorem ReaderInv.forward (pos : Nat) (pc : Pc) (hle : rd.pos ≤ pos)
    (hpos : pos ≤ head) (hpc : pc.Holds pos head posted)
    : ReaderInv { rd with pos, pc } head posted where
  start_le := Nat.le_trans h.start_le hle
  pos_le := hpos
  returned := h.returned.trans ((List.take_prefix_take_left hle).sublist.drop _)
  pc := hpc

theorem ReaderInv.keep {e : KbdEvent} (hpos : rd.pos < head)
    (he : posted[rd.pos]? = some e)
    : ReaderInv { rd with
      pos := rd.pos + 1, pc := .load, returned := rd.returned ++ [e] } head posted where
  start_le := Nat.le_succ_of_le h.start_le
  pos_le := hpos
  returned := by
    have hlt : rd.pos < posted.length := (List.getElem?_eq_some_iff.1 he).1
    have hstart := h.start_le
    dsimp only
    rw [List.take_add_one, he, List.drop_append_of_le_length (by rw [List.length_take]; omega)]
    exact h.returned.append (List.Sublist.refl _)
  pc := trivial

end

end

theorem readerResync_le {cursor : Nat} (h : cursor ≤ s.head)
    : cursor ≤ readerResync s cursor ∧ readerResync s cursor ≤ s.head := by
  unfold readerResync
  dsimp only
  split <;> omega

theorem Inv.setReader (h : Inv s) {r : Nat} {rd : Reader} (hrd : ReaderInv rd s.head s.posted)
    (consumer : Nat → Nat) : Inv { setReader s r rd with consumer } where
  ring := ⟨h.ring.length, h.ring.bound, h.ring.posting, h.ring.slots⟩
  readers := by
    intro r'
    unfold Kbd.setReader
    dsimp only
    by_cases heq : r' = r
    . rw [heq, update_self]
      exact hrd
    . rw [update_of_ne heq]
      exact h.readers r'

theorem Inv.nextKey (h : Inv s) {r : Nat} (hok : Orderly s (.nextKey r)) : Inv (nextKey s r) := by
  have hrd := h.readers r
  have hpc := hrd.pc
  have hpos := hrd.pos_le
  have hbound := h.ring.bound
  simp only [Orderly, Pc.InTime] at hok
  unfold Pc.Holds at hpc
  unfold Kbd.nextKey
  dsimp only
  split
  next => exact h
  next => exact h.setReader (hrd.forward _ (.resync s.head) (Nat.le_refl _) hpos (Nat.le_refl _)) _
  next n hn =>
    rw [hn] at hpc
    obtain ⟨hle, hhead⟩ := readerResync_le hpos
    exact h.setReader (hrd.forward _ (.focus n) hle hhead hpc) _
  next n hn =>
    rw [hn] at hpc
    exact h.setReader (hrd.forward _ (.read n _) (Nat.le_refl _) hpos hpc) _
  next n allowed hn =>
    rw [hn] at hpc hok
    split
    next hlt =>
      -- The slot still has the event of this position.
      have hslot := h.ring.slots _ (Nat.lt_of_lt_of_le hlt hpc) (hok hlt)
      exact h.setReader (hrd.forward _ (.advance n allowed _) (Nat.le_refl _) hpos
        ⟨hlt, hpc, hslot⟩) _
    next => exact h.setReader (hrd.forward _ .load (Nat.le_refl _) hpos trivial) _
  next n allowed e hn =>
    rw [hn] at hpc
    obtain ⟨hlt, hle, he⟩ := hpc
    have hmod : ((s.reader r).pos + 1) % 2 ^ 64 = (s.reader r).pos + 1 :=
      Nat.mod_eq_of_lt (by omega)
    rw [hmod]
    split
    . exact h.setReader (hrd.keep (by omega) he) _
    . exact h.setReader (hrd.forward _ (.read n allowed) (Nat.le_succ _) (by omega) hle) _

theorem Inv.step {e : Event} (h : Inv s) (hok : Orderly s e) (hstep : step s e = some s')
    : Inv s' := by
  cases e with
  | post e =>
    simp only [Kbd.step] at hstep
    split at hstep
    next hidle =>
      cases hstep
      exact ⟨h.ring.post hidle e, h.readers⟩
    next => cases hstep
  | store =>
    obtain ⟨p, hposting, rfl⟩ := Option.map_eq_some_iff.1 hstep
    obtain ⟨hreader, hhead, hposted⟩ := store_head h.ring hposting hok
    refine ⟨h.ring.store hposting hok, ?_⟩
    intro r
    rw [hreader]
    exact (h.readers r).mono hhead hposted
  | setFocus =>
    cases hstep
    exact ⟨⟨h.ring.length, h.ring.bound, h.ring.posting, h.ring.slots⟩, h.readers⟩
  | register =>
    simp only [Kbd.step] at hstep
    split at hstep
    next =>
      cases hstep
      have hnew : ∀ slot, ReaderInv ⟨slot, s.head, .load, s.head, []⟩ s.head s.posted :=
        fun _ => ⟨Nat.le_refl _, Nat.le_refl _, List.nil_sublist _, trivial⟩
      exact h.setReader (hnew _) _
    next => cases hstep
  | unregister r =>
    simp only [Kbd.step] at hstep
    split at hstep
    next => cases hstep
    next =>
      cases hstep
      exact h.setReader ((h.readers r).forward _ .out (Nat.le_refl _) (h.readers r).pos_le trivial)
        _
  | nextKey =>
    cases hstep
    exact h.nextKey hok

theorem Inv.sound (h : Inv s) (r : Nat) : Sound s r :=
  (h.readers r).returned.trans ((List.take_sublist _ _).drop _)

/--
In every run whose readers are in time, what they return was posted, in this order.
-/
theorem returned_in_order (h : Steps.Reach step Orderly init s) (r : Nat) : Sound s r :=
  (h.invariant Inv inv_init fun _ _ _ hinv hok hstep => hinv.step hok hstep).sound r

def postWhole (e : KbdEvent) : List Event :=
  [.post e, .store, .store, .store, .store]

def twoKeys : List Event :=
  .register 0 :: postWhole ⟨97, 1, 0⟩ ++ postWhole ⟨97, 0, 0⟩ ++ postWhole
    ⟨98, 1, 0⟩ ++ List.replicate 12 (.nextKey 0)

theorem returned_in_order_twoKeys
    : ∃ s, Steps.Reach step Orderly init s
      ∧ ((s.reader 0).returned = [⟨97, 1, 0⟩, ⟨98, 1, 0⟩] ∧ Sound s 0) := by
  obtain ⟨s, hreach, hreturned⟩ := Steps.Reach.exists_of_run step Orderly init twoKeys
    (fun s => (s.reader 0).returned = [⟨97, 1, 0⟩, ⟨98, 1, 0⟩]) (by decide +kernel)
  exact ⟨s, hreach, hreturned, returned_in_order hreach 0⟩

def lapped : List Event :=
  .register 0 :: postWhole ⟨97, 1, 0⟩ ++ List.replicate 3 (.nextKey 0) ++ postWhole ⟨98, 1, 0⟩ ++
    (List.replicate 254 (postWhole ⟨98, 0, 0⟩)).flatten ++ postWhole ⟨99, 1, 0⟩ ++ List.replicate 7
    (.nextKey 0)

theorem returned_out_of_order
    : ∃ s, Steps.Reach step (fun _ _ => True) init s ∧
      ((s.reader 0).returned = [⟨99, 1, 0⟩, ⟨98, 1, 0⟩] ∧ ¬Sound s 0) :=
  Steps.Reach.exists_of_run step (fun _ _ => True) init lapped _ (by decide +kernel)

end Kbd
