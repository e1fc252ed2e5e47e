import Skyline.Cyclic.Basic
import Skyline.E1000.Basic

/-!
This module contains the invariant of the receive ring and what it says about the two sides of the
ring.
-/

namespace E1000

open Steps Cyclic Function

variable {s t : State} {armed p i : Nat}

theorem mod_succ (p : Nat) : (p % rxRingLen + 1) % rxRingLen = (p + 1) % rxRingLen := by
  rw [Nat.mod_add_mod]

structure Cursors (armed : Nat) (s : State) : Prop where
  tail : s.rxTail = s.polled % rxRingLen
  armed_eq : s.rxArmed = armed % rxRingLen
  polled_le : s.polled ≤ armed
  armed_lt : armed < s.polled + rxRingLen
  hardware : ∀ (p : Nat), s.polled ≤ p → p ≤ armed → s.descState (p % rxRingLen) = .hardware
  used : ∀ (p : Nat), armed < p → p < s.polled + rxRingLen → s.descState (p % rxRingLen) ≠ .hardware
  lent : ∀ (i : Nat), i < rxRingLen → (s.lent i = true ↔ s.descState i = .lent)

structure Frames (s : State) : Prop where
  head : s.rdh = s.received.length % rxRingLen
  polled_le : s.polled ≤ s.received.length
  full : ∀ (p : Nat) (h : p < s.received.length), s.polled ≤ p →
    s.ring (p % rxRingLen) = ⟨true, s.received.get ⟨p, h⟩⟩
  empty : ∀ (p : Nat), s.received.length ≤ p → p < s.polled + rxRingLen →
    (s.ring (p % rxRingLen)).dd = false

def State.taken (s : State) : Nat :=
  match s.phase with
  | .callback _ => s.polled + 1
  | _ => s.polled

def State.due (s : State) : List Frame :=
  ((s.received.take s.taken).drop s.skipped).filter Frame.complete

def State.Progress (s : State) : Prop :=
  match s.phase with
  | .idle => s.mark ≤ s.polled
  | .polling guard => s.mark + guard < s.polled + rxRingLen
  | .callback guard =>
    s.mark + guard < s.polled + rxRingLen ∧ s.input = true ∧ s.polled < s.received.length

def Settled (armed : Nat) (s : State) : Prop :=
  armed + 1 = s.polled + rxRingLen ∨ ∃ i < rxRingLen, s.lent i = true

structure Inv (s : State) : Prop where
  frames : Frames s
  cursors : ∃ armed, Cursors armed s ∧ s.received.length ≤ armed
    ∧ (s.phase = .idle → Settled armed s)
  published : s.rdt = s.rxArmed
  fresh : s.inited = false → s.polled = 0 ∧ s.phase = .idle ∧ ∀ (i : Nat), s.descState i = .hardware
  skipped_le : s.skipped ≤ s.polled
  offered : s.offered = if s.input then s.due else []
  mark_le : s.mark ≤ s.received.length
  progress : s.Progress

theorem Frames.congr (h : Frames s) (hring : t.ring = s.ring) (hrdh : t.rdh = s.rdh)
    (hreceived : t.received = s.received) (hpolled : t.polled = s.polled)
    : Frames t := by
  obtain ⟨head, polled_le, full, empty⟩ := h
  rw [← hring, ← hrdh, ← hreceived, ← hpolled] at *
  exact ⟨head, polled_le, full, empty⟩

theorem Cursors.congr (h : Cursors armed s) (htail : t.rxTail = s.rxTail)
    (harmed : t.rxArmed = s.rxArmed)
    (hpolled : t.polled = s.polled) (hstate : t.descState = s.descState) (hlent : t.lent = s.lent)
    : Cursors armed t := by
  obtain ⟨tail, armed_eq, polled_le, armed_lt, hardware, used, lent⟩ := h
  rw [← htail, ← harmed, ← hpolled, ← hstate, ← hlent] at *
  exact ⟨tail, armed_eq, polled_le, armed_lt, hardware, used, lent⟩

theorem armFrom_eq (s : State) (i fuel : Nat)
    : armFrom s i fuel = { s with
        descState := (armFrom s i fuel).descState, rxArmed := (armFrom s i fuel).rxArmed } := by
  induction fuel generalizing s i with
  | zero => rfl
  | succ _ ih =>
    unfold armFrom
    split
    . rfl
    . split
      . rfl
      . rw [ih]

theorem Cursors.arm (h : Cursors armed s) (hlt : armed + 1 < s.polled + rxRingLen)
    (hnot : s.descState ((armed + 1) % rxRingLen) = .consumed)
    : Cursors (armed + 1) { s with
        descState := update s.descState ((armed + 1) % rxRingLen) .hardware
        rxArmed := (armed + 1) % rxRingLen } where
  tail := h.tail
  armed_eq := rfl
  polled_le := by
    have := h.polled_le
    show s.polled ≤ armed + 1
    omega
  armed_lt := hlt
  hardware p hp hpa := by
    by_cases heq : p = armed + 1
    . rw [heq]
      apply update_self
    . show update _ _ _ _ = _
      rw [update_of_ne]
      . exact h.hardware p hp (by omega)
      . exact mod_ne (a := s.polled) hp (by omega) (by have := h.polled_le; omega) hlt heq
  used p hp hpn := by
    show update _ _ _ _ ≠ _
    rw [update_of_ne]
    . exact h.used p (by omega) hpn
    . apply mod_ne (a := s.polled) _ hpn _ hlt (by omega)
      . have := h.polled_le
        omega
      . have := h.polled_le
        omega
  lent i hi := by
    rw [h.lent i hi]
    show _ ↔ update _ _ _ _ = _
    by_cases heq : i = (armed + 1) % rxRingLen
    . rw [heq, update_self, hnot]
      decide
    . rw [update_of_ne heq]

theorem Cursors.armFrom (h : Cursors armed s) (fuel : Nat)
    (hfuel : s.polled + rxRingLen ≤ armed + fuel)
    : ∃ armed', armed ≤ armed' ∧ Cursors armed' (armFrom s ((armed + 1) % rxRingLen) fuel) ∧
      (armed' + 1 = s.polled + rxRingLen ∨
        armed' + 1 < s.polled + rxRingLen ∧
        (E1000.armFrom s ((armed + 1) % rxRingLen) fuel).descState
        ((armed' + 1) % rxRingLen) = .lent) := by
  induction fuel generalizing s armed with
  | zero =>
    have := h.armed_lt
    omega
  | succ _ ih =>
    have hge := h.polled_le
    have hlt := h.armed_lt
    unfold E1000.armFrom
    split
    next htail =>
      refine ⟨armed, Nat.le_refl _, h, .inl ?_⟩
      rw [h.tail, ← Nat.add_mod_right s.polled] at htail
      exact eq_of_mod_eq (a := s.polled + 1) (by omega) (by omega) (by omega) (by omega) htail
    next htail =>
      have hnext : armed + 1 < s.polled + rxRingLen := by
        have : armed + 1 ≠ s.polled + rxRingLen := by
          intro heq
          rw [h.tail, heq, Nat.add_mod_right] at htail
          exact htail rfl
        omega
      split
      next hstate =>
        refine ⟨armed, Nat.le_refl _, h, .inr ⟨hnext, ?_⟩⟩
        have hused := h.used (armed + 1) (by omega) hnext
        cases hds : s.descState ((armed + 1) % rxRingLen) with
        | hardware => exact absurd hds hused
        | consumed => exact absurd hds hstate
        | lent => rfl
      next hstate =>
        rw [not_not] at hstate
        rw [mod_succ]
        obtain ⟨armed', hle, hrest⟩ := ih (h.arm hnext hstate) (by show s.polled + _ ≤ _; omega)
        exact ⟨armed', by omega, hrest⟩

theorem rxArmAdvance_eq (s : State)
    : rxArmAdvance s = { s with
        descState := (rxArmAdvance s).descState
        rxArmed := (rxArmAdvance s).rxArmed
        rdt := (rxArmAdvance s).rxArmed } := by
  unfold rxArmAdvance
  rw [armFrom_eq]

theorem Cursors.rxArmAdvance (h : Cursors armed s)
    : ∃ armed', armed ≤ armed' ∧ Cursors armed' (rxArmAdvance s)
      ∧ Settled armed' (rxArmAdvance s) := by
  have hle := h.polled_le
  obtain ⟨armed', hge, hcur, hend⟩ := h.armFrom rxRingLen (by omega)
  have hnew : Cursors armed' (E1000.rxArmAdvance s) := by
    unfold E1000.rxArmAdvance
    rw [h.armed_eq, mod_succ]
    exact hcur.congr rfl rfl rfl rfl rfl
  refine ⟨armed', hge, hnew, ?_⟩
  cases hend with
  | inl hall =>
    rw [rxArmAdvance_eq]
    exact .inl hall
  | inr hlent =>
    have hslot := Nat.mod_lt (armed' + 1) rxRingLen_pos
    refine .inr ⟨(armed' + 1) % rxRingLen, hslot, ?_⟩
    rw [hnew.lent _ hslot]
    unfold E1000.rxArmAdvance
    rw [h.armed_eq, mod_succ]
    exact hlent.2

theorem filter_take_succ (l : List Frame) (k n : Nat) (hk : k ≤ n) (hn : n < l.length)
    : ((l.take (n + 1)).drop k).filter Frame.complete
      =
      ((l.take n).drop k).filter Frame.complete ++ [l.get ⟨n, hn⟩].filter Frame.complete := by
  rw [List.take_succ_eq_append_getElem hn, List.drop_append_of_le_length, List.filter_append]
  . rfl
  . rw [List.length_take]
    omega

theorem Frames.receive (h : Frames s) (hroom : s.received.length + 1 < s.polled + rxRingLen)
    (f : Frame)
    : Frames { s with
        ring := update s.ring s.rdh ⟨true, f⟩
        rdh := (s.rdh + 1) % rxRingLen
        received := s.received ++ [f] } where
  head := by
    show (s.rdh + 1) % rxRingLen = (s.received ++ [f]).length % rxRingLen
    rw [h.head, mod_succ, List.length_append]
    rfl
  polled_le := by
    have := h.polled_le
    show s.polled ≤ (s.received ++ [f]).length
    rw [List.length_append]
    omega
  full p hp hge := by
    have hle := h.polled_le
    have hlt : p < s.received.length + 1 := by simpa using hp
    show update s.ring s.rdh _ _ = _
    rw [h.head]
    by_cases heq : p = s.received.length
    . subst heq
      rw [update_self]
      simp
    . rw [update_of_ne (mod_ne (a := s.polled) hge (by omega) hle (by omega) heq),
        h.full p (by omega) hge]
      simp only [List.get_eq_getElem]
      rw [List.getElem_append_left]
  empty p hp hlt := by
    have hle := h.polled_le
    have hge : s.received.length + 1 ≤ p := by simpa using hp
    show (update s.ring s.rdh _ _).dd = _
    rw [h.head, update_of_ne (mod_ne (a := s.polled) (by omega) hlt hle (by omega) (by omega))]
    exact h.empty p (by omega) hlt

theorem Frames.consume (h : Frames s) (htail : s.rxTail = s.polled % rxRingLen)
    (hlt : s.polled < s.received.length) (hroom : s.received.length < s.polled + rxRingLen)
    (guard : Nat) (new : DescState)
    : Frames (consume s guard new) where
  head := h.head
  polled_le := hlt
  full p hp hge := by
    show update s.ring s.rxTail _ _ = _
    have hge : s.polled + 1 ≤ p := hge
    have hp : p < s.received.length := hp
    rw [htail, update_of_ne]
    . exact h.full p hp (by omega)
    . exact mod_ne (a := s.polled) (by omega) (by omega) (Nat.le_refl _) (by omega) (by omega)
  empty p hge hp := by
    show (update s.ring s.rxTail _ _).dd = _
    have hge : s.received.length ≤ p := hge
    have hp : p < s.polled + 1 + rxRingLen := hp
    rw [htail]
    by_cases heq : p = s.polled + rxRingLen
    . rw [heq, Nat.add_mod_right, update_self]
      rfl
    . rw [update_of_ne]
      . exact h.empty p hge (by omega)
      . exact mod_ne (a := s.polled) (by omega) (by omega) (Nat.le_refl _) (by omega) (by omega)

variable {new : DescState} {guard idx : Nat}

theorem Cursors.consume (h : Cursors armed s) (hlt : s.polled < armed) (guard : Nat)
    (hnew : new ≠ .hardware)
    : Cursors armed (consume s guard new) where
  tail := by
    show (s.rxTail + 1) % rxRingLen = (s.polled + 1) % rxRingLen
    rw [h.tail, mod_succ]
  armed_eq := h.armed_eq
  polled_le := hlt
  armed_lt := by
    have := h.armed_lt
    show armed < s.polled + 1 + rxRingLen
    omega
  hardware p hge hp := by
    have := h.armed_lt
    have hge : s.polled + 1 ≤ p := hge
    show update s.descState s.rxTail _ _ = _
    rw [h.tail, update_of_ne]
    . exact h.hardware p (by omega) hp
    . exact mod_ne (a := s.polled) (by omega) (by omega) (Nat.le_refl _) (by omega) (by omega)
  used p hge hp := by
    have hp : p < s.polled + 1 + rxRingLen := hp
    show update s.descState s.rxTail _ _ ≠ _
    rw [h.tail]
    by_cases heq : p = s.polled + rxRingLen
    . rw [heq, Nat.add_mod_right, update_self]
      exact hnew
    . rw [update_of_ne]
      . exact h.used p hge (by omega)
      . exact mod_ne (a := s.polled) (by omega) (by omega) (Nat.le_refl _) (by omega) (by omega)
  lent i hi := by
    -- the descriptor at the tail was not lent out before
    have hold := h.lent _ (h.tail ▸ Nat.mod_lt s.polled rxRingLen_pos)
    rw [h.tail, h.hardware s.polled (Nat.le_refl _) (by omega)] at hold
    show (if new = .lent then _ else _ : Nat → Bool) i = true ↔ update s.descState s.rxTail _ _ = _
    rw [h.tail]
    by_cases heq : i = s.polled % rxRingLen
    . rw [heq, update_self]
      split
      next hlent => simp [hlent]
      next hlent => simpa [hlent] using hold
    . rw [update_of_ne heq]
      split
      next => rw [update_of_ne heq, h.lent i hi]
      next => rw [h.lent i hi]

theorem Cursors.recycle (h : Cursors armed s) (idx : Nat) (hlent : s.descState idx = .lent)
    : Cursors armed { s with
        lent := update s.lent idx false
        descState := update s.descState idx .consumed } where
  __ := h
  hardware p hge hp := by
    show update s.descState idx _ _ = _
    rw [update_of_ne]
    . exact h.hardware p hge hp
    . intro heq
      have := h.hardware p hge hp
      rw [heq, hlent] at this
      cases this
  used p hge hp := by
    show update s.descState idx _ _ ≠ _
    by_cases heq : p % rxRingLen = idx
    . rw [heq, update_self]
      decide
    . rw [update_of_ne heq]
      exact h.used p hge hp
  lent i hi := by
    show update s.lent idx _ _ = _ ↔ update s.descState idx _ _ = _
    by_cases heq : i = idx
    . rw [heq, update_self, update_self]
      decide
    . rw [update_of_ne heq, update_of_ne heq]
      exact h.lent i hi

theorem Cursors.lent_update (h : Cursors armed s) (idx : Nat) (hidx : idx < rxRingLen)
    (hlent : s.descState idx ≠ .lent)
    : update s.lent idx false = s.lent := by
  have : s.lent idx = false := by
    rw [Bool.eq_false_iff]
    intro hlentb
    exact hlent ((h.lent idx hidx).mp hlentb)
  rw [← this, update_eq_self]

section

variable (h : Inv s)
include h

theorem Inv.received_lt : s.received.length < s.polled + rxRingLen := by
  obtain ⟨armed, hcur, hle, _⟩ := h.cursors
  have := hcur.armed_lt
  omega

theorem Inv.inited_of_phase (hphase : s.phase ≠ .idle) : s.inited = true := by
  by_contra hnot
  exact hphase (h.fresh (by simpa using hnot)).2.1

theorem Inv.receive (hroom : s.rdh ≠ s.rdt) (f : Frame)
    : Inv { s with
        ring := update s.ring s.rdh ⟨true, f⟩
        rdh := (s.rdh + 1) % rxRingLen
        received := s.received ++ [f] } := by
  obtain ⟨armed, hcur, hle, hset⟩ := h.cursors
  have hlt : s.received.length < armed := by
    apply Nat.lt_of_le_of_ne hle
    intro heq
    rw [h.frames.head, h.published, hcur.armed_eq, heq] at hroom
    exact hroom rfl
  have harmed := hcur.armed_lt
  have hge := h.frames.polled_le
  constructor
  . exact h.frames.receive (by omega) f
  . refine ⟨armed, hcur.congr rfl rfl rfl rfl rfl, ?_, hset⟩
    show (s.received ++ [f]).length ≤ armed
    rw [List.length_append]
    exact hlt
  . exact h.published
  . exact h.fresh
  . exact h.skipped_le
  . -- what the callback has seen is not at the end
    have htaken : s.taken ≤ s.received.length := by
      have hprog := h.progress
      unfold State.Progress at hprog
      unfold State.taken
      split
      next heq =>
        rw [heq] at hprog
        exact hprog.2.2
      next => exact hge
    show s.offered = if s.input then (((s.received ++ [f]).take s.taken).drop s.skipped).filter _
      else _
    rw [List.take_append_of_le_length htaken]
    exact h.offered
  . have := h.mark_le
    show s.mark ≤ (s.received ++ [f]).length
    rw [List.length_append]
    omega
  . have hprog := h.progress
    unfold State.Progress at hprog ⊢
    cases hphase : s.phase with
    | idle => simpa [hphase] using hprog
    | polling => simpa [hphase] using hprog
    | callback =>
      simp only [hphase, List.length_append, List.length_singleton] at hprog ⊢
      exact ⟨hprog.1, hprog.2.1, Nat.lt_succ_of_lt hprog.2.2⟩

theorem Inv.consume (hphase : s.phase ≠ .idle)
    (hnew : new ≠ .hardware) (hlt : s.polled < s.received.length)
    (hguard : s.mark + guard < s.polled + rxRingLen)
    (hdue : s.input = true → s.offered
      = ((s.received.take (s.polled + 1)).drop s.skipped).filter Frame.complete)
    : Inv (consume s guard new) := by
  obtain ⟨armed, hcur, hle, _⟩ := h.cursors
  constructor
  . exact h.frames.consume hcur.tail hlt h.received_lt guard new
  . exact ⟨armed, hcur.consume (by omega) guard hnew, hle, fun habs => Phase.noConfusion habs⟩
  . exact h.published
  . intro hnot
    exact absurd ((h.inited_of_phase hphase).symm.trans hnot) (by decide)
  . have := h.skipped_le
    show s.skipped ≤ s.polled + 1
    omega
  . show s.offered = if s.input then _ else _
    split
    next hinput => exact hdue hinput
    next hinput =>
      rw [h.offered]
      simp [hinput]
  . exact h.mark_le
  . show s.mark + (guard + 1) < s.polled + 1 + rxRingLen
    omega

theorem Inv.poll (hphase : s.phase = .polling guard) : Inv (poll s guard) := by
  obtain ⟨armed, hcur, hle, _⟩ := h.cursors
  have hpol := h.frames.polled_le
  have hprog : s.mark + guard < s.polled + rxRingLen := by
    have := h.progress
    unfold State.Progress at this
    rw [hphase] at this
    exact this
  have hoff : s.offered = if s.input then
      ((s.received.take s.polled).drop s.skipped).filter Frame.complete else [] := by
    have := h.offered
    unfold State.due State.taken at this
    rw [hphase] at this
    exact this
  have hne : s.phase ≠ .idle := by
    rw [hphase]
    exact Phase.noConfusion
  -- whether the descriptor at the tail is filled says whether there is something to poll
  have hdd : (s.ring s.rxTail).dd = true ↔ s.polled < s.received.length := by
    rw [hcur.tail]
    constructor
    . intro hdd
      by_contra hnot
      rw [h.frames.empty s.polled (by omega) (by have := rxRingLen_pos; omega)] at hdd
      cases hdd
    . intro hlt
      rw [h.frames.full s.polled hlt (Nat.le_refl _)]
  simp only [E1000.poll]
  split
  next htest =>
    rw [Bool.and_eq_true, decide_eq_true_eq, hdd] at htest
    obtain ⟨hlt, _⟩ := htest
    have hframe : (s.ring s.rxTail).frame = s.received.get ⟨s.polled, hlt⟩ := by
      rw [hcur.tail, h.frames.full s.polled hlt (Nat.le_refl _)]
    have htake := filter_take_succ s.received s.skipped s.polled h.skipped_le hlt
    rw [← hframe] at htake
    split
    next hcomplete =>
      rw [List.filter_singleton, hcomplete] at htake
      split
      next hinput =>
        rw [hinput] at hoff
        refine ⟨h.frames.congr rfl rfl rfl rfl, ⟨armed, hcur.congr rfl rfl rfl rfl rfl, hle,
          fun habs => Phase.noConfusion habs⟩, h.published,
          fun hnot => absurd ((h.inited_of_phase hne).symm.trans hnot)
            (by decide), h.skipped_le, ?_,
          h.mark_le, hprog, hinput, hlt⟩
        show s.offered ++ [_] = if s.input then
          ((s.received.take (s.polled + 1)).drop s.skipped).filter Frame.complete else []
        rw [hinput, htake, hoff]
        rfl
      next hinput =>
        apply h.consume hne (by decide) hlt hprog
        intro habs
        exact absurd habs hinput
    next hcomplete =>
      rw [List.filter_singleton, Bool.eq_false_iff.mpr hcomplete] at htake
      apply h.consume hne (by decide) hlt hprog
      intro hinput
      rw [hoff, hinput, htake]
      simp
  next htest =>
    -- nothing is left of what was there at the start
    have hdone : s.mark ≤ s.polled := by
      rw [Bool.and_eq_true, decide_eq_true_eq, hdd] at htest
      have hmark := h.mark_le
      by_cases hlt : s.polled < s.received.length
      . have : ¬ guard < rxRingLen := fun hg => htest ⟨hlt, hg⟩
        omega
      . omega
    obtain ⟨armed', hge, hcur, hset⟩ := hcur.rxArmAdvance
    rw [rxArmAdvance_eq] at hcur hset ⊢
    exact ⟨h.frames.congr rfl rfl rfl rfl,
      ⟨armed', hcur.congr rfl rfl rfl rfl rfl, Nat.le_trans hle hge, fun _ => hset⟩, rfl,
      fun hnot => absurd ((h.inited_of_phase hne).symm.trans hnot) (by decide), h.skipped_le, hoff,
      h.mark_le, hdone⟩

theorem Inv.recycleRx_eq (hinited : s.inited = true) (hidx : idx < rxRingLen)
    : ∃ armed t, Cursors armed t ∧ s.received.length ≤ armed
      ∧ recycleRx s idx = E1000.rxArmAdvance t ∧
      t = { s with lent := t.lent, descState := t.descState } := by
  obtain ⟨armed, hcur, hle, _⟩ := h.cursors
  unfold E1000.recycleRx
  rw [if_neg (by simp [hinited, hidx])]
  dsimp only
  split
  next hlent => exact ⟨armed, _, hcur.recycle idx hlent, hle, rfl, rfl⟩
  next hlent =>
    rw [hcur.lent_update idx hidx hlent]
    exact ⟨armed, s, hcur, hle, rfl, rfl⟩

theorem Inv.recycleRx (idx : Nat) : Inv (recycleRx s idx) := by
  by_cases hcall : s.inited = true ∧ idx < rxRingLen
  . obtain ⟨hinited, hidx⟩ := hcall
    obtain ⟨armed, t, hcur, hle, heq, ht⟩ := h.recycleRx_eq hinited hidx
    obtain ⟨armed', hge, hcur, hset⟩ := hcur.rxArmAdvance
    rw [heq]
    rw [rxArmAdvance_eq, ht] at hcur hset ⊢
    exact ⟨h.frames.congr rfl rfl rfl rfl, ⟨armed', hcur, Nat.le_trans hle hge, fun _ => hset⟩,
      rfl, fun hnot => absurd (hinited.symm.trans hnot)
        (by decide), h.skipped_le, h.offered, h.mark_le,
      h.progress⟩
  . unfold E1000.recycleRx
    rw [if_pos]
    . exact h
    . rw [Bool.or_eq_true, decide_eq_true_eq, Bool.not_eq_true']
      by_contra hnot
      apply hcall
      rw [not_or, Bool.not_eq_false, Nat.not_le] at hnot
      exact hnot

end

theorem inv_init : Inv init where
  frames := by
    refine ⟨?_, Nat.le_refl _, ?_, fun _ _ _ => rfl⟩
    . exact (Nat.zero_mod _).symm
    . intro p hp
      exact absurd hp (Nat.not_lt_zero _)
  cursors := by
    have hpos := rxRingLen_pos
    refine ⟨rxRingLen - 1, ⟨(Nat.zero_mod _).symm, ?_, Nat.zero_le _, ?_, fun _ _ _ => rfl, ?_, ?_⟩,
      Nat.zero_le _, fun _ => .inl ?_⟩
    . show rxRingLen - 1 = _
      rw [Nat.mod_eq_of_lt (by omega)]
    . show rxRingLen - 1 < 0 + rxRingLen
      omega
    . intro p hp hlt
      have hlt : p < 0 + rxRingLen := hlt
      omega
    . intro i hi
      exact iff_of_false Bool.false_ne_true DescState.noConfusion
    . show rxRingLen - 1 + 1 = 0 + rxRingLen
      omega
  published := rfl
  fresh := fun _ => ⟨rfl, rfl, fun _ => rfl⟩
  skipped_le := Nat.le_refl _
  offered := rfl
  mark_le := Nat.le_refl _
  progress := Nat.le_refl _

section

variable (h : Inv s)
include h

theorem Inv.ready : Inv { s with inited := true } := by
  obtain ⟨armed, hcur, hle, hset⟩ := h.cursors
  exact ⟨h.frames.congr rfl rfl rfl rfl, ⟨armed, hcur.congr rfl rfl rfl rfl rfl, hle, hset⟩,
    h.published, fun hnot => Bool.noConfusion hnot, h.skipped_le, h.offered, h.mark_le, h.progress⟩

theorem Inv.setInputCallback (hinput : s.input = false)
    : Inv { s with input := true, skipped := s.polled } := by
  obtain ⟨armed, hcur, hle, hset⟩ := h.cursors
  have hprog := h.progress
  have hout : ∀ (guard : Nat), s.phase ≠ .callback guard := by
    intro guard hphase
    unfold State.Progress at hprog
    rw [hphase, hinput] at hprog
    exact absurd hprog.2.1 (by decide)
  refine ⟨h.frames.congr rfl rfl rfl rfl, ⟨armed, hcur.congr rfl rfl rfl rfl rfl, hle, hset⟩,
    h.published, h.fresh, Nat.le_refl _, ?_, h.mark_le, ?_⟩
  . have hold := h.offered
    rw [hinput] at hold
    show s.offered = ((s.received.take s.taken).drop s.polled).filter _
    have htaken : s.taken = s.polled := by
      unfold State.taken
      split
      next guard hphase => exact absurd hphase (hout guard)
      next => rfl
    rw [hold, htaken, List.drop_eq_nil_of_le]
    . rfl
    . rw [List.length_take]
      omega
  . unfold State.Progress at hprog ⊢
    cases hphase : s.phase with
    | idle => simpa [hphase] using hprog
    | polling => simpa [hphase] using hprog
    | callback guard => exact absurd hphase (hout guard)

theorem Inv.pollRX (hphase : s.phase = .idle) (hinited : s.inited = true)
    : Inv { s with phase := .polling 0, mark := s.received.length } := by
  obtain ⟨armed, hcur, hle, _⟩ := h.cursors
  refine ⟨h.frames.congr rfl rfl rfl rfl, ⟨armed, hcur.congr rfl rfl rfl rfl rfl, hle,
    fun habs => Phase.noConfusion habs⟩, h.published,
    fun hnot => absurd (hinited.symm.trans hnot) (by decide), h.skipped_le, ?_, Nat.le_refl _,
    h.received_lt⟩
  have hold := h.offered
  unfold State.due State.taken at hold ⊢
  rw [hphase] at hold
  exact hold

theorem Inv.ret (hphase : s.phase = .callback guard) (keep : Bool)
    : Inv (E1000.consume s guard (if keep then .lent else .consumed)) := by
  have hprog := h.progress
  have hoff := h.offered
  unfold State.Progress at hprog
  unfold State.due State.taken at hoff
  rw [hphase] at hprog hoff
  apply h.consume
  . rw [hphase]
    exact Phase.noConfusion
  . cases keep <;> decide
  . exact hprog.2.2
  . exact hprog.1
  . intro hinput
    rw [hoff, hinput]
    rfl

theorem Inv.step (e : Event) (hstep : step s e = some t) : Inv t := by
  cases e with
  | receive f =>
    simp only [E1000.step] at hstep
    split at hstep
    next => cases hstep
    next hroom =>
      cases hstep
      exact h.receive hroom f
  | ready =>
    cases hstep
    exact h.ready
  | setInputCallback =>
    simp only [E1000.step] at hstep
    split at hstep
    next =>
      cases hstep
      exact h
    next hinput =>
      cases hstep
      exact h.setInputCallback (by simpa using hinput)
  | pollRX =>
    simp only [E1000.step] at hstep
    split at hstep
    next hphase =>
      split at hstep
      next hinited =>
        cases hstep
        exact h.pollRX hphase hinited
      next =>
        cases hstep
        exact h
    next => cases hstep
  | poll =>
    simp only [E1000.step] at hstep
    split at hstep
    next guard hphase =>
      cases hstep
      exact h.poll hphase
    next => cases hstep
  | ret keep =>
    simp only [E1000.step] at hstep
    split at hstep
    next guard hphase =>
      cases hstep
      exact h.ret hphase keep
    next => cases hstep
  | recycleRx idx =>
    simp only [E1000.step] at hstep
    split at hstep
    next => cases hstep
    next =>
      cases hstep
      exact h.recycleRx idx

theorem Inv.withCard_iff (hcur : Cursors armed s) (hle : s.received.length ≤ armed)
    (hp : s.received.length ≤ p) (hpn : p < s.received.length + rxRingLen)
    : s.WithCard (p % rxRingLen) ↔ p ≤ armed := by
  have hpol := h.frames.polled_le
  have harmed := hcur.armed_lt
  unfold State.WithCard
  rw [h.published, hcur.armed_eq, h.frames.head, distance hp hpn, distance hle (by omega)]
  omega

theorem Inv.not_withCard (hi : i < rxRingLen) (hlent : s.lent i = true) : ¬ s.WithCard i := by
  obtain ⟨armed, hcur, hle, _⟩ := h.cursors
  obtain ⟨p, hp, hpn, rfl⟩ := exists_pos s.received.length hi
  rw [h.withCard_iff hcur hle hp hpn]
  intro hpa
  have hpol := h.frames.polled_le
  rw [hcur.lent _ hi, hcur.hardware p (by omega) hpa] at hlent
  cases hlent

theorem Inv.allBack (hcur : Cursors armed s) (hle : s.received.length ≤ armed)
    (hset : Settled armed s)
    : s.AllBack := by
  intro hnone i hi
  have hpol := h.frames.polled_le
  have hall : armed + 1 = s.polled + rxRingLen := by
    cases hset with
    | inl hall => exact hall
    | inr hlent =>
      obtain ⟨j, hj, hlent⟩ := hlent
      rw [hnone j hj] at hlent
      cases hlent
  constructor
  . obtain ⟨p, hp, hpn, rfl⟩ := exists_pos s.polled hi
    exact hcur.hardware p hp (by omega)
  . obtain ⟨p, hp, hpn, rfl⟩ := exists_pos s.received.length hi
    by_cases hpa : p ≤ armed
    . exact .inl ((h.withCard_iff hcur hle hp hpn).mpr hpa)
    . -- one round back the position holds a frame that was not polled
      have hback : p % rxRingLen = (p - rxRingLen) % rxRingLen := by
        rw [Nat.mod_eq_sub_mod]
        have := rxRingLen_pos
        omega
      rw [hback, h.frames.full (p - rxRingLen) (by omega) (by omega)]
      exact .inr rfl

theorem Inv.allBack_recycleRx (hinited : s.inited = true) (hidx : idx < rxRingLen)
    : (E1000.recycleRx s idx).AllBack := by
  have hnew := h.recycleRx idx
  obtain ⟨armed, r, hcur, hle, heq, hr⟩ := h.recycleRx_eq hinited hidx
  obtain ⟨armed', hge, hcur, hset⟩ := hcur.rxArmAdvance
  rw [heq] at hnew ⊢
  refine hnew.allBack hcur ?_ hset
  rw [rxArmAdvance_eq, hr]
  exact Nat.le_trans hle hge

end

/--
In every state of every run: what is lent out is not with the card, the complete frames were handed
on once each and in their order, none is left by a finished `PollRX`, and the card has all
descriptors unless one is lent out.
-/
theorem rx_ring_sound (h : Reach step (fun _ _ => True) init s)
    : (∀ (i : Nat), i < rxRingLen → s.lent i = true → ¬ s.WithCard i) ∧
      (s.input = true → s.offered = s.due) ∧
      (s.phase = .idle → s.mark ≤ s.polled ∧ s.AllBack) ∧
      (∀ (idx : Nat) (t : State), s.inited = true → idx < rxRingLen →
        step s (.recycleRx idx) = some t → t.AllBack) := by
  have hinv : Inv s := Reach.invariant Inv inv_init (fun _ e _ hi _ hs => hi.step e hs) h
  refine ⟨fun i hi hlent => hinv.not_withCard hi hlent, ?_, ?_, ?_⟩
  . intro hinput
    rw [hinv.offered, hinput]
    rfl
  . intro hphase
    obtain ⟨armed, hcur, hle, hset⟩ := hinv.cursors
    have hprog := hinv.progress
    unfold State.Progress at hprog
    rw [hphase] at hprog
    exact ⟨hprog, hinv.allBack hcur hle (hset hphase)⟩
  . intro idx t hinited hidx hstep
    simp only [step] at hstep
    split at hstep
    next => cases hstep
    next =>
      cases hstep
      exact hinv.allBack_recycleRx hinited hidx

def twoFrames : List Event :=
  [.ready, .setInputCallback, .receive ⟨60, true, [1]⟩, .receive ⟨60, true, [2]⟩,
    .pollRX, .poll, .ret true,
    .poll, .ret false, .poll, .recycleRx 0]

theorem rx_ring_sound_two_frames
    : ∃ s, Reach step (fun _ _ => True) init s ∧
      (s.offered = [⟨60, true, [1]⟩, ⟨60, true, [2]⟩] ∧ s.rdt = 1 ∧ s.phase = .idle)
      ∧ s.AllBack := by
  obtain ⟨s, hreach, hend⟩ := Reach.exists_of_run step (fun _ _ => True) init twoFrames
    (fun s => s.offered = [⟨60, true, [1]⟩, ⟨60, true, [2]⟩] ∧ s.rdt = 1 ∧ s.phase = .idle)
    (by decide +kernel)
  exact ⟨s, hreach, hend, ((rx_ring_sound hreach).2.2.1 hend.2.2).2⟩

end E1000
