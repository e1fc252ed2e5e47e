import Mathlib

/-!
This module contains the word level bitmap primitives of the physical memory manager.
-/

namespace PMM

abbrev Bitmap := Nat → BitVec 64

def bitTest (map : Bitmap) (i : Nat) : Bool :=
  (map (i / 64)).getLsbD (i % 64)

def setWord (map : Bitmap) (w : Nat) (val : BitVec 64) : Bitmap :=
  fun idx => if idx = w then val else map idx

def bitSet (map : Bitmap) (i : Nat) : Bitmap :=
  setWord map (i / 64) (map (i / 64) ||| 1#64 <<< (i % 64))

def bitClear (map : Bitmap) (i : Nat) : Bitmap :=
  setWord map (i / 64) (map (i / 64) &&& ~~~(1#64 <<< (i % 64)))

def fillWords (map : Bitmap) (w n : Nat) (val : BitVec 64) : Bitmap :=
  match n with
  | 0 => map
  | n + 1 => fillWords (setWord map w val) (w + 1) n val

def maskFrom (first : Nat) : BitVec 64 :=
  BitVec.allOnes 64 <<< (first % 64)

def maskTo (last : Nat) : BitVec 64 :=
  BitVec.allOnes 64 >>> (63 - (last - 1) % 64)

def bitsClear (map : Bitmap) (first last : Nat) : Bitmap :=
  if first ≥ last then
    map
  else
    let wf := first / 64
    let wl := (last - 1) / 64
    if wf = wl then
      setWord map wf (map wf &&& ~~~(maskFrom first &&& maskTo last))
    else
      let map := setWord map wf (map wf &&& ~~~(maskFrom first))
      let map := fillWords map (wf + 1) (wl - (wf + 1)) 0#64
      setWord map wl (map wl &&& ~~~(maskTo last))

def bitsSet (map : Bitmap) (first last : Nat) : Bitmap :=
  if first ≥ last then
    map
  else
    let wf := first / 64
    let wl := (last - 1) / 64
    if wf = wl then
      setWord map wf (map wf ||| (maskFrom first &&& maskTo last))
    else
      let map := setWord map wf (map wf ||| maskFrom first)
      let map := fillWords map (wf + 1) (wl - (wf + 1)) (BitVec.allOnes 64)
      setWord map wl (map wl ||| maskTo last)

@[simp]
theorem setWord_same (map : Bitmap) (w : Nat) (val : BitVec 64) : setWord map w val w = val := by
  simp [setWord]

theorem setWord_of_ne (map : Bitmap) (w idx : Nat) (val : BitVec 64) (h : idx ≠ w)
    : setWord map w val idx = map idx := by
  simp [setWord, h]

theorem fillWords_eq (map : Bitmap) (w n : Nat) (val : BitVec 64)
    : ∀ (idx : Nat),
        fillWords map w n val idx
          =
        if w ≤ idx ∧ idx < w + n then val else map idx := by
  intro idx
  induction n generalizing map w with
  | zero =>
    have : ¬(w ≤ idx ∧ idx < w + 0) := by omega
    simp only [fillWords, this, ↓reduceIte]
  | succ n ih =>
    simp only [fillWords]
    rw [ih]
    by_cases hidx : idx = w
    . subst hidx
      simp
    . have : (w + 1 ≤ idx ∧ idx < w + 1 + n) ↔ (w ≤ idx ∧ idx < w + (n + 1)) := by omega
      simp only [this, setWord_of_ne _ _ _ _ hidx]

theorem getLsbD_maskFrom (first bit : Nat) (hbit : bit < 64)
    : (maskFrom first).getLsbD bit = decide (first % 64 ≤ bit) := by
  simp only [maskFrom, BitVec.getLsbD_shiftLeft, BitVec.getLsbD_allOnes, hbit, decide_true,
    Bool.true_and]
  by_cases h : bit < first % 64
  . have : ¬(first % 64 ≤ bit) := by omega
    simp [h, this]
  . have h1 : first % 64 ≤ bit := by omega
    have h2 : bit - first % 64 < 64 := by omega
    simp [h, h1, h2]

theorem getLsbD_maskTo (last bit : Nat)
    : (maskTo last).getLsbD bit = decide (bit ≤ (last - 1) % 64) := by
  simp only [maskTo, BitVec.getLsbD_ushiftRight, BitVec.getLsbD_allOnes]
  congr 1
  apply propext
  omega

theorem bitTest_setWord (map : Bitmap) (w : Nat) (val : BitVec 64) (i : Nat)
    : bitTest (setWord map w val) i
        =
      if i / 64 = w then val.getLsbD (i % 64) else bitTest map i := by
  unfold bitTest setWord
  split <;> rfl

theorem getLsbD_one_shiftLeft (i j : Nat)
    : (1#64 <<< (i % 64)).getLsbD (j % 64) = decide (j % 64 = i % 64) := by
  rw [BitVec.getLsbD_shiftLeft, BitVec.getLsbD_one]
  by_cases h : j % 64 = i % 64
  . have : j % 64 < 64 := by omega
    simp [h]
    omega
  . have h1 : j % 64 < 64 := by omega
    by_cases h2 : j % 64 < i % 64
    . simp [h, h2]
    . have h3 : j % 64 - i % 64 ≠ 0 := by omega
      simp [h, h3]

theorem bitTest_bitSet (map : Bitmap) (i j : Nat)
    : bitTest (bitSet map i) j = (bitTest map j || decide (j = i)) := by
  rw [bitSet, bitTest_setWord]
  split
  . next hword =>
    have : (j % 64 = i % 64) ↔ j = i := by omega
    rw [BitVec.getLsbD_or, getLsbD_one_shiftLeft, bitTest, hword]
    simp only [this]
  . next hword =>
    have : j ≠ i := by
      intro h
      rw [h] at hword
      contradiction
    simp [this]

theorem bitTest_bitClear (map : Bitmap) (i j : Nat)
    : bitTest (bitClear map i) j = (bitTest map j && !decide (j = i)) := by
  rw [bitClear, bitTest_setWord]
  split
  . next hword =>
    have h1 : (j % 64 = i % 64) ↔ j = i := by omega
    have h2 : j % 64 < 64 := by omega
    rw [BitVec.getLsbD_and, BitVec.getLsbD_not, getLsbD_one_shiftLeft, bitTest, hword]
    simp only [h1, h2, decide_true, Bool.true_and]
  . next hword =>
    have : j ≠ i := by
      intro h
      rw [h] at hword
      contradiction
    simp [this]

theorem bitTest_fillWords (map : Bitmap) (w n : Nat) (val : BitVec 64) (i : Nat)
    : bitTest (fillWords map w n val) i
        =
      if w ≤ i / 64 ∧ i / 64 < w + n then val.getLsbD (i % 64) else bitTest map i := by
  unfold bitTest
  rw [fillWords_eq]
  split <;> rfl

def bitsApply (op : BitVec 64 → BitVec 64 → BitVec 64) (full : BitVec 64) (map : Bitmap)
    (first last : Nat) : Bitmap :=
  if first ≥ last then
    map
  else
    let wf := first / 64
    let wl := (last - 1) / 64
    if wf = wl then
      setWord map wf (op (map wf) (maskFrom first &&& maskTo last))
    else
      let map := setWord map wf (op (map wf) (maskFrom first))
      let map := fillWords map (wf + 1) (wl - (wf + 1)) full
      setWord map wl (op (map wl) (maskTo last))

theorem bitTest_bitsApply (op : BitVec 64 → BitVec 64 → BitVec 64) (full : BitVec 64)
    (g : Bool → Bool → Bool)
    (hop : ∀ w m bit, bit < 64 → (op w m).getLsbD bit = g (w.getLsbD bit) (m.getLsbD bit))
    (hfull : ∀ b bit, bit < 64 → full.getLsbD bit = g b true) (hkeep : ∀ b, g b false = b)
    (map : Bitmap) (first last i : Nat)
    : bitTest (bitsApply op full map first last) i = g (bitTest map i)
      (decide (first ≤ i ∧ i < last)) := by
  have hbit : i % 64 < 64 := by omega
  unfold bitsApply
  split
  . have : ¬(first ≤ i ∧ i < last) := by omega
    simp [this, hkeep]
  . dsimp only
    split
    . next hword =>
      rw [bitTest_setWord]
      split
      . next hi =>
        -- Inside the single word the two masks cut out exactly the range.
        have : (first ≤ i ∧ i < last) ↔ (first % 64 ≤ i % 64 ∧ i % 64 ≤ (last - 1) % 64) := by
          omega
        rw [hop _ _ _ hbit, BitVec.getLsbD_and, getLsbD_maskFrom _ _ hbit, getLsbD_maskTo]
        simp only [bitTest, hi, this, Bool.decide_and]
      . have : ¬(first ≤ i ∧ i < last) := by omega
        simp [this, hkeep]
    . next hword =>
      rw [bitTest_setWord]
      split
      . next hi =>
        have h1 : (first ≤ i ∧ i < last) ↔ i % 64 ≤ (last - 1) % 64 := by omega
        have h2 : ¬(first / 64 + 1 ≤ (last - 1) / 64
            ∧ (last - 1) / 64 < first / 64 + 1 + ((last - 1) / 64 - (first / 64 + 1))) := by
          omega
        have h3 : (last - 1) / 64 ≠ first / 64 := by omega
        rw [hop _ _ _ hbit, getLsbD_maskTo, fillWords_eq]
        simp only [h1, h2, ↓reduceIte, setWord_of_ne _ _ _ _ h3, bitTest, hi]
      . next hi =>
        rw [bitTest_fillWords, bitTest_setWord]
        split
        . have : first ≤ i ∧ i < last := by omega
          rw [hfull (bitTest map i) _ hbit]
          simp [this]
        . split
          . next hi2 =>
            have : (first ≤ i ∧ i < last) ↔ first % 64 ≤ i % 64 := by omega
            rw [hop _ _ _ hbit, getLsbD_maskFrom _ _ hbit]
            simp only [this, bitTest, hi2]
          . have : ¬(first ≤ i ∧ i < last) := by omega
            simp [this, hkeep]

theorem bitTest_bitsSet (map : Bitmap) (first last i : Nat)
    : bitTest (bitsSet map first last) i
        =
      (bitTest map i || decide (first ≤ i ∧ i < last)) := by
  apply bitTest_bitsApply (· ||| ·) (BitVec.allOnes 64) (· || ·)
  . intro w m bit _
    exact BitVec.getLsbD_or
  . intro b bit hbit
    rw [BitVec.getLsbD_allOnes]
    simp [hbit]
  . exact Bool.or_false

theorem bitTest_bitsClear (map : Bitmap) (first last i : Nat)
    : bitTest (bitsClear map first last) i
        =
      (bitTest map i && !decide (first ≤ i ∧ i < last)) := by
  apply bitTest_bitsApply (fun w m => w &&& ~~~m) 0#64 (fun b c => b && !c)
  . intro w m bit hbit
    simp [hbit]
  . simp
  . simp

/--
A range is set or cleared as a whole, and no other bit is changed.
-/
theorem bitsSet_bitsClear_exact (map : Bitmap) (first last i : Nat)
    : bitTest (bitsSet map first last) i = (if first ≤ i ∧ i < last then true else bitTest map i)
      ∧ bitTest (bitsClear map first last) i = (if first ≤ i ∧ i < last then false
        else bitTest map i) := by
  rw [bitTest_bitsSet, bitTest_bitsClear]
  split
  next h => simp [h]
  next h => simp [h]

theorem word_eq_iff (map : Bitmap) (w : Nat) {val : BitVec 64} {b : Bool}
    (hval : ∀ bit < 64, val.getLsbD bit = b)
    : map w = val ↔ ∀ (i : Nat), i / 64 = w → bitTest map i = b := by
  constructor
  . intro h i hi
    rw [bitTest, hi, h, hval _ (by omega)]
  . intro h
    apply BitVec.eq_of_getLsbD_eq
    intro bit hbit
    have := h (64 * w + bit) (by omega)
    rw [bitTest, show (64 * w + bit) / 64 = w by omega,
      show (64 * w + bit) % 64 = bit by omega] at this
    rw [this, hval bit hbit]

theorem word_eq_allOnes_iff (map : Bitmap) (w : Nat)
    : map w = BitVec.allOnes 64 ↔ ∀ (i : Nat), i / 64 = w → bitTest map i = true := by
  apply word_eq_iff
  intro bit hbit
  rw [BitVec.getLsbD_allOnes]
  simp [hbit]

theorem word_eq_zero_iff (map : Bitmap) (w : Nat)
    : map w = 0#64 ↔ ∀ (i : Nat), i / 64 = w → bitTest map i = false := by
  apply word_eq_iff
  simp

end PMM
