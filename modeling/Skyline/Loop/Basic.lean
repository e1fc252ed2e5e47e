import Mathlib

/-!
This module contains the counting loops of the model and their induction rules.
-/

namespace Loop

variable {σ α ε : Type}

def forRange (body : Nat → σ → σ) (i n : Nat) (s : σ) : σ :=
  match n with
  | 0 => s
  | n + 1 => forRange body (i + 1) n (body i s)

def search (body : Nat → σ → Option α × σ) (i n : Nat) (s : σ) : Option α × σ :=
  match n with
  | 0 => (none, s)
  | n + 1 =>
    match body i s with
    | (some a, s) => (some a, s)
    | (none, s) => search body (i + 1) n s

def whileDo (body : σ → σ × Bool) (fuel : Nat) (s : σ) : σ :=
  match fuel with
  | 0 => s
  | fuel + 1 =>
    match body s with
    | (s, true) => whileDo body fuel s
    | (s, false) => s

def whileDoE (body : σ → Except ε (σ × Bool)) (fuel : Nat) (s : σ) : Except ε σ :=
  match fuel with
  | 0 => .ok s
  | fuel + 1 =>
    match body s with
    | .error e => .error e
    | .ok (s, true) => whileDoE body fuel s
    | .ok (s, false) => .ok s

theorem forRange_induct (body : Nat → σ → σ) (inv : Nat → σ → Prop) (i n : Nat) (s : σ)
    (hinit : inv i s)
    (hstep : ∀ (j : Nat) (s : σ), i ≤ j → j < i + n → inv j s → inv (j + 1) (body j s))
    : inv (i + n) (forRange body i n s) := by
  induction n generalizing i s with
  | zero => exact hinit
  | succ n ih =>
    have := ih (i + 1) (body i s) (hstep i s (by omega) (by omega) hinit) ?_
    . rw [show i + (n + 1) = i + 1 + n by omega]
      exact this
    . intro j s h1 h2 h3
      exact hstep j s (by omega) (by omega) h3

def Outcome (inv : σ → Prop) (found : α → σ → Prop) (res : Option α × σ) : Prop :=
  match res with
  | (some a, s) => found a s
  | (none, s) => inv s

theorem search_induct (body : Nat → σ → Option α × σ) (inv : σ → Prop) (found : α → σ → Prop)
    (i n : Nat) (s : σ) (hinit : inv s)
    (hstep : ∀ (j : Nat) (s : σ), i ≤ j → j < i + n → inv s → Outcome inv found (body j s))
    : Outcome inv found (search body i n s) := by
  induction n generalizing i s with
  | zero => exact hinit
  | succ _ ih =>
    have hbody := hstep i s (by omega) (by omega) hinit
    simp only [search]
    generalize body i s = res at hbody
    match res with
    | (some a, s) => exact hbody
    | (none, s) =>
      apply ih (i + 1) s hbody
      intro j s h1 h2 h3
      exact hstep j s (by omega) (by omega) h3

section

variable (body : Nat → σ → Option α × σ) (i n : Nat) (s : σ)
  (hsame : ∀ (j : Nat), i ≤ j → j < i + n → (body j s).1 = none → (body j s).2 = s)
include body i n s hsame

theorem search_eq_none_iff
    : (search body i n s).1 = none ↔ ∀ (j : Nat), i ≤ j → j < i + n → (body j s).1 = none := by
  induction n generalizing i with
  | zero => exact iff_of_true rfl fun j h1 h2 => absurd h2 (by omega)
  | succ _ ih =>
    have hbody := hsame i (by omega) (by omega)
    have hrest := ih (i + 1) fun j h1 h2 => hsame j (by omega) (by omega)
    simp only [search]
    generalize hres : body i s = res at hbody
    match res with
    | (some a, t) =>
      refine iff_of_false nofun fun h => ?_
      have := h i (by omega) (by omega)
      rw [hres] at this
      cases this
    | (none, t) =>
      have ht : t = s := hbody rfl
      rw [ht, hrest]
      constructor
      . intro h j h1 h2
        rcases Nat.eq_or_lt_of_le h1 with heq | hlt
        . rw [← heq, hres]
        . exact h j hlt (by omega)
      . intro h j h1 h2
        exact h j (by omega) (by omega)

theorem search_state_of_none
    (h : (search body i n s).1 = none)
    : (search body i n s).2 = s := by
  induction n generalizing i with
  | zero => rfl
  | succ _ ih =>
    have hbody := hsame i (by omega) (by omega)
    have hrest := ih (i + 1) fun j h1 h2 => hsame j (by omega) (by omega)
    simp only [search] at h ⊢
    generalize body i s = res at hbody h
    match res with
    | (some a, t) => cases h
    | (none, t) =>
      have ht : t = s := hbody rfl
      subst ht
      exact hrest h

end

theorem whileDo_induct (body : σ → σ × Bool) (inv post : σ → Prop) (rest : σ → Nat) (fuel : Nat)
    (s : σ) (hinit : inv s) (hfuel : rest s < fuel)
    (hmore : ∀ (s t : σ), inv s → body s = (t, true) → inv t ∧ rest t < rest s)
    (hdone : ∀ (s t : σ), inv s → body s = (t, false) → post t)
    : post (whileDo body fuel s) := by
  induction fuel generalizing s with
  | zero => omega
  | succ _ ih =>
    simp only [whileDo]
    split
    . next t ht =>
      have := hmore s t hinit ht
      exact ih t this.left (by omega)
    . next t ht => exact hdone s t hinit ht

theorem forRange_keeps (body : Nat → σ → σ) (inv : σ → Prop) (i n : Nat) (s : σ) (hinit : inv s)
    (hstep : ∀ (j : Nat) (s : σ), inv s → inv (body j s))
    : inv (forRange body i n s) :=
  forRange_induct body (fun _ => inv) i n s hinit fun j s _ _ => hstep j s

theorem whileDo_keeps (body : σ → σ × Bool) (inv : σ → Prop) (fuel : Nat) (s : σ) (hinit : inv s)
    (hstep : ∀ (s : σ), inv s → inv (body s).1)
    : inv (whileDo body fuel s) := by
  induction fuel generalizing s with
  | zero => exact hinit
  | succ _ ih =>
    have hs := hstep s hinit
    simp only [whileDo]
    split
    . next t ht =>
      rw [ht] at hs
      exact ih t hs
    . next t ht =>
      rw [ht] at hs
      exact hs

theorem whileDoE_keeps (body : σ → Except ε (σ × Bool)) (inv : σ → Prop) (fuel : Nat) (s s' : σ)
    (hrun : whileDoE body fuel s = .ok s') (hinit : inv s)
    (hstep : ∀ (s t : σ) (more : Bool), inv s → body s = .ok (t, more) → inv t)
    : inv s' := by
  induction fuel generalizing s with
  | zero =>
    simp only [whileDoE, Except.ok.injEq] at hrun
    rw [← hrun]
    exact hinit
  | succ _ ih =>
    simp only [whileDoE] at hrun
    split at hrun
    . contradiction
    . next t ht => exact ih t hrun (hstep s t true hinit ht)
    . next t ht =>
      simp only [Except.ok.injEq] at hrun
      rw [← hrun]
      exact hstep s t false hinit ht

open Function

variable {κ α : Type} [DecidableEq κ]

def modify (key : Nat → κ) (change : Nat → α → α) (i n : Nat) (f : κ → α) : κ → α :=
  forRange (fun j f => update f (key j) (change j (f (key j)))) i n f

theorem modify_other (key : Nat → κ) (change : Nat → α → α) (i n : Nat) (f : κ → α) (k : κ)
    (hk : ∀ j, i ≤ j → j < i + n → key j ≠ k)
    : modify key change i n f k = f k := by
  refine forRange_induct _ (fun _ (g : κ → α) => g k = f k) i n f rfl ?_
  intro j g h1 h2 hg
  rw [update_of_ne (hk j h1 h2).symm, hg]

theorem modify_key (key : Nat → κ) (change : Nat → α → α) (hinj : Function.Injective key)
    (i n : Nat) (f : κ → α) {j : Nat} (h1 : i ≤ j) (h2 : j < i + n)
    : modify key change i n f (key j) = change j (f (key j)) := by
  induction n generalizing i f with
  | zero => omega
  | succ n ih =>
    have hrun : modify key change i (n + 1) f =
        modify key change (i + 1) n (update f (key i) (change i (f (key i)))) := rfl
    rw [hrun]
    rcases Nat.eq_or_lt_of_le h1 with heq | hlt
    . rw [← heq, modify_other, update_self]
      intro j' h3 _ hkey
      have := hinj hkey
      omega
    . rw [ih (i + 1) _ hlt (by omega), update_of_ne]
      intro hkey
      have := hinj hkey
      omega

theorem forRange_skip (key : Nat → κ) (skip : Nat → Prop) [DecidablePred skip]
    (change : Nat → α → α) (i n : Nat) (f : κ → α)
    : forRange (fun j f => if skip j then f else update f (key j) (change j (f (key j)))) i n f =
      modify key (fun j a => if skip j then a else change j a) i n f := by
  unfold modify
  congr 1
  funext j f
  dsimp only
  split
  next => rw [update_eq_self]
  next => rfl

theorem modify_row (change : Nat → α → α) (n : Nat) (f : Int → α) (d x : Int)
    : modify (fun j => d + (j : Int)) change 0 n f x =
      if d ≤ x ∧ x < d + n then change (x - d).toNat (f x) else f x := by
  have hinj : Function.Injective fun j : Nat => d + (j : Int) := by
    intro a b hab
    dsimp only at hab
    omega
  split
  next h =>
    have hx : d + ((x - d).toNat : Int) = x := by omega
    have := modify_key (fun j : Nat => d + (j : Int)) change hinj 0 n f (j := (x - d).toNat)
      (Nat.zero_le _) (by omega)
    rw [hx] at this
    exact this
  next h =>
    apply modify_other
    intro j _ hj
    omega

end Loop
