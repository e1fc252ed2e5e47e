import Skyline.Loop.Basic

/-!
This module contains the command that `Port::Read` and `Port::Write` build for a transfer.
-/

namespace AHCI

open Function

structure PrdtEntry where
  dataBaseAddress : Nat
  dataBaseAddressUpper : Nat
  byteCount : Nat
  interruptOnCompletion : Bool

structure Fis where
  fisType : Nat
  commandControl : Bool
  command : Nat
  lba0 : Nat
  lba1 : Nat
  lba2 : Nat
  lba3 : Nat
  lba4 : Nat
  lba5 : Nat
  deviceRegister : Nat
  countLow : Nat
  countHigh : Nat

structure Command where
  write : Bool
  prdtLength : Nat
  prdtEntry : Nat → PrdtEntry
  fis : Fis
  writes : List (Nat × Nat)

def PrdtEntry.of (buffer byteCount : Nat) : PrdtEntry :=
  ⟨buffer % 2 ^ 32, buffer / 2 ^ 32 % 2 ^ 32, byteCount % 2 ^ 22, true⟩

structure Filling where
  buffer : Nat
  prdtEntry : Nat → PrdtEntry
  writes : List (Nat × Nat)

def Filling.put (f : Filling) (i byteCount : Nat) : Filling :=
  { f with
    prdtEntry := update f.prdtEntry i (.of f.buffer byteCount)
    writes := (128 + 16 * i, 16) :: f.writes }

def Filling.putFull (i : Nat) (f : Filling) : Filling :=
  { f.put i (0x2000 - 1) with buffer := (f.buffer + 0x2000) % 2 ^ 64 }

def Fis.of (command sector sectorCount : Nat) : Fis where
  fisType := 0x27
  commandControl := true
  command
  lba0 := sector % 2 ^ 8
  lba1 := sector / 2 ^ 8 % 2 ^ 8
  lba2 := sector / 2 ^ 16 % 2 ^ 8
  lba3 := sector / 2 ^ 24 % 2 ^ 8
  lba4 := sector / 2 ^ 32 % 2 ^ 8
  lba5 := sector / 2 ^ 40 % 2 ^ 8
  deviceRegister := 2 ^ 6
  countLow := sectorCount % 2 ^ 8
  countHigh := sectorCount / 2 ^ 8 % 2 ^ 8

def buildCommand (write : Bool) (command sector sectorCount buffer : Nat) (old : Nat → PrdtEntry)
    : Option Command :=
  if sectorCount > 248 * 16 then
    none
  else
    let prdtLength := (sectorCount / 16 + 1) % 2 ^ 16
    let n := prdtLength - 1
    -- the memory of the last entry is not cleared
    let cleared := fun i => if i < n then ⟨0, 0, 0, false⟩ else old i
    let f := Loop.forRange Filling.putFull 0 n ⟨buffer, cleared, [(0, 128 + n * 16)]⟩
    let f := f.put n ((if sectorCount % 16 ≠ 0 then sectorCount % 16 else 16) * 512 - 1)
    some ⟨write, prdtLength, f.prdtEntry, .of command sector sectorCount, (0, 20) :: f.writes⟩

def portRead (sector sectorCount buffer : Nat) (old : Nat → PrdtEntry) : Option Command :=
  buildCommand false 0x25 sector sectorCount buffer old

def portWrite (sector sectorCount buffer : Nat) (old : Nat → PrdtEntry) : Option Command :=
  buildCommand true 0x35 sector sectorCount buffer old

def PrdtEntry.bytes (e : PrdtEntry) : List Nat :=
  (List.range (e.byteCount + 1)).map
    fun k => (e.dataBaseAddressUpper * 2 ^ 32 + e.dataBaseAddress + k) % 2 ^ 64

def Command.bytes (c : Command) : List Nat :=
  (List.range c.prdtLength).flatMap fun i => (c.prdtEntry i).bytes

def Fis.lba (fis : Fis) : Nat :=
  fis.lba0 + 2 ^ 8 * fis.lba1 + 2 ^ 16 * fis.lba2 + 2 ^ 24 * fis.lba3 + 2 ^ 32 * fis.lba4
    + 2 ^ 40 * fis.lba5

/--
The announced entries give the bytes of the buffer in order and none of them twice.
-/
structure Describes (c : Command) (sector sectorCount buffer : Nat) : Prop where
  covers : c.bytes = (List.range (512 * sectorCount)).map fun k => (buffer + k) % 2 ^ 64
  disjoint : c.bytes.Nodup
  lba : c.fis.lba = sector
  count : c.fis.countLow + 2 ^ 8 * c.fis.countHigh = sectorCount
  inside : ∀ w ∈ c.writes, w.1 + w.2 ≤ 4096

theorem bytes_of (a k : Nat) {byteCount : Nat} (h : byteCount < 2 ^ 22)
    : (PrdtEntry.of ((a + k) % 2 ^ 64) byteCount).bytes =
      (List.range (byteCount + 1)).map fun j => (a + (k + j)) % 2 ^ 64 := by
  unfold PrdtEntry.bytes PrdtEntry.of
  dsimp only
  rw [Nat.mod_eq_of_lt h]
  apply List.map_congr_left
  intro j _
  omega

structure Filled (buffer : Nat) (writes : List (Nat × Nat)) (n : Nat) (f : Filling) : Prop where
  buffer_eq : f.buffer % 2 ^ 64 = (buffer + 0x2000 * n) % 2 ^ 64
  entry : ∀ i < n, f.prdtEntry i = .of ((buffer + 0x2000 * i) % 2 ^ 64) (0x2000 - 1)
  written : ∀ w ∈ f.writes, w ∈ writes ∨ ∃ i < n, w = (128 + 16 * i, 16)

theorem of_mod (a byteCount : Nat) : PrdtEntry.of (a % 2 ^ 64) byteCount = .of a byteCount := by
  unfold PrdtEntry.of
  congr 1 <;> omega

theorem Filled.put {buffer n : Nat} {writes : List (Nat × Nat)} {f : Filling}
    (h : Filled buffer writes n f) (byteCount : Nat)
    : (∀ i < n, (f.put n byteCount).prdtEntry i = .of ((buffer + 0x2000 * i) % 2 ^ 64) (0x2000 - 1))
      ∧ (f.put n byteCount).prdtEntry n = .of ((buffer + 0x2000 * n) % 2 ^ 64) byteCount
      ∧ ∀ w ∈ (f.put n byteCount).writes, w ∈ writes ∨ ∃ i < n + 1, w = (128 + 16 * i, 16) := by
  refine ⟨fun i hi => ?_, ?_, fun w hw => ?_⟩
  . exact (update_of_ne (Nat.ne_of_lt hi) ..).trans (h.entry i hi)
  . rw [← h.buffer_eq, of_mod]
    exact update_self ..
  . rcases List.mem_cons.mp hw with rfl | hw
    . exact .inr ⟨n, by omega, rfl⟩
    . exact (h.written w hw).imp_right fun ⟨i, hi, heq⟩ => ⟨i, by omega, heq⟩

theorem filled_forRange (buffer : Nat) (old : Nat → PrdtEntry) (writes : List (Nat × Nat)) (n : Nat)
    : Filled buffer writes n (Loop.forRange Filling.putFull 0 n ⟨buffer, old, writes⟩) := by
  have := Loop.forRange_induct Filling.putFull (Filled buffer writes) 0 n ⟨buffer, old, writes⟩
    ⟨rfl, fun i hi => absurd hi (Nat.not_lt_zero i), fun w hw => .inl hw⟩ ?_
  . rwa [Nat.zero_add] at this
  . intro j f _ _ h
    obtain ⟨hentry, hlast, hwritten⟩ := h.put (0x2000 - 1)
    refine ⟨?_, fun i hi => ?_, hwritten⟩
    . have := h.buffer_eq
      show (f.buffer + 0x2000) % 2 ^ 64 % 2 ^ 64 = _
      omega
    . rcases Nat.lt_succ_iff_lt_or_eq.mp hi with hi | rfl
      . exact hentry i hi
      . exact hlast

theorem range_flatMap {α : Type} (g : Nat → α) (k n : Nat)
    : (List.range n).flatMap (fun i => (List.range k).map fun j => g (k * i + j)) =
      (List.range (k * n)).map g := by
  induction n with
  | zero => rfl
  | succ _ ih =>
    rw [List.range_succ, List.flatMap_append, ih, Nat.mul_succ, List.range_add,
      List.map_append, List.map_map]
    simp [comp_def]

theorem nodup_addresses (buffer : Nat) {n : Nat} (hn : n ≤ 2 ^ 64)
    : ((List.range n).map fun k => (buffer + k) % 2 ^ 64).Nodup := by
  apply (List.nodup_map_iff_inj_on List.nodup_range).mpr
  intro j hj k hk heq
  rw [List.mem_range] at hj hk
  omega

theorem buildCommand_describes_iff (write : Bool) (command buffer : Nat) (old : Nat → PrdtEntry)
    {sector sectorCount : Nat} (hsector : sector < 2 ^ 48) (hcount : sectorCount ≤ 248 * 16)
    : (∃ c, buildCommand write command sector sectorCount buffer old = some c
        ∧ Describes c sector sectorCount buffer) ↔ sectorCount % 16 ≠ 0 := by
  unfold buildCommand
  rw [if_neg (Nat.not_lt.mpr hcount),
    show (sectorCount / 16 + 1) % 2 ^ 16 = sectorCount / 16 + 1 by omega]
  simp only [Nat.add_sub_cancel, Option.some.injEq, exists_eq_left']
  generalize hn : sectorCount / 16 = n
  generalize hlastCount : (if sectorCount % 16 ≠ 0 then sectorCount % 16 else 16) = last
  obtain ⟨hentry, hlast, hwritten⟩ := (filled_forRange buffer
    (fun i => if i < n then ⟨0, 0, 0, false⟩ else old i) [(0, 128 + n * 16)] n).put (last * 512 - 1)
  generalize (Loop.forRange Filling.putFull 0 n _).put n (last * 512 - 1)
    = f at hentry hlast hwritten ⊢
  have hrange : 1 ≤ last ∧ last ≤ 16 := by
    split at hlastCount <;> omega
  -- the full entries and the last one
  have hbytes : (List.range (n + 1)).flatMap (fun i => (f.prdtEntry i).bytes)
      = (List.range (0x2000 * n + 512 * last)).map fun k => (buffer + k) % 2 ^ 64 := by
    rw [List.range_succ, List.flatMap_append, List.flatMap_singleton, hlast,
      bytes_of _ _ (by omega),
      show last * 512 - 1 + 1 = 512 * last by omega, List.range_add, List.map_append, List.map_map]
    congr 1
    rw [← range_flatMap]
    apply List.flatMap_congr
    intro i hi
    rw [hentry i (List.mem_range.mp hi), bytes_of _ _ (by omega)]
  constructor
  . intro h hmod
    have hcovers := congrArg List.length (hbytes.symm.trans h.covers)
    rw [List.length_map, List.length_map, List.length_range, List.length_range] at hcovers
    rw [if_neg (not_not.mpr hmod)] at hlastCount
    omega
  . intro hmod
    rw [if_pos hmod] at hlastCount
    rw [show 0x2000 * n + 512 * last = 512 * sectorCount by omega] at hbytes
    refine ⟨hbytes, ?_, ?_, ?_, fun w hw => ?_⟩
    . show List.Nodup (List.flatMap _ _)
      rw [hbytes]
      exact nodup_addresses buffer (by omega)
    . dsimp only [Fis.lba, Fis.of]
      omega
    . dsimp only [Fis.of]
      omega
    . rcases List.mem_cons.mp hw with rfl | hw
      . decide
      . rcases hwritten w hw with hw | ⟨i, hi, rfl⟩
        . obtain rfl := List.mem_singleton.mp hw
          dsimp only
          omega
        . dsimp only
          omega

/--
The commands that `Port::Read` and `Port::Write` build describe the transfer if and only if the
number of sectors is not a multiple of 16.
-/
theorem command_exact_iff (sector sectorCount buffer : Nat) (old : Nat → PrdtEntry)
    (hsector : sector < 2 ^ 48) (hcount : sectorCount ≤ 248 * 16)
    : ((∃ c, portRead sector sectorCount buffer old = some c
      ∧ Describes c sector sectorCount buffer)
        ↔ sectorCount % 16 ≠ 0)
      ∧ ((∃ c, portWrite sector sectorCount buffer old = some c
        ∧ Describes c sector sectorCount buffer)
        ↔ sectorCount % 16 ≠ 0) := by
  constructor
  . exact buildCommand_describes_iff false 0x25 buffer old hsector hcount
  . exact buildCommand_describes_iff true 0x35 buffer old hsector hcount

theorem command_exact_seventeenSectors
    : ∃ c, portRead 5 17 0x1000 (fun _ => ⟨0, 0, 0, false⟩) = some c ∧ Describes c 5 17 0x1000 := by
  have hexact := command_exact_iff 5 17 0x1000 (fun _ => ⟨0, 0, 0, false⟩) (by decide) (by decide)
  exact hexact.1.mpr (by decide)

/--
For 16 sectors two entries of 8 KiB are announced.
-/
theorem command_sixteenSectors
    : (portRead 0 16 0x1000 fun _ => ⟨0, 0, 0, false⟩).any (fun c => c.prdtLength = 2
        ∧ (c.prdtEntry 0).byteCount = 0x1FFF ∧ (c.prdtEntry 1).byteCount = 0x1FFF)
      ∧ ¬∃ c, portRead 0 16 0x1000 (fun _ => ⟨0, 0, 0, false⟩) = some c
        ∧ Describes c 0 16 0x1000 := by
  refine ⟨by decide, fun h => ?_⟩
  exact (buildCommand_describes_iff false 0x25 0x1000 _ (by decide) (by decide)).mp h rfl

end AHCI
