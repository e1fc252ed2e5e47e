import Skyline.Dev.Basic

/-!
This module contains the reads and writes of partitions and their look-up in the MBR or the GPT.
-/

namespace PartitionManager

open Bytes

structure MbrDpt where
  bootIndicator : Nat
  partitionTypeIndicator : Nat
  startLBA : Nat
  sectorsInPartition : Nat
  startLBA_lt : startLBA < 2 ^ 32
  sectorsInPartition_lt : sectorsInPartition < 2 ^ 32

def MbrDpt.ofRow (m : Row) : MbrDpt where
  bootIndicator := m.word 0 1
  partitionTypeIndicator := m.word 4 1
  startLBA := m.word 8 4
  sectorsInPartition := m.word 12 4
  startLBA_lt := m.word_lt 8 4
  sectorsInPartition_lt := m.word_lt 12 4

def MbrDpt.isGpt (dpt : MbrDpt) : Bool :=
  dpt.partitionTypeIndicator == 0xEE && dpt.bootIndicator == 0

structure GptPte where
  partitionTypeGUID : Nat
  partitionStart : Nat
  partitionEnd : Nat
  partitionStart_lt : partitionStart < 2 ^ 64
  partitionEnd_lt : partitionEnd < 2 ^ 64

def GptPte.ofRow (m : Row) : GptPte where
  partitionTypeGUID := m.word 0 16
  partitionStart := m.word 32 8
  partitionEnd := m.word 40 8
  partitionStart_lt := m.word_lt 32 8
  partitionEnd_lt := m.word_lt 40 8

inductive Entry where
  | mbr (dpt : MbrDpt)
  | gpt (pte : GptPte)

abbrev Drive := Option (Nat → Nat → Option Row)

def findEntry (drive : Drive) (partitionID : Nat) : Except Nat Entry :=
  match drive with
  | none => .error 2
  | some readBytes =>
    match readBytes 0x1BE 16 with
    | none => .error 2
    | some dpt =>
      if (MbrDpt.ofRow dpt).isGpt then
        match readBytes (512 + 80) 4 with
        | none => .error 4
        | some buffer =>
          if buffer.word 0 4 ≤ partitionID then
            .error 4
          else
            match readBytes ((1024 + partitionID * 128) % 2 ^ 32) 128 with
            | none => .error 5
            | some gptpte => .ok (.gpt (.ofRow gptpte))
      else if 4 ≤ partitionID then
        .error 6
      else
        match readBytes ((0x1BE + partitionID * 16) % 2 ^ 32) 16 with
        | none => .error 7
        | some entry => .ok (.mbr (.ofRow entry))

def Entry.start : Entry → Nat
  | .mbr dpt => dpt.startLBA
  | .gpt pte => pte.partitionStart

def Entry.end : Entry → Nat
  | .mbr dpt =>
    if dpt.sectorsInPartition = 0 then 0 else (dpt.startLBA + dpt.sectorsInPartition - 1) % 2 ^ 32
  | .gpt pte => pte.partitionEnd

def getPartitionStart (drive : Drive) (partitionID : Nat) : Except Nat Nat :=
  (findEntry drive partitionID).map Entry.start

def getPartitionEnd (drive : Drive) (partitionID : Nat) : Except Nat Nat :=
  (findEntry drive partitionID).map Entry.end

structure Span where
  lba : Nat
  sectorCount : Nat
  lba_lt : lba < 2 ^ 64
  sectorCount_lt : sectorCount < 2 ^ 32

structure Call where
  way : Dev.Way
  lba : Nat
  sectorCount : Nat
deriving DecidableEq

/--
`mbrgpt.h` declares the getters with their last argument by value and `mbrgpt.cpp` defines them with
a reference. The calls are compiled against the declarations.
-/
inductive Passing where
  | value
  | reference
deriving DecidableEq

def Passing.out (passing : Passing) (old new : Nat) : Nat :=
  match passing with
  | .value => old
  | .reference => new

def request (passing : Passing) (way : Dev.Way) (drive : Drive) (partitionID : Nat) (r : Span)
    : Option Call :=
  match getPartitionStart drive partitionID, getPartitionEnd drive partitionID with
  | .ok start, .ok last =>
    let pStart := passing.out 0 start
    let pEnd := passing.out 0 last
    if (pEnd + 2 ^ 64 - pStart + 1) % 2 ^ 64 < (r.lba + r.sectorCount) % 2 ^ 64 then
      none
    else
      some ⟨way, (pStart + r.lba) % 2 ^ 64, r.sectorCount⟩
  | _, _ => none

def read (passing : Passing) : Drive → Nat → Span → Option Call := request passing .read

def write (passing : Passing) : Drive → Nat → Span → Option Call := request passing .write

def Entry.last : Entry → Nat
  | .mbr dpt => dpt.startLBA + dpt.sectorsInPartition - 1
  | .gpt pte => pte.partitionEnd

def Entry.Used : Entry → Prop
  | .mbr dpt => dpt.partitionTypeIndicator ≠ 0 ∧ dpt.sectorsInPartition ≠ 0
  | .gpt pte =>
    pte.partitionTypeGUID ≠ 0 ∧ pte.partitionStart ≠ 0 ∧ pte.partitionStart ≤ pte.partitionEnd

instance (e : Entry) : Decidable e.Used := by
  cases e <;> exact inferInstanceAs (Decidable (_ ∧ _))

def Entry.size (e : Entry) : Nat := e.last - e.start + 1

def Entry.Fits (e : Entry) (r : Span) : Prop := e.Used ∧ r.lba + r.sectorCount ≤ e.size

def Contained (drive : Drive) (partitionID : Nat) (r : Span) (call : Option Call) : Prop :=
  ∀ (c : Call), call = some c →
    ∃ e, findEntry drive partitionID = .ok e ∧ e.Fits r ∧
      ∀ (i : Nat), i < c.sectorCount → e.start ≤ c.lba + i ∧ c.lba + i ≤ e.last

def Entry.Overflows : Entry → Prop
  | .mbr dpt => 2 ^ 32 ≤ dpt.startLBA + dpt.sectorsInPartition - 1
  | .gpt _ => False

/--
The entry is in use and its last sector has a number of its width, the end of the request has one of
64 bits, and where the getters cannot give back the start the request is not for the first sector
alone.
-/
structure Entry.Sound (e : Entry) (passing : Passing) (r : Span) : Prop where
  used : e.Used
  last : ¬ e.Overflows
  wrap : r.lba + r.sectorCount < 2 ^ 64
  first : passing = .value → e.start = 0 ∨ r.lba ≠ 0 ∨ r.sectorCount ≠ 1

theorem Entry.last_lt (e : Entry) : e.last < 2 ^ 64 := by
  cases e with
  | mbr dpt =>
    have := dpt.startLBA_lt
    have := dpt.sectorsInPartition_lt
    show dpt.startLBA + _ - 1 < _
    omega
  | gpt pte => exact pte.partitionEnd_lt

theorem Entry.Used.start_le {e : Entry} (h : e.Used) : e.start ≤ e.last := by
  cases e with
  | mbr dpt =>
    obtain ⟨_, hsectors⟩ := h
    show dpt.startLBA ≤ dpt.startLBA + dpt.sectorsInPartition - 1
    omega
  | gpt => exact h.2.2

theorem Entry.length_eq {e : Entry} (hused : e.Used) (hsum : ¬ e.Overflows)
    : (e.end + 2 ^ 64 - e.start + 1) % 2 ^ 64 = e.size := by
  have hend : e.end = e.last := by
    cases e with
    | mbr dpt =>
      show (if dpt.sectorsInPartition = 0 then _ else _) = _
      rw [if_neg hused.2, Nat.mod_eq_of_lt]
      . rfl
      . exact Nat.lt_of_not_le hsum
    | gpt => rfl
  have hle := hused.start_le
  have hlt := e.last_lt
  have hsize : e.size < 2 ^ 64 := by
    unfold size
    cases e with
    | mbr dpt =>
      have := dpt.sectorsInPartition_lt
      show dpt.startLBA + dpt.sectorsInPartition - 1 - dpt.startLBA + 1 < _
      omega
    | gpt pte =>
      have hpos := hused.2.1
      show pte.partitionEnd - pte.partitionStart + 1 < _
      have := pte.partitionEnd_lt
      omega
  rw [hend]
  unfold size at *
  omega

theorem Entry.Fits.sectors {e : Entry} {r : Span} (h : e.Fits r) {i : Nat} (hi : i < r.sectorCount)
    : e.start ≤ (e.start + r.lba) % 2 ^ 64 + i ∧ (e.start + r.lba) % 2 ^ 64 + i ≤ e.last := by
  have hle := h.1.start_le
  have hlt := e.last_lt
  have hfit := h.2
  unfold size at hfit
  rw [Nat.mod_eq_of_lt (by omega)]
  omega

/--
A drive with one partition of 4096 sectors from sector 2048 on.
-/
def onePartition : Drive :=
  some fun address _ => some (Row.drop (fun i =>
    if i = 0x1BE + 4 then 0x83 else if i = 0x1BE + 9 then 8 else if i = 0x1BE + 13 then 16 else 0)
    address)

end PartitionManager
