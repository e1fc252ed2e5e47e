import Skyline.Dev.Lemmas

/-!
This module contains when the byte access to block devices is right.
-/

namespace Dev

inductive Access where
  | readBytes
  | writeBytes
  | deviceRead
  | deviceWrite
  | sataReadBytes
  | sataWriteBytes
deriving DecidableEq

def Access.way : Access → Way
  | .readBytes | .deviceRead | .sataReadBytes => .read
  | .writeBytes | .deviceWrite | .sataWriteBytes => .write

def Access.width : Access → Nat
  | .readBytes | .writeBytes => 32
  | _ => 64

structure Request (f : Access) where
  address : Nat
  count : Nat
  buf : Nat
  alloc : Bool
  address_lt : address < 2 ^ 64
  count_lt : count < 2 ^ f.width

variable (d : Device)

def Access.run (f : Access) (r : Request f) : World → Outcome :=
  match f with
  | .readBytes => Dev.readBytes d r.alloc r.address r.count r.buf
  | .writeBytes => Dev.writeBytes d r.alloc r.address r.count r.buf
  | .deviceRead => Dev.deviceRead d r.alloc r.address r.count r.buf
  | .deviceWrite => Dev.deviceWrite d r.alloc r.address r.count r.buf
  | .sataReadBytes => Dev.sataReadBytes d r.alloc r.address r.count r.buf
  | .sataWriteBytes => Dev.sataWriteBytes d r.alloc r.address r.count r.buf

def Request.Inside {f : Access} (r : Request f) : Prop := d.Inside r.address r.count

/--
Whether the request goes to the byte operations of the SATA driver.
-/
def Access.sata : Access → Bool
  | .readBytes | .deviceRead => d.ops.readBytes
  | .writeBytes | .deviceWrite => d.ops.writeBytes
  | .sataReadBytes | .sataWriteBytes => true

def Access.unknown : Access → Bool
  | .deviceRead => d.ops.readBytes_
  | .deviceWrite => d.ops.writeBytes_
  | _ => false

/--
`DeviceRead` takes the sector operation of one kind only if there is none of the other kind, and
`DeviceWrite` takes those of one kind only if there is `Read` of the other.
-/
def Access.usable : Access → Bool
  | .readBytes => !d.undefined && (d.ops.readBytes || d.ops.read)
  | .writeBytes => !d.undefined && (d.ops.writeBytes || d.ops.read && d.ops.write)
  | .deviceRead => d.ops.readBytes || (d.ops.read ^^ d.ops.read_)
  | .deviceWrite => d.ops.writeBytes || d.ops.read_ && d.ops.read && d.ops.write
  | .sataReadBytes | .sataWriteBytes => true

def Request.Room {f : Access} (r : Request f) : Prop :=
  match f.way with
  | .read => sectorsOf r.address r.count * 512 < 2 ^ 32
  | .write =>
    sectorsOf r.address r.count = 1
    ∨ sectorsOf r.address r.count ≤ 2 ^ 32 ∧ (r.address + r.count) / 512 < d.maxSectorCount

structure HoldsWhen (f : Access) (r : Request f) : Prop where
  size : d.maxSectorCount * 512 < 2 ^ (if f.sata d then 32 else 64)
  known : f.sata d = false → f.unknown d = false
  count : f.sata d = true → f = .deviceRead ∨ f = .deviceWrite → r.count < 2 ^ 32
  wrap : f.sata d = false → f = .readBytes ∨ f = .writeBytes → r.address + r.count ≤ 2 ^ 64
  usable : r.Inside d → f.usable d = true
  room : r.Inside d → r.count ≠ 0 → r.alloc = true ∧ r.Room d

variable {d}

variable {bytes address count buf : Nat} {alloc : Bool}

theorem beyond_iff : beyond bytes address count = true ↔ bytes < address + count := by
  simp only [beyond, Bool.or_eq_true, decide_eq_true_iff]
  omega

theorem beyond_iff_not_inside (hsize : bytes = d.maxSectorCount * 512) (hc : count ≠ 0)
    : beyond bytes address count = true ↔ ¬ d.Inside address count := by
  rw [beyond_iff, Device.Inside]
  omega

theorem pastEnd_iff (hsize : d.maxSectorCount * 512 < 2 ^ 64) (hwrap : address + count ≤ 2 ^ 64)
    (hc : count ≠ 0)
    : pastEnd d address count = true ↔ ¬ d.Inside address count := by
  rw [pastEnd, decide_eq_true_iff, Device.Inside]
  omega

section Sata

variable (hsize : d.maxSectorCount * 512 < 2 ^ 32)
include hsize

theorem sataBytes_eq : sataBytes d = d.maxSectorCount * 512 := by
  unfold sataBytes
  omega

theorem sataLast_eq_false (hc : count ≠ 0) (hin : d.Inside address count)
    : sataLast d address count = false := by
  have hlba := (lba_add_sectorsOf hc).mpr hin
  have ha : address < 2 ^ 64 := by
    unfold Device.Inside at hin
    omega
  rw [sataLast, tempSectorCount_eq ha, decide_eq_false_iff_not]
  omega

theorem exact_sataReadBytes (hroom : d.Inside address count → count ≠ 0 → alloc = true)
    : Exact d .read address count buf (sataReadBytes d alloc address count buf) := by
  apply exact_guard
  . intro hc
    exact beyond_iff_not_inside (sataBytes_eq hsize) hc
  . intro hc hin
    have hlba := (lba_add_sectorsOf hc).mpr hin
    have ha : address < 2 ^ 64 := by
      unfold Device.Inside at hin
      omega
    have hle : sectorsOf address count ≤ d.maxSectorCount :=
      Nat.le_trans (Nat.le_add_left _ _) hlba
    have hfit : sectorsOf address count * 512 < 2 ^ 32 :=
      Nat.lt_of_le_of_lt (Nat.mul_le_mul_right 512 hle) hsize
    simp only [sataLast_eq_false hsize hc hin, Bool.false_eq_true, if_false, hroom hin hc]
    exact exact_readSpan ha hc hin hfit fun w => ⟨w, rfl⟩

theorem exact_sataWriteBytes
    (hroom : d.Inside address count → count ≠ 0 → alloc = true
      ∧ (sectorsOf address count = 1
        ∨ sectorsOf address count ≤ 2 ^ 32 ∧ (address + count) / 512 < d.maxSectorCount))
    : Exact d .write address count buf (sataWriteBytes d alloc address count buf) := by
  apply exact_guard
  . intro hc
    exact beyond_iff_not_inside (sataBytes_eq hsize) hc
  . intro hc hin
    obtain ⟨halloc, hroom⟩ := hroom hin hc
    have hend : address + count < 2 ^ 64 := by
      unfold Device.Inside at hin
      omega
    simp only [sataLast_eq_false hsize hc hin, Bool.false_eq_true, if_false, halloc]
    exact exact_writeSpan hend hc hin hroom

end Sata

section Span

variable (hsize : d.maxSectorCount * 512 < 2 ^ 64)
include hsize

theorem exact_deviceReadSpan {read : Bool} (hread : d.Inside address count → read = true)
    (hroom : d.Inside address count → count ≠ 0
      → alloc = true ∧ sectorsOf address count * 512 < 2 ^ 32)
    : Exact d .read address count buf (deviceReadSpan d read alloc address count buf) := by
  apply exact_guard
  . intro hc
    exact beyond_iff_not_inside (Nat.mod_eq_of_lt hsize) hc
  . intro hc hin
    obtain ⟨halloc, hfit⟩ := hroom hin hc
    have ha : address < 2 ^ 64 := by
      unfold Device.Inside at hin
      omega
    have hle := offset_add_le address count
    rw [halloc, hread hin]
    apply exact_readSpan ha hc hin hfit
    intro w
    rw [tempSectorCount_eq ha, if_neg (by omega)]
    exact ⟨_, rfl⟩

theorem exact_deviceWriteSpan {read write : Bool}
    (hops : d.Inside address count → read = true ∧ write = true)
    (hroom : d.Inside address count → count ≠ 0 → alloc = true
      ∧ (sectorsOf address count = 1
        ∨ sectorsOf address count ≤ 2 ^ 32 ∧ (address + count) / 512 < d.maxSectorCount))
    : Exact d .write address count buf (deviceWriteSpan d read write alloc address count buf) := by
  apply exact_guard
  . intro hc
    exact beyond_iff_not_inside (Nat.mod_eq_of_lt hsize) hc
  . intro hc hin
    obtain ⟨halloc, hroom⟩ := hroom hin hc
    have hend : address + count < 2 ^ 64 := by
      unfold Device.Inside at hin
      omega
    rw [halloc, (hops hin).1, (hops hin).2]
    exact exact_writeSpan hend hc hin hroom

end Span

theorem exact_refuse {way : Way} (hout : ¬ d.Inside address count)
    : Exact d way address count buf (fun w => .ok (false, w)) :=
  fun _ => meets_refused hout ⟨rfl, rfl⟩

theorem HoldsWhen.readBytes {r : Request .readBytes} (h : HoldsWhen d .readBytes r)
    : Exact d .read r.address r.count r.buf (readBytes d r.alloc r.address r.count r.buf) := by
  obtain ⟨hsize, -, -, hwrap, husable, hroom⟩ := h
  simp only [Access.sata, Access.usable, Bool.and_eq_true, Bool.not_eq_true', Bool.or_eq_true]
    at hsize hwrap husable
  unfold Dev.readBytes
  cases hundef : d.undefined with
  | true => exact exact_refuse fun hin => by simp [hundef] at husable; exact husable hin
  | false =>
    simp only [Bool.false_eq_true, if_false]
    cases hown : d.ops.readBytes with
    | true =>
      simp only [hown, if_true] at hsize ⊢
      exact exact_sataReadBytes hsize fun hin hc => (hroom hin hc).1
    | false =>
      simp only [hown, Bool.false_eq_true, if_false, false_or] at hsize husable ⊢
      apply exact_guard
      . exact pastEnd_iff hsize (hwrap hown (.inl trivial))
      . intro hc hin
        obtain ⟨halloc, hfit⟩ := hroom hin hc
        rw [(husable hin).2, halloc]
        exact exact_readSpan r.address_lt hc hin hfit fun w => ⟨w, rfl⟩

theorem HoldsWhen.writeBytes {r : Request .writeBytes} (h : HoldsWhen d .writeBytes r)
    : Exact d .write r.address r.count r.buf (writeBytes d r.alloc r.address r.count r.buf) := by
  obtain ⟨hsize, -, -, hwrap, husable, hroom⟩ := h
  simp only [Access.sata, Access.usable, Bool.and_eq_true, Bool.not_eq_true', Bool.or_eq_true]
    at hsize hwrap husable
  unfold Dev.writeBytes
  cases hundef : d.undefined with
  | true => exact exact_refuse fun hin => by simp [hundef] at husable; exact husable hin
  | false =>
    simp only [Bool.false_eq_true, if_false]
    cases hown : d.ops.writeBytes with
    | true =>
      simp only [hown, if_true] at hsize ⊢
      exact exact_sataWriteBytes hsize hroom
    | false =>
      simp only [hown, Bool.false_eq_true, if_false, false_or] at hsize husable ⊢
      apply exact_guard
      . exact pastEnd_iff hsize (hwrap hown (.inr trivial))
      . intro hc hin
        obtain ⟨halloc, hfit⟩ := hroom hin hc
        have hend : r.address + r.count < 2 ^ 64 := by
          unfold Request.Inside Device.Inside at *
          omega
        rw [(husable hin).2.1, (husable hin).2.2, halloc]
        exact exact_writeSpan hend hc hin hfit

theorem HoldsWhen.deviceRead {r : Request .deviceRead} (h : HoldsWhen d .deviceRead r)
    : Exact d .read r.address r.count r.buf (deviceRead d r.alloc r.address r.count r.buf) := by
  obtain ⟨hsize, hknown, hcount, -, husable, hroom⟩ := h
  simp only [Access.sata, Access.unknown, Access.usable] at hsize hknown hcount husable
  unfold Dev.deviceRead
  cases hown : d.ops.readBytes with
  | true =>
    simp only [hown, if_true] at hsize ⊢
    rw [Nat.mod_eq_of_lt (hcount hown (.inl trivial))]
    exact exact_sataReadBytes hsize fun hin hc => (hroom hin hc).1
  | false =>
    simp only [hown, Bool.false_eq_true, if_false, hknown hown, Bool.false_or] at hsize husable ⊢
    cases hread : d.ops.read with
    | false =>
      simp only [hread, Bool.false_xor] at husable
      exact exact_deviceReadSpan hsize husable hroom
    | true =>
      cases hread_ : d.ops.read_ with
      | false => exact exact_deviceReadSpan hsize (fun _ => rfl) hroom
      | true => exact exact_refuse fun hin => by simp [hread, hread_] at husable; exact husable hin

theorem HoldsWhen.deviceWrite {r : Request .deviceWrite} (h : HoldsWhen d .deviceWrite r)
    : Exact d .write r.address r.count r.buf (deviceWrite d r.alloc r.address r.count r.buf) := by
  obtain ⟨hsize, hknown, hcount, -, husable, hroom⟩ := h
  simp only [Access.sata, Access.unknown, Access.usable] at hsize hknown hcount husable
  unfold Dev.deviceWrite
  cases hown : d.ops.writeBytes with
  | true =>
    simp only [hown, if_true] at hsize ⊢
    rw [Nat.mod_eq_of_lt (hcount hown (.inr trivial))]
    exact exact_sataWriteBytes hsize hroom
  | false =>
    simp only [hown, Bool.false_eq_true, if_false, hknown hown, Bool.false_or, Bool.and_eq_true]
      at hsize husable ⊢
    cases hread_ : d.ops.read_ with
    | true =>
      exact exact_deviceWriteSpan hsize (fun hin => ⟨(husable hin).1.2, (husable hin).2⟩) hroom
    | false =>
      have hout : ¬ r.Inside d := fun hin => by
        have := (husable hin).1.1
        simp [hread_] at this
      cases d.ops.read with
      | true =>
        exact exact_deviceWriteSpan hsize (fun hin => absurd hin hout) fun hin => absurd hin hout
      | false => exact exact_refuse hout

def fourSectors : Device where
  undefined := false
  ops := ⟨true, true, false, false, false, false, false, false⟩
  maxSectorCount := 4
  maxSectorCount_lt := by decide

def fourSectorsSata : Device where
  undefined := false
  ops := ⟨true, true, false, false, true, true, false, false⟩
  maxSectorCount := 4
  maxSectorCount_lt := by decide

def crossing : Request .writeBytes where
  address := 500
  count := 1000
  buf := 0
  alloc := true
  address_lt := by decide
  count_lt := by decide

def fourGiB : Device where
  undefined := false
  ops := ⟨true, true, false, false, true, true, false, false⟩
  maxSectorCount := 2 ^ 23
  maxSectorCount_lt := by decide

def zeros : World where
  disk := fun _ => 0
  mem := fun _ => 0
  answers := fun _ => true
  calls := 0

theorem not_exact_of_refused {way : Way} {run : World → Outcome} (hin : d.Inside address count)
    (hrun : (run zeros).map Prod.fst = .ok false)
    : ¬ Exact d way address count buf run := by
  intro hexact
  have hzeros := hexact zeros
  revert hrun hzeros
  cases run zeros with
  | error => exact fun _ hzeros => hzeros
  | ok =>
    intro hrun hzeros
    cases (hzeros.2.1 hin fun _ => rfl).symm.trans (Except.ok.inj hrun)

end Dev
