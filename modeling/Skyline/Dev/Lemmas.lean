import Skyline.Dev.Impl

/-!
This module contains for each way a request can go when the property holds for it.
-/

namespace Dev

open Bytes

variable {d : Device} {way : Way} {address count buf : Nat} {read write alloc : Bool}

variable {w : World}

def sectorsOf (address count : Nat) : Nat := (address + count + 511) / 512 - address / 512

theorem tempSectorCount_eq (ha : address < 2 ^ 64)
    : tempSectorCount address count = sectorsOf address count % 2 ^ 32 := by
  unfold tempSectorCount sectorsOf
  omega

theorem lba_add_sectorsOf (hc : count ≠ 0)
    : address / 512 + sectorsOf address count ≤ d.maxSectorCount ↔ d.Inside address count := by
  unfold sectorsOf Device.Inside
  omega

theorem lt_offset_add (address count : Nat)
    : sectorsOf address count * 512 < address % 512 + count + 512 := by
  unfold sectorsOf
  omega

theorem offset_add_le (address count : Nat)
    : address % 512 + count ≤ sectorsOf address count * 512 := by
  unfold sectorsOf
  omega

section

variable {w' : World}

theorem meets_done (hin : d.Inside address count) (h : (w.after way address count buf).Same w')
    : Meets d way address count buf w (.ok (true, w')) :=
  ⟨fun _ => h, fun _ _ => rfl, fun hout => absurd hin hout⟩

theorem meets_failed (hin : d.Inside address count) (hno : ¬ ∀ n, w.answers n = true)
    : Meets d way address count buf w (.ok (false, w')) :=
  ⟨nofun, fun _ hall => absurd hall hno, fun hout => absurd hin hout⟩

theorem meets_refused (hout : ¬ d.Inside address count) (h : w.Same w')
    : Meets d way address count buf w (.ok (false, w')) :=
  ⟨nofun, fun hin => absurd hin hout, fun _ => ⟨rfl, h⟩⟩

end

section Read

variable {noMem failed : World → Outcome}

theorem readSpan_eq (ha : address < 2 ^ 64) (w : World)
    : readSpan d true true address count buf noMem failed w =
      if address / 512 + sectorsOf address count % 2 ^ 32 ≤ d.maxSectorCount
          ∧ w.answers w.calls = true then
        if sectorsOf address count * 512 < 2 ^ 32 then
          .ok (true, (w.after .read address count buf).called)
        else
          .error .overrun
      else
        failed w.called := by
  have hle := offset_add_le address count
  have hlt := lt_offset_add address count
  simp only [readSpan, if_true, Device.readSectors, tempSectorCount_eq ha]
  split
  next w' heq =>
    split at heq
    next => cases heq
    next hfail =>
      cases heq
      rw [if_neg hfail]
  next buffer2 w' heq =>
    split at heq
    next hgood =>
      cases heq
      rw [if_pos hgood]
      split
      next hsize => rw [if_neg (by omega)]
      next hsize =>
        rw [if_pos (by omega)]
        simp only [Row.drop_drop, show address / 512 * 512 + address % 512 = address by omega]
        rfl
    next => cases heq

theorem exact_readSpan (ha : address < 2 ^ 64) (hc : count ≠ 0) (hin : d.Inside address count)
    (hfit : sectorsOf address count * 512 < 2 ^ 32)
    (hfailed : ∀ (w : World), ∃ w', failed w = .ok (false, w'))
    : Exact d .read address count buf (readSpan d true true address count buf noMem failed) := by
  have hlba := (lba_add_sectorsOf hc).mpr hin
  intro w
  rw [readSpan_eq ha, if_pos hfit]
  split
  next => exact meets_done hin ⟨rfl, rfl⟩
  next hno =>
    obtain ⟨w', hw'⟩ := hfailed w.called
    rw [hw']
    exact meets_failed hin fun hall => hno ⟨by omega, hall _⟩

end Read

theorem patchSector_eq (lba offset n : Nat) (hfit : offset + n ≤ 512) (src : Row) (w : World)
    (next : World → Outcome)
    : patchSector d true true lba offset n src w next =
      if lba + 1 ≤ d.maxSectorCount ∧ w.answers w.calls = true then
        if w.answers (w.calls + 1) = true then
          next { w.called.called with disk := w.disk.put (lba * 512 + offset) n src }
        else
          .ok (false, w.called.called)
      else
        .ok (false, w.called) := by
  simp only [patchSector, if_true, Device.readSectors]
  split
  next w' heq =>
    split at heq
    next => cases heq
    next hfail =>
      cases heq
      rw [if_neg hfail]
  next buffer2 w' heq =>
    split at heq
    next hgood =>
      cases heq
      rw [if_pos hgood, if_neg (by omega)]
      simp only [Device.writeSectors]
      by_cases hanswer : w.answers (w.calls + 1) = true
      . rw [if_pos ⟨hgood.1, hanswer⟩, if_pos hanswer]
        simp only [Nat.one_mul]
        rw [show w.called.disk = w.disk from rfl, Row.put_put_drop _ _ hfit]
      . rw [if_neg fun h => hanswer h.2, if_neg hanswer]
    next => cases heq

theorem meets_patchSector {w1 : World} {lba offset n : Nat} {src : Row} {next : World → Outcome}
    (hin : d.Inside address count) (hlba : lba < d.maxSectorCount) (hfit : offset + n ≤ 512)
    (hans : w1.answers = w.answers)
    (hnext : ∀ (w2 : World), w2.disk = w1.disk.put (lba * 512 + offset) n src → w2.mem = w1.mem →
      w2.answers = w.answers → Meets d way address count buf w (next w2))
    : Meets d way address count buf w (patchSector d true true lba offset n src w1 next) := by
  rw [patchSector_eq lba offset n hfit]
  split
  next hread =>
    split
    next hwrite => exact hnext _ rfl rfl hans
    next hwrite =>
      rw [hans] at hwrite
      exact meets_failed hin fun hall => hwrite (hall _)
  next hread =>
    rw [hans] at hread
    exact meets_failed hin fun hall => hread ⟨hlba, hall _⟩

theorem exact_writeSpan_single (ha : address < 2 ^ 64) (hc : count ≠ 0)
    (hin : d.Inside address count) (hone : sectorsOf address count = 1)
    : Exact d .write address count buf (writeSpan d true true true address count buf) := by
  intro w
  have hle := offset_add_le address count
  have hlba := (lba_add_sectorsOf hc).mpr hin
  simp only [writeSpan, if_true, tempSectorCount_eq ha]
  rw [if_pos (by omega)]
  apply meets_patchSector hin (by omega) (by omega) rfl
  intro w2 hdisk hmem hans
  refine meets_done hin ⟨?_, hmem⟩
  rw [hdisk, show address / 512 * 512 + address % 512 = address by omega]
  rfl

theorem count_eq (hc : count ≠ 0) (hmulti : sectorsOf address count ≠ 1)
    : count = 512 - address % 512
      + (count - (512 - address % 512) - (address + count) % 512) / 512 * 512
      + (address + count) % 512 := by
  unfold sectorsOf at hmulti
  omega

theorem put_span (m src : Row) (hc : count ≠ 0) (hmulti : sectorsOf address count ≠ 1)
    : ((m.put address (512 - address % 512) src).put ((address + count) / 512 * 512)
        ((address + count) % 512) (src.drop (count - (address + count) % 512))).put
        (address + (512 - address % 512))
        ((count - (512 - address % 512) - (address + count) % 512) / 512 * 512)
        (src.drop (512 - address % 512))
      =
      m.put address count src := by
  have hspan := count_eq hc hmulti
  have hplace : (address + count) / 512 * 512 = address + (512 - address % 512)
      + (count - (512 - address % 512) - (address + count) % 512) / 512 * 512 := by omega
  have hrest : count - (address + count) % 512 = 512 - address % 512
      + (count - (512 - address % 512) - (address + count) % 512) / 512 * 512 := by omega
  rw [hplace, hrest, Row.put_head_tail_middle]
  congr 1
  exact hspan.symm

theorem exact_writeSpan_multi (hend : address + count < 2 ^ 64) (hc : count ≠ 0)
    (hin : d.Inside address count) (hmulti : sectorsOf address count ≠ 1)
    (hsize : sectorsOf address count ≤ 2 ^ 32) (hlast : (address + count) / 512 < d.maxSectorCount)
    : Exact d .write address count buf (writeSpan d true true true address count buf) := by
  intro w
  have hlba := (lba_add_sectorsOf hc).mpr hin
  have hlt := lt_offset_add address count
  have hspan := count_eq hc hmulti
  have hbytes := put_span w.disk (w.mem.drop buf) hc hmulti
  have ha : address < 2 ^ 64 := by omega
  simp only [writeSpan, if_true, tempSectorCount_eq ha, Nat.mod_eq_of_lt hend]
  rw [if_neg (by unfold sectorsOf at *; omega)]
  apply meets_patchSector hin (by unfold sectorsOf at *; omega) (by omega) rfl
  intro w2 hdisk2 hmem2 hans2
  apply meets_patchSector hin hlast (by omega) hans2
  intro w3 hdisk3 hmem3 hans3
  have hdisk : w3.disk = (w.disk.put address (512 - address % 512) (w.mem.drop buf)).put
      ((address + count) / 512 * 512) ((address + count) % 512)
      ((w.mem.drop buf).drop (count - (address + count) % 512)) := by
    rw [hdisk3, hdisk2, hmem2, Row.drop_drop, Nat.add_zero,
      show address / 512 * 512 + address % 512 = address by omega]
  have hmem : w3.mem = w.mem := hmem3.trans hmem2
  split
  next hzero =>
    rw [hzero, Nat.zero_mul, Row.put_zero, ← hdisk] at hbytes
    exact meets_done hin ⟨hbytes, hmem⟩
  next hzero =>
    have hcount : (count - (512 - address % 512) - (address + count) % 512) / 512 < 2 ^ 32 := by
      unfold sectorsOf at *
      omega
    have hlow : address + (512 - address % 512) < 2 ^ 64 := by omega
    rw [Device.writeSectors, Nat.mod_eq_of_lt hlow, Nat.mod_eq_of_lt hcount,
      show (address + (512 - address % 512)) / 512 * 512 = address + (512 - address % 512) by omega]
    split
    next =>
      rw [← hdisk, Row.drop_drop] at hbytes
      refine meets_done hin ⟨?_, hmem⟩
      show w3.disk.put _ _ (w3.mem.drop _) = _
      rw [hmem]
      exact hbytes
    next hno =>
      rw [hans3] at hno
      refine meets_failed hin fun hall => hno ⟨?_, hall _⟩
      unfold sectorsOf at *
      omega

theorem exact_writeSpan (hend : address + count < 2 ^ 64) (hc : count ≠ 0)
    (hin : d.Inside address count)
    (hroom : sectorsOf address count = 1
      ∨ sectorsOf address count ≤ 2 ^ 32 ∧ (address + count) / 512 < d.maxSectorCount)
    : Exact d .write address count buf (writeSpan d true true true address count buf) := by
  by_cases hone : sectorsOf address count = 1
  . exact exact_writeSpan_single (Nat.lt_of_le_of_lt (Nat.le_add_right _ _) hend) hc hin hone
  . obtain ⟨hsize, hlast⟩ := hroom.resolve_left hone
    exact exact_writeSpan_multi hend hc hin hone hsize hlast

theorem exact_guard {past : Prop} [Decidable past] {run : World → Outcome}
    (hpast : count ≠ 0 → (past ↔ ¬ d.Inside address count))
    (hrun : count ≠ 0 → d.Inside address count → Exact d way address count buf run)
    : Exact d way address count buf
        (fun w => if count = 0 then .ok (true, w) else if past then .ok (false, w) else run w) := by
  intro w
  beta_reduce
  by_cases hzero : count = 0
  . subst hzero
    rw [if_pos rfl]
    apply meets_done (.inl rfl)
    cases way
    . exact ⟨rfl, (Row.put_zero _ _ _).symm⟩
    . exact ⟨(Row.put_zero _ _ _).symm, rfl⟩
  . rw [if_neg hzero]
    by_cases hin : d.Inside address count
    . rw [if_neg fun h => (hpast hzero).mp h hin]
      exact hrun hzero hin w
    . rw [if_pos ((hpast hzero).mpr hin)]
      exact meets_refused hin ⟨rfl, rfl⟩

end Dev
