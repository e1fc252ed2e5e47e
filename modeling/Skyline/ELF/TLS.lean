import Skyline.ELF.Lemmas.TLS

/-!
This module contains for which TLS segments `sys_load` puts each image where the code of its module
addresses it.
-/

namespace ELF

open Bytes

variable {main : Module} {so : Option Module} {image : Option (Nat → UInt8)} {b : TlsBlock}

def TlsRegular (main : Module) (so : Option Module) : Prop :=
  let tls := loadTls main.phdrs
  let size := roundUp tls.memsz.toNat tls.align.toNat
  let soSize := (soTls so).memsz.toNat
  let soAlign := (dlTlsAlign (soTls so).align).toNat
  tls.filesz ≤ tls.memsz ∧ (soTls so).filesz ≤ (soTls so).memsz ∧
    if soSize = 0 then
      size + 8 < 2 ^ 64
    else if tls.memsz.toNat = 0 then
      roundUp soSize soAlign + 8 < 2 ^ 64 ∧
        ((soTls so).filesz ≤ soTlsCap ∨ (soTls so).Zero (soFile so))
    else
      let base := roundUp tls.memsz.toNat soAlign
      let tp := roundUp (base + soSize) soAlign
      tp + 8 < 2 ^ 64 ∧ (soTls so).Zero (soFile so) ∧
        (size = tp ∨ size ≤ tp ∧ tls.Zero main.file ∧
          (tp - size + tls.memsz.toNat ≤ base ∨ base + soSize ≤ tp - size))

theorem placed_alone (halign : (loadTls main.phdrs).Aligned)
    (hpos : 0 < (loadTls main.phdrs).memsz.toNat) (hso : (soTls so).memsz.toNat = 0)
    (himage : image = none ∨ image = some fun _ => 0)
    (h : Built (loadTls main.phdrs) image main.file
      (alignUp (loadTls main.phdrs).memsz (loadTls main.phdrs).align) b)
    : Placed main so b ↔ mainSize main + 8 < 2 ^ 64 := by
  have hpow := halign.pow hpos
  have hle : (loadTls main.phdrs).memsz.toNat ≤ mainSize main :=
    le_roundUp _ hpow.pos
  have hlt : mainSize main < _ :=
    roundUp_lt (loadTls main.phdrs).memsz.toNat hpow.pos
  have hhalf := hpow.le_half
  constructor
  . intro hplaced
    have hmem := hplaced.memsz_le h
    unfold userAddrLimit at hmem
    omega
  . intro hfits
    have hsize := toNat_alignUp hpow (loadTls main.phdrs).memsz
    rw [wrapRound_eq hpow (by unfold mainSize at hfits; omega)] at hsize
    have hsize : _ = mainSize main := hsize
    refine Placed.of_segments h (by omega) 0 (mainSize main) ?_ (by omega) (by omega)
    intro _
    refine ⟨hsize.symm, ?_, ?_⟩
    . omega
    . intro a _
      rw [Nat.zero_add]
      unfold blockByte Tls.image
      cases himage with
      | inl hnone => rw [hnone]
      | inr hsome => simp [hsome]

theorem placed_object {s : Module} (halign : (soReadTls s.phdrs).Aligned)
    (hpos : 0 < (soReadTls s.phdrs).memsz.toNat) (hmain : (loadTls main.phdrs).memsz.toNat = 0)
    (h : MergedBlock main s b)
    : Placed main (some s) b
        ↔
      roundUp (soReadTls s.phdrs).memsz.toNat
      (dlTlsAlign (soReadTls s.phdrs).align).toNat + 8 < 2 ^ 64 ∧
        ((soReadTls s.phdrs).filesz ≤ soTlsCap ∨ (soReadTls s.phdrs).Zero s.file) := by
  have hpow := dlTlsAlign_pow (halign.pow hpos)
  have hle := le_roundUp (soReadTls s.phdrs).memsz.toNat hpow.pos
  have hlt := roundUp_lt (soReadTls s.phdrs).memsz.toNat hpow.pos
  have hhalf := hpow.le_half
  have hlayout := elfDynPrepare_object hpos hmain
  unfold MergedBlock at h
  rw [show (elfDynPrepare (loadTls main.phdrs) s).tls.memsz
    = (soReadTls s.phdrs).memsz by rw [hlayout]] at h
  have haddr : ∀ a, soAddr main (some s) b a = b.tlsBase + BitVec.ofNat 64 (0 + a) := by
    intro a
    rw [soAddr_eq h]
    . rw [hlayout]
      rfl
    . rw [hlayout]
      exact dlAlignUp_eq_alignUp hpow _
  have hbyte : ∀ a, blockByte (elfDynPrepare (loadTls main.phdrs) s).tls
    (some (soTlsImage s)) main.file a
      = keptImage s a := by
    intro a
    rw [hlayout]
    rfl
  have hsize := toNat_alignUp hpow (soReadTls s.phdrs).memsz
  constructor
  . intro hplaced
    have hbound : 0 + (soReadTls s.phdrs).memsz.toNat ≤ _ :=
      hplaced.so_bound h (by omega) hpos haddr
    unfold userAddrLimit at hbound
    have hfits : roundUp (soReadTls s.phdrs).memsz.toNat
      (dlTlsAlign (soReadTls s.phdrs).align).toNat + 8
        < 2 ^ 64 := by
      omega
    refine ⟨hfits, ?_⟩
    rw [wrapRound_eq hpow (by omega)] at hsize
    by_cases hcap : (soReadTls s.phdrs).filesz ≤ soTlsCap
    . exact .inl hcap
    . apply Or.inr
      intro a ha
      have himage : _ = (soReadTls s.phdrs).image s.file a :=
        hplaced.soImage a ha
      rw [← himage, haddr, Nat.zero_add, h.byte (by omega) (by omega), hbyte]
      exact keptImage_of_large hcap a
  . intro hok
    rw [wrapRound_eq hpow (by omega)] at hsize
    refine Placed.of_segments h (by omega) (soReadTls s.phdrs).memsz.toNat 0 (by omega) ?_ ?_
    . intro _
      refine ⟨haddr, ?_, ?_⟩
      . show 0 + (soReadTls s.phdrs).memsz.toNat ≤ _
        omega
      . intro a ha
        rw [Nat.zero_add, hbyte]
        exact keptImage_eq hok.2 ha
    . apply Or.inr
      show 0 + (soReadTls s.phdrs).memsz.toNat ≤ _
      omega

structure Merged (main s : Module) (base tp : Nat) : Prop where
  align : (loadTls main.phdrs).Aligned
  soAlign : (soReadTls s.phdrs).Aligned
  pos : 0 < (loadTls main.phdrs).memsz.toNat
  soPos : 0 < (soReadTls s.phdrs).memsz.toNat
  file : (loadTls main.phdrs).filesz ≤ (loadTls main.phdrs).memsz
  soFile : (soReadTls s.phdrs).filesz ≤ (soReadTls s.phdrs).memsz
  base_eq : base = roundUp (loadTls main.phdrs).memsz.toNat
    (dlTlsAlign (soReadTls s.phdrs).align).toNat
  tp_eq : tp = roundUp (base + (soReadTls s.phdrs).memsz.toNat)
    (dlTlsAlign (soReadTls s.phdrs).align).toNat

namespace Merged

variable {s : Module} {base tp : Nat}

section

variable (h : Merged main s base tp)
include h

theorem soPow : PowerOfTwo (dlTlsAlign (soReadTls s.phdrs).align) :=
  dlTlsAlign_pow (h.soAlign.pow h.soPos)

theorem le_mainSize : (loadTls main.phdrs).memsz.toNat ≤ mainSize main :=
  le_roundUp _ (h.align.pow h.pos).pos

theorem le_base : (loadTls main.phdrs).memsz.toNat ≤ base := by
  rw [h.base_eq]
  exact le_roundUp _ h.soPow.pos

theorem le_tp : base + (soReadTls s.phdrs).memsz.toNat ≤ tp := by
  rw [h.tp_eq]
  exact le_roundUp _ h.soPow.pos

theorem byte (x : Nat)
    : blockByte (elfDynPrepare (loadTls main.phdrs) s).tls (some (soTlsImage s)) main.file x
        =
      if x < (loadTls main.phdrs).filesz.toNat then
        fileBytes main.file (loadTls main.phdrs).offset x
      else
        keptImage s x := by
  rw [elfDynPrepare_both (loadTls main.phdrs) h.pos h.soPos]
  rfl

theorem addr (hbuilt : MergedBlock main s b) (a : Nat)
    : soAddr main (some s) b a
        =
      b.tlsBase + BitVec.ofNat 64 ((elfDynPrepare (loadTls main.phdrs) s).soBase.toNat + a) := by
  apply soAddr_eq hbuilt
  rw [elfDynPrepare_both (loadTls main.phdrs) h.pos h.soPos]
  exact dlAlignUp_eq_alignUp h.soPow _

theorem soBase (hlt : base < 2 ^ 64)
    : (elfDynPrepare (loadTls main.phdrs) s).soBase.toNat = base := by
  rw [elfDynPrepare_both (loadTls main.phdrs) h.pos h.soPos, h.base_eq]
  rw [h.base_eq] at hlt
  show (dlAlignUp _ _).toNat = _
  rw [dlAlignUp_eq_alignUp h.soPow, toNat_alignUp h.soPow, wrapRound_eq h.soPow hlt]

theorem memsz_eq (hlt : tp < 2 ^ 64)
    : (elfDynPrepare (loadTls main.phdrs) s).tls.memsz.toNat
        =
      base + (soReadTls s.phdrs).memsz.toNat := by
  have hle := h.le_tp
  have hbase := h.soBase (by omega)
  rw [elfDynPrepare_both (loadTls main.phdrs) h.pos h.soPos] at hbase
  have hbase : (dlAlignUp (loadTls main.phdrs).memsz (dlTlsAlign (soReadTls s.phdrs).align)).toNat
      = base :=
    hbase
  rw [elfDynPrepare_both (loadTls main.phdrs) h.pos h.soPos]
  show (dlAlignUp _ _ + _).toNat = _
  rw [BitVec.toNat_add, hbase]
  apply Nat.mod_eq_of_lt
  omega

theorem size_eq (hlt : tp < 2 ^ 64)
    : (alignUp (elfDynPrepare (loadTls main.phdrs) s).tls.memsz
        (dlTlsAlign (soReadTls s.phdrs).align)).toNat = tp := by
  rw [toNat_alignUp h.soPow, h.memsz_eq hlt]
  rw [h.tp_eq] at hlt
  rw [wrapRound_eq h.soPow hlt, h.tp_eq]

section

variable (hbuilt : MergedBlock main s b)
include hbuilt

theorem bounds (hplaced : Placed main (some s) b)
    : base < 2 ^ 64 ∧ tp + 8 < 2 ^ 64 := by
  have hhalf := h.soPow.le_half
  have hmem := hplaced.memsz_le hbuilt
  have hbaseLt := roundUp_lt (loadTls main.phdrs).memsz.toNat h.soPow.pos
  have halign := le_roundUp_of_pos h.soPow.pos h.pos
  have htpLt := roundUp_lt (base + (soReadTls s.phdrs).memsz.toNat) h.soPow.pos
  rw [← h.base_eq] at hbaseLt halign
  rw [← h.tp_eq] at htpLt
  unfold userAddrLimit at hmem
  have hbase : base < 2 ^ 64 := by
    omega
  have hbound : _ + (soReadTls s.phdrs).memsz.toNat ≤ _ :=
    hplaced.so_bound hbuilt (BitVec.isLt _) h.soPos (h.addr hbuilt)
  rw [h.soBase hbase] at hbound
  unfold userAddrLimit at hbound
  omega

theorem regular_of_placed
    (hplaced : Placed main (some s) b)
    : (soReadTls s.phdrs).Zero s.file ∧
        (mainSize main = tp ∨ mainSize main ≤ tp ∧ (loadTls main.phdrs).Zero main.file ∧
          (tp - mainSize main + (loadTls main.phdrs).memsz.toNat ≤ base ∨
            base + (soReadTls s.phdrs).memsz.toNat ≤ tp - mainSize main)) := by
  have hbounds := h.bounds hbuilt hplaced
  have hbaseLe := h.le_base
  have htpLe := h.le_tp
  have hfileLe : (loadTls main.phdrs).filesz.toNat ≤ (loadTls main.phdrs).memsz.toNat := h.file
  have hsize := h.size_eq (by omega)
  have hpos := h.pos
  have haddr := h.addr hbuilt
  rw [h.soBase hbounds.1] at haddr
  have hkept : ∀ a, a < (soReadTls s.phdrs).memsz.toNat →
      keptImage s (base + a) = (soReadTls s.phdrs).image s.file a := by
    intro a ha
    have himage : _ = (soReadTls s.phdrs).image s.file a :=
      hplaced.soImage a ha
    rw [← himage, haddr, Built.byte hbuilt (by omega) (by omega), h.byte, if_neg (by omega)]
  have hzero := zero_of_kept (by omega) h.soFile hkept
  obtain ⟨d, hd, hseg⟩ := hplaced.main_segment hbuilt h.pos h.le_mainSize
  refine ⟨hzero, ?_⟩
  cases Nat.eq_zero_or_pos d with
  | inl =>
    apply Or.inl
    omega
  | inr hd0 =>
    refine .inr ⟨by omega, ?_, ?_⟩
    . apply zero_of_shift hd0
      intro a ha
      have hbytes := hseg.bytes a ha
      rw [h.byte, Nat.add_comm d a] at hbytes
      rw [← hbytes]
      split
      next hlt =>
        refine .inr ⟨by omega, ?_⟩
        apply Eq.symm
        exact if_pos hlt
      next => exact .inl (keptImage_of_zero h.soFile hzero (a + d))
    . -- a common byte of the two segments would be a variable of both
      have hroom := Built.room hbuilt (by omega)
      have hbelow := Built.below hbuilt
      have hapart : ∀ x, d ≤ x → x < d + (loadTls main.phdrs).memsz.toNat → base ≤ x →
          x < base + (soReadTls s.phdrs).memsz.toNat → False := by
        intro x h1 h2 h3 h4
        have hso : x - base < (soTls (some s)).memsz.toNat := by
          show x - base < (soReadTls s.phdrs).memsz.toNat
          omega
        apply hplaced.apart (x - d) (x - base) (by omega) hso
        have hmain : mainAddr main b (x - d) = b.fs.toNat - mainSize main + (x - d) :=
          rfl
        rw [haddr, ← ofNat_base, BitVec.toNat_ofNat, hmain]
        unfold userAddrLimit at hbelow
        rw [Nat.mod_eq_of_lt (by omega)]
        omega
      have hsoPos := h.soPos
      have hfirst : ¬(base ≤ d ∧ d < base + (soReadTls s.phdrs).memsz.toNat) := by
        intro hin
        exact hapart d (Nat.le_refl d) (by omega) hin.1 hin.2
      have hsecond : ¬(d ≤ base ∧ base < d + (loadTls main.phdrs).memsz.toNat) := by
        intro hin
        exact hapart base hin.1 hin.2 (Nat.le_refl base) (by omega)
      omega

theorem placed_of_regular (htp : tp + 8 < 2 ^ 64)
    (hzero : (soReadTls s.phdrs).Zero s.file)
    (hmain : mainSize main = tp ∨ mainSize main ≤ tp ∧ (loadTls main.phdrs).Zero main.file ∧
      (tp - mainSize main + (loadTls main.phdrs).memsz.toNat ≤ base ∨
        base + (soReadTls s.phdrs).memsz.toNat ≤ tp - mainSize main))
    : Placed main (some s) b := by
  have hbaseLe := h.le_base
  have htpLe := h.le_tp
  have hmainLe := h.le_mainSize
  have hfileLe : (loadTls main.phdrs).filesz.toNat ≤ (loadTls main.phdrs).memsz.toNat := h.file
  have hsize := h.size_eq (by omega)
  have haddr := h.addr hbuilt
  rw [h.soBase (by omega)] at haddr
  refine Placed.of_segments hbuilt (by omega) (tp - mainSize main) base ?_ ?_ ?_
  . intro _
    refine ⟨by omega, by omega, ?_⟩
    intro a ha
    rw [h.byte, keptImage_of_zero h.soFile hzero]
    cases hmain with
    | inl heq =>
      rw [heq, Nat.sub_self, Nat.zero_add]
      rfl
    | inr hlater =>
      rw [hlater.2.1 a ha]
      split
      next hlt =>
        have hbyte := hlater.2.1 (tp - mainSize main + a) (by omega)
        rw [Tls.image, if_pos hlt] at hbyte
        exact hbyte
      next => rfl
  . intro _
    refine ⟨haddr, ?_, ?_⟩
    . show base + (soReadTls s.phdrs).memsz.toNat ≤ _
      omega
    . intro a ha
      rw [h.byte, if_neg (by omega), keptImage_of_zero h.soFile hzero]
      apply Eq.symm
      exact hzero a ha
  . show _ ∨ base + (soReadTls s.phdrs).memsz.toNat ≤ _
    omega

end

end

end Merged

/--
The images of the segments are where their modules address them exactly for the regular pairs.
-/
theorem tls_placed_iff {main : Module} {so : Option Module} {alloc : BitVec 64 → Option (BitVec 64)}
    {mem : Memory} {block : Option TlsBlock} (halloc : UserAlloc alloc)
    (hmain : (loadTls main.phdrs).Aligned) (hso : (soTls so).Aligned)
    (h : sysLoadTls main so alloc mem = some block)
    : TlsPlaced main so block ↔ TlsRegular main so := by
  unfold TlsPlaced TlsRegular
  apply and_congr_right
  intro hfile
  apply and_congr_right
  intro hsoFile
  by_cases hsoZero : (soTls so).memsz.toNat = 0
  . simp only [if_pos hsoZero]
    obtain ⟨image, himage, happly⟩ := elfDynApply_alone (loadTls main.phdrs) hsoZero
    simp only [sysLoadTls, happly] at h
    cases block with
    | none =>
      have hzero := setUpTls_none h
      have hsoNone : (soTls so).memsz = 0 :=
        BitVec.eq_of_toNat_eq hsoZero
      rw [hzero]
      simp [hsoNone, roundUp_zero]
    | some =>
      have hpos := setUpTls_pos h
      exact placed_alone hmain hpos hsoZero himage
        (setUpTls_some halloc (hmain.pow hpos).ne_zero h)
  . simp only [if_neg hsoZero]
    cases so with
    | none => exact absurd rfl hsoZero
    | some s =>
      have hsoPos : 0 < (soReadTls s.phdrs).memsz.toNat :=
        Nat.pos_of_ne_zero hsoZero
      simp only [sysLoadTls, elfDynApply_object _ hsoPos] at h
      by_cases hzero : (loadTls main.phdrs).memsz.toNat = 0
      . simp only [if_pos hzero]
        cases block with
        | none =>
          have hnone := setUpTls_none h
          rw [elfDynPrepare_object hsoPos hzero] at hnone
          rw [show (soReadTls s.phdrs).memsz = 0 from hnone] at hsoPos
          exact absurd hsoPos (by decide)
        | some => exact placed_object hso hsoPos hzero (mergedBlock_of_setUp halloc hso hsoPos h)
      . simp only [if_neg hzero]
        have hmerged : Merged main s _ _ :=
          ⟨hmain, hso, Nat.pos_of_ne_zero hzero, hsoPos, hfile, hsoFile, rfl, rfl⟩
        cases block with
        | none =>
          have hnone := setUpTls_none h
          constructor
          . intro hboth
            rw [hboth.1] at hzero
            exact absurd rfl hzero
          . intro hok
            have hmemsz := hmerged.memsz_eq (by have htp := hok.1; exact Nat.lt_of_add_right_lt htp)
            rw [hnone] at hmemsz
            have hmemsz : 0 = _ + (soReadTls s.phdrs).memsz.toNat := hmemsz
            omega
        | some =>
          have hbuilt := mergedBlock_of_setUp halloc hso hsoPos h
          constructor
          . intro hplaced
            exact ⟨(hmerged.bounds hbuilt hplaced).2, hmerged.regular_of_placed hbuilt hplaced⟩
          . intro hok
            exact hmerged.placed_of_regular hbuilt hok.1 hok.2.1 hok.2.2

def wordTls (filesz align : BitVec 64) : Phdr where
  type := ptTls
  flags := 4
  offset := 0
  vaddr := 0
  filesz
  memsz := 8
  align

def onePage (pc : BitVec 64) : Option (BitVec 64) :=
  if pc = 1 then some 0x200000 else none

theorem onePage_some {pc addr : BitVec 64} (h : onePage pc = some addr)
    : pc = 1 ∧ addr = 0x200000 := by
  unfold onePage at h
  split at h
  next hpc =>
    cases h
    exact ⟨hpc, rfl⟩
  next => cases h

theorem onePage_userAlloc : UserAlloc onePage where
  nonempty := by
    intro pc addr h
    rw [(onePage_some h).1]
    decide
  aligned := by
    intro pc addr h
    rw [(onePage_some h).2]
    decide
  pos := by
    intro pc addr h
    rw [(onePage_some h).2]
    decide
  below := by
    intro pc addr h
    rw [(onePage_some h).1, (onePage_some h).2]
    decide

/--
A program with one initialised word that is aligned to two, and an object with one word that is not
initialised.
-/
theorem tls_placed_iff_bothModules : ∃ block,
    sysLoadTls ⟨[wordTls 8 16], fun _ => 1⟩
    (some ⟨[wordTls 0 8], fun _ => 2⟩) onePage (fun _ => 255)
        = some block ∧
      TlsPlaced ⟨[wordTls 8 16], fun _ => 1⟩ (some ⟨[wordTls 0 8], fun _ => 2⟩) block := by
  refine ⟨_, rfl, ?_⟩
  refine (tls_placed_iff onePage_userAlloc ?_ ?_ rfl).2 ?_
  . intro _
    exact ⟨4, rfl⟩
  . intro _
    exact ⟨3, rfl⟩
  . refine ⟨by decide, by decide, ?_⟩
    rw [if_neg (by decide), if_neg (by decide)]
    refine ⟨by decide, fun _ _ => rfl, .inl (by decide)⟩

/--
With one initialised word in the program and one in the object, both modules address the word below
the thread pointer, and it is zero.
-/
theorem tls_misplaced_two_words : ∃ b,
    sysLoadTls ⟨[wordTls 8 8], fun _ => 1⟩ (some ⟨[wordTls 8 8], fun _ => 2⟩) onePage (fun _ => 255)
        = some (some b) ∧
      ¬TlsPlaced ⟨[wordTls 8 8], fun _ => 1⟩ (some ⟨[wordTls 8 8], fun _ => 2⟩) (some b) := by
  refine ⟨_, rfl, ?_⟩
  intro h
  have hword := h.2.2.soImage 0 (by decide)
  revert hword
  decide

end ELF
