import Skyline.ELF.Impl.TLS

/-!
This module contains where the code of each module addresses its thread-local variables.
-/

namespace ELF

open Bytes

structure UserAlloc (alloc : BitVec 64 → Option (BitVec 64)) : Prop where
  nonempty : ∀ pc addr, alloc pc = some addr → 0 < pc.toNat
  aligned : ∀ pc addr, alloc pc = some addr → addr.toNat % 4096 = 0
  pos : ∀ pc addr, alloc pc = some addr → 0 < addr.toNat
  below : ∀ pc addr, alloc pc = some addr → addr.toNat + pc.toNat * 4096 ≤ userAddrLimit

namespace Tls

def image (tls : Tls) (file : Memory) (i : Nat) : UInt8 :=
  if i < tls.filesz.toNat then fileBytes file tls.offset i else 0

def Zero (tls : Tls) (file : Memory) : Prop :=
  ∀ i, i < tls.memsz.toNat → tls.image file i = 0

def Aligned (tls : Tls) : Prop :=
  tls.memsz ≠ 0 → PowerOfTwo tls.align

end Tls

def noTls : Tls := ⟨0, 0, 0, 8⟩

def soTls (so : Option Module) : Tls :=
  match so with
  | none => noTls
  | some so => soReadTls so.phdrs

def soFile (so : Option Module) : Memory :=
  match so with
  | none => fun _ => 0
  | some so => so.file

def soAddr (main : Module) (so : Option Module) (b : TlsBlock) (a : Nat) : BitVec 64 :=
  match so with
  | none => b.fs
  | some so => b.fs + (elfDynPrepare (loadTls main.phdrs) so).tpoff true (BitVec.ofNat 64 a)

def mainAddr (main : Module) (b : TlsBlock) (a : Nat) : Nat :=
  let tls := loadTls main.phdrs
  b.fs.toNat - roundUp tls.memsz.toNat tls.align.toNat + a

def TlsBlock.Holds (b : TlsBlock) (x : Nat) : Prop :=
  b.tlsBase.toNat ≤ x ∧ x < b.tlsBase.toNat + b.tlsPages.toNat * 4096 ∧
    (x < b.fs.toNat ∨ b.fs.toNat + 8 ≤ x)

structure Placed (main : Module) (so : Option Module) (b : TlsBlock) : Prop where
  mainImage : ∀ a, a < (loadTls main.phdrs).memsz.toNat →
    b.mem (BitVec.ofNat 64 (mainAddr main b a)) = (loadTls main.phdrs).image main.file a
  soImage : ∀ a, a < (soTls so).memsz.toNat →
    b.mem (soAddr main so b a) = (soTls so).image (soFile so) a
  mainHeld : ∀ a, a < (loadTls main.phdrs).memsz.toNat → b.Holds (mainAddr main b a)
  soHeld : ∀ a, a < (soTls so).memsz.toNat → b.Holds (soAddr main so b a).toNat
  apart : ∀ a a', a < (loadTls main.phdrs).memsz.toNat → a' < (soTls so).memsz.toNat →
    mainAddr main b a ≠ (soAddr main so b a').toNat
  tcb : b.tlsBase.toNat ≤ b.fs.toNat ∧
    b.fs.toNat + 8 ≤ b.tlsBase.toNat + b.tlsPages.toNat * 4096

def TlsPlaced (main : Module) (so : Option Module) (block : Option TlsBlock) : Prop :=
  (loadTls main.phdrs).filesz ≤ (loadTls main.phdrs).memsz ∧ (soTls so).filesz ≤ (soTls so).memsz ∧
    match block with
    | none => (loadTls main.phdrs).memsz = 0 ∧ (soTls so).memsz = 0
    | some b => Placed main so b

def blockByte (tls : Tls) (image : Option (Nat → UInt8)) (buffer : Memory) (d : Nat) : UInt8 :=
  if d < tls.filesz.toNat then
    fileBytes buffer tls.offset d
  else
    match image with
    | none => 0
    | some image => if d < 4096 then image d else 0

variable {mem : Memory} {alloc : BitVec 64 → Option (BitVec 64)} {s : Module}

theorem fillTls_at {tlsMem tlsPages tcbBase : BitVec 64} {tls : Tls}
    {image : Option (Nat → UInt8)} {buffer : Memory} {size d : Nat} (hd : d < size)
    (hsize : size + 8 ≤ 2 ^ 64) (htcb : tcbBase = tlsMem + BitVec.ofNat 64 size)
    (hlen : d < (tlsPages * pageSize).toNat)
    : fillTls mem tlsMem tlsPages tcbBase tls image 0 buffer (tlsMem + BitVec.ofNat 64 d)
        =
      blockByte tls image buffer d := by
  have hd64 : d < 2 ^ 64 := by
    omega
  have hoff : ¬(tlsMem + BitVec.ofNat 64 d - tcbBase).toNat < 8 := by
    rw [htcb]
    have heq : tlsMem + BitVec.ofNat 64 d - (tlsMem + BitVec.ofNat 64 size)
        = BitVec.ofNat 64 d - BitVec.ofNat 64 size := by
      bv_omega
    rw [heq, BitVec.toNat_sub, BitVec.toNat_ofNat, BitVec.toNat_ofNat, Nat.mod_eq_of_lt hd64,
      Nat.mod_eq_of_lt (by omega : size < 2 ^ 64), Nat.mod_eq_of_lt (by omega)]
    omega
  have hzero : tlsMem + 0 = tlsMem :=
    BitVec.add_zero tlsMem
  simp only [fillTls, Memory.store64, blockByte]
  rw [Memory.copy, if_neg hoff, hzero, Memory.copy_at _ _ _ _ hd64]
  split
  . rfl
  . cases image with
    | none =>
      simp only [Memory.fill]
      rw [Memory.copy_at _ _ _ _ hd64, if_pos hlen]
    | some =>
      simp only [Memory.fill]
      rw [Memory.copy_at _ _ _ _ hd64, Memory.copy_at _ _ _ _ hd64, if_pos hlen]
      rfl

structure Built (tls : Tls) (image : Option (Nat → UInt8)) (buffer : Memory) (size : BitVec 64)
    (b : TlsBlock) : Prop where
  fs : b.fs = b.tlsBase + size
  pages : b.tlsPages = divRoundUp (size + 8) pageSize
  nonempty : 0 < b.tlsPages.toNat
  above : 4096 ≤ b.tlsBase.toNat
  below : b.tlsBase.toNat + b.tlsPages.toNat * 4096 ≤ userAddrLimit
  mem : ∃ mem, b.mem = fillTls mem b.tlsBase b.tlsPages b.fs tls image 0 buffer

theorem setUpTls_some {tls : Tls} {image : Option (Nat → UInt8)} {buffer : Memory} {b : TlsBlock}
    (halloc : UserAlloc alloc)
    (halign : tls.align ≠ 0) (h : setUpTls tls image 0 buffer alloc mem = some (some b))
    : Built tls image buffer (alignUp tls.memsz tls.align) b := by
  simp only [setUpTls, if_neg halign] at h
  split at h
  . split at h
    next => cases h
    next tlsMem hsome =>
      cases h
      have hpos := halloc.pos _ _ hsome
      have hmod := halloc.aligned _ _ hsome
      exact {
        fs := rfl
        pages := rfl
        nonempty := halloc.nonempty _ _ hsome
        above := by
          show 4096 ≤ tlsMem.toNat
          omega
        below := halloc.below _ _ hsome
        mem := ⟨mem, rfl⟩
      }
  . cases h

theorem setUpTls_pos {tls : Tls} {image : Option (Nat → UInt8)} {mainOff : BitVec 64}
    {buffer : Memory} {b : TlsBlock}
    (h : setUpTls tls image mainOff buffer alloc mem = some (some b)) : 0 < tls.memsz.toNat := by
  simp only [setUpTls] at h
  split at h
  next hpos => exact hpos
  next => cases h

theorem setUpTls_none {tls : Tls} {image : Option (Nat → UInt8)} {mainOff : BitVec 64}
    {buffer : Memory}
    (h : setUpTls tls image mainOff buffer alloc mem = some none) : tls.memsz = 0 := by
  simp only [setUpTls] at h
  split at h
  . split at h
    . cases h
    . cases h
  next hzero => bv_omega

namespace Built

variable {tls : Tls} {image : Option (Nat → UInt8)} {buffer : Memory} {size : BitVec 64}
  {b : TlsBlock}

section

variable (h : Built tls image buffer size b)
include h

theorem room (hsize : size.toNat + 8 < 2 ^ 64)
    : b.fs.toNat = b.tlsBase.toNat + size.toNat ∧ size.toNat + 8 ≤ b.tlsPages.toNat * 4096 := by
  have hbelow := h.below
  have hnonempty := h.nonempty
  have hsum : (size + 8 + (pageSize - 1)).toNat = (size.toNat + 8 + 4095) % 2 ^ 64 := by
    rw [BitVec.toNat_add, BitVec.toNat_add]
    show ((size.toNat + 8) % 2 ^ 64 + 4095) % 2 ^ 64 = _
    rw [Nat.mod_eq_of_lt hsize]
  have hpages : b.tlsPages.toNat = (size.toNat + 8 + 4095) % 2 ^ 64 / 4096 := by
    rw [h.pages, divRoundUp, BitVec.toNat_udiv, hsum]
    rfl
  -- a sum that wraps leaves no pages, and no block is made of these
  have hlt : size.toNat + 8 + 4095 < 2 ^ 64 := by
    omega
  rw [Nat.mod_eq_of_lt hlt] at hpages
  unfold userAddrLimit at hbelow
  constructor
  . rw [h.fs, BitVec.toNat_add]
    apply Nat.mod_eq_of_lt
    omega
  . omega

theorem size_lt (htcb : b.tlsBase.toNat ≤ b.fs.toNat)
    : size.toNat + 8 < 2 ^ 64 := by
  have hbelow := h.below
  have habove := h.above
  have hlt := size.isLt
  have hfs : b.fs.toNat = (b.tlsBase.toNat + size.toNat) % 2 ^ 64 := by
    rw [h.fs, BitVec.toNat_add]
  unfold userAddrLimit at hbelow
  omega

theorem byte (hsize : size.toNat + 8 < 2 ^ 64) {d : Nat}
    (hd : d < size.toNat)
    : b.mem (b.tlsBase + BitVec.ofNat 64 d) = blockByte tls image buffer d := by
  obtain ⟨mem, hmem⟩ := h.mem
  have hroom := h.room hsize
  have hbelow := h.below
  have hlen : (b.tlsPages * pageSize).toNat = b.tlsPages.toNat * 4096 := by
    rw [BitVec.toNat_mul]
    apply Nat.mod_eq_of_lt
    unfold userAddrLimit at hbelow
    show b.tlsPages.toNat * 4096 < 2 ^ 64
    omega
  rw [hmem]
  refine fillTls_at hd ?_ ?_ ?_
  . omega
  . rw [BitVec.ofNat_toNat, BitVec.setWidth_eq]
    exact h.fs
  . rw [hlen]
    omega

end

end Built

variable {main : Module} {so : Option Module} {image : Option (Nat → UInt8)} {tls : Tls}
  {b : TlsBlock} {size : BitVec 64}

theorem ofNat_base (x : BitVec 64) (d : Nat)
    : BitVec.ofNat 64 (x.toNat + d) = x + BitVec.ofNat 64 d := by
  rw [BitVec.ofNat_add, BitVec.ofNat_toNat, BitVec.setWidth_eq]

theorem Tls.Aligned.pow (h : tls.Aligned) (hpos : 0 < tls.memsz.toNat) : PowerOfTwo tls.align := by
  apply h
  intro hzero
  rw [hzero] at hpos
  exact absurd hpos (by decide)

def mainSize (main : Module) : Nat :=
  roundUp (loadTls main.phdrs).memsz.toNat (loadTls main.phdrs).align.toNat

structure SegmentAt (tls : Tls) (image : Option (Nat → UInt8)) (buffer : Memory) (size : BitVec 64)
    (seg : Tls) (file : Memory) (d : Nat) : Prop where
  inside : d + seg.memsz.toNat ≤ size.toNat
  bytes : ∀ a, a < seg.memsz.toNat → blockByte tls image buffer (d + a) = seg.image file a

theorem Placed.of_segments (h : Built tls image main.file size b) (hsize : size.toNat + 8 < 2 ^ 64)
    (d e : Nat)
    (hmain : 0 < (loadTls main.phdrs).memsz.toNat → mainSize main + d = size.toNat ∧
      SegmentAt tls image main.file size (loadTls main.phdrs) main.file d)
    (hso : 0 < (soTls so).memsz.toNat
      → (∀ a, soAddr main so b a = b.tlsBase + BitVec.ofNat 64 (e + a)) ∧
      SegmentAt tls image main.file size (soTls so) (soFile so) e)
    (hapart : d + (loadTls main.phdrs).memsz.toNat ≤ e ∨ e + (soTls so).memsz.toNat ≤ d)
    : Placed main so b := by
  have hroom := h.room hsize
  have hbelow := h.below
  unfold userAddrLimit at hbelow
  have hmainAddr : ∀ a, a < (loadTls main.phdrs).memsz.toNat →
      mainAddr main b a = b.tlsBase.toNat + (d + a) ∧ d + a < size.toNat := by
    intro a ha
    have hat := hmain (by omega)
    have hinside := hat.2.inside
    have heq : mainAddr main b a = b.fs.toNat - mainSize main + a :=
      rfl
    omega
  have hsoAddr : ∀ a, a < (soTls so).memsz.toNat →
      (soAddr main so b a).toNat = b.tlsBase.toNat + (e + a) ∧ e + a < size.toNat := by
    intro a ha
    have hat := hso (by omega)
    have hinside := hat.2.inside
    have hlt : e + a < size.toNat := by
      omega
    refine ⟨?_, hlt⟩
    rw [hat.1 a, ← ofNat_base, BitVec.toNat_ofNat]
    apply Nat.mod_eq_of_lt
    omega
  exact {
    mainImage := by
      intro a ha
      have hat := hmainAddr a ha
      rw [hat.1, ofNat_base, h.byte hsize hat.2]
      exact (hmain (by omega)).2.bytes a ha
    soImage := by
      intro a ha
      have hat := hso (by omega)
      rw [hat.1 a, h.byte hsize (hsoAddr a ha).2]
      exact hat.2.bytes a ha
    mainHeld := by
      intro a ha
      have hat := hmainAddr a ha
      unfold TlsBlock.Holds
      omega
    soHeld := by
      intro a ha
      have hat := hsoAddr a ha
      unfold TlsBlock.Holds
      omega
    apart := by
      intro a a' ha ha'
      have hat := hmainAddr a ha
      have hat' := hsoAddr a' ha'
      omega
    tcb := by
      omega
  }

section

variable (hplaced : Placed main so b) (h : Built tls image main.file size b)
include hplaced h

theorem Placed.main_segment
    (hpos : 0 < (loadTls main.phdrs).memsz.toNat)
    (hle : (loadTls main.phdrs).memsz.toNat ≤ mainSize main)
    : ∃ d, mainSize main + d = size.toNat ∧
        SegmentAt tls image main.file size (loadTls main.phdrs) main.file d := by
  have hsize := h.size_lt hplaced.tcb.1
  have hroom := h.room hsize
  have habove := h.above
  have heq : ∀ a, mainAddr main b a = b.fs.toNat - mainSize main + a :=
    fun a => rfl
  have hfirst := (hplaced.mainHeld 0 hpos).1
  rw [heq] at hfirst
  have hd : mainSize main + (size.toNat - mainSize main) = size.toNat := by
    omega
  refine ⟨size.toNat - mainSize main, hd, ?_⟩
  exact {
    inside := by
      omega
    bytes := by
      intro a ha
      have haddr : mainAddr main b a = b.tlsBase.toNat + (size.toNat - mainSize main + a) := by
        rw [heq]
        omega
      rw [← hplaced.mainImage a ha, haddr, ofNat_base]
      apply Eq.symm
      apply h.byte hsize
      omega
  }

theorem Placed.memsz_le
    : (loadTls main.phdrs).memsz.toNat ≤ userAddrLimit := by
  apply Nat.le_of_not_lt
  intro hlt
  have hlast := (hplaced.mainHeld userAddrLimit hlt).2.1
  have hbelow := h.below
  have heq : mainAddr main b userAddrLimit = b.fs.toNat - mainSize main + userAddrLimit :=
    rfl
  omega

end

theorem dlTlsAlign_pow {a : BitVec 64} (h : PowerOfTwo a) : PowerOfTwo (dlTlsAlign a) := by
  unfold dlTlsAlign
  split
  . exact h
  . exact ⟨3, rfl⟩

theorem soAddr_eq (h : Built tls image main.file size b)
    (hfs : (elfDynPrepare (loadTls main.phdrs) s).fsOff = size) (a : Nat)
    : soAddr main (some s) b a
        =
      b.tlsBase + BitVec.ofNat 64 ((elfDynPrepare (loadTls main.phdrs) s).soBase.toNat + a) := by
  simp only [soAddr, Layout.tpoff, if_true]
  rw [ofNat_base, h.fs, hfs]
  bv_omega

theorem Placed.so_bound (hplaced : Placed main so b) (h : Built tls image main.file size b)
    {e : Nat} (he : e < 2 ^ 64) (hpos : 0 < (soTls so).memsz.toNat)
    (haddr : ∀ a, soAddr main so b a = b.tlsBase + BitVec.ofNat 64 (e + a))
    : e + (soTls so).memsz.toNat ≤ userAddrLimit := by
  have hbelow := h.below
  have habove := h.above
  have hheld : ∀ a, a < (soTls so).memsz.toNat
    → b.tlsBase.toNat ≤ (b.tlsBase.toNat + (e + a)) % 2 ^ 64 ∧
      (b.tlsBase.toNat + (e + a)) % 2 ^ 64 < b.tlsBase.toNat + b.tlsPages.toNat * 4096 := by
    intro a ha
    have hheld := hplaced.soHeld a ha
    rw [haddr a, ← ofNat_base, BitVec.toNat_ofNat] at hheld
    exact ⟨hheld.1, hheld.2.1⟩
  unfold userAddrLimit at hbelow
  unfold userAddrLimit
  -- the first variable shows that the offset does not wrap around, a far one that the size is small
  have hfirst := hheld 0 hpos
  have hsmall : (soTls so).memsz.toNat ≤ 0x800000000000 := by
    apply Nat.le_of_not_lt
    intro hlt
    have hfar := hheld 0x800000000000 hlt
    omega
  have hlast := hheld ((soTls so).memsz.toNat - 1) (by omega)
  omega

def keptImage (s : Module) (a : Nat) : UInt8 :=
  if a < 4096 then soTlsImage s a else 0

theorem keptImage_eq_or (s : Module) (a : Nat)
    : keptImage s a = 0 ∨ keptImage s a = (soReadTls s.phdrs).image s.file a := by
  unfold keptImage soTlsImage
  split
  . split
    . exact .inr rfl
    . exact .inl rfl
  . exact .inl rfl

theorem keptImage_eq
    (h : (soReadTls s.phdrs).filesz ≤ soTlsCap ∨ (soReadTls s.phdrs).Zero s.file) {a : Nat}
    (ha : a < (soReadTls s.phdrs).memsz.toNat)
    : keptImage s a = (soReadTls s.phdrs).image s.file a := by
  cases h with
  | inr hzero =>
    rw [hzero a ha]
    cases keptImage_eq_or s a with
    | inl heq => exact heq
    | inr heq =>
      rw [heq]
      exact hzero a ha
  | inl hcap =>
    have hfile : (soReadTls s.phdrs).filesz.toNat ≤ 4096 := hcap
    unfold keptImage soTlsImage Tls.image
    split
    . split
      . rfl
      next hempty =>
        rw [if_neg]
        intro hlt
        apply hempty
        refine ⟨hcap, ?_⟩
        rw [BitVec.lt_def]
        show 0 < _
        omega
    . rw [if_neg]
      omega

theorem keptImage_of_large (h : ¬(soReadTls s.phdrs).filesz ≤ soTlsCap) (a : Nat)
    : keptImage s a = 0 := by
  unfold keptImage soTlsImage
  simp [h]

theorem elfDynPrepare_object (hpos : 0 < (soReadTls s.phdrs).memsz.toNat)
    (hmain : tls.memsz.toNat = 0)
    : elfDynPrepare tls s
        =
      {
        tls := ⟨0, (soReadTls s.phdrs).memsz, 0, dlTlsAlign (soReadTls s.phdrs).align⟩
        soBase := 0
        fsOff := dlAlignUp (soReadTls s.phdrs).memsz (dlTlsAlign (soReadTls s.phdrs).align)
        mainOff := 0
        soTlsOut := soTlsImage s
      } := by
  have hmemsz : tls.memsz = 0 :=
    BitVec.eq_of_toNat_eq hmain
  have hlt : 0 < (soReadTls s.phdrs).memsz :=
    hpos
  simp only [elfDynPrepare, if_pos hlt, if_pos hmemsz]

def MergedBlock (main s : Module) (b : TlsBlock) : Prop :=
  Built (elfDynPrepare (loadTls main.phdrs) s).tls (some (soTlsImage s)) main.file
    (alignUp (elfDynPrepare (loadTls main.phdrs) s).tls.memsz
      (dlTlsAlign (soReadTls s.phdrs).align)) b

theorem zero_of_kept {e : Nat} (he : 0 < e)
    (hfile : (soReadTls s.phdrs).filesz ≤ (soReadTls s.phdrs).memsz)
    (h : ∀ a, a < (soReadTls s.phdrs).memsz.toNat
      → keptImage s (e + a) = (soReadTls s.phdrs).image s.file a)
    : (soReadTls s.phdrs).Zero s.file := by
  apply zero_of_shift he
  intro a ha
  rw [Nat.add_comm a e, ← h a ha]
  cases keptImage_eq_or s (e + a) with
  | inl hzero => exact .inl hzero
  | inr himage =>
    by_cases hlt : e + a < (soReadTls s.phdrs).memsz.toNat
    . exact .inr ⟨hlt, himage⟩
    . apply Or.inl
      rw [himage]
      apply if_neg
      have hle : (soReadTls s.phdrs).filesz.toNat ≤ (soReadTls s.phdrs).memsz.toNat := hfile
      omega

theorem keptImage_of_zero (hfile : (soReadTls s.phdrs).filesz ≤ (soReadTls s.phdrs).memsz)
    (hzero : (soReadTls s.phdrs).Zero s.file) (a : Nat) : keptImage s a = 0 := by
  cases keptImage_eq_or s a with
  | inl heq => exact heq
  | inr heq =>
    rw [heq]
    by_cases hlt : a < (soReadTls s.phdrs).memsz.toNat
    . exact hzero a hlt
    . apply if_neg
      have hle : (soReadTls s.phdrs).filesz.toNat ≤ (soReadTls s.phdrs).memsz.toNat := hfile
      omega

theorem elfDynPrepare_both (tls : Tls) (hpos : 0 < tls.memsz.toNat)
    (hsoPos : 0 < (soReadTls s.phdrs).memsz.toNat)
    : elfDynPrepare tls s
        =
      {
        tls := { tls with
          memsz := dlAlignUp tls.memsz (dlTlsAlign (soReadTls s.phdrs).align)
            + (soReadTls s.phdrs).memsz
          align := dlTlsAlign (soReadTls s.phdrs).align
        }
        soBase := dlAlignUp tls.memsz (dlTlsAlign (soReadTls s.phdrs).align)
        fsOff := dlAlignUp
          (dlAlignUp tls.memsz (dlTlsAlign (soReadTls s.phdrs).align) + (soReadTls s.phdrs).memsz)
          (dlTlsAlign (soReadTls s.phdrs).align)
        mainOff := 0
        soTlsOut := soTlsImage s
      } := by
  have hne : tls.memsz ≠ 0 := by
    intro hzero
    rw [hzero] at hpos
    exact absurd hpos (by decide)
  have hlt : 0 < (soReadTls s.phdrs).memsz :=
    hsoPos
  simp only [elfDynPrepare, if_pos hlt, if_neg hne]

theorem elfDynApply_alone (tls : Tls) {so : Option Module} (hso : (soTls so).memsz.toNat = 0)
    : ∃ image, (image = none ∨ image = some fun _ => 0) ∧ elfDynApply tls so = (tls, image, 0) := by
  cases so with
  | none => exact ⟨none, .inl rfl, rfl⟩
  | some s =>
    refine ⟨some fun _ => 0, .inr rfl, ?_⟩
    have hnot : ¬0 < (soReadTls s.phdrs).memsz := by
      rw [BitVec.lt_def]
      have hzero : (soReadTls s.phdrs).memsz.toNat = 0 := hso
      rw [hzero]
      decide
    simp only [elfDynApply, elfDynPrepare, if_neg hnot]

theorem elfDynPrepare_align (tls : Tls) (hpos : 0 < (soReadTls s.phdrs).memsz.toNat)
    : (elfDynPrepare tls s).tls.align = dlTlsAlign (soReadTls s.phdrs).align := by
  cases Nat.eq_zero_or_pos tls.memsz.toNat with
  | inl hzero => rw [elfDynPrepare_object hpos hzero]
  | inr hmain => rw [elfDynPrepare_both tls hmain hpos]

theorem elfDynApply_object (tls : Tls) (hpos : 0 < (soReadTls s.phdrs).memsz.toNat)
    : elfDynApply tls (some s) = ((elfDynPrepare tls s).tls, some (soTlsImage s), 0) := by
  cases Nat.eq_zero_or_pos tls.memsz.toNat with
  | inl hzero => simp only [elfDynApply, elfDynPrepare_object hpos hzero]
  | inr hmain => simp only [elfDynApply, elfDynPrepare_both tls hmain hpos]

theorem mergedBlock_of_setUp {main : Module}
    {b : TlsBlock} (halloc : UserAlloc alloc) (hso : (soReadTls s.phdrs).Aligned)
    (hpos : 0 < (soReadTls s.phdrs).memsz.toNat)
    (h : setUpTls (elfDynPrepare (loadTls main.phdrs) s).tls
      (some (soTlsImage s)) 0 main.file alloc mem
      = some (some b))
    : MergedBlock main s b := by
  have halign := elfDynPrepare_align (loadTls main.phdrs) hpos
  have hne := (dlTlsAlign_pow (hso.pow hpos)).ne_zero
  have hbuilt := setUpTls_some halloc (by rw [halign]; exact hne) h
  rw [halign] at hbuilt
  exact hbuilt

end ELF
