import Skyline.ELF.Basic

/-!
This module contains the thread-local storage of a new process.
-/

namespace ELF

open Bytes

structure Tls where
  offset : BitVec 64
  memsz : BitVec 64
  filesz : BitVec 64
  align : BitVec 64
  deriving DecidableEq, Repr

structure Module where
  phdrs : List Phdr
  file : Memory

def loadTls (phdrs : List Phdr) : Tls :=
  let record (tls : Tls) (ph : Phdr) : Tls :=
    if ph.type = ptTls then ⟨ph.offset, ph.memsz, ph.filesz, ph.align⟩ else tls
  phdrs.foldl record ⟨0, 0, 0, 0⟩

def soReadTls (phdrs : List Phdr) : Tls :=
  let record (tls : Tls) (ph : Phdr) : Tls :=
    if ph.type = ptTls then
      ⟨ph.offset, ph.memsz, ph.filesz, if ph.align ≠ 0 then ph.align else 8⟩
    else
      tls
  phdrs.foldl record ⟨0, 0, 0, 8⟩

def fileBytes (file : Memory) (offset : BitVec 64) : Nat → UInt8 :=
  fun i => file (offset + BitVec.ofNat 64 i)

def soTlsCap : BitVec 64 := 4096

structure Layout where
  tls : Tls
  soBase : BitVec 64
  fsOff : BitVec 64
  mainOff : BitVec 64
  soTlsOut : Nat → UInt8

def dlTlsAlign (align : BitVec 64) : BitVec 64 :=
  if 1 < align then align else 8

def soTlsImage (so : Module) : Nat → UInt8 :=
  let tls := soReadTls so.phdrs
  if tls.filesz ≤ soTlsCap ∧ 0 < tls.filesz then
    fun i => if i < tls.filesz.toNat then fileBytes so.file tls.offset i else 0
  else
    fun _ => 0

def elfDynPrepare (tls : Tls) (so : Module) : Layout :=
  let soTls := soReadTls so.phdrs
  if 0 < soTls.memsz then
    let soAlign := dlTlsAlign soTls.align
    if tls.memsz = 0 then
      {
        tls := ⟨0, soTls.memsz, 0, soAlign⟩
        soBase := 0
        fsOff := dlAlignUp soTls.memsz soAlign
        mainOff := 0
        soTlsOut := soTlsImage so
      }
    else
      let soBase := dlAlignUp tls.memsz soAlign
      {
        tls := { tls with memsz := soBase + soTls.memsz, align := soAlign }
        soBase
        fsOff := dlAlignUp (soBase + soTls.memsz) soAlign
        mainOff := 0
        soTlsOut := soTlsImage so
      }
  else
    {
      tls
      soBase := 0
      fsOff := dlAlignUp tls.memsz (dlTlsAlign tls.align)
      mainOff := 0
      soTlsOut := fun _ => 0
    }

def Layout.tpoff (layout : Layout) (isSo : Bool) (addend : BitVec 64) : BitVec 64 :=
  (if isSo then layout.soBase else 0) + addend - layout.fsOff

def elfDynApply (tls : Tls) (so : Option Module) : Tls × Option (Nat → UInt8) × BitVec 64 :=
  match so with
  | none => (tls, none, 0)
  | some so =>
    let layout := elfDynPrepare tls so
    (layout.tls, some layout.soTlsOut, layout.mainOff)

structure TlsBlock where
  tlsBase : BitVec 64
  tlsPages : BitVec 64
  fs : BitVec 64
  mem : Memory

def fillTls (mem : Memory) (tlsMem tlsPages tcbBase : BitVec 64) (tls : Tls)
    (image : Option (Nat → UInt8)) (mainOff : BitVec 64) (buffer : Memory) : Memory :=
  let mem := mem.fill tlsMem (tlsPages * pageSize).toNat 0
  let mem :=
    match image with
    | none => mem
    | some image => mem.copy tlsMem soTlsCap.toNat image
  let mem := mem.copy (tlsMem + mainOff) tls.filesz.toNat (fileBytes buffer tls.offset)
  mem.store64 tcbBase tcbBase

def setUpTls (tls : Tls) (image : Option (Nat → UInt8)) (mainOff : BitVec 64) (buffer : Memory)
    (alloc : BitVec 64 → Option (BitVec 64)) (mem : Memory) : Option (Option TlsBlock) :=
  if 0 < tls.memsz then
    let align := if tls.align = 0 then 16 else tls.align
    let tlsPages := divRoundUp (alignUp tls.memsz align + 8) pageSize
    match alloc tlsPages with
    | none => none
    | some tlsMem =>
      let tcbBase := tlsMem + alignUp tls.memsz align
      some (some {
        tlsBase := tlsMem
        tlsPages
        fs := tcbBase
        mem := fillTls mem tlsMem tlsPages tcbBase tls image mainOff buffer
      })
  else
    some none

def sysLoadTls (main : Module) (so : Option Module) (alloc : BitVec 64 → Option (BitVec 64))
    (mem : Memory) : Option (Option TlsBlock) :=
  let (tls, image, mainOff) := elfDynApply (loadTls main.phdrs) so
  setUpTls tls image mainOff main.file alloc mem

end ELF
