import Skyline.ELF.Basic
import Skyline.VMM.Basic

/-!
This module contains the pages of a new process.
-/

namespace ELF

open VMM (mmRead mmWrite mmUser mmNx pteKeep has)

inductive PageSize where
  | small
  | huge
  | giant
  deriving DecidableEq, Repr

structure Page where
  frame : BitVec 40
  size : PageSize
  flags : BitVec 64
  deriving DecidableEq, Repr

def Table := Nat → Option Page

def tablePages : Nat := 2 ^ 36

def userPages : Nat := 2 ^ 35

namespace Table

def fresh (kernel : Table) : Table :=
  fun q => if q < userPages then none else kernel q

def getPageInfo (t : Table) (p : Nat) : Option Page :=
  t (p % tablePages)

def getPhysics (t : Table) (p : Nat) : BitVec 40 :=
  match t.getPageInfo p with
  | none => 0
  | some page => page.frame

def map4K (t : Table) (p : Nat) (frame : BitVec 40) (flags : BitVec 64) : Table :=
  fun q => if q = p % tablePages then some ⟨frame, .small, flags &&& pteKeep⟩ else t q

def map2M (t : Table) (p : Nat) (frame : BitVec 40) (flags : BitVec 64) : Table :=
  fun q =>
    if q / 512 = p % tablePages / 512 then some ⟨frame / 512 * 512, .huge, flags &&& pteKeep⟩
      else t q

end Table

structure Image where
  ident : Nat → UInt8
  type : BitVec 16
  machine : BitVec 16
  entry : BitVec 64
  phoff : BitVec 64
  phdrs : List Phdr

inductive LoadError where
  | refused
  | noMemory
  | fault
  deriving DecidableEq, Repr

def openFlags : BitVec 64 :=
  mmRead ||| mmWrite ||| mmUser

def Phdr.executable (ph : Phdr) : Bool :=
  ph.flags &&& 1 != 0

def Phdr.writable (ph : Phdr) : Bool :=
  ph.flags &&& 2 != 0

def Phdr.prot (ph : Phdr) : BitVec 64 :=
  mmRead ||| mmUser ||| (if ph.writable && !ph.executable then mmWrite else 0) |||
    (if ph.executable then 0 else mmNx)

def Phdr.pages (ph : Phdr) (bias : BitVec 64) : List Nat :=
  let va := ph.vaddr + bias
  let start := va.toNat / 4096
  List.range' start ((alignUp (va + ph.memsz) pageSize).toNat / 4096 - start)

def Phdr.fileBytes (ph : Phdr) : BitVec 64 :=
  if ph.memsz < ph.filesz then ph.memsz else ph.filesz

def tighten (prot : BitVec 64) (t : Table) (skip : Nat) (pages : List Nat) : Table :=
  match pages with
  | [] => t
  | p :: pages =>
    match skip with
    | skip + 1 => tighten prot t skip pages
    | 0 =>
      match t.getPageInfo p with
      | some ⟨frame, .huge, _⟩ => tighten prot (t.map2M p frame prot) 511 pages
      | some ⟨frame, .small, _⟩ => tighten prot (t.map4K p frame prot) 0 pages
      | _ => tighten prot t 0 pages

def loadBias (img : Image) (rv : BitVec 64) : BitVec 64 :=
  if img.type = 3 then 0x10000000 + (rv >>> 12) % 0x3F00000 * 4096 else 0

def acceptHeader (img : Image) (dataLen : BitVec 64) : Bool :=
  let phnum := BitVec.ofNat 64 img.phdrs.length
  (img.ident 0 = 0x7f ∧ img.ident 1 = 0x45 ∧ img.ident 2 = 0x4c ∧ img.ident 3 = 0x46) &&
    (img.type = 3 ∨ img.type = 2) && img.ident 4 = 2 && img.machine = 62 &&
    (dataLen = 0 ||
      !(dataLen < 64 || (phnum = 0 || phnum = 0xFFFF) ||
        (dataLen ≤ img.phoff || dataLen < img.phoff + phnum * 56)))

def acceptSegment (ph : Phdr) (bias dataLen : BitVec 64) : Bool :=
  let va := ph.vaddr + bias
  !(dataLen != 0 && (dataLen < ph.offset || dataLen - ph.offset < ph.fileBytes)) &&
    !(userAddrLimit ≤ va.toNat || userAddrLimit ≤ (va + ph.memsz).toNat || va + ph.memsz < va)

def mapMissing (frame : Nat → BitVec 40) (t : Table) (pages : List Nat) : Table :=
  match pages with
  | [] => t
  | p :: pages =>
    if t.getPhysics p ≠ 0 then mapMissing frame t pages
    else mapMissing frame (t.map4K p (frame p) openFlags) pages

def mapSegments (frame : Nat → Nat → BitVec 40) (bias dataLen : BitVec 64) (t : Table) (i : Nat)
    (phdrs : List Phdr) : Except LoadError Table :=
  match phdrs with
  | [] => .ok t
  | ph :: phdrs =>
    if ph.type ≠ ptLoad then mapSegments frame bias dataLen t (i + 1) phdrs
    else if acceptSegment ph bias dataLen then
      mapSegments frame bias dataLen (mapMissing (frame i) t (ph.pages bias)) (i + 1) phdrs
    else .error .refused

def tightenSegments (bias : BitVec 64) (t : Table) (phdrs : List Phdr) : Table :=
  match phdrs with
  | [] => t
  | ph :: phdrs =>
    if ph.type ≠ ptLoad then tightenSegments bias t phdrs
    else tightenSegments bias (tighten ph.prot t 0 (ph.pages bias)) phdrs

def protoPage : Nat := 0x400

def mapProtocol (frame : BitVec 40) (t : Table) : Table :=
  if t.getPhysics protoPage ≠ 0 then t
  else if frame ≠ 0 then t.map4K protoPage frame openFlags
  else t

structure Frames where
  main : Nat → Nat → BitVec 40
  protocol : BitVec 40
  so : Nat → Nat → BitVec 40

def elfLoadImpl (frames : Frames) (img : Image) (dataLen rv : BitVec 64) (t : Table)
    : Except LoadError Table := do
  if acceptHeader img dataLen then
    let bias := loadBias img rv
    let t ← mapSegments frames.main bias dataLen t 0 img.phdrs
    let t := tightenSegments bias t img.phdrs
    let t := mapProtocol frames.protocol t
    if img.entry + bias = 0 then .error .refused else .ok t
  else
    .error .refused

def dlSoBase : BitVec 64 := 0x700000000000

def minVaddr (phdrs : List Phdr) : BitVec 64 :=
  phdrs.foldl (fun m ph => if ph.type = ptLoad ∧ ph.vaddr < m then ph.vaddr else m)
    (BitVec.allOnes 64)

def maxVaddr (phdrs : List Phdr) : BitVec 64 :=
  phdrs.foldl (fun m ph => if ph.type = ptLoad ∧ m < ph.vaddr + ph.memsz then ph.vaddr + ph.memsz
    else m) 0

def soBias (img : Image) : BitVec 64 :=
  dlSoBase - (minVaddr img.phdrs &&& ~~~(0x1000 - 1))

def dlMapMissing (frame : Nat → BitVec 40) (t : Table) (pages : List Nat)
    : Except LoadError Table :=
  match pages with
  | [] => .ok t
  | p :: pages =>
    if t.getPhysics p ≠ 0 then dlMapMissing frame t pages
    else if frame p = 0 then .error .noMemory
    else dlMapMissing frame (t.map4K p (frame p) openFlags) pages

def writeBytes (t : Table) (ph : Phdr) (bias : BitVec 64) : Bool :=
  let va := (ph.vaddr + bias).toNat
  ph.memsz = 0 ||
    (va + ph.memsz.toNat ≤ 2 ^ 47 || 2 ^ 64 - 2 ^ 47 ≤ va && va + ph.memsz.toNat ≤ 2 ^ 64) &&
    (ph.pages bias).all fun p => (t.getPageInfo p).any fun page => has page.flags mmWrite

def dlMapSegment (frame : Nat → BitVec 40) (bias len : BitVec 64) (t : Table) (ph : Phdr)
    : Except LoadError Table := do
  if len < ph.offset || len - ph.offset < ph.fileBytes then .error .refused
  else
    let t ← dlMapMissing frame t (ph.pages bias)
    if writeBytes t ph bias then .ok (tighten ph.prot t 0 (ph.pages bias)) else .error .fault

def dlMapLoop (frame : Nat → Nat → BitVec 40) (bias len : BitVec 64) (t : Table) (i : Nat)
    (phdrs : List Phdr) : Except LoadError Table :=
  match phdrs with
  | [] => .ok t
  | ph :: phdrs =>
    if ph.type ≠ ptLoad then dlMapLoop frame bias len t (i + 1) phdrs
    else
      match dlMapSegment (frame i) bias len t ph with
      | .ok t => dlMapLoop frame bias len t (i + 1) phdrs
      | .error e => .error e

def dlMapSegments (frames : Frames) (img : Image) (len : BitVec 64) (t : Table)
    : Except LoadError Table :=
  let phnum := BitVec.ofNat 64 img.phdrs.length
  if len < 64 || img.ident 0 ≠ 0x7f then .error .refused
  else if img.type ≠ 3 then .error .refused
  else if len < img.phoff + phnum * 56 then .error .refused
  else if minVaddr img.phdrs = BitVec.allOnes 64 || maxVaddr img.phdrs = 0 then .error .refused
  else dlMapLoop frames.so (soBias img) len t 0 img.phdrs

structure Program where
  main : Image
  dataLen : BitVec 64
  rv : BitVec 64
  so : Option (Image × BitVec 64)

def load (frames : Frames) (kernel : Table) (prog : Program) : Except LoadError Table := do
  let t ← elfLoadImpl frames prog.main prog.dataLen prog.rv (Table.fresh kernel)
  match prog.so with
  | none => .ok t
  | some (so, len) => dlMapSegments frames so len t

end ELF
