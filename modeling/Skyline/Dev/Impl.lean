import Skyline.Dev.Basic

/-!
This module contains the byte access to block devices.
-/

namespace Dev

open Bytes

variable (d : Device)

def tempSectorCount (address count : Nat) : Nat :=
  (((address + count) % 2 ^ 64 + 511) % 2 ^ 64 / 512 + (2 ^ 64 - address / 512)) % 2 ^ 64 % 2 ^ 32

def readSpan (read alloc : Bool) (address count buf : Nat) (noMem : World → Outcome)
    (failed : World → Outcome) (w : World) : Outcome :=
  let sectors := tempSectorCount address count
  let size := sectors * 512 % 2 ^ 32
  if alloc then
    if read then
      match d.readSectors w (address / 512) sectors with
      | (none, w) => failed w
      | (some buffer2, w) =>
        if size < sectors * 512 ∨ size < address % 512 + count then
          .error .overrun
        else
          .ok (true, { w with mem := w.mem.put buf count (buffer2.drop (address % 512)) })
    else
      .error .nullOp
  else
    noMem w

def patchSector (read write : Bool) (lba offset n : Nat) (src : Row) (w : World)
    (next : World → Outcome) : Outcome :=
  if read then
    match d.readSectors w lba 1 with
    | (none, w) => .ok (false, w)
    | (some buffer2, w) =>
      if 512 < offset + n then
        .error .overrun
      else if write then
        match d.writeSectors w lba 1 (buffer2.put offset n src) with
        | (true, w) => next w
        | (false, w) => .ok (false, w)
      else
        .error .nullOp
  else
    .error .nullOp

def writeSpan (read write alloc : Bool) (address count buf : Nat) (w : World) : Outcome :=
  if alloc then
    let offset := address % 512
    if tempSectorCount address count = 1 then
      patchSector d read write (address / 512) offset count (w.mem.drop buf) w
        fun w => .ok (true, w)
    else
      let addrOffset := 512 - offset
      patchSector d read write (address / 512) offset addrOffset (w.mem.drop buf) w fun w =>
      let addrEnd := (address + count) % 2 ^ 64
      let specialCount := addrEnd % 512
      let blehus := count - specialCount
      patchSector d read write (addrEnd / 512) 0 specialCount (w.mem.drop (buf + blehus)) w fun w =>
      -- neither difference is below zero, since there is more than one sector
      let newSectorCount := (count - addrOffset - specialCount) / 512
      if newSectorCount = 0 then
        .ok (true, w)
      else if write then
        .ok (d.writeSectors w ((address + addrOffset) % 2 ^ 64 / 512) (newSectorCount % 2 ^ 32)
          (w.mem.drop (buf + addrOffset)))
      else
        .error .nullOp
  else
    .error .nullBuffer

def pastEnd (address count : Nat) : Bool :=
  decide (d.maxSectorCount * 512 % 2 ^ 64 ≤ (address + count - 1) % 2 ^ 64)

def beyond (bytes address count : Nat) : Bool :=
  decide (bytes < address) || decide (bytes - address < count)

def sataBytes : Nat := d.maxSectorCount % 2 ^ 32 * 512 % 2 ^ 32

def sataLast (address count : Nat) : Bool :=
  decide (d.maxSectorCount % 2 ^ 32 < address / 512 + tempSectorCount address count)

def sataReadBytes (alloc : Bool) (address count buf : Nat) (w : World) : Outcome :=
  if count = 0 then
    .ok (true, w)
  else if beyond (sataBytes d) address count then
    .ok (false, w)
  else if sataLast d address count then
    .ok (false, w)
  else
    readSpan d true alloc address count buf (fun w => .ok (false, w)) (fun w => .ok (false, w)) w

def sataWriteBytes (alloc : Bool) (address count buf : Nat) (w : World) : Outcome :=
  if count = 0 then
    .ok (true, w)
  else if beyond (sataBytes d) address count then
    .ok (false, w)
  else if sataLast d address count then
    .ok (false, w)
  else
    writeSpan d true true alloc address count buf w

def readBytes (alloc : Bool) (address count buf : Nat) (w : World) : Outcome :=
  if d.undefined then
    .ok (false, w)
  else if d.ops.readBytes then
    sataReadBytes d alloc address count buf w
  else if count = 0 then
    .ok (true, w)
  else if pastEnd d address count then
    .ok (false, w)
  else
    readSpan d d.ops.read alloc address count buf (fun w => .ok (false, w))
      (fun w => .ok (false, w)) w

def writeBytes (alloc : Bool) (address count buf : Nat) (w : World) : Outcome :=
  if d.undefined then
    .ok (false, w)
  else if d.ops.writeBytes then
    sataWriteBytes d alloc address count buf w
  else if count = 0 then
    .ok (true, w)
  else if pastEnd d address count then
    .ok (false, w)
  else
    writeSpan d d.ops.read d.ops.write alloc address count buf w

def deviceReadSpan (read alloc : Bool) (offset nbytes buf : Nat) (w : World) : Outcome :=
  if nbytes = 0 then
    .ok (true, w)
  else if beyond (d.maxSectorCount * 512 % 2 ^ 64) offset nbytes then
    .ok (false, w)
  else
    readSpan d read alloc offset nbytes buf
      -- `_memset` of a buffer that is not there
      (fun _ => .error .nullBuffer)
      -- the buffer is copied after an error, too
      (fun w =>
        if tempSectorCount offset nbytes * 512 % 2 ^ 32 < offset % 512 + nbytes then
          .error .overrun
        else
          .ok (false, { w with mem := w.mem.put buf nbytes fun _ => 0 }))
      w

def deviceRead (alloc : Bool) (offset nbytes buf : Nat) (w : World) : Outcome :=
  if d.ops.readBytes then
    sataReadBytes d alloc offset (nbytes % 2 ^ 32) buf w
  else if d.ops.readBytes_ then
    .error .unknownOp
  else if !d.ops.read then
    deviceReadSpan d d.ops.read_ alloc offset nbytes buf w
  else if !d.ops.read_ then
    deviceReadSpan d d.ops.read alloc offset nbytes buf w
  else
    .ok (false, w)

def deviceWriteSpan (read write alloc : Bool) (offset nbytes buf : Nat) (w : World) : Outcome :=
  if nbytes = 0 then
    .ok (true, w)
  else if beyond (d.maxSectorCount * 512 % 2 ^ 64) offset nbytes then
    .ok (false, w)
  else
    writeSpan d read write alloc offset nbytes buf w

def deviceWrite (alloc : Bool) (offset nbytes buf : Nat) (w : World) : Outcome :=
  if d.ops.writeBytes then
    sataWriteBytes d alloc offset (nbytes % 2 ^ 32) buf w
  else if d.ops.writeBytes_ then
    .error .unknownOp
  else if d.ops.read_ then
    deviceWriteSpan d d.ops.read d.ops.write alloc offset nbytes buf w
  else if d.ops.read then
    deviceWriteSpan d d.ops.read_ d.ops.write_ alloc offset nbytes buf w
  else
    .ok (false, w)

end Dev
