import JitRedis.Listpack.Model
import JitRedis.Util.Blocks

/-!
# Listpacks, byte by byte

Model of `src/listpack.c` on the allocated block. A pointer into the block is an offset, `none` is `NULL`, and an access
to other bytes is a fault. What `lp_realloc` adds is arbitrary, and given by `junk`; allocations succeed.
-/

namespace JitRedis.RawListpack

/-- What the macros `LP_ENCODING_IS_…` tell about the first byte of an element. -/
inductive LpEncoding where
  | uint7
  | str6
  | int13
  | int16
  | int24
  | int32
  | int64
  | str12
  | str32
  | other
  deriving DecidableEq, Repr

/-- The macros in the order in which `lpCurrentEncodedSize` and `lpGet` try them. -/
def lpEncoding (b : UInt8) : LpEncoding :=
  if b &&& 0x80 = 0 then .uint7
  else if b &&& 0xC0 = 0x80 then .str6
  else if b &&& 0xE0 = 0xC0 then .int13
  else if b &&& 0xFF = 0xF1 then .int16
  else if b &&& 0xFF = 0xF2 then .int24
  else if b &&& 0xFF = 0xF3 then .int32
  else if b &&& 0xFF = 0xF4 then .int64
  else if b &&& 0xF0 = 0xE0 then .str12
  else if b &&& 0xFF = 0xF0 then .str32
  else .other

def lpGetTotalBytes (lp : Bytes) : Except Fault Nat := numberAt lp 0 4

def lpGetNumElements (lp : Bytes) : Except Fault Nat := numberAt lp 4 2

def lpSetTotalBytes (lp : Bytes) (v : Nat) : Except Fault Bytes := putNumber lp 0 4 v

def lpSetNumElements (lp : Bytes) (v : Nat) : Except Fault Bytes := putNumber lp 4 2 v

def lpHdrSize : Nat := 6

def lpHdrNumeleUnknown : Nat := 65535

def lpEof : UInt8 := 0xFF

def lpNew : Bytes := LittleEndian.encode 4 (lpHdrSize + 1) ++ LittleEndian.encode 2 0 ++ [lpEof]

/-- The bytes `intenc` that `lpEncodeGetType` stores for an integer. -/
def lpEncodeInt (v : Int) : Bytes :=
  if 0 ≤ v ∧ v ≤ 127 then [UInt8.ofNat v.toNat]
  else if -4096 ≤ v ∧ v ≤ 4095 then
    let u := (if v < 0 then 2 ^ 13 + v else v).toNat
    [UInt8.ofNat ((u >>> 8) ||| 0xC0), UInt8.ofNat (u &&& 0xFF)]
  else if -32768 ≤ v ∧ v ≤ 32767 then 0xF1 :: LittleEndian.encode 2 (if v < 0 then 2 ^ 16 + v else v).toNat
  else if -8388608 ≤ v ∧ v ≤ 8388607 then 0xF2 :: LittleEndian.encode 3 (if v < 0 then 2 ^ 24 + v else v).toNat
  else if -2147483648 ≤ v ∧ v ≤ 2147483647 then
    0xF3 :: LittleEndian.encode 4 (if v < 0 then 2 ^ 32 + v else v).toNat
  else 0xF4 :: LittleEndian.encode 8 (v % 2 ^ 64).toNat

/-- The `enclen` of `lpEncodeGetType` for a string; `size` has 32 bits, and so has the sum. -/
def lpStringEnclen (size : Nat) : Nat :=
  if size < 64 then 1 + size else if size < 4096 then 2 + size else (5 + size) % 2 ^ 32

/-- What `lpEncodeString` writes. -/
def lpEncodeString (s : Bytes) : Bytes :=
  if s.length < 64 then UInt8.ofNat (s.length ||| 0x80) :: s
  else if s.length < 4096 then UInt8.ofNat ((s.length >>> 8) ||| 0xE0) :: UInt8.ofNat (s.length &&& 0xFF) :: s
  else 0xF0 :: (LittleEndian.encode 4 s.length ++ s)

/-- `lpEncodeGetType` with what is later written for its result: `enclen` and the bytes of the element. -/
def lpEncodeGetType (ele : Bytes) : Nat × Bytes :=
  match lpStringToInt64 ele with
  | some v => ((lpEncodeInt v).length, lpEncodeInt v)
  | none => (lpStringEnclen ele.length, lpEncodeString ele)

/-- `lpEncodeBacklen`: what is stored in `buf`; the function returns its length. -/
def lpEncodeBacklen (l : Nat) : Bytes :=
  if l ≤ 127 then [UInt8.ofNat l]
  else if l < 16383 then [UInt8.ofNat (l >>> 7), UInt8.ofNat ((l &&& 127) ||| 128)]
  else if l < 2097151 then
    [UInt8.ofNat (l >>> 14), UInt8.ofNat (((l >>> 7) &&& 127) ||| 128), UInt8.ofNat ((l &&& 127) ||| 128)]
  else if l < 268435455 then
    [UInt8.ofNat (l >>> 21), UInt8.ofNat (((l >>> 14) &&& 127) ||| 128), UInt8.ofNat (((l >>> 7) &&& 127) ||| 128),
      UInt8.ofNat ((l &&& 127) ||| 128)]
  else
    [UInt8.ofNat (l >>> 28), UInt8.ofNat (((l >>> 21) &&& 127) ||| 128), UInt8.ofNat (((l >>> 14) &&& 127) ||| 128),
      UInt8.ofNat (((l >>> 7) &&& 127) ||| 128), UInt8.ofNat ((l &&& 127) ||| 128)]

/-- The loop of `lpDecodeBacklen`; `shift` grows at most `turns` times, and `p` is one behind the byte that is read. -/
def lpDecodeBacklenLoop (lp : Bytes) : Nat → Nat → Nat → Nat → Except Fault Nat
  | 0, _, _, _ => .ok (2 ^ 64 - 1)
  | _ + 1, 0, _, _ => .error .badAccess
  | turns + 1, p + 1, shift, val => do
    let b ← byteAt lp p
    let val := val ||| ((b &&& 127).toNat <<< shift)
    if b &&& 128 = 0 then .ok val else lpDecodeBacklenLoop lp turns p (shift + 7) val

/-- `lpDecodeBacklen`, for a pointer to the byte before `p`. -/
def lpDecodeBacklen (lp : Bytes) (p : Nat) : Except Fault Nat := lpDecodeBacklenLoop lp 5 p 0 0

/-- `LP_ENCODING_12BIT_STR_LEN` -/
def lp12BitStrLen (b c : UInt8) : Nat := ((b &&& 0xF).toNat <<< 8) ||| c.toNat

/-- `lpCurrentEncodedSize`; the size has 32 bits. -/
def lpCurrentEncodedSize (lp : Bytes) (p : Nat) : Except Fault Nat := do
  let b ← byteAt lp p
  match lpEncoding b with
  | .uint7 => .ok 1
  | .str6 => .ok (1 + (b &&& 0x3F).toNat)
  | .int13 => .ok 2
  | .int16 => .ok 3
  | .int24 => .ok 4
  | .int32 => .ok 5
  | .int64 => .ok 9
  | .str12 => do
    let c ← byteAt lp (p + 1)
    .ok (2 + lp12BitStrLen b c)
  | .str32 => do
    let len ← numberAt lp (p + 1) 4
    .ok ((5 + len) % 2 ^ 32)
  | .other => .ok (if b = lpEof then 1 else 0)

def lpSkip (lp : Bytes) (p : Nat) : Except Fault Nat := do
  let entrylen ← lpCurrentEncodedSize lp p
  .ok (p + (entrylen + (lpEncodeBacklen entrylen).length))

/-- A pointer to an element, or `NULL` at the end of the listpack. -/
def lpUnlessEof (lp : Bytes) (p : Nat) : Except Fault (Option Nat) := do
  let b ← byteAt lp p
  .ok (if b = lpEof then none else some p)

def lpNext (lp : Bytes) (p : Nat) : Except Fault (Option Nat) := do
  let p ← lpSkip lp p
  lpUnlessEof lp p

def lpPrev (lp : Bytes) (p : Nat) : Except Fault (Option Nat) :=
  if p = lpHdrSize then .ok none
  else do
    let prevlen ← lpDecodeBacklen lp p
    let prevlen := prevlen + (lpEncodeBacklen prevlen).length
    if prevlen ≤ p then .ok (some (p - prevlen)) else .error .badAccess

def lpFirst (lp : Bytes) : Except Fault (Option Nat) := lpUnlessEof lp lpHdrSize

def lpLast (lp : Bytes) : Except Fault (Option Nat) := do
  let total ← lpGetTotalBytes lp
  lpPrev lp (total - 1)

/-- The loop of `lpLength`; `turns` bounds the number of elements. -/
def lpLengthLoop (lp : Bytes) : Nat → Option Nat → Nat → Except Fault Nat
  | _, none, count => .ok count
  | 0, some _, _ => .error .diverged
  | turns + 1, some p, count => do
    let p ← lpNext lp p
    lpLengthLoop lp turns p ((count + 1) % 2 ^ 32)

/-- The part of `lpLength` for an unknown count. -/
def lpLengthScan (lp : Bytes) : Except Fault (Nat × Bytes) := do
  let p ← lpFirst lp
  let count ← lpLengthLoop lp lp.length p 0
  if count < lpHdrNumeleUnknown then do
    let lp ← lpSetNumElements lp count
    .ok (count, lp)
  else .ok (count, lp)

/-- `lpLength`, which may update the header. -/
def lpLength (lp : Bytes) : Except Fault (Nat × Bytes) := do
  let numele ← lpGetNumElements lp
  if numele ≠ lpHdrNumeleUnknown then .ok (numele, lp) else lpLengthScan lp

/-- What `lpGet` returns: `NULL` and an integer, a pointer and a length, or the text in `intbuf`. -/
inductive LpGot where
  | int (v : Int)
  | inside (p count : Nat)
  | intbuf (text : Bytes) (count : Nat)
  deriving DecidableEq, Repr

/-- The two's complement rule of `lpGet`. -/
def lpSigned (uval negstart negmax : Nat) : Int := if negstart ≤ uval then -((negmax - uval : Nat) : Int) - 1 else uval

/-- The end of `lpGet`, for integer encodings; `LP_INTBUF_SIZE` is 21. -/
def lpGetInt (intbuf : Bool) (val : Int) : LpGot :=
  if intbuf then .intbuf ((ll2string val).take 20) (ll2string val).length else .int val

/-- `lpGet`; `intbuf` tells whether a buffer is passed. -/
def lpGet (lp : Bytes) (p : Nat) (intbuf : Bool) : Except Fault LpGot := do
  let b ← byteAt lp p
  match lpEncoding b with
  | .uint7 => .ok (lpGetInt intbuf (lpSigned (b &&& 0x7F).toNat (2 ^ 64 - 1) 0))
  | .str6 => .ok (.inside (p + 1) (b &&& 0x3F).toNat)
  | .int13 => do
    let c ← byteAt lp (p + 1)
    .ok (lpGetInt intbuf (lpSigned (((b &&& 0x1F).toNat <<< 8) ||| c.toNat) (2 ^ 12) 8191))
  | .int16 => do
    let uval ← numberAt lp (p + 1) 2
    .ok (lpGetInt intbuf (lpSigned uval (2 ^ 15) 65535))
  | .int24 => do
    let uval ← numberAt lp (p + 1) 3
    .ok (lpGetInt intbuf (lpSigned uval (2 ^ 23) 16777215))
  | .int32 => do
    let uval ← numberAt lp (p + 1) 4
    .ok (lpGetInt intbuf (lpSigned uval (2 ^ 31) 4294967295))
  | .int64 => do
    let uval ← numberAt lp (p + 1) 8
    .ok (lpGetInt intbuf (lpSigned uval (2 ^ 63) 18446744073709551615))
  | .str12 => do
    let c ← byteAt lp (p + 1)
    .ok (.inside (p + 2) (lp12BitStrLen b c))
  | .str32 => do
    let len ← numberAt lp (p + 1) 4
    .ok (.inside (p + 5) len)
  | .other => .ok (lpGetInt intbuf (lpSigned (12345678900000000 + b.toNat) (2 ^ 64 - 1) 0))

/-- The bytes that a caller finds at what `lpGet` returned; an integer is printed by the caller. -/
def LpGot.bytes (lp : Bytes) : LpGot → Except Fault Bytes
  | .int v => .ok (ll2string v)
  | .inside p count => Memory.load Fault.badAccess lp p count
  | .intbuf text count => Memory.load Fault.badAccess text 0 count

/-- The loop of `lpSeek` from left to right. -/
def lpSeekForward (lp : Bytes) : Nat → Option Nat → Except Fault (Option Nat)
  | _, none => .ok none
  | 0, some p => .ok (some p)
  | index + 1, some p => do
    let p ← lpNext lp p
    lpSeekForward lp index p

/-- The loop of `lpSeek` from right to left, for the index `-1 - steps`. -/
def lpSeekBackward (lp : Bytes) : Nat → Option Nat → Except Fault (Option Nat)
  | _, none => .ok none
  | 0, some p => .ok (some p)
  | steps + 1, some p => do
    let p ← lpPrev lp p
    lpSeekBackward lp steps p

/-- The scan of `lpSeek`, in the direction that was decided. -/
def lpSeekScan (lp : Bytes) (forward : Bool) (index : Int) : Except Fault (Option Nat) :=
  if forward then do
    let ele ← lpFirst lp
    lpSeekForward lp index.toNat ele
  else do
    let ele ← lpLast lp
    lpSeekBackward lp (-1 - index).toNat ele

/-- The part of `lpSeek` for a known count and an index that is not negative any more. -/
def lpSeekKnown (lp : Bytes) (numele : Nat) (index : Int) : Except Fault (Option Nat) :=
  if index < 0 then .ok none
  else if (numele : Int) ≤ index then .ok none
  else if ((numele / 2 : Nat) : Int) < index then lpSeekScan lp false (index - numele)
  else lpSeekScan lp true index

def lpSeek (lp : Bytes) (index : Int) : Except Fault (Option Nat) := do
  let numele ← lpGetNumElements lp
  if numele ≠ lpHdrNumeleUnknown then lpSeekKnown lp numele (if index < 0 then numele + index else index)
  else lpSeekScan lp (decide (0 ≤ index)) index

/-- An element with a size of 32 bits. -/
abbrev LpString := { s : Bytes // s.length < 2 ^ 32 }

/-- `where` of `lpInsert`. -/
inductive LpWhere where
  | before
  | after
  | replace
  deriving DecidableEq, Repr

/-- `enclen + backlen_size` -/
def lpEntrySize : Option LpString → Nat
  | some ele => (lpEncodeGetType ele.1).1 + (lpEncodeBacklen (lpEncodeGetType ele.1).1).length
  | none => 0

/-- `replaced_len`, of 32 bits. -/
def lpReplacedLen (lp : Bytes) (p : Nat) (replace : Bool) : Except Fault Nat :=
  if replace then do
    let len ← lpCurrentEncodedSize lp p
    .ok ((len + (lpEncodeBacklen len).length) % 2 ^ 32)
  else .ok 0

/-- Move the bytes behind the element. The two calls of `memmove` are one: for `LP_BEFORE` nothing is replaced. -/
def lpRelocate (junk : Nat → UInt8) (lp : Bytes) (old new p size replaced : Nat) : Except Fault Bytes := do
  let lp := if old < new then Memory.realloc junk lp new else lp
  let lp ← Memory.move Fault.badAccess Fault.overflow lp (p + size) (p + replaced) (old - p - replaced)
  .ok (if new < old then Memory.realloc junk lp new else lp)

/-- `newp` -/
def lpNewp (lp : Bytes) (ele : Option LpString) (p : Nat) : Except Fault (Option Nat) :=
  if ele.isNone then lpUnlessEof lp p else .ok (some p)

def lpStoreEntry (lp : Bytes) (p : Nat) : Option LpString → Except Fault Bytes
  | none => .ok lp
  | some ele => do
    let (enclen, enc) := lpEncodeGetType ele.1
    let lp ← Memory.store Fault.overflow lp p enc
    Memory.store Fault.overflow lp (p + enclen) (lpEncodeBacklen enclen)

def lpCountElement (lp : Bytes) (ele : Option LpString) (replace : Bool) : Except Fault Bytes :=
  if !replace || ele.isNone then do
    let num ← lpGetNumElements lp
    if num ≠ lpHdrNumeleUnknown then
      lpSetNumElements lp (if ele.isSome then num + 1 else (num + (2 ^ 32 - 1)) % 2 ^ 32)
    else .ok lp
  else .ok lp

/-- The part of `lpInsert` behind the relocation: `newp`, the entry and the header. -/
def lpWriteEntry (lp : Bytes) (ele : Option LpString) (p : Nat) (replace : Bool) (new : Nat) :
    Except Fault (Option (Bytes × Option Nat)) := do
  let newp ← lpNewp lp ele p
  let lp ← lpStoreEntry lp p ele
  let lp ← lpCountElement lp ele replace
  let lp ← lpSetTotalBytes lp new
  .ok (some (lp, newp))

/-- `lpInsert` for `LP_BEFORE` and `LP_REPLACE`, the two cases it deals with. -/
def lpInsertAt (junk : Nat → UInt8) (lp : Bytes) (ele : Option LpString) (p : Nat) (replace : Bool) :
    Except Fault (Option (Bytes × Option Nat)) := do
  let size := lpEntrySize ele
  let old ← lpGetTotalBytes lp
  let replaced ← lpReplacedLen lp p replace
  let new := (old + size + 2 ^ 64 - replaced) % 2 ^ 64
  if uint32Max < new then .ok none
  else do
    let lp ← lpRelocate junk lp old new p size replaced
    lpWriteEntry lp ele p replace new

/-- `lpInsert`: the new listpack with `newp`, or `NULL`. -/
def lpInsert (junk : Nat → UInt8) (lp : Bytes) (ele : Option LpString) (p : Nat) (w : LpWhere) :
    Except Fault (Option (Bytes × Option Nat)) :=
  match ele, w with
  | none, _ => lpInsertAt junk lp none p true
  | some ele, .replace => lpInsertAt junk lp (some ele) p true
  | some ele, .before => lpInsertAt junk lp (some ele) p false
  | some ele, .after => do
    let p ← lpSkip lp p
    lpInsertAt junk lp (some ele) p false

def lpAppend (junk : Nat → UInt8) (lp : Bytes) (ele : LpString) : Except Fault (Option (Bytes × Option Nat)) := do
  let total ← lpGetTotalBytes lp
  lpInsert junk lp (some ele) (total - 1) .before

def lpDelete (junk : Nat → UInt8) (lp : Bytes) (p : Nat) : Except Fault (Option (Bytes × Option Nat)) :=
  lpInsert junk lp none p .replace

end JitRedis.RawListpack
