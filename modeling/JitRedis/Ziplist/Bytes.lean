import JitRedis.Lib.BigEndian
import JitRedis.Util.Blocks
import JitRedis.Ziplist.Model

/-!
# Ziplists, byte by byte

Model of `src/ziplist.c` on the allocated block. A pointer into the block is an offset, `none` is `NULL`, and an access to
other bytes is a fault. What `zrealloc` adds is arbitrary: `junk` gives it for every reallocation of a call. The machine is
little endian, and `unsigned int` has 32 bits.
-/

namespace JitRedis.RawZiplist

/-- A value of type `unsigned int`. -/
def uint (n : Nat) : Nat := n % 2 ^ 32

def zipEnd : UInt8 := 255

def ziplistHeaderSize : Nat := 10

def ziplistBytes (zl : Bytes) : Except Fault Nat := numberAt zl 0 4

def ziplistTailOffset (zl : Bytes) : Except Fault Nat := numberAt zl 4 4

def ziplistLength (zl : Bytes) : Except Fault Nat := numberAt zl 8 2

/-- Assign to `ZIPLIST_BYTES`. -/
def ziplistSetBytes (zl : Bytes) (v : Nat) : Except Fault Bytes := putNumber zl 0 4 v

/-- Assign to `ZIPLIST_TAIL_OFFSET`. -/
def ziplistSetTailOffset (zl : Bytes) (v : Nat) : Except Fault Bytes := putNumber zl 4 4 v

/-- Assign to `ZIPLIST_LENGTH`. -/
def ziplistSetLength (zl : Bytes) (v : Nat) : Except Fault Bytes := putNumber zl 8 2 v

/-- `ZIPLIST_INCR_LENGTH`; the sum is stored in 16 bits. -/
def ziplistIncrLength (zl : Bytes) (incr : Int) : Except Fault Bytes := do
  let len ← ziplistLength zl
  if len < 65535 then ziplistSetLength zl ((len + incr) % 2 ^ 16).toNat else .ok zl

/-- `zlentry`, without the pointer to the entry. -/
structure Zlentry where
  prevrawlensize : Nat
  prevrawlen : Nat
  lensize : Nat
  len : Nat
  headersize : Nat
  encoding : UInt8
  deriving DecidableEq, Repr

def zipIsStr (encoding : UInt8) : Bool := encoding &&& 0xC0 < 0xC0

def zipEntryEncoding (b : UInt8) : UInt8 := if b < 0xC0 then b &&& 0xC0 else b

def zipIntSize (encoding : UInt8) : Except Fault Nat :=
  if encoding = 0xFE then .ok 1
  else if encoding = 0xC0 then .ok 2
  else if encoding = 0xF0 then .ok 3
  else if encoding = 0xD0 then .ok 4
  else if encoding = 0xE0 then .ok 8
  else if 0xF1 ≤ encoding ∧ encoding ≤ 0xFD then .ok 0
  else .error .assertFailed

/-- What `zipStoreEntryEncoding` stores; the function returns its length. -/
def zipStoreEntryEncoding (encoding : UInt8) (rawlen : Nat) : Bytes :=
  if zipIsStr encoding then
    if rawlen ≤ 0x3F then [UInt8.ofNat (0x00 ||| rawlen)]
    else if rawlen ≤ 0x3FFF then [UInt8.ofNat (0x40 ||| ((rawlen >>> 8) &&& 0x3F)), UInt8.ofNat (rawlen &&& 0xFF)]
    else 0x80 :: BigEndian.encode 4 rawlen
  else [encoding]

/-- `ZIP_DECODE_LENGTH`: `encoding`, `lensize` and `len`. -/
def zipDecodeLength (zl : Bytes) (p : Nat) : Except Fault (UInt8 × Nat × Nat) := do
  let b ← byteAt zl p
  let encoding := zipEntryEncoding b
  if encoding < 0xC0 then
    if encoding = 0x00 then .ok (encoding, 1, (b &&& 0x3F).toNat)
    else if encoding = 0x40 then do
      let c ← byteAt zl (p + 1)
      .ok (encoding, 2, ((b &&& 0x3F).toNat <<< 8) ||| c.toNat)
    else if encoding = 0x80 then do
      let bytes ← Memory.load Fault.badAccess zl (p + 1) 4
      .ok (encoding, 5, BigEndian.decode bytes)
    else .error .assertFailed
  else do
    let len ← zipIntSize encoding
    .ok (encoding, 1, len)

/-- What is stored for a length in the large form (`zipStorePrevEntryLengthLarge`). -/
def prevlenLarge (len : Nat) : Bytes := 254 :: LittleEndian.encode 4 len

/-- What is stored for a length (`zipStorePrevEntryLength`). -/
def prevlenBytes (len : Nat) : Bytes := if len < 254 then [UInt8.ofNat len] else prevlenLarge len

/-- `zipStorePrevEntryLength` with `NULL`: the size of the field. -/
def prevlenSize (len : Nat) : Nat := if len < 254 then 1 else 5

def zipStorePrevEntryLengthLarge (zl : Bytes) (p len : Nat) : Except Fault Bytes :=
  Memory.store Fault.overflow zl p (prevlenLarge len)

def zipStorePrevEntryLength (zl : Bytes) (p len : Nat) : Except Fault Bytes :=
  Memory.store Fault.overflow zl p (prevlenBytes len)

def zipDecodePrevlensize (zl : Bytes) (p : Nat) : Except Fault Nat := do
  let b ← byteAt zl p
  .ok (if b < 254 then 1 else 5)

/-- `ZIP_DECODE_PREVLEN`: `prevlensize` and `prevlen`. -/
def zipDecodePrevlen (zl : Bytes) (p : Nat) : Except Fault (Nat × Nat) := do
  let b ← byteAt zl p
  if b < 254 then .ok (1, b.toNat)
  else do
    let prevlen ← numberAt zl (p + 1) 4
    .ok (5, prevlen)

def zipPrevLenByteDiff (zl : Bytes) (p len : Nat) : Except Fault Int := do
  let prevlensize ← zipDecodePrevlensize zl p
  .ok ((prevlenSize len : Int) - prevlensize)

def zipRawEntryLength (zl : Bytes) (p : Nat) : Except Fault Nat := do
  let prevlensize ← zipDecodePrevlensize zl p
  let (_, lensize, len) ← zipDecodeLength zl (p + prevlensize)
  .ok (uint (prevlensize + lensize + len))

def zipEntry (zl : Bytes) (p : Nat) : Except Fault Zlentry := do
  let (prevrawlensize, prevrawlen) ← zipDecodePrevlen zl p
  let (encoding, lensize, len) ← zipDecodeLength zl (p + prevrawlensize)
  .ok { prevrawlensize, prevrawlen, lensize, len, headersize := prevrawlensize + lensize, encoding }

/-- The encoding that `zipTryEncoding` chooses for an integer. -/
def zipIntEncoding (value : Int) : UInt8 :=
  if 0 ≤ value ∧ value ≤ 12 then UInt8.ofNat (0xF1 + value.toNat)
  else if -2 ^ 7 ≤ value ∧ value < 2 ^ 7 then 0xFE
  else if -2 ^ 15 ≤ value ∧ value < 2 ^ 15 then 0xC0
  else if -2 ^ 23 ≤ value ∧ value < 2 ^ 23 then 0xF0
  else if -2 ^ 31 ≤ value ∧ value < 2 ^ 31 then 0xD0
  else 0xE0

/-- What `zipSaveInteger` stores; of `value << 8` the first byte is left out. -/
def zipSaveInteger (value : Int) (encoding : UInt8) : Except Fault Bytes :=
  if encoding = 0xFE then .ok (LittleEndian.encodeInt 1 value)
  else if encoding = 0xC0 then .ok (LittleEndian.encodeInt 2 value)
  else if encoding = 0xF0 then .ok ((LittleEndian.encodeInt 4 (value * 256)).drop 1)
  else if encoding = 0xD0 then .ok (LittleEndian.encodeInt 4 value)
  else if encoding = 0xE0 then .ok (LittleEndian.encodeInt 8 value)
  else if 0xF1 ≤ encoding ∧ encoding ≤ 0xFD then .ok []
  else .error .assertFailed

/-- An integer of `w` bytes at `p`. -/
def integerAt (zl : Bytes) (p w : Nat) : Except Fault Int := do
  let bytes ← Memory.load Fault.badAccess zl p w
  .ok (LittleEndian.decodeInt bytes)

/-- `zipLoadInteger`; an integer of three bytes is read behind a zero byte and shifted. -/
def zipLoadInteger (zl : Bytes) (p : Nat) (encoding : UInt8) : Except Fault Int :=
  if encoding = 0xFE then integerAt zl p 1
  else if encoding = 0xC0 then integerAt zl p 2
  else if encoding = 0xD0 then integerAt zl p 4
  else if encoding = 0xF0 then do
    let bytes ← Memory.load Fault.badAccess zl p 3
    .ok (LittleEndian.decodeInt (0 :: bytes) / 256)
  else if encoding = 0xE0 then integerAt zl p 8
  else if 0xF1 ≤ encoding ∧ encoding ≤ 0xFD then .ok ((encoding &&& 0x0F).toNat - 1)
  else .error .assertFailed

def ziplistNew : Bytes :=
  LittleEndian.encode 4 11 ++ (LittleEndian.encode 4 ziplistHeaderSize ++ (LittleEndian.encode 2 0 ++ [zipEnd]))

/-- `ziplistResize`; the length has 32 bits. -/
def ziplistResize (junk : Nat → UInt8) (zl : Bytes) (len : Nat) : Except Fault Bytes := do
  let zl := Memory.realloc junk zl (uint len)
  let zl ← ziplistSetBytes zl (uint len)
  Memory.store Fault.overflow zl (uint len - 1) [zipEnd]

/-- Add to the tail offset, which has 32 bits, if a condition holds. -/
def ziplistShiftTail (zl : Bytes) (shift : Bool) (diff : Int) : Except Fault Bytes :=
  if shift then do
    let tail ← ziplistTailOffset zl
    ziplistSetTailOffset zl ((tail + diff) % 2 ^ 32).toNat
  else .ok zl

/-- Move the tail offset; `nextdiff` is taken into account if there is more than one entry. -/
def ziplistUpdateTail (zl : Bytes) (p : Nat) (moved nextdiff : Int) : Except Fault Bytes := do
  let zl ← ziplistShiftTail zl true moved
  let tail ← zipEntry zl p
  let n ← byteAt zl (p + uint (tail.headersize + tail.len))
  ziplistShiftTail zl (n ≠ zipEnd) nextdiff

/-- The part of `__ziplistCascadeUpdate` that gives the next entry, at `np`, a larger `prevlen` field. -/
def ziplistGrowPrevlen (junk : Nat → UInt8) (zl : Bytes) (np curlen rawlen prevrawlensize : Nat) : Except Fault Bytes := do
  let extra := prevlenSize rawlen - prevrawlensize
  let zl ← ziplistResize junk zl (curlen + extra)
  let tail ← ziplistTailOffset zl
  let zl ← ziplistShiftTail zl (tail ≠ np) extra
  let zl ← Memory.move Fault.badAccess Fault.overflow zl (np + prevlenSize rawlen) (np + prevrawlensize)
    (curlen - np - prevrawlensize - 1)
  zipStorePrevEntryLength zl np rawlen

/-- The loop of `__ziplistCascadeUpdate`; `turns` bounds the number of entries. -/
def ziplistCascadeLoop (junk : Nat → Nat → UInt8) : Nat → Bytes → Nat → Nat → Except Fault Bytes
  | 0, _, _, _ => .error .diverged
  | turns + 1, zl, p, curlen => do
    let b ← byteAt zl p
    if b = zipEnd then .ok zl
    else do
      let cur ← zipEntry zl p
      let rawlen := uint (cur.headersize + cur.len)
      let n ← byteAt zl (p + rawlen)
      if n = zipEnd then .ok zl
      else do
        let next ← zipEntry zl (p + rawlen)
        if next.prevrawlen = rawlen then .ok zl
        else if next.prevrawlensize < prevlenSize rawlen then do
          let zl ← ziplistGrowPrevlen (junk turns) zl (p + rawlen) curlen rawlen next.prevrawlensize
          ziplistCascadeLoop junk turns zl (p + rawlen) (curlen + (prevlenSize rawlen - next.prevrawlensize))
        else if prevlenSize rawlen < next.prevrawlensize then zipStorePrevEntryLengthLarge zl (p + rawlen) rawlen
        else zipStorePrevEntryLength zl (p + rawlen) rawlen

def ziplistCascadeUpdate (junk : Nat → Nat → UInt8) (zl : Bytes) (p : Nat) : Except Fault Bytes := do
  let curlen ← ziplistBytes zl
  ziplistCascadeLoop junk zl.length zl p curlen

/-- The loop of `__ziplistDelete`: the pointer behind the entries to delete, and how many there are. -/
def ziplistSkip (zl : Bytes) : Nat → Nat → Nat → Except Fault (Nat × Nat)
  | 0, p, deleted => .ok (p, deleted)
  | num + 1, p, deleted => do
    let b ← byteAt zl p
    if b = zipEnd then .ok (p, deleted)
    else do
      let len ← zipRawEntryLength zl p
      ziplistSkip zl num (p + len) (deleted + 1)

/-- The part of `__ziplistDelete` that moves the entries from `q` on to `p`; also `nextdiff`. -/
def ziplistCloseGap (zl : Bytes) (p q prevrawlen totlen : Nat) : Except Fault (Bytes × Int) := do
  let b ← byteAt zl q
  if b ≠ zipEnd then do
    let nextdiff ← zipPrevLenByteDiff zl q prevrawlen
    let q := (q - nextdiff).toNat
    let zl ← zipStorePrevEntryLength zl q prevrawlen
    let zl ← ziplistUpdateTail zl q (-totlen) nextdiff
    let bytes ← ziplistBytes zl
    let zl ← Memory.move Fault.badAccess Fault.overflow zl p q (bytes - q - 1)
    .ok (zl, nextdiff)
  else do
    let zl ← ziplistSetTailOffset zl (uint (p - prevrawlen))
    .ok (zl, 0)

/-- Cascade if the next entry changed its size. -/
def ziplistCascadeIf (junk : Nat → Nat → UInt8) (zl : Bytes) (p : Nat) (nextdiff : Int) : Except Fault Bytes :=
  if nextdiff ≠ 0 then ziplistCascadeUpdate junk zl p else .ok zl

/-- `__ziplistDelete` -/
def ziplistDeleteEntries (junk : Nat → Nat → UInt8) (zl : Bytes) (p num : Nat) : Except Fault Bytes := do
  let first ← zipEntry zl p
  let (q, deleted) ← ziplistSkip zl num p 0
  let totlen := uint (q - p)
  if 0 < totlen then do
    let (zl, nextdiff) ← ziplistCloseGap zl p q first.prevrawlen totlen
    let bytes ← ziplistBytes zl
    let zl ← ziplistResize (junk 0) zl ((bytes : Int) - totlen + nextdiff).toNat
    let zl ← ziplistIncrLength zl (-deleted)
    ziplistCascadeIf (fun i => junk (i + 1)) zl p nextdiff
  else .ok zl

/-- A string with a length of type `unsigned int`. -/
abbrev ZipString := { s : Bytes // s.length < 2 ^ 32 }

/-- `encoding` of `__ziplistInsert`, 0 for a string. -/
def zipEncodingOf (s : Bytes) : UInt8 :=
  match zipTryEncoding s with
  | some value => zipIntEncoding value
  | none => 0

/-- `reqlen` of `__ziplistInsert` for the payload. -/
def zipReqlen (s : Bytes) : Except Fault Nat :=
  match zipTryEncoding s with
  | some _ => zipIntSize (zipEncodingOf s)
  | none => .ok s.length

/-- The payload that `__ziplistInsert` writes; `value` has a default that is not used. -/
def zipPayload (s : Bytes) : Except Fault Bytes :=
  if zipIsStr (zipEncodingOf s) then .ok s
  else zipSaveInteger ((zipTryEncoding s).getD 123456789) (zipEncodingOf s)

/-- `prevlen` of `__ziplistInsert`. -/
def ziplistPrevlen (zl : Bytes) (p : Nat) : Except Fault Nat := do
  let b ← byteAt zl p
  if b ≠ zipEnd then do
    let (_, prevlen) ← zipDecodePrevlen zl p
    .ok prevlen
  else do
    let ptail ← ziplistTailOffset zl
    let t ← byteAt zl ptail
    if t ≠ zipEnd then zipRawEntryLength zl ptail else .ok 0

/-- `nextdiff` and `forcelarge` of `__ziplistInsert`. -/
def ziplistNextdiff (zl : Bytes) (p reqlen : Nat) : Except Fault (Int × Bool) := do
  let b ← byteAt zl p
  if b ≠ zipEnd then do
    let nextdiff ← zipPrevLenByteDiff zl p (uint reqlen)
    if nextdiff = -4 ∧ reqlen < 4 then .ok (0, true) else .ok (nextdiff, false)
  else .ok (0, false)

/-- Store the length of the new entry in the next one. -/
def ziplistStoreReqlen (zl : Bytes) (p reqlen : Nat) (forcelarge : Bool) : Except Fault Bytes :=
  if forcelarge then zipStorePrevEntryLengthLarge zl p (uint reqlen) else zipStorePrevEntryLength zl p (uint reqlen)

/-- The part of `__ziplistInsert` that makes room for an entry of `reqlen` bytes at `p`. -/
def ziplistMakeRoom (zl : Bytes) (p curlen reqlen : Nat) (nextdiff : Int) (forcelarge : Bool) : Except Fault Bytes := do
  let b ← byteAt zl p
  if b ≠ zipEnd then do
    let zl ← Memory.move Fault.badAccess Fault.overflow zl (p + reqlen) (p - nextdiff).toNat
      ((curlen : Int) - p - 1 + nextdiff).toNat
    let zl ← ziplistStoreReqlen zl (p + reqlen) reqlen forcelarge
    ziplistUpdateTail zl (p + reqlen) reqlen nextdiff
  else ziplistSetTailOffset zl (uint p)

/-- The part of `__ziplistInsert` that writes the entry. -/
def ziplistWriteEntry (zl : Bytes) (p prevlen : Nat) (s : Bytes) : Except Fault Bytes := do
  let zl ← zipStorePrevEntryLength zl p prevlen
  let header := zipStoreEntryEncoding (zipEncodingOf s) s.length
  let zl ← Memory.store Fault.overflow zl (p + prevlenSize prevlen) header
  let payload ← zipPayload s
  let zl ← Memory.store Fault.overflow zl (p + prevlenSize prevlen + header.length) payload
  ziplistIncrLength zl 1

def ziplistInsert (junk : Nat → Nat → UInt8) (zl : Bytes) (p : Nat) (s : ZipString) : Except Fault Bytes := do
  let curlen ← ziplistBytes zl
  let prevlen ← ziplistPrevlen zl p
  let reqlen ← zipReqlen s.1
  let reqlen := reqlen + prevlenSize prevlen + (zipStoreEntryEncoding (zipEncodingOf s.1) s.1.length).length
  let (nextdiff, forcelarge) ← ziplistNextdiff zl p reqlen
  let zl ← ziplistResize (junk 0) zl ((curlen : Int) + reqlen + nextdiff).toNat
  let zl ← ziplistMakeRoom zl p curlen reqlen nextdiff forcelarge
  let zl ← ziplistCascadeIf (fun i => junk (i + 1)) zl (p + reqlen) nextdiff
  ziplistWriteEntry zl p prevlen s.1

def ziplistPush (junk : Nat → Nat → UInt8) (zl : Bytes) (s : ZipString) (head : Bool) : Except Fault Bytes :=
  if head then ziplistInsert junk zl ziplistHeaderSize s
  else do
    let bytes ← ziplistBytes zl
    ziplistInsert junk zl (bytes - 1) s

/-- Copy the entries of the source into the target of `ziplistMerge`, which has been extended. -/
def ziplistMergeCopy (target source : Bytes) (append : Bool) (target_bytes source_bytes : Nat) : Except Fault Bytes :=
  if append then do
    let entries ← Memory.load Fault.badAccess source ziplistHeaderSize (source_bytes - ziplistHeaderSize)
    Memory.store Fault.overflow target (target_bytes - 1) entries
  else do
    let target ← Memory.move Fault.badAccess Fault.overflow target (source_bytes - 1) ziplistHeaderSize
      (target_bytes - ziplistHeaderSize)
    let entries ← Memory.load Fault.badAccess source 0 (source_bytes - 1)
    Memory.store Fault.overflow target 0 entries

/-- `ziplistMerge` of two distinct ziplists: the result, and whether the buffer of `first` was kept. -/
def ziplistMerge (junk : Nat → Nat → UInt8) (first second : Bytes) : Except Fault (Bytes × Bool) := do
  let first_bytes ← ziplistBytes first
  let first_len ← ziplistLength first
  let second_bytes ← ziplistBytes second
  let second_len ← ziplistLength second
  let append := decide (second_len ≤ first_len)
  let zlbytes := first_bytes + second_bytes - ziplistHeaderSize - 1
  let zllength := if first_len + second_len < 65535 then first_len + second_len else 65535
  let first_offset ← ziplistTailOffset first
  let second_offset ← ziplistTailOffset second
  let target := Memory.realloc (junk 0) (if append then first else second) zlbytes
  let target ← ziplistMergeCopy target (if append then second else first) append
    (if append then first_bytes else second_bytes) (if append then second_bytes else first_bytes)
  let target ← ziplistSetBytes target (uint zlbytes)
  let target ← ziplistSetLength target zllength
  let target ← ziplistSetTailOffset target (uint (first_bytes - 1 + (second_offset - ziplistHeaderSize)))
  let target ← ziplistCascadeUpdate (fun i => junk (i + 1)) target first_offset
  .ok (target, append)

/-- The loop of `ziplistIndex` from the head. -/
def ziplistIndexForward (zl : Bytes) : Nat → Nat → Except Fault (Option Nat)
  | index, p => do
    let b ← byteAt zl p
    if b = zipEnd then .ok none
    else match index with
      | 0 => .ok (some p)
      | index + 1 => do
        let len ← zipRawEntryLength zl p
        ziplistIndexForward zl index (p + len)

/-- The loop of `ziplistIndex` from the tail, with the `prevlen` of the entry at `p`. -/
def ziplistIndexBackward (zl : Bytes) : Nat → Nat → Nat → Except Fault (Option Nat)
  | 0, p, _ => .ok (some p)
  | index + 1, p, prevlen =>
    if 0 < prevlen then do
      let (_, prevlen') ← zipDecodePrevlen zl (p - prevlen)
      ziplistIndexBackward zl index (p - prevlen) prevlen'
    else .ok none

def ziplistIndex (zl : Bytes) (index : Int) : Except Fault (Option Nat) :=
  if index < 0 then do
    let p ← ziplistTailOffset zl
    let b ← byteAt zl p
    if b = zipEnd then .ok none
    else do
      let (_, prevlen) ← zipDecodePrevlen zl p
      ziplistIndexBackward zl (-index - 1).toNat p prevlen
  else ziplistIndexForward zl index.toNat ziplistHeaderSize

/-- `ziplistDelete`: one entry, and the pointer to the entry that follows. -/
def ziplistDelete (junk : Nat → Nat → UInt8) (zl : Bytes) (p : Nat) : Except Fault (Bytes × Nat) := do
  let zl ← ziplistDeleteEntries junk zl p 1
  .ok (zl, p)

def ziplistDeleteRange (junk : Nat → Nat → UInt8) (zl : Bytes) (index : Int) (num : Nat) : Except Fault Bytes := do
  let p ← ziplistIndex zl index
  match p with
  | none => .ok zl
  | some p => ziplistDeleteEntries junk zl p num

/-- What `ziplistGet` returns: a pointer with a length, or an integer. -/
inductive ZipGot where
  | str (p len : Nat)
  | int (v : Int)
  deriving DecidableEq, Repr

def ziplistGet (zl : Bytes) (p : Nat) : Except Fault (Option ZipGot) := do
  let b ← byteAt zl p
  if b = zipEnd then .ok none
  else do
    let entry ← zipEntry zl p
    if zipIsStr entry.encoding then .ok (some (.str (p + entry.headersize) entry.len))
    else do
      let v ← zipLoadInteger zl (p + entry.headersize) entry.encoding
      .ok (some (.int v))

/-- The loop of `ziplistLen`; `turns` bounds the number of entries. -/
def ziplistLenLoop (zl : Bytes) : Nat → Nat → Nat → Except Fault Nat
  | 0, _, _ => .error .diverged
  | turns + 1, p, len => do
    let b ← byteAt zl p
    if b = zipEnd then .ok len
    else do
      let raw ← zipRawEntryLength zl p
      ziplistLenLoop zl turns (p + raw) (uint (len + 1))

/-- The part of `ziplistLen` for an unknown length. -/
def ziplistLenScan (zl : Bytes) : Except Fault (Nat × Bytes) := do
  let len ← ziplistLenLoop zl zl.length ziplistHeaderSize 0
  if len < 65535 then do
    let zl ← ziplistSetLength zl len
    .ok (len, zl)
  else .ok (len, zl)

/-- `ziplistLen`, which may update the header. -/
def ziplistLen (zl : Bytes) : Except Fault (Nat × Bytes) := do
  let len ← ziplistLength zl
  if len < 65535 then .ok (len, zl) else ziplistLenScan zl

end JitRedis.RawZiplist
