import JitRedis.Util.Blocks
import JitRedis.Util.Replies

/-!
# Bit operations on strings

Model of `src/bitops.c`: the bit fields of `BITFIELD` with their overflow checks, and `BITOP`. A
string is its bytes, however the object is encoded. Machine integers behave as they do once compiled for a 64 bit
machine, where signed sums wrap around and a shift takes its count modulo 64; the C standard defines neither.
-/

namespace JitRedis.Bitops

/-- What a key holds: a string, or an object of another type. -/
inductive Value where
  | string (s : Bytes)
  | other
  deriving DecidableEq

abbrev Db := Bytes → Option Value

/-- `shared.wrongtypeerr` -/
def wrongtypeerr : Reply := addReplyError "WRONGTYPE Operation against a key holding the wrong kind of value"

/-- `shared.syntaxerr` -/
def syntaxerr : Reply := addReplyError "syntax error"

/-! ## Bit fields -/

/-- The shift of a 64 bit register by a count that may be the width of the register. -/
def shl (v : UInt64) (n : Nat) : UInt64 := v <<< UInt64.ofNat n

/-- `setUnsignedBitfield`, by the number of bits that are left. -/
def setUnsignedBitfield (p : Bytes) (offset : Nat) : Nat → UInt64 → Except Fault Bytes
  | 0, _ => .ok p
  | n + 1, value => do
    let bitval : UInt64 := if value &&& shl 1 n ≠ 0 then 1 else 0
    let byte := offset / 8
    let bit := 7 - offset % 8
    let byteval ← byteAt p byte
    let byteval := byteval.toUInt64 &&& ~~~shl 1 bit
    let byteval := byteval ||| shl bitval bit
    setUnsignedBitfield (p.set byte byteval.toUInt8) (offset + 1) n value

def setSignedBitfield (p : Bytes) (offset bits : Nat) (value : Int64) : Except Fault Bytes :=
  setUnsignedBitfield p offset bits value.toUInt64

/-- The loop of `getUnsignedBitfield`, by the number of bits that are left. -/
def getUnsignedBitfieldLoop (p : Bytes) (offset : Nat) : Nat → UInt64 → Except Fault UInt64
  | 0, value => .ok value
  | n + 1, value => do
    let byteval ← byteAt p (offset / 8)
    let bitval := (byteval.toUInt64 >>> UInt64.ofNat (7 - offset % 8)) &&& 1
    getUnsignedBitfieldLoop p (offset + 1) n (shl value 1 ||| bitval)

def getUnsignedBitfield (p : Bytes) (offset bits : Nat) : Except Fault UInt64 :=
  getUnsignedBitfieldLoop p offset bits 0

def getSignedBitfield (p : Bytes) (offset bits : Nat) : Except Fault Int64 := do
  let value ← getUnsignedBitfield p offset bits
  if value &&& shl 1 (bits - 1) ≠ 0 then .ok (value ||| shl (-1) bits).toInt64
  else .ok value.toInt64

/-- `BFOVERFLOW_*` -/
inductive Owtype where
  | wrap
  | sat
  | fail
  deriving DecidableEq

/-- How both overflow checks end, with what `*limit` is then: past the maximum, below the minimum, or neither. -/
def overflowResult {α : Type} (high low : Bool) (owtype : Owtype) (wrapped max min limit : α) : Int × α :=
  if high then
    match owtype with
    | .wrap => (1, wrapped)
    | .sat => (1, max)
    | .fail => (1, limit)
  else if low then
    match owtype with
    | .wrap => (1, wrapped)
    | .sat => (-1, min)
    | .fail => (-1, limit)
  else (0, limit)

/-- The code at `handle_wrap` in `checkUnsignedBitfieldOverflow`. -/
def wrapUnsigned (value : UInt64) (incr : Int64) (bits : Nat) : UInt64 :=
  let mask := shl (-1) bits
  (value + incr.toUInt64) &&& ~~~mask

def checkUnsignedBitfieldOverflow (value : UInt64) (incr : Int64) (bits : Nat) (owtype : Owtype) (limit : UInt64) :
    Int × UInt64 :=
  let max : UInt64 := if bits = 64 then -1 else shl 1 bits - 1
  let maxincr := (max - value).toInt64
  let minincr := (-value).toInt64
  overflowResult (value > max ∨ (incr > 0 ∧ incr > maxincr)) (incr < 0 ∧ incr < minincr) owtype
    (wrapUnsigned value incr bits) max 0 limit

/-- The code at `handle_wrap` in `checkSignedBitfieldOverflow`. -/
def wrapSigned (value incr : Int64) (bits : Nat) : Int64 :=
  let mask := shl (-1) bits
  let msb := shl 1 (bits - 1)
  let c := value.toUInt64 + incr.toUInt64
  if c &&& msb ≠ 0 then (c ||| mask).toInt64 else (c &&& ~~~mask).toInt64

def checkSignedBitfieldOverflow (value incr : Int64) (bits : Nat) (owtype : Owtype) (limit : Int64) : Int × Int64 :=
  let max : Int64 := if bits = 64 then Int64.maxValue else (shl 1 (bits - 1)).toInt64 - 1
  let min := -max - 1
  let maxincr := max - value
  let minincr := min - value
  overflowResult
    (value > max ∨ (bits ≠ 64 ∧ incr > maxincr) ∨ (value ≥ 0 ∧ incr > 0 ∧ incr > maxincr))
    (value < min ∨ (bits ≠ 64 ∧ incr < minincr) ∨ (value < 0 ∧ incr < 0 ∧ incr < minincr))
    owtype (wrapSigned value incr bits) max min limit

/-! ## The command `BITFIELD` -/

def getBitOffsetFromArgument (o : Bytes) (hash : Bool) (bits : Nat) : Except Reply Nat :=
  let err := addReplyError "bit offset is not an integer or out of range"
  let usehash := o.head? = some 35 ∧ hash ∧ 0 < bits
  match string2ll (if usehash then o.tail else o) with
  | none => .error err
  | some loffset =>
    let loffset := if usehash then (loffset * bits).bmod (2 ^ 64) else loffset
    if loffset < 0 ∨ 512 * 1024 * 1024 ≤ loffset / 8 then .error err else .ok loffset.toNat

/-- `getBitfieldTypeFromArgument`: whether the field is signed, and its width. -/
def getBitfieldTypeFromArgument (o : Bytes) : Except Reply (Bool × Nat) :=
  let err := addReplyError
    "Invalid bitfield type. Use something like i16 u8. Note that u64 is not supported but i64 is."
  if o.head? = some 105 ∨ o.head? = some 117 then
    let sign : Bool := o.head? = some 105
    match string2ll (cstr o.tail) with
    | none => .error err
    | some llbits =>
      if llbits < 1 ∨ (sign = true ∧ 64 < llbits) ∨ (sign = false ∧ 63 < llbits) then .error err
      else .ok (sign, llbits.toNat)
  else .error err

/-- `BITFIELDOP_*` -/
inductive Opcode where
  | get
  | set
  | incrby
  deriving DecidableEq

/-- `struct bitfieldOp` -/
structure BitfieldOp where
  offset : Nat
  i64 : Int64
  opcode : Opcode
  owtype : Owtype
  bits : Nat
  sign : Bool
  deriving DecidableEq

/-- `getLongLongFromObjectOrReply` -/
def getLongLong (o : Bytes) : Except Reply Int :=
  match string2ll o with
  | none => .error (addReplyError "value is not an integer or out of range")
  | some value => .ok value

/-- The arguments common to all operations, and the last one of those that write. -/
def bitfieldOp (opcode : Opcode) (owtype : Owtype) (type offset : Bytes) (amount : Option Bytes) :
    Except Reply BitfieldOp := do
  let (sign, bits) ← getBitfieldTypeFromArgument type
  let bitoffset ← getBitOffsetFromArgument offset true bits
  let i64 ← match amount with
    | none => .ok 0
    | some amount => getLongLong amount
  .ok ⟨bitoffset, Int64.ofInt i64, opcode, owtype, bits, sign⟩

/-- The loop of `bitfieldCommand` over its arguments. -/
def bitfieldOps : List Bytes → Owtype → Except Reply (List BitfieldOp)
  | [], _ => .ok []
  | [_], _ => .error syntaxerr
  | subcmd :: arg :: args, owtype =>
    if strcaseeq subcmd "get" ∧ 1 ≤ args.length then
      match args with
      | [] => .error syntaxerr
      | offset :: args => do
        let op ← bitfieldOp .get owtype arg offset none
        let ops ← bitfieldOps args owtype
        .ok (op :: ops)
    else if (strcaseeq subcmd "set" ∨ strcaseeq subcmd "incrby") ∧ 2 ≤ args.length then
      match args with
      | offset :: amount :: args => do
        let op ← bitfieldOp (if strcaseeq subcmd "set" then .set else .incrby) owtype arg offset (some amount)
        let ops ← bitfieldOps args owtype
        .ok (op :: ops)
      | _ => .error syntaxerr
    else if strcaseeq subcmd "overflow" then
      if strcaseeq arg "wrap" then bitfieldOps args .wrap
      else if strcaseeq arg "sat" then bitfieldOps args .sat
      else if strcaseeq arg "fail" then bitfieldOps args .fail
      else .error (addReplyError "Invalid OVERFLOW type specified")
    else .error syntaxerr

def highestWriteOffset (ops : List BitfieldOp) : Nat :=
  ops.foldl (fun highest op =>
    if op.opcode ≠ .get ∧ highest < op.offset + op.bits - 1 then op.offset + op.bits - 1 else highest) 0

def sdsgrowzero (s : Bytes) (len : Nat) : Bytes := s ++ List.replicate (len - s.length) 0

/-- `lookupStringForBitCommand`: the string that the key has from then on. -/
def lookupStringForBitCommand (db : Db) (key : Bytes) (maxbit : Nat) : Except Reply Bytes :=
  match db key with
  | none => .ok (List.replicate (maxbit / 8 + 1) 0)
  | some .other => .error wrongtypeerr
  | some (.string s) => .ok (sdsgrowzero s (maxbit / 8 + 1))

/-- A `SET` or `INCRBY` of a signed field; `wrapped` is not initialised. -/
def bitfieldWriteSigned (wrapped : Int64) (s : Bytes) (op : BitfieldOp) : Except Fault (Bytes × ReplyItem) := do
  let oldval ← getSignedBitfield s op.offset op.bits
  let (overflow, wrapped) :=
    if op.opcode = .incrby then checkSignedBitfieldOverflow oldval op.i64 op.bits op.owtype wrapped
    else checkSignedBitfieldOverflow op.i64 0 op.bits op.owtype wrapped
  let newval := if op.opcode = .incrby then oldval + op.i64 else op.i64
  let newval := if overflow ≠ 0 then wrapped else newval
  let retval := if op.opcode = .incrby then newval else oldval
  if overflow ≠ 0 ∧ op.owtype = .fail then .ok (s, .nullBulk)
  else do
    let s ← setSignedBitfield s op.offset op.bits newval
    .ok (s, .longLong retval.toInt)

/-- A `SET` or `INCRBY` of an unsigned field; `wrapped` is not initialised. -/
def bitfieldWriteUnsigned (wrapped : UInt64) (s : Bytes) (op : BitfieldOp) : Except Fault (Bytes × ReplyItem) := do
  let oldval ← getUnsignedBitfield s op.offset op.bits
  let (overflow, wrapped) :=
    if op.opcode = .incrby then checkUnsignedBitfieldOverflow oldval op.i64 op.bits op.owtype wrapped
    else checkUnsignedBitfieldOverflow op.i64.toUInt64 0 op.bits op.owtype wrapped
  let newval := if op.opcode = .incrby then oldval + op.i64.toUInt64 else op.i64.toUInt64
  let newval := if overflow ≠ 0 then wrapped else newval
  let retval := if op.opcode = .incrby then newval else oldval
  if overflow ≠ 0 ∧ op.owtype = .fail then .ok (s, .nullBulk)
  else do
    let s ← setUnsignedBitfield s op.offset op.bits newval
    .ok (s, .longLong retval.toInt64.toInt)

/-- The buffer of nine bytes that a `GET` copies the string to from `byte` on. -/
def getBuffer (src : Bytes) (byte : Nat) : Bytes := sdsgrowzero ((src.drop byte).take 9) 9

/-- A `GET` -/
def bitfieldGet (src : Bytes) (op : BitfieldOp) : Except Fault ReplyItem := do
  let byte := op.offset / 8
  let buf := getBuffer src byte
  if op.sign then do
    let val ← getSignedBitfield buf (op.offset - byte * 8) op.bits
    .ok (.longLong val.toInt)
  else do
    let val ← getUnsignedBitfield buf (op.offset - byte * 8) op.bits
    .ok (.longLong val.toInt64.toInt)

def bitfieldExec (junk : UInt64) (s : Bytes) (op : BitfieldOp) : Except Fault (Bytes × ReplyItem) :=
  if op.opcode = .get then do
    let reply ← bitfieldGet s op
    .ok (s, reply)
  else if op.sign then bitfieldWriteSigned junk.toInt64 s op
  else bitfieldWriteUnsigned junk s op

def bitfieldRun (junk : UInt64) : Bytes → List BitfieldOp → Except Fault (Bytes × Reply)
  | s, [] => .ok (s, [])
  | s, op :: ops => do
    let (s, item) ← bitfieldExec junk s op
    let (s, reply) ← bitfieldRun junk s ops
    .ok (s, item :: reply)

def bitfieldCommand (junk : UInt64) (db : Db) (key : Bytes) (args : List Bytes) : Except Fault (Db × Reply) :=
  match bitfieldOps args .wrap with
  | .error reply => .ok (db, reply)
  | .ok ops =>
    if ops.all fun op => op.opcode = .get then
      match db key with
      | some .other => .ok (db, wrongtypeerr)
      | some (.string s) => do
        let (_, reply) ← bitfieldRun junk s ops
        .ok (db, .multiBulkLen ops.length :: reply)
      | none => do
        -- without a key the string is read as the empty one
        let (_, reply) ← bitfieldRun junk [] ops
        .ok (db, .multiBulkLen ops.length :: reply)
    else
      match lookupStringForBitCommand db key (highestWriteOffset ops) with
      | .error reply => .ok (db, reply)
      | .ok s => do
        let (s, reply) ← bitfieldRun junk s ops
        .ok (Function.update db key (some (.string s)), .multiBulkLen ops.length :: reply)

end JitRedis.Bitops
