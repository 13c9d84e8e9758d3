import JitRedis.Base
import JitRedis.Lib.LittleEndian
import JitRedis.Lib.Memory

/-!
# Intsets

Model of `src/intset.c`. The contents are the bytes that are allocated behind the header; an access to other bytes is a
fault. What `zrealloc` adds is arbitrary, and given by `junk`. The machine is little endian.
-/

namespace JitRedis

structure Intset where
  encoding : Nat
  length : Nat
  contents : Bytes

/-- `_intsetValueEncoding`: the size of the type. -/
def intsetValueEncoding (v : Int) : Nat :=
  if v < -2 ^ 31 ∨ 2 ^ 31 - 1 < v then 8 else if v < -2 ^ 15 ∨ 2 ^ 15 - 1 < v then 4 else 2

def intsetGetEncoded (is : Intset) (pos enc : Nat) : Except Fault Int := do
  let bytes ← Memory.load Fault.badAccess is.contents (pos * enc) enc
  .ok (LittleEndian.decodeInt bytes)

/-- `_intsetGet` -/
def intsetGetAt (is : Intset) (pos : Nat) : Except Fault Int := intsetGetEncoded is pos is.encoding

def intsetSet (is : Intset) (pos : Nat) (value : Int) : Except Fault Intset := do
  let contents ← Memory.store Fault.overflow is.contents (pos * is.encoding) (LittleEndian.encodeInt is.encoding value)
  .ok { is with contents }

def intsetNew : Intset := ⟨2, 0, []⟩

/-- `intsetResize`; the size has 32 bits. -/
def intsetResize (junk : Nat → UInt8) (is : Intset) (len : Nat) : Intset :=
  { is with contents := Memory.realloc junk is.contents (len * is.encoding % 2 ^ 32) }

/-- The loop of `intsetSearch`: `min`, `mid` and `cur` where it stops. -/
def intsetSearchLoop (is : Intset) (value : Int) : Nat → Int → Int → Int → Int → Except Fault (Int × Int × Int)
  | 0, _, _, _, _ => .error .diverged
  | turns + 1, min, max, mid, cur =>
    if min ≤ max then do
      let mid := (min % 2 ^ 32 + max % 2 ^ 32) % 2 ^ 32 / 2
      let cur ← intsetGetAt is mid.toNat
      if cur < value then intsetSearchLoop is value turns (mid + 1) max mid cur
      else if value < cur then intsetSearchLoop is value turns min (mid - 1) mid cur
      else .ok (min, mid, cur)
    else .ok (min, mid, cur)

/-- `intsetSearch`: whether the value was found, and the position. -/
def intsetSearch (is : Intset) (value : Int) : Except Fault (Bool × Nat) :=
  if is.length = 0 then .ok (false, 0)
  else do
    let last ← intsetGetAt is (is.length - 1)
    if last < value then .ok (false, is.length)
    else do
      let first ← intsetGetAt is 0
      if value < first then .ok (false, 0)
      else do
        let (min, mid, cur) ← intsetSearchLoop is value (is.length + 1) 0 (is.length - 1) (-1) (-1)
        .ok (if value = cur then (true, mid.toNat) else (false, min.toNat))

/-- The loop of `intsetUpgradeAndAdd`, from the last element to the first. -/
def intsetUpgradeLoop (curenc prepend : Nat) : Nat → Intset → Except Fault Intset
  | 0, is => .ok is
  | length + 1, is => do
    let value ← intsetGetEncoded is length curenc
    let is ← intsetSet is (length + prepend) value
    intsetUpgradeLoop curenc prepend length is

def intsetUpgradeAndAdd (junk : Nat → UInt8) (is : Intset) (value : Int) : Except Fault Intset := do
  let prepend := if value < 0 then 1 else 0
  let new := intsetResize junk { is with encoding := intsetValueEncoding value } (is.length + 1)
  let new ← intsetUpgradeLoop is.encoding prepend is.length new
  let new ← intsetSet new (if prepend = 1 then 0 else is.length) value
  .ok { new with length := is.length + 1 }

/-- `intsetMoveTail`; the number of bytes has 32 bits. -/
def intsetMoveTail (is : Intset) (src dst : Nat) : Except Fault Intset := do
  let bytes := (is.length - src) * is.encoding % 2 ^ 32
  let contents ← Memory.move Fault.badAccess Fault.overflow is.contents (dst * is.encoding) (src * is.encoding) bytes
  .ok { is with contents }

/-- Make room for an element at a position, unless it is the last one. -/
def intsetOpenGap (is : Intset) (pos : Nat) : Except Fault Intset :=
  if pos < is.length then intsetMoveTail is pos (pos + 1) else .ok is

/-- Overwrite the element at a position with those behind it, if there are any. -/
def intsetCloseGap (is : Intset) (pos : Nat) : Except Fault Intset :=
  if pos < is.length - 1 then intsetMoveTail is (pos + 1) pos else .ok is

/-- The part of `intsetAdd` that adds a value at its position. -/
def intsetAddAt (junk : Nat → UInt8) (is : Intset) (pos : Nat) (value : Int) : Except Fault Intset := do
  let is ← intsetOpenGap (intsetResize junk is (is.length + 1)) pos
  let is ← intsetSet is pos value
  .ok { is with length := is.length + 1 }

/-- The part of `intsetRemove` that removes the value at a position. -/
def intsetRemoveAt (junk : Nat → UInt8) (is : Intset) (pos : Nat) : Except Fault Intset := do
  let len := is.length
  let is ← intsetCloseGap is pos
  .ok { intsetResize junk is (len - 1) with length := len - 1 }

/-- `intsetAdd`, with the flag `success`. -/
def intsetAdd (junk : Nat → UInt8) (is : Intset) (value : Int) : Except Fault (Intset × Bool) :=
  if is.encoding < intsetValueEncoding value then do
    let is ← intsetUpgradeAndAdd junk is value
    .ok (is, true)
  else do
    let (found, pos) ← intsetSearch is value
    if found then .ok (is, false)
    else do
      let is ← intsetAddAt junk is pos value
      .ok (is, true)

/-- The search that `intsetRemove` and `intsetFind` make: only if the encoding is wide enough. -/
def intsetLookup (is : Intset) (value : Int) : Except Fault (Bool × Nat) :=
  if intsetValueEncoding value ≤ is.encoding then intsetSearch is value else .ok (false, 0)

/-- `intsetRemove`, with the flag `success`. -/
def intsetRemove (junk : Nat → UInt8) (is : Intset) (value : Int) : Except Fault (Intset × Bool) := do
  let (found, pos) ← intsetLookup is value
  if found then do
    let is ← intsetRemoveAt junk is pos
    .ok (is, true)
  else .ok (is, false)

def intsetFind (is : Intset) (value : Int) : Except Fault Bool := do
  let (found, _) ← intsetLookup is value
  .ok found

/-- `intsetGet`: nothing if the position is out of range. -/
def intsetGet (is : Intset) (pos : Nat) : Except Fault (Option Int) :=
  if pos < is.length then do
    let value ← intsetGetAt is pos
    .ok (some value)
  else .ok none

def intsetLen (is : Intset) : Nat := is.length

inductive IntsetOp
  | add (value : Int64)
  | remove (value : Int64)

/-- One operation, with what `zrealloc` adds; the output is the flag `success`. -/
def intsetStep (is : Intset) (call : (Nat → UInt8) × IntsetOp) : Except Fault (Intset × Bool) :=
  match call.2 with
  | .add value => intsetAdd call.1 is value.toInt
  | .remove value => intsetRemove call.1 is value.toInt

end JitRedis
