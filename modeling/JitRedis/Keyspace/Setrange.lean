import JitRedis.Keyspace.Expire
import JitRedis.Util.Numbers

/-!
# String objects and SETRANGE

`setrangeCommand` adds an offset and a length in unsigned arithmetic and checks the sum as a signed number. A sum that
turns negative passes the check, and the process aborts when it allocates the string.
-/

namespace JitRedis.Keyspace

open Fallible Function List

inductive StringValue where
  | int (v : Int64)
  | embstr (s : Bytes)
  | raw (s : Bytes)

structure StringObject where
  refcount : Nat
  value : StringValue

/-- An object: a string, or a value of another type. -/
inductive Robj (γ : Type) where
  | string (o : StringObject)
  | other (o : γ)

def StringObject.text (o : StringObject) : Bytes :=
  match o.value with
  | .int v => ll2string v.toInt
  | .embstr s | .raw s => s

def stringObjectLen (o : StringObject) : Nat :=
  match o.value with
  | .int v => sdigits10 v.toInt
  | .embstr s | .raw s => s.length

def checkStringLength (size : Int64) : Option String :=
  if 512 * 1024 * 1024 < size then some "string exceeds maximum allowed size (512MB)" else none

/-- The allocator never gives a block of `2 ^ 63` bytes, and the process aborts. -/
def sdsnewlen (initlen : UInt64) : Except Fault Bytes :=
  if 2 ^ 63 ≤ initlen.toNat then .error .oom else .ok (replicate initlen.toNat 0)

def sdsgrowzero (s : Bytes) (len : UInt64) : Except Fault Bytes :=
  if len.toNat ≤ s.length then .ok s
  else if 2 ^ 63 ≤ len.toNat then .error .oom
  else .ok (s ++ replicate (len.toNat - s.length) 0)

def memcpy (s value : Bytes) (offset : Nat) : Except Fault Bytes :=
  if offset + value.length ≤ s.length then .ok (s.take offset ++ value ++ s.drop (offset + value.length))
  else .error .overflow

/-- The bytes of the object that `dbUnshareStringValue` leaves: a copy of the text, or the raw text itself. -/
def dbUnshareStringValue (o : StringObject) : Bytes := o.text

variable {γ : Type}

/-- The database with a raw string at a key, and its length as the reply. -/
def stored (db : RedisDb (Robj γ)) (key s : Bytes) : RedisDb (Robj γ) × Reply :=
  ({ db with dict := update db.dict key (some (.string ⟨1, .raw s⟩)) }, .integer s.length)

/-- The part of `setrangeCommand` behind the checks, with the string that the key has by then. -/
def setrangeWrite (db : RedisDb (Robj γ)) (key : Bytes) (offset : Int64) (value s : Bytes) (size : Int64) :
    Except Fault (RedisDb (Robj γ) × Reply) := do
  let s ← sdsgrowzero s size.toUInt64
  let s ← memcpy s value offset.toInt.toNat
  .ok (stored db key s)

/-- A write that is refused if the string would be too long. -/
def withinLimit (size : Int64) (db : RedisDb (Robj γ)) (write : Except Fault (RedisDb (Robj γ) × Reply)) :
    Except Fault (RedisDb (Robj γ) × Reply) :=
  match checkStringLength size with
  | some msg => .ok (db, .error msg)
  | none => write

def setrangeCommand (db : RedisDb (Robj γ)) (key : Bytes) (offset : Int64) (value : Bytes) (now : Int64) :
    Except Fault (RedisDb (Robj γ) × Reply) :=
  if offset < 0 then .ok (db, .error "offset is out of range")
  else
    let size := offset + Int64.ofNat value.length
    match lookupKeyWrite db key now with
    | (db, none) =>
      if value = [] then .ok (db, .integer 0)
      else withinLimit size db do
        let s ← sdsnewlen size.toUInt64
        setrangeWrite db key offset value s size
    | (db, some (.string o)) =>
      if value = [] then .ok (db, .integer (stringObjectLen o))
      else withinLimit size db (setrangeWrite db key offset value (dbUnshareStringValue o) size)
    | (db, some (.other _)) =>
      .ok (db, .error "WRONGTYPE Operation against a key holding the wrong kind of value")

/-- The string with the bytes from an offset on replaced, padded with zeros as needed. -/
def overwritten (s value : Bytes) (offset : Nat) : Bytes :=
  let s := s ++ replicate (offset + value.length - s.length) 0
  s.take offset ++ value ++ s.drop (offset + value.length)

/-- The string of a key, empty if there is no key. -/
def stringOf : Option (Robj γ) → Option Bytes
  | none => some []
  | some (.string o) => some o.text
  | some (.other _) => none

/-- What the command should do with the string `s`. -/
def Limited (db : RedisDb (Robj γ)) (key s value : Bytes) (offset : Nat)
    (r : Except Fault (RedisDb (Robj γ) × Reply)) : Prop :=
  if offset + value.length ≤ 512 * 1024 * 1024 then r = .ok (stored db key (overwritten s value offset))
  else ∃ msg, r = .ok (db, .error msg)

variable {db : RedisDb (Robj γ)} {key s value : Bytes} {offset size now : Int64} {k : Nat}

lemma toInt_size (hk : offset.toInt = k) (n : Nat) :
    (offset + Int64.ofNat n).toInt = ((k + n : Nat) : Int).bmod (2 ^ 64) := by
  rw [Int64.toInt_add, Int64.toInt_ofNat', hk, Int.add_bmod_bmod]
  rfl

lemma checkStringLength_eq_none : checkStringLength size = none ↔ size.toInt ≤ 512 * 1024 * 1024 := by
  rw [checkStringLength, ← not_lt]
  split <;> simp_all [Int64.lt_iff_toInt_lt]

/-- A size that fits is the same number unsigned. -/
lemma toNat_size {n : Nat} (h : size.toInt = n) : size.toUInt64.toNat = n := by
  have hint := BitVec.toInt_eq_toNat_cond size.toBitVec
  have lt := size.toUInt64.toNat_lt
  change size.toInt = if 2 * size.toUInt64.toNat < 2 ^ 64 then (size.toUInt64.toNat : Int) else
    size.toUInt64.toNat - (2 ^ 64 : Nat) at hint
  split at hint <;> omega

lemma setrangeWrite_eq (hk : offset.toInt = k) (hsize : size.toInt = (k + value.length : Nat)) :
    setrangeWrite db key offset value s size = .ok (stored db key (overwritten s value k)) := by
  have hnat := toNat_size hsize
  have small := size.toInt_lt
  have grown : sdsgrowzero s size.toUInt64 = .ok (s ++ replicate (k + value.length - s.length) 0) := by
    rw [sdsgrowzero, hnat]
    split
    · rename_i hle
      rw [Nat.sub_eq_zero_of_le hle, replicate_zero, append_nil]
    · rw [if_neg (by omega)]
  have copied : memcpy (s ++ replicate (k + value.length - s.length) 0) value k = .ok (overwritten s value k) := by
    rw [memcpy, if_pos (by rw [length_append, length_replicate]; omega), overwritten]
  rw [setrangeWrite, hk, Int.toNat_natCast, grown]
  show (memcpy _ value k >>= _) = _
  rw [copied]
  rfl

lemma setrangeWrite_ne_error (db' : RedisDb (Robj γ)) (msg : String) :
    setrangeWrite db key offset value s size ≠ .ok (db', .error msg) := by
  rw [setrangeWrite]
  rcases sdsgrowzero s size.toUInt64 with _ | s
  · rintro ⟨⟩
  · show (memcpy s value offset.toInt.toNat >>= _) ≠ _
    rcases memcpy s value offset.toInt.toNat with _ | s <;> rintro ⟨⟩

/-- The check decides, given what is done where it passes. -/
lemma limited_iff (hsize : size.toInt = ((k + value.length : Nat) : Int).bmod (2 ^ 64))
    {write : Except Fault (RedisDb (Robj γ) × Reply)} (hne : ∀ msg, write ≠ .ok (db, .error msg))
    (hwrite : size.toInt = (k + value.length : Nat) → write = .ok (stored db key (overwritten s value k))) :
    Limited db key s value k (withinLimit size db write) ↔ k + value.length ≤ 512 * 1024 * 1024 ∨
      512 * 1024 * 1024 < ((k + value.length : Nat) : Int).bmod (2 ^ 64) := by
  rw [Limited, withinLimit]
  split
  · rename_i hle
    have hint : size.toInt = (k + value.length : Nat) := by
      rw [hsize, Int.bmod_eq_of_le_mul_two (by omega) (by omega)]
    rw [checkStringLength_eq_none.mpr (by omega)]
    exact iff_of_true (hwrite hint) (.inl hle)
  · rename_i hgt
    rw [or_iff_right hgt, ← hsize, ← not_le, ← checkStringLength_eq_none]
    rcases checkStringLength size with _ | msg <;> simp [hne]

/-- The length in 64 bits is within the limit only if the length itself is: then, and only then, the command does what it
should. -/
theorem setrange_limited_iff {s : Bytes} (h : 0 ≤ offset) (hvalue : value ≠ [])
    (hs : stringOf (lookupKeyWrite db key now).2 = some s) :
    Limited (lookupKeyWrite db key now).1 key s value offset.toInt.toNat (setrangeCommand db key offset value now) ↔
      offset.toInt.toNat + value.length ≤ 512 * 1024 * 1024 ∨
        512 * 1024 * 1024 < ((offset.toInt.toNat + value.length : Nat) : Int).bmod (2 ^ 64) := by
  rw [Int64.le_iff_toInt_le] at h
  have hk : offset.toInt = offset.toInt.toNat := (Int.toNat_of_nonneg h).symm
  have hsize := toInt_size hk value.length
  rw [setrangeCommand, if_neg (by rwa [Int64.lt_iff_toInt_lt, not_lt])]
  rcases hfound : lookupKeyWrite db key now with ⟨db, _ | o | _⟩ <;> rw [hfound] at hs <;> cases hs
  · simp only [if_neg hvalue]
    refine limited_iff hsize ?_ fun hint => ?_
    · intro msg
      rcases sdsnewlen (offset + Int64.ofNat value.length).toUInt64 with _ | s
      · rintro ⟨⟩
      · exact setrangeWrite_ne_error db msg
    · have small := (offset + Int64.ofNat value.length).toInt_lt
      have hzeros : overwritten (replicate (offset.toInt.toNat + value.length) 0) value offset.toInt.toNat =
          overwritten [] value offset.toInt.toNat := by
        simp [overwritten]
      rw [sdsnewlen, toNat_size hint, if_neg (by omega), ok_bind, setrangeWrite_eq hk hint, hzeros]
  · simp only [if_neg hvalue]
    exact limited_iff hsize (setrangeWrite_ne_error db) (setrangeWrite_eq hk)

def noKeys : RedisDb (Robj Empty) := ⟨fun _ => none, fun _ => none⟩

theorem setrange_limited_five : Limited noKeys [107] [] [118] 5 (setrangeCommand noKeys [107] 5 [118] 1) :=
  (@setrange_limited_iff Empty noKeys [107] [118] 5 1 [] (by decide) (by decide) rfl).mpr (.inl (by decide))

/-- At the greatest offset the process aborts where it should refuse. -/
theorem setrange_aborts : setrangeCommand noKeys [107] Int64.maxValue [118] 1 = .error .oom ∧
    ¬Limited noKeys [107] [] [118] Int64.maxValue.toInt.toNat (setrangeCommand noKeys [107] Int64.maxValue [118] 1) := by
  have h : setrangeCommand noKeys [107] Int64.maxValue [118] 1 = .error .oom := rfl
  refine ⟨h, ?_⟩
  rintro ⟨_, ⟨⟩⟩

end JitRedis.Keyspace
