import JitRedis.Base
import JitRedis.Lib.LittleEndian
import JitRedis.Lib.Memory

/-!
# Blocks that C code reads and writes

The bytes and little endian numbers of an allocated block. An access to other bytes is a fault.
-/

namespace JitRedis

open Fallible

/-- `p[0]` -/
def byteAt (m : Bytes) (p : Nat) : Except Fault UInt8 := Memory.byte Fault.badAccess m p

/-- A number of `w` bytes at `p`. -/
def numberAt (m : Bytes) (p w : Nat) : Except Fault Nat := do
  let bytes ← Memory.load Fault.badAccess m p w
  .ok (LittleEndian.decode bytes)

/-- Store a number of `w` bytes at `p`. -/
def putNumber (m : Bytes) (p w v : Nat) : Except Fault Bytes :=
  Memory.store Fault.overflow m p (LittleEndian.encode w v)

lemma forall_byte {P : UInt8 → Prop} (h : ∀ n < 256, P (UInt8.ofNat n)) (b : UInt8) : P b := by
  have hb := h b.toNat b.toNat_lt
  rwa [UInt8.ofNat_toNat] at hb

/-- A number is put together from its low byte and the rest. -/
lemma high_or_low (u : Nat) : (u >>> 8) <<< 8 ||| (UInt8.ofNat (u &&& 0xFF)).toNat = u := by
  rw [UInt8.toNat_ofNat', Nat.and_two_pow_sub_one_eq_mod u 8, Nat.mod_mod, ← Nat.shiftLeft_add_eq_or_of_lt (by omega),
    Nat.shiftRight_eq_div_pow, Nat.shiftLeft_eq]
  omega

/-- A field of 16 bits that has the number of elements, or 65535 for a number that is not known. -/
def CountField (num n : Nat) : Prop := (num = n ∧ n < 65535) ∨ num = 65535

lemma CountField.lt {num n : Nat} (h : CountField num n) : num < 256 ^ 2 := by
  obtain ⟨rfl, hlt⟩ | rfl := h
  · omega
  · norm_num

variable {m a c bs : Bytes} {p w : Nat} {b : UInt8}

lemma byteAt_eq (hm : m = a ++ b :: c) (hp : p = a.length) : byteAt m p = .ok b := Memory.byte_eq hm hp

lemma numberAt_eq (hm : m = a ++ (bs ++ c)) (hp : p = a.length) (hw : w = bs.length) :
    numberAt m p w = .ok (LittleEndian.decode bs) := by
  rw [numberAt, Memory.load_eq hm hp hw, ok_bind]

lemma putNumber_eq {v : Nat} (hm : m = a ++ (bs ++ c)) (hp : p = a.length) (hw : bs.length = w) :
    putNumber m p w v = .ok (a ++ (LittleEndian.encode w v ++ c)) :=
  Memory.store_eq hm hp (by rw [hw, LittleEndian.length_encode])

end JitRedis
