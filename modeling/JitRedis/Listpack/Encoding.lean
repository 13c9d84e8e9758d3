import JitRedis.Listpack.Bytes

/-!
# The encodings of a listpack

What is a valid encoding of an element, that the size and the value of every valid encoding are read back, that the bytes
written for a string are a valid encoding of it, and that the length behind an element is decoded from its end.
-/

namespace JitRedis.RawListpack

open Fallible List LittleEndian UInt8

/-- The bytes behind the first one of an integer that has whole bytes. -/
def LpEncoding.intWidth : LpEncoding → Option Nat
  | .int16 => some 2
  | .int24 => some 3
  | .int32 => some 4
  | .int64 => some 8
  | _ => none

/-- The valid encodings of an element; an element may have several. -/
inductive Encodes : Bytes → LpElement → Prop where
  | uint7 {b} : lpEncoding b = .uint7 → Encodes [b] (.int (b &&& 0x7F).toNat)
  | int13 {b c} : lpEncoding b = .int13 →
      Encodes [b, c] (.int (Int.bmod (((b &&& 0x1F).toNat <<< 8) ||| c.toNat : Nat) 8192))
  | int {b bs} : (lpEncoding b).intWidth = some bs.length → Encodes (b :: bs) (.int (LittleEndian.decodeInt bs))
  | str6 {b s} : lpEncoding b = .str6 → s.length = (b &&& 0x3F).toNat → Encodes (b :: s) (.str s)
  | str12 {b c s} : lpEncoding b = .str12 → s.length = lp12BitStrLen b c → Encodes (b :: c :: s) (.str s)
  | str32 {b bs s} : lpEncoding b = .str32 → bs.length = 4 → s.length = LittleEndian.decode bs →
      Encodes (b :: (bs ++ s)) (.str s)

variable {e : LpElement} {lp a c : Bytes} {p l : Nat} {v : Int}

lemma Encodes.ne_eof {bytes : Bytes} (h : Encodes bytes e) : ∃ b rest, bytes = b :: rest ∧ b ≠ lpEof := by
  have other : lpEncoding lpEof = .other := by decide
  cases h with
  | uint7 hb | int13 hb | int hb | str6 hb | str12 hb | str32 hb =>
    exact ⟨_, _, rfl, by rintro rfl; rw [other] at hb; cases hb⟩

lemma lpCurrentEncodedSize_eq {bytes : Bytes} (h : Encodes bytes e)
    (hm : lp = a ++ (bytes ++ c)) (hp : p = a.length) (small : bytes.length < 2 ^ 32) :
    lpCurrentEncodedSize lp p = .ok bytes.length := by
  cases h with
  | uint7 hb | int13 hb =>
    rw [lpCurrentEncodedSize, byteAt_eq hm hp, ok_bind, hb]
    rfl
  | @int b bs hb =>
    rw [lpCurrentEncodedSize, byteAt_eq hm hp, ok_bind]
    rw [length_cons]
    cases hk : lpEncoding b with
    | int16 | int24 | int32 | int64 =>
      rw [hk] at hb
      rw [← Option.some.inj hb]
    | _ =>
      rw [hk] at hb
      cases hb
  | str6 hb hs =>
    rw [lpCurrentEncodedSize, byteAt_eq hm hp, ok_bind, hb, length_cons, hs, Nat.add_comm]
  | @str12 b d s hb hs =>
    have hc : lp = (a ++ [b]) ++ d :: (s ++ c) := by rw [hm, append_assoc]; rfl
    rw [lpCurrentEncodedSize, byteAt_eq hm hp, ok_bind, hb]
    rw [byteAt_eq hc (by rw [hp, length_append]; rfl), ok_bind, length_cons, length_cons, hs,
      Nat.add_comm 2]
  | @str32 b bs s hb hbs hs =>
    have hc : lp = (a ++ [b]) ++ (bs ++ (s ++ c)) := by simp only [hm, append_assoc, cons_append, nil_append]
    rw [lpCurrentEncodedSize, byteAt_eq hm hp, ok_bind, hb]
    dsimp only
    rw [numberAt_eq hc (by rw [hp, length_append]; rfl) hbs.symm, ok_bind, ← hs]
    rw [length_cons, length_append, hbs] at small ⊢
    congr 1
    omega

lemma lpSigned_eq {u h : Nat} (hu : u < 2 * h) : lpSigned u h (2 * h - 1) = Int.bmod u (2 * h : Nat) := by
  rw [lpSigned, Int.bmod_def, Int.emod_eq_of_lt (by omega) (by omega)]
  split <;> split <;> omega

/-- What `lpGet` returns for an element. -/
def Reads (lp : Bytes) (intbuf : Bool) (g : LpGot) : LpElement → Prop
  | .int v => g = lpGetInt intbuf v
  | .str s => ∃ p, g = .inside p s.length ∧ Memory.load Fault.badAccess lp p s.length = .ok s

lemma lpGet_eq {bytes : Bytes} {intbuf : Bool} (h : Encodes bytes e)
    (hm : lp = a ++ (bytes ++ c)) (hp : p = a.length) : ∃ g, lpGet lp p intbuf = .ok g ∧ Reads lp intbuf g e := by
  have hpos (b : UInt8) : p + 1 = (a ++ [b]).length := by rw [hp, length_append]; rfl
  cases h with
  | @uint7 b hb =>
    refine ⟨_, by rw [lpGet, byteAt_eq hm hp, ok_bind, hb], ?_⟩
    have hlt := (b &&& 0x7F).toNat_lt
    rw [Reads, lpSigned, if_neg (by omega)]
  | @int13 b d hb =>
    have hc : lp = (a ++ [b]) ++ d :: c := by rw [hm, append_assoc]; rfl
    rw [lpGet, byteAt_eq hm hp, ok_bind, hb]
    rw [byteAt_eq hc (hpos b), ok_bind]
    refine ⟨_, rfl, congrArg (lpGetInt intbuf) (lpSigned_eq (h := 2 ^ 12) ?_)⟩
    have hb5 : (b &&& 0x1F).toNat ≤ 31 := by rw [UInt8.toNat_and]; exact Nat.and_le_right
    have hd := d.toNat_lt
    rw [← Nat.shiftLeft_add_eq_or_of_lt hd, Nat.shiftLeft_eq]
    omega
  | @int b bs hb =>
    have hc : lp = (a ++ [b]) ++ (bs ++ c) := by simp only [hm, append_assoc, cons_append, nil_append]
    have hlt := decode_lt bs
    rw [lpGet, byteAt_eq hm hp, ok_bind]
    cases hk : lpEncoding b with
    | int16 | int24 | int32 | int64 =>
      rw [hk] at hb
      have hw := Option.some.inj hb
      rw [← hw] at hlt
      rw [numberAt_eq hc (hpos b) hw, ok_bind]
      refine ⟨_, rfl, ?_⟩
      rw [Reads, decodeInt, ← hw]
      exact congrArg (lpGetInt intbuf) (lpSigned_eq hlt)
    | _ =>
      rw [hk] at hb
      cases hb
  | @str6 b s hb hs =>
    refine ⟨_, by rw [lpGet, byteAt_eq hm hp, ok_bind, hb], p + 1, by rw [hs], ?_⟩
    exact Memory.load_eq (a := a ++ [b]) (c := c) (by rw [hm, append_assoc]; rfl) (hpos b) rfl
  | @str12 b d s hb hs =>
    have hc : lp = (a ++ [b]) ++ d :: (s ++ c) := by rw [hm, append_assoc]; rfl
    rw [lpGet, byteAt_eq hm hp, ok_bind, hb]
    rw [byteAt_eq hc (hpos b), ok_bind]
    refine ⟨_, rfl, p + 2, by rw [hs], ?_⟩
    exact Memory.load_eq (a := a ++ [b, d]) (c := c) (by rw [hm, append_assoc]; rfl)
      (by rw [hp, length_append]; rfl) rfl
  | @str32 b bs s hb hbs hs =>
    have hc : lp = (a ++ [b]) ++ (bs ++ (s ++ c)) := by
      simp only [hm, append_assoc, cons_append, nil_append]
    rw [lpGet, byteAt_eq hm hp, ok_bind, hb]
    rw [numberAt_eq hc (hpos b) hbs.symm, ok_bind]
    refine ⟨_, rfl, p + 5, by rw [hs], ?_⟩
    exact Memory.load_eq (a := a ++ b :: bs) (c := c) (by simp only [hm, append_assoc, cons_append])
      (by rw [hp, length_append, length_cons, hbs]) rfl

lemma Encodes.int_range {bytes : Bytes} (h : Encodes bytes (.int v)) : -2 ^ 63 ≤ v ∧ v < 2 ^ 63 := by
  generalize he : LpElement.int v = e at h
  cases h with
  | @uint7 b hb =>
    have hlt := (b &&& 0x7F).toNat_lt
    have hv := LpElement.int.inj he
    omega
  | @int13 b c hb =>
    have hv := LpElement.int.inj he
    generalize (((b &&& 0x1F).toNat <<< 8) ||| c.toNat : Nat) = u at hv
    have low := Int.le_bmod (x := u) (m := 8192) (by norm_num)
    have high := Int.bmod_lt (x := u) (m := 8192) (by norm_num)
    omega
  | @int b bs hb =>
    have hv := LpElement.int.inj he
    have hw : bs.length ≤ 8 := by
      cases hk : lpEncoding b with
      | int16 | int24 | int32 | int64 =>
        rw [hk] at hb
        have hlen := Option.some.inj hb
        omega
      | _ =>
        rw [hk] at hb
        cases hb
    obtain ⟨low, high⟩ := fits_mono hw (fits_decodeInt bs)
    omega
  | str6 | str12 | str32 => cases he

lemma Reads.bytes {enc : Bytes} {intbuf : Bool} {g : LpGot} (h : Encodes enc e)
    (reads : Reads lp intbuf g e) : g.bytes lp = .ok e.text := by
  cases e with
  | str s =>
    obtain ⟨p, rfl, hload⟩ := reads
    exact hload
  | int v =>
    have hlen := length_ll2string_lt h.int_range.1 h.int_range.2
    cases reads
    cases intbuf with
    | false => rfl
    | true =>
      apply Memory.load_eq (a := []) (c := [])
      · rw [take_of_length_le hlen, append_nil, nil_append, LpElement.text]
      · rfl
      · rfl

lemma toNat_wrapped {m : Int} (low : -m ≤ v) (high : v < m) : (if v < 0 then m + v else v) = v % m := by
  split
  · rw [← Int.add_emod_left, Int.emod_eq_of_lt (by omega) (by omega)]
  · rw [Int.emod_eq_of_lt (by omega) high]

lemma encodes_encodeInt {b : UInt8} {w : Nat} (hb : (lpEncoding b).intWidth = some w)
    (fits : LittleEndian.Fits w v) : Encodes (b :: encodeInt w v) (.int v) := by
  have h : Encodes (b :: encodeInt w v) (.int (decodeInt (encodeInt w v))) :=
    .int (by rw [length_encodeInt, hb])
  rwa [decodeInt_encodeInt fits] at h

lemma encodes_lpEncodeInt (low : -2 ^ 63 ≤ v) (high : v < 2 ^ 63) : Encodes (lpEncodeInt v) (.int v) := by
  rw [lpEncodeInt]
  split
  · rename_i h7
    have hbyte : ∀ n < 128, lpEncoding (ofNat n) = .uint7 ∧ (ofNat n &&& 0x7F).toNat = n := by decide
    obtain ⟨hb, hval⟩ := hbyte v.toNat (by omega)
    have henc := Encodes.uint7 hb
    rwa [hval, Int.toNat_of_nonneg h7.1] at henc
  split
  · rename_i h7 h13
    have hbyte : ∀ n < 32, lpEncoding (ofNat (n ||| 0xC0)) = .int13 ∧ (ofNat (n ||| 0xC0) &&& 0x1F).toNat = n := by
      decide
    rw [toNat_wrapped (by omega) (by omega)]
    set u := (v % 2 ^ 13).toNat with hu
    obtain ⟨hb, hval⟩ := hbyte (u >>> 8) (by rw [Nat.shiftRight_eq_div_pow]; omega)
    have henc := Encodes.int13 (c := ofNat (u &&& 0xFF)) hb
    rw [hval, high_or_low] at henc
    have hv : Int.bmod (u : Int) 8192 = v := by
      rw [hu, Int.toNat_of_nonneg (by omega), show (2 : Int) ^ 13 = (8192 : Nat) from rfl, Int.emod_bmod]
      exact Int.bmod_eq_of_le_mul_two (by omega) (by omega)
    rwa [hv] at henc
  split
  · rename_i h16
    rw [toNat_wrapped (by omega) (by omega)]
    exact encodes_encodeInt (w := 2) (by decide) ⟨by omega, by omega⟩
  split
  · rename_i h24
    rw [toNat_wrapped (by omega) (by omega)]
    exact encodes_encodeInt (w := 3) (by decide) ⟨by omega, by omega⟩
  split
  · rename_i h32
    rw [toNat_wrapped (by omega) (by omega)]
    exact encodes_encodeInt (w := 4) (by decide) ⟨by omega, by omega⟩
  · exact encodes_encodeInt (w := 8) (by decide) ⟨by omega, by omega⟩

lemma encodes_lpEncodeString {s : Bytes} (hs : s.length < 2 ^ 32) : Encodes (lpEncodeString s) (.str s) := by
  rw [lpEncodeString]
  split
  · rename_i h6
    have hbyte : ∀ n < 64, lpEncoding (ofNat (n ||| 0x80)) = .str6 ∧ n = (ofNat (n ||| 0x80) &&& 0x3F).toNat := by
      decide
    obtain ⟨hb, hlen⟩ := hbyte _ h6
    exact .str6 hb hlen
  split
  · have hbyte : ∀ n < 16, lpEncoding (ofNat (n ||| 0xE0)) = .str12 ∧ (ofNat (n ||| 0xE0) &&& 0xF).toNat = n := by
      decide
    set u := s.length with hu
    obtain ⟨hb, hval⟩ := hbyte (u >>> 8) (by rw [Nat.shiftRight_eq_div_pow]; omega)
    exact .str12 hb (by rw [lp12BitStrLen, hval, high_or_low])
  · apply Encodes.str32 (by decide) (length_encode 4 _)
    rw [decode_encode hs]

/-- A length in `k + 1` groups of seven bits, all but the first one marked as having more before them. -/
def backlenBytes : Nat → Nat → Bytes
  | 0, l => [UInt8.ofNat l]
  | k + 1, l => backlenBytes k (l >>> 7) ++ [UInt8.ofNat ((l &&& 127) ||| 128)]

@[simp] lemma length_backlenBytes (k l : Nat) : (backlenBytes k l).length = k + 1 := by
  induction k generalizing l with
  | zero => rfl
  | succ k ih => rw [backlenBytes, length_append, ih, length_singleton]

lemma lpEncodeBacklen_eq (hl : l < 2 ^ 35) :
    ∃ k, k ≤ 4 ∧ l < 2 ^ (7 * (k + 1)) ∧ lpEncodeBacklen l = backlenBytes k l := by
  rw [lpEncodeBacklen]
  split
  · exact ⟨0, by omega, by omega, rfl⟩
  split
  · exact ⟨1, by omega, by omega, rfl⟩
  split
  · exact ⟨2, by omega, by omega, by simp only [backlenBytes, ← Nat.shiftRight_add]; rfl⟩
  split
  · exact ⟨3, by omega, by omega, by simp only [backlenBytes, ← Nat.shiftRight_add]; rfl⟩
  · exact ⟨4, by omega, by omega, by simp only [backlenBytes, ← Nat.shiftRight_add]; rfl⟩

lemma group_or_shift (l shift : Nat) : ((l % 128) <<< shift) ||| ((l >>> 7) <<< (shift + 7)) = l <<< shift := by
  have hl : (l % 128) ||| ((l >>> 7) <<< 7) = l := by
    rw [Nat.or_comm, ← Nat.shiftLeft_add_eq_or_of_lt (by omega), Nat.shiftRight_eq_div_pow, Nat.shiftLeft_eq]
    omega
  rw [Nat.add_comm shift 7, Nat.shiftLeft_add, ← Nat.shiftLeft_or_distrib, hl]

lemma lpDecodeBacklenLoop_eq {k turns shift val : Nat} (hm : lp = a ++ (backlenBytes k l ++ c))
    (hp : p = a.length + (k + 1)) (hturns : k < turns) (hl : l < 2 ^ (7 * (k + 1))) :
    lpDecodeBacklenLoop lp turns p shift val = .ok (val ||| (l <<< shift)) := by
  subst hp
  induction k generalizing c l turns shift val with
  | zero =>
    obtain _ | turns := turns
    · omega
    have hbyte : ∀ n < 128, (ofNat n &&& 127).toNat = n ∧ ofNat n &&& 128 = 0 := by decide
    obtain ⟨hlow, hhigh⟩ := hbyte l hl
    rw [lpDecodeBacklenLoop, byteAt_eq hm rfl, ok_bind, hlow, if_pos hhigh]
  | succ k ih =>
    obtain _ | turns := turns
    · omega
    have hbyte : ∀ n < 128, (ofNat (n ||| 128) &&& 127).toNat = n ∧ ofNat (n ||| 128) &&& 128 ≠ 0 := by
      decide
    have hmod : l &&& 127 = l % 128 := Nat.and_two_pow_sub_one_eq_mod l 7
    obtain ⟨hlow, hhigh⟩ := hbyte (l % 128) (by omega)
    rw [backlenBytes, hmod, append_assoc] at hm
    have hread : byteAt lp (a.length + (k + 1)) = .ok (ofNat (l % 128 ||| 128)) := by
      apply byteAt_eq (a := a ++ backlenBytes k (l >>> 7)) (c := c)
      · rw [hm, append_assoc]
        rfl
      · rw [length_append, length_backlenBytes]
    have hsmall : l >>> 7 < 2 ^ (7 * (k + 1)) := by
      rw [Nat.shiftRight_eq_div_pow, Nat.div_lt_iff_lt_mul (by norm_num), ← Nat.pow_add]
      exact hl
    rw [← Nat.add_assoc, lpDecodeBacklenLoop, hread, ok_bind, hlow, if_neg hhigh,
      ih hm (by omega) hsmall, Nat.or_assoc, group_or_shift]

lemma lpDecodeBacklen_eq (hm : lp = a ++ (lpEncodeBacklen l ++ c))
    (hp : p = a.length + (lpEncodeBacklen l).length) (hl : l < 2 ^ 35) : lpDecodeBacklen lp p = .ok l := by
  obtain ⟨k, hk, hlk, henc⟩ := lpEncodeBacklen_eq hl
  rw [henc] at hm hp
  rw [length_backlenBytes] at hp
  rw [lpDecodeBacklen, lpDecodeBacklenLoop_eq hm hp (by omega) hlk, Nat.zero_or, Nat.shiftLeft_zero]

end JitRedis.RawListpack
