import JitRedis.Ziplist.Bytes

/-!
# The layout of a ziplist

A well-formed ziplist is a header, entries that each start with the raw length of the one before, and the end marker. What
`zipEntry` reads of an entry is what it is composed of, whatever form its length has and however its value is encoded.
-/

namespace JitRedis.RawZiplist

open Fallible List LittleEndian Memory UInt8

/-- The bytes of an integer that follow its encoding. -/
def intWidth (b : UInt8) : Option Nat :=
  if b = 0xFE then some 1
  else if b = 0xC0 then some 2
  else if b = 0xF0 then some 3
  else if b = 0xD0 then some 4
  else if b = 0xE0 then some 8
  else none

/-- The valid encodings of a value; a value may have several. -/
inductive Encodes : Bytes → ZlValue → Prop where
  | str6 {b s} : zipEntryEncoding b = 0x00 → s.length = (b &&& 0x3F).toNat → Encodes (b :: s) (.str s)
  | str14 {b c s} : zipEntryEncoding b = 0x40 → s.length = ((b &&& 0x3F).toNat <<< 8) ||| c.toNat →
      Encodes (b :: c :: s) (.str s)
  | str32 {b bs s} : zipEntryEncoding b = 0x80 → bs.length = 4 → s.length = BigEndian.decode bs →
      Encodes (b :: (bs ++ s)) (.str s)
  | imm {b} : 0xF1 ≤ b ∧ b ≤ 0xFD → Encodes [b] (.int ((b &&& 0x0F).toNat - 1))
  | int {b bs} : intWidth b = some bs.length → Encodes (b :: bs) (.int (LittleEndian.decodeInt bs))

/-- An entry: the form of its `prevlen` field, its value and the bytes that encode it. -/
structure ZipItem where
  big : Bool
  body : Bytes
  value : ZlValue
  encodes : Encodes body value

def fieldSize (big : Bool) : Nat := if big then 5 else 1

/-- A `prevlen` field. -/
def field (big : Bool) (n : Nat) : Bytes := if big then prevlenLarge n else [UInt8.ofNat n]

/-- A length that a `prevlen` field can have. -/
def Fits (big : Bool) (n : Nat) : Prop := n < 2 ^ 32 ∧ (big = false → n < 254)

def ZipItem.rawlen (i : ZipItem) : Nat := fieldSize i.big + i.body.length

/-- The bytes of entries behind one of a raw length. -/
def chain : Nat → List ZipItem → Bytes
  | _, [] => []
  | n, i :: items => field i.big n ++ (i.body ++ chain i.rawlen items)

/-- Every entry has room for the length of the one before. -/
def Linked : Nat → List ZipItem → Prop
  | _, [] => True
  | n, i :: items => Fits i.big n ∧ Linked i.rawlen items

def total (items : List ZipItem) : Nat := (items.map ZipItem.rawlen).sum

/-- Where the last entry starts, from the first one on. -/
def lastStart : List ZipItem → Nat
  | [] => 0
  | [_] => 0
  | i :: j :: items => i.rawlen + lastStart (j :: items)

/-- The raw length of the last entry, or that of the one before if there is none. -/
def lastRaw : Nat → List ZipItem → Nat
  | n, [] => n
  | _, i :: items => lastRaw i.rawlen items

/-- A header before other bytes. -/
def block (len tail num : Nat) (data : Bytes) : Bytes :=
  LittleEndian.encode 4 len ++ (LittleEndian.encode 4 tail ++ (LittleEndian.encode 2 num ++ data))

/-- A well-formed ziplist with its entries. -/
structure Lays (zl : Bytes) (items : List ZipItem) : Prop where
  bytes : ∃ num, CountField num items.length ∧
    zl = block zl.length (ziplistHeaderSize + lastStart items) num (chain 0 items ++ [zipEnd])
  linked : Linked 0 items
  small : zl.length < 2 ^ 32

section Block

variable {len tail num : Nat} {a c d : Bytes}

lemma block_append (len tail num : Nat) (a c : Bytes) : block len tail num (a ++ c) = block len tail num a ++ c := by
  simp only [block, append_assoc]

@[simp] lemma length_block (len tail num : Nat) (data : Bytes) :
    (block len tail num data).length = ziplistHeaderSize + data.length := by
  simp only [block, length_append, length_encode, ziplistHeaderSize]
  omega

lemma ziplistBytes_block (h : len < 2 ^ 32) : ziplistBytes (block len tail num d) = .ok len := by
  have hread := numberAt_eq (m := block len tail num d) (a := []) rfl (rfl : 0 = _) (length_encode 4 len).symm
  rw [ziplistBytes, hread, decode_encode h]

lemma ziplistTailOffset_block (h : tail < 2 ^ 32) : ziplistTailOffset (block len tail num d) = .ok tail := by
  rw [ziplistTailOffset, numberAt_eq (m := block len tail num d) rfl (length_encode 4 len).symm
    (length_encode 4 tail).symm, decode_encode h]

lemma ziplistLength_block (h : num < 256 ^ 2) : ziplistLength (block len tail num d) = .ok num := by
  have hm : block len tail num d =
      (encode 4 len ++ encode 4 tail) ++ (encode 2 num ++ d) := by
    rw [block, append_assoc]
  rw [ziplistLength, numberAt_eq hm (by rw [length_append]; simp) (length_encode 2 num).symm,
    decode_encode h]

lemma ziplistSetBytes_block (v : Nat) : ziplistSetBytes (block len tail num d) v = .ok (block v tail num d) :=
  putNumber_eq (a := []) rfl rfl (length_encode 4 len)

lemma ziplistSetTailOffset_block (v : Nat) : ziplistSetTailOffset (block len tail num d) v = .ok (block len v num d) :=
  putNumber_eq rfl (length_encode 4 len).symm (length_encode 4 tail)

lemma ziplistSetLength_block (v : Nat) : ziplistSetLength (block len tail num d) v = .ok (block len tail v d) := by
  have hm : block len tail num d =
      (encode 4 len ++ encode 4 tail) ++ (encode 2 num ++ d) := by
    rw [block, append_assoc]
  rw [ziplistSetLength, putNumber_eq hm (by rw [length_append]; simp) (length_encode 2 num),
    block, append_assoc]

lemma ziplistResize_block (junk : Nat → UInt8) (len tail num : Nat) (a b : Bytes) {n} (hn : ziplistHeaderSize + a.length ≤ n)
    (hlt : n + 1 < 2 ^ 32) :
    ∃ x, x.length + (ziplistHeaderSize + a.length) = n ∧ ziplistResize junk (block len tail num (a ++ b)) (n + 1) =
      .ok (block (n + 1) tail num (a ++ (x ++ [zipEnd]))) := by
  obtain ⟨y, hy, hrealloc⟩ := realloc_keep junk (block len tail num a) b (n := n + 1) (by rw [length_block]; omega)
  rw [length_block] at hy
  obtain ⟨x, u, rfl⟩ : ∃ x u, y = x ++ [u] := by
    refine ⟨y.dropLast, y.getLast (ne_nil_of_length_pos (by omega)), ?_⟩
    rw [dropLast_append_getLast]
  rw [length_append, length_singleton] at hy
  refine ⟨x, by omega, ?_⟩
  have hstore : store Fault.overflow (block (n + 1) tail num (a ++ x) ++ [u]) n [zipEnd] =
      .ok (block (n + 1) tail num (a ++ x) ++ ([zipEnd] ++ [])) :=
    store_eq (b := [u]) (by rw [append_nil]) (by rw [length_block, length_append]; omega) rfl
  rw [ziplistResize, uint, Nat.mod_eq_of_lt hlt, block_append, hrealloc, ← block_append, ziplistSetBytes_block, ok_bind,
    ← append_assoc a, block_append, Nat.add_sub_cancel, hstore, append_nil, ← block_append, append_assoc]

lemma ziplistResize_overflow (junk : Nat → UInt8) (zl : Bytes) {n} (hn : 2 ^ 32 ≤ n) (hlt : n < 2 ^ 32 + 4) :
    ziplistResize junk zl n = .error .overflow := by
  have hfault : ziplistSetBytes (realloc junk zl (uint n)) (uint n) = .error .overflow := by
    apply store_fault
    rw [length_realloc, length_encode, uint]
    omega
  rw [ziplistResize, hfault]
  rfl

lemma ziplistShiftTail_block (shift : Bool) {diff : Int} {t : Nat} (htail : tail < 2 ^ 32)
    (h : (t : Int) = (if shift then tail + diff else tail) % 2 ^ 32) :
    ziplistShiftTail (block len tail num d) shift diff = .ok (block len t num d) := by
  cases shift with
  | false =>
    rw [if_neg Bool.false_ne_true, Int.emod_eq_of_lt (by omega) (by omega)] at h
    cases Int.ofNat.inj h
    rfl
  | true =>
    rw [if_pos rfl] at h
    rw [ziplistShiftTail, if_pos rfl, ziplistTailOffset_block htail, ok_bind, ziplistSetTailOffset_block, ← h,
      Int.toNat_natCast]

lemma store_block {b x p} (hp : p = ziplistHeaderSize + a.length) (hb : b.length = x.length) :
    store Fault.overflow (block len tail num (a ++ (b ++ c))) p x = .ok (block len tail num (a ++ (x ++ c))) := by
  rw [block_append, store_eq rfl (by rw [length_block, hp]) hb, block_append]

lemma ziplistIncrLength_block (len tail : Nat) (d : Bytes) {n m : Nat} {incr : Int} (hnum : CountField num n) (hm : (m : Int) = n + incr) (hlt : m ≤ n + 1) :
    ∃ num', CountField num' m ∧ ziplistIncrLength (block len tail num d) incr = .ok (block len tail num' d) := by
  rw [ziplistIncrLength, ziplistLength_block hnum.lt, ok_bind]
  obtain ⟨rfl, hn⟩ | rfl := hnum
  · refine ⟨m, ?_, ?_⟩
    · unfold CountField
      omega
    · rw [if_pos hn, ziplistSetLength_block, ← hm, Int.emod_eq_of_lt (by omega) (by omega), Int.toNat_natCast]
  · exact ⟨65535, .inr rfl, if_neg (lt_irrefl _)⟩

end Block

@[simp] lemma length_field (big : Bool) (n : Nat) : (field big n).length = fieldSize big := by
  cases big with
  | false => rfl
  | true => exact congrArg Nat.succ (length_encode 4 n)

lemma fieldSize_pos (big : Bool) : 0 < fieldSize big := by cases big <;> decide

lemma ZipItem.rawlen_pos (i : ZipItem) : 0 < i.rawlen := Nat.lt_of_lt_of_le (fieldSize_pos i.big) (Nat.le_add_right _ _)

@[simp] lemma length_chain (n : Nat) (items : List ZipItem) : (chain n items).length = total items := by
  induction items generalizing n with
  | nil => rfl
  | cons i items ih =>
    rw [chain, length_append, length_append, length_field, ih, total, total, map_cons, sum_cons,
      ZipItem.rawlen, Nat.add_assoc]

lemma prevlenBytes_eq {n} : prevlenBytes n = field (bigPrevlen n) n := by
  rw [prevlenBytes, field, bigPrevlen]
  by_cases h : n < 254
  · rw [if_pos h, decide_eq_false (by omega), if_neg Bool.false_ne_true]
  · rw [if_neg h, decide_eq_true (by omega), if_pos rfl]

lemma prevlenSize_eq {n} : prevlenSize n = fieldSize (bigPrevlen n) := by
  rw [prevlenSize, fieldSize, bigPrevlen]
  by_cases h : n < 254
  · rw [if_pos h, decide_eq_false (by omega), if_neg Bool.false_ne_true]
  · rw [if_neg h, decide_eq_true (by omega), if_pos rfl]

lemma fits_bigPrevlen {n} (h : n < 2 ^ 32) : Fits (bigPrevlen n) n :=
  ⟨h, fun hb => by rw [bigPrevlen, decide_eq_false_iff_not] at hb; omega⟩

section Field

variable {zl a c : Bytes} {p n : Nat} {big : Bool}

section

variable (hm : zl = a ++ (field big n ++ c)) (hp : p = a.length) (h : Fits big n)
include hm hp h

lemma byteAt_field :
    ∃ b, byteAt zl p = .ok b ∧ b ≠ zipEnd ∧ (b < 254 ↔ big = false) ∧ (big = false → b.toNat = n) := by
  cases big with
  | false =>
    have hn := h.2 rfl
    refine ⟨ofNat n, byteAt_eq hm hp, ?_⟩
    have hval : (ofNat n).toNat = n := by rw [toNat_ofNat']; omega
    refine ⟨?_, ⟨fun _ => rfl, fun _ => ?_⟩, fun _ => hval⟩
    · intro he
      rw [he] at hval
      have h255 : zipEnd.toNat = 255 := rfl
      omega
    · rw [lt_iff_toNat_lt, hval]
      exact hn
  | true => exact ⟨254, byteAt_eq hm hp, by decide, by decide, nofun⟩

lemma zipDecodePrevlensize_eq :
    zipDecodePrevlensize zl p = .ok (fieldSize big) := by
  obtain ⟨b, hb, -, hlt, -⟩ := byteAt_field hm hp h
  rw [zipDecodePrevlensize, hb, ok_bind, fieldSize]
  cases big with
  | false => rw [if_pos (hlt.mpr rfl), if_neg Bool.false_ne_true]
  | true => rw [if_neg (fun h => nomatch hlt.mp h), if_pos rfl]

lemma zipDecodePrevlen_eq :
    zipDecodePrevlen zl p = .ok (fieldSize big, n) := by
  obtain ⟨b, hb, -, hlt, hval⟩ := byteAt_field hm hp h
  rw [zipDecodePrevlen, hb, ok_bind, fieldSize]
  cases big with
  | false => rw [if_pos (hlt.mpr rfl), hval rfl, if_neg Bool.false_ne_true]
  | true =>
    have hread : numberAt zl (p + 1) 4 = .ok (decode (encode 4 n)) := by
      apply numberAt_eq (a := a ++ [254]) (c := c)
      · rw [hm, append_assoc]
        rfl
      · rw [hp, length_append, length_singleton]
      · exact (length_encode 4 n).symm
    rw [if_neg (fun h => nomatch hlt.mp h), hread, ok_bind, decode_encode h.1, if_pos rfl]

lemma zipPrevLenByteDiff_eq {len} :
    zipPrevLenByteDiff zl p len = .ok ((fieldSize (bigPrevlen len) : Int) - fieldSize big) := by
  rw [zipPrevLenByteDiff, zipDecodePrevlensize_eq hm hp h, ok_bind, prevlenSize_eq]

end

end Field

/-- What is read of a value, from behind its encoding header. -/
def Reads (zl : Bytes) (p len : Nat) (encoding : UInt8) : ZlValue → Prop
  | .str s => zipIsStr encoding = true ∧ len = s.length ∧ Memory.load Fault.badAccess zl p len = .ok s
  | .int v => zipIsStr encoding = false ∧ zipLoadInteger zl p encoding = .ok v

lemma decodeInt_shifted {bs} (h : bs.length = 3) :
    decodeInt (0 :: bs) / 256 = decodeInt bs := by
  have hlt := decode_lt bs
  rw [decodeInt, decodeInt, length_cons, h, decode, UInt8.toNat_zero]
  generalize decode bs = n at *
  rw [Int.bmod_def, Int.bmod_def]
  split <;> split <;> omega

lemma intWidth_cases {b w} (h : intWidth b = some w) :
    b = 0xFE ∧ w = 1 ∨ b = 0xC0 ∧ w = 2 ∨ b = 0xF0 ∧ w = 3 ∨ b = 0xD0 ∧ w = 4 ∨ b = 0xE0 ∧ w = 8 := by
  rw [intWidth] at h
  split_ifs at h with h1 h2 h3 h4 h5
  · exact .inl ⟨h1, (Option.some.inj h).symm⟩
  · exact .inr (.inl ⟨h2, (Option.some.inj h).symm⟩)
  · exact .inr (.inr (.inl ⟨h3, (Option.some.inj h).symm⟩))
  · exact .inr (.inr (.inr (.inl ⟨h4, (Option.some.inj h).symm⟩)))
  · exact .inr (.inr (.inr (.inr ⟨h5, (Option.some.inj h).symm⟩)))

lemma zipIsStr_of_le {b} (h : 0xC0 ≤ b) : zipIsStr b = false := by
  revert h
  exact forall_byte (P := fun b => 0xC0 ≤ b → zipIsStr b = false) (by decide +kernel) b

lemma zipDecodeLength_int {zl a c p b} (hm : zl = a ++ b :: c) (hp : p = a.length) (hb : 0xC0 ≤ b)
    {len} (hlen : zipIntSize b = .ok len) : zipDecodeLength zl p = .ok (b, 1, len) := by
  have henc : zipEntryEncoding b = b := if_neg (not_lt.mpr hb)
  rw [zipDecodeLength, byteAt_eq hm hp, ok_bind, henc, if_neg (not_lt.mpr hb), hlen, ok_bind]

lemma Encodes.decodeLength {body v} (h : Encodes body v) {zl a c p}
    (hm : zl = a ++ (body ++ c)) (hp : p = a.length) :
    ∃ encoding lensize len, zipDecodeLength zl p = .ok (encoding, lensize, len) ∧ lensize + len = body.length ∧
      Reads zl (p + lensize) len encoding v := by
  have hpos (b : UInt8) : p + 1 = (a ++ [b]).length := by rw [hp, length_append]; rfl
  cases h with
  | @str6 b s hb hs =>
    rw [zipDecodeLength, byteAt_eq hm hp, ok_bind]
    rw [hb]
    refine ⟨_, _, _, rfl, by rw [length_cons, hs, Nat.add_comm], by decide, hs.symm, ?_⟩
    exact load_eq (a := a ++ [b]) (c := c) (by rw [hm, append_assoc]; rfl) (hpos b) hs.symm
  | @str14 b d s hb hs =>
    have hc : zl = (a ++ [b]) ++ d :: (s ++ c) := by rw [hm, append_assoc]; rfl
    rw [zipDecodeLength, byteAt_eq hm hp, ok_bind]
    rw [hb]
    rw [if_pos (by decide), byteAt_eq hc (hpos b)]
    refine ⟨_, _, _, rfl, by rw [length_cons, length_cons, hs, Nat.add_comm], by decide, hs.symm, ?_⟩
    exact load_eq (a := a ++ [b, d]) (c := c) (by rw [hm, append_assoc]; rfl)
      (by rw [hp, length_append]; rfl) hs.symm
  | @str32 b bs s hb hbs hs =>
    have hc : zl = (a ++ [b]) ++ (bs ++ (s ++ c)) := by
      simp only [hm, append_assoc, cons_append, nil_append]
    rw [zipDecodeLength, byteAt_eq hm hp, ok_bind]
    rw [hb]
    rw [load_eq hc (hpos b) hbs.symm]
    refine ⟨_, _, _, rfl, by rw [length_cons, length_append]; omega, by decide, hs.symm, ?_⟩
    exact load_eq (a := a ++ b :: bs) (c := c) (by simp only [hm, append_assoc, cons_append])
      (by rw [hp, length_append, length_cons, hbs]) hs.symm
  | @imm b hb =>
    have hle : (0xC0 : UInt8) ≤ b := le_trans (by decide) hb.1
    have hne (u : UInt8) (hu : ¬(0xF1 ≤ u ∧ u ≤ 0xFD)) : b ≠ u := fun he => hu (he ▸ hb)
    have hsize : zipIntSize b = .ok 0 := by
      rw [zipIntSize, if_neg (hne _ (by decide)), if_neg (hne _ (by decide)), if_neg (hne _ (by decide)),
        if_neg (hne _ (by decide)), if_neg (hne _ (by decide)), if_pos hb]
    refine ⟨b, 1, 0, zipDecodeLength_int hm hp hle hsize, rfl, zipIsStr_of_le hle, ?_⟩
    rw [zipLoadInteger, if_neg (hne _ (by decide)), if_neg (hne _ (by decide)), if_neg (hne _ (by decide)),
      if_neg (hne _ (by decide)), if_neg (hne _ (by decide)), if_pos hb]
  | @int b bs hb =>
    have hload : load Fault.badAccess zl (p + 1) bs.length = .ok bs :=
      load_eq (a := a ++ [b]) (c := c) (by rw [hm, append_assoc]; rfl) (hpos b) rfl
    have hint : integerAt zl (p + 1) bs.length = .ok (decodeInt bs) := by rw [integerAt, hload, ok_bind]
    refine ⟨b, 1, bs.length, ?_, by rw [length_cons, Nat.add_comm], ?_⟩
    · obtain ⟨rfl, hw⟩ | ⟨rfl, hw⟩ | ⟨rfl, hw⟩ | ⟨rfl, hw⟩ | ⟨rfl, hw⟩ := intWidth_cases hb <;>
        exact zipDecodeLength_int hm hp (by decide) (by rw [hw]; rfl)
    · obtain ⟨rfl, hw⟩ | ⟨rfl, hw⟩ | ⟨rfl, hw⟩ | ⟨rfl, hw⟩ | ⟨rfl, hw⟩ := intWidth_cases hb <;>
        refine ⟨by decide, ?_⟩ <;> rw [hw] at hint hload
      · exact hint
      · exact hint
      · rw [← decodeInt_shifted hw]
        exact congrArg (· >>= _) hload
      · exact hint
      · exact hint

section Entry

variable {zl a c : Bytes} {p n : Nat} {i : ZipItem}

lemma zipEntry_eq (hm : zl = a ++ (field i.big n ++ (i.body ++ c))) (hp : p = a.length) (h : Fits i.big n) :
    ∃ e, zipEntry zl p = .ok e ∧ e.prevrawlensize = fieldSize i.big ∧ e.prevrawlen = n ∧
      e.headersize + e.len = i.rawlen ∧ Reads zl (p + e.headersize) e.len e.encoding i.value := by
  have hm' : zl = (a ++ field i.big n) ++ (i.body ++ c) := by rw [hm, append_assoc]
  have hp' : p + fieldSize i.big = (a ++ field i.big n).length := by rw [hp, length_append, length_field]
  obtain ⟨encoding, lensize, len, hdec, hlen, hreads⟩ := i.encodes.decodeLength hm' hp'
  refine ⟨⟨fieldSize i.big, n, lensize, len, fieldSize i.big + lensize, encoding⟩, ?_, rfl, rfl, ?_, ?_⟩
  · rw [zipEntry, zipDecodePrevlen_eq hm hp h, ok_bind]
    dsimp only
    rw [hdec, ok_bind]
  · rw [ZipItem.rawlen, ← hlen, Nat.add_assoc]
  · rwa [← Nat.add_assoc]

lemma zipRawEntryLength_eq (hm : zl = a ++ (field i.big n ++ (i.body ++ c))) (hp : p = a.length) (h : Fits i.big n)
    (small : i.rawlen < 2 ^ 32) : zipRawEntryLength zl p = .ok i.rawlen := by
  have hm' : zl = (a ++ field i.big n) ++ (i.body ++ c) := by rw [hm, append_assoc]
  have hp' : p + fieldSize i.big = (a ++ field i.big n).length := by rw [hp, length_append, length_field]
  obtain ⟨encoding, lensize, len, hdec, hlen, -⟩ := i.encodes.decodeLength hm' hp'
  rw [zipRawEntryLength, zipDecodePrevlensize_eq hm hp h, ok_bind, hdec, ok_bind]
  dsimp only
  rw [Nat.add_assoc, hlen, ← ZipItem.rawlen, uint, Nat.mod_eq_of_lt small]

end Entry

/-- The bytes of a value behind its encoding header. -/
def payload (s : Bytes) : Bytes :=
  match zipTryEncoding s with
  | some v => LittleEndian.encodeInt (JitRedis.zipIntSize v) v
  | none => s

lemma encodeInt_shifted (v : Int) : (encodeInt 4 (v * 256)).drop 1 = encodeInt 3 v := by
  have hmod : (v * 256 % 256 ^ 4).toNat / 256 = (v % 256 ^ 3).toNat := by
    omega
  rw [encodeInt, encode, drop_one, tail_cons, hmod, encodeInt]

lemma encodes_int {v} (low : -2 ^ 63 ≤ v) (high : v < 2 ^ 63) :
    0xC0 ≤ zipIntEncoding v ∧ zipIntSize (zipIntEncoding v) = .ok (JitRedis.zipIntSize v) ∧
    zipSaveInteger v (zipIntEncoding v) = .ok (encodeInt (JitRedis.zipIntSize v) v) ∧
    Encodes (zipIntEncoding v :: encodeInt (JitRedis.zipIntSize v) v) (.int v) := by
  have henc (b : UInt8) (w : Nat) (hb : intWidth b = some w) (fits : LittleEndian.Fits w v) :
      Encodes (b :: encodeInt w v) (.int v) := by
    have h : Encodes (b :: encodeInt w v) (.int (decodeInt (encodeInt w v))) :=
      .int (by rw [length_encodeInt, hb])
    rwa [decodeInt_encodeInt fits] at h
  unfold zipIntEncoding JitRedis.zipIntSize
  split_ifs with h4 h8 h16 h24 h32
  · have hbyte : ∀ n < 13, 0xC0 ≤ ofNat (0xF1 + n) ∧ zipIntSize (ofNat (0xF1 + n)) = .ok 0 ∧
        (0xF1 ≤ ofNat (0xF1 + n) ∧ ofNat (0xF1 + n) ≤ 0xFD) ∧ (ofNat (0xF1 + n) &&& 0x0F).toNat = n + 1 := by
      decide
    obtain ⟨hle, hsize, himm, hval⟩ := hbyte v.toNat (by omega)
    have hi := Encodes.imm himm
    rw [hval, show ((v.toNat + 1 : Nat) : Int) - 1 = v by omega] at hi
    refine ⟨hle, hsize, ?_, hi⟩
    have hne (u : UInt8) (hu : ¬(0xF1 ≤ u ∧ u ≤ 0xFD)) : ofNat (0xF1 + v.toNat) ≠ u := fun he => hu (he ▸ himm)
    rw [zipSaveInteger, if_neg (hne _ (by decide)), if_neg (hne _ (by decide)), if_neg (hne _ (by decide)),
      if_neg (hne _ (by decide)), if_neg (hne _ (by decide)), if_pos himm]
    rfl
  · exact ⟨by decide, rfl, rfl, henc _ 1 rfl ⟨by omega, by omega⟩⟩
  · exact ⟨by decide, rfl, rfl, henc _ 2 rfl ⟨by omega, by omega⟩⟩
  · exact ⟨by decide, rfl, congrArg Except.ok (encodeInt_shifted v), henc _ 3 rfl ⟨by omega, by omega⟩⟩
  · exact ⟨by decide, rfl, rfl, henc _ 4 rfl ⟨by omega, by omega⟩⟩
  · exact ⟨by decide, rfl, rfl, henc _ 8 rfl ⟨by omega, by omega⟩⟩

lemma encodes_str {s} (hs : s.length < 2 ^ 32) : Encodes (zipStoreEntryEncoding 0 s.length ++ s) (.str s) := by
  rw [zipStoreEntryEncoding, if_pos (by decide)]
  split
  · have hbyte : ∀ n < 64, zipEntryEncoding (ofNat (0x00 ||| n)) = 0x00 ∧
        n = (ofNat (0x00 ||| n) &&& 0x3F).toNat := by decide
    obtain ⟨hb, hlen⟩ := hbyte s.length (by omega)
    exact .str6 hb hlen
  split
  · have hbyte : ∀ n < 64, zipEntryEncoding (ofNat (0x40 ||| n)) = 0x40 ∧
        (ofNat (0x40 ||| n) &&& 0x3F).toNat = n := by decide
    set u := s.length with hu
    have hhigh : (u >>> 8) &&& 0x3F = u >>> 8 := by
      rw [Nat.and_two_pow_sub_one_eq_mod (u >>> 8) 6]
      omega
    obtain ⟨hb, hval⟩ := hbyte (u >>> 8) (by rw [Nat.shiftRight_eq_div_pow]; omega)
    rw [hhigh]
    exact Encodes.str14 (s := s) hb (by rw [hval, high_or_low])
  · exact .str32 (by decide) (BigEndian.length_encode 4 _) (BigEndian.decode_encode hs).symm

lemma zipTryEncoding_range {s v} (h : zipTryEncoding s = some v) : -2 ^ 63 ≤ v ∧ v < 2 ^ 63 := by
  rw [zipTryEncoding] at h
  split at h
  · cases h
  · exact string2ll_range h

lemma payload_spec (s : ZipString) : zipReqlen s.1 = .ok (payload s.1).length ∧ zipPayload s.1 = .ok (payload s.1) ∧
    Encodes (zipStoreEntryEncoding (zipEncodingOf s.1) s.1.length ++ payload s.1) (zipEncode s.1) := by
  rw [zipReqlen, zipPayload, zipEncodingOf, payload, zipEncode]
  cases hv : zipTryEncoding s.1 with
  | none => exact ⟨rfl, rfl, encodes_str s.2⟩
  | some v =>
    obtain ⟨low, high⟩ := zipTryEncoding_range hv
    obtain ⟨hle, hsize, hsave, henc⟩ := encodes_int low high
    have hstr := zipIsStr_of_le hle
    refine ⟨?_, ?_, ?_⟩
    · rw [length_encodeInt]
      exact hsize
    · rw [hstr, if_neg Bool.false_ne_true, Option.getD_some, hsave]
    · rw [zipStoreEntryEncoding, hstr]
      exact henc

/-- The entry that is stored for a string behind one of a raw length. -/
def ZipItem.ofString (prevlen : Nat) (s : ZipString) : ZipItem where
  big := bigPrevlen prevlen
  body := zipStoreEntryEncoding (zipEncodingOf s.1) s.1.length ++ payload s.1
  value := zipEncode s.1
  encodes := (payload_spec s).2.2

/-- Lengthen the `prevlen` fields of entries that follow one of a raw length, as far as they have to grow. -/
def grow : Nat → List ZipItem → List ZipItem
  | _, [] => []
  | rawlen, next :: rest =>
    if bigPrevlen rawlen ∧ next.big = false then
      { next with big := true } :: grow (ZipItem.rawlen { next with big := true }) rest
    else next :: rest

section Lists

variable {l r : List ZipItem} {i : ZipItem} {n : Nat}

lemma chain_append (n : Nat) (l r : List ZipItem) : chain n (l ++ r) = chain n l ++ chain (lastRaw n l) r := by
  induction l generalizing n with
  | nil => rfl
  | cons i l ih => rw [cons_append, chain, chain, ih, lastRaw, append_assoc, append_assoc]

lemma linked_append : Linked n (l ++ r) ↔ Linked n l ∧ Linked (lastRaw n l) r := by
  induction l generalizing n with
  | nil => simp only [nil_append, Linked, lastRaw, true_and]
  | cons i l ih => rw [cons_append, Linked, Linked, ih, lastRaw, and_assoc]

lemma lastRaw_append (n : Nat) (l r : List ZipItem) : lastRaw n (l ++ r) = lastRaw (lastRaw n l) r := by
  induction l generalizing n with
  | nil => rfl
  | cons i l ih => rw [cons_append, lastRaw, lastRaw, ih]

@[simp] lemma total_nil : total [] = 0 := rfl

@[simp] lemma total_cons (i : ZipItem) (l : List ZipItem) : total (i :: l) = i.rawlen + total l := sum_cons

@[simp] lemma total_append (l r : List ZipItem) : total (l ++ r) = total l + total r := by
  rw [total, map_append, sum_append, ← total, ← total]

lemma lastStart_append (l : List ZipItem) (i : ZipItem) (r : List ZipItem) :
    lastStart (l ++ i :: r) = total l + lastStart (i :: r) := by
  induction l with
  | nil => exact (Nat.zero_add _).symm
  | cons j l ih =>
    cases l with
    | nil => rw [singleton_append, lastStart, total_cons, total_nil, Nat.add_zero]
    | cons k l => rw [cons_append, cons_append, lastStart, ← cons_append, ih, total_cons j, Nat.add_assoc]

lemma lastStart_cons (i j : ZipItem) (l : List ZipItem) : lastStart (i :: j :: l) = i.rawlen + lastStart (j :: l) := rfl

lemma lastStart_lt (i : ZipItem) (l : List ZipItem) : lastStart (i :: l) < total (i :: l) := by
  induction l generalizing i with
  | nil =>
    have hpos := i.rawlen_pos
    rw [lastStart, total_cons]
    omega
  | cons j l ih =>
    have hj := ih j
    rw [lastStart_cons, total_cons]
    omega

lemma lastStart_le (l : List ZipItem) : lastStart l ≤ total l := by
  cases l with
  | nil => exact le_rfl
  | cons i l => exact (lastStart_lt i l).le

lemma length_le_total (l : List ZipItem) : l.length ≤ total l := by
  induction l with
  | nil => exact le_rfl
  | cons i l ih =>
    have hpos := i.rawlen_pos
    rw [length_cons, total_cons]
    omega

lemma grow_of_linked (h : Linked n r) : grow n r = r := by
  cases r with
  | nil => rfl
  | cons i r =>
    rw [grow, if_neg]
    rintro ⟨hbig, hsmall⟩
    have hlt := h.1.2 hsmall
    rw [bigPrevlen, decide_eq_true_eq] at hbig
    omega

end Lists

end JitRedis.RawZiplist
