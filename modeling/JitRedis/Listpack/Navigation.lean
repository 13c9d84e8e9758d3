import JitRedis.Listpack.Encoding

/-!
# Moving through a listpack

A well-formed listpack is a header, entries and the end marker. From every entry the next and the previous one are found,
so that both directions meet the same entries, and so does a search by index.
-/

namespace JitRedis.RawListpack

open Fallible List LittleEndian

structure LpItem where
  bytes : Bytes
  element : LpElement
  encodes : Encodes bytes element

def LpItem.raw (i : LpItem) : Bytes := i.bytes ++ lpEncodeBacklen i.bytes.length

def entries (items : List LpItem) : Bytes := items.flatMap LpItem.raw

/-- A well-formed listpack with its entries. -/
structure Lays (lp : Bytes) (items : List LpItem) : Prop where
  bytes : ∃ num, CountField num items.length ∧
    lp = LittleEndian.encode 4 lp.length ++ (LittleEndian.encode 2 num ++ (entries items ++ [lpEof]))
  small : lp.length ≤ uint32Max

/-- Where an entry starts; the end marker is behind the last one. -/
def offset (items : List LpItem) (k : Nat) : Nat := lpHdrSize + (entries (items.take k)).length

/-- A pointer to an entry, or `NULL` behind the last one. -/
def pointer (items : List LpItem) (k : Nat) : Option Nat := if k < items.length then some (offset items k) else none

/-- A pointer to the entry before one, or `NULL` before the first one. -/
def pointerBefore (items : List LpItem) : Nat → Option Nat
  | 0 => none
  | k + 1 => some (offset items k)

lemma numele_known {n : Nat} (h : n < 65535) : n ≠ lpHdrNumeleUnknown := h.ne

lemma numele_unknown : ¬65535 ≠ lpHdrNumeleUnknown := not_not_intro rfl

lemma length_lpEncodeBacklen (l : Nat) : (lpEncodeBacklen l).length = JitRedis.lpEncodeBacklen l := by
  rw [lpEncodeBacklen, JitRedis.lpEncodeBacklen]
  split_ifs <;> rfl

lemma length_lpEncodeBacklen_pos (l : Nat) : 0 < (lpEncodeBacklen l).length := by
  rw [length_lpEncodeBacklen, JitRedis.lpEncodeBacklen]
  split_ifs <;> omega

lemma entries_append (l r : List LpItem) : entries (l ++ r) = entries l ++ entries r := flatMap_append

lemma entries_cons (i : LpItem) (l : List LpItem) : entries (i :: l) = i.raw ++ entries l := flatMap_cons

lemma length_le_entries (items : List LpItem) : items.length ≤ (entries items).length := by
  induction items with
  | nil => exact Nat.zero_le _
  | cons i items ih =>
    have hpos := length_lpEncodeBacklen_pos i.bytes.length
    rw [entries_cons, length_append, LpItem.raw, length_append, length_cons]
    omega

lemma entries_split (items : List LpItem) (k : Nat) :
    entries items = entries (items.take k) ++ entries (items.drop k) := by
  rw [← entries_append, take_append_drop]

lemma offset_succ {items} {k : Nat} (hk : k < items.length) :
    offset items (k + 1) = offset items k + items[k].raw.length := by
  rw [offset, offset, take_succ_eq_append_getElem hk, entries_append, length_append, Nat.add_assoc, entries_cons,
    length_append]
  rfl

lemma lpUnlessEof_eq (a : Bytes) (items : List LpItem) :
    lpUnlessEof (a ++ (entries items ++ [lpEof])) a.length = .ok (if items = [] then none else some a.length) := by
  cases items with
  | nil =>
    have hread : byteAt (a ++ (entries [] ++ [lpEof])) a.length = .ok lpEof := byteAt_eq (c := []) rfl rfl
    rw [lpUnlessEof, hread, ok_bind, if_pos rfl, if_pos rfl]
  | cons i items =>
    obtain ⟨b, rest, hb, hne⟩ := i.encodes.ne_eof
    rw [entries_cons, LpItem.raw, hb, cons_append, cons_append, cons_append, lpUnlessEof, byteAt_eq rfl rfl,
      ok_bind, if_neg hne, if_neg (cons_ne_nil _ _)]

namespace Lays

variable {lp : Bytes} {items : List LpItem} {k : Nat}

section

variable (h : Lays lp items)
include h

lemma split (k : Nat) :
    ∃ a, a.length = offset items k ∧ lp = a ++ (entries (items.drop k) ++ [lpEof]) := by
  obtain ⟨num, -, hlp⟩ := h.bytes
  refine ⟨encode 4 lp.length ++ (encode 2 num ++ entries (items.take k)), ?_, ?_⟩
  · rw [length_append, length_append, length_encode, length_encode, offset, lpHdrSize]
    omega
  · rw [entries_split items k] at hlp
    simpa only [append_assoc] using hlp

lemma splitAt (hk : k < items.length) :
    ∃ a c, a.length = offset items k ∧
      lp = a ++ (items[k].bytes ++ (lpEncodeBacklen items[k].bytes.length ++ c)) := by
  obtain ⟨a, ha, hlp⟩ := h.split k
  refine ⟨a, entries (items.drop (k + 1)) ++ [lpEof], ha, ?_⟩
  rw [drop_eq_getElem_cons hk, entries_cons, LpItem.raw] at hlp
  simpa only [append_assoc] using hlp

lemma length_eq : lp.length = offset items items.length + 1 := by
  obtain ⟨a, ha, hlp⟩ := h.split items.length
  rw [hlp, drop_length, length_append, ha]
  rfl

lemma bytes_lt (hk : k < items.length) : items[k].bytes.length < 2 ^ 32 := by
  obtain ⟨a, c, -, hlp⟩ := h.splitAt hk
  have hsmall := h.small
  have hlen := congrArg List.length hlp
  simp only [length_append] at hlen
  rw [uint32Max] at hsmall
  omega

lemma length_lt : items.length < lp.length := by
  have hle := length_le_entries items
  rw [h.length_eq, offset, take_length]
  omega

lemma getTotalBytes : lpGetTotalBytes lp = .ok lp.length := by
  obtain ⟨num, -, hlp⟩ := h.bytes
  have hsmall := h.small
  rw [uint32Max] at hsmall
  have hread := numberAt_eq (a := []) hlp (rfl : 0 = _) (length_encode 4 _).symm
  rw [lpGetTotalBytes, hread, decode_encode (by omega)]

lemma getNumElements : ∃ num, CountField num items.length ∧ lpGetNumElements lp = .ok num := by
  obtain ⟨num, hnum, hlp⟩ := h.bytes
  have hlt := hnum.lt
  refine ⟨num, hnum, ?_⟩
  rw [lpGetNumElements, numberAt_eq hlp (length_encode 4 _).symm (length_encode 2 _).symm,
    decode_encode hlt]

lemma unlessEof (hk : k ≤ items.length) : lpUnlessEof lp (offset items k) = .ok (pointer items k) := by
  obtain ⟨a, ha, hlp⟩ := h.split k
  rw [hlp, ← ha, lpUnlessEof_eq, pointer, ha]
  simp only [drop_eq_nil_iff]
  split_ifs <;> first | rfl | omega

lemma skip (hk : k < items.length) : lpSkip lp (offset items k) = .ok (offset items (k + 1)) := by
  obtain ⟨a, c, ha, hlp⟩ := h.splitAt hk
  rw [lpSkip, lpCurrentEncodedSize_eq items[k].encodes hlp ha.symm (h.bytes_lt hk), ok_bind, offset_succ hk,
    LpItem.raw, length_append]

lemma next (hk : k < items.length) : lpNext lp (offset items k) = .ok (pointer items (k + 1)) := by
  rw [lpNext, h.skip hk, ok_bind, h.unlessEof hk]

lemma decodeBacklen (hk : k < items.length) :
    lpDecodeBacklen lp (offset items (k + 1)) = .ok items[k].bytes.length := by
  obtain ⟨a, c, ha, hlp⟩ := h.splitAt hk
  have hlt := h.bytes_lt hk
  apply lpDecodeBacklen_eq (a := a ++ items[k].bytes) (c := c)
  · rw [hlp, append_assoc]
  · rw [offset_succ hk, LpItem.raw, length_append, length_append, ha, Nat.add_assoc]
  · omega

lemma prev (hk : k ≤ items.length) : lpPrev lp (offset items k) = .ok (pointerBefore items k) := by
  cases k with
  | zero => exact if_pos rfl
  | succ k =>
    have hdec := h.decodeBacklen hk
    have hoff := offset_succ hk
    rw [LpItem.raw, length_append] at hoff
    have hpos := length_lpEncodeBacklen_pos items[k].bytes.length
    rw [lpPrev, if_neg (by rw [hoff, offset]; omega), hdec, ok_bind, if_pos (by omega)]
    congr 2
    omega

lemma first : lpFirst lp = .ok (pointer items 0) := h.unlessEof (Nat.zero_le _)

lemma last : lpLast lp = .ok (pointerBefore items items.length) := by
  rw [lpLast, h.getTotalBytes, ok_bind, h.length_eq, Nat.add_sub_cancel, h.prev le_rfl]

lemma get (hk : k < items.length) (intbuf : Bool) :
    ∃ g, lpGet lp (offset items k) intbuf = .ok g ∧ Reads lp intbuf g items[k].element := by
  obtain ⟨a, c, ha, hlp⟩ := h.splitAt hk
  exact lpGet_eq items[k].encodes hlp ha.symm

end

end Lays

/-- The pointers that are met when a step is repeated until it returns `NULL`. -/
def pointers (step : Nat → Except Fault (Option Nat)) : Nat → Option Nat → Except Fault (List Nat)
  | _, none => .ok []
  | 0, some _ => .error .diverged
  | turns + 1, some p => do
    let next ← step p
    let ps ← pointers step turns next
    .ok (p :: ps)

def offsets (items : List LpItem) : List Nat := (List.range items.length).map (offset items)

/-- The entry at an index, which is counted from the end if it is negative. -/
def pointerAt (items : List LpItem) (index : Int) : Option Nat :=
  if 0 ≤ index then pointer items index.toNat else pointerBefore items (items.length + index + 1).toNat

lemma pointer_of_le {items} {k : Nat} (h : items.length ≤ k) : pointer items k = none :=
  if_neg (Nat.not_lt.mpr h)

lemma pointer_of_lt {items} {k : Nat} (h : k < items.length) : pointer items k = some (offset items k) :=
  if_pos h

namespace Lays

variable {lp : Bytes} {items : List LpItem}

section

variable (h : Lays lp items)
include h

lemma pointers_next {k n turns : Nat} (hn : k + n = items.length) (hturns : n ≤ turns) :
    pointers (lpNext lp) turns (pointer items k) = .ok ((List.range' k n).map (offset items)) := by
  induction n generalizing k turns with
  | zero => rw [pointer_of_le (by omega), pointers, range'_zero, map_nil]
  | succ n ih =>
    obtain _ | turns := turns
    · omega
    rw [pointer_of_lt (by omega), pointers, h.next (by omega), ok_bind, ih (by omega) (by omega), ok_bind,
      range'_succ, map_cons]

lemma pointers_prev {k turns : Nat} (hk : k ≤ items.length) (hturns : k ≤ turns) :
    pointers (lpPrev lp) turns (pointerBefore items k) = .ok ((List.range k).map (offset items)).reverse := by
  induction k generalizing turns with
  | zero =>
    rw [pointerBefore, pointers]
    rfl
  | succ k ih =>
    obtain _ | turns := turns
    · omega
    rw [pointerBefore, pointers, h.prev (by omega), ok_bind, ih (by omega) (by omega), range_succ,
      map_append, reverse_append]
    rfl

lemma lengthLoop {k n turns count : Nat} (hn : k + n = items.length) (hturns : n ≤ turns)
    (hcount : count + n < 2 ^ 32) : lpLengthLoop lp turns (pointer items k) count = .ok (count + n) := by
  induction n generalizing k turns count with
  | zero => rw [pointer_of_le (by omega), lpLengthLoop, Nat.add_zero]
  | succ n ih =>
    obtain _ | turns := turns
    · omega
    rw [pointer_of_lt (by omega), lpLengthLoop, h.next (by omega), ok_bind,
      ih (by omega) (by omega) (by omega)]
    congr 1
    omega

lemma setNumElements (hn : items.length < lpHdrNumeleUnknown) :
    ∃ lp', lpSetNumElements lp items.length = .ok lp' ∧ Lays lp' items := by
  obtain ⟨num, -, hlp⟩ := h.bytes
  refine ⟨_, putNumber_eq hlp (length_encode 4 _).symm (length_encode 2 num), ?_⟩
  set lp' := encode 4 lp.length ++ (encode 2 items.length ++ (entries items ++ [lpEof])) with hlp'
  have hsame : lp'.length = lp.length := by
    have hlen' := congrArg List.length hlp
    simp only [length_append, length_encode] at hlen'
    rw [hlp']
    simp only [length_append, length_encode]
    exact hlen'.symm
  exact ⟨⟨_, .inl ⟨rfl, hn⟩, by rw [hsame]⟩, by rw [hsame]; exact h.small⟩

lemma length_ok : ∃ lp', lpLength lp = .ok (items.length, lp') ∧ Lays lp' items := by
  obtain ⟨num, hnum, hget⟩ := h.getNumElements
  rw [lpLength, hget, ok_bind]
  rcases hnum with ⟨rfl, hlt⟩ | rfl
  · exact ⟨lp, if_pos (numele_known hlt), h⟩
  have hlt := h.length_lt
  have hsmall := h.small
  rw [uint32Max] at hsmall
  rw [if_neg numele_unknown, lpLengthScan, h.first, ok_bind,
    h.lengthLoop (Nat.zero_add _) hlt.le (by omega), ok_bind, Nat.zero_add]
  split
  · rename_i hn
    obtain ⟨lp', hset, hlays⟩ := h.setNumElements hn
    exact ⟨lp', by rw [hset, ok_bind], hlays⟩
  · exact ⟨lp, rfl, h⟩

lemma seekForward (steps k : Nat) :
    lpSeekForward lp steps (pointer items k) = .ok (pointer items (k + steps)) := by
  induction steps generalizing k with
  | zero =>
    cases pointer items k <;> rfl
  | succ steps ih =>
    by_cases hk : k < items.length
    · rw [pointer_of_lt hk, lpSeekForward, h.next hk, ok_bind, ih]
      congr 2
      omega
    · rw [pointer_of_le (by omega), pointer_of_le (by omega), lpSeekForward]

lemma seekBackward {steps k : Nat} (hk : k ≤ items.length) :
    lpSeekBackward lp steps (pointerBefore items k) = .ok (pointerBefore items (k - steps)) := by
  induction steps generalizing k with
  | zero => cases k <;> rfl
  | succ steps ih =>
    cases k with
    | zero => rw [Nat.zero_sub, pointerBefore, lpSeekBackward]
    | succ k =>
      rw [pointerBefore, lpSeekBackward, h.prev (by omega), ok_bind, ih (by omega)]
      congr 2
      omega

lemma seekScan (index : Int) :
    lpSeekScan lp (decide (0 ≤ index)) index = .ok (pointerAt items index) := by
  rw [lpSeekScan, pointerAt]
  by_cases hi : 0 ≤ index
  · rw [decide_eq_true hi, if_pos rfl, if_pos hi, h.first, ok_bind, h.seekForward, Nat.zero_add]
  · rw [decide_eq_false hi, if_neg Bool.false_ne_true, if_neg hi, h.last, ok_bind, h.seekBackward le_rfl]
    congr 2
    omega

end

lemma pointerAt_sub_length {index : Int} (low : 0 ≤ index) (high : index < items.length) :
    pointerAt items (index - items.length) = pointerAt items index := by
  rw [pointerAt, pointerAt, if_neg (by omega), if_pos low, pointer_of_lt (by omega),
    show (items.length + (index - items.length) + 1).toNat = index.toNat + 1 by omega, pointerBefore]

lemma pointerAt_outside {index : Int} (out : index < -items.length ∨ items.length ≤ index) :
    pointerAt items index = none := by
  rw [pointerAt]
  split
  · exact pointer_of_le (by omega)
  · rw [show (items.length + index + 1).toNat = 0 by omega, pointerBefore]

lemma seekKnown (h : Lays lp items) {index : Int} (low : -items.length ≤ index) :
    lpSeekKnown lp items.length (if index < 0 then items.length + index else index) = .ok (pointerAt items index) := by
  have hwrap : pointerAt items (if index < 0 then items.length + index else index) = pointerAt items index := by
    split
    · rw [← pointerAt_sub_length (by omega) (by omega)]
      congr 1
      omega
    · rfl
  rw [← hwrap]
  set i := if index < 0 then items.length + index else index with hi
  have hpos : 0 ≤ i := by omega
  rw [lpSeekKnown, if_neg (by omega)]
  split
  · rw [pointerAt_outside (by omega)]
  split
  · have hscan := h.seekScan (i - items.length)
    rw [decide_eq_false (by omega)] at hscan
    rw [hscan, pointerAt_sub_length hpos (by omega)]
  · have hscan := h.seekScan i
    rwa [decide_eq_true hpos] at hscan

lemma seek (h : Lays lp items) (index : Int) : lpSeek lp index = .ok (pointerAt items index) := by
  obtain ⟨num, hnum, hget⟩ := h.getNumElements
  rw [lpSeek, hget, ok_bind]
  rcases hnum with ⟨rfl, hlt⟩ | rfl
  · rw [if_pos (numele_known hlt)]
    by_cases low : -items.length ≤ index
    · exact h.seekKnown low
    · rw [lpSeekKnown, if_pos (by omega), pointerAt_outside (by omega)]
  · rw [if_neg numele_unknown, h.seekScan]

end Lays

/-- In a well-formed listpack both directions meet all entries in order and then `NULL`, a step forward is undone by a
step back, `lpLength` is the number of entries, and `lpSeek` finds the entry at every index from either end. -/
theorem listpack_navigation {lp : Bytes} {items : List LpItem} (h : Lays lp items) :
    (∀ k, ∀ hk : k < items.length, ∀ intbuf, ∃ g,
      lpGet lp (offset items k) intbuf = .ok g ∧ Reads lp intbuf g items[k].element ∧ g.bytes lp = .ok items[k].element.text) ∧
    (lpFirst lp >>= pointers (lpNext lp) items.length) = .ok (offsets items) ∧
    (lpLast lp >>= pointers (lpPrev lp) items.length) = .ok (offsets items).reverse ∧
    (∀ k, k + 1 < items.length → ∃ q, lpNext lp (offset items k) = .ok (some q) ∧ lpPrev lp q = .ok (some (offset items k))) ∧
    (∃ lp', lpLength lp = .ok (items.length, lp') ∧ Lays lp' items) ∧
    (∀ i < items.length, lpSeek lp i = .ok (some (offset items i)) ∧
      lpSeek lp (i - items.length) = .ok (some (offset items i))) ∧
    (∀ i : Int, i < -items.length ∨ items.length ≤ i → lpSeek lp i = .ok none) := by
  refine ⟨?_, ?_, ?_, ?_, h.length_ok, ?_, ?_⟩
  · intro k hk intbuf
    obtain ⟨g, hget, hreads⟩ := h.get hk intbuf
    exact ⟨g, hget, hreads, hreads.bytes items[k].encodes⟩
  · rw [h.first, ok_bind, h.pointers_next (Nat.zero_add _) le_rfl, offsets, range_eq_range']
  · rw [h.last, ok_bind, h.pointers_prev le_rfl le_rfl, offsets]
  · intro k hk
    refine ⟨offset items (k + 1), ?_, ?_⟩
    · rw [h.next (by omega), pointer_of_lt hk]
    · rw [h.prev (by omega), pointerBefore]
  · intro i hi
    have hat : pointerAt items i = some (offset items i) := by
      rw [pointerAt, if_pos (by omega), Int.toNat_natCast, pointer_of_lt hi]
    exact ⟨by rw [h.seek, hat], by rw [h.seek, Lays.pointerAt_sub_length (by omega) (by omega), hat]⟩
  · intro i out
    rw [h.seek, Lays.pointerAt_outside out]

/-- A listpack that does not know its count, with an integer and a string. -/
theorem listpack_navigation_unknown_count :
    let i : LpItem := ⟨[5], _, .uint7 (by decide)⟩
    let s : LpItem := ⟨[0x81, 97], _, .str6 (b := 0x81) (s := [97]) (by decide) (by decide)⟩
    let lp : Bytes := [12, 0, 0, 0, 255, 255, 5, 1, 0x81, 97, 2, 255]
    Lays lp [i, s] ∧ lpSeek lp 1 = .ok (some 8) ∧ lpSeek lp (-1) = .ok (some 8) := by
  have lays : Lays [12, 0, 0, 0, 255, 255, 5, 1, 0x81, 97, 2, 255]
      [⟨[5], _, .uint7 (by decide)⟩, ⟨[0x81, 97], _, .str6 (b := 0x81) (s := [97]) (by decide) (by decide)⟩] :=
    ⟨⟨65535, .inr rfl, by decide⟩, by decide⟩
  have seeks := (listpack_navigation lays).2.2.2.2.2.1 1 (by decide)
  exact ⟨lays, seeks.1, seeks.2⟩

end JitRedis.RawListpack
