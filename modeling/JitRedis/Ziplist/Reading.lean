import JitRedis.Ziplist.Cascade

/-!
# Reading a ziplist

What the header of a well-formed ziplist tells, and what `ziplistGet` finds at its entries.
-/

namespace JitRedis.RawZiplist

open Fallible List

def offset (items : List ZipItem) (k : Nat) : Nat := ziplistHeaderSize + total (items.take k)

/-- The strings of entries, integers being written in decimal. -/
def texts (items : List ZipItem) : List Bytes := items.map fun i => i.value.text

lemma texts_eq (items : List ZipItem) : texts items = (items.map ZipItem.value).map ZlValue.text := by
  rw [map_map]
  rfl

@[simp] lemma length_texts (items : List ZipItem) : (texts items).length = items.length := length_map _

/-- The text that a caller of `ziplistGet` finds: the bytes at the pointer, or the integer in decimal. -/
def textAt (zl : Bytes) (p : Nat) : Except Fault (Option Bytes) := do
  let got ← ziplistGet zl p
  match got with
  | none => .ok none
  | some (.str p len) => do
    let s ← Memory.load Fault.badAccess zl p len
    .ok (some s)
  | some (.int v) => .ok (some (ll2string v))

section Lays

variable {zl : Bytes} {items l r : List ZipItem} {i : ZipItem}

lemma Lays.length (h : Lays zl items) : zl.length = ziplistHeaderSize + total items + 1 := by
  obtain ⟨num, -, hbytes⟩ := h.bytes
  rw [hbytes, length_block, length_append, length_chain, length_singleton, Nat.add_assoc]

lemma Lays.total_lt (h : Lays zl items) : ziplistHeaderSize + total items + 1 < 2 ^ 32 := by
  rw [← h.length]
  exact h.small

lemma Lays.around (h : Lays zl (l ++ i :: r)) :
    ∃ num, CountField num (l ++ i :: r).length ∧
      zl = RawZiplist.around (chain 0 l) i (lastRaw 0 l) i.rawlen r num := by
  obtain ⟨num, hnum, hbytes⟩ := h.bytes
  refine ⟨num, hnum, ?_⟩
  rw [hbytes, h.length, RawZiplist.around, framed, chain_append, chain, lastStart_append, length_chain, total_append]
  simp only [append_assoc, Nat.add_assoc]

lemma lays_block {num : Nat} (hnum : CountField num items.length) (hlink : Linked 0 items)
    (small : ziplistHeaderSize + total items + 1 < 2 ^ 32) :
    Lays (block (ziplistHeaderSize + total items + 1) (ziplistHeaderSize + lastStart items) num (chain 0 items ++ [zipEnd]))
      items := by
  have hlen : (block (ziplistHeaderSize + total items + 1) (ziplistHeaderSize + lastStart items) num
      (chain 0 items ++ [zipEnd])).length = ziplistHeaderSize + total items + 1 := by
    rw [length_block, length_append, length_chain, length_singleton, Nat.add_assoc]
  exact ⟨⟨num, hnum, by rw [hlen]⟩, hlink, by rwa [hlen]⟩

lemma lays_around {num : Nat} (hnum : CountField num (l ++ i :: r).length) (hlink : Linked 0 (l ++ i :: r))
    (small : ziplistHeaderSize + total (l ++ i :: r) + 1 < 2 ^ 32) :
    Lays (around (chain 0 l) i (lastRaw 0 l) i.rawlen r num) (l ++ i :: r) := by
  have h := lays_block hnum hlink small
  rw [chain_append, chain, lastStart_append, total_append] at h
  rw [around, framed, length_chain]
  simp only [append_assoc, Nat.add_assoc] at h ⊢
  exact h

lemma Lays.byteAt_end (h : Lays zl items) : byteAt zl (ziplistHeaderSize + total items) = .ok zipEnd := by
  obtain ⟨num, -, hbytes⟩ := h.bytes
  rw [block_append] at hbytes
  exact byteAt_eq (c := []) hbytes (by rw [length_block, length_chain])

lemma Lays.tailOffset (h : Lays zl items) : ziplistTailOffset zl = .ok (ziplistHeaderSize + lastStart items) := by
  obtain ⟨num, -, hbytes⟩ := h.bytes
  have hle := lastStart_le items
  have small := h.total_lt
  rw [hbytes]
  exact ziplistTailOffset_block (by omega)

lemma Lays.bytes_eq (h : Lays zl items) : ziplistBytes zl = .ok (ziplistHeaderSize + total items + 1) := by
  obtain ⟨num, -, hbytes⟩ := h.bytes
  rw [hbytes, ← h.length]
  exact ziplistBytes_block h.small

lemma lastStart_add (l : List ZipItem) : lastStart l + lastRaw 0 l = total l := by
  rcases eq_nil_or_concat l with rfl | ⟨l, i, rfl⟩
  · rfl
  · rw [concat_eq_append, lastStart_append, lastRaw_append, total_append, total_cons]
    rfl

lemma lastRaw_le (n : Nat) (l : List ZipItem) : lastRaw n l ≤ n + total l := by
  induction l generalizing n with
  | nil => exact Nat.le_add_right _ _
  | cons i l ih =>
    have hle := ih i.rawlen
    rw [lastRaw, total_cons]
    omega

section

variable (h : Lays zl (l ++ i :: r))
include h

lemma Lays.split :
    ∃ a c, zl = a ++ (field i.big (lastRaw 0 l) ++ (i.body ++ c)) ∧ ziplistHeaderSize + total l = a.length ∧
      Fits i.big (lastRaw 0 l) ∧ i.rawlen < 2 ^ 32 := by
  obtain ⟨num, -, hzl⟩ := h.around
  have small := h.total_lt
  rw [total_append, total_cons] at small
  rw [RawZiplist.around, framed_eq] at hzl
  exact ⟨_, _, hzl, by rw [length_block, length_chain], (linked_append.mp h.linked).2.1, by omega⟩

lemma Lays.entryByte : ∃ b, byteAt zl (ziplistHeaderSize + total l) = .ok b ∧ b ≠ zipEnd := by
  obtain ⟨a, c, hzl, hp, hfits, -⟩ := h.split
  obtain ⟨b, hb, hne, -⟩ := byteAt_field hzl hp hfits
  exact ⟨b, hb, hne⟩

lemma Lays.decodePrevlen :
    zipDecodePrevlen zl (ziplistHeaderSize + total l) = .ok (fieldSize i.big, lastRaw 0 l) := by
  obtain ⟨a, c, hzl, hp, hfits, -⟩ := h.split
  exact zipDecodePrevlen_eq hzl hp hfits

lemma Lays.rawEntryLength :
    zipRawEntryLength zl (ziplistHeaderSize + total l) = .ok i.rawlen := by
  obtain ⟨a, c, hzl, hp, hfits, hraw⟩ := h.split
  exact zipRawEntryLength_eq hzl hp hfits hraw

lemma Lays.prevrawlen :
    ∃ e, zipEntry zl (ziplistHeaderSize + total l) = .ok e ∧ e.prevrawlen = lastRaw 0 l := by
  obtain ⟨a, c, hzl, hp, hfits, -⟩ := h.split
  obtain ⟨e, he, -, hprev, -, -⟩ := zipEntry_eq hzl hp hfits
  exact ⟨e, he, hprev⟩

lemma Lays.text_eq :
    textAt zl (ziplistHeaderSize + total l) = .ok (some i.value.text) := by
  obtain ⟨a, c, hzl, hp, hfits, -⟩ := h.split
  obtain ⟨b, hb, hne⟩ := h.entryByte
  obtain ⟨e, he, -, -, -, hreads⟩ := zipEntry_eq hzl hp hfits
  rw [textAt, ziplistGet, hb, ok_bind, if_neg hne, he, ok_bind]
  cases hv : i.value with
  | str s =>
    rw [hv] at hreads
    rw [hreads.1, if_pos rfl, ok_bind]
    dsimp only
    rw [hreads.2.2]
    rfl
  | int v =>
    rw [hv] at hreads
    rw [hreads.1, if_neg Bool.false_ne_true, hreads.2]
    rfl

end

lemma Lays.textAt_offset (h : Lays zl items) {k : Nat} (hk : k ≤ items.length) :
    textAt zl (offset items k) = .ok (texts items)[k]? := by
  rw [texts, getElem?_map]
  rcases hk.lt_or_eq with hlt | rfl
  · rw [getElem?_eq_getElem hlt, offset]
    rw [Memory.split_at hlt] at h
    exact h.text_eq
  · rw [offset, take_length, textAt, ziplistGet, h.byteAt_end, getElem?_length]
    rfl

/-- The position that an index names: from the tail if it is negative. -/
def position (n : Nat) (index : Int) : Option Nat :=
  if 0 ≤ index then if index < n then some index.toNat else none
  else if -index ≤ n then some (n + index).toNat else none

lemma Lays.indexForward (h : Lays zl (l ++ r)) (index : Nat) :
    ziplistIndexForward zl index (ziplistHeaderSize + total l) =
      .ok (if index < r.length then some (ziplistHeaderSize + total (l ++ r.take index)) else none) := by
  induction r generalizing l index with
  | nil =>
    have hend := h.byteAt_end
    rw [append_nil] at hend
    rw [ziplistIndexForward.eq_def]
    dsimp only
    rw [hend, ok_bind, if_pos rfl]
    rfl
  | cons i r ih =>
    obtain ⟨b, hb, hne⟩ := h.entryByte
    rw [ziplistIndexForward.eq_def]
    dsimp only
    rw [hb, ok_bind, if_neg hne]
    cases index with
    | zero => rw [if_pos (by simp), take_zero, append_nil]
    | succ index =>
      have hnext := h.rawEntryLength
      rw [append_cons] at h
      have hrest := ih h index
      rw [total_append, total_cons, total_nil, Nat.add_zero, ← Nat.add_assoc, append_assoc, singleton_append] at hrest
      simp only [hnext, ok_bind, hrest, length_cons, Nat.add_lt_add_iff_right, take_succ_cons]

lemma Lays.indexBackward (h : Lays zl (l ++ r)) (index : Nat) :
    ziplistIndexBackward zl index (ziplistHeaderSize + total l) (lastRaw 0 l) =
      .ok (if index ≤ l.length then some (ziplistHeaderSize + total (l.take (l.length - index))) else none) := by
  induction index generalizing l r with
  | zero => rw [ziplistIndexBackward, if_pos (Nat.zero_le _), Nat.sub_zero, take_length]
  | succ index ih =>
    rw [ziplistIndexBackward]
    rcases eq_nil_or_concat l with rfl | ⟨l, i, rfl⟩
    · rw [lastRaw, if_neg (lt_irrefl 0), if_neg (by simp)]
    rw [concat_eq_append] at h ⊢
    rw [append_assoc, singleton_append] at h
    have hprev : ziplistHeaderSize + total (l ++ [i]) - i.rawlen = ziplistHeaderSize + total l := by
      rw [total_append, total_cons, total_nil]
      omega
    rw [lastRaw_append, lastRaw, lastRaw, if_pos i.rawlen_pos, hprev, h.decodePrevlen, ok_bind]
    dsimp only
    rw [ih h, length_append, length_singleton]
    simp only [Nat.add_le_add_iff_right, Nat.add_sub_add_right]
    rw [take_append_of_le_length (Nat.sub_le _ _)]

lemma Lays.index_eq (h : Lays zl items) (index : Int) :
    ziplistIndex zl index = .ok ((position items.length index).map (offset items)) := by
  rw [RawZiplist.ziplistIndex, position]
  by_cases hneg : index < 0
  · rw [if_pos hneg, if_neg (by omega), h.tailOffset, ok_bind]
    rcases eq_nil_or_concat items with rfl | ⟨l, i, rfl⟩
    · have hend : byteAt zl (ziplistHeaderSize + lastStart []) = .ok zipEnd := h.byteAt_end
      rw [hend, ok_bind, if_pos rfl, if_neg (by simp; omega)]
      rfl
    rw [concat_eq_append] at h ⊢
    obtain ⟨b, hb, hne⟩ := h.entryByte
    rw [lastStart_append, show lastStart [i] = 0 from rfl, Nat.add_zero, hb, ok_bind, if_neg hne, h.decodePrevlen, ok_bind]
    dsimp only
    rw [h.indexBackward, length_append, length_singleton]
    by_cases hin : -index ≤ l.length + 1
    · rw [if_pos (by omega), if_pos (by push_cast; omega), Option.map_some, offset, take_append_of_le_length (by omega)]
      congr 5
      omega
    · rw [if_neg (by omega), if_neg (by push_cast; omega)]
      rfl
  · rw [if_neg hneg, if_pos (by omega)]
    have hforward := Lays.indexForward (l := []) h index.toNat
    rw [show ziplistHeaderSize + total [] = ziplistHeaderSize from rfl] at hforward
    rw [hforward, nil_append]
    by_cases hin : index < items.length
    · rw [if_pos (by omega), if_pos hin]
      rfl
    · rw [if_neg (by omega), if_neg hin]
      rfl

end Lays

end JitRedis.RawZiplist
