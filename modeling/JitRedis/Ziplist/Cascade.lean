import JitRedis.Ziplist.Layout

/-!
# Cascading updates

`__ziplistCascadeUpdate` repairs the `prevlen` fields behind an entry that has a new size, and lengthens them as far as they
have to grow.
-/

namespace JitRedis.RawZiplist

open Fallible List ZipItem

/-- A block around an entry: its field holds a length, and that of the entry behind it another one. -/
def framed (len tail num : Nat) (pre : Bytes) (c : ZipItem) (k old : Nat) (rest : List ZipItem) : Bytes :=
  block len tail num (pre ++ (field c.big k ++ (c.body ++ (chain old rest ++ [zipEnd]))))

/-- Such a block with a header that fits. -/
def around (pre : Bytes) (c : ZipItem) (k old : Nat) (rest : List ZipItem) (num : Nat) : Bytes :=
  framed (ziplistHeaderSize + pre.length + total (c :: rest) + 1)
    (ziplistHeaderSize + pre.length + lastStart (c :: rest)) num pre c k old rest

lemma length_entry (pre : Bytes) (c : ZipItem) (k : Nat) :
    (pre ++ (field c.big k ++ c.body)).length = pre.length + c.rawlen := by
  rw [length_append, length_append, length_field, rawlen]

lemma framed_next (len tail num : Nat) (pre : Bytes) (c : ZipItem) (k old : Nat) (i : ZipItem) (rest : List ZipItem) :
    framed len tail num pre c k old (i :: rest) =
      framed len tail num (pre ++ (field c.big k ++ c.body)) i old i.rawlen rest := by
  simp only [framed, chain, append_assoc]

/-- The block without its end marker. -/
lemma around_eq (pre : Bytes) (c : ZipItem) (k old : Nat) (rest : List ZipItem) (num : Nat) :
    around pre c k old rest num = block (ziplistHeaderSize + pre.length + total (c :: rest) + 1)
      (ziplistHeaderSize + pre.length + lastStart (c :: rest)) num
      ((pre ++ (field c.big k ++ (c.body ++ chain old rest))) ++ [zipEnd]) := by
  simp only [around, framed, append_assoc]

lemma length_entries (pre : Bytes) (c : ZipItem) (k old : Nat) (rest : List ZipItem) :
    (pre ++ (field c.big k ++ (c.body ++ chain old rest))).length = pre.length + total (c :: rest) := by
  rw [total_cons, rawlen]
  simp only [length_append, length_field, length_chain, Nat.add_assoc]

lemma around_next (pre : Bytes) (c : ZipItem) (k old : Nat) (i : ZipItem) (rest : List ZipItem) (num : Nat) :
    around pre c k old (i :: rest) num = around (pre ++ (field c.big k ++ c.body)) i old i.rawlen rest num := by
  rw [around, around, framed_next, length_entry, lastStart_cons, total_cons c]
  congr 1 <;> omega

section Framed

variable {len tail num : Nat} {pre : Bytes} {c : ZipItem} {k old : Nat} {rest : List ZipItem}

lemma framed_eq : framed len tail num pre c k old rest =
    block len tail num pre ++ (field c.big k ++ (c.body ++ (chain old rest ++ [zipEnd]))) := block_append ..

lemma zipEntry_framed (h : Fits c.big k) :
    ∃ e, zipEntry (framed len tail num pre c k old rest) (ziplistHeaderSize + pre.length) = .ok e ∧
      e.prevrawlensize = fieldSize c.big ∧ e.prevrawlen = k ∧ e.headersize + e.len = c.rawlen := by
  obtain ⟨e, he, hsize, hprev, hlen, -⟩ := zipEntry_eq framed_eq (length_block len tail num pre).symm h
  exact ⟨e, he, hsize, hprev, hlen⟩

lemma byteAt_framed (h : Fits c.big k) :
    ∃ b, byteAt (framed len tail num pre c k old rest) (ziplistHeaderSize + pre.length) = .ok b ∧ b ≠ zipEnd := by
  obtain ⟨b, hb, hne, -⟩ := byteAt_field framed_eq (length_block len tail num pre).symm h
  exact ⟨b, hb, hne⟩

lemma byteAt_behind (hrest : Linked old rest) :
    ∃ b, byteAt (framed len tail num pre c k old rest) (ziplistHeaderSize + pre.length + c.rawlen) = .ok b ∧
      (b = zipEnd ↔ rest = []) := by
  rw [Nat.add_assoc, ← length_entry pre c k]
  cases rest with
  | nil =>
    refine ⟨zipEnd, ?_, by simp⟩
    apply byteAt_eq (a := block len tail num (pre ++ (field c.big k ++ c.body))) (c := [])
    · rw [← block_append, framed]
      simp only [chain, append_assoc, nil_append]
    · rw [length_block]
  | cons i rest =>
    obtain ⟨b, hb, hne⟩ := byteAt_framed hrest.1
    rw [framed_next]
    exact ⟨b, hb, by simp [hne]⟩

lemma store_field {f : Bytes} {big : Bool} {n : Nat} (hf : f.length = fieldSize big) (hbig : c.big = big) :
    Memory.store Fault.overflow (block len tail num (pre ++ (f ++ (c.body ++ (chain old rest ++ [zipEnd])))))
      (ziplistHeaderSize + pre.length) (field big n) = .ok (framed len tail num pre c n old rest) := by
  subst hbig
  exact store_block rfl (by rw [hf, length_field])

lemma updateTail_framed {moved nextdiff : Int} {t : Nat} (hc : Fits c.big k) (hrest : Linked old rest)
    (hraw : c.rawlen < 2 ^ 32) (htail : tail < 2 ^ 32)
    (ht : (t : Int) = (tail + moved + if rest = [] then 0 else nextdiff) % 2 ^ 32) :
    ziplistUpdateTail (framed len tail num pre c k old rest) (ziplistHeaderSize + pre.length) moved nextdiff =
      .ok (framed len t num pre c k old rest) := by
  -- The sum may pass `2 ^ 32` before the difference is taken into account.
  obtain ⟨u, hu⟩ : ∃ u : Nat, (u : Int) = (tail + moved) % 2 ^ 32 := ⟨((tail + moved) % 2 ^ 32).toNat, by omega⟩
  have hshift : ziplistShiftTail (framed len tail num pre c k old rest) true moved =
      .ok (framed len u num pre c k old rest) := ziplistShiftTail_block true htail (by rw [if_pos rfl, hu])
  obtain ⟨e, he, -, -, hlen⟩ : ∃ e, zipEntry (framed len u num pre c k old rest) (ziplistHeaderSize + pre.length) = .ok e ∧ _ :=
    zipEntry_framed hc
  obtain ⟨n, hn, hend⟩ : ∃ n, byteAt (framed len u num pre c k old rest) (ziplistHeaderSize + pre.length + c.rawlen) = .ok n ∧ _ :=
    byteAt_behind hrest
  rw [ziplistUpdateTail, hshift, ok_bind, he, ok_bind, hlen, uint, Nat.mod_eq_of_lt hraw, hn]
  apply ziplistShiftTail_block _ (by omega)
  by_cases hlast : rest = []
  · rw [if_pos hlast] at ht
    rw [decide_eq_false (not_not_intro (hend.mpr hlast)), if_neg Bool.false_ne_true]
    omega
  · have hne : n ≠ zipEnd := fun h => hlast (hend.mp h)
    rw [if_neg hlast] at ht
    rw [decide_eq_true hne, if_pos rfl]
    omega

lemma rawlen_big (hc : c.big = false) : rawlen { c with big := true } = c.rawlen + 4 := by
  simp only [rawlen, hc, fieldSize, if_pos, Bool.false_eq_true, if_false]
  omega

lemma lastStart_big (hc : c.big = false) :
    lastStart ({ c with big := true } :: rest) =
      if lastStart (c :: rest) ≠ 0 then lastStart (c :: rest) + 4 else lastStart (c :: rest) := by
  cases rest with
  | nil => rfl
  | cons i rest =>
    have hpos := c.rawlen_pos
    rw [lastStart_cons, lastStart_cons, rawlen_big hc, if_pos (by omega)]
    omega

lemma growPrevlen_around (junk : Nat → UInt8) {n : Nat} (hc : c.big = false) (hn : 254 ≤ n)
    (small : ziplistHeaderSize + pre.length + total (c :: rest) + 1 < 2 ^ 32) :
    ziplistGrowPrevlen junk (around pre c k old rest num) (ziplistHeaderSize + pre.length)
        (ziplistHeaderSize + pre.length + total (c :: rest) + 1) n 1 =
      if ziplistHeaderSize + pre.length + total (c :: rest) + 1 + 4 < 2 ^ 32 then
        .ok (around pre { c with big := true } n old rest num)
      else .error .overflow := by
  have hsize : prevlenSize n = 5 := if_neg (by omega)
  have hbytes : prevlenBytes n = field true n := if_neg (by omega)
  have hlast := lastStart_lt c rest
  rw [ziplistGrowPrevlen, hsize]
  split
  · rename_i fits
    -- The block gets four bytes, and the bytes behind the field move by as much.
    have halen := length_entries pre c k old rest
    have haround := around_eq pre c k old rest num
    set a := pre ++ (field c.big k ++ (c.body ++ chain old rest)) with ha
    obtain ⟨x, hx, hresize⟩ := ziplistResize_block junk (ziplistHeaderSize + pre.length + total (c :: rest) + 1)
      (ziplistHeaderSize + pre.length + lastStart (c :: rest)) num a [zipEnd] (n := ziplistHeaderSize + a.length + 4)
      (by omega) (by omega)
    rw [← haround, show ziplistHeaderSize + a.length + 4 + 1 =
      ziplistHeaderSize + pre.length + total (c :: rest) + 1 + (5 - 1) by omega] at hresize
    set len := ziplistHeaderSize + pre.length + total (c :: rest) + 1 + (5 - 1) with hlen
    set tail := ziplistHeaderSize + pre.length + lastStart ({ c with big := true } :: rest) with htail
    have hshift : ziplistShiftTail (block len (ziplistHeaderSize + pre.length + lastStart (c :: rest)) num
        (a ++ (x ++ [zipEnd]))) (ziplistHeaderSize + pre.length + lastStart (c :: rest) ≠ ziplistHeaderSize + pre.length)
        ((5 - 1 : Nat) : Int) = .ok (block len tail num (a ++ (x ++ [zipEnd]))) := by
      apply ziplistShiftTail_block _ (by omega)
      rw [htail, lastStart_big hc]
      by_cases hlast : lastStart (c :: rest) = 0
      · rw [hlast, if_neg (not_not_intro rfl), Nat.add_zero, decide_eq_false (not_not_intro rfl), if_neg Bool.false_ne_true]
        omega
      · rw [if_pos hlast, decide_eq_true (by omega), if_pos rfl]
        omega
    have hfield : (field c.big k).length = 1 := by rw [length_field, hc]; rfl
    obtain ⟨g, hg, hmove⟩ := Memory.move_up (e := Fault.badAccess) (f := Fault.overflow) (a := block len tail num pre)
      (b := field c.big k) (c := c.body ++ chain old rest) (x := x) (z := [zipEnd]) rfl
    have hdata : block len tail num pre ++ (field c.big k ++ (c.body ++ chain old rest ++ (x ++ [zipEnd]))) =
        block len tail num (a ++ (x ++ [zipEnd])) := by
      rw [← block_append, ha]
      simp only [append_assoc]
    rw [hdata, length_block, hfield, length_append, length_chain] at hmove
    have hgap : g.length = (field true n).length := by
      rw [hg, hfield, length_field, fieldSize, if_pos rfl]
      omega
    have hcur : ziplistHeaderSize + pre.length + total (c :: rest) + 1 - (ziplistHeaderSize + pre.length) - 1 - 1 =
        c.body.length + total rest := by
      rw [total_cons, rawlen, hc, fieldSize, if_neg Bool.false_ne_true]
      omega
    rw [hresize, ok_bind, ziplistTailOffset_block (by omega), ok_bind, hshift, ok_bind, hcur,
      show ziplistHeaderSize + pre.length + 5 = ziplistHeaderSize + pre.length + (1 + x.length) by omega, hmove, ok_bind,
      zipStorePrevEntryLength, hbytes,
      Memory.store_eq rfl (length_block len tail num pre).symm hgap, around, framed, ← block_append]
    congr 2
    · rw [hlen, total_cons, total_cons, rawlen_big hc]
      omega
    · simp only [append_assoc]
  · rename_i full
    rw [ziplistResize_overflow junk _ (by omega) (by omega)]
    rfl

end Framed

lemma total_le_grow (n : Nat) (rest : List ZipItem) : total rest ≤ total (grow n rest) := by
  induction rest generalizing n with
  | nil => exact le_rfl
  | cons i rest ih =>
    rw [grow]
    split
    · rename_i h
      have hrest := ih (i.rawlen + 4)
      rw [total_cons, total_cons, rawlen_big h.2]
      omega
    · exact le_rfl

lemma cascade_reads {pre : Bytes} {c : ZipItem} {k : Nat} {rest} (hc : Fits c.big k) (old num : Nat)
    (small : ziplistHeaderSize + pre.length + total (c :: rest) + 1 < 2 ^ 32) :
    ∃ b e, byteAt (around pre c k old rest num) (ziplistHeaderSize + pre.length) = .ok b ∧ b ≠ zipEnd ∧
      zipEntry (around pre c k old rest num) (ziplistHeaderSize + pre.length) = .ok e ∧ e.prevrawlensize = fieldSize c.big ∧
      e.prevrawlen = k ∧ uint (e.headersize + e.len) = c.rawlen := by
  obtain ⟨b, hb, hne⟩ := byteAt_framed hc
  obtain ⟨e, he, hsize, hprev, hlen⟩ := zipEntry_framed hc
  rw [total_cons] at small
  exact ⟨b, e, hb, hne, he, hsize, hprev, by rw [hlen, uint, Nat.mod_eq_of_lt (by omega)]⟩

/-- The loop repairs the fields behind the entry, or writes past the end of the block. -/
lemma cascadeLoop_around (junk : Nat → Nat → UInt8) {pre : Bytes} {c : ZipItem} {k old num turns : Nat}
    {rest} (hturns : rest.length < turns) (hc : Fits c.big k) (hrest : Linked old rest)
    (small : ziplistHeaderSize + pre.length + total (c :: rest) + 1 < 2 ^ 32) :
    ziplistCascadeLoop junk turns (around pre c k old rest num) (ziplistHeaderSize + pre.length)
        (ziplistHeaderSize + pre.length + total (c :: rest) + 1) =
      if ziplistHeaderSize + pre.length + total (c :: grow c.rawlen rest) + 1 < 2 ^ 32 then
        .ok (around pre c k c.rawlen (grow c.rawlen rest) num)
      else .error .overflow := by
  induction rest generalizing pre c k old turns with
  | nil =>
    obtain _ | turns := turns
    · omega
    obtain ⟨b, e, hb, hne, he, -, -, hraw⟩ := cascade_reads hc old num small
    obtain ⟨n, hn, hend⟩ := byteAt_behind hrest
    rw [ziplistCascadeLoop, hb, ok_bind, if_neg hne, he, ok_bind, hraw]
    dsimp only
    rw [around, hn, ok_bind, if_pos (hend.mpr rfl), grow, if_pos small]
    rfl
  | cons i rest ih =>
    obtain _ | turns := turns
    · omega
    obtain ⟨b, e, hb, hne, he, -, -, hraw⟩ := cascade_reads hc old num small
    rw [ziplistCascadeLoop, hb, ok_bind, if_neg hne, he, ok_bind, hraw]
    dsimp only
    have hrlt : c.rawlen < 2 ^ 32 := by
      rw [total_cons] at small
      omega
    -- From here on the block is seen around the next entry.
    have hlen (l : List ZipItem) : ziplistHeaderSize + pre.length + total (c :: l) + 1 =
        ziplistHeaderSize + (pre ++ (field c.big k ++ c.body)).length + total l + 1 := by
      rw [total_cons, length_entry]
      omega
    rw [around_next, Nat.add_assoc, ← length_entry pre c k]
    set pre' := pre ++ (field c.big k ++ c.body)
    rw [hlen] at small ⊢
    obtain ⟨n, next, hn, hnend, hnext, hsize, hprev, -⟩ := cascade_reads hrest.1 i.rawlen num small
    rw [hn, ok_bind, if_neg hnend, hnext, ok_bind, hprev, hsize]
    by_cases hgrow : bigPrevlen c.rawlen ∧ i.big = false
    · -- The field is too short: it cannot have the length already, and the next turn looks at the entry behind.
      obtain ⟨hbig, hi⟩ := hgrow
      have hge : 254 ≤ c.rawlen := by rwa [bigPrevlen, decide_eq_true_eq] at hbig
      have hold := hrest.1.2 hi
      have hj := rawlen_big hi
      have hgrown : grow c.rawlen (i :: rest) =
          { i with big := true } :: grow (rawlen { i with big := true }) rest := by rw [grow, if_pos ⟨hbig, hi⟩]
      rw [if_neg (by omega), prevlenSize_eq, hbig, hi, if_pos (by decide), show fieldSize false = 1 from rfl,
        growPrevlen_around (junk turns) hi hge small, hgrown, hlen, around_next]
      set j : ZipItem := { i with big := true }
      have htotal : ziplistHeaderSize + pre'.length + total (i :: rest) + 1 + 4 =
          ziplistHeaderSize + pre'.length + total (j :: rest) + 1 := by
        rw [total_cons, total_cons]
        omega
      have hmono := total_le_grow j.rawlen rest
      rw [htotal]
      by_cases hfit : ziplistHeaderSize + pre'.length + total (j :: rest) + 1 < 2 ^ 32
      · have hloop : ziplistCascadeLoop junk turns (around pre' j c.rawlen i.rawlen rest num)
            (ziplistHeaderSize + pre'.length) (ziplistHeaderSize + pre'.length + total (j :: rest) + 1) = _ :=
          ih (by rw [length_cons] at hturns; omega) ⟨hrlt, fun h => by cases h⟩ hrest.2 hfit
        rw [if_pos hfit, ok_bind, show fieldSize true - 1 = 4 from rfl, htotal, hloop]
      · rw [if_neg hfit, if_neg (by rw [total_cons] at hfit ⊢; omega)]
        rfl
    · -- The field is long enough, so that no other entry changes.
      have hstay : grow c.rawlen (i :: rest) = i :: rest := by rw [grow, if_neg hgrow]
      rw [hstay, hlen, if_pos small, around_next]
      by_cases hsame : old = c.rawlen
      · rw [if_pos hsame, hsame]
      rw [if_neg hsame, prevlenSize_eq]
      by_cases hsize : i.big = bigPrevlen c.rawlen
      · rw [hsize, if_neg (lt_irrefl _), if_neg (lt_irrefl _), zipStorePrevEntryLength, prevlenBytes_eq]
        exact store_field (by rw [length_field, hsize]) hsize
      · cases hi : i.big with
        | true =>
          rw [hi, eq_comm, Bool.not_eq_true] at hsize
          rw [hsize]
          exact store_field (by rw [length_field, hi]) hi
        | false =>
          rw [hi, eq_comm, Bool.not_eq_false] at hsize
          exact absurd ⟨hsize, hi⟩ hgrow

lemma cascadeUpdate_around (junk : Nat → Nat → UInt8) {pre : Bytes} {c : ZipItem} {k old num : Nat} {rest}
    (hc : Fits c.big k) (hrest : Linked old rest)
    (small : ziplistHeaderSize + pre.length + total (c :: rest) + 1 < 2 ^ 32) :
    ziplistCascadeUpdate junk (around pre c k old rest num) (ziplistHeaderSize + pre.length) =
      if ziplistHeaderSize + pre.length + total (c :: grow c.rawlen rest) + 1 < 2 ^ 32 then
        .ok (around pre c k c.rawlen (grow c.rawlen rest) num)
      else .error .overflow := by
  have hturns : rest.length < (around pre c k old rest num).length := by
    have hle := length_le_total rest
    rw [around, framed, length_block]
    simp only [length_append, length_chain, length_singleton]
    omega
  have hbytes : ziplistBytes (around pre c k old rest num) = .ok _ := ziplistBytes_block small
  rw [ziplistCascadeUpdate, hbytes, ok_bind, cascadeLoop_around junk hturns hc hrest small]

lemma linked_grow {n old : Nat} {rest} (h : Linked old rest) (hn : n < 2 ^ 32)
    (small : total (grow n rest) < 2 ^ 32) : Linked n (grow n rest) := by
  induction rest generalizing n old with
  | nil => trivial
  | cons i rest ih =>
    rw [grow] at small ⊢
    split at small
    · rename_i hgrow
      rw [if_pos hgrow]
      rw [total_cons] at small
      exact ⟨⟨hn, fun h => by cases h⟩, ih h.2 (by omega) (by omega)⟩
    rename_i hstay
    rw [if_neg hstay]
    refine ⟨⟨hn, fun hi => ?_⟩, h.2⟩
    have hbig : ¬bigPrevlen n = true := fun hb => hstay ⟨hb, hi⟩
    rw [bigPrevlen, decide_eq_true_eq] at hbig
    omega

@[simp] lemma length_grow (n : Nat) (rest : List ZipItem) : (grow n rest).length = rest.length := by
  induction rest generalizing n with
  | nil => rfl
  | cons i rest ih =>
    rw [grow]
    split
    · rw [length_cons, length_cons, ih]
    · rfl

@[simp] lemma values_grow (n : Nat) (rest : List ZipItem) : (grow n rest).map value = rest.map value := by
  induction rest generalizing n with
  | nil => rfl
  | cons i rest ih =>
    rw [grow]
    split
    · rw [map_cons, map_cons, ih]
    · rfl

end JitRedis.RawZiplist
