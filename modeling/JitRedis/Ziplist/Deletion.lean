import JitRedis.Ziplist.Insertion

/-!
# Deleting from a ziplist

`__ziplistDelete` writes the length of the entry before the gap into the entry behind it. The field of that entry may change
its size, and then the entries behind it may have to grow. Nothing bounds this growth: a ziplist that is short enough before a
deletion can reach `2 ^ 32` bytes by it.
-/

namespace JitRedis.RawZiplist

open Fallible List ZipItem

/-- How many entries behind one of a raw length get a longer field. -/
def growing : Nat → List ZipItem → Nat
  | _, [] => 0
  | n, i :: rest => if bigPrevlen n ∧ i.big = false then growing (i.rawlen + 4) rest + 1 else 0

def removed (items : List ZipItem) (k num : Nat) : List ZipItem :=
  items.take k ++ refit (bigPrevlen (lastRaw 0 (items.take k))) (items.drop (k + num))

/-- The size of the ziplist without the deleted entries, and with all fields that have to grow. -/
def sizeWithout (items : List ZipItem) (k num : Nat) : Nat :=
  ziplistHeaderSize + total (items.take k) + total (items.drop (k + num)) + 1 +
    4 * growing (lastRaw 0 (items.take k)) (items.drop (k + num))

lemma total_grow (n : Nat) (rest : List ZipItem) : total (grow n rest) = total rest + 4 * growing n rest := by
  induction rest generalizing n with
  | nil => rfl
  | cons i rest ih =>
    rw [grow, growing]
    split
    · rename_i hgrow
      have hraw := rawlen_big hgrow.2
      have hrest := ih (i.rawlen + 4)
      rw [← hraw] at hrest
      rw [total_cons, total_cons, hrest, hraw]
      omega
    · rfl

section Skip

variable {zl : Bytes} {l r : List ZipItem}

lemma Lays.skip (h : Lays zl (l ++ r)) (num deleted : Nat) :
    ziplistSkip zl num (ziplistHeaderSize + total l) deleted =
      .ok (ziplistHeaderSize + total (l ++ r.take num), deleted + (r.take num).length) := by
  induction num generalizing l r deleted with
  | zero => rw [take_zero, append_nil]; rfl
  | succ num ih =>
    rw [ziplistSkip]
    cases r with
    | nil =>
      have hend := h.byteAt_end
      rw [append_nil] at hend
      rw [hend, take_nil, append_nil]
      rfl
    | cons i r =>
      obtain ⟨b, hb, hne⟩ := h.entryByte
      have hnext := h.rawEntryLength
      rw [append_cons] at h
      have hrest := ih h (deleted + 1)
      rw [total_append, total_cons, total_nil, Nat.add_zero, ← Nat.add_assoc, append_assoc] at hrest
      rw [hb, ok_bind, if_neg hne, hnext, ok_bind, hrest, take_succ_cons, length_cons]
      congr 2
      omega

end Skip

section Gap

variable {l d r : List ZipItem} {i : ZipItem} {num : Nat}

/-- If the entry before the gap needs a long field, then the first entry of the gap has one. -/
lemma room_in_gap {n} (hd : Linked n d) (hne : d ≠ []) (big : Bool) : diff (bigPrevlen n) big ≤ total d := by
  cases d with
  | nil => exact absurd rfl hne
  | cons j d =>
    rw [total_cons]
    cases hn : bigPrevlen n with
    | false =>
      have hle : diff false big ≤ 0 := by cases big <;> decide
      omega
    | true =>
      have hj : j.big = true := by
        cases hj : j.big with
        | true => rfl
        | false =>
          have hlt := hd.1.2 hj
          rw [bigPrevlen, decide_eq_true_eq] at hn
          omega
      have hraw : 5 ≤ j.rawlen := by
        rw [rawlen, hj, fieldSize, if_pos rfl]
        omega
      have hle : diff true big ≤ 4 := by cases big <;> decide
      omega

lemma gap_moved (len tail num : Nat) (a u : Bytes) {k} (old n : Nat) (hn : n = i.rawlen + total r) :
    ∃ z, Memory.move Fault.badAccess Fault.overflow (framed len tail num (a ++ u) i k old r) (ziplistHeaderSize + a.length)
        (ziplistHeaderSize + (a ++ u).length) n =
      .ok (block len tail num ((a ++ (field i.big k ++ (i.body ++ chain old r))) ++ z)) := by
  set c := field i.big k ++ (i.body ++ chain old r) with hc
  have hclen : c.length = n := by
    rw [hn, rawlen, length_append, length_append, length_field, length_chain, Nat.add_assoc]
  have hframed : framed len tail num (a ++ u) i k old r = block len tail num (a ++ u) ++ (c ++ [zipEnd]) := by
    rw [framed_eq, hc]
    simp only [append_assoc]
  refine ⟨(u ++ (c ++ [zipEnd])).drop n, ?_⟩
  rw [append_assoc a, block_append _ _ _ a]
  apply Memory.move_eq (y := (u ++ (c ++ [zipEnd])).take n) hframed
  · rw [take_append_drop, hframed, block_append, append_assoc]
  · rw [length_block]
  · rw [length_block]
  · exact hclen.symm
  · rw [length_take, length_append, length_append]
    omega

lemma closeGap_before (len tail num : Nat) (a g : Bytes) {k old} (hk : k < 2 ^ 32) (hold : Fits i.big old)
    (hr : Linked i.rawlen r) (hroom : diff (bigPrevlen k) i.big ≤ g.length)
    (hlen : len = ziplistHeaderSize + a.length + g.length + total (i :: r) + 1) (small : len < 2 ^ 32)
    (htail : tail = ziplistHeaderSize + a.length + g.length + lastStart (i :: r)) :
    ∃ z, ziplistCloseGap (block len tail num (a ++ (g ++ (field i.big old ++ (i.body ++ (chain i.rawlen r ++ [zipEnd]))))))
        (ziplistHeaderSize + a.length) (ziplistHeaderSize + a.length + g.length) k g.length =
      .ok (block len (ziplistHeaderSize + a.length + lastStart ({ i with big := bigPrevlen k } :: r)) num
        ((a ++ (field (bigPrevlen k) k ++ (i.body ++ chain i.rawlen r))) ++ z), diff (bigPrevlen k) i.big) := by
  set j : ZipItem := { i with big := bigPrevlen k } with hj
  set f := field i.big old ++ (i.body ++ (chain i.rawlen r ++ [zipEnd])) with hf
  have hfits : Fits j.big k := fits_bigPrevlen hk
  have hraw := rawlen_diff (bigPrevlen k) i
  have hlast := lastStart_diff (bigPrevlen k) i r
  have hlt := lastStart_lt i r
  have hlt' := lastStart_lt j r
  rw [← hj] at hraw hlast
  rw [total_cons] at hlt hlt' hlen
  have hm : block len tail num (a ++ (g ++ f)) = block len tail num (a ++ g) ++ f := by
    rw [← block_append, append_assoc]
  have hq : ziplistHeaderSize + a.length + g.length = (block len tail num (a ++ g)).length := by
    rw [length_block, length_append, Nat.add_assoc]
  obtain ⟨b, hb, hne, -⟩ := byteAt_field hm hq hold
  -- The new field ends where the old one does.
  obtain ⟨m, hmlen⟩ : ∃ m : Nat, (m : Int) = g.length - diff (bigPrevlen k) i.big :=
    ⟨(g.length - diff (bigPrevlen k) i.big).toNat, by omega⟩
  obtain ⟨u, v, huv, hu, hv⟩ : ∃ u v, g ++ field i.big old = u ++ v ∧ u.length = m ∧ v.length = fieldSize (bigPrevlen k) := by
    have hsum : (g ++ field i.big old).length = m + fieldSize (bigPrevlen k) := by
      rw [length_append, length_field]
      rw [diff] at hmlen
      omega
    refine ⟨_, _, (take_append_drop m _).symm, ?_, ?_⟩
    · rw [length_take]
      omega
    · rw [length_drop]
      omega
  have hdata : a ++ (g ++ f) = (a ++ u) ++ (v ++ (i.body ++ (chain i.rawlen r ++ [zipEnd]))) := by
    rw [hf, ← append_assoc g, huv]
    simp only [append_assoc]
  have hpos : (((ziplistHeaderSize + a.length + g.length : Nat) : Int) - diff (bigPrevlen k) i.big).toNat =
      ziplistHeaderSize + (a ++ u).length := by
    rw [length_append, hu]
    omega
  have hstore : zipStorePrevEntryLength (block len tail num (a ++ (g ++ f))) (ziplistHeaderSize + (a ++ u).length) k =
      .ok (framed len tail num (a ++ u) j k i.rawlen r) := by
    rw [zipStorePrevEntryLength, prevlenBytes_eq, hdata]
    exact store_field (c := j) hv rfl
  have hshift : ziplistUpdateTail (framed len tail num (a ++ u) j k i.rawlen r) (ziplistHeaderSize + (a ++ u).length)
      (-(g.length : Int)) (diff (bigPrevlen k) i.big) =
        .ok (framed len (ziplistHeaderSize + a.length + lastStart (j :: r)) num (a ++ u) j k i.rawlen r) :=
    updateTail_framed hfits hr (by omega) (by omega) (by omega)
  have hbytes : ziplistBytes (framed len (ziplistHeaderSize + a.length + lastStart (j :: r)) num (a ++ u) j k i.rawlen r) =
      .ok len := ziplistBytes_block small
  obtain ⟨z, hmove⟩ := gap_moved len (ziplistHeaderSize + a.length + lastStart (j :: r)) num a u (i := j) (k := k) (r := r)
    i.rawlen (len - (ziplistHeaderSize + (a ++ u).length) - 1) (by rw [length_append]; omega)
  refine ⟨z, ?_⟩
  rw [ziplistCloseGap, hb, ok_bind, if_pos hne, zipPrevLenByteDiff_eq hm hq hold, ok_bind, ← diff]
  dsimp only
  rw [hpos, hstore, ok_bind, hshift, ok_bind, hbytes, ok_bind, hmove, ok_bind]

end Gap

section Delete

variable {zl : Bytes} {items l d r : List ZipItem} {i : ZipItem}

/-- What follows when the gap was closed: the ziplist gets its new size and count. -/
lemma Lays.delete_gap (h : Lays zl (l ++ (d ++ r))) (hd : d ≠ []) (junk : Nat → Nat → UInt8) {num n tail c z nextdiff}
    (htake : (d ++ r).take num = d) (hn : CountField n (l ++ (d ++ r)).length)
    (hgap : ziplistCloseGap zl (ziplistHeaderSize + total l) (ziplistHeaderSize + total l + total d) (lastRaw 0 l) (total d) =
      .ok (block (ziplistHeaderSize + total (l ++ (d ++ r)) + 1) tail n (c ++ z), nextdiff))
    (hc : (c.length : Int) = total l + total r + nextdiff) (hroom : nextdiff ≤ total d) :
    ∃ n', CountField n' (l ++ r).length ∧ ziplistDeleteEntries junk zl (ziplistHeaderSize + total l) num =
      ziplistCascadeIf (fun i => junk (i + 1)) (block (ziplistHeaderSize + c.length + 1) tail n' (c ++ [zipEnd]))
        (ziplistHeaderSize + total l) nextdiff := by
  obtain ⟨first, hfirst, hprev⟩ : ∃ e, zipEntry zl (ziplistHeaderSize + total l) = .ok e ∧ e.prevrawlen = lastRaw 0 l := by
    cases d with
    | nil => exact absurd rfl hd
    | cons x d => exact h.prevrawlen
  have hskip := h.skip num 0
  rw [htake, total_append, ← Nat.add_assoc, Nat.zero_add] at hskip
  have small := h.total_lt
  have hdpos : 0 < total d := Nat.lt_of_lt_of_le (length_pos_iff.mpr hd) (length_le_total d)
  rw [total_append, total_append] at small hgap
  obtain ⟨x, hx, hresize⟩ := ziplistResize_block (junk 0) (ziplistHeaderSize + (total l + (total d + total r)) + 1) tail n c z
    (n := ziplistHeaderSize + c.length) (by omega) (by omega)
  rw [length_eq_zero_iff.mp (show x.length = 0 by omega), nil_append] at hresize
  have hcount : (((l ++ r).length : Nat) : Int) = ((l ++ (d ++ r)).length : Nat) + -(d.length : Int) := by
    simp only [length_append]
    omega
  obtain ⟨n', hn', hincr⟩ := ziplistIncrLength_block (ziplistHeaderSize + c.length + 1) tail (c ++ [zipEnd]) hn hcount
    (by simp only [length_append]; omega)
  have hgone : ziplistHeaderSize + total l + total d - (ziplistHeaderSize + total l) = total d := Nat.add_sub_cancel_left ..
  have htarget : (((ziplistHeaderSize + (total l + (total d + total r)) + 1 : Nat) : Int) - total d + nextdiff).toNat =
      ziplistHeaderSize + c.length + 1 := by omega
  refine ⟨n', hn', ?_⟩
  rw [ziplistDeleteEntries, hfirst, ok_bind, hskip, ok_bind]
  dsimp only
  rw [hgone, show uint (total d) = total d from Nat.mod_eq_of_lt (by omega), if_pos hdpos, hprev, hgap, ok_bind]
  rw [ziplistBytes_block (by omega), ok_bind, htarget, hresize, ok_bind, hincr, ok_bind]

lemma Lays.delete_before (h : Lays zl (l ++ (d ++ i :: r))) (hd : d ≠ []) (junk : Nat → Nat → UInt8) :
    ∃ num, CountField num (l ++ i :: r).length ∧ ziplistDeleteEntries junk zl (ziplistHeaderSize + total l) d.length =
      if ziplistHeaderSize + total (l ++ refit (bigPrevlen (lastRaw 0 l)) (i :: r)) + 1 < 2 ^ 32 then
        .ok (RawZiplist.around (chain 0 l) { i with big := bigPrevlen (lastRaw 0 l) } (lastRaw 0 l)
          (rawlen { i with big := bigPrevlen (lastRaw 0 l) })
          (grow (rawlen { i with big := bigPrevlen (lastRaw 0 l) }) r) num)
      else .error .overflow := by
  obtain ⟨num, hnum, hzl⟩ := h.bytes
  obtain ⟨hl, hdr⟩ := linked_append.mp h.linked
  obtain ⟨hlinkd, hold, hr⟩ := linked_append.mp hdr
  have small := h.total_lt
  have hle := lastRaw_le 0 l
  rw [h.length, chain_append, chain_append, chain, ← append_assoc l, lastStart_append] at hzl
  simp only [append_assoc] at hzl
  set prev := lastRaw 0 l with hprevdef
  set j : ZipItem := { i with big := bigPrevlen prev } with hj
  have hroom := room_in_gap hlinkd hd i.big
  have ha := length_chain 0 l
  have hg := length_chain prev d
  have hraw := rawlen_diff (bigPrevlen prev) i
  rw [← hj] at hraw
  rw [total_append, total_append, total_cons] at small
  obtain ⟨z, hgap⟩ := closeGap_before (ziplistHeaderSize + total (l ++ (d ++ i :: r)) + 1)
    (ziplistHeaderSize + (total (l ++ d) + lastStart (i :: r))) num (chain 0 l) (chain prev d) (i := i) (r := r) (k := prev)
    (by omega) hold hr (by rw [hg]; exact hroom)
    (by rw [total_append, total_append]; omega) (by rw [total_append, total_append, total_cons]; omega)
    (by rw [total_append]; omega)
  rw [← hzl, ha, hg] at hgap
  set c := chain 0 l ++ (field (bigPrevlen prev) prev ++ (i.body ++ chain i.rawlen r)) with hc
  have hclen : c.length = total l + total (j :: r) := ha ▸ length_entries (chain 0 l) j prev i.rawlen r
  obtain ⟨num', hnum', hdelete⟩ := h.delete_gap hd junk (take_left ..) hnum hgap
    (by rw [hclen, total_cons, total_cons]; omega) hroom
  refine ⟨num', hnum', ?_⟩
  have haround : block (ziplistHeaderSize + c.length + 1) (ziplistHeaderSize + total l + lastStart (j :: r)) num' (c ++ [zipEnd]) =
      RawZiplist.around (chain 0 l) j prev i.rawlen r num' := by
    rw [around_eq, ha, hclen, ← Nat.add_assoc]
  have hcascade := cascadeIf_around (fun i => junk (i + 1)) (chain 0 l) num' (i := i)
    (fits_bigPrevlen (n := prev) (by omega)) hr (by rw [total_cons, ← hj]; omega)
  rw [ha] at hcascade
  rw [hdelete, haround, hcascade, total_append, ← Nat.add_assoc]
  rfl

lemma Lays.delete_last (h : Lays zl (l ++ d)) (hd : d ≠ []) (junk : Nat → Nat → UInt8) {num} (hnum : d.length ≤ num) :
    ∃ zl', ziplistDeleteEntries junk zl (ziplistHeaderSize + total l) num = .ok zl' ∧ Lays zl' l := by
  obtain ⟨n, hn, hzl⟩ := h.bytes
  have small := h.total_lt
  have hlast := lastStart_add l
  have hend := h.byteAt_end
  rw [h.length, chain_append, append_assoc] at hzl
  rw [total_append] at small hend
  have hgap : ziplistCloseGap zl (ziplistHeaderSize + total l) (ziplistHeaderSize + total l + total d) (lastRaw 0 l) (total d) =
      .ok (block (ziplistHeaderSize + total (l ++ d) + 1) (ziplistHeaderSize + lastStart l) n
        (chain 0 l ++ (chain (lastRaw 0 l) d ++ [zipEnd])), 0) := by
    have htail : uint (ziplistHeaderSize + total l - lastRaw 0 l) = ziplistHeaderSize + lastStart l := by
      rw [uint]
      omega
    rw [ziplistCloseGap, Nat.add_assoc, hend, ok_bind, if_neg (not_not_intro rfl), hzl, ziplistSetTailOffset_block, ok_bind,
      htail]
  rw [← append_nil d] at h hgap hn
  obtain ⟨n', hn', hdelete⟩ := h.delete_gap (r := []) hd junk (by rw [append_nil, take_of_length_le hnum]) hn
    (by rwa [append_nil] at hgap ⊢) (by rw [length_chain, total_nil]; omega) (Int.natCast_nonneg _)
  rw [append_nil] at hn'
  refine ⟨_, hdelete, ?_⟩
  rw [length_chain]
  exact lays_block hn' (linked_append.mp h.linked).1 (by omega)

end Delete

lemma growing_of_linked {n m} {r} (h : Linked m r) (hle : n ≤ m) : growing n r = 0 := by
  cases r with
  | nil => rfl
  | cons i r =>
    rw [growing, if_neg]
    rintro ⟨hbig, hsmall⟩
    have hlt := h.1.2 hsmall
    rw [bigPrevlen, decide_eq_true_eq] at hbig
    omega

lemma total_refit {n old} {r} (h : Linked old r) :
    total (refit (bigPrevlen n) r) = total r + 4 * growing n r ∨
      (total (refit (bigPrevlen n) r) ≤ total r ∧ growing n r = 0) := by
  cases r with
  | nil => exact .inl rfl
  | cons i r =>
    have hraw := rawlen_diff (bigPrevlen n) i
    rw [refit, total_cons, total_cons, total_grow, growing]
    set j : ZipItem := { i with big := bigPrevlen n }
    cases hn : bigPrevlen n with
    | true =>
      rw [hn] at hraw
      cases hi : i.big with
      | true =>
        rw [hi, show diff true true = 0 from rfl] at hraw
        rw [if_neg (by simp), growing_of_linked h.2 (by omega)]
        omega
      | false =>
        rw [hi, show diff true false = 4 from rfl] at hraw
        rw [if_pos ⟨rfl, rfl⟩, show j.rawlen = i.rawlen + 4 by omega]
        omega
    | false =>
      have hle : diff false i.big ≤ 0 := by cases i.big <;> decide
      rw [hn] at hraw
      rw [if_neg (by simp), growing_of_linked h.2 (by omega)]
      omega


lemma values_removed (items : List ZipItem) (k num : Nat) :
    (removed items k num).map value = (items.map value).take k ++ (items.map value).drop (k + num) := by
  rw [removed, map_append, values_refit, map_take, map_drop]

lemma Lays.delete {zl} {items} {k num} (h : Lays zl items) (hk : k < items.length)
    (hnum : 0 < num) (junk : Nat → Nat → UInt8) :
    (sizeWithout items k num < 2 ^ 32 →
      ∃ zl', ziplistDeleteEntries junk zl (offset items k) num = .ok zl' ∧ Lays zl' (removed items k num)) ∧
    (2 ^ 32 ≤ sizeWithout items k num → ziplistDeleteEntries junk zl (offset items k) num = .error .overflow) := by
  obtain ⟨l, hl⟩ : ∃ l, l = items.take k := ⟨_, rfl⟩
  obtain ⟨d, hd⟩ : ∃ d, d = (items.drop k).take num := ⟨_, rfl⟩
  have hne : d ≠ [] := by
    apply ne_nil_of_length_pos
    rw [hd, length_take, length_drop]
    omega
  have hsplit : items = l ++ (d ++ items.drop (k + num)) := by
    rw [hl, hd, ← drop_drop, take_append_drop, take_append_drop]
  rw [removed, sizeWithout, offset, ← hl]
  cases hr : items.drop (k + num) with
  | nil =>
    rw [hr, append_nil] at hsplit
    rw [hsplit] at h
    have small := h.total_lt
    rw [total_append] at small
    have hdlen : d.length ≤ num := by rw [hd]; exact length_take_le _ _
    refine ⟨fun _ => ?_, fun hlarge => ?_⟩
    · rw [refit, append_nil]
      exact h.delete_last hne junk hdlen
    · rw [growing, total_nil] at hlarge
      omega
  | cons i r =>
    rw [hr] at hsplit
    rw [hsplit] at h
    have hdlen : d.length = num := by
      have hlen := congrArg List.length hr
      rw [length_drop, length_cons] at hlen
      rw [hd, length_take, length_drop]
      omega
    obtain ⟨n, hn, hdelete⟩ := h.delete_before hne junk
    rw [hdlen] at hdelete
    rw [hdelete]
    obtain ⟨hlinkl, hlinkdr⟩ := linked_append.mp h.linked
    have hlinkr := (linked_append.mp hlinkdr).2
    have small := h.total_lt
    rw [total_append, total_append] at small
    have hrefit : ziplistHeaderSize + total (l ++ refit (bigPrevlen (lastRaw 0 l)) (i :: r)) + 1 < 2 ^ 32 ↔
        ziplistHeaderSize + total l + total (i :: r) + 1 + 4 * growing (lastRaw 0 l) (i :: r) < 2 ^ 32 := by
      rw [total_append]
      obtain hsame | ⟨hshrink, hzero⟩ := total_refit (n := lastRaw 0 l) hlinkr
      · omega
      · omega
    refine ⟨fun hfit => ?_, fun hlarge => ?_⟩
    · have hsize := hrefit.mpr hfit
      have hle := lastRaw_le 0 l
      rw [if_pos hsize]
      refine ⟨_, rfl, ?_⟩
      rw [refit, total_append, total_cons] at hsize
      apply lays_around
      · rwa [length_append, length_cons, length_grow, ← length_cons, ← length_append]
      · exact linked_append.mpr ⟨hlinkl, fits_bigPrevlen (by omega), linked_grow hlinkr.2 (by omega) (by omega)⟩
      · rw [total_append]
        exact hsize
    · rw [if_neg (fun hsize => absurd (hrefit.mp hsize) (by omega))]

/-- A ziplist with the entries of another one but for some, each of which is read back. -/
def Without (items : List ZipItem) (k num : Nat) (zl : Bytes) : Prop :=
  ∃ items', Lays zl items' ∧
    items'.map ZipItem.value = (items.map ZipItem.value).take k ++ (items.map ZipItem.value).drop (k + num) ∧
    ∀ j ≤ items'.length, textAt zl (offset items' j) = .ok (texts items')[j]?

/-- `ziplistDeleteRange` deletes the entries from an index on, and nothing if there is no entry of that index. -/
def RangeDeleted (junk : Nat → Nat → UInt8) (zl : Bytes) (items : List ZipItem) (index : Int) (num : Nat) : Prop :=
  match position items.length index with
  | none => ziplistDeleteRange junk zl index num = .ok zl
  | some k => ∃ zl', ziplistDeleteRange junk zl index num = .ok zl' ∧ Without items k num zl'

lemma position_lt {n k index} (h : position n index = some k) : k < n := by
  rw [position] at h
  split_ifs at h <;> cases h <;> omega

lemma Lays.delete_iff {zl} {items} {k} (h : Lays zl items) (hk : k < items.length) (num : Nat)
    (junk : Nat → Nat → UInt8) :
    (∃ zl', ziplistDeleteEntries junk zl (offset items k) num = .ok zl' ∧ Without items k num zl') ↔
      sizeWithout items k num < 2 ^ 32 := by
  cases num with
  | zero =>
    have hlink := h.linked
    rw [← take_append_drop k items] at hlink
    have hzero := growing_of_linked (linked_append.mp hlink).2 le_rfl
    have small := h.total_lt
    rw [← take_append_drop k items, total_append] at small
    rw [sizeWithout, Nat.add_zero k]
    refine ⟨fun _ => by omega, fun _ => ⟨zl, ?_, items, h, ?_, fun j => h.textAt_offset⟩⟩
    · rw [Memory.split_at hk] at h
      obtain ⟨first, hfirst, -⟩ := h.prevrawlen
      rw [ziplistDeleteEntries, offset, hfirst, ok_bind, ziplistSkip, ok_bind]
      dsimp only
      rw [Nat.sub_self]
      rfl
    · rw [Nat.add_zero, take_append_drop]
  | succ num =>
    obtain ⟨hfits, hlarge⟩ := h.delete hk num.succ_pos junk
    refine ⟨?_, fun hsize => ?_⟩
    · rintro ⟨zl', hok, -⟩
      by_contra hnot
      have hfault := hlarge (Nat.le_of_not_lt hnot)
      rw [hok] at hfault
      cases hfault
    · obtain ⟨zl', hok, lays⟩ := hfits hsize
      exact ⟨zl', hok, _, lays, values_removed items k (num + 1), fun j => lays.textAt_offset⟩

lemma Lays.room {zl} {items} (h : Lays zl items) {k num} (hnum : 0 < num)
    (hlt : k + num < items.length) :
    ∃ nextdiff, zipPrevLenByteDiff zl (offset items (k + num)) (lastRaw 0 (items.take k)) = .ok nextdiff ∧
      offset items k + nextdiff ≤ offset items (k + num) := by
  have htake : items.take (k + num) = items.take k ++ (items.drop k).take num := take_add
  have hlink : Linked 0 (items.take k ++ items.drop k) := by
    rw [take_append_drop]
    exact h.linked
  have hlinkd := (linked_append.mp hlink).2
  rw [← take_append_drop num (items.drop k)] at hlinkd
  have hne : (items.drop k).take num ≠ [] := by
    apply ne_nil_of_length_pos
    rw [length_take, length_drop]
    omega
  have hroom := room_in_gap (linked_append.mp hlinkd).1 hne items[k + num].big
  rw [Memory.split_at hlt] at h
  obtain ⟨a, c, hzl, hp, hfits, -⟩ := h.split
  refine ⟨_, zipPrevLenByteDiff_eq hzl hp hfits, ?_⟩
  rw [← diff, offset, offset, htake, total_append]
  omega

/-- `ziplistDeleteRange` deletes the entries of any range, unless the fields behind it grow so much that the ziplist reaches
`2 ^ 32` bytes; likewise `ziplistDelete` for one entry. The next length can always be written into the gap. -/
theorem ziplistDeleteRange_deletes_iff {zl : Bytes} {items : List ZipItem} (h : Lays zl items) (junk : Nat → Nat → UInt8)
    (index : Int) (num : Nat) :
    (RangeDeleted junk zl items index num ↔
      ∀ k, position items.length index = some k → sizeWithout items k num < 2 ^ 32) ∧
    (∀ k < items.length, (∃ zl', ziplistDelete junk zl (offset items k) = .ok (zl', offset items k) ∧ Without items k 1 zl') ↔
      sizeWithout items k 1 < 2 ^ 32) ∧
    (∀ k n, 0 < n → k + n < items.length →
      ∃ nextdiff, zipPrevLenByteDiff zl (offset items (k + n)) (lastRaw 0 (items.take k)) = .ok nextdiff ∧
        offset items k + nextdiff ≤ offset items (k + n)) := by
  refine ⟨?_, fun k hk => ?_, fun k n => h.room⟩
  · rw [RangeDeleted, ziplistDeleteRange, h.index_eq]
    cases hpos : position items.length index with
    | none => exact ⟨fun _ => nofun, fun _ => rfl⟩
    | some k =>
      have hiff := h.delete_iff (position_lt hpos) num junk
      refine hiff.trans ⟨fun hsize k' hk' => ?_, fun hsize => hsize k rfl⟩
      cases hk'
      exact hsize
  · rw [← h.delete_iff hk 1 junk, ziplistDelete]
    cases ziplistDeleteEntries junk zl (offset items k) 1 with
    | error e => exact ⟨fun ⟨_, hok, _⟩ => (nomatch hok), fun ⟨_, hok, _⟩ => (nomatch hok)⟩
    | ok zl₁ =>
      refine exists_congr fun zl' => and_congr_left fun _ => ⟨fun hok => ?_, fun hok => ?_⟩
      · cases hok
        rfl
      · cases hok
        rfl

/-- The last one of two entries is deleted. -/
theorem ziplistDeleteRange_deletes_iff_tail :
    RangeDeleted (fun _ _ => 0) (block 18 13 2 (chain 0 [.ofString 0 ⟨[97], by decide⟩, .ofString 3 ⟨[98, 99], by decide⟩] ++
      [zipEnd])) [.ofString 0 ⟨[97], by decide⟩, .ofString 3 ⟨[98, 99], by decide⟩] (-1) 1 := by
  have lays : Lays (block 18 13 2 (chain 0 [.ofString 0 ⟨[97], by decide⟩, .ofString 3 ⟨[98, 99], by decide⟩] ++ [zipEnd]))
      [.ofString 0 ⟨[97], by decide⟩, .ofString 3 ⟨[98, 99], by decide⟩] :=
    ⟨⟨2, .inl (by decide), by decide⟩, ⟨⟨by decide, fun _ => by decide⟩, ⟨by decide, fun _ => by decide⟩, trivial⟩, by decide⟩
  refine (ziplistDeleteRange_deletes_iff lays (fun _ _ => 0) (-1) 1).1.mpr fun k hk => ?_
  cases hk
  decide

section Overflow

/-- A string of some length with a header of two bytes and a short field. -/
def letters (n : Nat) (b c : UInt8) (hb : zipEntryEncoding b = 0x40) (hn : n = ((b &&& 0x3F).toNat <<< 8) ||| c.toNat) :
    ZipItem where
  big := false
  body := b :: c :: List.replicate n 97
  value := .str (List.replicate n 97)
  encodes := .str14 hb (by rw [length_replicate, hn])

lemma rawlen_letters {n b c} (hb : zipEntryEncoding b = 0x40)
    (hn : n = ((b &&& 0x3F).toNat <<< 8) ||| c.toNat) : (letters n b c hb hn).rawlen = n + 3 := by
  rw [rawlen, letters, fieldSize, if_neg Bool.false_ne_true, length_cons, length_cons, length_replicate]
  omega

/-- An entry of 253 bytes: four more bytes, and the next entry needs a long field. -/
def filler : ZipItem := letters 250 0x40 0xFA (by decide) (by decide)

def longItem : ZipItem := letters 300 0x41 0x2C (by decide) (by decide)

def fillers (n : Nat) : List ZipItem := List.replicate n filler

def crowded (n : Nat) : List ZipItem := longItem :: ⟨true, [0xF1], .int 0, .imm (by decide)⟩ :: fillers n

lemma rawlen_filler : filler.rawlen = 253 := rawlen_letters (by decide) (by decide)

lemma rawlen_longItem : longItem.rawlen = 303 := rawlen_letters (by decide) (by decide)

lemma total_fillers (n : Nat) : total (fillers n) = n * 253 := by
  rw [fillers, total, map_replicate, sum_replicate, rawlen_filler, smul_eq_mul]

lemma linked_fillers {m} (n : Nat) (hm : m < 254) : Linked m (fillers n) := by
  induction n generalizing m with
  | zero => trivial
  | succ n ih => exact ⟨⟨by omega, fun _ => hm⟩, ih (by rw [rawlen_filler]; omega)⟩

lemma growing_fillers {m} (n : Nat) (hm : 254 ≤ m) : growing m (fillers n) = n := by
  induction n generalizing m with
  | zero => rfl
  | succ n ih =>
    rw [fillers, replicate_succ, ← fillers, growing, if_pos ⟨decide_eq_true hm, rfl⟩, ih (by rw [rawlen_filler]; omega)]

lemma linked_crowded (n : Nat) : Linked 0 (crowded n) :=
  ⟨⟨by omega, fun _ => by omega⟩, ⟨by rw [rawlen_longItem]; omega, nofun⟩, linked_fillers n (by decide)⟩

lemma total_crowded (n : Nat) : total (crowded n) = 309 + n * 253 := by
  rw [crowded, total_cons, total_cons, total_fillers, rawlen_longItem, ← Nat.add_assoc]
  rfl

lemma sizeWithout_crowded (n : Nat) : sizeWithout (crowded n) 1 1 = 314 + n * 257 := by
  have hrest : (crowded n).drop (1 + 1) = fillers n := rfl
  have htake : (crowded n).take 1 = [longItem] := rfl
  rw [sizeWithout, hrest, htake, total_fillers, lastRaw, lastRaw, rawlen_longItem, growing_fillers n (by omega), total_cons,
    rawlen_longItem, total_nil, ziplistHeaderSize]
  omega

lemma crowded_overflows (junk : Nat → Nat → UInt8) {n} (hn : 320 + n * 253 < 2 ^ 32) (hlarge : 2 ^ 32 ≤ 314 + n * 257) :
    ∃ zl, Lays zl (crowded n) ∧ ziplistDeleteRange junk zl 1 1 = .error .overflow := by
  have lays := lays_block (.inr rfl : CountField 65535 (crowded n).length) (linked_crowded n)
    (by rw [total_crowded, ziplistHeaderSize]; omega)
  refine ⟨_, lays, ?_⟩
  have hlen : 1 < (crowded n).length := Nat.succ_lt_succ (Nat.succ_pos _)
  have hpos : position (crowded n).length 1 = some 1 := by
    rw [position, if_pos (by omega), if_pos (by omega)]
    rfl
  rw [ziplistDeleteRange, lays.index_eq, ok_bind, hpos]
  exact (lays.delete hlen Nat.one_pos junk).2 (by rw [sizeWithout_crowded]; exact hlarge)

attribute [local irreducible] crowded

/-- Deleting one entry overflows a ziplist of 4275700320 bytes. -/
theorem ziplistDeleteRange_growth_overflows :
    ∃ zl, Lays zl (crowded 16900000) ∧ ziplistDeleteRange (fun _ _ => 0) zl 1 1 = .error .overflow ∧
      ¬RangeDeleted (fun _ _ => 0) zl (crowded 16900000) 1 1 := by
  obtain ⟨zl, lays, hfault⟩ := crowded_overflows (fun _ _ => 0) (n := 16900000) (by omega) (by omega)
  refine ⟨zl, lays, hfault, fun h => ?_⟩
  rw [RangeDeleted, hfault] at h
  split at h
  · cases h
  · obtain ⟨zl', hok, -⟩ := h
    cases hok

end Overflow

end JitRedis.RawZiplist
