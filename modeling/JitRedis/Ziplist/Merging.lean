import JitRedis.Ziplist.Deletion

/-!
# Merging two ziplists

`ziplistMerge` extends one of two ziplists by the entries of the other one, and repairs the length at the seam, from which the
entries of the second one may grow. As in a deletion, nothing bounds this growth.
-/

namespace JitRedis.RawZiplist

open Fallible List Memory

section Copy

variable (junk : Nat → UInt8) (l₁ t₁ n₁ l₂ t₂ n₂ : Nat) (a b : Bytes)

lemma load_entries (l t n : Nat) (b y : Bytes) :
    load Fault.badAccess (block l t n (b ++ [zipEnd]) ++ y) ziplistHeaderSize
      (ziplistHeaderSize + b.length + 1 - ziplistHeaderSize) = .ok (b ++ [zipEnd]) := by
  apply load_eq (a := block l t n []) (c := y)
  · rw [← append_assoc, ← block_append _ _ _ [], nil_append]
  · rw [length_block]
    rfl
  · rw [length_append, length_singleton]
    omega

lemma appendCopy_eq :
    ziplistMergeCopy (realloc junk (block l₁ t₁ n₁ (a ++ [zipEnd])) (ziplistHeaderSize + (a.length + b.length) + 1))
        (block l₂ t₂ n₂ (b ++ [zipEnd])) true (ziplistHeaderSize + a.length + 1) (ziplistHeaderSize + b.length + 1) =
      .ok (block l₁ t₁ n₁ (a ++ (b ++ [zipEnd]))) := by
  obtain ⟨y, hy, hrealloc⟩ := realloc_keep junk (block l₁ t₁ n₁ a) [zipEnd]
    (n := ziplistHeaderSize + (a.length + b.length) + 1) (by rw [length_block]; omega)
  have hload := load_entries l₂ t₂ n₂ b []
  rw [append_nil] at hload
  have hstore : store Fault.overflow (block l₁ t₁ n₁ a ++ (y ++ [])) (ziplistHeaderSize + a.length) (b ++ [zipEnd]) =
      .ok (block l₁ t₁ n₁ a ++ ((b ++ [zipEnd]) ++ [])) := by
    apply store_eq rfl
    · rw [length_block]
    · rw [hy, length_block, length_append, length_singleton]
      omega
  rw [append_nil, append_nil] at hstore
  rw [ziplistMergeCopy, if_pos rfl, block_append _ _ _ a, hrealloc, hload, ok_bind, Nat.add_sub_cancel, hstore,
    ← block_append]

lemma prependCopy_eq :
    ziplistMergeCopy (realloc junk (block l₂ t₂ n₂ (b ++ [zipEnd])) (ziplistHeaderSize + (a.length + b.length) + 1))
        (block l₁ t₁ n₁ (a ++ [zipEnd])) false (ziplistHeaderSize + b.length + 1) (ziplistHeaderSize + a.length + 1) =
      .ok (block l₁ t₁ n₁ (a ++ (b ++ [zipEnd]))) := by
  obtain ⟨y, hy, hrealloc⟩ := realloc_keep junk (block l₂ t₂ n₂ (b ++ [zipEnd])) []
    (n := ziplistHeaderSize + (a.length + b.length) + 1) (by rw [length_block, length_append, length_singleton]; omega)
  rw [append_nil] at hrealloc
  set m := block l₂ t₂ n₂ (b ++ [zipEnd]) ++ y with hm
  have hmlen : m.length = ziplistHeaderSize + a.length + (b.length + 1) := by
    rw [length_block, length_append, length_singleton] at hy
    rw [hm, length_append, length_block, length_append, length_singleton]
    omega
  have hmove := move_over (f := Fault.overflow) (a := []) (b := m) (z := []) (append_nil m).symm
    (load_entries l₂ t₂ n₂ b y) (Nat.zero_add (ziplistHeaderSize + a.length)).symm (by omega)
  have hload : load Fault.badAccess (block l₁ t₁ n₁ (a ++ [zipEnd])) 0 (ziplistHeaderSize + a.length) =
      .ok (block l₁ t₁ n₁ a) := load_eq (a := []) (block_append ..) rfl (length_block ..).symm
  rw [append_nil] at hmove
  rw [ziplistMergeCopy, if_neg Bool.false_ne_true, hrealloc, Nat.add_sub_cancel, hmove, ok_bind, hload, ok_bind, block_append]
  exact store_eq (a := []) rfl rfl (by rw [length_take, length_block]; omega)

end Copy

def merged (first second : List ZipItem) : List ZipItem := first ++ grow (lastRaw 0 first) second

/-- The size of a merged ziplist, with all fields that have to grow. -/
def mergedSize (first second : List ZipItem) : Nat :=
  ziplistHeaderSize + total first + total second + 1 + 4 * growing (lastRaw 0 first) second

section Merge

variable {zl₁ zl₂ : Bytes} {f s : List ZipItem}

lemma Lays.merge (h₁ : Lays zl₁ f) (h₂ : Lays zl₂ s) (hf : f ≠ []) (hs : s ≠ []) (junk : Nat → Nat → UInt8)
    (small : ziplistHeaderSize + total (f ++ s) + 1 < 2 ^ 32) :
    ∃ n₁ n₂ append, ziplistLength zl₁ = .ok n₁ ∧ ziplistLength zl₂ = .ok n₂ ∧
      CountField n₁ f.length ∧ CountField n₂ s.length ∧
      ziplistMerge junk zl₁ zl₂ =
        if mergedSize f s < 2 ^ 32 then
          .ok (block (mergedSize f s) (ziplistHeaderSize + lastStart (merged f s)) (if n₁ + n₂ < 65535 then n₁ + n₂ else 65535)
            (chain 0 (merged f s) ++ [zipEnd]), append)
        else .error .overflow := by
  obtain ⟨n₁, hn₁, hzl₁⟩ := h₁.bytes
  obtain ⟨n₂, hn₂, hzl₂⟩ := h₂.bytes
  have hlen₁ : ziplistLength zl₁ = .ok n₁ := by rw [hzl₁]; exact ziplistLength_block hn₁.lt
  have hlen₂ : ziplistLength zl₂ = .ok n₂ := by rw [hzl₂]; exact ziplistLength_block hn₂.lt
  refine ⟨n₁, n₂, decide (n₂ ≤ n₁), hlen₁, hlen₂, hn₁, hn₂, ?_⟩
  set num := if n₁ + n₂ < 65535 then n₁ + n₂ else 65535 with hnum
  have hlast : lastStart s ≤ total s := lastStart_le s
  have hzlbytes : ziplistHeaderSize + total f + 1 + (ziplistHeaderSize + total s + 1) - ziplistHeaderSize - 1 =
      ziplistHeaderSize + ((chain 0 f).length + (chain 0 s).length) + 1 := by
    rw [length_chain, length_chain]
    omega
  have hcopy : ziplistMergeCopy
      (realloc (junk 0) (if decide (n₂ ≤ n₁) then zl₁ else zl₂)
        (ziplistHeaderSize + ((chain 0 f).length + (chain 0 s).length) + 1)) (if decide (n₂ ≤ n₁) then zl₂ else zl₁)
      (decide (n₂ ≤ n₁)) (if decide (n₂ ≤ n₁) then ziplistHeaderSize + total f + 1 else ziplistHeaderSize + total s + 1)
      (if decide (n₂ ≤ n₁) then ziplistHeaderSize + total s + 1 else ziplistHeaderSize + total f + 1) =
        .ok (block zl₁.length (ziplistHeaderSize + lastStart f) n₁ (chain 0 f ++ (chain 0 s ++ [zipEnd]))) := by
    rw [← length_chain 0 f, ← length_chain 0 s]
    cases decide (n₂ ≤ n₁) with
    | true =>
      rw [if_pos rfl, if_pos rfl, if_pos rfl, if_pos rfl, hzl₂]
      conv_lhs => rw [hzl₁]
      exact appendCopy_eq ..
    | false =>
      rw [if_neg Bool.false_ne_true, if_neg Bool.false_ne_true, if_neg Bool.false_ne_true, if_neg Bool.false_ne_true, hzl₂]
      conv_lhs => rw [hzl₁]
      exact prependCopy_eq ..
  rw [ziplistMerge, h₁.bytes_eq, ok_bind, hlen₁, ok_bind, h₂.bytes_eq, ok_bind, hlen₂, ok_bind]
  dsimp only
  rw [h₁.tailOffset, ok_bind, h₂.tailOffset, ok_bind, hzlbytes, hcopy, ok_bind, ziplistSetBytes_block, ok_bind,
    ziplistSetLength_block, ok_bind, ziplistSetTailOffset_block, ok_bind]
  -- The result so far is a ziplist around the last entry of the first one, with a length of 0 at the seam.
  rcases eq_nil_or_concat f with rfl | ⟨l, i, rfl⟩
  · exact absurd rfl hf
  rw [concat_eq_append] at *
  have hfits : Fits i.big (lastRaw 0 l) := (linked_append.mp h₁.linked).2.1
  have haround : block (uint (ziplistHeaderSize + ((chain 0 (l ++ [i])).length + (chain 0 s).length) + 1))
      (uint (ziplistHeaderSize + total (l ++ [i]) + 1 - 1 + (ziplistHeaderSize + lastStart s - ziplistHeaderSize))) num
      (chain 0 (l ++ [i]) ++ (chain 0 s ++ [zipEnd])) = RawZiplist.around (chain 0 l) i (lastRaw 0 l) 0 s num := by
    have hseam : lastStart (i :: s) = i.rawlen + lastStart s := by
      cases s with
      | nil => exact absurd rfl hs
      | cons j s => rfl
    rw [length_chain, length_chain, RawZiplist.around, framed, hseam, chain_append, chain, chain, append_nil, length_chain]
    simp only [total_append, total_cons, total_nil, Nat.add_zero, append_assoc, uint] at small ⊢
    congr 1
    · omega
    · omega
  have hsum : ziplistHeaderSize + (chain 0 l).length + total (i :: s) + 1 < 2 ^ 32 := by
    rw [total_append, total_append, total_cons, total_nil] at small
    rw [length_chain, total_cons]
    omega
  have hsize : mergedSize (l ++ [i]) s = ziplistHeaderSize + (chain 0 l).length + total (i :: grow i.rawlen s) + 1 := by
    rw [mergedSize, lastRaw_append, total_append, length_chain, total_cons, total_cons, total_grow, total_nil]
    simp only [lastRaw]
    omega
  rw [haround, lastStart_append, show lastStart [i] = 0 from rfl, Nat.add_zero, ← length_chain 0 l,
    cascadeUpdate_around _ hfits h₂.linked hsum, ← hsize]
  split
  · rw [ok_bind, RawZiplist.around, framed, ← hsize, merged, append_assoc, singleton_append, lastStart_append,
      lastRaw_append, chain_append, chain, length_chain]
    simp only [lastRaw, append_assoc, Nat.add_assoc]
  · rfl

end Merge

/-- A ziplist with the entries of two others, each of which is read back, and with their number if 16 bits can hold it. -/
def Concatenated (first second : List ZipItem) (zl : Bytes) : Prop :=
  ∃ items, Lays zl items ∧ items.map ZipItem.value = first.map ZipItem.value ++ second.map ZipItem.value ∧
    ziplistLength zl =
      .ok (if first.length + second.length < 65535 then first.length + second.length else 65535) ∧
    ∀ j ≤ items.length, textAt zl (offset items j) = .ok (texts items)[j]?

lemma count_merged {n₁ n₂ k₁ k₂ : Nat} (h₁ : CountField n₁ k₁) (h₂ : CountField n₂ k₂) :
    (if n₁ + n₂ < 65535 then n₁ + n₂ else 65535) = (if k₁ + k₂ < 65535 then k₁ + k₂ else 65535) ↔
      (n₁ ≠ 65535 ∧ n₂ ≠ 65535) ∨ 65535 ≤ k₁ + k₂ := by
  unfold CountField at h₁ h₂
  split_ifs <;> omega

/-- `ziplistMerge` concatenates two ziplists, unless the entries behind the seam grow so much that the result reaches `2 ^ 32`
bytes, or a count that is not known makes it forget one that 16 bits could hold. -/
theorem ziplistMerge_concatenates_iff {zl₁ zl₂ : Bytes} {f s : List ZipItem} (h₁ : Lays zl₁ f) (h₂ : Lays zl₂ s) (hf : f ≠ [])
    (hs : s ≠ []) (small : ziplistHeaderSize + total (f ++ s) + 1 < 2 ^ 32) (junk : Nat → Nat → UInt8) :
    (∃ zl append, ziplistMerge junk zl₁ zl₂ = .ok (zl, append) ∧ Concatenated f s zl) ↔
      mergedSize f s < 2 ^ 32 ∧
        ((ziplistLength zl₁ ≠ .ok 65535 ∧ ziplistLength zl₂ ≠ .ok 65535) ∨ 65535 ≤ f.length + s.length) := by
  obtain ⟨n₁, n₂, append, hlen₁, hlen₂, hn₁, hn₂, hmerge⟩ := h₁.merge h₂ hf hs junk small
  have hknown : ((ziplistLength zl₁ ≠ .ok 65535 ∧ ziplistLength zl₂ ≠ .ok 65535) ∨ 65535 ≤ f.length + s.length) ↔
      (if n₁ + n₂ < 65535 then n₁ + n₂ else 65535) =
        (if f.length + s.length < 65535 then f.length + s.length else 65535) := by
    rw [count_merged hn₁ hn₂, hlen₁, hlen₂]
    simp only [ne_eq, Except.ok.injEq]
  rw [hmerge, hknown]
  set num := if n₁ + n₂ < 65535 then n₁ + n₂ else 65535 with hnum
  have hnumlt : num < 256 ^ 2 := by
    rw [hnum]
    split <;> omega
  split
  · rename_i hsize
    have hlast := lastRaw_le 0 f
    have htotal : ziplistHeaderSize + total (merged f s) + 1 = mergedSize f s := by
      rw [merged, mergedSize, total_append, total_grow]
      omega
    have hgrown : total (grow (lastRaw 0 f) s) < 2 ^ 32 := by
      rw [merged, total_append] at htotal
      omega
    have hlink : Linked 0 (merged f s) :=
      linked_append.mpr ⟨h₁.linked, linked_grow h₂.linked (by rw [total_append] at small; omega) hgrown⟩
    have hcount : CountField num (merged f s).length := by
      unfold CountField at hn₁ hn₂ ⊢
      rw [merged, length_append, length_grow, hnum]
      split <;> omega
    have lays := lays_block hcount hlink (by rw [htotal]; exact hsize)
    rw [htotal] at lays
    have hcountfield : ziplistLength (block (mergedSize f s) (ziplistHeaderSize + lastStart (merged f s)) num
        (chain 0 (merged f s) ++ [zipEnd])) = .ok num := ziplistLength_block hnumlt
    refine ⟨?_, fun ⟨_, heq⟩ => ⟨_, append, rfl, merged f s, lays, ?_, ?_, fun j => lays.textAt_offset⟩⟩
    · rintro ⟨zl, append', hok, items, -, -, hzllen, -⟩
      cases hok
      rw [hcountfield, Except.ok.injEq] at hzllen
      exact ⟨hsize, hzllen⟩
    · rw [merged, map_append, values_grow]
    · rw [hcountfield, heq]
  · rename_i hlarge
    exact ⟨fun ⟨_, _, hok, _⟩ => (nomatch hok), fun h => absurd h.1 hlarge⟩

/-- Two ziplists of one entry each. -/
theorem ziplistMerge_concatenates_iff_short :
    ∃ zl append, ziplistMerge (fun _ _ => 0) (block 14 10 1 (chain 0 [.ofString 0 ⟨[97], by decide⟩] ++ [zipEnd]))
      (block 13 10 1 (chain 0 [.ofString 0 ⟨[49], by decide⟩] ++ [zipEnd])) = .ok (zl, append) ∧
      Concatenated [.ofString 0 ⟨[97], by decide⟩] [.ofString 0 ⟨[49], by decide⟩] zl := by
  have lays₁ : Lays (block 14 10 1 (chain 0 [.ofString 0 ⟨[97], by decide⟩] ++ [zipEnd])) [.ofString 0 ⟨[97], by decide⟩] :=
    ⟨⟨1, .inl (by decide), by decide⟩, ⟨⟨by decide, fun _ => by decide⟩, trivial⟩, by decide⟩
  have lays₂ : Lays (block 13 10 1 (chain 0 [.ofString 0 ⟨[49], by decide⟩] ++ [zipEnd])) [.ofString 0 ⟨[49], by decide⟩] :=
    ⟨⟨1, .inl (by decide), by decide⟩, ⟨⟨by decide, fun _ => by decide⟩, trivial⟩, by decide⟩
  exact (ziplistMerge_concatenates_iff lays₁ lays₂ (cons_ne_nil _ _) (cons_ne_nil _ _) (by decide)
    (fun _ _ => 0)).mpr ⟨by decide, .inl (by decide)⟩

section Overflow

/-- The first of two ziplists whose merge overflows: one long entry. -/
def longEntry : List ZipItem := [longItem]

lemma mergedSize_fillers (n : Nat) : mergedSize longEntry (fillers n) = 314 + n * 257 := by
  rw [mergedSize, longEntry, total_cons, lastRaw, lastRaw, rawlen_longItem, growing_fillers n (by omega), total_fillers, total_nil,
    ziplistHeaderSize]
  omega

lemma total_longEntry : total longEntry = 303 := by
  rw [longEntry, total_cons, rawlen_longItem, total_nil]

lemma fillers_overflow (junk : Nat → Nat → UInt8) {n : Nat} (hn : 314 + n * 253 < 2 ^ 32) (hlarge : 2 ^ 32 ≤ 314 + n * 257) :
    ∃ zl₁ zl₂, Lays zl₁ longEntry ∧ Lays zl₂ (fillers n) ∧ ziplistHeaderSize + total (longEntry ++ fillers n) + 1 < 2 ^ 32 ∧
      ziplistMerge junk zl₁ zl₂ = .error .overflow := by
  have lays₁ := lays_block (.inl ⟨rfl, by decide⟩ : CountField 1 longEntry.length) ⟨⟨by omega, fun _ => by omega⟩, trivial⟩
    (by rw [total_longEntry, ziplistHeaderSize]; omega)
  have lays₂ := lays_block (.inr rfl : CountField 65535 (fillers n).length) (linked_fillers n (by omega))
    (by rw [total_fillers, ziplistHeaderSize]; omega)
  have hne : fillers n ≠ [] := by
    rw [fillers, ne_eq, replicate_eq_nil_iff]
    omega
  have small : ziplistHeaderSize + total (longEntry ++ fillers n) + 1 < 2 ^ 32 := by
    rw [total_append, total_longEntry, total_fillers, ziplistHeaderSize]
    omega
  obtain ⟨n₁, n₂, append, -, -, -, -, hmerge⟩ := lays₁.merge lays₂ (cons_ne_nil _ _) hne junk small
  rw [mergedSize_fillers, if_neg (by omega)] at hmerge
  exact ⟨_, _, lays₁, lays₂, small, hmerge⟩

attribute [local irreducible] fillers

/-- Merging a ziplist of one long entry with one of 4275700011 bytes overflows. -/
theorem ziplistMerge_growth_overflows :
    ∃ zl₁ zl₂, Lays zl₁ longEntry ∧ Lays zl₂ (fillers 16900000) ∧
      ziplistHeaderSize + total (longEntry ++ fillers 16900000) + 1 < 2 ^ 32 ∧
      ziplistMerge (fun _ _ => 0) zl₁ zl₂ = .error .overflow :=
  fillers_overflow (fun _ _ => 0) (by omega) (by omega)

end Overflow

end JitRedis.RawZiplist
