import JitRedis.Intset.Model

/-!
# Intsets are sets

The contents are the elements in increasing order, each in the width of the encoding. A value that does not fit the
encoding is smaller or larger than all elements, so that an upgrade knows where it goes.
-/

namespace JitRedis

open Fallible LittleEndian List Memory

variable {is is' : Intset} {l a b : List Int} {v x : Int} {w : Nat} {junk : Nat → UInt8}

def packed (w : Nat) (l : List Int) : Bytes := l.flatMap (encodeInt w)

@[simp] lemma packed_nil : packed w [] = [] := rfl

@[simp] lemma packed_cons : packed w (v :: l) = encodeInt w v ++ packed w l := flatMap_cons

@[simp] lemma packed_append : packed w (a ++ b) = packed w a ++ packed w b := flatMap_append

@[simp] lemma length_packed : (packed w l).length = l.length * w := by
  induction l with
  | nil => rw [packed_nil, length_nil, length_nil, Nat.zero_mul]
  | cons v l ih => rw [packed_cons, length_append, ih, length_encodeInt, length_cons, Nat.succ_mul, Nat.add_comm]

/-- The intset has the elements of the list, which are in order. -/
structure Intset.Holds (is : Intset) (l : List Int) : Prop where
  width : is.encoding = 2 ∨ is.encoding = 4 ∨ is.encoding = 8
  length : is.length = l.length
  contents : is.contents = packed is.encoding l
  fits : ∀ v ∈ l, Fits is.encoding v
  sorted : l.Pairwise (· < ·)

/-! ### Widths -/

lemma fits_iff (hw : w = 2 ∨ w = 4 ∨ w = 8) (hv : Fits 8 v) : Fits w v ↔ intsetValueEncoding v ≤ w := by
  rw [intsetValueEncoding]
  rw [Fits] at hv ⊢
  rcases hw with rfl | rfl | rfl
  · split
    · omega
    · split <;> omega
  · split
    · omega
    · split <;> omega
  · split
    · omega
    · split <;> omega

lemma intsetValueEncoding_cases (v : Int) :
    intsetValueEncoding v = 2 ∨ intsetValueEncoding v = 4 ∨ intsetValueEncoding v = 8 := by
  rw [intsetValueEncoding]
  split
  · exact .inr (.inr rfl)
  · split
    · exact .inr (.inl rfl)
    · exact .inl rfl

lemma Intset.Holds.width_le (h : is.Holds l) : is.encoding ≤ 8 := by
  rcases h.width with hw | hw | hw <;> omega

lemma outside (hx : Fits w x) (hv : ¬ Fits w v) : if v < 0 then v < x else x < v := by
  rw [Fits] at hx hv
  split
  · omega
  · omega

/-! ### Reading -/

lemma Intset.Holds.getAt (h : is.Holds (a ++ v :: b)) : intsetGetAt is a.length = .ok v := by
  have hload : load Fault.badAccess is.contents (a.length * is.encoding) is.encoding =
      .ok (encodeInt is.encoding v) := by
    apply load_eq (a := packed is.encoding a) (c := packed is.encoding b)
    · rw [h.contents, packed_append, packed_cons]
    · rw [length_packed]
    · rw [length_encodeInt]
  rw [intsetGetAt, intsetGetEncoded, hload, ok_bind, decodeInt_encodeInt]
  exact h.fits v (mem_append_right _ (mem_cons_self ..))

lemma Intset.Holds.getAt_of_getElem? (h : is.Holds l) {i : Nat} (hi : l[i]? = some v) : intsetGetAt is i = .ok v := by
  obtain ⟨hlt, rfl⟩ := List.getElem?_eq_some_iff.mp hi
  rw [split_at hlt] at h
  have hget := h.getAt
  rwa [length_take, Nat.min_eq_left hlt.le] at hget

/-- The elements before a position are smaller than a value, and those from another one on are larger. -/
structure Between (l : List Int) (v min max : Int) : Prop where
  low : 0 ≤ min
  high : max < l.length
  order : min ≤ max + 1
  smaller : ∀ {i : Nat} {x}, l[i]? = some x → i < min → x < v
  larger : ∀ {i : Nat} {x}, l[i]? = some x → max < i → v < x

inductive Found (l : List Int) (v : Int) : Int × Int × Int → Prop
  | here {min : Int} {mid : Nat} (hmid : l[mid]? = some v) : Found l v (min, mid, v)
  | place {min mid cur : Int} (hcur : v ≠ cur) (between : Between l v min (min - 1)) : Found l v (min, mid, cur)

lemma smaller_of_sorted (sorted : l.Pairwise (· < ·)) {i j : Nat} {y : Int} (hi : l[i]? = some x) (hj : l[j]? = some y)
    (hle : i ≤ j) : x ≤ y := by
  obtain ⟨hilt, rfl⟩ := List.getElem?_eq_some_iff.mp hi
  obtain ⟨hjlt, rfl⟩ := List.getElem?_eq_some_iff.mp hj
  rcases hle.eq_or_lt with rfl | hlt
  · exact le_rfl
  · exact (pairwise_iff_getElem.mp sorted i j hilt hjlt hlt).le

lemma Intset.Holds.searchLoop (h : is.Holds l) (small : l.length < 2 ^ 31) {turns : Nat} {min max mid cur : Int}
    (between : Between l v min max) (hcur : min ≤ max ∨ v ≠ cur) (hturns : max + 1 - min < turns) :
    Sat NoFault (Found l v) (intsetSearchLoop is v turns min max mid cur) := by
  induction turns generalizing min max mid cur with
  | zero =>
    have := between.order
    omega
  | succ turns ih =>
    rw [intsetSearchLoop]
    split
    case isFalse hlt =>
      obtain rfl : max = min - 1 := by
        have := between.order
        omega
      exact .place (hcur.resolve_left hlt) between
    case isTrue hle =>
      obtain ⟨low, high, order, smaller, larger⟩ := between
      have hmid : (min % 2 ^ 32 + max % 2 ^ 32) % 2 ^ 32 / 2 = (((min + max) / 2).toNat : Int) := by omega
      generalize hm : ((min + max) / 2).toNat = m at hmid
      rw [hmid]
      obtain ⟨y, hy⟩ : ∃ y, l[m]? = some y := ⟨_, getElem?_eq_getElem (by omega)⟩
      dsimp only
      rw [Int.toNat_natCast, h.getAt_of_getElem? hy, ok_bind]
      split
      case isTrue hless =>
        refine ih ⟨by omega, high, by omega, fun hx hi => ?_, larger⟩ (.inr hless.ne') (by omega)
        exact (smaller_of_sorted h.sorted hx hy (by omega)).trans_lt hless
      case isFalse hnotless =>
        split
        case isTrue hmore =>
          refine ih ⟨low, by omega, by omega, smaller, fun hx hi => ?_⟩ (.inr hmore.ne) (by omega)
          exact hmore.trans_le (smaller_of_sorted h.sorted hy hx (by omega))
        case isFalse hnotmore =>
          obtain rfl : y = v := le_antisymm (not_lt.mp hnotmore) (not_lt.mp hnotless)
          exact .here hy

/-- The place of a value: where it is, or between the elements that are smaller and those that are larger. -/
inductive Searched (l : List Int) (v : Int) : Bool × Nat → Prop
  | found {a b : List Int} (hl : l = a ++ v :: b) : Searched l v (true, a.length)
  | missing {a b : List Int} (hl : l = a ++ b) (smaller : ∀ x ∈ a, x < v) (larger : ∀ x ∈ b, v < x) :
    Searched l v (false, a.length)

lemma notMem_between (smaller : ∀ x ∈ a, x < v) (larger : ∀ x ∈ b, v < x) : v ∉ a ++ b := by
  intro hmem
  rcases mem_append.mp hmem with hmem | hmem
  · exact lt_irrefl v (smaller v hmem)
  · exact lt_irrefl v (larger v hmem)

lemma Between.searched {m : Nat} (between : Between l v m (m - 1)) : Searched l v (false, m) := by
  obtain ⟨-, high, -, smaller, larger⟩ := between
  have hlen : (l.take m).length = m := length_take_of_le (by omega)
  have place : Searched l v (false, (l.take m).length) := by
    refine .missing (take_append_drop m l).symm (fun x hx => ?_) fun x hx => ?_
    · obtain ⟨i, hi, rfl⟩ := mem_take_iff_getElem.mp hx
      exact smaller (getElem?_eq_getElem _) (by omega)
    · obtain ⟨i, hi, rfl⟩ := mem_drop_iff_getElem.mp hx
      exact larger (i := m + i) (getElem?_eq_getElem _) (by omega)
  rwa [hlen] at place

lemma Found.searched {r} (h : Found l v r) :
    Searched l v (if v = r.2.2 then (true, r.2.1.toNat) else (false, r.1.toNat)) := by
  cases h with
  | @here min mid hmid =>
    obtain ⟨hlt, rfl⟩ := List.getElem?_eq_some_iff.mp hmid
    have hlen : (l.take mid).length = mid := length_take_of_le hlt.le
    have place : Searched l l[mid] (true, (l.take mid).length) := by
      apply Searched.found (b := l.drop (mid + 1))
      rw [getElem_cons_drop, take_append_drop]
    rw [hlen] at place
    rw [if_pos rfl]
    exact place
  | @place min mid cur hcur between =>
    obtain ⟨m, rfl⟩ := Int.eq_ofNat_of_zero_le between.low
    rw [if_neg hcur]
    exact between.searched

lemma Intset.Holds.search (h : is.Holds l) (small : l.length < 2 ^ 31) (v : Int) :
    Sat NoFault (Searched l v) (intsetSearch is v) := by
  rw [intsetSearch]
  split
  case isTrue hzero =>
    obtain rfl : l = [] := length_eq_zero_iff.mp (h.length.symm.trans hzero)
    exact .missing (a := []) rfl (forall_mem_nil _) (forall_mem_nil _)
  case isFalse hzero =>
    have hpos : 0 < l.length := Nat.pos_of_ne_zero (h.length ▸ hzero)
    have hlast : l[is.length - 1]? = some (l.getLast (ne_nil_of_length_pos hpos)) := by
      rw [h.length, ← getLast?_eq_getElem?, getLast?_eq_some_getLast]
    have hfirst : l[0]? = some l[0] := getElem?_eq_getElem hpos
    generalize l.getLast (ne_nil_of_length_pos hpos) = last at hlast
    generalize l[0] = first at hfirst
    rw [h.getAt_of_getElem? hlast, ok_bind]
    split
    case isTrue hless =>
      rw [h.length]
      refine .missing (b := []) (append_nil l).symm (fun x hx => ?_) (forall_mem_nil _)
      obtain ⟨i, hi, rfl⟩ := getElem_of_mem hx
      have hle := smaller_of_sorted h.sorted (getElem?_eq_getElem hi) hlast (by rw [h.length]; omega)
      exact hle.trans_lt hless
    case isFalse =>
      rw [h.getAt_of_getElem? hfirst, ok_bind]
      split
      case isTrue hmore =>
        refine .missing (a := []) rfl (forall_mem_nil _) fun x hx => ?_
        obtain ⟨i, hi, rfl⟩ := getElem_of_mem hx
        exact hmore.trans_le (smaller_of_sorted h.sorted hfirst (getElem?_eq_getElem hi) (Nat.zero_le i))
      case isFalse =>
        have between : Between l v 0 (is.length - 1) := by
          refine ⟨le_rfl, by rw [h.length]; omega, by omega, fun _ hi => by omega, fun hx hi => ?_⟩
          have := (List.getElem?_eq_some_iff.mp hx).1
          rw [h.length] at hi
          omega
        have hloop : Sat NoFault (Found l v) (intsetSearchLoop is v (is.length + 1) 0 (is.length - 1) (-1) (-1)) :=
          h.searchLoop small between (.inl (by rw [h.length]; omega)) (by omega)
        exact hloop.bind fun r hr => hr.searched

/-! ### Writing -/

lemma size_eq (h : is.Holds l) {n : Nat} (small : n < 2 ^ 29) : n * is.encoding % 2 ^ 32 = n * is.encoding := by
  apply Nat.mod_eq_of_lt
  calc n * is.encoding ≤ n * 8 := Nat.mul_le_mul_left n h.width_le
    _ < 2 ^ 32 := by omega

lemma sorted_insert (sorted : (a ++ b).Pairwise (· < ·)) (smaller : ∀ x ∈ a, x < v) (larger : ∀ x ∈ b, v < x) :
    (a ++ v :: b).Pairwise (· < ·) := by
  rw [pairwise_append] at sorted ⊢
  refine ⟨sorted.1, pairwise_cons.mpr ⟨larger, sorted.2.1⟩, fun x hx y hy => ?_⟩
  cases hy with
  | head => exact smaller x hx
  | tail _ hy => exact sorted.2.2 x hx y hy

lemma intsetSet_eq {len pos : Nat} {pre gap post : Bytes} (hpre : pre.length = pos * w) (hgap : gap.length = w) :
    intsetSet ⟨w, len, pre ++ (gap ++ post)⟩ pos v = .ok ⟨w, len, pre ++ (encodeInt w v ++ post)⟩ := by
  have hstore := store_eq (e := Fault.overflow) (x := encodeInt w v) (m := pre ++ (gap ++ post)) rfl hpre.symm
    (by rw [length_encodeInt, hgap])
  rw [intsetSet, hstore, ok_bind]

lemma Intset.Holds.openGap (h : is.Holds (a ++ b)) (small : (a ++ b).length + 1 < 2 ^ 29) (junk : Nat → UInt8) :
    ∃ gap : Bytes, gap.length = is.encoding ∧ intsetOpenGap (intsetResize junk is (is.length + 1)) a.length =
      .ok { is with contents := packed is.encoding a ++ (gap ++ packed is.encoding b) } := by
  have hsize : (is.length + 1) * is.encoding % 2 ^ 32 = is.contents.length + is.encoding := by
    rw [h.length, size_eq h small, h.contents, length_packed, Nat.succ_mul]
  obtain ⟨new, hnew, hgrow⟩ := realloc_grow junk is.contents is.encoding
  rw [intsetResize, hsize, hgrow, h.contents, packed_append, intsetOpenGap]
  split
  case isTrue hlt =>
    refine ⟨(packed is.encoding b ++ new).take is.encoding, ?_, ?_⟩
    · rw [length_take, length_append, hnew]
      omega
    · have hbytes : (is.length - a.length) * is.encoding % 2 ^ 32 = b.length * is.encoding := by
        rw [h.length, length_append, Nat.add_sub_cancel_left]
        apply size_eq h
        rw [length_append] at small
        omega
      have hmove := move_eq (e := Fault.badAccess) (f := Fault.overflow)
        (m := packed is.encoding a ++ packed is.encoding b ++ new) (a := packed is.encoding a) (b := packed is.encoding b)
        (c := new) (x := packed is.encoding a ++ (packed is.encoding b ++ new).take is.encoding)
        (y := (packed is.encoding b ++ new).drop is.encoding) (z := []) (s := a.length * is.encoding)
        (d := (a.length + 1) * is.encoding) (n := b.length * is.encoding)
        (append_assoc ..) (by simp) length_packed.symm (by simp [hnew, Nat.succ_mul]) length_packed.symm
        (by simp [hnew])
      dsimp only [intsetMoveTail]
      rw [hbytes, hmove, ok_bind, append_nil, append_assoc]
  case isFalse hge =>
    obtain rfl : b = [] := by
      rw [h.length, length_append] at hge
      exact length_eq_zero_iff.mp (by omega)
    exact ⟨new, hnew, by rw [packed_nil, append_nil, append_nil]⟩

lemma Intset.Holds.addAt (h : is.Holds (a ++ b)) (small : (a ++ b).length + 1 < 2 ^ 29) (hv : Fits is.encoding v)
    (smaller : ∀ x ∈ a, x < v) (larger : ∀ x ∈ b, v < x) (junk : Nat → UInt8) :
    ∃ is', intsetAddAt junk is a.length v = .ok is' ∧ is'.Holds (a ++ v :: b) ∧ is'.encoding = is.encoding := by
  obtain ⟨gap, hgap, hopen⟩ := h.openGap small junk
  rw [intsetAddAt, hopen, ok_bind, intsetSet_eq length_packed hgap, ok_bind]
  refine ⟨_, rfl, ⟨h.width, ?_, ?_, ?_, sorted_insert h.sorted smaller larger⟩, rfl⟩
  · show is.length + 1 = _
    rw [h.length, length_append, length_append, length_cons, Nat.add_assoc]
  · rw [packed_append, packed_cons]
  · obtain ⟨ha, hb⟩ := forall_mem_append.mp h.fits
    exact forall_mem_append.mpr ⟨ha, forall_mem_cons.mpr ⟨hv, hb⟩⟩

lemma Intset.Holds.closeGap (h : is.Holds (a ++ v :: b)) (small : (a ++ v :: b).length < 2 ^ 29) :
    ∃ rest : Bytes, rest.length = is.encoding ∧ intsetCloseGap is a.length =
      .ok { is with contents := packed is.encoding a ++ packed is.encoding b ++ rest } := by
  have hlen : is.length - 1 = a.length + b.length := by
    rw [h.length, length_append, length_cons]
    omega
  rw [intsetCloseGap, hlen]
  split
  case isTrue =>
    refine ⟨(encodeInt is.encoding v ++ packed is.encoding b).drop (b.length * is.encoding), ?_, ?_⟩
    · rw [length_drop, length_append, length_packed, length_encodeInt, Nat.add_sub_cancel]
    · have hbytes : (is.length - (a.length + 1)) * is.encoding % 2 ^ 32 = b.length * is.encoding := by
        rw [h.length, length_append, length_cons, ← Nat.add_assoc, Nat.add_right_comm, Nat.add_sub_cancel_left]
        apply size_eq h
        rw [length_append, length_cons] at small
        omega
      have hmove := move_eq (e := Fault.badAccess) (f := Fault.overflow) (m := is.contents)
        (a := packed is.encoding a ++ encodeInt is.encoding v) (b := packed is.encoding b) (c := [])
        (x := packed is.encoding a) (y := (encodeInt is.encoding v ++ packed is.encoding b).take (b.length * is.encoding))
        (z := (encodeInt is.encoding v ++ packed is.encoding b).drop (b.length * is.encoding))
        (s := (a.length + 1) * is.encoding) (d := a.length * is.encoding) (n := b.length * is.encoding)
        (by rw [h.contents, packed_append, packed_cons, append_nil, append_assoc])
        (by rw [h.contents, packed_append, packed_cons, take_append_drop])
        (by rw [length_append, length_packed, length_encodeInt, Nat.succ_mul]) length_packed.symm length_packed.symm
        (by rw [length_take, length_append, length_packed]; omega)
      rw [intsetMoveTail, hbytes, hmove, ok_bind, append_assoc]
  case isFalse hge =>
    obtain rfl : b = [] := length_eq_zero_iff.mp (by omega)
    refine ⟨encodeInt is.encoding v, length_encodeInt .., ?_⟩
    have hcontents := h.contents
    rw [packed_append, packed_cons, packed_nil, append_nil] at hcontents
    rw [packed_nil, append_nil, ← hcontents]

lemma Intset.Holds.removeAt (h : is.Holds (a ++ v :: b)) (small : (a ++ v :: b).length < 2 ^ 29) (junk : Nat → UInt8) :
    ∃ is', intsetRemoveAt junk is a.length = .ok is' ∧ is'.Holds (a ++ b) ∧ is'.encoding = is.encoding := by
  have hlen : is.length - 1 = (a ++ b).length := by
    rw [h.length, length_append, length_append, length_cons]
    omega
  have hsize : (is.length - 1) * is.encoding % 2 ^ 32 = (packed is.encoding a ++ packed is.encoding b).length := by
    rw [hlen, ← packed_append, length_packed]
    apply size_eq h
    have := h.length
    omega
  obtain ⟨rest, -, hclose⟩ := h.closeGap small
  rw [intsetRemoveAt, hclose, ok_bind]
  refine ⟨_, rfl, ⟨h.width, hlen, ?_, fun x hx => ?_, ?_⟩, rfl⟩
  · dsimp only [intsetResize]
    rw [hsize, realloc_shrink, packed_append]
  · exact h.fits x (((sublist_cons_self v b).append_left a).subset hx)
  · exact h.sorted.sublist ((sublist_cons_self v b).append_left a)

/-- Elements not yet reached are in the old width at the beginning, the others in the new width where they belong. -/
lemma upgradeLoop_eq (len prepend : Nat) {w₀ : Nat} {gap : Bytes} (post : Bytes) (hw : w₀ ≤ w)
    (hfits : ∀ x ∈ a, Fits w₀ x) (hgap : a.length * w₀ + gap.length = (a.length + prepend) * w) :
    ∃ pre : Bytes, pre.length = prepend * w ∧
      intsetUpgradeLoop w₀ prepend a.length ⟨w, len, packed w₀ a ++ (gap ++ post)⟩ =
        .ok ⟨w, len, pre ++ (packed w a ++ post)⟩ := by
  induction a using List.reverseRecOn generalizing gap post with
  | nil =>
    refine ⟨gap, ?_, rfl⟩
    rw [length_nil, Nat.zero_mul, Nat.zero_add, Nat.zero_add] at hgap
    exact hgap
  | append_singleton a x ih =>
    -- the last bytes of what is before the elements already widened are overwritten
    rw [length_append, length_singleton] at hgap ⊢
    have hold : a.length * w₀ ≤ (a.length + prepend) * w := Nat.mul_le_mul (Nat.le_add_right _ _) hw
    have hsum : (a.length + 1 + prepend) * w = (a.length + prepend) * w + w := by ring
    have hsum₀ : (a.length + 1) * w₀ = a.length * w₀ + w₀ := by ring
    have hload := load_eq (e := Fault.badAccess) (m := packed w₀ (a ++ [x]) ++ (gap ++ post)) (a := packed w₀ a)
      (b := encodeInt w₀ x) (c := gap ++ post) (p := a.length * w₀) (n := w₀)
      (by rw [packed_append, packed_cons, packed_nil, append_nil, append_assoc]) length_packed.symm
      (length_encodeInt ..).symm
    have hread : intsetGetEncoded ⟨w, len, packed w₀ (a ++ [x]) ++ (gap ++ post)⟩ a.length w₀ = .ok x := by
      rw [intsetGetEncoded, hload, ok_bind, decodeInt_encodeInt]
      exact hfits x (mem_append_right _ (mem_singleton_self x))
    obtain ⟨keep, old, hkeep, hold'⟩ : ∃ keep old : Bytes, encodeInt w₀ x ++ gap = keep ++ old ∧
        a.length * w₀ + keep.length = (a.length + prepend) * w := by
      refine ⟨_, _, (take_append_drop ((a.length + prepend) * w - a.length * w₀) _).symm, ?_⟩
      rw [length_take, length_append, length_encodeInt]
      omega
    have holdlen : old.length = w := by
      have hlen := congrArg List.length hkeep
      rw [length_append, length_append, length_encodeInt] at hlen
      omega
    have hbytes : packed w₀ (a ++ [x]) ++ (gap ++ post) = (packed w₀ a ++ keep) ++ (old ++ post) := by
      rw [packed_append, packed_cons, packed_nil, append_nil, append_assoc, ← append_assoc _ gap, hkeep]
      simp only [append_assoc]
    rw [intsetUpgradeLoop, hread, ok_bind, hbytes, intsetSet_eq _ holdlen, ok_bind, append_assoc]
    · obtain ⟨pre, hpre, hloop⟩ := ih (encodeInt w x ++ post) (fun y hy => hfits y (mem_append_left _ hy)) hold'
      refine ⟨pre, hpre, ?_⟩
      rw [hloop, packed_append, packed_cons, packed_nil, append_nil, append_assoc]
    · rw [length_append, length_packed, hold']

section

variable (h : is.Holds l) (small : l.length + 1 < 2 ^ 29)
include h small

lemma Intset.Holds.resize_upgrade (hwide : is.encoding < w) (hw : w ≤ 8)
    (junk : Nat → UInt8) :
    ∃ new : Bytes, l.length * is.encoding + new.length = (l.length + 1) * w ∧
      intsetResize junk { is with encoding := w } (is.length + 1) = ⟨w, is.length, packed is.encoding l ++ new⟩ := by
  have hle : is.contents.length ≤ (l.length + 1) * w := by
    rw [h.contents, length_packed]
    exact Nat.mul_le_mul (Nat.le_succ _) hwide.le
  have hsize : (is.length + 1) * w % 2 ^ 32 = is.contents.length + ((l.length + 1) * w - is.contents.length) := by
    rw [Nat.add_sub_cancel' hle, h.length]
    apply Nat.mod_eq_of_lt
    calc (l.length + 1) * w ≤ (l.length + 1) * 8 := Nat.mul_le_mul_left _ hw
      _ < 2 ^ 32 := by omega
  obtain ⟨new, hnew, hgrow⟩ := realloc_grow junk is.contents ((l.length + 1) * w - is.contents.length)
  refine ⟨new, ?_, ?_⟩
  · rw [hnew, ← length_packed, ← h.contents, Nat.add_sub_cancel' hle]
  · dsimp only [intsetResize]
    rw [hsize, hgrow, h.contents]

lemma Intset.Holds.upgrade_first
    (hwide : is.encoding < intsetValueEncoding v) (hneg : v < 0) (junk : Nat → UInt8) :
    intsetUpgradeAndAdd junk is v =
      .ok ⟨intsetValueEncoding v, is.length + 1, packed (intsetValueEncoding v) (v :: l)⟩ := by
  have hw : intsetValueEncoding v ≤ 8 := by
    have := intsetValueEncoding_cases v
    omega
  obtain ⟨new, hnew, hresize⟩ := h.resize_upgrade small hwide hw junk
  rw [intsetUpgradeAndAdd, if_pos hneg]
  generalize intsetValueEncoding v = w at *
  obtain ⟨pre, hpre, hloop⟩ := upgradeLoop_eq is.length 1 [] hwide.le h.fits hnew
  rw [← h.length, append_nil] at hloop
  have hset : intsetSet ⟨w, is.length, [] ++ (pre ++ (packed w l ++ []))⟩ 0 v =
      .ok ⟨w, is.length, [] ++ (encodeInt w v ++ (packed w l ++ []))⟩ :=
    intsetSet_eq (Nat.zero_mul w).symm (hpre.trans (Nat.one_mul w))
  rw [nil_append, nil_append, append_nil] at hset
  rw [hresize, hloop, ok_bind, if_pos rfl, append_nil, hset, ok_bind, packed_cons]

lemma Intset.Holds.upgrade_last
    (hwide : is.encoding < intsetValueEncoding v) (hneg : ¬ v < 0) (junk : Nat → UInt8) :
    intsetUpgradeAndAdd junk is v =
      .ok ⟨intsetValueEncoding v, is.length + 1, packed (intsetValueEncoding v) (l ++ [v])⟩ := by
  have hw : intsetValueEncoding v ≤ 8 := by
    have := intsetValueEncoding_cases v
    omega
  obtain ⟨new, hnew, hresize⟩ := h.resize_upgrade small hwide hw junk
  rw [intsetUpgradeAndAdd, if_neg hneg]
  generalize intsetValueEncoding v = w at *
  -- the last of the new bytes are for the value
  obtain ⟨gap, last, rfl, hlast⟩ : ∃ gap last : Bytes, new = gap ++ last ∧ last.length = w := by
    refine ⟨_, _, (take_append_drop (new.length - w) new).symm, ?_⟩
    have hle := Nat.mul_le_mul_left l.length hwide.le
    rw [length_drop]
    rw [Nat.succ_mul] at hnew
    omega
  have hgap : l.length * is.encoding + gap.length = (l.length + 0) * w := by
    rw [length_append, hlast, Nat.succ_mul] at hnew
    rw [Nat.add_zero]
    omega
  obtain ⟨pre, hpre, hloop⟩ := upgradeLoop_eq is.length 0 last hwide.le h.fits hgap
  obtain rfl : pre = [] := length_eq_zero_iff.mp (hpre.trans (Nat.zero_mul w))
  rw [← h.length, nil_append] at hloop
  rw [hresize, hloop, ok_bind, if_neg (by decide), ← append_nil last, intsetSet_eq _ hlast, ok_bind, append_nil,
    packed_append, packed_cons, packed_nil, append_nil]
  rw [length_packed, h.length]

lemma Intset.Holds.upgrade (hv : Fits 8 v)
    (hwide : is.encoding < intsetValueEncoding v) (junk : Nat → UInt8) :
    ∃ is' a b, intsetUpgradeAndAdd junk is v = .ok is' ∧ is'.encoding = intsetValueEncoding v ∧ l = a ++ b ∧
      is'.Holds (a ++ v :: b) ∧ v ∉ l := by
  have hcases := intsetValueEncoding_cases v
  have hfit : Fits (intsetValueEncoding v) v := (fits_iff hcases hv).mpr le_rfl
  have hunfit : ¬ Fits is.encoding v := fun hfit => absurd hwide (not_lt.mpr ((fits_iff h.width hv).mp hfit))
  have hout : ∀ x ∈ l, if v < 0 then v < x else x < v := fun x hx => outside (h.fits x hx) hunfit
  have hfits : ∀ x ∈ l, Fits (intsetValueEncoding v) x := fun x hx => fits_mono hwide.le (h.fits x hx)
  have hnot : v ∉ l := fun hmem => hunfit (h.fits v hmem)
  by_cases hneg : v < 0
  · refine ⟨_, [], l, h.upgrade_first small hwide hneg junk, rfl, rfl, ⟨hcases, ?_, rfl, ?_, ?_⟩, hnot⟩
    · rw [nil_append, length_cons, ← h.length]
    · exact forall_mem_cons.mpr ⟨hfit, hfits⟩
    · refine pairwise_cons.mpr ⟨fun x hx => ?_, h.sorted⟩
      have := hout x hx
      rwa [if_pos hneg] at this
  refine ⟨_, l, [], h.upgrade_last small hwide hneg junk, rfl, (append_nil l).symm, ⟨hcases, ?_, rfl, ?_, ?_⟩, hnot⟩
  · rw [length_append, length_singleton, ← h.length]
  · exact forall_mem_append.mpr ⟨hfits, forall_mem_singleton.mpr hfit⟩
  · refine pairwise_append.mpr ⟨h.sorted, pairwise_singleton _ _, fun x hx y hy => ?_⟩
    have := hout x hx
    rw [if_neg hneg] at this
    rwa [mem_singleton.mp hy]

end

/-! ### Operations -/

/-- The set of integers that an intset is to be, with the flag whether it changes. -/
def setStep (S : Finset Int) : IntsetOp → Finset Int × Bool
  | .add value => (insert value.toInt S, decide (value.toInt ∉ S))
  | .remove value => (S.erase value.toInt, decide (value.toInt ∈ S))

lemma fits_int64 (value : Int64) : Fits 8 value.toInt := by
  have low := value.le_toInt
  have high := value.toInt_lt
  exact ⟨by norm_num at *; omega, by norm_num at *; omega⟩

lemma Intset.Holds.card (h : is.Holds l) : l.toFinset.card = l.length :=
  toFinset_card_of_nodup (h.sorted.imp fun hlt => hlt.ne)

lemma toFinset_insert : (a ++ v :: b).toFinset = insert v (a ++ b).toFinset := by
  ext x
  simp only [mem_toFinset, mem_append, mem_cons, Finset.mem_insert]
  tauto

lemma Intset.Holds.add (h : is.Holds l) {value : Int64} (small : (insert value.toInt l.toFinset).card < 2 ^ 29)
    (junk : Nat → UInt8) :
    ∃ is' l', intsetAdd junk is value.toInt = .ok (is', decide (value.toInt ∉ l.toFinset)) ∧ is'.Holds l' ∧
      l'.toFinset = insert value.toInt l.toFinset ∧ is.encoding ≤ is'.encoding := by
  have hv := fits_int64 value
  generalize value.toInt = v at *
  have hroom : v ∉ l → l.length + 1 < 2 ^ 29 := fun hnot => by
    rwa [Finset.card_insert_of_notMem (by rwa [mem_toFinset]), h.card] at small
  rw [intsetAdd]
  split
  case isTrue hwide =>
    have hnot : v ∉ l := fun hmem => absurd ((fits_iff h.width hv).mp (h.fits v hmem)) (not_le.mpr hwide)
    obtain ⟨is', a, b, hup, henc, rfl, holds, -⟩ := h.upgrade (hroom hnot) hv hwide junk
    refine ⟨is', _, ?_, holds, toFinset_insert, henc ▸ hwide.le⟩
    rw [hup, ok_bind, decide_eq_true (by rwa [mem_toFinset])]
  case isFalse hwide =>
    have hfit := (fits_iff h.width hv).mpr (not_lt.mp hwide)
    have hlen : l.length < 2 ^ 29 := by
      rw [← h.card]
      exact (Finset.card_le_card (Finset.subset_insert v _)).trans_lt small
    obtain ⟨r, hr, searched⟩ := (h.search (by omega) v).returns
    rw [hr, ok_bind]
    cases searched with
    | @found a b hl =>
      have hmem : v ∈ l.toFinset := by
        rw [mem_toFinset, hl]
        exact mem_append_right _ (mem_cons_self ..)
      refine ⟨is, l, ?_, h, (Finset.insert_eq_of_mem hmem).symm, le_rfl⟩
      rw [decide_eq_false (not_not.mpr hmem)]
      rfl
    | @missing a b hl smaller larger =>
      subst hl
      have hnot := notMem_between smaller larger
      have hsmall := hroom hnot
      obtain ⟨is', hadd, holds, henc⟩ := h.addAt hsmall hfit smaller larger junk
      refine ⟨is', _, ?_, holds, toFinset_insert, henc.ge⟩
      rw [decide_eq_true (by rwa [mem_toFinset])]
      show (intsetAddAt junk is a.length v >>= fun is => .ok (is, true)) = _
      rw [hadd, ok_bind]

lemma Intset.Holds.lookup (h : is.Holds l) (small : l.length < 2 ^ 29) (hv : Fits 8 v) :
    Sat NoFault (fun r => (r.1 = true → ∃ a b, l = a ++ v :: b ∧ r.2 = a.length) ∧ (r.1 = false → v ∉ l))
      (intsetLookup is v) := by
  rw [intsetLookup]
  split
  case isTrue =>
    refine (h.search (by omega) v).mono fun r searched => ?_
    cases searched with
    | @found a b hl => exact ⟨fun _ => ⟨a, b, hl, rfl⟩, nofun⟩
    | @missing a b hl smaller larger =>
      subst hl
      exact ⟨nofun, fun _ => notMem_between smaller larger⟩
  case isFalse hwide => exact ⟨nofun, fun _ hmem => hwide ((fits_iff h.width hv).mp (h.fits v hmem))⟩

lemma Intset.Holds.remove (h : is.Holds l) (small : l.length < 2 ^ 29) (value : Int64) (junk : Nat → UInt8) :
    ∃ is' l', intsetRemove junk is value.toInt = .ok (is', decide (value.toInt ∈ l.toFinset)) ∧ is'.Holds l' ∧
      l'.toFinset = l.toFinset.erase value.toInt ∧ is.encoding ≤ is'.encoding := by
  obtain ⟨⟨found, pos⟩, hlookup, hfound, hmissing⟩ := (h.lookup small (fits_int64 value)).returns
  generalize value.toInt = v at *
  rw [intsetRemove, hlookup, ok_bind]
  cases found with
  | true =>
    obtain ⟨a, b, rfl, hpos⟩ := hfound rfl
    obtain ⟨is', hremove, holds, henc⟩ := h.removeAt small junk
    have hnot : v ∉ (a ++ b).toFinset := by
      have nodup : (a ++ v :: b).Nodup := h.sorted.imp fun hlt => hlt.ne
      rw [mem_toFinset]
      exact (nodup_cons.mp (nodup_middle.mp nodup)).1
    refine ⟨is', a ++ b, ?_, holds, ?_, henc.ge⟩
    · rw [decide_eq_true (by simp)]
      show (intsetRemoveAt junk is pos >>= fun is => .ok (is, true)) = _
      rw [show pos = a.length from hpos, hremove, ok_bind]
    · rw [toFinset_insert, Finset.erase_insert hnot]
  | false =>
    have hnot : v ∉ l.toFinset := by
      rw [mem_toFinset]
      exact hmissing rfl
    refine ⟨is, l, ?_, h, (Finset.erase_eq_of_notMem hnot).symm, le_rfl⟩
    rw [decide_eq_false hnot]
    rfl

lemma Intset.Holds.step (h : is.Holds l) (call : (Nat → UInt8) × IntsetOp) (small : l.length < 2 ^ 29)
    (small' : (setStep l.toFinset call.2).1.card < 2 ^ 29) :
    ∃ is' l', intsetStep is call = .ok (is', (setStep l.toFinset call.2).2) ∧ is'.Holds l' ∧
      l'.toFinset = (setStep l.toFinset call.2).1 ∧ is.encoding ≤ is'.encoding := by
  obtain ⟨junk, op⟩ := call
  cases op with
  | add value => exact h.add small' junk
  | remove value => exact h.remove small value junk

/-- The set that operations lead to has fewer elements than an intset can have, after each of them. -/
def StaysSmall (S : Finset Int) (ops : List IntsetOp) : Prop :=
  ∀ before, before <+: ops → (follow setStep S before).1.card < 2 ^ 29

lemma StaysSmall.cons {S : Finset Int} {op : IntsetOp} {ops : List IntsetOp} (h : StaysSmall S (op :: ops)) :
    S.card < 2 ^ 29 ∧ StaysSmall (setStep S op).1 ops :=
  ⟨h [] (List.nil_prefix ..), fun before hprefix => h (op :: before) (cons_prefix_cons.mpr ⟨rfl, hprefix⟩)⟩

lemma Intset.Holds.run (calls : List ((Nat → UInt8) × IntsetOp)) (h : is.Holds l)
    (small : StaysSmall l.toFinset (calls.map Prod.snd)) :
    ∃ is' l', exec intsetStep is calls = .ok (is', (follow setStep l.toFinset (calls.map Prod.snd)).2) ∧ is'.Holds l' ∧
      l'.toFinset = (follow setStep l.toFinset (calls.map Prod.snd)).1 ∧ is.encoding ≤ is'.encoding := by
  induction calls generalizing is l with
  | nil => exact ⟨is, l, rfl, h, rfl, le_rfl⟩
  | cons call calls ih =>
    obtain ⟨hlen, hrest⟩ := small.cons
    rw [h.card] at hlen
    obtain ⟨is₁, l₁, hstep, holds₁, hset₁, henc₁⟩ := h.step call hlen (hrest [] (List.nil_prefix ..))
    rw [← hset₁] at hrest
    obtain ⟨is₂, l₂, hrun, holds₂, hset₂, henc₂⟩ := ih holds₁ hrest
    rw [hset₁] at hrun hset₂
    refine ⟨is₂, l₂, ?_, holds₂, hset₂, henc₁.trans henc₂⟩
    rw [exec, hstep]
    dsimp only
    rw [hrun]
    rfl

/-- For all that reads it the intset is the set: sorted, within the encoding, and every value found iff in the set. -/
structure Intset.Agrees (is : Intset) (S : Finset Int) : Prop where
  len : intsetLen is = S.card
  get : ∃ l : List Int, l.Pairwise (· < ·) ∧ l.toFinset = S ∧ ∀ pos, intsetGet is pos = .ok l[pos]?
  find : ∀ value : Int64, intsetFind is value.toInt = .ok (decide (value.toInt ∈ S))
  wide : ∀ v ∈ S, intsetValueEncoding v ≤ is.encoding
  bytes : is.contents.length = intsetLen is * is.encoding

lemma Intset.Holds.agrees (h : is.Holds l) (small : l.length < 2 ^ 29) : is.Agrees l.toFinset where
  len := h.length.trans h.card.symm
  get := by
    refine ⟨l, h.sorted, rfl, fun pos => ?_⟩
    rw [intsetGet]
    split
    case isTrue hlt =>
      obtain ⟨v, hv⟩ : ∃ v, l[pos]? = some v := ⟨_, getElem?_eq_getElem (h.length ▸ hlt)⟩
      rw [h.getAt_of_getElem? hv, ok_bind, hv]
    case isFalse hge => rw [getElem?_eq_none (by rw [← h.length]; exact not_lt.mp hge)]
  find value := by
    obtain ⟨⟨found, pos⟩, hlookup, hfound, hmissing⟩ := (h.lookup small (fits_int64 value)).returns
    rw [intsetFind, hlookup, ok_bind]
    cases found with
    | true =>
      obtain ⟨a, b, rfl, -⟩ := hfound rfl
      rw [decide_eq_true (by simp)]
    | false => rw [decide_eq_false (by rw [mem_toFinset]; exact hmissing rfl)]
  wide v hv := by
    have hfit := h.fits v (mem_toFinset.mp hv)
    exact (fits_iff h.width (fits_mono h.width_le hfit)).mp hfit
  bytes := by
    rw [h.contents, length_packed, intsetLen, h.length]

lemma intsetNew_holds : intsetNew.Holds [] :=
  ⟨.inl rfl, rfl, rfl, forall_mem_nil _, .nil⟩

/-- From a new intset every sequence of additions and removals is carried out on the set, flags included; the intset
then agrees with the set, and more operations never narrow its encoding. -/
theorem intset_refines_set (calls more : List ((Nat → UInt8) × IntsetOp))
    (small : StaysSmall ∅ (calls.map Prod.snd))
    (small' : StaysSmall (follow setStep ∅ (calls.map Prod.snd)).1 (more.map Prod.snd)) :
    ∃ is is' flags, exec intsetStep intsetNew calls = .ok (is, (follow setStep ∅ (calls.map Prod.snd)).2) ∧
      is.Agrees (follow setStep ∅ (calls.map Prod.snd)).1 ∧
      exec intsetStep is more = .ok (is', flags) ∧ is.encoding ≤ is'.encoding := by
  obtain ⟨is, l, hrun, holds, hset, -⟩ := intsetNew_holds.run calls small
  rw [toFinset_nil] at hrun hset
  rw [← hset] at small' ⊢
  obtain ⟨is', l', hrun', -, -, henc⟩ := holds.run more small'
  have hlen := small' [] (List.nil_prefix ..)
  exact ⟨is, is', _, hrun, holds.agrees (by rwa [← holds.card]), hrun', henc⟩

lemma card_follow_le (S : Finset Int) (ops : List IntsetOp) : (follow setStep S ops).1.card ≤ S.card + ops.length := by
  induction ops generalizing S with
  | nil => exact le_rfl
  | cons op ops ih =>
    have hstep : (setStep S op).1.card ≤ S.card + 1 := by
      cases op with
      | add value => exact Finset.card_insert_le ..
      | remove value => exact (Finset.card_erase_le).trans (Nat.le_succ _)
    have hrest := ih (setStep S op).1
    rw [length_cons]
    exact hrest.trans (by omega)

lemma staysSmall_of_length {S ops} (h : S.card + ops.length < 2 ^ 29) :
    StaysSmall S ops := by
  intro before hprefix
  have hle := card_follow_le S before
  have hlen := hprefix.length_le
  omega

/-- Additions that upgrade the encoding twice, at both ends, and removals. -/
def upgradeCalls : List ((Nat → UInt8) × IntsetOp) :=
  [(fun _ => 7, .add 5), (fun _ => 7, .add (-3)), (fun _ => 7, .add 5), (fun _ => 7, .add 40000),
    (fun _ => 7, .remove 9), (fun _ => 7, .remove (-3)), (fun _ => 7, .add (-5000000000)), (fun _ => 7, .remove 40000)]

theorem intset_refines_set_upgrade :
    ∃ is is' flags, exec intsetStep intsetNew upgradeCalls =
        .ok (is, [true, true, false, true, false, true, true, true]) ∧ is.Agrees {-5000000000, 5} ∧
      exec intsetStep is [(fun _ => 7, .remove 5)] = .ok (is', flags) ∧ is.encoding ≤ is'.encoding := by
  have small : StaysSmall ∅ (upgradeCalls.map Prod.snd) := staysSmall_of_length (by decide)
  have small' : StaysSmall (follow setStep ∅ (upgradeCalls.map Prod.snd)).1 [.remove 5] :=
    staysSmall_of_length (by decide)
  exact intset_refines_set upgradeCalls [(fun _ => 7, .remove 5)] small small'

end JitRedis
