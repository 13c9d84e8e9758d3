import JitRedis.Lib.Fallible
import JitRedis.Lib.Buckets
import JitRedis.Dict.Model

/-!
# The dict invariant

`Dict.Refines hash d m` ties a dict to the finite map `m` that it stands for: both tables are well
formed, their entries together represent `m`, and while a rehash is in progress the buckets of `ht[0]`
below `rehashidx` are empty. One lemma per function of `dict.c` says that it keeps the invariant and
what it answers in terms of `m`; the faults `assertFailed` and `badAccess` are thereby unreachable.
-/

namespace JitRedis

open Fallible Buckets Dict
open scoped List

variable {K V : Type} {hash : K → BitVec 64}

def Dictht.entries (t : Dictht K V) : List (DictEntry K V) := t.table.flatten

def Dict.entries (d : Dict K V) : List (DictEntry K V) := d.ht0.entries ++ d.ht1.entries

/-- A table has a power of two of buckets or none, counts its entries and keeps each in the bucket of its key. -/
structure Dictht.Wf (hash : K → BitVec 64) (t : Dictht K V) : Prop where
  length : t.table.length = t.size
  mask : t.sizemask = t.size - 1
  size : t.size = 0 ∨ ∃ n, n ≤ 60 ∧ t.size = 2 ^ n
  used : t.used = t.entries.length
  placed : ∀ (i : Nat) b, t.table[i]? = some b → ∀ e ∈ b, t.slot hash e.key = i

/-- The dict `d` stands for the map `m`. -/
structure Dict.Refines (hash : K → BitVec 64) (d : Dict K V) (m : K → Option (Option V)) : Prop where
  ht0 : d.ht0.Wf hash
  ht1 : d.ht1.Wf hash
  rep : Represents DictEntry.key DictEntry.val d.entries m
  idle : ¬ d.isRehashing → d.ht1 = dictReset
  range : d.isRehashing → 0 ≤ d.rehashidx ∧ d.rehashidx ≤ d.ht0.size
  live : d.isRehashing → 0 < d.ht0.size ∧ 0 < d.ht1.size
  moved : d.isRehashing → ∀ i : Nat, (i : Int) < d.rehashidx → d.ht0.table[i]? = some []
  room : d.dictSize * 24 < addressSpace

lemma Dictht.Wf.reset : (dictReset : Dictht K V).Wf hash where
  length := rfl
  mask := rfl
  size := .inl rfl
  used := rfl
  placed i b h := by simp [dictReset] at h

lemma Dictht.Wf.fresh {n} (hn : n ≤ 60) :
    ({ table := List.replicate (2 ^ n) [], size := 2 ^ n, sizemask := 2 ^ n - 1, used := 0 } :
      Dictht K V).Wf hash where
  length := by simp
  mask := rfl
  size := .inr ⟨n, hn, rfl⟩
  used := by simp [Dictht.entries]
  placed i b h e he := by
    rw [List.getElem?_replicate] at h
    split at h
    · simp only [Option.some.injEq] at h
      subst h
      simp at he
    · cases h

variable {t : Dictht K V} {d : Dict K V}

lemma Dictht.Wf.slot_lt (wf : t.Wf hash) (pos : 0 < t.size) (k : K) :
    t.slot hash k < t.table.length := by
  obtain h | ⟨n, _, h⟩ := wf.size
  · omega
  · rw [wf.length, Dictht.slot, wf.mask, h]
    exact Nat.and_lt_two_pow _ (Nat.sub_lt (Nat.two_pow_pos n) one_pos)

lemma Dictht.Wf.bucket (wf : t.Wf hash) (pos : 0 < t.size) (k : K) :
    ∃ b, t.table[t.slot hash k]? = some b :=
  ⟨_, List.getElem?_eq_getElem (wf.slot_lt pos k)⟩

lemma Dictht.Wf.mem_bucket (wf : t.Wf hash) {e}
    (he : e ∈ t.entries) {b} (hb : t.table[t.slot hash e.key]? = some b) : e ∈ b := by
  obtain ⟨i, c, hc, hec⟩ := mem_flatten he
  have hi := wf.placed i c hc e hec
  rw [hi, hc] at hb
  cases hb
  exact hec

lemma Dictht.Wf.modify (wf : t.Wf hash) {i} {b}
    (hb : t.table[i]? = some b) {f} {u}
    (hf : ∀ e ∈ f b, t.slot hash e.key = i) (hu : u + b.length = t.used + (f b).length) :
    ({ t with table := t.table.modify i f, used := u } : Dictht K V).Wf hash where
  length := by simp [wf.length]
  mask := wf.mask
  size := wf.size
  used := by
    obtain ⟨rest, p1, p2⟩ := flatten_modify f hb
    have l1 := p1.length_eq
    have l2 := p2.length_eq
    have l0 := wf.used
    simp only [List.length_append, Dictht.entries] at l0 l1 l2 ⊢
    omega
  placed j c hc e he := by
    simp only [List.getElem?_modify] at hc
    cases hj : t.table[j]? with
    | none => simp [hj] at hc
    | some c' =>
      by_cases hij : i = j
      · subst hij
        rw [hb] at hj
        cases hj
        simp only [hb, if_true, Option.map_eq_map, Option.map_some, Option.some.injEq] at hc
        subst hc
        exact hf e he
      · simp only [hj, hij, if_false, Option.map_eq_map, Option.map_some, Option.some.injEq] at hc
        subst hc
        exact wf.placed j c' hj e he

lemma Dictht.push_spec (wf : t.Wf hash) (pos : 0 < t.size) (e : DictEntry K V) :
    Sat NoFault (fun t' => t'.Wf hash ∧ t'.entries ~ e :: t.entries ∧ t'.size = t.size ∧
      t'.sizemask = t.sizemask ∧ t'.used = t.used + 1 ∧
      ∃ b, t'.table[t.slot hash e.key]? = some (e :: b)) (t.push (t.slot hash e.key) e) := by
  obtain ⟨b, hb⟩ := wf.bucket pos e.key
  rw [Dictht.push, if_pos (wf.slot_lt pos e.key)]
  refine ⟨?_, ?_, rfl, rfl, rfl, b, ?_⟩
  · apply wf.modify hb
    · intro e' he'
      rcases List.mem_cons.mp he' with h | h
      · rw [h]
      · exact wf.placed _ b hb e' h
    · simp only [List.length_cons]
      omega
  · obtain ⟨rest, p1, p2⟩ := flatten_modify (e :: ·) hb
    exact p2.trans (p1.symm.cons e)
  · simp [hb]

lemma moveEntries_spec {es}
    (wf : d.ht1.Wf hash) (pos : 0 < d.ht1.size) :
    Sat NoFault (fun d' => d'.ht1.Wf hash ∧ d'.ht1.entries ~ es ++ d.ht1.entries ∧
      d'.ht1.size = d.ht1.size ∧ d'.ht1.used = d.ht1.used + es.length ∧
      d'.ht0 = { d.ht0 with used := d.ht0.used - es.length } ∧
      d'.rehashidx = d.rehashidx) (moveEntries hash es d) := by
  induction es generalizing d with
  | nil => exact ⟨wf, .refl _, rfl, rfl, rfl, rfl⟩
  | cons e es ih =>
    refine (Dictht.push_spec wf pos e).bind ?_
    rintro t ⟨wf', p, sz, _, us, _⟩
    refine (ih (d := { d with ht0 := { d.ht0 with used := d.ht0.used - 1 }, ht1 := t })
      wf' (by simp only [sz]; exact pos)).mono ?_
    rintro d' ⟨w, q, s, u, h0, ri⟩
    refine ⟨w, ?_, s.trans sz, ?_, ?_, ri⟩
    · refine q.trans ((List.Perm.append_left es p).trans ?_)
      exact List.perm_middle
    · simp only [u, us, List.length_cons]
      omega
    · rw [h0]
      simp only [List.length_cons, Dictht.mk.injEq, true_and]
      omega

lemma skipEmptyBuckets_spec {l : List (List (DictEntry K V))} {idx : Nat} {visits : Int}
    (ne : l.flatten ≠ []) :
    Sat NoFault (fun r => match r with
      | .exhausted j => idx ≤ j ∧ j ≤ idx + l.length ∧ ∀ i, idx + i < j → l[i]? = some []
      | .found j b _ => idx ≤ j ∧ l[j - idx]? = some b ∧ b ≠ [] ∧
          ∀ i, idx + i < j → l[i]? = some []) (skipEmptyBuckets l idx visits) := by
  induction l generalizing idx visits with
  | nil => exact absurd rfl ne
  | cons b l ih =>
    cases b with
    | nil =>
      rw [skipEmptyBuckets]
      split
      · refine ⟨by omega, by simp only [List.length_cons]; omega, fun i hi => ?_⟩
        obtain rfl : i = 0 := by omega
        rfl
      refine (@ih (idx + 1) (visits - 1) (by simpa using ne)).mono ?_
      rintro (j | ⟨j, b, v⟩)
      · rintro ⟨h1, h2, h3⟩
        refine ⟨by omega, by simp only [List.length_cons]; omega, fun i hi => ?_⟩
        cases i with
        | zero => rfl
        | succ i => exact h3 i (by omega)
      rintro ⟨h1, h2, h3, h4⟩
      refine ⟨by omega, ?_, h3, fun i hi => ?_⟩
      · rw [show j - idx = (j - (idx + 1)) + 1 by omega]
        exact h2
      · cases i with
        | zero => rfl
        | succ i => exact h4 i (by omega)
    | cons e b =>
      exact ⟨le_rfl, by simp, by simp, fun i hi => by omega⟩

lemma Dict.Refines.unmoved {m} (ref : d.Refines hash m) (reh : d.isRehashing)
    (ne : d.ht0.used ≠ 0) :
    d.rehashidx < d.ht0.size ∧ (d.ht0.table.drop d.rehashidx.toNat).flatten ≠ [] := by
  have hlen : d.ht0.entries ≠ [] := by
    intro h
    rw [ref.ht0.used, h] at ne
    exact ne rfl
  obtain ⟨e, he⟩ := List.exists_mem_of_ne_nil _ hlen
  obtain ⟨i, b, hb, heb⟩ := mem_flatten he
  have hi : d.rehashidx ≤ i := by
    by_contra hlt
    rw [ref.moved reh i (by omega)] at hb
    cases hb
    simp at heb
  have hil := (getElem?_eq_some_iff.mp hb).1
  rw [ref.ht0.length] at hil
  refine ⟨by omega, fun h => ?_⟩
  have hb' : (d.ht0.table.drop d.rehashidx.toNat)[i - d.rehashidx.toNat]? = some b := by
    rw [List.getElem?_drop, ← hb]
    congr 1
    omega
  have : e ∈ (d.ht0.table.drop d.rehashidx.toNat).flatten :=
    List.mem_flatten.mpr ⟨b, List.mem_of_getElem? hb', heb⟩
  rw [h] at this
  simp at this

lemma Dict.Refines.advance {m} (ref : d.Refines hash m) (reh : d.isRehashing)
    {j} (le : j ≤ d.ht0.size)
    (emp : ∀ i, d.rehashidx.toNat + i < j → (d.ht0.table.drop d.rehashidx.toNat)[i]? = some []) :
    ({ d with rehashidx := j } : Dict K V).Refines hash m where
  ht0 := ref.ht0
  ht1 := ref.ht1
  rep := ref.rep
  idle h := absurd (show ¬ ((j : Int) = -1) by omega) h
  range _ := ⟨Int.natCast_nonneg j, Int.ofNat_le.mpr le⟩
  live _ := ref.live reh
  moved _ i hi := by
    have hi' : i < j := Int.ofNat_lt.mp hi
    by_cases h : (i : Int) < d.rehashidx
    · exact ref.moved reh i h
    have := emp (i - d.rehashidx.toNat) (by omega)
    rw [List.getElem?_drop] at this
    rw [← this]
    congr 1
    omega
  room := ref.room

lemma Dict.Refines.move {d' : Dict K V} {m} (ref : d.Refines hash m) (reh : d.isRehashing)
    {j : Nat} {b : List (DictEntry K V)} (hb : d.ht0.table[j]? = some b)
    (emp : ∀ i < j, d.ht0.table[i]? = some [])
    (h0 : d'.ht0 = { d.ht0 with used := d.ht0.used - b.length })
    (wf1 : d'.ht1.Wf hash) (p1 : d'.ht1.entries ~ b ++ d.ht1.entries)
    (sz1 : d'.ht1.size = d.ht1.size) (us1 : d'.ht1.used = d.ht1.used + b.length) :
    ({ d' with ht0 := { d'.ht0 with table := d'.ht0.table.set j [] }, rehashidx := j + 1 } :
      Dict K V).Refines hash m := by
  obtain ⟨rest, q1, q2⟩ := flatten_modify (fun _ => ([] : List (DictEntry K V))) hb
  have hu : d.ht0.used - b.length + b.length = d.ht0.used := by
    have := q1.length_eq
    have := ref.ht0.used
    simp only [Dictht.entries, List.length_append] at *
    omega
  have hjl : j < d.ht0.size := by
    rw [← ref.ht0.length]
    exact (List.getElem?_eq_some_iff.mp hb).1
  constructor
  · simp only [h0, List.set_eq_modify]
    exact ref.ht0.modify hb (by simp) (by simpa using hu)
  · exact wf1
  · refine ref.rep.perm ?_
    simp only [entries, Dictht.entries, h0, List.set_eq_modify]
    calc d.ht0.table.flatten ++ d.ht1.table.flatten
        ~ (b ++ rest) ++ d.ht1.table.flatten := q1.append_right _
      _ ~ rest ++ (b ++ d.ht1.table.flatten) := by
          rw [List.append_assoc]
          exact List.perm_append_comm_assoc b rest _
      _ ~ rest ++ d'.ht1.table.flatten := p1.symm.append_left _
      _ ~ (d.ht0.table.modify j fun _ => []).flatten ++ d'.ht1.table.flatten :=
          q2.symm.append_right _
  · intro h
    exact absurd (show ¬ ((j : Int) + 1 = -1) by omega) h
  · intro _
    simp only [h0]
    omega
  · intro _
    simp only [h0, sz1]
    exact ref.live reh
  · intro _ i hi
    simp only [h0, List.getElem?_set]
    by_cases hij : j = i
    · subst hij
      simp [ref.ht0.length, hjl]
    · simp only [hij, if_false]
      have hi' : (i : Int) < (j : Int) + 1 := hi
      exact emp i (by omega)
  · have := ref.room
    simp only [dictSize, h0, us1] at this ⊢
    omega

lemma rehashLoop_spec {fuel : Nat} {n visits : Int} {m}
    (ref : d.Refines hash m) (reh : d.isRehashing) (hf : d.ht0.used < fuel) :
    Sat NoFault (fun p => p.1.Refines hash m ∧ p.1.isRehashing)
      (rehashLoop hash fuel n visits d) := by
  induction fuel generalizing n visits d with
  | zero => omega
  | succ fuel ih =>
    rw [rehashLoop]
    split
    · exact ⟨ref, reh⟩
    rename_i hstop
    obtain ⟨hlt, hne⟩ := ref.unmoved reh (fun h => hstop (.inr h))
    rw [if_neg (not_not.mpr hlt)]
    refine (skipEmptyBuckets_spec hne).bind ?_
    rintro (j | ⟨j, b, v⟩)
    · rintro ⟨h1, h2, h3⟩
      rw [List.length_drop, ref.ht0.length] at h2
      refine ⟨ref.advance reh (by omega) h3, ?_⟩
      simp only [isRehashing]
      omega
    rintro ⟨h1, h2, h3, h4⟩
    rw [List.getElem?_drop, Nat.add_sub_cancel' h1] at h2
    refine (moveEntries_spec ref.ht1 (ref.live reh).2).bind ?_
    rintro d' ⟨wf1, p1, sz1, us1, h0, -⟩
    apply ih
    · refine ref.move reh h2 (fun i hi => ?_) h0 wf1 p1 sz1 us1
      by_cases hr : (i : Int) < d.rehashidx
      · exact ref.moved reh i hr
      have := h4 (i - d.rehashidx.toNat) (by omega)
      rw [List.getElem?_drop] at this
      rw [← this]
      congr 1
      omega
    · simp only [isRehashing]
      omega
    · have hb := List.length_pos_of_ne_nil h3
      simp only [h0]
      omega

lemma dictRehash_spec {n} {m} (ref : d.Refines hash m) :
    Sat NoFault (fun p => p.1.Refines hash m ∧ (0 < d.ht0.size → 0 < p.1.ht0.size))
      (dictRehash hash d n) := by
  rw [dictRehash]
  split
  · exact ⟨ref, id⟩
  rename_i reh
  rw [not_not] at reh
  refine (rehashLoop_spec ref reh (Nat.lt_succ_self _)).bind ?_
  rintro ⟨d', early⟩ ⟨ref', reh'⟩
  cases early with
  | true => exact ⟨ref', fun _ => (ref'.live reh').1⟩
  | false =>
    simp only [Bool.false_eq_true, if_false]
    split_ifs with hu
    · have emp : d'.ht0.entries = [] := by
        rw [ref'.ht0.used] at hu
        exact List.length_eq_zero_iff.mp hu
      refine ⟨⟨ref'.ht1, .reset, ?_, fun _ => rfl, ?_, ?_, ?_, ?_⟩, fun _ => (ref'.live reh').2⟩
      · refine ref'.rep.perm ?_
        rw [entries, entries, emp]
        simp [dictReset, Dictht.entries]
      all_goals simp only [isRehashing, ne_eq, not_true_eq_false, false_implies]
      have := ref'.room
      simp only [dictSize, dictReset] at this ⊢
      omega
    · exact ⟨ref', fun _ => (ref'.live reh').1⟩

lemma dictRehashStep_spec {m} (ref : d.Refines hash m) :
    Sat NoFault (fun d' => d'.Refines hash m ∧ (0 < d.ht0.size → 0 < d'.ht0.size))
      (dictRehashStep hash d) := by
  rw [dictRehashStep]
  split
  · refine (dictRehash_spec ref).bind ?_
    rintro ⟨d', _⟩ h
    exact h
  · exact ⟨ref, id⟩

lemma Dict.Refines.size_pos {m} (ref : d.Refines hash m) (ne : d.dictSize ≠ 0) :
    0 < d.ht0.size := by
  by_cases reh : d.isRehashing
  · exact (ref.live reh).1
  rw [dictSize, ref.idle reh] at ne
  by_contra h
  have hs : d.ht0.size = 0 := by omega
  have ht : d.ht0.table = [] := by
    rw [← List.length_eq_zero_iff, ref.ht0.length, hs]
  have hu := ref.ht0.used
  rw [Dictht.entries, ht] at hu
  exact ne hu

lemma nextPowerFrom_spec {size fuel n} (h : size ≤ 2 ^ n * 2 ^ fuel) :
    ∃ k, n ≤ k ∧ nextPowerFrom size fuel (2 ^ n) = 2 ^ k ∧ size ≤ 2 ^ k ∧
      (n < k → 2 ^ k < size * 2) := by
  induction fuel generalizing n with
  | zero => exact ⟨n, le_rfl, rfl, by simpa using h, fun h => by omega⟩
  | succ fuel ih =>
    rw [nextPowerFrom]
    split_ifs with hs
    · exact ⟨n, le_rfl, rfl, hs, fun h => by omega⟩
    obtain ⟨k, h1, h2, h3, h4⟩ :=
      ih (n := n + 1) (by rw [pow_succ 2 n, mul_assoc, ← pow_succ']; exact h)
    refine ⟨k, by omega, h2, h3, fun _ => ?_⟩
    by_cases hk : n + 1 < k
    · exact h4 hk
    · obtain rfl : k = n + 1 := by omega
      omega

/-- A power of two, at least 4 and at least the size asked for (up to `LONG_MAX`), but not twice as much. -/
lemma dictNextPower_spec (size : Nat) :
    ∃ k, 2 ≤ k ∧ dictNextPower size = 2 ^ k ∧
      (size < longMax → size ≤ 2 ^ k ∧ (2 < k → 2 ^ k < size * 2)) := by
  rw [dictNextPower]
  split_ifs with h
  · exact ⟨63, by norm_num, by norm_num [longMax], fun h' => by omega⟩
  have h66 : size ≤ 2 ^ 2 * 2 ^ 64 := by
    rw [longMax] at h
    omega
  obtain ⟨k, h1, h2, h3, h4⟩ := nextPowerFrom_spec h66
  exact ⟨k, h1, h2, fun _ => ⟨h3, h4⟩⟩

/-- `dictExpand` gets past its guards and the byte count of the new table wraps. -/
def Dict.ExpandWraps (d : Dict K V) (size : Nat) : Prop :=
  ¬ d.isRehashing ∧ d.ht0.used ≤ size ∧ dictNextPower size ≠ d.ht0.size ∧
    2 ^ 64 ≤ dictNextPower size * 8

instance (d : Dict K V) (size : Nat) : Decidable (d.ExpandWraps size) :=
  inferInstanceAs (Decidable (_ ∧ _ ∧ _ ∧ _))

lemma Dict.not_expandWraps {size} (h : size ≤ 2 ^ 60) :
    ¬ d.ExpandWraps size := by
  rintro ⟨-, -, -, hw⟩
  obtain ⟨k, -, hk, hle⟩ := dictNextPower_spec size
  have h2 := (hle (by rw [longMax]; omega)).2
  have hk60 : k ≤ 60 := by
    by_contra hgt
    omega
  have : 2 ^ k ≤ 2 ^ 60 := Nat.pow_le_pow_right (by norm_num) hk60
  omega

/-- `dictExpand` keeps the invariant and the map, unless the byte count wraps. -/
lemma dictExpand_spec {m} (ref : d.Refines hash m) {size}
    (nw : ¬ d.ExpandWraps size) :
    Sat OnlyOom (fun p => p.1.Refines hash m ∧ (0 < d.ht0.size ∨ p.2 = true → 0 < p.1.ht0.size) ∧
      (¬ d.isRehashing → d.ht0.used ≤ size → dictNextPower size ≠ d.ht0.size → p.2 = true))
      (dictExpand d size) := by
  rw [dictExpand]
  split
  · rename_i h
    refine ⟨ref, by simp, fun h1 h2 _ => ?_⟩
    rcases h with h | h
    · exact absurd h h1
    · omega
  rename_i h
  rw [not_or] at h
  simp only
  split
  · rename_i heq
    exact ⟨ref, by simp, fun _ _ h3 => absurd heq h3⟩
  rename_i hne
  split
  · rfl
  obtain ⟨k, hk2, hk, _⟩ := dictNextPower_spec size
  have hw : dictNextPower size * 8 < 2 ^ 64 := by
    by_contra hge
    exact nw ⟨h.1, Nat.not_lt.mp h.2, hne, Nat.not_lt.mp hge⟩
  have hk60 : k ≤ 60 := by
    by_contra hgt
    have : 2 ^ 61 ≤ 2 ^ k := Nat.pow_le_pow_right (by norm_num) (by omega)
    omega
  rw [dictTableBytes, Nat.mod_eq_of_lt hw, Nat.mul_div_cancel _ (by norm_num), hk]
  have emp1 : d.ht1.entries = [] := by
    rw [ref.idle h.1]
    rfl
  have use1 : d.ht1.used = 0 := by
    rw [ref.idle h.1]
    rfl
  have room := ref.room
  split
  · rename_i hz
    have emp0 : d.ht0.entries = [] := by
      have := ref.ht0.length
      rw [hz, List.length_eq_zero_iff] at this
      rw [Dictht.entries, this]
      rfl
    refine ⟨⟨.fresh hk60, ref.ht1, ?_, ref.idle, ?_, ?_, ?_, ?_⟩, ?_, fun _ _ _ => rfl⟩
    · refine ref.rep.perm ?_
      rw [entries, entries, emp0]
      simp [Dictht.entries]
    · exact fun h' => absurd h' h.1
    · exact fun h' => absurd h' h.1
    · exact fun h' => absurd h' h.1
    · simp only [dictSize] at room ⊢
      omega
    · intro _
      exact Nat.two_pow_pos k
  · rename_i hz
    have hpos : 0 < d.ht0.size := Nat.pos_of_ne_zero hz
    refine ⟨⟨ref.ht0, .fresh hk60, ?_, ?_, ?_, ?_, ?_, ?_⟩, fun _ => hpos, fun _ _ _ => rfl⟩
    · refine ref.rep.perm ?_
      rw [entries, entries, emp1]
      simp [Dictht.entries]
    · intro h'
      simp [isRehashing] at h'
    · intro _
      exact ⟨le_rfl, Int.natCast_nonneg _⟩
    · intro _
      exact ⟨hpos, Nat.two_pow_pos k⟩
    · intro _ i hi
      simp only at hi
      omega
    · simp only [dictSize, use1] at room ⊢
      omega

lemma dictResize_spec {canResize} {m} (ref : d.Refines hash m) :
    Sat OnlyOom (fun p => p.1.Refines hash m) (dictResize canResize d) := by
  rw [dictResize]
  split
  · exact ref
  refine (dictExpand_spec ref (not_expandWraps ?_)).mono fun _ h => h.1
  -- An `int` holds the number of buckets asked for.
  have := Int.bmod_lt (x := (d.ht0.used : Int)) (m := 2 ^ 32) (by norm_num)
  apply Int.toNat_le.mpr
  split
  · norm_num [dictHtInitialSize]
  · omega

lemma dictExpandIfNeeded_spec {canResize} {m} (ref : d.Refines hash m) :
    Sat OnlyOom (fun p => p.1.Refines hash m ∧ 0 < p.1.ht0.size ∧ p.2 = true)
      (dictExpandIfNeeded canResize d) := by
  rw [dictExpandIfNeeded]
  split
  · rename_i reh
    exact ⟨ref, (ref.live reh).1, rfl⟩
  rename_i reh
  split
  · rename_i hs
    have hu : d.ht0.used = 0 := by
      by_contra h
      have := ref.size_pos (by rw [dictSize]; omega)
      omega
    refine (dictExpand_spec ref (not_expandWraps (?_ : dictHtInitialSize ≤ _))).mono ?_
    · norm_num [dictHtInitialSize]
    rintro p ⟨h1, h2, h3⟩
    have hp : p.2 = true := by
      apply h3 reh
      · rw [hu]
        exact Nat.zero_le _
      · rw [hs]
        decide
    exact ⟨h1, h2 (.inr hp), hp⟩
  · rename_i hs
    split_ifs with hfull
    · have room := ref.room
      rw [dictSize, addressSpace] at room
      have nw : ¬ d.ExpandWraps (d.ht0.used * 2) := not_expandWraps (by omega)
      refine (dictExpand_spec ref nw).mono ?_
      rintro p ⟨h1, h2, h3⟩
      have hp : p.2 = true := by
        refine h3 reh (by omega) ?_
        -- The doubled size exceeds the current one, so it cannot be refused as equal.
        obtain ⟨k, _, hk, hle⟩ := dictNextPower_spec (d.ht0.used * 2)
        have := (hle (by rw [longMax]; omega)).1
        omega
      exact ⟨h1, h2 (.inr hp), hp⟩
    · exact ⟨ref, Nat.pos_of_ne_zero hs, rfl⟩

end JitRedis
