import JitRedis.Lib.BitOrder
import JitRedis.Dict.Refinement

/-!
# Scanning a dict with a stateless cursor

Model of `rev` and `dictScan` of `src/dict.c`, and the proof that a scan misses no key that stays in
the dict, however the tables grow, shrink or are half rehashed between its calls. The cursor is
ordered by its reversed bits: the invariant is that every present key whose hash lies below the cursor
in that order has been emitted. `bucketfn`, which reports bucket addresses, is not modelled.
-/

namespace JitRedis

open Fallible BitOrder List

variable {K V : Type} {hash : K → BitVec 64}

/-- Swap neighbouring groups of `s` bits; `mask` selects the lower group of each pair. -/
def swapGroups (s : Nat) (mask v : BitVec 64) : BitVec 64 :=
  ((v >>> s) &&& mask) ||| ((v <<< s) &&& ~~~mask)

/-- The loop of `rev`, with the bits to swap halved in every turn. -/
def revLoop : Nat → Nat → BitVec 64 → BitVec 64 → BitVec 64
  | 0, _, _, v => v
  | fuel + 1, s, mask, v =>
    let s := s >>> 1
    if s = 0 then v
    else
      let mask := mask ^^^ (mask <<< s)
      revLoop fuel s mask (swapGroups s mask v)

def rev (v : BitVec 64) : BitVec 64 := revLoop 64 64 (BitVec.allOnes 64) v

/-- The entries at the cursor that are passed to the callback. -/
def Dictht.emit (t : Dictht K V) (v : BitVec 64) : Except Fault (List (DictEntry K V)) :=
  match t.table[v.toNat &&& t.sizemask]? with
  | none => .error .badAccess
  | some b => .ok b

/-- Set the unmasked bits and increment the reverse cursor. -/
def scanNext (mask : Nat) (v : BitVec 64) : BitVec 64 :=
  rev (rev (v ||| ~~~(BitVec.ofNat 64 mask)) + 1)

/-- The loop over the indices in the larger table that expand the cursor in the smaller one, with mask `m0`. -/
def scanLarger (t1 : Dictht K V) (m0 : Nat) :
    Nat → BitVec 64 → Except Fault (List (DictEntry K V) × BitVec 64)
  | 0, _ => .error .diverged
  | fuel + 1, v => do
    let b ← t1.emit v
    let v := scanNext t1.sizemask v
    if v &&& BitVec.ofNat 64 (m0 ^^^ t1.sizemask) ≠ 0 then do
      let (es, v) ← scanLarger t1 m0 fuel v
      .ok (b ++ es, v)
    else
      .ok (b, v)

/-- The branch of `dictScan` for two tables, `t0` the smaller and `t1` the bigger one. -/
def scanTables (t0 t1 : Dictht K V) (v : BitVec 64) :
    Except Fault (List (DictEntry K V) × BitVec 64) := do
  let b ← t0.emit v
  let (es, v) ← scanLarger t1 t0.sizemask t1.size v
  .ok (b ++ es, v)

/-- `dictScan`: the entries passed to the callback and the next cursor. -/
def dictScan (d : Dict K V) (v : BitVec 64) : Except Fault (List (DictEntry K V) × BitVec 64) :=
  if d.dictSize = 0 then
    .ok ([], 0)
  else if ¬ d.isRehashing then do
    let b ← d.ht0.emit v
    .ok (b, scanNext d.ht0.sizemask v)
  else if d.ht1.size < d.ht0.size then
    scanTables d.ht1 d.ht0 v
  else
    scanTables d.ht0 d.ht1 v

lemma getLsbD_swapGroups {v mask : BitVec 64} {s i : Nat} (hi : i < 64)
    (hs : if mask.getLsbD i then s + i = i ^^^ s else s ≤ i ∧ i - s = i ^^^ s) :
    (swapGroups s mask v).getLsbD i = v.getLsbD (i ^^^ s) := by
  cases hm : mask.getLsbD i with
  | true =>
    rw [hm, if_pos rfl] at hs
    simp [swapGroups, hm, hs]
  | false =>
    rw [hm] at hs
    rw [swapGroups, BitVec.getLsbD_or, BitVec.getLsbD_and, BitVec.getLsbD_and, BitVec.getLsbD_not, hm,
      BitVec.getLsbD_shiftLeft, hs.2]
    simp [hi, Nat.not_lt.mpr hs.1]

lemma rev_eq_reverse (v : BitVec 64) : rev v = v.reverse := by
  have unroll : rev v = swapGroups 1 0x5555555555555555#64 (swapGroups 2 0x3333333333333333#64
      (swapGroups 4 0x0F0F0F0F0F0F0F0F#64 (swapGroups 8 0x00FF00FF00FF00FF#64
        (swapGroups 16 0x0000FFFF0000FFFF#64 (swapGroups 32 0x00000000FFFFFFFF#64 v))))) := rfl
  have masks : ∀ p ∈ [(1, 0x5555555555555555#64), (2, 0x3333333333333333#64),
      (4, 0x0F0F0F0F0F0F0F0F#64), (8, 0x00FF00FF00FF00FF#64), (16, 0x0000FFFF0000FFFF#64),
      (32, 0x00000000FFFFFFFF#64)], ∀ i < 64,
      (if p.2.getLsbD i then p.1 + i = i ^^^ p.1 else p.1 ≤ i ∧ i - p.1 = i ^^^ p.1) := by
    decide
  have flip : ∀ i < 64, i ^^^ 1 ^^^ 2 ^^^ 4 ^^^ 8 ^^^ 16 ^^^ 32 = 63 - i := by decide
  have xor_lt : ∀ {i s : Nat}, i < 64 → s < 64 → i ^^^ s < 64 := fun h1 h2 =>
    Nat.xor_lt_two_pow (n := 6) h1 h2
  apply BitVec.eq_of_getLsbD_eq
  intro i hi
  simp only [forall_mem_cons, not_mem_nil, false_implies, implies_true, and_true] at masks
  obtain ⟨m1, m2, m4, m8, m16, m32⟩ := masks
  have l1 := xor_lt hi (show 1 < 64 by norm_num)
  have l2 := xor_lt l1 (show 2 < 64 by norm_num)
  have l4 := xor_lt l2 (show 4 < 64 by norm_num)
  have l8 := xor_lt l4 (show 8 < 64 by norm_num)
  have l16 := xor_lt l8 (show 16 < 64 by norm_num)
  rw [unroll, getLsbD_swapGroups hi (m1 _ hi), getLsbD_swapGroups l1 (m2 _ l1),
    getLsbD_swapGroups l2 (m4 _ l2), getLsbD_swapGroups l4 (m8 _ l4),
    getLsbD_swapGroups l8 (m16 _ l8), getLsbD_swapGroups l16 (m32 _ l16), flip i hi,
    BitVec.getLsbD_reverse, BitVec.getMsbD_eq_getLsbD]
  simp [hi]

lemma scanNext_eq (n : Nat) (v : BitVec 64) : scanNext (2 ^ n - 1) v = revSucc n v := by
  rw [scanNext, rev_eq_reverse, rev_eq_reverse, revSucc]

lemma Dictht.Wf.emit {t : Dictht K V} (wf : t.Wf hash) {n : Nat} (hn : n ≤ 64)
    (hs : t.size = 2 ^ n) (v : BitVec 64) :
    Sat NoFault (fun b => ∀ e ∈ t.entries,
      revIdx (hash e.key) / 2 ^ (64 - n) = revIdx v / 2 ^ (64 - n) → e ∈ b) (t.emit v) := by
  have hlt : v.toNat &&& t.sizemask < t.table.length := by
    rw [wf.length, wf.mask, hs]
    exact Nat.and_lt_two_pow _ (Nat.sub_lt (Nat.two_pow_pos n) one_pos)
  rw [Dictht.emit, getElem?_eq_getElem hlt]
  intro e he blk
  refine wf.mem_bucket he ?_
  rw [← getElem?_eq_getElem hlt, Dictht.slot, wf.mask, hs, Nat.and_two_pow_sub_one_eq_mod,
    Nat.and_two_pow_sub_one_eq_mod, (mod_eq_iff_block_eq hn).mpr blk]

/-- The loop emits what is left of the cursor's block in the smaller table, and moves to the next such block. -/
lemma scanLarger_spec {t1 : Dictht K V} (wf : t1.Wf hash) {n₀ n₁ : Nat} (h01 : n₀ ≤ n₁)
    (h1 : n₁ ≤ 64) (hs : t1.size = 2 ^ n₁) {fuel : Nat} {v : BitVec 64}
    (hf : 2 ^ (n₁ - n₀) * (revIdx v / 2 ^ (64 - n₀) + 1) ≤ revIdx v / 2 ^ (64 - n₁) + fuel) :
    Sat NoFault (fun p => p.2 = revSucc n₀ v ∧ ∀ e ∈ t1.entries, revIdx v ≤ revIdx (hash e.key) →
      revIdx (hash e.key) / 2 ^ (64 - n₀) = revIdx v / 2 ^ (64 - n₀) → e ∈ p.1)
      (scanLarger t1 (2 ^ n₀ - 1) fuel v) := by
  induction fuel generalizing v with
  | zero =>
    have := (fine_bounds h01 h1 v).2
    omega
  | succ fuel ih =>
    rw [scanLarger, wf.mask, hs]
    refine (wf.emit h1 hs v).bind fun b hb => ?_
    rw [scanNext_eq]
    have start : 2 ^ (64 - n₁) ∣ revIdx (revSucc n₁ v) := by
      rw [revIdx_revSucc h1]
      exact (Nat.dvd_mod_iff (pow_dvd_pow 2 (Nat.sub_le _ _))).mpr (Nat.dvd_mul_right _ _)
    have stop := and_mask_diff_eq_zero_iff h01 h1 start
    rcases revSucc_fine h01 h1 v with ⟨last, eq, dvd⟩ | ⟨blk1, blk0, eq, ndvd⟩
    · -- The block of the smaller table is complete.
      rw [if_neg (not_not.mpr (stop.mpr dvd))]
      refine ⟨eq, fun e he le same => hb e he ?_⟩
      have up := (fine_bounds h01 h1 (hash e.key)).2
      have down := Nat.div_le_div_right (c := 2 ^ (64 - n₁)) le
      rw [same] at up
      omega
    rw [if_pos (mt stop.mp ndvd)]
    refine (ih (by rw [blk0]; omega)).bind ?_
    rintro ⟨es, v'⟩ ⟨hv', hes⟩
    refine ⟨hv'.trans eq, fun e he le same => ?_⟩
    rcases block_eq_or_revSucc_le h1 le with h | ⟨-, h⟩
    · exact mem_append_left _ (hb e he h)
    · exact mem_append_right _ (hes e he h (same.trans blk0.symm))

/-- The entries `es` from `v` on, in the order of reversed bits, are emitted up to the returned cursor. -/
def Covers (hash : K → BitVec 64) (v : BitVec 64) (es : List (DictEntry K V))
    (p : List (DictEntry K V) × BitVec 64) : Prop :=
  ∀ e ∈ es, revIdx v ≤ revIdx (hash e.key) →
    e ∈ p.1 ∨ (p.2 ≠ 0 ∧ revIdx p.2 ≤ revIdx (hash e.key))

lemma scanTables_spec {t0 t1 : Dictht K V} (wf0 : t0.Wf hash) (wf1 : t1.Wf hash) {n₀ n₁ : Nat}
    (h01 : n₀ ≤ n₁) (h1 : n₁ ≤ 64) (hs0 : t0.size = 2 ^ n₀) (hs1 : t1.size = 2 ^ n₁) (v : BitVec 64) :
    Sat NoFault (Covers hash v (t0.entries ++ t1.entries)) (scanTables t0 t1 v) := by
  have h0 := h01.trans h1
  refine (wf0.emit h0 hs0 v).bind fun b hb => ?_
  rw [wf0.mask, hs0]
  have fuel : 2 ^ (n₁ - n₀) * (revIdx v / 2 ^ (64 - n₀) + 1) ≤
      revIdx v / 2 ^ (64 - n₁) + t1.size := by
    have low := (fine_bounds h01 h1 v).1
    have : 2 ^ (n₁ - n₀) ≤ 2 ^ n₁ := Nat.pow_le_pow_right (by norm_num) (Nat.sub_le _ _)
    rw [Nat.mul_add]
    omega
  refine (scanLarger_spec wf1 h01 h1 hs1 fuel).bind ?_
  rintro ⟨es, v'⟩ ⟨hv', hes⟩ e he le
  rw [hv']
  refine (block_eq_or_revSucc_le h0 le).imp_left fun same => ?_
  rcases mem_append.mp he with h | h
  · exact mem_append_left _ (hb e h same)
  · exact mem_append_right _ (hes e h le same)

lemma dictScan_spec {d : Dict K V} {m} (ref : d.Refines hash m) (v : BitVec 64) :
    Sat NoFault (Covers hash v d.entries) (dictScan d v) := by
  rw [dictScan]
  split
  · rename_i hz
    intro e he
    rw [Dict.dictSize, ref.ht0.used, ref.ht1.used, ← length_append,
      length_eq_zero_iff] at hz
    rw [Dict.entries, hz] at he
    simp at he
  rename_i hz
  obtain ⟨n, hn, hs⟩ := ref.ht0.size.resolve_left (ref.size_pos hz).ne'
  split
  · rename_i reh
    refine (ref.ht0.emit (by omega) hs v).bind fun b hb e he le => ?_
    have emp : d.ht1.entries = [] := by
      rw [ref.idle reh]
      rfl
    rw [Dict.entries, emp, append_nil] at he
    rw [ref.ht0.mask, hs, scanNext_eq]
    exact (block_eq_or_revSucc_le (by omega) le).imp_left (hb e he)
  rename_i reh
  rw [not_not] at reh
  obtain ⟨n', hn', hs'⟩ := ref.ht1.size.resolve_left (ref.live reh).2.ne'
  split
  · rename_i lt
    rw [hs, hs'] at lt
    have le := ((Nat.pow_lt_pow_iff_right (by norm_num)).mp lt).le
    refine (scanTables_spec ref.ht1 ref.ht0 le (by omega) hs' hs v).mono fun p cov e he => ?_
    exact cov e (mem_append.mpr (mem_append.mp he).symm)
  · rename_i ge
    rw [hs, hs', Nat.not_lt] at ge
    have le := (Nat.pow_le_pow_iff_right (by norm_num)).mp ge
    exact scanTables_spec ref.ht0 ref.ht1 le (by omega) hs hs' v

/-- A scan in progress: the cursor of the next call (`none` when done) and what the callback was given. -/
structure ScanState (K V : Type) where
  base : DictState K V
  cursor : Option (BitVec 64)
  emitted : List (DictEntry K V)

/-- What can happen during a scan: its next call, or another call on the dict. -/
inductive ScanInput (K V : Type) where
  | scan
  | call (op : DictOp K V)

section Keys

variable [DecidableEq K]

def scanStep (hash : K → BitVec 64) (s : ScanState K V) :
    ScanInput K V → Except Fault (ScanState K V × Unit)
  | .scan =>
    match s.cursor with
    | none => .ok (s, ())
    | some v => do
      let (es, v) ← dictScan s.base.dict v
      .ok ({ s with cursor := if v = 0 then none else some v, emitted := s.emitted ++ es }, ())
  | .call op => do
    let (base, _) ← dictStep hash s.base op
    .ok ({ s with base := base }, ())

end Keys

def ScanState.Has (s : ScanState K V) (k : K) : Prop := ∃ e ∈ s.base.dict.entries, e.key = k

instance [DecidableEq K] (s : ScanState K V) (k : K) : Decidable (s.Has k) :=
  inferInstanceAs (Decidable (∃ e ∈ s.base.dict.entries, e.key = k))

/-- The event is no `dictExpand` whose byte count wraps. -/
def ScanInput.NoWrap (s : ScanState K V) : ScanInput K V → Prop
  | .scan => True
  | .call op => op.NoWrap s.base

/-- A key that stays in the dict was emitted, or is still ahead of the cursor. -/
def ScanState.Ahead (hash : K → BitVec 64) (k : K) (s : ScanState K V) : Prop :=
  (∃ e ∈ s.emitted, e.key = k) ∨ ∃ v, s.cursor = some v ∧ revIdx v ≤ revIdx (hash k)

section Keys

variable [DecidableEq K]

lemma scanStep_spec {k : K} {s : ScanState K V} {i : ScanInput K V}
    (inv : (∃ m, s.base.dict.Refines hash m) ∧ s.Ahead hash k) (grd : s.Has k ∧ i.NoWrap s) :
    Sat OnlyOom (fun p => (∃ m, p.1.base.dict.Refines hash m) ∧ p.1.Ahead hash k)
      (scanStep hash s i) := by
  obtain ⟨⟨m, ref⟩, ahead⟩ := inv
  cases i with
  | scan =>
    rw [scanStep]
    split
    · exact ⟨⟨m, ref⟩, ahead⟩
    rename_i v hv
    refine (dictScan_spec ref v).total.bind ?_
    rintro ⟨es, v'⟩ cov
    refine ⟨⟨m, ref⟩, ?_⟩
    rcases ahead with ⟨e, he, ek⟩ | ⟨u, hu, le⟩
    · exact .inl ⟨e, mem_append_left _ he, ek⟩
    obtain ⟨e, he, ek⟩ := grd.1
    rw [hv, Option.some.injEq] at hu
    subst hu ek
    rcases cov e he le with h | ⟨ne, h⟩
    · exact .inl ⟨e, mem_append_right _ h, rfl⟩
    · exact .inr ⟨v', if_neg ne, h⟩
  | call op =>
    refine (dictStep_simulates ref grd.2).bind ?_
    rintro ⟨base, _⟩ ⟨ref', -⟩
    exact ⟨⟨_, ref'⟩, ahead⟩

/-- From any dict that calls on an empty dict can reach, a scan whose calls are interleaved with
further calls on the dict, none of them a `dictExpand` whose byte count wraps, goes through (only the
allocator can stop the process), and when it is over it has emitted every key that stayed in the
dict. -/
theorem dictScan_covers (hash : K → BitVec 64) (canResize : Bool) (before : List (DictOp K V))
    (base : DictState K V) (replies : List (DictReply K V))
    (nw : Guarded (dictStep hash) DictOp.NoWrap ⟨canResize, dictCreate⟩ before)
    (reach : exec (dictStep hash) ⟨canResize, dictCreate⟩ before = .ok (base, replies))
    (events : List (ScanInput K V)) (k : K)
    (stays : Guarded (scanStep hash) (fun s i => s.Has k ∧ i.NoWrap s)
      { base, cursor := some 0, emitted := [] } events) :
    Sat OnlyOom (fun p => p.1.cursor = none → ∃ e ∈ p.1.emitted, e.key = k)
      (exec (scanStep hash) { base, cursor := some 0, emitted := [] } events) := by
  have run := exec_simulates (R := fun s m => s.dict.Refines hash m)
    (fun _ _ _ => dictStep_simulates) Dict.Refines.create nw
  have ref := (run.of_eq reach).1
  have start : ∃ v : BitVec 64, some 0 = some v ∧ revIdx v ≤ revIdx (hash k) := 
    ⟨0, rfl, revIdx_zero.trans_le (Nat.zero_le _)⟩
  have inv := exec_invariant (fun _ _ => scanStep_spec) ⟨⟨_, ref⟩, .inr start⟩ stays
  refine inv.mono ?_
  rintro ⟨s, _⟩ ⟨-, done | ⟨v, hv, -⟩⟩ hn
  · exact done
  · rw [hv] at hn
    cases hn

/-- A scan of a table with four buckets, with a key added after its first call. -/
theorem dictScan_covers_run :
    ∃ base replies, exec (dictStep fun k : Nat => BitVec.ofNat 64 k) ⟨true, dictCreate⟩
        [.add 1 10] = .ok (base, replies) ∧
      Sat OnlyOom (fun p => p.1.cursor = none → ∃ e ∈ p.1.emitted, e.key = 1)
        (exec (scanStep fun k : Nat => BitVec.ofNat 64 k) { base, cursor := some 0, emitted := [] }
          [.scan, .call (.add 2 20), .scan, .scan, .scan]) := by
  refine ⟨_, _, rfl, ?_⟩
  refine dictScan_covers _ true [.add 1 10] _ _ (guarded_cons rfl trivial trivial) rfl _ 1 ?_
  refine guarded_cons rfl ⟨by decide, trivial⟩ (guarded_cons rfl ⟨by decide, trivial⟩ ?_)
  refine guarded_cons rfl ⟨by decide, trivial⟩ (guarded_cons rfl ⟨by decide, trivial⟩ ?_)
  exact guarded_cons rfl ⟨by decide, trivial⟩ trivial

/-- A `dictExpand` to `2 ^ 61` buckets in the middle of a scan allocates no byte: the next call of the
scan reads outside before it reaches the key, which was in the dict all the time. -/
theorem dictExpand_wraps_then_scan_faults :
    (exec (dictStep fun _ : Unit => 1#64) ⟨true, dictCreate⟩ [.add () ()] >>= fun p =>
      exec (scanStep fun _ : Unit => 1#64) { base := p.1, cursor := some 0, emitted := [] }
        [.call (.expand (2 ^ 61)), .scan]) = .error .badAccess := by
  rfl

end Keys

end JitRedis
