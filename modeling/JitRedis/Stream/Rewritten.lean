import JitRedis.Stream.Order

/-!
# Rewritten commands

`XADD` and `XTRIM` are propagated with the ID that was generated, and with the length that an approximate trimming
came to in place of `MAXLEN ~`. The rewritten arguments are parsed again to what was done, and an exact trimming to
that length does the same as the approximate one.
-/

namespace JitRedis

open Fallible List

def Stream.withGroups (s : Stream) (cgroups : SortedMap Bytes StreamCG) : Stream := { s with cgroups }

variable {s s' : Stream} {cgroups : SortedMap Bytes StreamCG} {cfg : StreamConfig} {fields : List (Bytes × Bytes)}
  {maxlen deleted fuel : Nat} {approx : Bool} {nodes : List StreamNode} {id : StreamID}

section Frame

lemma streamAppendItem_withGroups (useId : Option StreamID) (now : UInt64) :
    streamAppendItem cfg (s.withGroups cgroups) fields useId now =
      (streamAppendItem cfg s fields useId now).map fun r => (r.1.withGroups cgroups, r.2) := by
  rw [streamAppendItem, streamAppendItem]
  show (if (useId.any fun id => streamCompareID id s.lastId ≤ 0) = true then _ else _) = _
  split
  · rfl
  show (streamAppendTarget cfg s.rax.entries.getLast? >>= _) = _
  cases streamAppendTarget cfg s.rax.entries.getLast? with
  | error e => rfl
  | ok target =>
    show (streamWriteEntry (useId.getD (streamNextID s.lastId now)) fields target >>= _) =
      Except.map _ (streamWriteEntry (useId.getD (streamNextID s.lastId now)) fields target >>= _)
    cases streamWriteEntry (useId.getD (streamNextID s.lastId now)) fields target <;> rfl

lemma streamTrimLoop_succ (ri : List (Bytes × Listpack)) : streamTrimLoop maxlen approx (fuel + 1) s ri deleted =
    if s.length ≤ maxlen then .ok (s, deleted)
    else
      match ri with
      | [] => .ok (s, deleted)
      | (key, lp) :: _ => lpGetInteger lp (lpFirst lp) >>= fun entries =>
        if (maxlen : Int) ≤ s.length - entries then
          streamTrimLoop maxlen approx fuel { s with rax := s.rax.erase key, length := (s.length - entries).toNat }
            ((s.rax.erase key).upward key) (deleted + entries.toNat)
        else if approx then .ok (s, deleted)
        else streamTrimNode maxlen lp s.length deleted entries >>= fun r =>
          .ok ({ s with rax := s.rax.insert key r.1, length := r.2.1 }, r.2.2) := by
  cases ri <;> rfl

lemma streamTrimLoop_withGroups (ri : List (Bytes × Listpack)) :
    streamTrimLoop maxlen approx fuel (s.withGroups cgroups) ri deleted =
      (streamTrimLoop maxlen approx fuel s ri deleted).map fun r => (r.1.withGroups cgroups, r.2) := by
  induction fuel generalizing s ri deleted with
  | zero => rfl
  | succ fuel ih =>
    rw [streamTrimLoop_succ, streamTrimLoop_succ]
    show (if s.length ≤ maxlen then _ else _) = _
    split
    · rfl
    cases ri with
    | nil => rfl
    | cons e ri =>
      obtain ⟨key, lp⟩ := e
      show (lpGetInteger lp (lpFirst lp) >>= _) = Except.map _ (lpGetInteger lp (lpFirst lp) >>= _)
      cases lpGetInteger lp (lpFirst lp) with
      | error e => rfl
      | ok entries =>
        simp only [ok_bind]
        show (if (maxlen : Int) ≤ s.length - entries then _ else _) = _
        split
        · exact @ih { s with rax := s.rax.erase key, length := ((s.length : Int) - entries).toNat } _ _
        · split
          · rfl
          · show (streamTrimNode maxlen lp s.length deleted entries >>= _) = _
            cases streamTrimNode maxlen lp s.length deleted entries <;> rfl

lemma streamTrimByLength_withGroups :
    streamTrimByLength (s.withGroups cgroups) maxlen approx =
      (streamTrimByLength s maxlen approx).map fun r => (r.1.withGroups cgroups, r.2) := by
  rw [streamTrimByLength, streamTrimByLength]
  show (if s.length ≤ maxlen then _ else _) = _
  split
  · rfl
  · exact streamTrimLoop_withGroups s.rax.entries

lemma streamDeleteItem_withGroups (id : StreamID) :
    streamDeleteItem (s.withGroups cgroups) id =
      (streamDeleteItem s id).map fun r => (r.1.withGroups cgroups, r.2) := by
  rw [streamDeleteItem, streamDeleteItem]
  show (streamIteratorGetID (streamIteratorStart s (some id) (some id) false) >>= _) = _
  rcases streamIteratorGetID (streamIteratorStart s (some id) (some id) false) with _ | ⟨si, _ | ⟨myid, numfields⟩⟩
  · rfl
  · rfl
  simp only [ok_bind, streamIteratorRemoveEntry]
  rcases si.lp with _ | lp
  · rfl
  simp only
  rcases lpGetInteger lp si.lpFlags with _ | flags
  · rfl
  simp only [ok_bind]
  rcases lpReplaceInteger lp si.lpFlags (setDeleted flags) with _ | lp
  · rfl
  simp only [ok_bind]
  rcases streamCountDeleted lp with _ | _ | _ <;> rfl

end Frame

lemma streamAppendItem_explicit {useId} {now : UInt64} (now' : UInt64)
    (h : streamAppendItem cfg s fields useId now = .ok (s', some id)) (hlt : s.lastId < id) :
    streamAppendItem cfg s fields (some id) now' = .ok (s', some id) := by
  have hgt : decide (streamCompareID id s.lastId ≤ 0) = false :=
    decide_eq_false fun hle => absurd (streamCompareID_le.mp hle) (not_le.mpr hlt)
  rw [streamAppendItem] at h
  generalize useId.getD (streamNextID s.lastId now) = id₀ at h
  split at h
  · cases h
  obtain ⟨target, htarget, h⟩ := bind_eq_ok.mp h
  obtain ⟨⟨key, lp⟩, hwrite, ⟨⟩⟩ := bind_eq_ok.mp h
  simp only [streamAppendItem, Option.any_some, hgt, Bool.false_eq_true, if_false, Option.getD_some, htarget,
    ok_bind, hwrite]

section Trimming

lemma length_trimLoop_le {r} (h : List.Forall₂ StreamNode.Renders nodes s.rax.entries)
    (hfuel : nodes.length < fuel) (hr : streamTrimLoop maxlen approx fuel s s.rax.entries deleted = .ok r) :
    r.1.length ≤ s.length := by
  obtain ⟨-, hlength, -⟩ := (streamTrimLoop_spec h hfuel).of_eq hr
  rw [hlength]
  exact trimNodes_le ..

lemma length_trimByLength_le {r} (h : List.Forall₂ StreamNode.Renders nodes s.rax.entries)
    (hr : streamTrimByLength s maxlen approx = .ok r) : r.1.length ≤ s.length := by
  obtain ⟨-, hlength, -⟩ := (streamTrimByLength_spec h).of_eq hr
  rw [hlength]
  exact trimNodes_le ..

lemma streamTrimLoop_exact {r} (h : List.Forall₂ StreamNode.Renders nodes s.rax.entries)
    (hfuel : nodes.length < fuel) (hr : streamTrimLoop maxlen true fuel s s.rax.entries deleted = .ok r) :
    streamTrimLoop r.1.length false fuel s s.rax.entries deleted = .ok r := by
  induction nodes generalizing s fuel deleted with
  | nil =>
    obtain ⟨fuel, rfl⟩ : ∃ k, fuel = k + 1 := ⟨fuel - 1, by omega⟩
    rw [streamTrimLoop_nil (forall₂_nil_left_iff.mp h)] at hr ⊢
    exact hr
  | cons n nodes ih =>
    obtain ⟨fuel, rfl⟩ : ∃ k, fuel = k + 1 := ⟨fuel - 1, by omega⟩
    obtain ⟨key, lp, rax, hn, hrax, -, turn⟩ := streamTrimLoop_cons h
    rw [turn, if_pos rfl] at hr
    rw [turn]
    split_ifs at hr with hle hdrop
    · cases hr
      rw [if_pos le_rfl]
    · rw [length_cons] at hfuel
      have hlive : 0 < n.live.length := length_pos_iff.mpr hn.live
      have hshort := @length_trimLoop_le _ _ _ _ _ _ _ hrax (by omega) hr
      dsimp only at hshort
      rw [if_neg (by omega), if_pos (by omega)]
      exact @ih _ _ _ hrax (by omega) hr
    · cases hr
      rw [if_pos le_rfl]

lemma streamTrimByLength_exact {r} (h : List.Forall₂ StreamNode.Renders nodes s.rax.entries)
    (hr : streamTrimByLength s maxlen true = .ok r) : streamTrimByLength s r.1.length false = .ok r := by
  rw [streamTrimByLength] at hr ⊢
  split at hr
  · cases hr
    rw [if_pos le_rfl]
  have hlen := h.length_eq
  have exact' := streamTrimLoop_exact h (by omega) hr
  split
  · rename_i hle
    rw [streamTrimLoop_succ, if_pos hle] at exact'
    exact exact'
  · exact exact'

lemma streamTrimByLength_zero (h : List.Forall₂ StreamNode.Renders nodes s.rax.entries)
    (hr : streamTrimByLength s maxlen approx = .ok (s', 0)) : s' = s := by
  have hlen := h.length_eq
  have spec := (streamTrimByLength_spec h).of_eq hr
  obtain ⟨-, hlength, -, -, hcount⟩ := spec
  have hle := trimNodes_le maxlen approx s.length nodes
  simp only at hlength hcount
  rw [streamTrimByLength] at hr
  split at hr
  · cases hr
    rfl
  rename_i hgt
  cases nodes with
  | nil =>
    rw [streamTrimLoop_nil (forall₂_nil_left_iff.mp h)] at hr
    cases hr
    rfl
  | cons n nodes =>
    obtain ⟨key, lp, rax, hn, hrax, -, turn⟩ := streamTrimLoop_cons h
    have hlive : 0 < n.live.length := length_pos_iff.mpr hn.live
    rw [turn, if_neg hgt] at hr
    rw [trimNodes, if_neg hgt] at hlength
    split_ifs at hr hlength with hdrop happrox
    · have hshort := @length_trimLoop_le _ _ _ _ _ _ _ hrax (by rw [← hlen]; exact Nat.lt_succ_self _) hr
      dsimp only at hshort
      omega
    · cases hr
      rfl
    · dsimp only at hlength
      omega

end Trimming

section Parsing

variable {i : Nat} {opts rest : List Bytes} {trim trim' : TrimArgs} {args : XaddArgs}

lemma streq_streamIDText (id : StreamID) {lit : String} (hlit : (45 : UInt8) ∉ ascii lit) :
    streq (streamIDText id) lit = false := by
  rw [streq, cstr_streamIDText, decide_eq_false_iff_not]
  intro heq
  rw [← heq, streamIDText] at hlit
  simp at hlit

lemma strcaseeq_streamIDText (id : StreamID) {lit : String} (hlit : (45 : UInt8) ∉ (ascii lit).map tolower) :
    strcaseeq (streamIDText id) lit = false := by
  rw [strcaseeq, cstr_streamIDText, decide_eq_false_iff_not]
  intro heq
  rw [← heq] at hlit
  refine hlit (mem_map.mpr ⟨45, ?_, by decide⟩)
  rw [streamIDText]
  simp

lemma xaddParse_id (i : Nat) (id : StreamID) (rest : List Bytes) (trim : TrimArgs) :
    xaddParse i (streamIDText id :: rest) trim = .ok ⟨some id, i, trim, rest⟩ := by
  have hstar : streq (streamIDText id) "*" = false := streq_streamIDText id (by decide)
  have hmaxlen : strcaseeq (streamIDText id) "maxlen" = false := strcaseeq_streamIDText id (by decide)
  rw [xaddParse.eq_def]
  simp only [hstar, hmaxlen, Bool.false_eq_true, if_false, xaddID, streamParseStrictID_text]

lemma maxlenValue_ll2string {n : Nat} (hn : n < 2 ^ 63) : maxlenValue (ll2string n) = .ok n := by
  rw [maxlenValue, string2ll_ll2string (by omega) (by omega)]
  simp only
  rw [if_neg (by omega)]

lemma xaddParse_setID (h : xaddParse i opts trim = .ok args) (hf : args.fields ≠ []) (id : StreamID) :
    i ≤ args.idIdx ∧
      xaddParse i (opts.set (args.idIdx - i) (streamIDText id)) trim = .ok { args with id := some id } := by
  fun_induction xaddParse i opts trim with
  | case1 =>
    cases h
    exact absurd rfl hf
  | case2 i opt rest trim =>
    cases h
    refine ⟨le_rfl, ?_⟩
    rw [Nat.sub_self, set_cons_zero]
    exact xaddParse_id i id rest trim
  | case3 => exact absurd (xaddID_fields h).2.1 hf
  | case4 =>
    obtain ⟨maxlen, -, ⟨⟩⟩ := bind_eq_ok.mp h
    exact absurd rfl hf
  | case5 i opt trim ho hm next arg rest hn ih =>
    obtain ⟨maxlen, hmaxlen, h⟩ := bind_eq_ok.mp h
    obtain ⟨hle, hparse⟩ := ih maxlen h
    refine ⟨by omega, ?_⟩
    rw [show args.idIdx - i = args.idIdx - (i + 3) + 1 + 1 + 1 from by omega, set_cons_succ, set_cons_succ,
      set_cons_succ, xaddParse_sign ho hm hn, hmaxlen]
    exact hparse
  | case6 i opt trim ho hm next arg rest hn ih =>
    obtain ⟨maxlen, hmaxlen, h⟩ := bind_eq_ok.mp h
    obtain ⟨hle, hparse⟩ := ih maxlen h
    refine ⟨by omega, ?_⟩
    have hset : (opt :: next :: arg :: rest).set (args.idIdx - i) (streamIDText id) =
        opt :: next :: (arg :: rest).set (args.idIdx - (i + 2)) (streamIDText id) := by
      rw [show args.idIdx - i = args.idIdx - (i + 2) + 1 + 1 from by omega, set_cons_succ, set_cons_succ]
    -- The list behind the length stays nonempty.
    cases hcons : (arg :: rest).set (args.idIdx - (i + 2)) (streamIDText id) with
    | nil => simp at hcons
    | cons arg' rest' =>
      rw [hset, hcons, xaddParse_plain ho hm hn, hmaxlen, ← hcons]
      exact hparse
  | case7 i opt rest trim =>
    obtain ⟨hidx, rfl, rfl⟩ := xaddID_fields h
    rw [hidx]
    refine ⟨le_rfl, ?_⟩
    rw [Nat.sub_self, set_cons_zero]
    exact xaddParse_id i id _ _

lemma xaddParse_trim (h : xaddParse i opts trim = .ok args) (hidx : args.trim.idx ≤ i) (trim' : TrimArgs) :
    xaddParse i opts trim' = .ok { args with trim := trim' } := by
  fun_induction xaddParse i opts trim with
  | case1 =>
    cases h
    rfl
  | case2 i opt rest trim hstar =>
    cases h
    rw [xaddParse.eq_def]
    simp only [hstar, if_true]
  | case3 i opt trim ho hm =>
    rw [xaddParse.eq_def]
    simp only [ho, hm, Bool.false_eq_true, if_false, if_true]
    rw [xaddID] at h ⊢
    split at h
    · cases h
    · cases h
      rfl
  | case4 i opt trim ho hm arg ih =>
    obtain ⟨maxlen, -, ⟨⟩⟩ := bind_eq_ok.mp h
    simp only at hidx
    omega
  | case5 i opt trim ho hm next arg rest hn ih | case6 i opt trim ho hm next arg rest hn ih =>
    obtain ⟨maxlen, -, h⟩ := bind_eq_ok.mp h
    rcases xaddParse_idx h with heq | ⟨hlt, -⟩
    · rw [heq] at hidx
      dsimp only at hidx
      omega
    · omega
  | case7 i opt rest trim ho hm =>
    rw [xaddParse.eq_def]
    simp only [ho, hm, Bool.false_eq_true, if_false]
    rw [xaddID] at h ⊢
    split at h
    · cases h
    · cases h
      rfl

/-- The options with an exact length in the place of the approximate one. -/
def exactly (opts : List Bytes) (j n : Nat) : List Bytes := (opts.set j (ll2string n)).set (j - 1) (ascii "=")

lemma exactly_cons {a : Bytes} {j n : Nat} (h : i + 1 < j) :
    exactly (a :: opts) (j - i) n = a :: exactly opts (j - (i + 1)) n := by
  obtain ⟨k, rfl⟩ : ∃ k, j = k + 1 + (i + 1) := ⟨j - (i + 2), by omega⟩
  rw [Nat.add_sub_cancel, show k + 1 + (i + 1) - i = k + 1 + 1 by omega, exactly, exactly, set_cons_succ,
    Nat.add_sub_cancel, set_cons_succ, Nat.add_sub_cancel]

lemma exactly_option {a b c : Bytes} {j n : Nat} (h : i + 3 < j) :
    exactly (a :: b :: c :: opts) (j - i) n = a :: b :: c :: exactly opts (j - (i + 3)) n := by
  rw [exactly_cons (by omega), exactly_cons (by omega), exactly_cons (by omega)]

lemma exactly_sign {a b c : Bytes} (i n : Nat) :
    exactly (a :: b :: c :: opts) (i + 2 - i) n = a :: ascii "=" :: ll2string n :: opts := by
  rw [Nat.add_sub_cancel_left]
  rfl

lemma equal_sign : (streq (ascii "=") "~" || streq (ascii "=") "=") = true := by decide

lemma xaddParse_exactly {n : Nat} (hn : n < 2 ^ 63) (h : xaddParse i opts trim = .ok args) (hlt : trim.idx < i)
    (happrox : args.trim.approx = true) (hidx : i < args.trim.idx) :
    xaddParse i (exactly opts (args.trim.idx - i) n) trim =
      .ok { args with trim := ⟨n, false, args.trim.idx⟩ } := by
  fun_induction xaddParse i opts trim with
  | case1 | case2 =>
    cases h
    dsimp only at hidx
    omega
  | case3 | case7 =>
    rw [(xaddID_fields h).2.2] at hidx
    omega
  | case4 =>
    obtain ⟨maxlen, -, ⟨⟩⟩ := bind_eq_ok.mp h
    cases happrox
  | case5 i opt trim ho hm next arg rest hsign ih =>
    obtain ⟨maxlen, hmaxlen, h⟩ := bind_eq_ok.mp h
    rcases xaddParse_idx h with heq | ⟨hlt', happ⟩
    · -- This is the option that is rewritten.
      have parsed := xaddParse_trim h (by rw [heq]; dsimp only; omega)
      rw [heq]
      rw [exactly_sign, xaddParse_sign ho hm equal_sign, maxlenValue_ll2string hn, ok_bind, parsed]
      rfl
    · rw [exactly_option (by omega), xaddParse_sign ho hm hsign, hmaxlen]
      exact ih maxlen h (by simp only; omega) (by omega)
  | case6 i opt trim ho hm next arg rest hsign ih =>
    obtain ⟨maxlen, hmaxlen, h⟩ := bind_eq_ok.mp h
    rcases xaddParse_idx h with heq | ⟨hlt', happ⟩
    · rw [heq] at happrox
      cases happrox
    have hle := happ happrox
    have parsed := ih maxlen h (by simp only; omega) (by omega)
    rw [exactly_cons (by omega)] at parsed
    rw [exactly_option (by omega), xaddParse_plain ho hm hsign, hmaxlen]
    exact parsed

lemma xtrimParse_exactly {n : Nat} {given : Bool} {r} (hn : n < 2 ^ 63)
    (h : xtrimParse i opts trim given = .ok r) (hlt : trim.idx < i) (happrox : r.1.approx = true) (hidx : i < r.1.idx) :
    xtrimParse i (exactly opts (r.1.idx - i) n) trim given = .ok (⟨n, false, r.1.idx⟩, true) := by
  fun_induction xtrimParse i opts trim given with
  | case1 =>
    cases h
    simp only at hidx
    omega
  | case2 => cases h
  | case3 =>
    obtain ⟨maxlen, -, ⟨⟩⟩ := bind_eq_ok.mp h
    cases happrox
  | case4 i opt _ _ hm next arg rest hsign ih =>
    obtain ⟨maxlen, hmaxlen, h⟩ := bind_eq_ok.mp h
    rcases xtrimParse_idx h with ⟨rfl, rfl⟩ | ⟨hlt', happ⟩
    · dsimp only
      rw [exactly_sign, xtrimParse_sign hm equal_sign, maxlenValue_ll2string hn]
      rfl
    · rw [exactly_option (by omega), xtrimParse_sign hm hsign, hmaxlen]
      exact ih maxlen h (by simp only; omega) (by omega)
  | case5 i opt _ _ hm next arg rest hsign ih =>
    obtain ⟨maxlen, hmaxlen, h⟩ := bind_eq_ok.mp h
    rcases xtrimParse_idx h with ⟨-, hnil⟩ | ⟨hlt', happ⟩
    · cases hnil
    have hle := happ happrox
    have parsed := ih maxlen h (by simp only; omega) (by omega)
    rw [exactly_cons (by omega)] at parsed
    rw [exactly_option (by omega), xtrimParse_plain hm hsign, hmaxlen]
    exact parsed
  | case6 => cases h

end Parsing

end JitRedis
