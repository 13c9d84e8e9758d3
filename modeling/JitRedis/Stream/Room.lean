import JitRedis.Stream.Writing

/-!
# Entries that a node has room for

`streamAppendItem` writes to the last node only while it is not over the limit in bytes, so that an entry which fits
beside such a node is always stored.
-/

namespace JitRedis

open Fallible List LpElement

abbrev NotFull (f : Fault) : Prop := f ≠ .listpackFull

/-- Bytes that are enough to store strings. -/
def textRoom (texts : List Bytes) : Nat := (texts.map fun t => t.length + 10).sum

def entryRoom (fields : List (Bytes × Bytes)) : Nat := textRoom (fields.map Prod.fst) + textRoom (fields.map Prod.snd)

/-- Beside a node that is not over the limit there is room for the entry. -/
def HasRoom (cfg : StreamConfig) (fields : List (Bytes × Bytes)) : Prop :=
  cfg.nodeMaxBytes + 2 * entryRoom fields + 300 < 2 ^ 32

variable {lp : Listpack} {fields : List (Bytes × Bytes)} {cfg : StreamConfig}

lemma size_lpEncode_le (t : Bytes) : (lpEncode t).size ≤ t.length + 10 := by
  have henc : (lpEncode t).enclen ≤ 9 ∨ (lpEncode t).enclen ≤ t.length + 5 := by
    rw [lpEncode]
    split
    · left
      rw [enclen]
      repeat' split
      all_goals omega
    · right
      rw [enclen]
      repeat' split
      all_goals omega
  rw [size, lpEncodeBacklen]
  repeat' split
  all_goals omega

lemma lpTotalBytes_append (l r : List LpElement) : lpTotalBytes (l ++ r) = lpTotalBytes l + (r.map size).sum := by
  rw [lpTotalBytes, lpTotalBytes, map_append, sum_append, Nat.add_assoc]

lemma lpAppend_room {t : Bytes} (h : lpBytes lp + t.length + 10 < 2 ^ 32) :
    Sat NotFull (fun lp' => lpBytes lp' ≤ lpBytes lp + t.length + 10) (lpAppend lp t) := by
  have hlen : (lpSized t).length ≤ t.length := length_take_le' ..
  have hsize := size_lpEncode_le (lpSized t)
  have htotal := lpTotalBytes_append lp.elements [lpEncode (lpSized t)]
  rw [map_singleton, sum_singleton] at htotal
  rw [lpBytes] at h
  simp only [lpAppend, lpInsert, take_length, drop_length, lpBytes]
  split
  · show lpTotalBytes (lp.elements ++ [lpEncode (lpSized t)]) ≤ _
    omega
  · rename_i hbig
    rw [uint32Max] at hbig
    omega

lemma lpAppendInteger_room (v : Int) (h : lpBytes lp + 31 < 2 ^ 32) :
    Sat NotFull (fun lp' => lpBytes lp' ≤ lpBytes lp + 31) (lpAppendInteger lp v) := by
  have hlen := length_ll2string_le v
  exact (lpAppend_room (by omega)).mono fun lp' hlp' => by omega

lemma lpAppendAll_room {texts} (h : lpBytes lp + textRoom texts < 2 ^ 32) :
    Sat NotFull (fun lp' => lpBytes lp' ≤ lpBytes lp + textRoom texts) (lpAppendAll lp texts) := by
  induction texts generalizing lp with
  | nil => exact Nat.le_add_right ..
  | cons t texts ih =>
    rw [textRoom, map_cons, sum_cons] at h ⊢
    refine (lpAppend_room (by omega)).bind fun lp' hlp' => (ih ?_).mono fun lp'' hlp'' => ?_
    · rw [textRoom]
      omega
    · rw [textRoom] at hlp''
      omega

lemma textRoom_streamEntryBody (same : Bool) (fields : List (Bytes × Bytes)) :
    textRoom (streamEntryBody same fields) ≤ entryRoom fields + 31 := by
  have hpairs : textRoom (fields.flatMap fun f => [f.1, f.2]) = entryRoom fields := by
    induction fields with
    | nil => rfl
    | cons f fields ih =>
      simp only [textRoom, entryRoom, flatMap_cons, map_append, map_cons, map_nil, sum_append,
        sum_cons, sum_nil] at ih ⊢
      omega
  have hlen := length_ll2string_le fields.length
  rw [streamEntryBody]
  cases same with
  | true =>
    rw [if_pos rfl, entryRoom]
    omega
  | false =>
    rw [if_neg (by decide), textRoom, map_cons, sum_cons, ← textRoom, hpairs]
    omega

lemma streamAppendEntry_room (same : Bool) (id m : StreamID) (h : lpBytes lp + entryRoom fields + 155 < 2 ^ 32) :
    Sat NotFull (fun _ => True) (streamAppendEntry lp same id m fields) := by
  have hbody := textRoom_streamEntryBody same fields
  refine (lpAppendInteger_room _ (by omega)).bind fun lp₁ h₁ => ?_
  refine (lpAppendInteger_room _ (by omega)).bind fun lp₂ h₂ => ?_
  refine (lpAppendInteger_room _ (by omega)).bind fun lp₃ h₃ => ?_
  refine (lpAppendAll_room (by omega)).bind fun lp₄ h₄ => ?_
  exact (lpAppendInteger_room _ (by omega)).mono fun _ _ => trivial

lemma streamMasterEntry_room (h : entryRoom fields + 131 < 2 ^ 32) :
    Sat NotFull (fun lp => lpBytes lp ≤ entryRoom fields + 131) (streamMasterEntry fields) := by
  have hnew : lpBytes lpNew = 7 := rfl
  have hnames : textRoom (fields.map Prod.fst) ≤ entryRoom fields := Nat.le_add_right ..
  refine (lpAppendInteger_room _ (by omega)).bind fun lp₁ h₁ => ?_
  refine (lpAppendInteger_room _ (by omega)).bind fun lp₂ h₂ => ?_
  refine (lpAppendInteger_room _ (by omega)).bind fun lp₃ h₃ => ?_
  refine (lpAppendAll_room (by omega)).bind fun lp₄ h₄ => ?_
  exact (lpAppendInteger_room _ (by omega)).mono fun lp₅ h₅ => by omega

lemma lpNext_notFull (lp : Listpack) (p : Option Nat) : Sat NotFull (fun _ => True) (lpNext lp p) := by
  cases p with
  | none => exact fun h => (nomatch h)
  | some i =>
    rw [lpNext]
    split
    · trivial
    · exact fun h => (nomatch h)

lemma lpElementAt_notFull (lp : Listpack) (p : Option Nat) : Sat NotFull (fun _ => True) (lpElementAt lp p) := by
  rw [lpElementAt]
  split
  · trivial
  · intro h
    cases h

lemma lpGetInteger_notFull (lp : Listpack) (p : Option Nat) : Sat NotFull (fun _ => True) (lpGetInteger lp p) := by
  refine (lpElementAt_notFull lp p).bind fun e _ => ?_
  cases e with
  | int v => trivial
  | str t =>
    rw [toInteger]
    split
    · trivial
    · exact fun h => (nomatch h)

lemma sameFieldsLoop_notFull (lp : Listpack) (p : Option Nat) (fields : List (Bytes × Bytes)) :
    Sat NotFull (fun _ => True) (sameFieldsLoop lp p fields) := by
  induction fields generalizing p with
  | nil => trivial
  | cons f fields ih =>
    have hget : Sat NotFull (fun _ => True) (lpGet lp p) := (lpElementAt_notFull lp p).bind fun e _ => sat_ok.mpr trivial
    refine hget.bind fun e _ => ?_
    split
    · trivial
    · exact (lpNext_notFull lp p).bind fun p' _ => ih p'

lemma lpReplaceInteger_room (p : Option Nat) (v : Int) (h : lpBytes lp + 31 < 2 ^ 32) :
    Sat NotFull (fun lp' => lpBytes lp' ≤ lpBytes lp + 31) (lpReplaceInteger lp p v) := by
  have hset : ∀ (l : List LpElement) (p : Nat) (e : LpElement),
      ((l.set p e).map size).sum ≤ (l.map size).sum + e.size := by
    intro l
    induction l with
    | nil => exact fun _ _ => Nat.zero_le _
    | cons x l ih =>
      intro p e
      cases p with
      | zero =>
        rw [set_cons_zero, map_cons, map_cons, sum_cons, sum_cons]
        omega
      | succ p =>
        have := ih p e
        rw [set_cons_succ, map_cons, map_cons, sum_cons, sum_cons]
        omega
  cases p with
  | none => exact fun h => (nomatch h)
  | some p =>
    rw [lpReplaceInteger]
    split
    · have hlen := length_ll2string_le v
      have hsize := size_lpEncode_le (ll2string v)
      have hsum := hset lp.elements p (lpEncode (ll2string v))
      rw [lpBytes, lpTotalBytes] at h
      simp only [lpInsert, lpSized_ll2string, lpBytes, lpTotalBytes]
      split
      · show 7 + ((lp.elements.set p (lpEncode (ll2string v))).map size).sum ≤ _
        omega
      · rename_i hbig
        rw [uint32Max] at hbig
        omega
    · exact fun h => (nomatch h)

lemma streamReuseNode_room (h : lpBytes lp + 31 < 2 ^ 32) :
    Sat NotFull (fun r => lpBytes r.1 ≤ lpBytes lp + 31) (streamReuseNode lp fields) := by
  refine (lpGetInteger_notFull lp _).bind fun count _ => ?_
  refine (lpReplaceInteger_room _ _ h).bind fun lp₁ h₁ => ?_
  refine (lpNext_notFull lp₁ _).bind fun p₁ _ => (lpNext_notFull lp₁ _).bind fun p₂ _ => ?_
  refine (lpGetInteger_notFull lp₁ _).bind fun masterFieldsCount _ => (lpNext_notFull lp₁ _).bind fun p₃ _ => ?_
  have hsame : Sat NotFull (fun _ => True) (streamSameFields lp₁ p₃ masterFieldsCount fields) := by
    rw [streamSameFields]
    split
    · exact sameFieldsLoop_notFull ..
    · trivial
  exact hsame.bind fun same _ => h₁

lemma streamWriteEntry_room (h : HasRoom cfg fields) (id : StreamID) {target}
    (htarget : ∀ e ∈ target, lpBytes e.2 ≤ cfg.nodeMaxBytes) :
    Sat NotFull (fun _ => True) (streamWriteEntry id fields target) := by
  rw [HasRoom] at h
  cases target with
  | none =>
    refine (streamMasterEntry_room (by omega)).bind fun lp hlp => ?_
    exact (streamAppendEntry_room true id id (by omega)).bind fun _ _ => trivial
  | some e =>
    obtain ⟨key, lp⟩ := e
    have hlp : lpBytes lp ≤ cfg.nodeMaxBytes := htarget (key, lp) rfl
    rw [streamWriteEntry]
    split
    · intro h
      cases h
    · refine (streamReuseNode_room (by omega)).bind fun r hr => ?_
      exact (streamAppendEntry_room r.2 id _ (by omega)).bind fun _ _ => trivial

lemma streamAppendItem_room (h : HasRoom cfg fields) (s : Stream) (useId : Option StreamID) (now : UInt64) :
    Sat NotFull (fun _ => True) (streamAppendItem cfg s fields useId now) := by
  have htarget : Sat NotFull (fun t => ∀ e ∈ t, lpBytes e.2 ≤ cfg.nodeMaxBytes)
      (streamAppendTarget cfg s.rax.entries.getLast?) := by
    cases s.rax.entries.getLast? with
    | none => exact fun e he => (nomatch he)
    | some e =>
      have hfull : Sat NotFull (fun _ => True) (streamTailFull cfg e.2) := by
        rw [streamTailFull]
        split
        · trivial
        · split
          · exact (lpGetInteger_notFull _ _).bind fun _ _ => trivial
          · trivial
      refine hfull.bind fun full _ => ?_
      split
      · exact fun e he => (nomatch he)
      rename_i hroom
      intro e' he'
      cases he'
      simp only [Bool.or_eq_true, decide_eq_true_eq, not_or, not_lt] at hroom
      exact hroom.2
  rw [streamAppendItem]
  split
  · trivial
  · exact htarget.bind fun t ht => (streamWriteEntry_room h _ ht).bind fun _ _ => trivial

end JitRedis
