import JitRedis.Stream.Reading

/-!
# What appending, trimming and deleting write

The effect of each operation on the entries of a node. An operation stops only if a listpack would become
too large.
-/

namespace JitRedis

open Fallible List StreamNode LpElement

abbrev OnlyFull (f : Fault) : Prop := f = .listpackFull

variable {n : StreamNode} {lp : Listpack} {i : StreamItem} {key : Bytes} {m id : StreamID}
  {fields : List (Bytes × Bytes)}

def sizedFields (fields : List (Bytes × Bytes)) : List (Bytes × Bytes) :=
  fields.map fun f => (lpSized f.1, lpSized f.2)

def newItem (same : Bool) (id : StreamID) (fields : List (Bytes × Bytes)) : StreamItem :=
  ⟨false, same, id, sizedFields fields⟩

def newNode (id : StreamID) (fields : List (Bytes × Bytes)) : StreamNode :=
  ⟨id, (sizedFields fields).map Prod.fst, [newItem true id fields]⟩

def StreamNode.append (n : StreamNode) (i : StreamItem) : StreamNode := { n with items := n.items ++ [i] }

@[simp] lemma length_sizedFields : (sizedFields fields).length = fields.length := length_map _

lemma lpAppendAll_spec (lp : Listpack) (texts : List Bytes) :
    Sat OnlyFull (fun lp' => lp'.elements = lp.elements ++ texts.map fun t => lpEncode (lpSized t))
      (lpAppendAll lp texts) := by
  induction texts generalizing lp with
  | nil => simp [lpAppendAll]
  | cons t texts ih =>
    rw [lpAppendAll, foldlM_cons]
    refine (lpAppend_spec lp t).bind fun lp' h => ?_
    refine (ih lp').mono fun lp'' h' => ?_
    rw [h', h, map_cons, append_assoc, singleton_append]

lemma lpEncode_length {k : Nat} (lp : Listpack) (h : k ≤ lp.elements.length) : lpEncode (ll2string k) = .int k := by
  have := lp.length_lt
  exact lpEncode_ll2string (by omega) (by omega)

lemma toInt64_range (x : UInt64) : -2 ^ 63 ≤ x.toInt64.toInt ∧ x.toInt64.toInt < 2 ^ 63 :=
  ⟨x.toInt64.le_toInt, x.toInt64.toInt_lt⟩

lemma lpEncode_toInt64 (x : UInt64) : lpEncode (ll2string x.toInt64.toInt) = .int x.toInt64.toInt :=
  lpEncode_ll2string (toInt64_range x).1 (toInt64_range x).2

lemma streamEntryBody_encoded {same : Bool} (id : StreamID) (h : lpEncode (ll2string fields.length) = .int fields.length) :
    (streamEntryBody same fields).map (fun t => lpEncode (lpSized t)) =
      (newItem same id fields).numfields ++ (newItem same id fields).pairs := by
  rw [streamEntryBody, StreamItem.numfields, StreamItem.pairs, newItem]
  cases same with
  | true => simp [sizedFields, Function.comp_def]
  | false => simp [sizedFields, lpSized_ll2string, h, map_flatMap, flatMap_map]

lemma streamAppendEntry_spec (lp : Listpack) (same : Bool) (id m : StreamID) (fields : List (Bytes × Bytes)) :
    Sat OnlyFull (fun lp' => lp'.elements = lp.elements ++ (newItem same id fields).elements m)
      (streamAppendEntry lp same id m fields) := by
  refine (lpAppendInteger_spec lp _).bind fun lp₁ h₁ => ?_
  refine (lpAppendInteger_spec lp₁ _).bind fun lp₂ h₂ => ?_
  refine (lpAppendInteger_spec lp₂ _).bind fun lp₃ h₃ => ?_
  refine (lpAppendAll_spec lp₃ _).bind fun lp₄ h₄ => ?_
  refine (lpAppendInteger_spec lp₄ _).mono fun lp₅ h₅ => ?_
  -- That the listpack holds all fields bounds their number.
  have hlen : fields.length ≤ (streamEntryBody same fields).length := by
    rw [streamEntryBody]
    cases same <;> simp
    omega
  have hlen₄ : lp₄.elements.length = lp₃.elements.length + (streamEntryBody same fields).length := by
    rw [h₄, length_append, length_map]
  have hbound := lp₄.length_lt
  have hnum : lpEncode (ll2string fields.length) = .int fields.length := lpEncode_length lp₄ (by omega)
  have hflags : lpEncode (ll2string (if same then 2 else 0)) = .int (newItem same id fields).flags := by
    cases same with
    | true => exact lpEncode_ll2string (v := 2) (by decide) (by decide)
    | false => exact lpEncode_ll2string (v := 0) (by decide) (by decide)
  have hcount : (newItem same id fields).lpCount = fields.length + 3 + ↑(if same then 0 else fields.length + 1) := by
    rw [StreamItem.lpCount, newItem, length_sizedFields]
  have hcount' : lpEncode (ll2string (newItem same id fields).lpCount) = .int (newItem same id fields).lpCount := by
    rw [hcount]
    exact lpEncode_ll2string (by split <;> omega) (by split <;> omega)
  rw [← hcount, hcount'] at h₅
  rw [h₅, h₄, h₃, h₂, h₁, hflags, lpEncode_toInt64, lpEncode_toInt64, streamEntryBody_encoded id hnum,
    StreamItem.elements, StreamItem.payload, StreamItem.head]
  simp [newItem]

lemma streamMasterEntry_spec (fields : List (Bytes × Bytes)) :
    Sat OnlyFull (fun lp => lp.elements = [.int 1, .int 0, .int fields.length] ++
        fields.map (fun f => lpEncode (lpSized f.1)) ++ [.int 0]) (streamMasterEntry fields) := by
  refine (lpAppendInteger_spec lpNew 1).bind fun lp₁ h₁ => ?_
  refine (lpAppendInteger_spec lp₁ 0).bind fun lp₂ h₂ => ?_
  refine (lpAppendInteger_spec lp₂ fields.length).bind fun lp₃ h₃ => ?_
  refine (lpAppendAll_spec lp₃ _).bind fun lp₄ h₄ => ?_
  refine (lpAppendInteger_spec lp₄ 0).mono fun lp₅ h₅ => ?_
  have hlen : fields.length ≤ lp₄.elements.length := by
    rw [h₄]
    simp
  rw [h₅, h₄, h₃, h₂, h₁, lpEncode_length lp₄ hlen, lpEncode_ll2string (v := 1) (by decide) (by decide),
    lpEncode_ll2string (v := 0) (by decide) (by decide), map_map]
  rfl

lemma length_text_lt {x} (h : x ∈ lp.elements) : x.text.length < 2 ^ 32 := by
  cases x with
  | int v =>
    have := length_ll2string_le v
    rw [text]
    omega
  | str s =>
    have hsize : (str s).size ≤ (lp.elements.map size).sum :=
      single_le_sum (fun _ _ => Nat.zero_le _) _ (mem_map_of_mem h)
    have hsmall := lp.small
    have hlen : s.length ≤ (str s).size := by
      rw [size, enclen]
      split <;> [skip; split] <;> omega
    rw [lpTotalBytes, uint32Max] at hsmall
    rw [text]
    omega

lemma sameFieldsLoop_eq {texts rest} (hlen : fields.length = texts.length)
    (hs : texts.map lpEncode ++ rest <:+ lp.elements) :
    sameFieldsLoop lp (lp.ptr (texts.map lpEncode ++ rest)) fields = .ok (decide (fields.map Prod.fst = texts)) := by
  induction fields generalizing texts with
  | nil =>
    obtain rfl := length_eq_zero_iff.mp hlen.symm
    rfl
  | cons f fields ih =>
    cases texts with
    | nil => cases hlen
    | cons t texts =>
      rw [map_cons, cons_append] at hs ⊢
      rw [sameFieldsLoop, lpGet_ptr hs, ok_bind, text_lpEncode]
      by_cases hf : t = f.1
      · subst hf
        rw [if_neg (by simp), lpNext_ptr hs, ok_bind, ih (Nat.succ.inj hlen) (suffix_of_cons hs)]
        simp
      · rw [if_pos hf]
        simp [Ne.symm hf]

lemma StreamNode.live_add_dead (n : StreamNode) : n.live.length + n.dead.length = n.items.length := by
  have := length_eq_length_filter_add (l := n.items) StreamItem.deleted
  rw [live, dead]
  omega

lemma StreamNode.Renders.length_lt (h : n.Renders (key, lp)) : n.items.length < 2 ^ 31 :=
  (length_items_le h.elements).trans_lt lp.length_lt

lemma streamReuseNode_spec (h : n.Renders (key, lp)) (fields : List (Bytes × Bytes)) :
    Sat OnlyFull (fun r => r.1.elements = .int (n.live.length + 1) :: n.elements.tail ∧
        r.2 = decide (fields.map Prod.fst = n.masterFields)) (streamReuseNode lp fields) := by
  have helems : lp.elements = [] ++ .int n.live.length :: n.elements.tail := h.elements
  have hitems := h.length_lt
  have hcounts := n.live_add_dead
  have hfirst : lpFirst lp = lp.ptr (.int n.live.length :: n.elements.tail) := by
    rw [lpFirst_eq_ptr, helems]
    rfl
  have h0 : .int n.live.length :: n.elements.tail <:+ lp.elements := by
    rw [helems]
    exact suffix_rfl
  rw [streamReuseNode, hfirst, lpGetInteger_ptr h0, ok_bind]
  refine Sat.bind (lpReplaceInteger_spec helems (v := n.live.length + 1) (by omega) (by omega)) fun lp' h' => ?_
  have hptr : lp.ptr (.int n.live.length :: n.elements.tail) =
      lp'.ptr (.int (n.live.length + 1) :: n.elements.tail) := by
    apply ptr_congr
    · rw [helems, h']
      rfl
    · rfl
  have h0' : .int (n.live.length + 1) :: n.elements.tail <:+ lp'.elements := by
    rw [h']
    exact suffix_rfl
  have h1 := suffix_of_cons h0'
  rw [elements, tail_cons] at h0' h1 hptr ⊢
  have h2 := suffix_of_cons h1
  have h3 := suffix_of_cons h2
  have hsame : streamSameFields lp' (lp'.ptr n.master) n.masterFields.length fields =
      .ok (decide (fields.map Prod.fst = n.masterFields)) := by
    rw [streamSameFields]
    split
    · rename_i heq
      exact sameFieldsLoop_eq (Int.ofNat.inj heq) h3
    · rename_i hne
      rw [decide_eq_false fun heq => hne (by rw [← heq, length_map])]
  rw [hptr]
  simp only [lpNext_ptr h0', lpNext_ptr h1, lpGetInteger_ptr h2, lpNext_ptr h2, ok_bind, hsame]
  exact ⟨h', rfl⟩

lemma streamWriteEntry_new (id : StreamID) (fields : List (Bytes × Bytes)) :
    Sat OnlyFull (newNode id fields).Renders (streamWriteEntry id fields none) := by
  refine (streamMasterEntry_spec fields).bind fun lp h => ?_
  refine (streamAppendEntry_spec lp true id id fields).bind fun lp' h' => ?_
  refine ⟨rfl, ?_, ?_, ⟨_, [], rfl, rfl⟩, by simp [live, newNode, newItem]⟩
  · rw [h', h]
    simp [elements, live, dead, master, newNode, newItem, markedTail,
      entryMark, sizedFields, Function.comp_def]
  · intro i hi _
    cases hi with
    | head => rfl
    | tail _ hi => cases hi

lemma elements_append (h : i.deleted = false) : (n.append i).elements =
    .int (n.live.length + 1) :: n.elements.tail ++ i.elements n.masterId := by
  simp [elements, append, live, dead, master, markedTail, h]

lemma StreamNode.Renders.lpSized_eq (h : n.Renders (key, lp)) {t : Bytes} (ht : t ∈ n.masterFields) :
    lpSized t = t := by
  have hmem : lpEncode t ∈ lp.elements := by
    rw [show lp.elements = n.elements from h.elements, StreamNode.elements, StreamNode.master]
    simp only [mem_cons, mem_append]
    exact .inr (.inr (.inr (.inl (mem_map_of_mem ht))))
  have hlen := length_text_lt hmem
  rw [text_lpEncode] at hlen
  exact JitRedis.lpSized_eq hlen

lemma streamWriteEntry_old (h : n.Renders (key, lp)) (id : StreamID) (fields : List (Bytes × Bytes)) :
    Sat OnlyFull (fun r => r.1 = key ∧ ∃ same, (n.append (newItem same id fields)).Renders r)
      (streamWriteEntry id fields (some (key, lp))) := by
  have hkey : key = streamEncodeID n.masterId := h.key
  rw [streamWriteEntry, if_neg (by simp [hkey])]
  refine (streamReuseNode_spec h fields).bind fun r hr => ?_
  obtain ⟨lp', same⟩ := r
  obtain ⟨hlp', rfl⟩ := hr
  refine (streamAppendEntry_spec lp' _ id _ fields).bind fun lp'' h'' => ?_
  refine ⟨rfl, decide (fields.map Prod.fst = n.masterFields), hkey, ?_, ?_, ?_, ?_⟩
  · rw [elements_append rfl]
    rw [hkey, streamDecodeID_encode] at h''
    rw [h'', show lp'.elements = _ from hlp']
  · intro i hi hsame
    cases mem_append.mp hi with
    | inl hi => exact h.same i hi hsame
    | inr hi =>
      obtain rfl := mem_singleton.mp hi
      have heq : fields.map Prod.fst = n.masterFields := of_decide_eq_true hsame
      show (sizedFields fields).map Prod.fst = n.masterFields
      rw [← heq, sizedFields, map_map]
      refine map_congr_left fun f hf => h.lpSized_eq ?_
      rw [← heq]
      exact mem_map_of_mem hf
  · obtain ⟨i, rest, hitems, hid⟩ := h.first
    exact ⟨i, rest ++ [_], by rw [append, hitems]; rfl, hid⟩
  · rw [live, append, filter_append]
    exact append_ne_nil_of_left_ne_nil h.live _

/-- The stream after an entry was added, to a new node or to the last one. -/
inductive Appended (P : StreamNode → Bytes × Listpack → Prop) (s : Stream) (fields : List (Bytes × Bytes))
    (id : StreamID) : Stream → Prop
  | new {e : Bytes × Listpack} (h : (newNode id fields).Renders e) :
    Appended P s fields id { s with rax := s.rax.insert e.1 e.2, length := s.length + 1, lastId := id }
  | old {n : StreamNode} {lp : Listpack} {e : Bytes × Listpack} {same : Bool}
    (last : s.rax.entries.getLast? = some (e.1, lp)) (hn : P n (e.1, lp))
    (h : (n.append (newItem same id fields)).Renders e) :
    Appended P s fields id { s with rax := s.rax.insert e.1 e.2, length := s.length + 1, lastId := id }

lemma streamAppendTarget_spec (cfg : StreamConfig) (h : n.Renders (key, lp)) :
    Sat NoFault (fun t => t = none ∨ t = some (key, lp)) (streamAppendTarget cfg (some (key, lp))) := by
  have hcount : ∃ count, lpGetInteger lp (lpFirst lp) = .ok count := by
    have hs : n.elements <:+ lp.elements := by
      rw [show lp.elements = n.elements from h.elements]
    refine ⟨n.live.length, ?_⟩
    rw [lpFirst_eq_ptr, show lp.elements = n.elements from h.elements]
    exact lpGetInteger_ptr hs
  obtain ⟨count, hcount⟩ := hcount
  have hfull : ∃ full, streamTailFull cfg lp = .ok full := by
    rw [streamTailFull, hcount]
    split
    · exact ⟨_, rfl⟩
    · split
      · exact ⟨_, rfl⟩
      · exact ⟨_, rfl⟩
  obtain ⟨full, hfull⟩ := hfull
  rw [streamAppendTarget, hfull, ok_bind, sat_ok]
  split
  · exact .inl rfl
  · exact .inr rfl

lemma streamAppendItem_spec (cfg : StreamConfig) {P} {s : Stream}
    {useId} {now : UInt64} (hP : ∀ n e, P n e → n.Renders e)
    (hlast : ∀ e, s.rax.entries.getLast? = some e → ∃ n, P n e) :
    Sat OnlyFull (fun r => if useId.any (fun id => streamCompareID id s.lastId ≤ 0) then r = (s, none)
        else ∃ s', r = (s', some (useId.getD (streamNextID s.lastId now))) ∧
          Appended P s fields (useId.getD (streamNextID s.lastId now)) s')
      (streamAppendItem cfg s fields useId now) := by
  rw [streamAppendItem]
  split
  · rfl
  generalize useId.getD (streamNextID s.lastId now) = id
  cases hl : s.rax.entries.getLast? with
  | none =>
    rw [streamAppendTarget, ok_bind]
    refine (streamWriteEntry_new id fields).bind fun e he => ?_
    exact ⟨_, rfl, .new he⟩
  | some e =>
    obtain ⟨n, hn⟩ := hlast e hl
    have render := hP n e hn
    refine (streamAppendTarget_spec cfg render).total.bind fun t ht => ?_
    rcases ht with rfl | rfl
    · refine (streamWriteEntry_new id fields).bind fun e he => ?_
      exact ⟨_, rfl, .new he⟩
    refine (streamWriteEntry_old render id fields).bind fun e' he => ?_
    obtain ⟨hkey, same, he⟩ := he
    obtain ⟨key, lp⟩ := e
    obtain rfl : e'.1 = key := hkey
    exact ⟨_, rfl, .old hl hn he⟩

end JitRedis
