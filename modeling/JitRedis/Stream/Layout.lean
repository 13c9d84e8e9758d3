import JitRedis.Listpack.Walk
import JitRedis.Stream.Iterator

/-!
# The layout of a node

What the listpack of a node holds: the master entry, and the entries with their flags, IDs, fields and
values. The iterator reads exactly this, in both directions.
-/

namespace JitRedis

open Fallible List

/-- An entry of a node, deleted or not. -/
structure StreamItem where
  deleted : Bool
  same : Bool
  id : StreamID
  fields : List (Bytes × Bytes)

/-- A node: the ID and the fields of its master entry, and its entries. -/
structure StreamNode where
  masterId : StreamID
  masterFields : List Bytes
  items : List StreamItem

namespace StreamItem

def flags (i : StreamItem) : Int := (if i.same then 2 else 0) + if i.deleted then 1 else 0

/-- The number of fields, which an entry with the fields of the master entry does not have. -/
def numfields (i : StreamItem) : List LpElement := if i.same then [] else [.int i.fields.length]

/-- The fields and values, or the values only. -/
def pairs (i : StreamItem) : List LpElement :=
  if i.same then i.fields.map fun f => lpEncode f.2 else i.fields.flatMap fun f => [lpEncode f.1, lpEncode f.2]

def lpCount (i : StreamItem) : Int := i.fields.length + 3 + if i.same then 0 else i.fields.length + 1

/-- Flags and differences of the ID to the one of the master entry. -/
def head (masterId : StreamID) (i : StreamItem) : List LpElement :=
  [.int i.flags, .int (i.id.ms - masterId.ms).toInt64.toInt, .int (i.id.seq - masterId.seq).toInt64.toInt]

/-- All but the final `lp-count`. -/
def payload (masterId : StreamID) (i : StreamItem) : List LpElement := i.head masterId ++ i.numfields ++ i.pairs

def elements (masterId : StreamID) (i : StreamItem) : List LpElement := i.payload masterId ++ [.int i.lpCount]

end StreamItem

/-- The final element of the entry before, or of the master entry. -/
def entryMark (done : List StreamItem) : LpElement := .int ((done.getLast?.map StreamItem.lpCount).getD 0)

/-- The listpack from the mark behind the entries `done` on. -/
def markedTail (masterId : StreamID) (done todo : List StreamItem) : List LpElement :=
  entryMark done :: todo.flatMap (StreamItem.elements masterId)

namespace StreamNode

def live (n : StreamNode) : List StreamItem := n.items.filter fun i => !i.deleted

def dead (n : StreamNode) : List StreamItem := n.items.filter StreamItem.deleted

def master (n : StreamNode) : List LpElement := n.masterFields.map lpEncode ++ markedTail n.masterId [] n.items

def elements (n : StreamNode) : List LpElement :=
  .int n.live.length :: .int n.dead.length :: .int n.masterFields.length :: n.master

end StreamNode

/-- A node of the radix tree holds `n`. -/
structure StreamNode.Renders (n : StreamNode) (e : Bytes × Listpack) : Prop where
  key : e.1 = streamEncodeID n.masterId
  elements : e.2.elements = n.elements
  /-- Entries without fields of their own have those of the master entry. -/
  same : ∀ i ∈ n.items, i.same = true → i.fields.map Prod.fst = n.masterFields
  /-- The first entry has the ID of the master entry. -/
  first : ∃ i rest, n.items = i :: rest ∧ i.id = n.masterId
  live : n.live ≠ []

variable {n : StreamNode} {lp : Listpack} {i : StreamItem} {done todo : List StreamItem} {m : StreamID}

lemma entryMark_snoc : entryMark (done ++ [i]) = .int i.lpCount := by
  rw [entryMark, getLast?_concat]
  rfl

lemma markedTail_cons : markedTail m done (i :: todo) =
    entryMark done :: (i.payload m ++ markedTail m (done ++ [i]) todo) := by
  rw [markedTail, flatMap_cons, StreamItem.elements, markedTail, entryMark_snoc, append_assoc]
  rfl

lemma markedTail_ne_nil : markedTail m done todo ≠ [] := cons_ne_nil _ _

lemma markedTail_suffix (h : n.items = done ++ todo) : markedTail n.masterId done todo <:+ n.elements := by
  have start : markedTail n.masterId [] n.items <:+ n.elements :=
    ((suffix_append _ _).trans (suffix_cons _ _)).trans
      ((suffix_cons _ _).trans (suffix_cons _ _))
  rw [h] at start
  refine List.IsSuffix.trans ?_ start
  clear h start
  -- By recursion on the entries passed, from the last one.
  induction done using List.reverseRecOn generalizing todo with
  | nil => exact suffix_rfl
  | append_singleton done i ih =>
    rw [append_assoc, singleton_append]
    refine List.IsSuffix.trans ?_ ih
    rw [markedTail_cons]
    exact (suffix_append _ _).trans (suffix_cons _ _)

lemma length_items_le (h : lp.elements = n.elements) : n.items.length ≤ lp.elements.length := by
  have hflat : ∀ l : List StreamItem, l.length ≤ (l.flatMap (StreamItem.elements n.masterId)).length := by
    intro l
    induction l with
    | nil => exact le_rfl
    | cons i l ih =>
      rw [flatMap_cons, length_append, length_cons, StreamItem.elements, length_append,
        length_singleton]
      omega
  have := hflat n.items
  rw [h, StreamNode.elements, StreamNode.master, markedTail]
  simp only [length_cons, length_append]
  omega

lemma StreamItem.length_payload : (i.payload m).length = i.lpCount := by
  rw [payload, lpCount, numfields,
    pairs]
  cases i.same with
  | true =>
    simp [head]
    omega
  | false =>
    simp [head]
    omega

lemma StreamItem.lpCount_pos (i : StreamItem) : 0 < i.lpCount := by
  rw [lpCount]
  split <;> omega

@[simp] lemma flagSamefields_flags (i : StreamItem) : flagSamefields i.flags = i.same := by
  rw [StreamItem.flags]
  cases i.same <;> cases i.deleted <;> decide

@[simp] lemma flagDeleted_flags (i : StreamItem) : flagDeleted i.flags = i.deleted := by
  rw [StreamItem.flags]
  cases i.same <;> cases i.deleted <;> decide

@[simp] lemma setDeleted_flags (i : StreamItem) : setDeleted i.flags = { i with deleted := true }.flags := by
  obtain ⟨deleted, same, id, fields⟩ := i
  cases deleted <;> cases same <;> simp [setDeleted, StreamItem.flags]

lemma add_ofInt_sub (a b : UInt64) : b + UInt64.ofInt (a - b).toInt64.toInt = a := by
  have hmod : ∀ x : UInt64, UInt64.ofInt x.toInt64.toInt = x := by
    intro x
    have h : x.toInt64.toInt = (x.toNat : Int).bmod (2 ^ 64) := by
      rw [← Int64.toInt_toBitVec, UInt64.toBitVec_toInt64, BitVec.toInt_eq_toNat_bmod, UInt64.toNat_toBitVec]
    have hlt := x.toNat_lt
    have hbmod := Int.bmod_emod (x := (x.toNat : Int)) (m := 2 ^ 64)
    apply UInt64.toNat_inj.mp
    rw [UInt64.ofInt, UInt64.toNat_ofNat']
    omega
  rw [hmod, UInt64.add_comm, UInt64.sub_add_cancel]

@[simp] lemma length_streamEncodeID (id : StreamID) : (streamEncodeID id).length = 16 := by
  rw [streamEncodeID, length_append, BigEndian.length_encode, BigEndian.length_encode]

@[simp] lemma streamDecodeID_encode (id : StreamID) : streamDecodeID (streamEncodeID id) = id := by
  have hms := id.ms.toNat_lt
  have hseq := id.seq.toNat_lt
  rw [streamDecodeID, streamEncodeID, take_left' (BigEndian.length_encode ..),
    drop_left' (BigEndian.length_encode ..), BigEndian.decode_encode (by omega),
    BigEndian.decode_encode (by omega), UInt64.ofNat_toNat, UInt64.ofNat_toNat]

lemma streamEncodeID_lt {a b} : streamEncodeID a < streamEncodeID b ↔ a < b := by
  have hval : ∀ id : StreamID, BigEndian.decode (streamEncodeID id) = id.val := by
    intro id
    have hms := id.ms.toNat_lt
    have hseq := id.seq.toNat_lt
    rw [streamEncodeID, BigEndian.decode_append, BigEndian.length_encode, BigEndian.decode_encode (by omega),
      BigEndian.decode_encode (by omega)]
    rfl
  rw [BigEndian.lt_iff_decode_lt (by simp), hval, hval]
  exact Iff.rfl

lemma streamEncodeID_le {a b} : streamEncodeID a ≤ streamEncodeID b ↔ a ≤ b := by
  rw [← not_lt, streamEncodeID_lt, not_lt]

namespace StreamIterator

/-- The iterator is in the listpack of a node. -/
structure Within (si : StreamIterator) (n : StreamNode) (lp : Listpack) : Prop where
  listpack : si.lp = some lp
  renders : n.Renders (si.key, lp)
  masterId : si.masterId = n.masterId
  count : si.masterFieldsCount = n.masterFields.length
  start : si.masterFieldsStart = lp.ptr n.master

variable {si : StreamIterator}

section

variable (w : si.Within n lp)
include w

lemma Within.suffix (h : n.items = done ++ todo) :
    markedTail n.masterId done todo <:+ lp.elements := by
  rw [w.renders.elements]
  exact markedTail_suffix h

section

variable (h : n.items = done ++ i :: todo)
include h

lemma Within.seek_forward (hrev : si.rev = false)
    (he : si.lpEle = lp.ptr (markedTail n.masterId done (i :: todo))) :
    streamIteratorSeekEntry si lp =
      .ok ({ si with lpEle := lp.ptr (i.payload n.masterId ++ markedTail n.masterId (done ++ [i]) todo) }, true) := by
  have hs := w.suffix h
  rw [markedTail_cons] at hs he
  rw [streamIteratorSeekEntry, if_neg (by simp [hrev]), he, lpNext_ptr hs]
  rfl

lemma Within.payload_back
    (he : si.lpEle = lp.ptr (markedTail n.masterId (done ++ [i]) todo)) :
    lpGetInteger lp si.lpEle = .ok i.lpCount ∧ lpPrevTimes lp i.lpCount.toNat si.lpEle =
      .ok (lp.ptr (i.payload n.masterId ++ markedTail n.masterId (done ++ [i]) todo)) := by
  have hs := w.suffix h
  rw [markedTail_cons] at hs
  have hmark := suffix_of_append (suffix_of_cons hs)
  have hback := lpPrevTimes_ptr (suffix_of_cons hs) markedTail_ne_nil
  rw [← Int.toNat_natCast (i.payload n.masterId).length, StreamItem.length_payload] at hback
  rw [markedTail, entryMark_snoc] at hmark
  refine ⟨?_, he ▸ hback⟩
  rw [he, markedTail, entryMark_snoc, lpGetInteger_ptr hmark]

lemma Within.seek_backward (hrev : si.rev = true)
    (he : si.lpEle = lp.ptr (markedTail n.masterId (done ++ [i]) todo)) :
    streamIteratorSeekEntry si lp =
      .ok ({ si with lpEle := lp.ptr (i.payload n.masterId ++ markedTail n.masterId (done ++ [i]) todo) }, true) := by
  obtain ⟨hcount, hback⟩ := w.payload_back h he
  rw [streamIteratorSeekEntry, if_pos hrev, hcount, ok_bind, if_neg i.lpCount_pos.ne', hback, ok_bind]

lemma Within.read
    (he : si.lpEle = lp.ptr (i.payload n.masterId ++ markedTail n.masterId (done ++ [i]) todo)) :
    streamIteratorReadEntry si lp =
      .ok ({ si with lpEle := lp.ptr (i.pairs ++ markedTail n.masterId (done ++ [i]) todo), lpFlags := si.lpEle },
        i.flags, i.id, i.fields.length) := by
  have hs := w.suffix h
  rw [markedTail_cons] at hs
  have hs := suffix_of_cons hs
  rw [StreamItem.payload, StreamItem.head, append_assoc] at hs he
  simp only [cons_append, nil_append] at hs he
  have h1 := suffix_of_cons hs
  have h2 := suffix_of_cons h1
  have h3 := suffix_of_cons h2
  have hmem : i ∈ n.items := by
    rw [h]
    simp
  have hnum : streamIteratorNumfields lp (lp.ptr (i.numfields ++ (i.pairs ++ markedTail n.masterId (done ++ [i]) todo)))
      i.flags si.masterFieldsCount =
        .ok (i.fields.length, lp.ptr (i.pairs ++ markedTail n.masterId (done ++ [i]) todo)) := by
    rw [streamIteratorNumfields, flagSamefields_flags]
    cases hsame : i.same with
    | true =>
      have := congrArg List.length (w.renders.same i hmem hsame)
      rw [length_map] at this
      rw [if_pos rfl, StreamItem.numfields, hsame, if_pos rfl, nil_append, w.count, ← this]
    | false =>
      rw [StreamItem.numfields, hsame] at h3 ⊢
      simp only [Bool.false_eq_true, if_false, cons_append, nil_append] at h3 ⊢
      rw [lpGetInteger_ptr h3, ok_bind, lpNext_ptr h3, ok_bind]
  simp only [streamIteratorReadEntry, he, lpGetInteger_ptr hs, lpNext_ptr hs, lpGetInteger_ptr h1, lpNext_ptr h1,
    lpGetInteger_ptr h2, lpNext_ptr h2, ok_bind, hnum, w.masterId, add_ofInt_sub]

lemma Within.skip_forward (hrev : si.rev = false)
    (he : si.lpEle = lp.ptr (i.pairs ++ markedTail n.masterId (done ++ [i]) todo)) :
    streamIteratorSkipEntry si lp i.flags i.fields.length =
      .ok { si with lpEle := lp.ptr (markedTail n.masterId (done ++ [i]) todo) } := by
  have hs := w.suffix h
  rw [markedTail_cons, StreamItem.payload, append_assoc] at hs
  have hnext := lpNextTimes_ptr (suffix_of_append (suffix_of_cons hs))
  have hlen : (if i.same then (i.fields.length : Int) else i.fields.length * 2).toNat = i.pairs.length := by
    rw [StreamItem.pairs]
    cases i.same with
    | true => simp
    | false =>
      simp
      omega
  rw [streamIteratorSkipEntry, if_neg (by simp [hrev])]
  simp only [flagSamefields_flags, hlen, he, hnext, ok_bind]

lemma Within.skip_backward (hrev : si.rev = true)
    (he : si.lpEle = lp.ptr (i.pairs ++ markedTail n.masterId (done ++ [i]) todo)) :
    streamIteratorSkipEntry si lp i.flags i.fields.length =
      .ok { si with lpEle := lp.ptr (markedTail n.masterId done (i :: todo)) } := by
  have hs := w.suffix h
  have hlen : (if i.same then 4 else 5) = (entryMark done :: (i.head n.masterId ++ i.numfields)).length := by
    rw [StreamItem.numfields]
    cases i.same <;> rfl
  have hne : i.pairs ++ markedTail n.masterId (done ++ [i]) todo ≠ [] :=
    append_ne_nil_of_right_ne_nil _ markedTail_ne_nil
  have htail : markedTail n.masterId done (i :: todo) = (entryMark done :: (i.head n.masterId ++ i.numfields)) ++
      (i.pairs ++ markedTail n.masterId (done ++ [i]) todo) := by
    rw [markedTail_cons, StreamItem.payload]
    simp
  rw [htail] at hs ⊢
  rw [streamIteratorSkipEntry, if_pos hrev]
  simp only [flagSamefields_flags, hlen, he, lpPrevTimes_ptr hs hne, ok_bind]

lemma Within.stepBack (hrev : si.rev = true)
    (he : si.lpEle = lp.ptr (markedTail n.masterId (done ++ [i]) todo)) :
    streamIteratorStepBack si lp = .ok { si with lpEle := lp.ptr (markedTail n.masterId done (i :: todo)) } := by
  obtain ⟨hcount, hback⟩ := w.payload_back h he
  have hs := w.suffix h
  rw [markedTail_cons] at hs ⊢
  have hprev := lpPrev_ptr hs (append_ne_nil_of_right_ne_nil _ markedTail_ne_nil)
  rw [streamIteratorStepBack, if_pos hrev, hcount, ok_bind, hback, ok_bind, hprev, ok_bind]

end

end

lemma getFields_same {fields ms vs}
    (hflags : flagSamefields si.entryFlags = true)
    (hm : fields.map (fun f => lpEncode f.1) ++ ms <:+ lp.elements)
    (hv : fields.map (fun f => lpEncode f.2) ++ vs <:+ lp.elements)
    (hptr : si.masterFieldsPtr = lp.ptr (fields.map (fun f => lpEncode f.1) ++ ms))
    (he : si.lpEle = lp.ptr (fields.map (fun f => lpEncode f.2) ++ vs)) :
    streamIteratorGetFields lp fields.length si =
      .ok ({ si with masterFieldsPtr := lp.ptr ms, lpEle := lp.ptr vs }, fields) := by
  induction fields generalizing si with
  | nil =>
    rw [map_nil, nil_append] at hptr he
    rw [← hptr, ← he]
    rfl
  | cons f fields ih =>
    rw [map_cons, cons_append] at hm hv hptr he
    have hrest := @ih { si with
      masterFieldsPtr := lp.ptr (fields.map (fun f => lpEncode f.1) ++ ms)
      lpEle := lp.ptr (fields.map (fun f => lpEncode f.2) ++ vs) }
      hflags (suffix_of_cons hm) (suffix_of_cons hv) rfl rfl
    rw [length_cons, streamIteratorGetFields, streamIteratorGetField, if_pos hflags, hptr, he]
    simp only [lpGet_ptr hm, lpNext_ptr hm, lpGet_ptr hv, lpNext_ptr hv, ok_bind, hrest, text_lpEncode]

lemma getFields_own {fields vs}
    (hflags : flagSamefields si.entryFlags = false)
    (hv : fields.flatMap (fun f => [lpEncode f.1, lpEncode f.2]) ++ vs <:+ lp.elements)
    (he : si.lpEle = lp.ptr (fields.flatMap (fun f => [lpEncode f.1, lpEncode f.2]) ++ vs)) :
    streamIteratorGetFields lp fields.length si = .ok ({ si with lpEle := lp.ptr vs }, fields) := by
  induction fields generalizing si with
  | nil =>
    rw [flatMap_nil, nil_append] at he
    rw [← he]
    rfl
  | cons f fields ih =>
    rw [flatMap_cons, append_assoc, cons_append, cons_append, nil_append] at hv he
    have hv' := suffix_of_cons hv
    have hrest := @ih { si with
      lpEle := lp.ptr (fields.flatMap (fun f => [lpEncode f.1, lpEncode f.2]) ++ vs) }
      hflags (suffix_of_cons hv') rfl
    rw [length_cons, streamIteratorGetFields, streamIteratorGetField, if_neg (by simp [hflags]), he]
    simp only [lpGet_ptr hv, lpNext_ptr hv, lpGet_ptr hv', lpNext_ptr hv', ok_bind, hrest, text_lpEncode]

lemma Within.getFields (w : si.Within n lp) (h : n.items = done ++ i :: todo) (hflags : si.entryFlags = i.flags)
    (hptr : i.same = true → si.masterFieldsPtr = lp.ptr n.master)
    (he : si.lpEle = lp.ptr (i.pairs ++ markedTail n.masterId (done ++ [i]) todo)) :
    ∃ p, streamIteratorGetFields lp i.fields.length si =
      .ok ({ si with masterFieldsPtr := p, lpEle := lp.ptr (markedTail n.masterId (done ++ [i]) todo) }, i.fields) := by
  have hs := w.suffix h
  rw [markedTail_cons, StreamItem.payload, append_assoc] at hs
  have hpairs := suffix_of_append (suffix_of_cons hs)
  rw [StreamItem.pairs] at hpairs he
  cases hsame : i.same with
  | true =>
    have hmem : i ∈ n.items := by
      rw [h]
      simp
    have hfields : n.masterFields.map lpEncode = i.fields.map fun f => lpEncode f.1 := by
      rw [← w.renders.same i hmem hsame, map_map]
      rfl
    have hmaster : n.master <:+ lp.elements := by
      rw [w.renders.elements]
      exact ((suffix_cons _ _).trans (suffix_cons _ _)).trans (suffix_cons _ _)
    rw [hsame] at hpairs he
    have hp := hptr hsame
    rw [StreamNode.master, hfields] at hmaster hp
    exact ⟨_, getFields_same (by rw [hflags, flagSamefields_flags, hsame]) hmaster hpairs hp he⟩
  | false =>
    rw [hsame] at hpairs he
    exact ⟨_, getFields_own (by rw [hflags, flagSamefields_flags, hsame]) hpairs he⟩

end StreamIterator

end JitRedis
