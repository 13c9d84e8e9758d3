import JitRedis.Stream.Ranges

/-!
# A stream is an increasing sequence of entries

Appending, deleting, trimming and reading refine the operations of a sequence of entries whose IDs increase
strictly. The sequence comes in pieces, one for each node, as approximate trimming removes whole nodes.
-/

namespace JitRedis

open Fallible StreamIterator List StreamNode

/-- An ID, and fields with their values. -/
abbrev Entry := StreamID × List (Bytes × Bytes)

/-- What a stream stands for: its entries, node by node, and the IDs of all entries that were ever stored. -/
structure EntryLog where
  nodes : List (List Entry)
  stored : List StreamID
  last : StreamID
  increasing : nodes.flatten.Pairwise (·.1 < ·.1)
  kept : ∀ e ∈ nodes.flatten, e.1 ∈ stored
  bounded : ∀ id ∈ stored, id ≤ last

def EntryLog.entries (t : EntryLog) : List Entry := t.nodes.flatten

def EntryLog.empty : EntryLog := ⟨[], [], ⟨0, 0⟩, .nil, by simp, by simp⟩

/-- The operations; an append without an ID generates one from the clock. -/
inductive StreamOp where
  | append (useId : Option StreamID) (fields : List (Bytes × Bytes)) (now : UInt64)
  | delete (id : StreamID)
  | trim (maxlen : Nat) (approx : Bool)
  | range (start stop : Option StreamID) (rev : Bool)

inductive StreamReply where
  | appended (id : Option StreamID)
  | deleted (found : Bool)
  | trimmed (removed : Nat)
  | ranged (entries : List Entry)
  deriving DecidableEq

/-- Collect the entries that an iteration emits. -/
def streamRange (s : Stream) (start stop : Option StreamID) (rev : Bool) : Except Fault (List Entry) :=
  (streamForEach (fun l id fields => .ok (l ++ [(id, fields)])) 0 s.fuel (streamIteratorStart s start stop rev) 0
    []).map Prod.fst

def streamStep (cfg : StreamConfig) (s : Stream) : StreamOp → Except Fault (Stream × StreamReply)
  | .append useId fields now => do
    let (s, id) ← streamAppendItem cfg s fields useId now
    .ok (s, .appended id)
  | .delete id => do
    let (s, found) ← streamDeleteItem s id
    .ok (s, .deleted found)
  | .trim maxlen approx => do
    let (s, removed) ← streamTrimByLength s maxlen approx
    .ok (s, .trimmed removed)
  | .range start stop rev => do
    let l ← streamRange s start stop rev
    .ok (s, .ranged l)

/-- Drop entries from the oldest on, and the nodes that have none left. -/
def dropEntries : Nat → List (List Entry) → List (List Entry)
  | _, [] => []
  | k, l :: nodes => if l.length ≤ k then dropEntries (k - l.length) nodes else l.drop k :: nodes

/-- An entry is filed in a new node or in the last one. -/
def Filed (nodes : List (List Entry)) (e : Entry) (nodes' : List (List Entry)) : Prop :=
  nodes' = nodes ++ [[e]] ∨ ∃ init l, nodes = init ++ [l] ∧ nodes' = init ++ [l ++ [e]]

def EntryLog.range (t : EntryLog) (start stop : Option StreamID) : List Entry :=
  t.entries.filter fun e => decide (startId start ≤ e.1) && decide (e.1 ≤ stopId stop)

/-- The operations on a log, and what they return. -/
inductive LogStep (t : EntryLog) : StreamOp → StreamReply → EntryLog → Prop
  | rejected {id : StreamID} {fields : List (Bytes × Bytes)} {now : UInt64} (h : id ≤ t.last) :
    LogStep t (.append (some id) fields now) (.appended none) t
  | appended {useId : Option StreamID} {fields : List (Bytes × Bytes)} {now : UInt64} {id : StreamID} {t' : EntryLog}
    (hid : useId = some id ∨ useId = none ∧ id = streamNextID t.last now) (hlt : t.last < id)
    (nodes : Filed t.nodes (id, fields) t'.nodes) (entries : t'.entries = t.entries ++ [(id, fields)])
    (stored : t'.stored = t.stored ++ [id]) (last : t'.last = id) :
    LogStep t (.append useId fields now) (.appended (some id)) t'
  | missing {id : StreamID} (h : ∀ e ∈ t.entries, e.1 ≠ id) : LogStep t (.delete id) (.deleted false) t
  | deleted {id : StreamID} {e : Entry} {t' : EntryLog} (he : e ∈ t.entries) (hid : e.1 = id)
    (nodes : t'.nodes = (t.nodes.map (·.filter (·.1 ≠ id))).filter (· ≠ []))
    (entries : t'.entries = t.entries.filter (·.1 ≠ id)) (stored : t'.stored = t.stored) (last : t'.last = t.last) :
    LogStep t (.delete id) (.deleted true) t'
  | trimmed {maxlen : Nat} {t' : EntryLog} (nodes : t'.nodes = dropEntries (t.entries.length - maxlen) t.nodes)
    (entries : t'.entries = t.entries.drop (t.entries.length - maxlen)) (stored : t'.stored = t.stored)
    (last : t'.last = t.last) : LogStep t (.trim maxlen false) (.trimmed (t.entries.length - maxlen)) t'
  | trimmedNodes {maxlen k : Nat} {t' : EntryLog} (nodes : t'.nodes = t.nodes.drop k)
    (enough : k = 0 ∨ maxlen ≤ t'.entries.length) (stored : t'.stored = t.stored) (last : t'.last = t.last) :
    LogStep t (.trim maxlen true) (.trimmed (t.entries.length - t'.entries.length)) t'
  | ranged {start stop : Option StreamID} :
    LogStep t (.range start stop false) (.ranged (t.range start stop)) t
  | rangedBack {start stop : Option StreamID} :
    LogStep t (.range start stop true) (.ranged (t.range start stop).reverse) t

def StreamItem.entry (i : StreamItem) : Entry := (i.id, i.fields)

def StreamNode.entries (n : StreamNode) : List Entry := n.live.map StreamItem.entry

/-- The entries of nodes are laid out in the tree, in order. -/
structure Laid (s : Stream) (last : StreamID) (nodes : List StreamNode) : Prop where
  renders : List.Forall₂ StreamNode.Renders nodes s.rax.entries
  increasing : Increasing nodes
  bounded : ∀ i ∈ allItems nodes, i.id ≤ last

lemma Laid.ordered {s : Stream} {last nodes} (h : Laid s last nodes) : Ordered nodes :=
  h.increasing.ordered h.renders

structure StandsFor (s : Stream) (t : EntryLog) : Prop where
  laid : ∃ nodes, Laid s t.last nodes ∧ t.nodes = nodes.map StreamNode.entries
  length : s.length = t.entries.length
  last : s.lastId = t.last

/-- An append whose texts have lengths of 32 bits, and for which there is a next ID if it needs one. -/
def StreamOp.Admissible (s : Stream) : StreamOp → Prop
  | .append useId fields now => (∀ f ∈ fields, f.1.length < 2 ^ 32 ∧ f.2.length < 2 ^ 32) ∧
      (useId = none → s.lastId.ms < now ∨ s.lastId.seq ≠ -1)
  | _ => True

instance (s : Stream) (op : StreamOp) : Decidable (op.Admissible s) := by
  cases op <;> unfold StreamOp.Admissible <;> infer_instance

variable {s s' : Stream} {t : EntryLog} {nodes : List StreamNode} {n : StreamNode} {fields : List (Bytes × Bytes)}
  {id last : StreamID}

lemma streamCompareID_le {a b} : streamCompareID a b ≤ 0 ↔ a ≤ b := by
  have ha := a.seq.toNat_lt
  have hb := b.seq.toNat_lt
  show _ ↔ a.val ≤ b.val
  rw [streamCompareID, StreamID.val, StreamID.val]
  simp only [UInt64.lt_iff_toNat_lt]
  split <;> [skip; split <;> [skip; split <;> [skip; split]]] <;> omega

lemma lt_streamNextID {now : UInt64} (h : last.ms < now ∨ last.seq ≠ -1) : last < streamNextID last now := by
  have hseq := last.seq.toNat_lt
  show last.val < (streamNextID last now).val
  rw [streamNextID]
  split
  · rename_i hms
    rw [UInt64.lt_iff_toNat_lt] at hms
    simp only [StreamID.val, UInt64.toNat_zero]
    omega
  rename_i hms
  have hne := h.resolve_left hms
  have hval : last.seq.toNat ≠ 2 ^ 64 - 1 := fun heq => hne (UInt64.toNat_inj.mp heq)
  simp only [StreamID.val, UInt64.toNat_add]
  rw [Nat.mod_eq_of_lt (by simp; omega)]
  simp

lemma lt_of_accepted {useId : Option StreamID} {now : UInt64} (hnext : useId = none → last.ms < now ∨ last.seq ≠ -1)
    (hgt : ¬useId.any (fun id => streamCompareID id last ≤ 0)) : last < useId.getD (streamNextID last now) := by
  cases useId with
  | none => exact lt_streamNextID (hnext rfl)
  | some id =>
    rw [← not_le, ← streamCompareID_le]
    simpa using hgt

lemma sizedFields_eq (h : ∀ f ∈ fields, f.1.length < 2 ^ 32 ∧ f.2.length < 2 ^ 32) : sizedFields fields = fields := by
  refine (map_congr_left fun f hf => ?_).trans (map_id fields)
  rw [lpSized_eq (h f hf).1, lpSized_eq (h f hf).2]
  rfl

lemma Laid.snoc {nodes' i} (h : Laid s last nodes) (hlt : last < i.id)
    (renders : List.Forall₂ StreamNode.Renders nodes' s'.rax.entries) (items : allItems nodes' = allItems nodes ++ [i]) :
    Laid s' i.id nodes' := by
  have hbefore : ∀ j ∈ allItems nodes, j.id < i.id := fun j hj => (h.bounded j hj).trans_lt hlt
  refine ⟨renders, ?_, ?_⟩
  · rw [Increasing, items, pairwise_append]
    refine ⟨h.increasing, pairwise_singleton _ _, fun j hj k hk => ?_⟩
    rw [mem_singleton.mp hk]
    exact hbefore j hj
  · rw [items, forall_mem_append, forall_mem_singleton]
    exact ⟨fun j hj => (hbefore j hj).le, le_rfl⟩

lemma Laid.masterId_le (h : Laid s last nodes) : ∀ e ∈ s.rax.entries, e.1 ≤ streamEncodeID last := by
  intro e he
  obtain ⟨n, hmem, hn⟩ := forall₂_exists_right h.renders.flip e he
  obtain ⟨i, rest, hitems, hid⟩ := hn.first
  rw [hn.key, streamEncodeID_le, ← hid]
  exact h.bounded i (mem_flatMap.mpr ⟨n, hmem, by rw [hitems]; exact mem_cons_self ..⟩)

lemma renders_getLast {l e} (renders : List.Forall₂ StreamNode.Renders nodes l) (he : l.getLast? = some e) :
    ∃ n, n.Renders e ∧ nodes.getLast? = some n := by
  obtain ⟨l, rfl⟩ := getLast?_eq_some_iff.mp he
  obtain ⟨nl, nr, rfl, -, hnr⟩ := forall₂_append_right renders
  obtain ⟨n, nr, hn, hnil, rfl⟩ := forall₂_cons_right_iff.mp hnr
  cases hnil
  exact ⟨n, hn, getLast?_concat⟩

lemma renders_init {init l₀ l e} (renders : List.Forall₂ StreamNode.Renders (init ++ [n]) l₀) (hl : l₀ = l ++ [e]) :
    List.Forall₂ StreamNode.Renders init l := by
  subst hl
  have hrev := forall₂_reverse_iff.mpr renders
  rw [reverse_append, reverse_append] at hrev
  exact forall₂_reverse_iff.mp (forall₂_cons.mp hrev).2

lemma Laid.appended (h : Laid s last nodes) (hlt : last < id) (hfields : sizedFields fields = fields)
    (happ : Appended (fun n e => n.Renders e ∧ nodes.getLast? = some n) s fields id s') :
    ∃ nodes', Laid s' id nodes' ∧ Filed (nodes.map entries) (id, fields) (nodes'.map entries) := by
  have hentry : ∀ same, (newItem same id fields).entry = (id, fields) := by
    intro same
    rw [newItem, StreamItem.entry, hfields]
  cases happ with
  | @new e hn =>
    have hlast : ∀ f ∈ s.rax.entries, f.1 < e.1 := by
      intro f hf
      rw [hn.key]
      exact (h.masterId_le f hf).trans_lt (streamEncodeID_lt.mpr hlt)
    refine ⟨nodes ++ [newNode id fields], h.snoc (i := newItem true id fields) hlt ?_ ?_, .inl ?_⟩
    · rw [SortedMap.insert_last hlast]
      exact rel_append h.renders (.cons hn .nil)
    · rw [allItems_append]
      rfl
    · rw [map_append]
      show nodes.map entries ++ [[(newItem true id fields).entry]] = _
      rw [hentry]
  | @old n lp e same hlast hP hn =>
    obtain ⟨hn', hnodes⟩ := hP
    obtain ⟨init, rfl⟩ := getLast?_eq_some_iff.mp hnodes
    obtain ⟨l, hl⟩ := getLast?_eq_some_iff.mp hlast
    have hinit := renders_init h.renders hl
    refine ⟨init ++ [n.append (newItem same id fields)], h.snoc (i := newItem same id fields) hlt ?_ ?_,
      .inr ⟨init.map entries, n.entries, map_append, ?_⟩⟩
    · rw [SortedMap.insert_of_split hl]
      exact rel_append hinit (.cons hn .nil)
    · simp [allItems, append]
    · rw [← hentry same]
      simp [entries, live, append, newItem]

lemma Filed.entries {l l'} {e : Entry} (h : Filed l e l') : l'.flatten = l.flatten ++ [e] := by
  rcases h with rfl | ⟨init, x, rfl, rfl⟩
  · simp
  · simp

def EntryLog.snoc (t : EntryLog) (e : Entry) (hlt : t.last < e.1) (nodes : List (List Entry))
    (h : Filed t.nodes e nodes) : EntryLog where
  nodes := nodes
  stored := t.stored ++ [e.1]
  last := e.1
  increasing := by
    rw [h.entries, pairwise_append]
    refine ⟨t.increasing, pairwise_singleton _ _, fun f hf g hg => ?_⟩
    rw [mem_singleton.mp hg]
    exact (t.bounded _ (t.kept f hf)).trans_lt hlt
  kept := by
    rw [h.entries, forall_mem_append, forall_mem_singleton]
    exact ⟨fun f hf => mem_append_left _ (t.kept f hf), mem_append_right _ (mem_singleton_self _)⟩
  bounded := by
    rw [forall_mem_append, forall_mem_singleton]
    exact ⟨fun id hid => (t.bounded id hid).trans hlt.le, le_rfl⟩

lemma append_refines (cfg : StreamConfig) {useId} {now : UInt64} (h : StandsFor s t)
    (c : (StreamOp.append useId fields now).Admissible s) :
    Sat OnlyFull (fun p => ∃ t', LogStep t (.append useId fields now) (.appended p.2) t' ∧ StandsFor p.1 t')
      (streamAppendItem cfg s fields useId now) := by
  obtain ⟨nodes, laid, hnodes⟩ := h.laid
  obtain ⟨hsize, hnext⟩ := c
  refine (streamAppendItem_spec cfg (P := fun n e => n.Renders e ∧ nodes.getLast? = some n) (fun n e h => h.1)
    fun e he => renders_getLast laid.renders he).mono fun r hr => ?_
  rw [h.last] at hr hnext
  split at hr
  · rename_i hle
    subst hr
    cases useId with
    | none => simp at hle
    | some id => exact ⟨t, .rejected (streamCompareID_le.mp (by simpa using hle)), h⟩
  rename_i hgt
  obtain ⟨s', rfl, happ⟩ := hr
  have hid : useId = some (useId.getD (streamNextID t.last now)) ∨
      useId = none ∧ useId.getD (streamNextID t.last now) = streamNextID t.last now := by
    cases useId with
    | none => exact .inr ⟨rfl, rfl⟩
    | some id => exact .inl rfl
  have hlt := lt_of_accepted hnext hgt
  generalize useId.getD (streamNextID t.last now) = id at hid hlt happ ⊢
  obtain ⟨nodes', laid', filed⟩ := laid.appended hlt (sizedFields_eq hsize) happ
  rw [← hnodes] at filed
  refine ⟨t.snoc (id, fields) hlt _ filed, .appended hid hlt filed filed.entries rfl rfl, ⟨nodes', laid', rfl⟩, ?_, ?_⟩
  · have hlen := congrArg List.length filed.entries
    rw [length_append] at hlen
    cases happ <;> exact (congrArg (· + 1) h.length).trans hlen.symm
  · cases happ <;> rfl

def EntryLog.keep (t : EntryLog) (nodes : List (List Entry)) (h : nodes.flatten.Sublist t.entries) : EntryLog where
  nodes := nodes
  stored := t.stored
  last := t.last
  increasing := t.increasing.sublist h
  kept := fun e he => t.kept e (h.subset he)
  bounded := t.bounded

lemma Laid.sublist {nodes'} (h : Laid s last nodes)
    (renders : List.Forall₂ StreamNode.Renders nodes' s'.rax.entries)
    (ids : ((allItems nodes').map StreamItem.id).Sublist ((allItems nodes).map StreamItem.id)) : Laid s' last nodes' := by
  refine ⟨renders, ?_, ?_⟩
  · have increasing := pairwise_map.mpr h.increasing
    exact pairwise_map.mp (increasing.sublist ids)
  · intro i hi
    obtain ⟨j, hj, hid⟩ := mem_map.mp (ids.subset (mem_map_of_mem hi))
    rw [← hid]
    exact h.bounded j hj

lemma length_entries : n.entries.length = n.live.length := length_map _

lemma dropEntries_zero {l} (h : ∀ x ∈ l, x ≠ []) : dropEntries 0 l = l := by
  cases l with
  | nil => rfl
  | cons x l =>
    have := length_pos_iff.mpr (h x (mem_cons_self ..))
    rw [dropEntries, if_neg (by omega), drop_zero]

lemma flatten_dropEntries (k : Nat) (l : List (List Entry)) : (dropEntries k l).flatten = l.flatten.drop k := by
  induction l generalizing k with
  | nil => simp [dropEntries]
  | cons x l ih =>
    rw [dropEntries]
    split
    · rename_i hle
      rw [ih, flatten_cons, drop_append, drop_eq_nil_of_le hle, nil_append]
    · rw [flatten_cons, flatten_cons, drop_append_of_le_length (by omega)]

lemma ids_markFirst (k : Nat) (l : List StreamItem) : (markFirst k l).map StreamItem.id = l.map StreamItem.id := by
  induction l generalizing k with
  | nil => cases k <;> rfl
  | cons i l ih =>
    cases k with
    | zero => rfl
    | succ k =>
      rw [markFirst]
      split <;> rw [map_cons, map_cons, ih]

lemma ids_trimNodes (maxlen : Nat) (approx : Bool) (length : Nat) (nodes : List StreamNode) :
    ((allItems (trimNodes maxlen approx length nodes).2).map StreamItem.id).Sublist
      ((allItems nodes).map StreamItem.id) := by
  fun_induction trimNodes with
  | case3 length n nodes _ _ ih =>
    rw [allItems_cons, map_append]
    exact ih.trans (sublist_append_right _ _)
  | case5 => rw [allItems_cons, allItems_cons, map_append, map_append, mark, ids_markFirst]
  | _ => exact List.Sublist.refl _

lemma length_trimNodes {maxlen : Nat} {approx : Bool} {length : Nat} {nodes}
    (h : length = (nodes.flatMap live).length) : (trimNodes maxlen approx length nodes).1 =
      ((trimNodes maxlen approx length nodes).2.flatMap live).length := by
  fun_induction trimNodes with
  | case3 length n nodes _ _ ih =>
    rw [flatMap_cons, length_append] at h
    exact ih (by omega)
  | case5 length n nodes =>
    rw [flatMap_cons, length_append] at h ⊢
    rw [live_mark, length_drop]
    omega
  | _ => exact h

lemma entries_allItems (nodes : List StreamNode) :
    ((allItems nodes).filter fun i => !i.deleted).map StreamItem.entry = (nodes.map entries).flatten := by
  rw [live_allItems, map_flatMap]
  rfl

lemma length_flatten_entries (nodes : List StreamNode) :
    (nodes.map entries).flatten.length = (nodes.flatMap live).length := by
  rw [← entries_allItems, live_allItems, length_map]

lemma entries_trimNodes (maxlen length : Nat) {nodes} (h : ∀ n ∈ nodes, n.live ≠ []) :
    ((trimNodes maxlen false length nodes).2).map entries =
      dropEntries (length - maxlen) (nodes.map entries) := by
  induction nodes generalizing length with
  | nil => rfl
  | cons n nodes ih =>
    rw [trimNodes]
    split
    · rename_i hle
      rw [Nat.sub_eq_zero_of_le hle, dropEntries_zero]
      intro x hx
      obtain ⟨m, hm, rfl⟩ := mem_map.mp hx
      exact fun hnil => h m hm (map_eq_nil_iff.mp hnil)
    rw [map_cons, dropEntries, length_entries]
    split
    · rw [if_pos (by omega), ih _ fun m hm => h m (mem_cons_of_mem _ hm)]
      congr 1
      omega
    · rw [if_neg (by simp), if_neg (by omega), map_cons, entries, live_mark, map_drop]
      rfl

lemma le_trimNodes {maxlen length : Nat} (approx : Bool) (nodes : List StreamNode) (h : maxlen ≤ length) :
    maxlen ≤ (trimNodes maxlen approx length nodes).1 := by
  fun_induction trimNodes with
  | case3 length n nodes _ _ ih => exact ih (by omega)
  | case5 => exact le_rfl
  | _ => exact h

lemma trimNodes_approx (maxlen length : Nat) (nodes : List StreamNode) : ∃ k,
    (trimNodes maxlen true length nodes).2 = nodes.drop k ∧ (k = 0 ∨ maxlen ≤ (trimNodes maxlen true length nodes).1) := by
  fun_induction trimNodes maxlen true length nodes with
  | case3 length n nodes _ _ ih =>
    obtain ⟨k, hdrop, -⟩ := ih
    exact ⟨k + 1, hdrop, .inr (le_trimNodes true nodes (by omega))⟩
  | case5 => contradiction
  | _ => exact ⟨0, rfl, .inl rfl⟩

lemma live_of_renders {l} (h : List.Forall₂ StreamNode.Renders nodes l) :
    ∀ n ∈ nodes, n.live ≠ [] := by
  intro n hn
  obtain ⟨e, -, he⟩ := forall₂_exists_right h n hn
  exact he.live

lemma trim_refines {maxlen : Nat} {approx : Bool} (h : StandsFor s t) :
    Sat OnlyFull (fun p => ∃ t', LogStep t (.trim maxlen approx) (.trimmed p.2) t' ∧ StandsFor p.1 t')
      (streamTrimByLength s maxlen approx) := by
  obtain ⟨nodes, laid, hnodes⟩ := h.laid
  refine (streamTrimByLength_spec laid.renders).mono fun r hr => ?_
  obtain ⟨s', removed⟩ := r
  obtain ⟨renders, hlen, hlast, -, hremoved⟩ := hr
  have laid' := laid.sublist renders (ids_trimNodes ..)
  have hlength : s.length = (nodes.flatMap live).length := by
    rw [h.length, EntryLog.entries, hnodes, length_flatten_entries]
  rw [length_trimNodes hlength, ← length_flatten_entries] at hlen
  cases approx with
  | false =>
    have hdrop := entries_trimNodes maxlen s.length (live_of_renders laid.renders)
    rw [hdrop] at hlen
    rw [← hnodes, h.length] at hdrop hlen
    rw [h.length] at laid'
    have hentries := flatten_dropEntries (t.entries.length - maxlen) t.nodes
    have hsub : (dropEntries (t.entries.length - maxlen) t.nodes).flatten.Sublist t.entries := by
      rw [hentries]
      exact drop_sublist _ _
    have hcount : removed = t.entries.length - maxlen := by
      rw [hentries, length_drop] at hlen
      rw [show removed = s.length - s'.length from hremoved, hlen, h.length, EntryLog.entries]
      omega
    rw [hcount]
    exact ⟨t.keep _ hsub, .trimmed rfl hentries rfl rfl, ⟨_, laid', hdrop.symm⟩, hlen, hlast.trans h.last⟩
  | true =>
    obtain ⟨k, hdrop, henough⟩ := trimNodes_approx maxlen s.length nodes
    rw [length_trimNodes hlength, ← length_flatten_entries] at henough
    rw [hdrop, map_drop, ← hnodes] at henough hlen
    rw [hdrop] at laid'
    have hcount : removed = t.entries.length - (t.nodes.drop k).flatten.length := by
      rw [show removed = s.length - s'.length from hremoved, hlen, h.length]
    rw [hcount]
    have hstep := @LogStep.trimmedNodes t maxlen k (t.keep _ (drop_sublist k _).flatten) rfl henough rfl rfl
    exact ⟨_, hstep, ⟨_, laid', by rw [map_drop, ← hnodes]; rfl⟩, hlen, hlast.trans h.last⟩


lemma entries_inRange (start stop : Option StreamID) (hnodes : t.nodes = nodes.map entries) :
    ((allItems nodes).filter (inRange start stop)).map StreamItem.entry = t.range start stop := by
  rw [EntryLog.range, EntryLog.entries, hnodes, ← entries_allItems, filter_map, filter_filter]
  congr 1
  refine filter_congr fun i _ => ?_
  rw [inRange, Function.comp_apply, StreamItem.entry, Bool.and_assoc, Bool.and_comm]

lemma streamRange_eq (h : StandsFor s t) (start stop : Option StreamID) (rev : Bool) : streamRange s start stop rev =
    .ok (if rev then (t.range start stop).reverse else t.range start stop) := by
  obtain ⟨nodes, laid, hnodes⟩ := h.laid
  obtain ⟨nodes', hseek, hitems⟩ :=
    range_start start stop rev (fun _ _ h => h) laid.renders laid.ordered
  have hfuel := length_nodesAhead_lt_fuel (fun _ _ h => h) hseek (streamIteratorStart s start stop rev).near
  have hcollect : ∀ l : List StreamItem, l.foldlM (fun acc i => (.ok (acc ++ [(i.id, i.fields)]) :
      Except Fault (List Entry))) [] = .ok (l.map StreamItem.entry) := fun l => foldlM_collect StreamItem.entry l []
  rw [streamRange, streamForEach_eq (fun _ _ h => h) (ready_of_seek hseek) hfuel (.inl rfl), hitems, limited,
    if_pos rfl, hcollect, rangeItems]
  rw [← entries_inRange start stop hnodes]
  cases rev with
  | false => rfl
  | true =>
    rw [if_pos rfl, map_reverse]
    rfl

lemma filter_nodes_eq (hids : ∀ i ∈ allItems nodes, i.id ≠ id) (hlive : ∀ n ∈ nodes, n.live ≠ []) :
    ((nodes.map entries).map (·.filter (·.1 ≠ id))).filter (· ≠ []) = nodes.map entries := by
  induction nodes with
  | nil => rfl
  | cons n nodes ih =>
    have hn : n.entries.filter (·.1 ≠ id) = n.entries := by
      refine filter_eq_self.mpr fun e he => ?_
      obtain ⟨i, hi, rfl⟩ := mem_map.mp he
      exact decide_eq_true (hids i (mem_append_left _ (mem_filter.mp hi).1))
    have hne : n.entries ≠ [] := fun hnil => hlive n (mem_cons_self ..) (map_eq_nil_iff.mp hnil)
    rw [map_cons, map_cons, hn, filter_cons_of_pos (by simpa using hne),
      ih (fun i hi => hids i (mem_append_right _ hi)) fun m hm => hlive m (mem_cons_of_mem _ hm)]

lemma entries_withDeleted {done todo i} (hitems : n.items = done ++ i :: todo)
    (hne : ∀ j ∈ done ++ todo, j.id ≠ i.id) :
    n.entries.filter (·.1 ≠ i.id) = (n.withDeleted done i todo).entries := by
  have hkeep : ∀ l : List StreamItem, (∀ j ∈ l, j ∈ done ++ todo) →
      ((l.filter fun j => !j.deleted).map StreamItem.entry).filter (·.1 ≠ i.id) =
        (l.filter fun j => !j.deleted).map StreamItem.entry := by
    intro l hl
    refine filter_eq_self.mpr fun e he => ?_
    obtain ⟨j, hj, rfl⟩ := mem_map.mp he
    exact decide_eq_true (hne j (hl j (mem_filter.mp hj).1))
  have hdone := hkeep done fun j hj => mem_append_left _ hj
  have htodo := hkeep todo fun j hj => mem_append_right _ hj
  rw [entries, live, hitems, entries, live, withDeleted]
  rw [filter_append, filter_append, map_append, map_append, filter_append, hdone,
    filter_cons, filter_cons_of_neg (by simp)]
  split
  · rw [map_cons, filter_cons_of_neg (by simp [StreamItem.entry]), htodo]
  · rw [htodo]

lemma flatten_without (l : List (List Entry)) (p : Entry → Bool) :
    ((l.map (·.filter p)).filter (· ≠ [])).flatten = l.flatten.filter p := by
  rw [filter_flatten, flatten_filter_ne_nil]

section Deletion

variable {nl nr : List StreamNode} {done todo : List StreamItem} {i : StreamItem}

lemma Laid.id_ne (laid : Laid s last (nl ++ n :: nr)) (items : n.items = done ++ i :: todo) :
    (∀ j ∈ allItems nl, j.id ≠ i.id) ∧ (∀ j ∈ done ++ todo, j.id ≠ i.id) ∧ ∀ j ∈ allItems nr, j.id ≠ i.id := by
  have hinc := laid.increasing
  have hall : allItems (nl ++ n :: nr) = (allItems nl ++ done) ++ i :: (todo ++ allItems nr) := by
    rw [allItems_append, allItems_cons, items]
    simp
  rw [Increasing, hall, pairwise_append, pairwise_cons] at hinc
  have before : ∀ j ∈ allItems nl ++ done, j.id ≠ i.id := fun j hj => (hinc.2.2 j hj i (mem_cons_self ..)).ne
  have after : ∀ j ∈ todo ++ allItems nr, j.id ≠ i.id := fun j hj => (hinc.2.1.1 j hj).ne'
  refine ⟨fun j hj => before j (mem_append_left _ hj), fun j hj => ?_,
    fun j hj => after j (mem_append_right _ hj)⟩
  cases mem_append.mp hj with
  | inl hj => exact before j (mem_append_right _ hj)
  | inr hj => exact after j (mem_append_left _ hj)

lemma Laid.without (laid : Laid s last (nl ++ n :: nr)) (items : n.items = done ++ i :: todo) :
    (((nl ++ n :: nr).map entries).map (·.filter (·.1 ≠ i.id))).filter (· ≠ []) =
      nl.map entries ++ ([(n.withDeleted done i todo).entries].filter (· ≠ []) ++
        nr.map entries) := by
  obtain ⟨before, here, after⟩ := laid.id_ne items
  have hlive := live_of_renders laid.renders
  rw [map_append, map_cons, map_append, map_cons, entries_withDeleted items here,
    filter_append, filter_nodes_eq before fun m hm => hlive m (mem_append_left _ hm), filter_cons,
    filter_nodes_eq after fun m hm => hlive m (mem_append_right _ (mem_cons_of_mem _ hm)), filter_cons]
  split <;> rfl

lemma Laid.removed {el er : List (Bytes × Listpack)} {key : Bytes} {lp : Listpack}
    (laid : Laid s last (nl ++ n :: nr)) (hentries : s.rax.entries = el ++ (key, lp) :: er)
    (hnl : List.Forall₂ StreamNode.Renders nl el) (hnr : List.Forall₂ StreamNode.Renders nr er)
    (items : n.items = done ++ i :: todo) (h : Removed s (n.withDeleted done i todo) key s') :
    ∃ nodes, Laid s' last nodes ∧ nodes.map entries =
      nl.map entries ++ ([(n.withDeleted done i todo).entries].filter (· ≠ []) ++
        nr.map entries) := by
  cases h with
  | node hlive =>
    have hnil : (n.withDeleted done i todo).entries = [] := by
      rw [entries, hlive, map_nil]
    refine ⟨nl ++ nr, laid.sublist ?_ ?_, ?_⟩
    · rw [SortedMap.erase_of_split hentries]
      exact rel_append hnl hnr
    · rw [allItems_append, allItems_append, allItems_cons, map_append, map_append, map_append]
      exact (sublist_append_right _ _).append_left _
    · rw [hnil, map_append]
      rfl
  | entry hn' =>
    have hne : (n.withDeleted done i todo).entries ≠ [] := fun hnil => hn'.live (map_eq_nil_iff.mp hnil)
    refine ⟨nl ++ n.withDeleted done i todo :: nr, laid.sublist ?_ ?_, ?_⟩
    · rw [SortedMap.insert_of_split hentries]
      exact rel_append hnl (.cons hn' hnr)
    · rw [allItems_append, allItems_append, allItems_cons, allItems_cons, items, withDeleted]
      simp
    · rw [map_append, filter_cons_of_pos (by simpa using hne)]
      rfl

end Deletion

lemma delete_refines (h : StandsFor s t) :
    Sat OnlyFull (fun p => ∃ t', LogStep t (.delete id) (.deleted p.2) t' ∧ StandsFor p.1 t')
      (streamDeleteItem s id) := by
  obtain ⟨nodes, laid, hnodes⟩ := h.laid
  obtain ⟨nodes', hseek, hitems⟩ := range_start (some id) (some id) false (fun _ _ h => NodeAt.renders h)
    (forall₂_nodeAt laid.renders) laid.ordered
  refine (streamDeleteItem_spec (fun _ _ h => NodeAt.renders h) hseek).mono fun r hr => ?_
  cases hr with
  | missing hnone =>
    have hrange := entries_inRange (some id) (some id) hnodes
    rw [hitems] at hnone
    rw [show (allItems nodes).filter (inRange (some id) (some id)) = [] from hnone, eq_comm, EntryLog.range,
      map_nil, filter_eq_nil_iff] at hrange
    refine ⟨t, .missing fun e he heq => hrange e he ?_, h⟩
    simp [startId, stopId, heq]
  | @removed s' n key lp done i todo placed items live hid removed =>
    subst hid
    obtain ⟨nl, nr, el, er, rfl, hentries, hnl, hn, hnr⟩ := placed
    have hsub : ((t.nodes.map (·.filter (·.1 ≠ i.id))).filter (· ≠ [])).flatten.Sublist t.entries := by
      rw [flatten_without]
      exact filter_sublist
    have hmem : i.entry ∈ t.entries := by
      rw [EntryLog.entries, hnodes, ← entries_allItems]
      refine mem_map_of_mem (mem_filter.mpr ⟨?_, by simp [live]⟩)
      rw [allItems_append, allItems_cons, items]
      simp
    have hwithout := laid.without items
    rw [← hnodes] at hwithout
    obtain ⟨nodes', laid', hnodes'⟩ := laid.removed hentries hnl hnr items removed
    rw [← hwithout] at hnodes'
    refine ⟨t.keep _ hsub, .deleted hmem rfl rfl (flatten_without _ _) rfl rfl, ⟨nodes', laid', hnodes'.symm⟩, ?_, ?_⟩
    · have hlen := h.length
      have hcount := (n.counts_withDeleted items live).1
      rw [EntryLog.entries, hnodes, map_append, map_cons, flatten_append, flatten_cons,
        length_append, length_append, length_entries] at hlen
      show s'.length = ((t.nodes.map (·.filter (·.1 ≠ i.id))).filter (· ≠ [])).flatten.length
      rw [hwithout, flatten_append, flatten_append,
        flatten_filter_ne_nil, length_append, length_append, flatten_singleton, length_entries]
      have hs' : s'.length = s.length - 1 := by
        cases removed <;> rfl
      omega
    · have hs' : s'.lastId = s.lastId := by
        cases removed <;> rfl
      exact hs'.trans h.last

lemma streamStep_refines (cfg : StreamConfig) (s : Stream) (t : EntryLog) (op : StreamOp) (h : StandsFor s t)
    (c : op.Admissible s) :
    Sat OnlyFull (fun p => ∃ t', LogStep t op p.2 t' ∧ StandsFor p.1 t') (streamStep cfg s op) := by
  cases op with
  | append useId fields now => exact (append_refines cfg h c).bind fun r hr => hr
  | delete id => exact (delete_refines h).bind fun r hr => hr
  | trim maxlen approx => exact (trim_refines h).bind fun r hr => hr
  | range start stop rev =>
    rw [streamStep, streamRange_eq h]
    cases rev with
    | false => exact ⟨t, .ranged, h⟩
    | true => exact ⟨t, .rangedBack, h⟩

lemma standsFor_new : StandsFor streamNew .empty :=
  ⟨⟨[], ⟨.nil, .nil, by simp [allItems]⟩, rfl⟩, rfl, rfl⟩

/-- **Refinement.** Along every run in which each generated ID has room to grow, every state of the stream stands
for a log, and what the operations do and return is what they do on the log. -/
theorem stream_refines_log (cfg : StreamConfig) (ops : List StreamOp)
    (admissible : Guarded (streamStep cfg) (fun s op => op.Admissible s) streamNew ops) :
    Sat OnlyFull (fun r => Follows (streamStep cfg) LogStep StandsFor streamNew .empty ops r.2)
      (exec (streamStep cfg) streamNew ops) :=
  exec_follows (streamStep_refines cfg) standsFor_new admissible

/-- Entries with explicit and generated IDs, a deletion, trimming and ranges. -/
def sampleOps : List StreamOp :=
  [.append (some ⟨5, 1⟩) [([97], [49])] 7, .append none [([97], [50])] 7, .append (some ⟨7, 0⟩) [([97], [51])] 7,
    .delete ⟨5, 1⟩, .append none [([97], [52])] 7, .trim 1 false, .range none none true]

theorem stream_refines_log_sample :
    Guarded (streamStep ⟨4096, 100⟩) (fun s op => op.Admissible s) streamNew sampleOps ∧
      Sat OnlyFull (fun r => Follows (streamStep ⟨4096, 100⟩) LogStep StandsFor streamNew .empty sampleOps r.2)
        (exec (streamStep ⟨4096, 100⟩) streamNew sampleOps) := by
  have admissible : Guarded (streamStep ⟨4096, 100⟩) (fun s op => op.Admissible s) streamNew sampleOps :=
    guarded_of_check (by decide +kernel)
  exact ⟨admissible, stream_refines_log ⟨4096, 100⟩ sampleOps admissible⟩

/-- After the largest sequence number a generated ID goes back to the first one of the same millisecond, when the
clock has not moved on. An ID below one that is stored is then accepted, and a range misses two of its entries. -/
theorem streamNextID_wraps :
    (exec (streamStep ⟨4096, 100⟩) streamNew
      [.append (some ⟨5, 1⟩) [([97], [49])] 5, .append (some ⟨5, -1⟩) [([97], [50])] 5,
        .append none [([97], [51])] 5, .append (some ⟨5, 7⟩) [([97], [52])] 5,
        .range (some ⟨5, 0⟩) (some ⟨5, -2⟩) false]).map Prod.snd =
      .ok [.appended (some ⟨5, 1⟩), .appended (some ⟨5, -1⟩), .appended (some ⟨5, 0⟩), .appended (some ⟨5, 7⟩),
        .ranged [(⟨5, 1⟩, [([97], [49])])]] := by
  decide +kernel

end JitRedis

