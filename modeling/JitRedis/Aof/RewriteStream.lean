import JitRedis.Stream.Replication
import JitRedis.Stream.Room

/-!
# Rewriting streams

Model of `rewriteStreamObject` in `src/aof.c`: the commands that rebuild a stream. What they rebuild is compared with
what clients see of the stream.
-/

namespace JitRedis

open Fallible List SortedMap StreamItem

def rioWriteStreamPendingEntry (key groupname : Bytes) (consumer : StreamConsumer) (rawid : Bytes)
    (nack : StreamNACK) : List Bytes :=
  [ascii "XCLAIM", key, groupname, consumer.name, ascii "0", streamIDText (streamDecodeID rawid), ascii "TIME",
    ll2string nack.deliveryTime, ascii "RETRYCOUNT", ll2string (UInt64.ofNat nack.deliveryCount).toInt64.toInt,
    ascii "JUSTID", ascii "FORCE"]

/-- The loop of `rewriteStreamObject` over the entries. -/
def rewriteStreamEntries (key : Bytes) (s : Stream) : Except Fault (List (List Bytes)) := do
  let (adds, _) ← streamForEach (fun adds id fields =>
      .ok (adds ++ [ascii "XADD" :: key :: streamIDText id :: fields.flatMap fun f => [f.1, f.2]]))
    0 s.fuel (streamIteratorStart s none none false) 0 []
  .ok adds

def rewriteStreamAdds (key : Bytes) (s : Stream) : Except Fault (List (List Bytes)) :=
  if s.length ≠ 0 then rewriteStreamEntries key s
  else .ok [[ascii "XADD", key, ascii "MAXLEN", ascii "0", streamIDText s.lastId, ascii "x", ascii "y"]]

/-- The loop of `rewriteStreamObject` over the pending entries of a consumer. -/
def rewriteStreamConsumer (key groupname : Bytes) (cg : StreamCG) (c : Nat) : Except Fault (List (List Bytes)) := do
  let consumer ← cg.consumer c
  consumer.pel.entries.mapM fun e => do
    let nack ← cg.nack e.2
    .ok (rioWriteStreamPendingEntry key groupname consumer e.1 nack)

/-- The loop of `rewriteStreamObject` over the groups. -/
def rewriteStreamCG (key : Bytes) (e : Bytes × StreamCG) : Except Fault (List (List Bytes)) := do
  let claims ← e.2.consumers.entries.mapM fun c => rewriteStreamConsumer key e.1 e.2 c.2
  .ok ([ascii "XGROUP", ascii "CREATE", key, e.1, streamIDText e.2.lastId] :: claims.flatten)

def rewriteStreamObject (key : Bytes) (s : Stream) : Except Fault (List (List Bytes)) := do
  let adds ← rewriteStreamAdds key s
  let groups ← s.cgroups.entries.mapM (rewriteStreamCG key)
  .ok (adds ++ [ascii "XSETID", key, streamIDText s.lastId] :: groups.flatten)

/-- Groups with the same last delivered ID, and the same owner and delivery count of each pending ID. -/
def SamePending (cg cg' : StreamCG) : Prop :=
  cg'.lastId = cg.lastId ∧ cg'.pendingOwner = cg.pendingOwner ∧ cg'.deliveryCount = cg.deliveryCount

/-- The same entries and last ID, and the same groups. -/
structure Stream.SameValue (s s' : Stream) : Prop where
  entries : streamRange s' none none false = streamRange s none none false
  lastId : s'.lastId = s.lastId
  groups : ∀ name, Option.Rel SamePending (s.cgroups.find? name) (s'.cgroups.find? name)

variable {s s' : Stream} {nodes nodes' : List StreamNode} {key groupname : Bytes} {cg : StreamCG} {g : GroupView}
  {cfg : StreamConfig} {db : StreamDb} {id : StreamID} {now : Int} {ticks : Nat → Int64}

section Contents

lemma StreamID.le_max (id : StreamID) : id ≤ (⟨-1, -1⟩ : StreamID) := by
  have hms := id.ms.toNat_lt
  have hseq := id.seq.toNat_lt
  show id.ms.toNat * 2 ^ 64 + id.seq.toNat ≤ (2 ^ 64 - 1) * 2 ^ 64 + (2 ^ 64 - 1)
  omega

lemma rangeItems_all (nodes : List StreamNode) : rangeItems false none none nodes = liveItems nodes := by
  rw [liveItems, ← live_allItems]
  refine filter_congr fun i _ => ?_
  have hlow : startId none ≤ i.id := StreamID.zero_le i.id
  have hhigh : i.id ≤ stopId none := StreamID.le_max i.id
  rw [inRange, decide_eq_true hlow, decide_eq_true hhigh, Bool.and_true, Bool.and_true]

lemma Stream.InOrder.collect {β : Type} (h : s.InOrder nodes) (f : StreamID → List (Bytes × Bytes) → β) :
    streamForEach (fun acc id fields => .ok (acc ++ [f id fields])) 0 s.fuel (streamIteratorStart s none none false)
      0 [] = .ok ((liveItems nodes).map (fun i => f i.id i.fields), (liveItems nodes).length) := by
  have hcollect : (liveItems nodes).foldlM (fun acc i => (.ok (acc ++ [f i.id i.fields]) : Except Fault (List β))) [] =
      .ok ((liveItems nodes).map fun i => f i.id i.fields) := foldlM_collect (fun i : StreamItem => f i.id i.fields) _ []
  rw [h.forEach, rangeItems_all, limited, if_pos rfl, hcollect]
  rfl

lemma Stream.InOrder.range_all (h : s.InOrder nodes) :
    streamRange s none none false = .ok ((liveItems nodes).map entry) := by
  rw [streamRange, h.collect]
  rfl

def xaddArgv (key : Bytes) (e : Entry) : List Bytes :=
  ascii "XADD" :: key :: streamIDText e.1 :: e.2.flatMap fun f => [f.1, f.2]

lemma Stream.InOrder.rewriteEntries (h : s.InOrder nodes) (key : Bytes) :
    rewriteStreamEntries key s = .ok ((liveItems nodes).map fun i => xaddArgv key i.entry) := by
  rw [rewriteStreamEntries, h.collect]
  rfl

lemma StreamNode.Renders.sizedFields_eq {n : StreamNode} {e : Bytes × Listpack} {i : StreamItem} (h : n.Renders e)
    (hi : i ∈ n.items) : sizedFields i.fields = i.fields := by
  obtain ⟨k, lp⟩ := e
  have helems : i.pairs ⊆ lp.elements := by
    intro x hx
    rw [show lp.elements = n.elements from h.elements, StreamNode.elements, StreamNode.master, markedTail]
    simp only [mem_cons, mem_append, mem_flatMap]
    refine .inr (.inr (.inr (.inr (.inr ⟨i, hi, ?_⟩))))
    exact mem_append_left _ (mem_append_right _ hx)
  have htext : ∀ t, lpEncode t ∈ lp.elements → lpSized t = t := by
    intro t ht
    have hlen := length_text_lt ht
    rw [text_lpEncode] at hlen
    exact JitRedis.lpSized_eq hlen
  refine (map_congr_left fun f hf => ?_).trans (map_id _)
  have hvalue : lpEncode f.2 ∈ i.pairs ∧ (i.same = false → lpEncode f.1 ∈ i.pairs) := by
    rw [pairs]
    cases i.same with
    | true => exact ⟨mem_map.mpr ⟨f, hf, rfl⟩, fun h => by cases h⟩
    | false =>
      simp only [Bool.false_eq_true, if_false, mem_flatMap]
      exact ⟨⟨f, hf, by simp⟩, fun _ => ⟨f, hf, by simp⟩⟩
  have hfield : lpSized f.1 = f.1 := by
    cases hsame : i.same with
    | true =>
      refine h.lpSized_eq ?_
      rw [← h.same i hi hsame]
      exact mem_map_of_mem hf
    | false => exact htext _ (helems (hvalue.2 hsame))
  rw [hfield, htext _ (helems hvalue.1)]
  rfl

lemma Stream.InOrder.sizedFields_eq (h : s.InOrder nodes) {i : StreamItem} (hi : i ∈ liveItems nodes) :
    sizedFields i.fields = i.fields := by
  obtain ⟨n, hn, hin⟩ := mem_liveItems.mp hi
  obtain ⟨e, -, hne⟩ := forall₂_exists_right h.renders n hn
  exact hne.sizedFields_eq (mem_live.mp hin).1

end Contents

lemma streamCompareID_neg {a b} : streamCompareID a b < 0 ↔ a < b := by
  have ha := a.seq.toNat_lt
  have hb := b.seq.toNat_lt
  show _ ↔ a.val < b.val
  rw [streamCompareID, StreamID.val, StreamID.val]
  simp only [UInt64.lt_iff_toNat_lt]
  split <;> [skip; split <;> [skip; split <;> [skip; split]]] <;> omega

section Entries

lemma fieldPairs_flatMap (fields : List (Bytes × Bytes)) : fieldPairs (fields.flatMap fun f => [f.1, f.2]) = fields := by
  induction fields with
  | nil => rfl
  | cons f fields ih =>
    show (f.1, f.2) :: fieldPairs (fields.flatMap fun f => [f.1, f.2]) = _
    rw [ih]

lemma length_flatMap_pairs (fields : List (Bytes × Bytes)) :
    (fields.flatMap fun f => [f.1, f.2]).length = 2 * fields.length := by
  induction fields with
  | nil => rfl
  | cons f fields ih =>
    rw [flatMap_cons, length_append]
    simp only [length_cons, length_nil]
    omega

structure Rebuilt (entries : List Entry) (s : Stream) : Prop where
  order : ∃ nodes, s.InOrder nodes ∧ (liveItems nodes).map StreamItem.entry = entries
  lastId : s.lastId = (entries.getLast?.map Prod.fst).getD ⟨0, 0⟩
  groups : s.cgroups = .empty

lemma rebuilt_new : Rebuilt [] streamNew := ⟨⟨[], streamNew_inOrder, rfl⟩, rfl, rfl⟩

lemma Stream.InOrder.append_room {fields} (h : s.InOrder nodes) (hroom : HasRoom cfg fields)
    (hfields : fields ≠ []) (id : StreamID) (now : UInt64) :
    ∃ s' appended, streamAppendItem cfg s fields (some id) now = .ok (s', appended) ∧
      (s' = s ∧ appended = none ∧ id ≤ s.lastId ∨ appended = some id ∧ s.lastId < id ∧ s'.cgroups = s.cgroups ∧
        s'.lastId = id ∧ ∃ nodes' same, s'.InOrder nodes' ∧
          liveItems nodes' = liveItems nodes ++ [newItem same id fields]) := by
  have room := streamAppendItem_room hroom s (some id) now
  have spec := h.append cfg hfields (some id) now fun h => (nomatch h)
  cases happ : streamAppendItem cfg s fields (some id) now with
  | error f =>
    rw [happ] at room spec
    exact absurd spec room
  | ok r =>
    obtain ⟨s', appended⟩ := r
    rw [happ] at spec
    refine ⟨s', appended, rfl, ?_⟩
    rcases spec with ⟨heq, id', hid', hle⟩ | ⟨id', nodes', same, hret, hid', hlt, order', hgroups, hlast, hlive⟩
    · cases heq
      cases hid'
      exact .inl ⟨rfl, rfl, hle⟩
    · obtain rfl : id' = id := hid'
      exact .inr ⟨hret, hlt, hgroups, hlast, nodes', same, order', hlive⟩

lemma xaddCommand_parsed {argv fields : List Bytes} {trim : TrimArgs} {idx : Nat} {appended : Option StreamID}
    (hparse : xaddParse 2 (argv.drop 2) ⟨-1, false, 0⟩ = .ok ⟨some id, idx, trim, fields⟩)
    (hfields : ¬ (fields.length < 2 ∨ fields.length % 2 = 1))
    (happ : streamAppendItem cfg ((db.find? (argAt argv 1)).getD streamNew) (fieldPairs fields) (some id)
      (UInt64.ofInt now) = .ok (s', appended)) :
    (xaddCommand cfg db now argv).map CmdResult.db =
      if appended.isSome then (xaddTrim s' trim).map fun r => db.insert (argAt argv 1) r.1
      else .ok (db.insert (argAt argv 1) s') := by
  rw [xaddCommand, hparse]
  simp only
  rw [if_neg hfields, happ, ok_bind]
  cases appended with
  | none => rfl
  | some id =>
    simp only [Option.isSome_some, if_true]
    cases xaddTrim s' trim with
    | error f => rfl
    | ok r => rfl

lemma process_xaddArgv {entries} {e : Entry} (h : Rebuilt entries ((db.find? key).getD streamNew))
    (hroom : HasRoom cfg e.2) (hlt : ((db.find? key).getD streamNew).lastId < e.1) (hfields : e.2 ≠ [])
    (hsized : sizedFields e.2 = e.2) (now : Int) :
    ∃ s', (processStreamCommand cfg db now (xaddArgv key e)).map CmdResult.db = .ok (db.insert key s') ∧
      Rebuilt (entries ++ [e]) s' := by
  obtain ⟨id, fields⟩ := e
  obtain ⟨⟨nodes, order, hentries⟩, hlast, hgroups⟩ := h
  have hlen := length_flatMap_pairs fields
  have hpos : 0 < fields.length := length_pos_iff.mpr hfields
  have hacc : Accepts .xadd (xaddArgv key (id, fields)) := by
    refine ⟨by show lookupCommand (ascii "XADD") = _; decide, ?_⟩
    simp [arityOk, StreamCommand.entry, xaddArgv]
    omega
  have hparse : xaddParse 2 ((xaddArgv key (id, fields)).drop 2) ⟨-1, false, 0⟩ =
      .ok ⟨some id, 2, ⟨-1, false, 0⟩, fields.flatMap fun f => [f.1, f.2]⟩ := xaddParse_id 2 id _ _
  obtain ⟨s', appended, happ, hcases⟩ := order.append_room hroom hfields id (UInt64.ofInt now)
  rw [← fieldPairs_flatMap fields] at happ
  have hcommand := xaddCommand_parsed hparse (by omega) happ
  rcases hcases with ⟨-, -, hle⟩ | ⟨rfl, -, hgroups', hlast', nodes', same, order', hlive⟩
  · exact absurd hlt (not_lt.mpr hle)
  refine ⟨s', ?_, ⟨⟨nodes', order', ?_⟩, ?_, hgroups'.trans hgroups⟩⟩
  · rw [hacc.proc]
    exact hcommand
  · rw [hlive, map_append, hentries]
    show _ ++ [(id, sizedFields fields)] = _
    rw [hsized]
  · rw [getLast?_concat]
    exact hlast'

lemma replay_xaddArgv {entries items : List Entry} (h : Rebuilt entries ((db.find? key).getD streamNew))
    (hitems : items ≠ []) (hroom : ∀ e ∈ items, HasRoom cfg e.2) (hfields : ∀ e ∈ items, e.2 ≠ [])
    (hsized : ∀ e ∈ items, sizedFields e.2 = e.2)
    (hlt : ∀ e ∈ items, ((db.find? key).getD streamNew).lastId < e.1) (sorted : items.Pairwise (·.1 < ·.1))
    (ticks : Nat → Int64) :
    ∃ s', replayFeeds cfg ticks (items.map (xaddArgv key)) db = .ok (db.insert key s') ∧
      Rebuilt (entries ++ items) s' := by
  induction items generalizing db entries ticks with
  | nil => exact absurd rfl hitems
  | cons e items ih =>
    obtain ⟨s₁, hproc, h₁⟩ := process_xaddArgv h (hroom e (mem_cons_self ..))
      (hlt e (mem_cons_self ..)) (hfields e (mem_cons_self ..)) (hsized e (mem_cons_self ..))
      (ticks 0).toInt
    rw [pairwise_cons] at sorted
    have hfind : ((db.insert key s₁).find? key).getD streamNew = s₁ := by
      rw [find?_insert, if_pos rfl]
      rfl
    rw [map_cons, replayFeeds_cons hproc]
    by_cases hnil : items = []
    · subst hnil
      exact ⟨s₁, rfl, h₁⟩
    have hlast : s₁.lastId = e.1 := by
      rw [h₁.lastId, getLast?_concat]
      rfl
    obtain ⟨s', hreplay, h'⟩ := @ih (db.insert key s₁) (entries ++ [e]) (by rw [hfind]; exact h₁) hnil
      (fun e he => hroom e (mem_cons_of_mem _ he)) (fun e he => hfields e (mem_cons_of_mem _ he))
      (fun e he => hsized e (mem_cons_of_mem _ he)) (by rw [hfind, hlast]; exact sorted.1) sorted.2
      (fun i => ticks (i + 1))
    rw [insert_insert] at hreplay
    rw [append_assoc] at h'
    exact ⟨s', hreplay, h'⟩

lemma streamTrimLoop_all {fuel deleted : Nat} (h : List.Forall₂ StreamNode.Renders nodes s.rax.entries)
    (hlen : s.length = (liveItems nodes).length) (hfuel : nodes.length < fuel) :
    ∃ rax d, streamTrimLoop 0 false fuel s s.rax.entries deleted = .ok ({ s with rax, length := 0 }, d) ∧
      rax.entries = [] := by
  induction nodes generalizing s fuel deleted with
  | nil =>
    obtain ⟨fuel, rfl⟩ : ∃ k, fuel = k + 1 := ⟨fuel - 1, by omega⟩
    rw [streamTrimLoop_succ, if_pos (by rw [hlen]; rfl)]
    refine ⟨s.rax, deleted, ?_, forall₂_nil_left_iff.mp h⟩
    have hzero : s.length = 0 := hlen
    rw [← hzero]
  | cons n nodes ih =>
    obtain ⟨fuel, rfl⟩ : ∃ k, fuel = k + 1 := ⟨fuel - 1, by omega⟩
    obtain ⟨key, lp, rax, hn, hrax, -, turn⟩ := streamTrimLoop_cons h
    rw [liveItems_cons, length_append] at hlen
    have hpos : 0 < n.live.length := length_pos_iff.mpr hn.live
    rw [turn, if_neg (by omega), if_pos (by omega)]
    exact @ih { s with rax, length := s.length - n.live.length } _ _ hrax (by dsimp only; omega)
      (Nat.lt_of_succ_lt_succ hfuel)

lemma process_emptyArgv (hs : db.find? key = none) (hroom : HasRoom cfg [(ascii "x", ascii "y")]) (id : StreamID)
    (now : Int) :
    ∃ s', (processStreamCommand cfg db now
        [ascii "XADD", key, ascii "MAXLEN", ascii "0", streamIDText id, ascii "x", ascii "y"]).map CmdResult.db =
          .ok (db.insert key s') ∧ s'.InOrder [] ∧ s'.cgroups = .empty := by
  have hparse : xaddParse 2 [ascii "MAXLEN", ascii "0", streamIDText id, ascii "x", ascii "y"] ⟨-1, false, 0⟩ =
      .ok ⟨some id, 4, ⟨0, false, 3⟩, [ascii "x", ascii "y"]⟩ := by
    exact xaddParse_id 4 id _ _
  obtain ⟨s', appended, happ, hcases⟩ := streamNew_inOrder.append_room hroom (cons_ne_nil _ _) id (UInt64.ofInt now)
  have hnew : (db.find? key).getD streamNew = streamNew := by rw [hs]; rfl
  rw [← hnew] at happ
  have hcommand := @xaddCommand_parsed s' cfg db id now [ascii "XADD", key, ascii "MAXLEN", ascii "0", streamIDText id,
    ascii "x", ascii "y"] [ascii "x", ascii "y"] ⟨0, false, 3⟩ 4 appended hparse (by decide) happ
  rcases hcases with ⟨rfl, rfl, -⟩ | ⟨rfl, -, hgroups, hlast, nodes', same, order, hlive⟩
  · exact ⟨streamNew, hcommand, streamNew_inOrder, rfl⟩
  obtain ⟨rax, d, htrim, hrax⟩ := @streamTrimLoop_all s' nodes' (s'.rax.entries.length + 1) 0 order.renders order.length
    (by rw [order.renders.length_eq]; exact Nat.lt_succ_self _)
  have hlen : s'.length = 1 := by
    rw [order.length, hlive]
    rfl
  refine ⟨{ s' with rax, length := 0 }, ?_, ⟨?_, ⟨.nil, fun _ h => (nomatch h), .nil⟩, fun _ h => (nomatch h), rfl,
    fun _ h => (nomatch h), fun _ h => (nomatch h)⟩, hgroups⟩
  · refine hcommand.trans ?_
    simp only [Option.isSome_some, if_true, xaddTrim, le_refl, Int.toNat_zero, streamTrimByLength]
    rw [if_neg (by omega), htrim]
    rfl
  · rw [hrax]
    exact .nil

lemma Stream.InOrder.xsetidTop (h : s.InOrder nodes) : ∃ top, xsetidTop s = .ok top ∧
    (∀ maxid ∈ top, ∃ i ∈ liveItems nodes, i.id = maxid) ∧ ∀ i ∈ liveItems nodes, ∃ maxid ∈ top, i.id ≤ maxid := by
  have hrange : rangeItems true none none nodes = (liveItems nodes).reverse := by
    rw [← rangeItems_all, rangeItems, rangeItems, if_pos rfl, if_neg (by decide)]
  have hlen := h.length
  rw [JitRedis.xsetidTop]
  split
  · rename_i hzero
    rw [hzero, eq_comm, length_eq_zero_iff] at hlen
    rw [hlen]
    exact ⟨none, rfl, fun _ h => (by cases h), fun _ h => by cases h⟩
  rename_i hpos
  obtain ⟨⟨si, item⟩, hget, hmax⟩ := h.getID none none true
  have sorted := pairwise_reverse.mpr h.ordered.live
  rw [hrange] at hmax
  rw [show nodes.flatMap StreamNode.live = liveItems nodes from rfl] at sorted
  cases hrev : (liveItems nodes).reverse with
  | nil =>
    rw [reverse_eq_nil_iff] at hrev
    rw [hrev] at hlen
    exact absurd hlen hpos
  | cons i rest =>
    rw [hrev] at hmax sorted
    obtain ⟨⟨maxid, numfields⟩, rfl, hmaxid⟩ := Option.map_eq_some_iff.mp hmax
    obtain rfl : maxid = i.id := hmaxid
    have hlive : ∀ j, j ∈ liveItems nodes ↔ j ∈ i :: rest := by
      intro j
      rw [← hrev, mem_reverse]
    rw [hget]
    refine ⟨some i.id, rfl, fun m hm => ?_, fun j hj => ⟨i.id, rfl, ?_⟩⟩
    · cases hm
      exact ⟨i, (hlive i).mpr (mem_cons_self ..), rfl⟩
    · rcases mem_cons.mp ((hlive j).mp hj) with rfl | hj
      · exact le_rfl
      · exact ((pairwise_cons.mp sorted).1 j hj).le

lemma process_xsetid (cfg : StreamConfig) (hs : db.find? key = some s) (order : s.InOrder nodes)
    (hid : ∀ i ∈ liveItems nodes, i.id ≤ id) (now : Int) :
    (processStreamCommand cfg db now [ascii "XSETID", key, streamIDText id]).map CmdResult.db =
      .ok (db.insert key { s with lastId := id }) := by
  have hacc : Accepts .xsetid [ascii "XSETID", key, streamIDText id] :=
    ⟨by show lookupCommand (ascii "XSETID") = _; decide, rfl⟩
  obtain ⟨top, htop, hmem, -⟩ := order.xsetidTop
  have hany : top.any (fun maxid => decide (streamCompareID id maxid < 0)) = false := by
    cases top with
    | none => rfl
    | some maxid =>
      have hcmp : ¬ streamCompareID id maxid < 0 := by
        obtain ⟨i, hi, hmax⟩ := hmem maxid rfl
        rw [streamCompareID_neg, ← hmax]
        exact not_lt.mpr (hid i hi)
      exact decide_eq_false hcmp
  show (xsetidCommand db [ascii "XSETID", key, streamIDText id]).map _ = _
  rw [xsetidCommand]
  simp only [argAt, getD_cons_succ, getD_cons_zero, hs, streamParseStrictID_text, htop, ok_bind, hany,
    Bool.false_eq_true, if_false]
  rfl

end Entries

section Groups

/-- A pending entry as it is written. -/
structure PendingEntry where
  name : Bytes
  id : StreamID
  time : Int
  count : Nat

def claimArgv (key groupname : Bytes) (e : PendingEntry) : List Bytes :=
  [ascii "XCLAIM", key, groupname, e.name, ascii "0", streamIDText e.id, ascii "TIME", ll2string e.time,
    ascii "RETRYCOUNT", ll2string (UInt64.ofNat e.count).toInt64.toInt, ascii "JUSTID", ascii "FORCE"]

/-- The delivery count that is loaded: `RETRYCOUNT` is signed, and a negative one is ignored. -/
def loadedCount (count : Nat) : Nat :=
  let v := (UInt64.ofNat count).toInt64.toInt
  if 0 ≤ v then v.toNat else 1

lemma loadedCount_eq {count : Nat} : loadedCount count = count ↔ count < 2 ^ 63 := by
  have hsigned : (UInt64.ofNat count).toInt64.toInt = (count : Int).bmod (2 ^ 64) := Int64.toInt_ofNat'
  rw [loadedCount, hsigned, Int.bmod_def]
  split <;> split <;> omega

lemma xclaimParse_claimArgv {time count : Int} (htime : LongLong time) (hcount : LongLong count) (o : XclaimOpts) :
    xclaimParse now [ascii "TIME", ll2string time, ascii "RETRYCOUNT", ll2string count, ascii "JUSTID", ascii "FORCE"] o =
      .ok ⟨time, count, true, true, o.lastId⟩ := by
  rw [xclaimParse_timeCount htime hcount, xclaimParse, if_neg (by decide)]
  rfl

/-- The pending entries of a group are claimed again, those of entries that are not there any more left out. -/
structure ClaimsPending (finds : StreamID → Prop) (entries : List PendingEntry) (cg : StreamCG) (g : GroupView)
    (cg' : StreamCG) (g' : GroupView) : Prop where
  shown : cg'.Shows g'
  lastId : g'.lastId = g.lastId
  others : ∀ k, (∀ e ∈ entries, k ≠ streamEncodeID e.id) →
    g'.owner k = g.owner k ∧ cg'.deliveryCount k = cg.deliveryCount k
  taken : ∀ e ∈ entries, finds e.id → g'.owner (streamEncodeID e.id) = some e.name ∧
    cg'.deliveryCount (streamEncodeID e.id) = some (loadedCount e.count)
  left : ∀ e ∈ entries, ¬ finds e.id → g'.owner (streamEncodeID e.id) = none

lemma streamEncodeID_injective : Function.Injective streamEncodeID := by
  intro a b h
  rw [← streamDecodeID_encode a, h, streamDecodeID_encode]

lemma ClaimsPending.cons {e : PendingEntry} {entries : List PendingEntry} {cg₁ cg' : StreamCG} {g₁ g' : GroupView}
    {finds : StreamID → Prop} (h : ClaimsPending finds [e] cg g cg₁ g₁)
    (h' : ClaimsPending finds entries cg₁ g₁ cg' g') (hnew : ∀ e' ∈ entries, e.id ≠ e'.id) :
    ClaimsPending finds (e :: entries) cg g cg' g' := by
  have hkeep : g'.owner (streamEncodeID e.id) = g₁.owner (streamEncodeID e.id) ∧
      cg'.deliveryCount (streamEncodeID e.id) = cg₁.deliveryCount (streamEncodeID e.id) :=
    h'.others _ fun e' he' heq => hnew e' he' (streamEncodeID_injective heq)
  refine ⟨h'.shown, h'.lastId.trans h.lastId, fun k hk => ?_, fun e' he' hf => ?_, fun e' he' hf => ?_⟩
  · have hrest := h'.others k fun e' he' => hk e' (mem_cons_of_mem _ he')
    have hfirst := h.others k fun e' he' => hk e' (mem_singleton.mp he' ▸ mem_cons_self ..)
    exact ⟨hrest.1.trans hfirst.1, hrest.2.trans hfirst.2⟩
  · rcases mem_cons.mp he' with rfl | he'
    · rw [hkeep.1, hkeep.2]
      exact h.taken _ (mem_singleton_self _) hf
    · exact h'.taken e' he' hf
  · rcases mem_cons.mp he' with rfl | he'
    · rw [hkeep.1]
      exact h.left _ (mem_singleton_self _) hf
    · exact h'.left e' he' hf

lemma process_claimArgv (hs : db.find? key = some s) (rendered : s.Rendered) (hcg : s.cgroups.find? groupname = some cg)
    (shown : cg.Shows g) {e} (htime : LongLong e.time) (hnone : g.owner (streamEncodeID e.id) = none)
    (cfg : StreamConfig) (hnow : LongLong now) :
    ∃ cg' g', (processStreamCommand cfg db now (claimArgv key groupname e)).map CmdResult.db =
        .ok (db.insert key (s.setGroup groupname cg')) ∧ ClaimsPending s.Finds [e] cg g cg' g' := by
  have hcount : LongLong (UInt64.ofNat e.count).toInt64.toInt := ⟨Int64.le_toInt _, Int64.toInt_lt _⟩
  have hzero : ll2string 0 = ascii "0" := by decide
  have hclaim := process_xclaim cfg hnow htime (xclaimParse_claimArgv htime hcount _) rfl hs rendered hcg shown
    (streamParseStrictID_text e.id 0) e.name
  obtain ⟨cg', hproc, hclaimed, hrefused⟩ := hclaim
  have hlast : max g.lastId ⟨0, 0⟩ = g.lastId := max_eq_left (StreamID.zero_le _)
  by_cases hfinds : s.Finds e.id
  · obtain ⟨shown', hcount', hothers⟩ := hclaimed (.inr hfinds)
    simp only [hlast] at shown'
    refine ⟨cg', (g.setLast g.lastId).give e.id e.name, hproc, shown', rfl, fun k hk => ?_, fun e' he' _ => ?_,
      fun e' he' hf => ?_⟩
    · have hk := hk e (mem_singleton_self e)
      exact ⟨Function.update_of_ne hk .., hothers k hk⟩
    · rw [mem_singleton.mp he']
      exact ⟨Function.update_self .., hcount' hnone⟩
    · rw [mem_singleton.mp he'] at hf
      exact absurd hfinds hf
  obtain ⟨shown', hcounts⟩ := hrefused (by rw [hnone]; simpa using hfinds)
  simp only [hlast] at shown'
  refine ⟨cg', g.setLast g.lastId, hproc, shown', rfl, fun k _ => ⟨rfl, hcounts k⟩, fun e' he' hf => ?_,
    fun e' he' _ => ?_⟩
  · rw [mem_singleton.mp he'] at hf
    exact absurd hf hfinds
  · rw [mem_singleton.mp he']
    exact hnone

lemma replay_claimArgv {entries : List PendingEntry} (hs : db.find? key = some s) (rendered : s.Rendered)
    (hcg : s.cgroups.find? groupname = some cg) (shown : cg.Shows g) (htime : ∀ e ∈ entries, LongLong e.time)
    (hnodup : (entries.map PendingEntry.id).Nodup) (hnone : ∀ e ∈ entries, g.owner (streamEncodeID e.id) = none)
    (ticks : Nat → Int64) :
    ∃ cg' g', replayFeeds cfg ticks (entries.map (claimArgv key groupname)) db =
        .ok (db.insert key (s.setGroup groupname cg')) ∧ ClaimsPending s.Finds entries cg g cg' g' := by
  induction entries generalizing db s cg g ticks with
  | nil =>
    refine ⟨cg, g, ?_, shown, rfl, fun _ _ => ⟨rfl, rfl⟩, fun _ h => (nomatch h), fun _ h => (nomatch h)⟩
    rw [map_nil, Stream.setGroup, insert_find hcg]
    exact congrArg _ (insert_find hs).symm
  | cons e entries ih =>
    obtain ⟨cg₁, g₁, hproc, claims⟩ := process_claimArgv hs rendered hcg shown (htime e (mem_cons_self ..))
      (hnone e (mem_cons_self ..)) cfg (longLong_toInt _)
    rw [map_cons, nodup_cons] at hnodup
    have hnew : ∀ e' ∈ entries, e.id ≠ e'.id := fun e' he' heq => hnodup.1 (heq ▸ mem_map_of_mem he')
    obtain ⟨cg', g', hreplay, claims'⟩ := @ih (s.setGroup groupname cg₁) cg₁ g₁ (db.insert key (s.setGroup groupname cg₁))
      find?_insert_self rendered find?_insert_self claims.shown
      (fun e' he' => htime e' (mem_cons_of_mem _ he')) hnodup.2 (fun e' he' => by
        have hkeep := claims.others (streamEncodeID e'.id) fun e'' he'' heq => by
          rw [mem_singleton.mp he''] at heq
          exact hnew e' he' (streamEncodeID_injective heq).symm
        rw [hkeep.1]
        exact hnone e' (mem_cons_of_mem _ he')) fun i => ticks (i + 1)
    refine ⟨cg', g', ?_, claims.cons claims' hnew⟩
    rw [map_cons, replayFeeds_cons hproc, hreplay, insert_insert, Stream.setGroup, Stream.setGroup,
      Stream.setGroup, insert_insert]

def pendingEntry (cg : StreamCG) (consumer : StreamConsumer) (e : Bytes × Nat) : PendingEntry :=
  let nack := (cg.nackHeap.find? e.2).getD ⟨0, 0, none⟩
  ⟨consumer.name, streamDecodeID e.1, nack.deliveryTime, nack.deliveryCount⟩

def consumerEntries (cg : StreamCG) (c : Nat) : List PendingEntry :=
  let consumer := (cg.consumerHeap.find? c).getD ⟨0, [], .empty⟩
  consumer.pel.entries.map (pendingEntry cg consumer)

def pendingEntries (cg : StreamCG) : List PendingEntry := cg.consumers.entries.flatMap fun e => consumerEntries cg e.2

variable {own : Owners}

lemma StreamCG.Owned.rewriteConsumer (h : cg.Owned own) (hids : ∀ k, (own k).isSome → ∃ id, k = streamEncodeID id)
    {name : Bytes} {c : Nat} (hc : (name, c) ∈ cg.consumers.entries) (key groupname : Bytes) :
    rewriteStreamConsumer key groupname cg c = .ok ((consumerEntries cg c).map (claimArgv key groupname)) ∧
      (∀ e ∈ consumerEntries cg c, e.name = name ∧ ∃ p, own (streamEncodeID e.id) = some (p, c) ∧
        cg.nackHeap.find? p = some ⟨e.time, e.count, some c⟩ ∧ LongLong e.time) ∧
      (∀ k p, own k = some (p, c) → ∃ e ∈ consumerEntries cg c, k = streamEncodeID e.id) ∧
      ((consumerEntries cg c).map PendingEntry.id).Nodup := by
  obtain ⟨x, hx, rfl⟩ := Option.map_eq_some_iff.mp (h.listed.mp (find?_eq_some.mpr hc))
  have hentries : consumerEntries cg c = x.pel.entries.map (pendingEntry cg x) := by
    rw [consumerEntries, hx]
    rfl
  -- An entry of the list as it is written.
  have hentry : ∀ e ∈ x.pel.entries, ∃ id time count, e.1 = streamEncodeID id ∧ own e.1 = some (e.2, c) ∧
      cg.nackHeap.find? e.2 = some ⟨time, count, some c⟩ ∧ LongLong time ∧
      pendingEntry cg x e = ⟨x.name, id, time, count⟩ := by
    intro e he
    have hown := (h.mem_pel hx).mp he
    obtain ⟨id, hid⟩ := hids e.1 (by rw [hown]; rfl)
    obtain ⟨time, count, hp, htime⟩ := h.nack hown
    refine ⟨id, time, count, hid, hown, hp, htime, ?_⟩
    rw [pendingEntry, hp, hid, streamDecodeID_encode]
    rfl
  refine ⟨?_, fun e he => ?_, fun k p hk => ?_, ?_⟩
  · rw [rewriteStreamConsumer, StreamCG.consumer, hx, hentries, map_map]
    refine mapM_ok fun e he => ?_
    obtain ⟨id, time, count, hid, -, hp, -, heq⟩ := hentry e he
    rw [StreamCG.nack, hp, Function.comp_apply, heq]
    simp only [ok_bind, rioWriteStreamPendingEntry, claimArgv, hid, streamDecodeID_encode]
  · rw [hentries] at he
    obtain ⟨e', he', rfl⟩ := mem_map.mp he
    obtain ⟨id, time, count, hid, hown, hp, htime, heq⟩ := hentry e' he'
    rw [heq]
    exact ⟨rfl, e'.2, hid ▸ hown, hp, htime⟩
  · have hmem : (k, p) ∈ x.pel.entries := (h.mem_pel hx).mpr hk
    obtain ⟨id, time, count, hid, -, -, -, heq⟩ := hentry _ hmem
    rw [hentries]
    refine ⟨_, mem_map_of_mem hmem, ?_⟩
    rw [heq]
    exact hid
  · rw [hentries, map_map, List.Nodup, pairwise_map]
    refine x.pel.sorted.imp_of_mem fun {a b} ha hb hlt heq => ?_
    obtain ⟨ida, _, _, hida, -, -, -, heqa⟩ := hentry a ha
    obtain ⟨idb, _, _, hidb, -, -, -, heqb⟩ := hentry b hb
    rw [Function.comp_apply, Function.comp_apply, heqa, heqb] at heq
    rw [hida, hidb, show ida = idb from heq] at hlt
    exact lt_irrefl _ hlt

lemma StreamCG.Shows.rewriteCG (h : cg.Shows g) (key groupname : Bytes) :
    rewriteStreamCG key (groupname, cg) =
        .ok ([ascii "XGROUP", ascii "CREATE", key, groupname, streamIDText g.lastId] ::
          (pendingEntries cg).map (claimArgv key groupname)) ∧
      (∀ e ∈ pendingEntries cg, LongLong e.time ∧ g.owner (streamEncodeID e.id) = some e.name ∧
        cg.deliveryCount (streamEncodeID e.id) = some e.count) ∧
      (∀ k, (g.owner k).isSome → ∃ e ∈ pendingEntries cg, k = streamEncodeID e.id) ∧
      ((pendingEntries cg).map PendingEntry.id).Nodup := by
  obtain ⟨hlast, hencoded, own, owned, names⟩ := h
  have hids : ∀ k, (own k).isSome → ∃ id, k = streamEncodeID id := by
    intro k hk
    rw [← owned.isSome_owner, names] at hk
    exact hencoded k hk
  have hconsumer := fun e (he : e ∈ cg.consumers.entries) => owned.rewriteConsumer hids he key groupname
  refine ⟨?_, fun e he => ?_, fun k hk => ?_, ?_⟩
  · rw [rewriteStreamCG, mapM_ok fun e he => (hconsumer e he).1, hlast]
    simp only [pendingEntries, map_flatMap]
    rfl
  · obtain ⟨c, hc, he⟩ := mem_flatMap.mp he
    obtain ⟨hname, p, hown, hp, htime⟩ := (hconsumer c hc).2.1 e he
    refine ⟨htime, ?_, ?_⟩
    · rw [← names, hown, hname]
      exact owned.listed.mp (find?_eq_some.mpr hc)
    · rw [StreamCG.deliveryCount, owned.pel, hown]
      simp only [Option.map_some, Option.bind_eq_bind, Option.bind_some, hp]
  · rw [← names, owned.isSome_owner] at hk
    obtain ⟨⟨p, c⟩, hown⟩ := Option.isSome_iff_exists.mp hk
    obtain ⟨x, hx⟩ := Option.isSome_iff_exists.mp (owned.owner hown)
    have hc : (x.name, c) ∈ cg.consumers.entries := by
      rw [← find?_eq_some, owned.listed, StreamCG.nameOf, hx]
      rfl
    obtain ⟨e, he, heq⟩ := (hconsumer _ hc).2.2.1 k p hown
    exact ⟨e, mem_flatMap.mpr ⟨_, hc, he⟩, heq⟩
  · rw [pendingEntries, map_flatMap, nodup_flatMap]
    refine ⟨fun c hc => (hconsumer c hc).2.2.2, ?_⟩
    -- An ID that two consumers had would have two owners.
    refine cg.consumers.sorted.imp_of_mem fun {a b} ha hb hlt id hida hidb => ?_
    obtain ⟨ea, hea, rfl⟩ := mem_map.mp hida
    obtain ⟨eb, heb, heq⟩ := mem_map.mp hidb
    obtain ⟨-, p, howna, -⟩ := (hconsumer a ha).2.1 ea hea
    obtain ⟨-, q, hownb, -⟩ := (hconsumer b hb).2.1 eb heb
    rw [heq, howna] at hownb
    have hca := owned.listed.mp (find?_eq_some.mpr ha)
    have hcb := owned.listed.mp (find?_eq_some.mpr hb)
    have hc : a.2 = b.2 := (Prod.mk.inj (Option.some.inj hownb)).2
    rw [hc, hcb] at hca
    exact hlt.ne (Option.some.inj hca).symm

lemma process_create (hs : db.find? key = some s) (hcg : s.cgroups.find? groupname = none) (id : StreamID) :
    (processStreamCommand cfg db now [ascii "XGROUP", ascii "CREATE", key, groupname, streamIDText id]).map
        CmdResult.db =
      .ok (db.insert key (s.setGroup groupname ⟨id, .empty, .empty, .empty, .empty, 0⟩)) := by
  have hacc : Accepts .xgroup [ascii "XGROUP", ascii "CREATE", key, groupname, streamIDText id] :=
    ⟨by show lookupCommand (ascii "XGROUP") = _; decide, rfl⟩
  have hid : xgroupID (some s) (streamIDText id) true = some id := by
    rw [xgroupID, streq_streamIDText id (by decide), if_neg (by decide), streamGenericParseID_text]
  have hlookup : streamLookupCG s groupname = none := hcg
  have hcreate : strcaseeq (ascii "CREATE") "CREATE" = true := by decide
  have hsetid : strcaseeq (ascii "CREATE") "SETID" = false := by decide
  have hdel : strcaseeq (ascii "CREATE") "DELCONSUMER" = false := by decide
  show (xgroupCommand db now [ascii "XGROUP", ascii "CREATE", key, groupname, streamIDText id]).map _ = _
  simp only [xgroupCommand, argAt, getD_cons_succ, getD_cons_zero, hs, hlookup, hcreate, hsetid, hdel,
    Bool.false_eq_true, or_self, and_false, if_false, length_cons, length_nil, xgroupCreate, hid,
    Option.isNone_some, false_and, Option.getD_some, streamCreateCG, hcg, Option.isSome_none]
  rfl

lemma StreamCG.Shows.deliveryCount_none {k : Bytes} (h : cg.Shows g) (hk : g.owner k = none) :
    cg.deliveryCount k = none := by
  obtain ⟨-, -, own, owned, names⟩ := h
  have hown : own k = none := by
    have hsome := owned.isSome_owner k
    rw [names, hk] at hsome
    exact Option.isNone_iff_eq_none.mp (Option.isSome_eq_false_iff.mp hsome.symm)
  rw [StreamCG.deliveryCount, owned.pel, hown]
  rfl

/-- The entry exists, and its delivery count is a positive `long long`. -/
def PendingEntry.Loads (finds : StreamID → Prop) (e : PendingEntry) : Prop := finds e.id ∧ e.count < 2 ^ 63

lemma ClaimsPending.samePending {finds cg' g'} (h : cg.Shows g)
    (claims : ClaimsPending finds (pendingEntries cg) ⟨g.lastId, .empty, .empty, .empty, .empty, 0⟩
      ⟨g.lastId, fun _ => none⟩ cg' g') :
    SamePending cg cg' ↔ ∀ e ∈ pendingEntries cg, e.Loads finds := by
  obtain ⟨-, hentries, hall, -⟩ := h.rewriteCG [] []
  constructor
  · rintro ⟨-, howner, hcount⟩ e he
    obtain ⟨-, hown, hcnt⟩ := hentries e he
    rw [claims.shown.pendingOwner_eq, h.pendingOwner_eq] at howner
    have hfinds : finds e.id := by
      by_contra hnot
      have hnone := claims.left e he hnot
      rw [howner, hown] at hnone
      cases hnone
    refine ⟨hfinds, ?_⟩
    have hloaded := (claims.taken e he hfinds).2
    rw [hcount, hcnt] at hloaded
    exact loadedCount_eq.mp (Option.some.inj hloaded).symm
  · intro hloads
    have hkeys : ∀ k, (∃ e ∈ pendingEntries cg, k = streamEncodeID e.id) ∨
        (∀ e ∈ pendingEntries cg, k ≠ streamEncodeID e.id) ∧ g.owner k = none := by
      intro k
      by_cases hk : ∃ e ∈ pendingEntries cg, k = streamEncodeID e.id
      · exact .inl hk
      · refine .inr ⟨fun e he heq => hk ⟨e, he, heq⟩, ?_⟩
        by_contra hsome
        exact hk (hall k (Option.isSome_iff_ne_none.mpr hsome))
    refine ⟨?_, ?_, ?_⟩
    · rw [claims.shown.lastId, claims.lastId, h.lastId]
    · rw [claims.shown.pendingOwner_eq, h.pendingOwner_eq]
      funext k
      rcases hkeys k with ⟨e, he, rfl⟩ | ⟨hne, hnone⟩
      · rw [(claims.taken e he (hloads e he).1).1, (hentries e he).2.1]
      · rw [(claims.others k hne).1, hnone]
    · funext k
      rcases hkeys k with ⟨e, he, rfl⟩ | ⟨hne, hnone⟩
      · rw [(claims.taken e he (hloads e he).1).2, (hentries e he).2.2, loadedCount_eq.mpr (hloads e he).2]
      · rw [(claims.others k hne).2, h.deliveryCount_none hnone]
        rfl

lemma replay_group (cfg : StreamConfig) (hs : db.find? key = some s) (rendered : s.Rendered)
    (hnone : s.cgroups.find? groupname = none) (h : cg.Shows g) (ticks : Nat → Int64) :
    ∃ cmds cg', rewriteStreamCG key (groupname, cg) = .ok cmds ∧
      replayFeeds cfg ticks cmds db = .ok (db.insert key (s.setGroup groupname cg')) ∧
      (SamePending cg cg' ↔ ∀ e ∈ pendingEntries cg, e.Loads s.Finds) := by
  obtain ⟨hrewrite, hentries, -, hnodup⟩ := h.rewriteCG key groupname
  obtain ⟨cg', g', hreplay, claims⟩ := @replay_claimArgv (s.setGroup groupname ⟨g.lastId, .empty, .empty, .empty, .empty, 0⟩)
    key groupname ⟨g.lastId, .empty, .empty, .empty, .empty, 0⟩ ⟨g.lastId, fun _ => none⟩ cfg
    (db.insert key (s.setGroup groupname ⟨g.lastId, .empty, .empty, .empty, .empty, 0⟩)) (pendingEntries cg)
    find?_insert_self rendered find?_insert_self (StreamCG.shows_new g.lastId)
    (fun e he => (hentries e he).1) hnodup (fun _ _ => rfl) fun i => ticks (i + 1)
  refine ⟨_, cg', hrewrite, ?_, claims.samePending h⟩
  rw [replayFeeds_cons (process_create hs hnone g.lastId), hreplay, insert_insert, Stream.setGroup,
    Stream.setGroup, Stream.setGroup, insert_insert]

lemma replay_groups {groups : List (Bytes × StreamCG)} (hs : db.find? key = some s) (rendered : s.Rendered)
    (hshown : ∀ e ∈ groups, ∃ g, e.2.Shows g) (hnone : ∀ e ∈ groups, s.cgroups.find? e.1 = none)
    (hnodup : (groups.map Prod.fst).Nodup) (ticks : Nat → Int64) :
    ∃ cmds cgroups, groups.mapM (rewriteStreamCG key) = .ok cmds ∧
      replayFeeds cfg ticks cmds.flatten db = .ok (db.insert key (s.withGroups cgroups)) ∧
      (∀ e ∈ groups, ∃ cg', cgroups.find? e.1 = some cg' ∧
        (SamePending e.2 cg' ↔ ∀ p ∈ pendingEntries e.2, p.Loads s.Finds)) ∧
      ∀ name, name ∉ groups.map Prod.fst → cgroups.find? name = s.cgroups.find? name := by
  induction groups generalizing db s ticks with
  | nil => exact ⟨[], s.cgroups, rfl, congrArg _ (insert_find hs).symm, fun _ h => (nomatch h), fun _ _ => rfl⟩
  | cons e groups ih =>
    obtain ⟨groupname, cg⟩ := e
    obtain ⟨g, shown⟩ := hshown _ (mem_cons_self ..)
    obtain ⟨cmds, cg', hrewrite, hreplay, hsame⟩ := replay_group cfg hs rendered
      (hnone _ (mem_cons_self ..)) shown ticks
    rw [map_cons, nodup_cons] at hnodup
    obtain ⟨rest, cgroups, hrest, hreplay', hgroups, hothers⟩ := @ih (s.setGroup groupname cg')
      (db.insert key (s.setGroup groupname cg')) find?_insert_self rendered
      (fun e he => hshown e (mem_cons_of_mem _ he)) (fun e he => by
        have hne : e.1 ≠ groupname := fun heq => hnodup.1 (mem_map.mpr ⟨e, he, heq⟩)
        rw [Stream.setGroup, find?_insert_ne hne]
        exact hnone e (mem_cons_of_mem _ he)) hnodup.2 fun i => ticks (i + cmds.length)
    refine ⟨cmds :: rest, cgroups, ?_, ?_, fun e he => ?_, fun name hname => ?_⟩
    · rw [mapM_cons, hrewrite, hrest]
      rfl
    · rw [flatten_cons, replayFeeds_append, hreplay, ok_bind, hreplay', insert_insert]
      rfl
    · rcases mem_cons.mp he with rfl | he
      · refine ⟨cg', ?_, hsame⟩
        rw [hothers _ hnodup.1]
        exact find?_insert_self
      · exact hgroups e he
    · rw [map_cons, mem_cons, not_or] at hname
      rw [hothers name hname.2, Stream.setGroup, find?_insert_ne hname.1]

end Groups

section Object

/-- There is room for each entry, and for the one that stands for a stream without entries. -/
def Stream.HasRoom (s : Stream) (cfg : StreamConfig) : Prop :=
  JitRedis.HasRoom cfg [(ascii "x", ascii "y")] ∧
    ∀ entries, streamRange s none none false = .ok entries → ∀ e ∈ entries, JitRedis.HasRoom cfg e.2

/-- Each pending ID is the ID of an entry, and its delivery count is below `2 ^ 63`. -/
def Stream.Loadable (s : Stream) : Prop :=
  ∀ name cg, s.cgroups.find? name = some cg → ∀ id count, cg.deliveryCount (streamEncodeID id) = some count →
    s.Finds id ∧ count < 2 ^ 63

lemma Stream.Good.loadable_iff (h : s.Good) :
    s.Loadable ↔ ∀ e ∈ s.cgroups.entries, ∀ p ∈ pendingEntries e.2, p.Loads s.Finds := by
  constructor
  · intro hload e he p hp
    have hcg : s.cgroups.find? e.1 = some e.2 := find?_eq_some.mpr he
    obtain ⟨g, shown⟩ := h.groups hcg
    obtain ⟨-, hentries, -⟩ := shown.rewriteCG [] []
    exact hload e.1 e.2 hcg p.id p.count (hentries p hp).2.2
  · intro hload name cg hcg id count hcount
    obtain ⟨g, shown⟩ := h.groups hcg
    obtain ⟨-, hentries, hall, -⟩ := shown.rewriteCG [] []
    have hsome : (g.owner (streamEncodeID id)).isSome := by
      by_contra hnone
      rw [shown.deliveryCount_none (Option.not_isSome_iff_eq_none.mp hnone)] at hcount
      cases hcount
    obtain ⟨p, hp, heq⟩ := hall _ hsome
    obtain rfl := streamEncodeID_injective heq
    have hloads := hload (name, cg) (find?_eq_some.mp hcg) p hp
    rw [(hentries p hp).2.2] at hcount
    cases hcount
    exact hloads

lemma Stream.InOrder.rebuildEntries (h : s.InOrder nodes) (hs : db.find? key = none) (hroom : s.HasRoom cfg)
    (ticks : Nat → Int64) :
    ∃ adds s', rewriteStreamAdds key s = .ok adds ∧ replayFeeds cfg ticks adds db = .ok (db.insert key s') ∧
      (∃ nodes', s'.InOrder nodes' ∧ (liveItems nodes').map entry = (liveItems nodes).map entry) ∧
      s'.cgroups = .empty := by
  rw [rewriteStreamAdds]
  by_cases hlen : s.length = 0
  · obtain ⟨s', hproc, order, hgroups⟩ := process_emptyArgv hs hroom.1 s.lastId (ticks 0).toInt
    rw [if_neg (not_not.mpr hlen)]
    refine ⟨_, s', rfl, replayFeeds_cons hproc, ⟨[], order, ?_⟩, hgroups⟩
    rw [h.length, length_eq_zero_iff] at hlen
    rw [hlen]
    rfl
  have hentry : ∀ {P : Entry → Prop}, (∀ i ∈ liveItems nodes, P i.entry) →
      ∀ e ∈ (liveItems nodes).map entry, P e := fun hP => forall_mem_map.mpr hP
  have hnonempty : (liveItems nodes).map entry ≠ [] := by
    intro hnil
    rw [map_eq_nil_iff] at hnil
    rw [h.length, hnil] at hlen
    exact hlen rfl
  have hnew : (db.find? key).getD streamNew = streamNew := by
    rw [hs]
    rfl
  obtain ⟨s', hreplay, rebuilt⟩ := @replay_xaddArgv key cfg db [] ((liveItems nodes).map entry)
    (by rw [hnew]; exact rebuilt_new) hnonempty (hroom.2 _ h.range_all) (hentry h.filled)
    (hentry fun i hi => h.sizedFields_eq hi) (by rw [hnew]; exact hentry h.positive) (pairwise_map.mpr h.ordered.live) ticks
  rw [if_pos hlen]
  refine ⟨_, s', h.rewriteEntries key, ?_, rebuilt.order, rebuilt.groups⟩
  rw [map_map] at hreplay
  exact hreplay

lemma Stream.InOrder.rebuild (h : s.InOrder nodes) (hs : db.find? key = none) (hroom : s.HasRoom cfg)
    (ticks : Nat → Int64) :
    ∃ adds s', rewriteStreamAdds key s = .ok adds ∧
      replayFeeds cfg ticks (adds ++ [[ascii "XSETID", key, streamIDText s.lastId]]) db = .ok (db.insert key s') ∧
      (∃ nodes', s'.InOrder nodes' ∧ (liveItems nodes').map entry = (liveItems nodes).map entry) ∧
      s'.lastId = s.lastId ∧ s'.cgroups = .empty := by
  obtain ⟨adds, s₁, hadds, hreplay, ⟨nodes₁, order, hentries⟩, hgroups⟩ := h.rebuildEntries hs hroom ticks
  have bounded : ∀ i ∈ liveItems nodes₁, i.id ≤ s.lastId := by
    intro i hi
    have hi' : i.entry ∈ (liveItems nodes).map entry := by
      rw [← hentries]
      exact mem_map_of_mem hi
    obtain ⟨j, hj, heq⟩ := mem_map.mp hi'
    rw [← show j.id = i.id from congrArg Prod.fst heq]
    exact h.bounded j hj
  have hfind : (db.insert key s₁).find? key = some s₁ := find?_insert_self
  refine ⟨adds, { s₁ with lastId := s.lastId }, hadds, ?_, ⟨nodes₁, ⟨order.renders, order.ordered, bounded, order.length,
    order.filled, order.positive⟩, hentries⟩, rfl, hgroups⟩
  rw [replayFeeds_snoc hreplay (process_xsetid cfg hfind order bounded _), insert_insert]

lemma Stream.InOrder.finds_congr (h : s.InOrder nodes) (h' : s'.InOrder nodes')
    (hentries : (liveItems nodes').map StreamItem.entry = (liveItems nodes).map StreamItem.entry) :
    s'.Finds = s.Finds := by
  have hids : (liveItems nodes').map StreamItem.id = (liveItems nodes).map StreamItem.id := by
    have hmap := congrArg (List.map Prod.fst) hentries
    rw [map_map, map_map] at hmap
    exact hmap
  funext id
  rw [h'.finds, h.finds]
  simp only [← mem_map, hids]

lemma Stream.Good.rewriteOk (h : s.Good) (key : Bytes) : ∃ adds groups, rewriteStreamAdds key s = .ok adds ∧
    s.cgroups.entries.mapM (rewriteStreamCG key) = .ok groups := by
  obtain ⟨nodes, order⟩ := h.order
  have hadds : ∃ adds, rewriteStreamAdds key s = .ok adds := by
    rw [rewriteStreamAdds]
    split
    · exact ⟨_, order.rewriteEntries key⟩
    · exact ⟨_, rfl⟩
  obtain ⟨adds, hadds⟩ := hadds
  refine ⟨adds, _, hadds, mapM_ok (g := fun e => [ascii "XGROUP", ascii "CREATE", key, e.1, streamIDText e.2.lastId] ::
    (pendingEntries e.2).map (claimArgv key e.1)) fun e he => ?_⟩
  obtain ⟨g, shown⟩ := h.groups (find?_eq_some.mpr he)
  rw [(shown.rewriteCG key e.1).1, shown.lastId]

lemma Stream.Good.rewritten (h : s.Good) (key : Bytes) : ∃ cmds, rewriteStreamObject key s = .ok cmds ∧
    ∀ cfg db ticks, db.find? key = none → s.HasRoom cfg →
      ∃ s', replayFeeds cfg ticks cmds db = .ok (db.insert key s') ∧ (s.SameValue s' ↔ s.Loadable) := by
  obtain ⟨nodes, order⟩ := h.order
  obtain ⟨adds, groups, hadds, hgroups⟩ := h.rewriteOk key
  refine ⟨adds ++ [ascii "XSETID", key, streamIDText s.lastId] :: groups.flatten, ?_, fun cfg db ticks hs hroom => ?_⟩
  · rw [rewriteStreamObject, hadds, hgroups]
    rfl
  obtain ⟨adds', s₁, hadds', hreplay, ⟨nodes₁, order₁, hentries⟩, hlast, hempty⟩ := order.rebuild hs hroom ticks
  rw [hadds] at hadds'
  cases hadds'
  have hnodup : (s.cgroups.entries.map Prod.fst).Nodup := by
    rw [List.Nodup, pairwise_map]
    exact s.cgroups.sorted.imp fun hlt => hlt.ne
  obtain ⟨groups', cgroups, hgroups', hreplay', hsame, hothers⟩ := @replay_groups s₁ key cfg (db.insert key s₁)
    s.cgroups.entries find?_insert_self order₁.rendered
    (fun e he => h.groups (find?_eq_some.mpr he)) (fun e _ => by rw [hempty]; rfl) hnodup
    fun i => ticks (i + (adds ++ [[ascii "XSETID", key, streamIDText s.lastId]]).length)
  rw [hgroups] at hgroups'
  cases hgroups'
  refine ⟨s₁.withGroups cgroups, ?_, ?_⟩
  · rw [append_cons, replayFeeds_append, hreplay, ok_bind, hreplay', insert_insert]
  rw [h.loadable_iff]
  rw [order.finds_congr order₁ hentries] at hsame
  constructor
  · intro same e he
    obtain ⟨cg', hcg', hiff⟩ := hsame e he
    have rel := same.groups e.1
    rw [find?_eq_some.mpr he, show (s₁.withGroups cgroups).cgroups.find? e.1 = some cg' from hcg'] at rel
    cases rel with
    | some same => exact hiff.mp same
  · intro hload
    have order' : (s₁.withGroups cgroups).InOrder nodes₁ :=
      ⟨order₁.renders, order₁.ordered, order₁.bounded, order₁.length, order₁.filled, order₁.positive⟩
    refine ⟨?_, hlast, fun name => ?_⟩
    · rw [order'.range_all, order.range_all, hentries]
    · show Option.Rel SamePending (s.cgroups.find? name) (cgroups.find? name)
      cases hcg : s.cgroups.find? name with
      | none =>
        have hname : name ∉ s.cgroups.entries.map Prod.fst := by
          intro hmem
          obtain ⟨e, he, rfl⟩ := mem_map.mp hmem
          rw [find?_eq_some.mpr he] at hcg
          cases hcg
        rw [hothers name hname, hempty]
        exact .none
      | some cg =>
        have he := find?_eq_some.mp hcg
        obtain ⟨cg', hcg', hiff⟩ := hsame _ he
        rw [show cgroups.find? name = some cg' from hcg']
        exact .some (hiff.mpr (hload _ he))

end Object

end JitRedis
