import JitRedis.Aof.StreamRuns

/-!
# What a read returns after the last ID seen

`XREAD` and `XREADGROUP` read from the ID with the next sequence number on. The sum has 64 bits, so that it wraps around
behind the last sequence number of a millisecond, and the read starts again at the first one.
-/

namespace JitRedis

open Fallible List

/-- The oldest entries after an ID, at most `count` of them. -/
def unread (nodes : List StreamNode) (x : StreamID) (count : Nat) : List StreamItem :=
  limited count ((liveItems nodes).filter fun i => x < i.id)

def replyEntries (items : List StreamItem) : Reply :=
  .multiBulkLen items.length :: items.flatMap fun i => replyEntry i.id i.fields

/-- A turn has added the entries to the reply; a stream without any may be left out. -/
def ReadState.Returns (st : ReadState) (key : Bytes) (items : List StreamItem) (st' : ReadState) : Prop :=
  st'.reply = st.reply ++ [.multiBulkLen 2, .bulk key] ++ replyEntries items ∨ items = [] ∧ st'.reply = st.reply

def lastDelivered (db : StreamDb) (key groupname : Bytes) : Option StreamID :=
  ((db.find? key).bind (streamLookupCG · groupname)).map StreamCG.lastId

/-- The ID of the last entry, or `x` if there is none. -/
def lastOf (x : StreamID) (items : List StreamItem) : StreamID := (items.getLast?.map StreamItem.id).getD x

/-- The ID is the last one of a millisecond that has entries, and the stream goes on behind it. -/
def Stream.Rereads (s : Stream) (nodes : List StreamNode) (x : StreamID) : Prop :=
  x.seq = -1 ∧ x < s.lastId ∧ ∃ i ∈ liveItems nodes, i.id.ms = x.ms

variable {s : Stream} {nodes : List StreamNode} {x id : StreamID} {items items' : List StreamItem} {i : StreamItem}
  {count : Nat} {key groupname : Bytes} {now : Int} {st : ReadState} {cg : StreamCG}
  {g : GroupView}

lemma exists_ok_and {α : Type} {a : α} {P : α → Prop} : (∃ b, (.ok a : Except Fault α) = .ok b ∧ P b) ↔ P a := by simp

def readFrom (nodes : List StreamNode) (x : StreamID) : List StreamItem :=
  (liveItems nodes).filter fun i => ⟨x.ms, x.seq + 1⟩ ≤ i.id

lemma rangeItems_from (nodes : List StreamNode) (x : StreamID) :
    rangeItems false (some ⟨x.ms, x.seq + 1⟩) none nodes = readFrom nodes x := by
  have hstop (id : StreamID) : id ≤ stopId none := by
    show id.val ≤ (2 ^ 64 - 1) * 2 ^ 64 + (2 ^ 64 - 1)
    have hms := id.ms.toNat_lt
    have hseq := id.seq.toNat_lt
    rw [StreamID.val]
    omega
  rw [rangeItems, readFrom, liveItems, ← live_allItems, filter_filter]
  refine filter_congr fun i _ => ?_
  rw [inRange, decide_eq_true (hstop i.id), Bool.and_true, Bool.and_comm]
  rfl

lemma next_le_iff (hseq : x.seq ≠ -1) : ⟨x.ms, x.seq + 1⟩ ≤ id ↔ x < id := by
  have hlt := x.seq.toNat_lt
  have hne : x.seq.toNat ≠ 2 ^ 64 - 1 := fun heq => hseq (UInt64.toNat_inj.mp heq)
  have hnext : (x.seq + 1).toNat = x.seq.toNat + 1 := by
    exact Nat.mod_eq_of_lt (by simp; omega)
  show x.ms.toNat * 2 ^ 64 + (x.seq + 1).toNat ≤ id.val ↔ x.val < id.val
  rw [StreamID.val, StreamID.val]
  omega

lemma wrapped_le_iff (hseq : x.seq = -1) : ⟨x.ms, x.seq + 1⟩ ≤ id ↔ x < id ∨ id.ms = x.ms := by
  have hid := id.seq.toNat_lt
  rw [← UInt64.toNat_inj]
  show x.ms.toNat * 2 ^ 64 + (x.seq + 1).toNat ≤ id.val ↔ x.val < id.val ∨ _
  rw [StreamID.val, StreamID.val, hseq]
  show x.ms.toNat * 2 ^ 64 + 0 ≤ _ ↔ x.ms.toNat * 2 ^ 64 + (2 ^ 64 - 1) < _ ∨ _
  omega

lemma readFrom_eq (h : ¬ s.Rereads nodes x) (hlast : x < s.lastId) :
    readFrom nodes x = (liveItems nodes).filter fun i => x < i.id := by
  refine filter_congr fun i hi => decide_eq_decide.mpr ?_
  by_cases hseq : x.seq = -1
  · rw [wrapped_le_iff hseq]
    exact or_iff_left fun hms => h ⟨hseq, hlast, i, hi, hms⟩
  · exact next_le_iff hseq

lemma limited_cons_eq (count : Nat) (i : StreamItem) (items : List StreamItem) :
    ∃ items', limited count (i :: items) = i :: items' := by
  cases count with
  | zero => exact ⟨items, rfl⟩
  | succ n => exact ⟨items.take n, rfl⟩

lemma mem_of_mem_limited (h : i ∈ limited count items) : i ∈ items := by
  rw [limited] at h
  split at h
  · exact h
  · exact mem_of_mem_take h

lemma replyEntries_head (h : replyEntries (i :: items) = replyEntries items') : ∃ j ∈ items', j.id = i.id := by
  cases items' with
  | nil => cases h
  | cons j items' =>
    refine ⟨j, mem_cons_self .., ?_⟩
    have htext : streamIDText i.id = streamIDText j.id := by
      simp only [replyEntries, replyEntry, flatMap_cons, cons_append, nil_append, cons.injEq, ReplyItem.bulk.injEq] at h
      exact h.2.2.1
    have hparse := streamParseStrictID_text i.id 0
    rw [htext, streamParseStrictID_text] at hparse
    exact Option.some.inj hparse

lemma Stream.InOrder.rereads (h : s.InOrder nodes) (hre : s.Rereads nodes x) :
    replyEntries (limited count (readFrom nodes x)) ≠ replyEntries (unread nodes x count) := by
  obtain ⟨hseq, -, i, hi, hms⟩ := hre
  have hmem : i ∈ readFrom nodes x := mem_filter.mpr ⟨hi, decide_eq_true ((wrapped_le_iff hseq).mpr (.inr hms))⟩
  have hsorted : (readFrom nodes x).Pairwise (·.id < ·.id) := h.ordered.live.filter _
  have hlex : i.id ≤ x := by
    show i.id.val ≤ x.val
    have := i.id.seq.toNat_lt
    rw [StreamID.val, StreamID.val, hms, hseq]
    show _ ≤ x.ms.toNat * 2 ^ 64 + (2 ^ 64 - 1)
    omega
  intro heq
  cases hread : readFrom nodes x with
  | nil =>
    rw [hread] at hmem
    cases hmem
  | cons j rest =>
    rw [hread] at hmem hsorted heq
    obtain ⟨rest', hrest⟩ := limited_cons_eq count j rest
    rw [hrest] at heq
    obtain ⟨k, hk, hid⟩ := replyEntries_head heq
    have hkx : x < k.id := of_decide_eq_true (mem_filter.mp (mem_of_mem_limited hk)).2
    exact absurd (hid ▸ hkx) (not_lt.mpr ((head_le hsorted hmem).trans hlex))

lemma Stream.InOrder.unread_eq_nil (h : s.InOrder nodes) (hread : ¬(s.length ≠ 0 ∧ x < s.lastId)) (count : Nat) :
    unread nodes x count = [] ∧ ¬ s.Rereads nodes x := by
  have hlive : s.length ≠ 0 ↔ liveItems nodes ≠ [] := by rw [h.length, ne_eq, length_eq_zero_iff]
  constructor
  · have hnil : ((liveItems nodes).filter fun i => x < i.id) = [] := by
      refine filter_eq_nil_iff.mpr fun i hi hx => hread ⟨hlive.mpr (ne_nil_of_mem hi), ?_⟩
      exact (of_decide_eq_true hx).trans_le (h.bounded i hi)
    rw [unread, hnil, limited]
    split <;> simp
  · rintro ⟨-, hlast, i, hi, -⟩
    exact hread ⟨hlive.mpr (ne_nil_of_mem hi), hlast⟩

lemma Stream.InOrder.returns_iff (h : s.InOrder nodes) (hlast : x < s.lastId) {st' : ReadState}
    (hst : st'.reply = st.reply ++ [.multiBulkLen 2, .bulk key] ++ replyEntries (limited count (readFrom nodes x))) :
    st.Returns key (unread nodes x count) st' ↔ ¬ s.Rereads nodes x := by
  constructor
  · rintro (hreply | ⟨-, hreply⟩) hre
    · rw [hst] at hreply
      exact h.rereads hre (append_cancel_left hreply)
    · rw [hst, append_assoc] at hreply
      exact absurd (append_right_eq_self.mp hreply) nofun
  · intro hre
    exact .inl (by rw [hst, readFrom_eq hre hlast]; rfl)

lemma streamReplyRaw_from (h : s.InOrder nodes) (x : StreamID) (count : Nat) :
    streamReplyRaw s (some ⟨x.ms, x.seq + 1⟩) none count false =
      .ok ((limited count (readFrom nodes x)).flatMap (fun i => replyEntry i.id i.fields),
        (limited count (readFrom nodes x)).length) := by
  have hfold (l : List StreamItem) (r : Reply) :
      l.foldlM (fun r i => (.ok (r ++ replyEntry i.id i.fields) : Except Fault Reply)) r =
        .ok (r ++ l.flatMap fun i => replyEntry i.id i.fields) := by
    induction l generalizing r with
    | nil => exact congrArg _ (append_nil r).symm
    | cons i l ih => rw [foldlM_cons, ok_bind, ih, flatMap_cons, append_assoc]
  rw [streamReplyRaw, h.forEach, rangeItems_from, hfold]
  rfl

lemma foldl_max_eq (hsorted : items.Pairwise (·.id < ·.id)) (hx : ∀ i ∈ items, x < i.id) :
    items.foldl (fun last i => max last i.id) x = lastOf x items := by
  induction items generalizing x with
  | nil => rfl
  | cons i items ih =>
    obtain ⟨hi, hsorted⟩ := pairwise_cons.mp hsorted
    rw [foldl_cons, max_eq_right (hx i (mem_cons_self ..)).le, ih hsorted hi, lastOf, lastOf, getLast?_cons]
    cases items.getLast? <;> rfl

lemma xreadGroupStream_from (opts : XreadOpts) (h : s.InOrder nodes) (hnow : LongLong now)
    (hcg : streamLookupCG s groupname = some cg) (shown : cg.Shows g) (hread : s.length ≠ 0 ∧ cg.lastId < s.lastId)
    (st : ReadState) (key consumername : Bytes) :
    ∃ st' cg', xreadGroupStream opts now groupname consumername st key s ⟨-1, -1⟩ = .ok st' ∧
      st'.reply = st.reply ++ [.multiBulkLen 2, .bulk key] ++
        replyEntries (limited opts.count (readFrom nodes cg.lastId)) ∧
      st'.db = st.db.insert key (s.setGroup groupname cg') ∧
      cg'.lastId = (limited opts.count (readFrom nodes cg.lastId)).foldl (fun last i => max last i.id) cg.lastId := by
  obtain ⟨⟨cg₁, _⟩, hlookup, c, rfl, shown₁, hname, -⟩ := (shown.lookupConsumer consumername now).returns
  have hlast : cg₁.lastId = cg.lastId := shown₁.lastId.trans shown.lastId.symm
  have follows : GroupRead.Follows (fun _ => True) key groupname consumername c g ⟨cg₁, [], false, []⟩ :=
    ⟨hname, g, shown₁, .nil⟩
  obtain ⟨r, hr, -, hreply, hmax⟩ : ∃ r, (limited opts.count (readFrom nodes cg.lastId)).foldlM (fun st i =>
      streamReplyGroupEntry key groupname c opts.noack now st i.id i.fields) ⟨cg₁, [], false, []⟩ = .ok r ∧ _ :=
    (follows.foldlM hnow fun _ _ => trivial).returns
  rw [hlast] at hmax
  refine ⟨{ st.serve key (.multiBulkLen (limited opts.count (readFrom nodes cg.lastId)).length :: r.reply) with
    db := st.db.insert key (s.setGroup groupname r.group), dirty := st.dirty + 1
    propagated := st.propagated ++ r.propagated }, r.group, ?_, ?_, rfl, hmax⟩
  · rw [xreadGroupStream, hcg]
    dsimp only
    rw [if_neg (by rw [streamCompareID_pos]; simp [hread.1, hread.2]), hlookup, ok_bind]
    simp only [ne_eq, not_true, if_false, decide_false, streamReplyWithRange, Bool.false_eq_true, h.forEach,
      rangeItems_from, hr]
    rfl
  · rw [hreply]
    rfl

def twoEntries : List (Int64 × List Bytes) :=
  [(1, [ascii "XADD", ascii "s", ascii "5-1", ascii "a", ascii "1"]),
    (2, [ascii "XADD", ascii "s", ascii "6-1", ascii "a", ascii "2"])]

end JitRedis
