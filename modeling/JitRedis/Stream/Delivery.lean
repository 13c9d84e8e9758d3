import JitRedis.Stream.IDs
import JitRedis.Stream.Pending
import JitRedis.Stream.Sequence

/-!
# Deliveries and what they propagate

A group as its clients see it: its last delivered ID, and the owner of each pending ID. The commands that give entries
to consumers are not propagated themselves. `Fed` is the chain of commands they propagate instead, with the views of
the group between them.
-/

namespace JitRedis

open Fallible List StreamCG Function

lemma streamCompareID_pos {a b} : 0 < streamCompareID a b ↔ b < a := by
  rw [← not_le, streamCompareID_le, not_le]

/-- The last delivered ID of a group, and the owner of each pending ID. -/
structure GroupView where
  lastId : StreamID
  owner : Bytes → Option Bytes

namespace GroupView

def setLast (g : GroupView) (id : StreamID) : GroupView := { g with lastId := id }

def give (g : GroupView) (id : StreamID) (name : Bytes) : GroupView :=
  { g with owner := Function.update g.owner (streamEncodeID id) (some name) }

def ack (g : GroupView) (id : StreamID) : GroupView :=
  { g with owner := Function.update g.owner (streamEncodeID id) none }

def delConsumer (g : GroupView) (name : Bytes) : GroupView :=
  { g with owner := fun k => (g.owner k).bind fun n => if n = name then none else some n }

/-- Only IDs are pending. -/
def Encoded (g : GroupView) : Prop := ∀ k, (g.owner k).isSome → ∃ id, k = streamEncodeID id

lemma Encoded.update {g : GroupView} (h : g.Encoded) (id : StreamID) (o : Option Bytes) :
    Encoded { g with owner := update g.owner (streamEncodeID id) o } := by
  intro k hk
  by_cases heq : k = streamEncodeID id
  · exact ⟨id, heq⟩
  · dsimp only at hk
    rw [update_of_ne heq] at hk
    exact h k hk

lemma Encoded.delConsumer {g : GroupView} (h : g.Encoded) (name : Bytes) : (g.delConsumer name).Encoded := by
  intro k hk
  refine h k ?_
  obtain ⟨n, hn⟩ := Option.isSome_iff_exists.mp hk
  obtain ⟨n', hn', -⟩ := Option.bind_eq_some_iff.mp hn
  rw [hn']
  rfl

end GroupView

structure StreamCG.Shows (cg : StreamCG) (g : GroupView) : Prop where
  lastId : cg.lastId = g.lastId
  encoded : g.Encoded
  owners : ∃ own, cg.Owned own ∧ ∀ k, (own k).bind (fun o => cg.nameOf o.2) = g.owner k

variable {cg cg' : StreamCG} {own : Owners} {g g' : GroupView} {id : StreamID} {k key groupname name arg : Bytes}
  {c p : Nat} {s : Stream} {now : Int} {known : StreamID → Prop}

namespace StreamCG

lemma shows_new (id : StreamID) : Shows ⟨id, .empty, .empty, .empty, .empty, 0⟩ ⟨id, fun _ => none⟩ := by
  refine ⟨rfl, fun k hk => (by cases hk), fun _ => none,
    ⟨fun _ => rfl, ?_, ?_, ?_, ?_, ?_, fun _ _ => ⟨rfl, rfl⟩⟩, fun _ => rfl⟩
  iterate 4 exact fun h => by cases h
  exact ⟨fun h => (by cases h), fun h => by cases h⟩

lemma Shows.setLast (h : cg.Shows g) (id : StreamID) : { cg with lastId := id }.Shows (g.setLast id) := by
  obtain ⟨-, hids, own, owned, names⟩ := h
  exact ⟨rfl, hids, own, owned.setLast id, names⟩

lemma Owned.named {o} (h : cg.Owned own) (hk : own k = some o) : ∃ n, cg.nameOf o.2 = some n := by
  rw [← Option.isSome_iff_exists, nameOf, Option.isSome_map]
  exact h.owner hk

lemma Owned.isSome_owner (h : cg.Owned own) (k : Bytes) :
    ((own k).bind fun o => cg.nameOf o.2).isSome = (own k).isSome := by
  cases hk : own k with
  | none => rfl
  | some o =>
    obtain ⟨n, hn⟩ := h.named hk
    rw [Option.bind_some, hn]
    rfl

lemma Gives.shows {time : Int} {count : Nat} (h : cg.Gives own (streamEncodeID id) c time count (cg', p))
    (hlast : cg.lastId = g.lastId) (hids : g.Encoded)
    (names : ∀ k, (own k).bind (fun o => cg.nameOf o.2) = g.owner k) (hname : cg.nameOf c = some name) :
    cg'.Shows (g.give id name) := by
  refine ⟨h.lastId.trans hlast, hids.update id _, _, h.owned, fun k => ?_⟩
  show (update own (streamEncodeID id) (some (p, c)) k).bind _ =
    update g.owner (streamEncodeID id) (some name) k
  rw [h.names, update_apply, update_apply]
  split
  · exact hname
  · exact names k

lemma Acks.shows {r : StreamCG × Nat} (h : cg.Acks own (streamEncodeID id) r) (hlast : cg.lastId = g.lastId)
    (hids : g.Encoded) (names : ∀ k, (own k).bind (fun o => cg.nameOf o.2) = g.owner k) : r.1.Shows (g.ack id) := by
  refine ⟨h.lastId.trans hlast, hids.update id _, _, h.owned, fun k => ?_⟩
  show _ = update g.owner (streamEncodeID id) none k
  rw [h.names, update_apply, update_apply]
  split
  · rfl
  · exact names k

lemma Shows.ack (h : cg.Shows g) (id : StreamID) :
    Sat NoFault (fun r => r.1.Shows (g.ack id) ∧ r.2 = if (g.owner (streamEncodeID id)).isSome then 1 else 0)
      (streamAck cg (streamEncodeID id)) := by
  obtain ⟨hlast, hids, own, owned, names⟩ := h
  refine (streamAck_spec owned (streamEncodeID id)).mono fun r hr => ⟨hr.shows hlast hids names, ?_⟩
  rw [hr.count, ← names, owned.isSome_owner]

lemma Shows.delConsumer (h : cg.Shows g) (name : Bytes) (now : Int) :
    Sat NoFault (fun r => r.1.Shows (g.delConsumer name)) (streamDelConsumer cg name now) := by
  obtain ⟨hlast, hids, own, owned, names⟩ := h
  refine (streamDelConsumer_spec owned name now).mono fun r hr => ?_
  refine ⟨hr.lastId.trans hlast, hids.delConsumer name, _, hr.owned, fun k => ?_⟩
  -- A name that is kept is the name of the same consumer before and after.
  have kept : ∀ {d n}, cg.nameOf d = some n → n ≠ name → r.1.nameOf d = some n := fun hd hn =>
    (hr.names _ _ hn).mpr hd
  show _ = (g.owner k).bind _
  rw [← names]
  cases hk : own k with
  | none =>
    cases hc : cg.consumers.find? name with
    | none => simp [hk]
    | some c => simp [withoutOwner, hk]
  | some o =>
    obtain ⟨q, d⟩ := o
    obtain ⟨n, hd⟩ := owned.named hk
    rw [Option.bind_some, hd, Option.bind_some]
    by_cases heq : n = name
    · rw [heq, ← owned.listed] at hd
      simp [hd, withoutOwner, hk, heq]
    rw [if_neg heq]
    cases hc : cg.consumers.find? name with
    | none => simpa [hk] using kept hd heq
    | some c =>
      have hne : d ≠ c := by
        rintro rfl
        exact heq (Option.some.inj (hd.symm.trans (owned.listed.mp hc)))
      simpa [withoutOwner, hk, hne] using kept hd heq

lemma Shows.lookupConsumer (h : cg.Shows g) (name : Bytes) (now : Int) :
    Sat NoFault (fun r => ∃ c, r.2 = some c ∧ r.1.Shows g ∧ r.1.nameOf c = some name ∧ r.1.pel = cg.pel ∧
        r.1.nackHeap = cg.nackHeap)
      (streamLookupConsumer cg name true now) := by
  obtain ⟨hlast, hids, own, owned, names⟩ := h
  refine (streamLookupConsumer_create owned name now).mono fun r hr => ?_
  obtain ⟨c, hc, owned', hname, hlast', hpel, hnacks, hnames⟩ := hr
  refine ⟨c, hc, ⟨hlast'.trans hlast, hids, own, owned', fun k => ?_⟩, hname, hpel, hnacks⟩
  rw [← names]
  cases hk : own k with
  | none => rfl
  | some o =>
    obtain ⟨n, hd⟩ := owned.named hk
    rw [Option.bind_some, Option.bind_some, hd]
    exact hnames _ _ hd

end StreamCG

/-- The name of the consumer of the NACK of an ID. -/
def StreamCG.pendingOwner (cg : StreamCG) (id : Bytes) : Option Bytes := do
  let p ← cg.pel.find? id
  let nack ← cg.nackHeap.find? p
  let c ← nack.consumer
  cg.nameOf c

lemma StreamCG.Shows.pendingOwner_eq (h : cg.Shows g) : cg.pendingOwner = g.owner := by
  obtain ⟨-, -, own, owned, names⟩ := h
  funext k
  rw [pendingOwner, owned.pel, ← names]
  cases hk : own k with
  | none => rfl
  | some o =>
    obtain ⟨time, count, hp, -⟩ := owned.nack hk
    simp only [Option.map_some, Option.bind_eq_bind, Option.bind_some, hp]

def StreamCG.deliveryCount (cg : StreamCG) (id : Bytes) : Option Nat := do
  let p ← cg.pel.find? id
  let nack ← cg.nackHeap.find? p
  some nack.deliveryCount

lemma StreamCG.Gives.deliveryCount_eq {time count} (owned : cg.Owned own)
    (h : cg.Gives own k c time count (cg', p)) :
    cg'.deliveryCount k = some count ∧ ∀ j, j ≠ k → cg'.deliveryCount j = cg.deliveryCount j := by
  refine ⟨?_, fun j hj => ?_⟩
  · have hpel := h.owned.pel k
    rw [update_self] at hpel
    simp only [Option.map_some] at hpel
    rw [deliveryCount, hpel, Option.bind_eq_bind, Option.bind_some, h.nack]
    rfl
  · have hpel := h.owned.pel j
    rw [update_of_ne hj] at hpel
    rw [deliveryCount, deliveryCount, hpel, owned.pel]
    cases hown : own j with
    | none => rfl
    | some o =>
      simp only [Option.map_some, Option.bind_eq_bind, Option.bind_some]
      rw [h.others hj hown]

/-- The command that propagates the last ID of a group. -/
def setidArgv (key groupname : Bytes) (last : StreamID) : List Bytes :=
  [ascii "XGROUP", ascii "SETID", key, groupname, streamIDText last]

/-- Commands that were propagated for a group, and its views before and after them. An entry that was not pending has
to be `known`. -/
inductive Fed (known : StreamID → Prop) (key groupname : Bytes) (g : GroupView) : List (List Bytes) → GroupView → Prop
  | nil : Fed known key groupname g [] g
  | claim {g' : GroupView} {feeds : List (List Bytes)} {name arg : Bytes} {id last : StreamID} {time : Int} {count : Nat}
    (before : Fed known key groupname g feeds g') (harg : streamParseStrictID arg 0 = some id)
    (hknown : (g'.owner (streamEncodeID id)).isSome ∨ known id) (hlast : g'.lastId ≤ last)
    (low : -2 ^ 63 ≤ time) (high : time < 2 ^ 63) :
    Fed known key groupname g
      (feeds ++ [StreamCG.xclaimArgv key groupname name arg time (UInt64.ofNat count).toInt64.toInt last])
      ((g'.setLast last).give id name)
  | setid {g' : GroupView} {feeds : List (List Bytes)} {last : StreamID} (before : Fed known key groupname g feeds g') :
    Fed known key groupname g (feeds ++ [setidArgv key groupname last]) (g'.setLast last)

/-- The entries that the loops of the commands go over are `known`. -/
def Stream.Reads (s : Stream) (known : StreamID → Prop) : Prop :=
  ∀ {σ : Type} (start stop : Option StreamID) (rev : Bool) (count : Nat)
    (visit : σ → StreamID → List (Bytes × Bytes) → Except Fault σ) (st : σ), ∃ items : List StreamItem,
      (∀ i ∈ items, known i.id) ∧
        streamForEach visit count s.fuel (streamIteratorStart s start stop rev) 0 st =
          (items.foldlM (fun st i => visit st i.id i.fields) st).map fun st => (st, items.length)

lemma Stream.Rendered.reads (h : s.Rendered) : s.Reads fun _ => True := by
  intro σ start stop rev count visit st
  obtain ⟨items, heq⟩ := h.forEach start stop rev count visit st
  exact ⟨items, fun _ _ => trivial, heq⟩

lemma StreamCG.Shows.advance (h : cg.Shows g) (id : StreamID) :
    (if 0 < streamCompareID id cg.lastId then { cg with lastId := id } else cg).Shows
        (g.setLast (max g.lastId id)) ∧
      (if 0 < streamCompareID id cg.lastId then { cg with lastId := id } else cg).nameOf = cg.nameOf := by
  split
  · rename_i newer
    rw [streamCompareID_pos, h.lastId] at newer
    rw [max_eq_right newer.le]
    exact ⟨h.setLast id, rfl⟩
  · rename_i newer
    rw [streamCompareID_pos, h.lastId, not_lt] at newer
    rw [max_eq_left newer]
    exact ⟨h, rfl⟩

lemma streamReplyHistory_spec {ri} {count arraylen reply}
    (hnow : LongLong now) (hs : s.Rendered) (h : cg.Owned own) (hri : ∀ e ∈ ri, ∃ c, own e.1 = some (e.2, c)) :
    Sat NoFault (fun r => r.1.Owned own ∧ r.1.nameOf = cg.nameOf ∧ r.1.lastId = cg.lastId)
      (streamReplyHistory s count now ri cg reply arraylen) := by
  induction ri generalizing cg reply arraylen with
  | nil => exact ⟨h, rfl, rfl⟩
  | cons e ri ih =>
    obtain ⟨key, p⟩ := e
    have rest : ∀ e ∈ ri, ∃ c, own e.1 = some (e.2, c) := fun e he => hri e (mem_cons_of_mem _ he)
    rw [streamReplyHistory]
    split
    · exact ⟨h, rfl, rfl⟩
    obtain ⟨⟨entry, emitted⟩, hraw⟩ :=
      hs.replyRaw (some (streamDecodeID key)) (some (streamDecodeID key)) 1 false
    simp only [hraw, ok_bind]
    split
    · exact ih h rest
    · obtain ⟨c, hk⟩ := hri (key, p) (mem_cons_self ..)
      obtain ⟨time, n, hp, -⟩ := h.nack hk
      simp only [nack, hp, ok_bind]
      exact ih (h.setNack hp hnow) rest

/-- The state of a group after commands were propagated. -/
def GroupRead.Follows (known : StreamID → Prop) (key groupname name : Bytes) (c : Nat) (g : GroupView)
    (st : GroupRead) : Prop :=
  st.group.nameOf c = some name ∧ ∃ g', st.group.Shows g' ∧ Fed known key groupname g st.propagated g'

lemma streamReplyGroupEntry_spec {st} {noack} (hnow : LongLong now)
    (h : st.Follows known key groupname name c g) (hid : known id) (fields : List (Bytes × Bytes)) :
    Sat NoFault (fun st' => st'.Follows known key groupname name c g ∧ st'.reply = st.reply ++ replyEntry id fields ∧
        st'.group.lastId = max st.group.lastId id)
      (streamReplyGroupEntry key groupname c noack now st id fields) := by
  obtain ⟨hname, g', shows', fed⟩ := h
  obtain ⟨shown, names⟩ := shows'.advance id
  have hmax := shown.lastId
  rw [← shows'.lastId] at hmax
  rw [streamReplyGroupEntry]
  obtain ⟨group, hgroup⟩ : ∃ group, group =
    if 0 < streamCompareID id st.group.lastId then { st.group with lastId := id } else st.group := ⟨_, rfl⟩
  rw [← hgroup] at shown names hmax ⊢
  cases noack with
  | true =>
    refine ⟨⟨(congrFun names c).trans hname, g'.setLast (max g'.lastId id), shown, ?_⟩, rfl, hmax⟩
    split
    · rw [streamPropagateGroupID, shown.lastId]
      exact .setid fed
    rename_i hprop
    -- The last ID has not moved.
    have hle : id ≤ g'.lastId := by
      simp only [Bool.or_eq_true, decide_eq_true_eq, not_or] at hprop
      rw [streamCompareID_pos, not_lt, shows'.lastId] at hprop
      exact hprop.2
    rw [max_eq_left hle]
    exact fed
  | false =>
    obtain ⟨hlast, hids, own, owned, hown⟩ := shown
    have hc : (group.consumerHeap.find? c).isSome := by
      have := (congrFun names c).trans hname
      obtain ⟨x, hx, -⟩ := Option.map_eq_some_iff.mp this
      rw [hx]
      rfl
    refine (streamDeliverNACK_spec hnow owned hc (streamEncodeID id)).bind fun r hr => ?_
    obtain ⟨cg', p⟩ := r
    have hname' : cg'.nameOf c = some name := (congrFun (hr.names.trans names) c).trans hname
    simp only [streamPropagateXCLAIM_eq hr.nack hname', ok_bind]
    refine ⟨⟨hname', (g'.setLast (max g'.lastId id)).give id name, hr.shows hlast hids hown ?_, ?_⟩, rfl,
      hr.lastId.trans hmax⟩
    · rw [names]
      exact hname
    · rw [hr.lastId, hlast]
      exact .claim fed (streamParseStrictID_text id 0) (.inr hid) (le_max_left ..) hnow.1 hnow.2

/-- A group was left as it is, or changed with a chain of commands. -/
inductive Delivers (known : StreamID → Prop) (db : StreamDb) (key groupname : Bytes) (s : Stream) (g : GroupView) :
    StreamDb → List (List Bytes) → Prop
  | unchanged : Delivers known db key groupname s g db []
  | changed {cg' : StreamCG} {g' : GroupView} {feeds : List (List Bytes)} (shown : cg'.Shows g')
    (fed : Fed known key groupname g feeds g') :
    Delivers known db key groupname s g (db.insert key (s.setGroup groupname cg')) feeds

lemma GroupRead.Follows.foldlM {items : List StreamItem} {st : GroupRead} {noack : Bool}
    (hnow : LongLong now) (hitems : ∀ i ∈ items, known i.id)
    (h : st.Follows known key groupname name c g) :
    Sat NoFault (fun st' => st'.Follows known key groupname name c g ∧
        st'.reply = st.reply ++ items.flatMap (fun i => replyEntry i.id i.fields) ∧
        st'.group.lastId = items.foldl (fun last i => max last i.id) st.group.lastId)
      (items.foldlM (fun st i => streamReplyGroupEntry key groupname c noack now st i.id i.fields) st) := by
  induction items generalizing st with
  | nil => exact ⟨h, (append_nil _).symm, rfl⟩
  | cons i items ih =>
    refine (streamReplyGroupEntry_spec hnow h (hitems i (mem_cons_self ..)) i.fields).bind ?_
    rintro st₁ ⟨h₁, hreply, hlast⟩
    refine (ih (fun j hj => hitems j (mem_cons_of_mem _ hj)) h₁).mono ?_
    rintro st₂ ⟨h₂, hreply₂, hlast₂⟩
    rw [hreply, append_assoc] at hreply₂
    rw [hlast] at hlast₂
    exact ⟨h₂, hreply₂, hlast₂⟩

lemma streamReplyWithRange_spec (hnow : LongLong now) (hs : s.Rendered) (reads : s.Reads known)
    (h : cg.Shows g) (hname : cg.nameOf c = some name) (start : StreamID) (count : Nat) (key groupname : Bytes)
    (noack history : Bool) :
    Sat NoFault (GroupRead.Follows known key groupname name c g)
      (streamReplyWithRange s start count key groupname cg c noack history now) := by
  rw [streamReplyWithRange]
  cases history with
  | true =>
    obtain ⟨hlast, hids, own, owned, hown⟩ := h
    obtain ⟨x, hx, -⟩ := Option.map_eq_some_iff.mp hname
    simp only [if_true, streamReplyWithRangeFromConsumerPEL, consumer, hx, ok_bind]
    have hri : ∀ e ∈ x.pel.upward (streamEncodeID start), ∃ c, own e.1 = some (e.2, c) := by
      intro e he
      have hfind := owned.consumerPel hx e.1
      rw [SortedMap.find?_eq_some.mpr (mem_of_mem_filter he)] at hfind
      obtain ⟨⟨q, d⟩, hown, hd⟩ := Option.bind_eq_some_iff.mp hfind.symm
      split at hd
      · cases hd
        exact ⟨d, hown⟩
      · cases hd
    refine (streamReplyHistory_spec hnow hs owned hri).bind fun r hr => ?_
    obtain ⟨owned', names, hlast'⟩ := hr
    refine ⟨(congrFun names c).trans hname, g, ⟨hlast'.trans hlast, hids, own, owned', fun k => ?_⟩, .nil⟩
    rw [← hown, ← names]
  | false =>
    obtain ⟨items, hknown, heach⟩ := reads (some start) none false count
      (streamReplyGroupEntry key groupname c noack now) ⟨cg, [], false, []⟩
    simp only [Bool.false_eq_true, if_false, heach]
    have start : GroupRead.Follows known key groupname name c g ⟨cg, [], false, []⟩ := ⟨hname, g, h, .nil⟩
    refine Sat.bind (P := fun r => r.1.Follows known key groupname name c g) ?_ fun r hr => hr
    rw [sat_map]
    exact (start.foldlM hnow hknown).mono fun _ h => h.1

lemma xreadGroupStream_spec {opts st} (hnow : LongLong now)
    (hs : s.Rendered) (reads : s.Reads known) (hcg : streamLookupCG s groupname = some cg) (h : cg.Shows g)
    (name key : Bytes) (gt : StreamID) :
    Sat NoFault (fun st' => ∃ feeds, st'.propagated = st.propagated ++ feeds ∧
        Delivers known st.db key groupname s g st'.db feeds)
      (xreadGroupStream opts now groupname name st key s gt) := by
  simp only [xreadGroupStream, hcg]
  split
  · exact ⟨[], (append_nil _).symm, .unchanged⟩
  refine (h.lookupConsumer name now).bind fun r hr => ?_
  obtain ⟨cg', found⟩ := r
  obtain ⟨c, rfl, shown, hname, -⟩ := hr
  refine Sat.bind (streamReplyWithRange_spec hnow hs reads shown hname _ _ _ _ _ _) fun r hr => ?_
  obtain ⟨-, g', shown', fed⟩ := hr
  exact ⟨r.propagated, rfl, .changed shown' fed⟩

lemma xclaimValue_range {option v} (h : xclaimValue option arg = .ok v) :
    LongLong v := by
  rw [xclaimValue] at h
  split at h
  · cases h
  · rename_i hv
    cases h
    exact string2ll_range hv

lemma bmod_range (x : Int) : -2 ^ 63 ≤ x.bmod (2 ^ 64) ∧ x.bmod (2 ^ 64) < 2 ^ 63 := by
  have low := @Int.le_bmod x (2 ^ 64) (by decide)
  have high := @Int.bmod_lt x (2 ^ 64) (by decide)
  exact ⟨low, high⟩

lemma xclaimParse_range {opts o o'} (h : xclaimParse now opts o = .ok o')
    (ho : LongLong o.deliverytime) :
    LongLong o'.deliverytime := by
  fun_induction xclaimParse now opts o with
  | case1 =>
    cases h
    exact ho
  | case2 _ _ _ _ ih => exact ih h ho
  | case3 _ _ _ _ _ ih => exact ih h ho
  | case4 | case8 | case10 => cases h
  | case5 _ _ _ _ _ _ _ ih =>
    obtain ⟨idle, -, h⟩ := bind_eq_ok.mp h
    exact ih idle h (bmod_range _)
  | case6 _ _ _ _ _ _ _ _ ih =>
    obtain ⟨time, htime, h⟩ := bind_eq_ok.mp h
    exact ih time h (xclaimValue_range htime)
  | case7 _ _ _ _ _ _ _ _ _ ih =>
    obtain ⟨count, -, h⟩ := bind_eq_ok.mp h
    exact ih count h ho
  | case9 _ _ _ _ _ _ _ _ _ _ _ _ ih => exact ih h ho

lemma xclaimTime_range {time} (hnow : LongLong now) (ht : LongLong time) :
    -2 ^ 63 ≤ xclaimTime now time ∧ xclaimTime now time < 2 ^ 63 := by
  rw [xclaimTime]
  split
  · split
    · exact hnow
    · exact ht
  · exact hnow

/-- The state of the loop that claims: the last ID of the group may be ahead of the one that was propagated. -/
def ClaimState.Follows (known : StreamID → Prop) (key groupname name : Bytes) (c : Nat) (g : GroupView)
    (st : ClaimState) : Prop :=
  st.group.nameOf c = some name ∧ ∃ g', st.group.Shows (g'.setLast st.group.lastId) ∧ g'.lastId ≤ st.group.lastId ∧
    (st.propagateLastId = false → g'.lastId = st.group.lastId) ∧ Fed known key groupname g st.propagated g'

lemma ClaimState.Follows.entry {st o} {minidle} (hs : s.Rendered)
    (finds : ∀ id, s.Finds id → known id) (htime : LongLong o.deliverytime)
    (harg : (streamParseStrictID arg 0).isSome) (h : st.Follows known key groupname name c g) :
    Sat NoFault (ClaimState.Follows known key groupname name c g)
      (xclaimEntry s key groupname c minidle now o st arg) := by
  obtain ⟨hname, g', ⟨-, hids, own, owned, hown⟩, hle, heq, fed⟩ := h
  obtain ⟨id, hid⟩ := Option.isSome_iff_exists.mp harg
  refine (xclaimEntry_spec htime hs owned hname hid).mono fun st' hst' => ?_
  cases hst' with
  | skipped => exact ⟨hname, g', ⟨rfl, hids, own, owned, hown⟩, hle, heq, fed⟩
  | @claimed p count group entry hknown gives =>
    have shown := gives.shows (g := g'.setLast st.group.lastId) rfl hids hown hname
    have hlast : group.lastId = st.group.lastId := gives.lastId
    refine ⟨(congrFun gives.names c).trans hname, (g'.setLast st.group.lastId).give id name, ?_, hlast.ge,
      fun _ => hlast.symm, ?_⟩
    · rw [hlast]
      exact shown
    · refine .claim fed hid ?_ hle htime.1 htime.2
      rcases hknown with hk | ⟨-, hfinds, -⟩
      · left
        rw [← owned.isSome_owner, hown] at hk
        exact hk
      · exact .inr (finds id hfinds)

lemma xclaimGroup_spec {db argv} (hnow : LongLong now) (hs : s.Rendered)
    (finds : ∀ id, s.Finds id → known id) (h : cg.Shows g) :
    Sat NoFault (fun r => Delivers known db (argAt argv 1) (argAt argv 2) s g r.db r.feeds)
      (xclaimGroup db now argv s cg) := by
  rw [xclaimGroup]
  split
  · exact .unchanged
  simp only
  split
  · exact .unchanged
  rename_i o ho
  have hrange := xclaimTime_range hnow (xclaimParse_range ho (by decide))
  obtain ⟨shown, -⟩ := h.advance o.lastId
  refine (shown.lookupConsumer (argAt argv 3) now).bind fun r hr => ?_
  obtain ⟨cg', found⟩ := r
  obtain ⟨c, rfl, shown', hname, -⟩ := hr
  have start : ClaimState.Follows known (argAt argv 1) (argAt argv 2) (argAt argv 3) c g
      ⟨cg', [], 0, 0 < streamCompareID o.lastId cg.lastId, 0, []⟩ := by
    refine ⟨hname, g, ?_, ?_, ?_, .nil⟩
    · rw [shown'.lastId]
      exact shown'
    · rw [shown'.lastId]
      exact le_max_left ..
    · intro hnewer
      rw [decide_eq_false_iff_not, streamCompareID_pos, not_lt, h.lastId] at hnewer
      rw [shown'.lastId]
      exact (max_eq_left hnewer).symm
  refine Sat.bind (Sat.foldlM (fun st arg harg hst => ?_) start) fun st hst => ?_
  · exact hst.entry hs finds hrange (by simpa using mem_takeWhile_imp harg)
  · obtain ⟨-, g', shown'', -, heq, fed⟩ := hst
    rw [sat_ok]
    simp only [CmdResult.feeds, Bool.true_eq_false, and_false, if_false, append_nil]
    cases hp : st.propagateLastId with
    | true => exact .changed shown'' (.setid fed)
    | false =>
      rw [← heq hp] at shown''
      simp only [Bool.false_eq_true, if_false, append_nil]
      exact .changed shown'' fed

/-- What an `XCLAIM` of one entry leaves. -/
structure ClaimsOne (name : Bytes) (cg : StreamCG) (g : GroupView) (o : XclaimOpts) (id : StreamID)
    (cg' : StreamCG) : Prop where
  shown : cg'.Shows ((g.setLast (max g.lastId o.lastId)).give id name)
  count : g.owner (streamEncodeID id) = none → cg'.deliveryCount (streamEncodeID id) = some (xclaimCount o 1)
  others : ∀ k, k ≠ streamEncodeID id → cg'.deliveryCount k = cg.deliveryCount k

lemma xclaimGroup_forced (db : StreamDb) {argv o} (hnow : LongLong now)
    (htime : LongLong o.deliverytime) (hs : s.Rendered) (h : cg.Shows g)
    (hidle : string2ll (argAt argv 4) = some 0)
    (hids : (argv.drop 5).takeWhile (fun arg => (streamParseStrictID arg 0).isSome) = [arg])
    (hopts : xclaimParse now ((argv.drop 5).dropWhile fun arg => (streamParseStrictID arg 0).isSome)
      ⟨-1, -1, false, false, ⟨0, 0⟩⟩ = .ok o)
    (hforce : o.force = true) (harg : streamParseStrictID arg 0 = some id) :
    ∃ cg', (xclaimGroup db now argv s cg).map CmdResult.db =
        .ok (db.insert (argAt argv 1) (s.setGroup (argAt argv 2) cg')) ∧
      ((g.owner (streamEncodeID id)).isSome ∨ s.Finds id → ClaimsOne (argAt argv 3) cg g o id cg') ∧
      (¬ ((g.owner (streamEncodeID id)).isSome ∨ s.Finds id) →
        cg'.Shows (g.setLast (max g.lastId o.lastId)) ∧ ∀ k, cg'.deliveryCount k = cg.deliveryCount k) := by
  obtain ⟨shown, -⟩ := h.advance o.lastId
  obtain ⟨⟨cg₁, found⟩, hlookup, c, rfl, shown₁, hname, hpel, hnacks⟩ := (shown.lookupConsumer (argAt argv 3) now).returns
  have hcounts : ∀ k, cg₁.deliveryCount k = cg.deliveryCount k := by
    intro k
    rw [deliveryCount, deliveryCount, hpel, hnacks]
    split <;> rfl
  obtain ⟨hlast₁, hids₁, own, owned, hown⟩ := shown₁
  have spec : Sat NoFault (ClaimsEntry s (argAt argv 1) (argAt argv 2) arg (argAt argv 3)
        { o with deliverytime := xclaimTime now o.deliverytime } (max 0 0) c own id
        ⟨cg₁, [], 0, 0 < streamCompareID o.lastId cg.lastId, 0, []⟩)
      (xclaimEntry s (argAt argv 1) (argAt argv 2) c (max 0 0) now
        { o with deliverytime := xclaimTime now o.deliverytime }
        ⟨cg₁, [], 0, 0 < streamCompareID o.lastId cg.lastId, 0, []⟩ arg) :=
    xclaimEntry_spec (xclaimTime_range hnow htime) hs owned hname harg
  obtain ⟨st, hentry, claims⟩ := spec.returns
  have hsome : (own (streamEncodeID id)).isSome = (g.owner (streamEncodeID id)).isSome := by
    rw [← owned.isSome_owner, hown]
    rfl
  have result : (xclaimGroup db now argv s cg).map CmdResult.db =
      .ok (db.insert (argAt argv 1) (s.setGroup (argAt argv 2) st.group)) := by
    simp only [xclaimGroup, hidle, hids, hopts, hlookup, ok_bind, foldlM_cons, foldlM_nil, hentry]
    rfl
  refine ⟨st.group, result, ?_⟩
  cases claims with
  | skipped hskip =>
    rcases hskip with ⟨-, hne⟩ | ⟨hnone, hfinds⟩
    · exact absurd (max_self (0 : Int)) hne
    rw [hnone] at hsome
    have hnot : ¬ ((g.owner (streamEncodeID id)).isSome ∨ s.Finds id) := by
      rw [← hsome]
      rintro (hs | hs)
      · cases hs
      · exact hfinds hforce hs
    exact ⟨fun hknown => absurd hknown hnot, fun _ => ⟨⟨hlast₁, hids₁, own, owned, hown⟩, hcounts⟩⟩
  | @claimed p count group entry hknown' gives =>
    obtain ⟨hcount, hothers⟩ := gives.deliveryCount_eq owned
    have hknown : (g.owner (streamEncodeID id)).isSome ∨ s.Finds id := by
      rw [← hsome]
      exact hknown'.imp_right fun hk => hk.2.1
    refine ⟨fun _ => ⟨gives.shows hlast₁ hids₁ hown hname, fun hnone => ?_, fun k hk => ?_⟩,
      fun hnot => absurd hknown hnot⟩
    · rw [hnone] at hsome
      rcases hknown' with hk | ⟨-, -, hk⟩
      · rw [hsome] at hk
        cases hk
      · rw [hcount, hk]
        rfl
    · rw [hothers k hk, hcounts]

end JitRedis
