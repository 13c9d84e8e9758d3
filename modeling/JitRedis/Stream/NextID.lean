import JitRedis.Aof.StreamRuns

/-!
# Generated IDs

`streamNextID` adds one to the sequence number without looking whether there is a next one. Apart from that a generated
ID is above the last ID of the stream, whatever the clock says, and thereby above all its entries.
-/

namespace JitRedis

open Fallible

variable {cfg : StreamConfig} {db : StreamDb} {s : Stream} {last : StreamID} {now : UInt64} {argv : List Bytes}
  {args : XaddArgs}

/-- There is a larger ID that `streamNextID` finds. -/
def HasNext (last : StreamID) (now : UInt64) : Prop := last.ms < now ∨ last.seq ≠ -1

instance (last : StreamID) (now : UInt64) : Decidable (HasNext last now) := inferInstanceAs (Decidable (_ ∨ _))

lemma streamNextID_le (h : ¬ HasNext last now) : streamNextID last now ≤ last := by
  rw [HasNext, not_or, not_not] at h
  rw [streamNextID, if_neg h.1, h.2]
  show last.ms.toNat * 2 ^ 64 + 0 ≤ last.ms.toNat * 2 ^ 64 + last.seq.toNat
  omega

lemma lt_streamNextID_iff : last < streamNextID last now ↔ HasNext last now := by
  refine ⟨fun hlt => ?_, lt_streamNextID⟩
  by_contra hnone
  exact absurd hlt (not_lt.mpr (streamNextID_le hnone))

/-- An `XADD` with `*` that is accepted. -/
structure XaddGenerates (argv : List Bytes) (args : XaddArgs) : Prop where
  parse : xaddParse 2 (argv.drop 2) ⟨-1, false, 0⟩ = .ok args
  generated : args.id = none
  fields : ¬ (args.fields.length < 2 ∨ args.fields.length % 2 = 1)

/-- The stream that an `XADD` adds to. -/
def StreamDb.target (db : StreamDb) (argv : List Bytes) : Stream := (db.find? (argAt argv 1)).getD streamNew

/-- The ID is larger than the last ID of a stream and than those of all its entries. -/
structure Stream.Tops (s : Stream) (id : StreamID) : Prop where
  last : s.lastId < id
  entries : ∀ {id'}, s.Finds id' → id' < id

/-- `XADD` with `*` adds an entry with the generated ID; a trimming may remove it again. -/
structure XaddStores (db : StreamDb) (argv : List Bytes) (args : XaddArgs) (id : StreamID) (r : CmdResult) : Prop where
  top : (db.target argv).Tops id
  reply : r.reply = [.bulk (streamIDText id)]
  last : (r.db.target argv).lastId = id
  found : args.trim.maxlen < 0 → (r.db.target argv).Finds id

lemma Stream.Good.tops (h : s.Good) {id : StreamID} (hlt : s.lastId < id) : s.Tops id := by
  obtain ⟨nodes, order⟩ := h.order
  refine ⟨hlt, fun {id'} hfind => ?_⟩
  obtain ⟨i, hi, rfl⟩ := order.finds.mp hfind
  exact (order.bounded i hi).trans_lt hlt

lemma xaddTrim_lastId {nodes : List StreamNode} (order : s.InOrder nodes) (trim : TrimArgs) :
    Sat OnlyFull (fun r => r.1.lastId = s.lastId ∧ (trim.maxlen < 0 → r.1 = s)) (xaddTrim s trim) := by
  rw [xaddTrim]
  split
  case isTrue hlen =>
    refine (order.trim _ _).mono fun r hr => ?_
    obtain ⟨nodes', -, -, hlast, -⟩ := hr
    exact ⟨hlast, fun hneg => absurd hlen (not_le.mpr hneg)⟩
  case isFalse => exact ⟨rfl, fun _ => rfl⟩

lemma target_insert (s : Stream) : StreamDb.target (db.insert (argAt argv 1) s) argv = s := by
  rw [StreamDb.target, SortedMap.find?_insert_self]
  rfl

lemma DbGood.xadd (h : DbGood db) (gen : XaddGenerates argv args) {clock : Int}
    (hnext : HasNext (db.target argv).lastId (UInt64.ofInt clock)) :
    Sat OnlyFull (XaddStores db argv args (streamNextID (db.target argv).lastId (UInt64.ofInt clock)))
      (xaddCommand cfg db clock argv) := by
  have good : (db.target argv).Good := h.getD (argAt argv 1)
  obtain ⟨nodes, order⟩ := good.order
  simp only [xaddCommand, gen.parse, if_neg gen.fields, gen.generated]
  refine (order.append cfg (fieldPairs_ne_nil gen.fields).2 none (UInt64.ofInt clock) fun _ => hnext).bind fun r hr => ?_
  obtain ⟨s₁, added⟩ := r
  rcases hr with ⟨-, id, hid, -⟩ | ⟨id, nodes₁, same, rfl, rfl, hlt, order₁, -, hlast, hlive⟩
  · cases hid
  refine (xaddTrim_lastId order₁ args.trim).bind fun r hr => ?_
  obtain ⟨hlast', hkept⟩ := hr
  refine ⟨good.tops hlt, rfl, ?_, fun htrim => ?_⟩
  · rw [target_insert, hlast']
    exact hlast
  · rw [target_insert, hkept htrim, order₁.finds, hlive]
    exact ⟨_, List.mem_append_right _ (List.mem_singleton_self _), rfl⟩

/-- A generated ID is larger than the last one exactly if there is a next one; and in every state that commands can
reach, each `XADD` with `*` having had a next ID, one more of these adds an entry with a new largest ID. -/
theorem generated_ids_increase (cfg : StreamConfig) (calls : List (Int64 × List Bytes))
    (hcalls : Guarded (streamCommandStep cfg) HasNextID .empty calls) :
    (∀ last now, last < streamNextID last now ↔ HasNext last now) ∧
      Sat OnlyFull (fun r => ∀ argv args (clock : Int64), XaddGenerates argv args →
          HasNext (r.1.target argv).lastId (UInt64.ofInt clock.toInt) →
          Sat OnlyFull
            (XaddStores r.1 argv args (streamNextID (r.1.target argv).lastId (UInt64.ofInt clock.toInt)))
            (xaddCommand cfg r.1 clock.toInt argv))
        (exec (streamCommandStep cfg) .empty calls) := by
  exact ⟨fun _ _ => lt_streamNextID_iff, (streamCommands_good hcalls).mono fun r good argv args clock gen hnext => good.xadd gen hnext⟩

/-- An explicit ID ahead of the clock, and a generated one behind it. -/
def aheadCalls : List (Int64 × List Bytes) :=
  [(5, [ascii "XADD", ascii "s", ascii "7-18446744073709551614", ascii "a", ascii "1"]),
    (4, [ascii "XADD", ascii "s", ascii "*", ascii "a", ascii "2"])]

theorem generated_ids_increase_ahead :
    Guarded (streamCommandStep ⟨4096, 100⟩) HasNextID .empty aheadCalls ∧
      Sat OnlyFull (fun r => ∀ argv args (clock : Int64), XaddGenerates argv args →
          HasNext (r.1.target argv).lastId (UInt64.ofInt clock.toInt) →
          Sat OnlyFull
            (XaddStores r.1 argv args (streamNextID (r.1.target argv).lastId (UInt64.ofInt clock.toInt)))
            (xaddCommand ⟨4096, 100⟩ r.1 clock.toInt argv))
        (exec (streamCommandStep ⟨4096, 100⟩) .empty aheadCalls) :=
  have guarded : Guarded (streamCommandStep ⟨4096, 100⟩) HasNextID .empty aheadCalls :=
    guarded_of_check (by decide +kernel)
  ⟨guarded, (generated_ids_increase ⟨4096, 100⟩ aheadCalls guarded).2⟩

/-- With the last sequence number of a millisecond in use and the clock not beyond it, the ID that is chosen, stored and
replied is the first one of that millisecond. -/
theorem generated_id_goes_back :
    streamNextID ⟨5, -1⟩ 5 = ⟨5, 0⟩ ∧ streamNextID ⟨5, -1⟩ 5 < ⟨5, -1⟩ ∧
      (exec (streamCommandStep ⟨4096, 100⟩) .empty
        [(5, [ascii "XADD", ascii "s", ascii "5-18446744073709551615", ascii "a", ascii "1"]),
          (5, [ascii "XADD", ascii "s", ascii "*", ascii "a", ascii "2"])]).map
        (fun r => (r.2, ((r.1.find? (ascii "s")).getD streamNew).lastId)) =
        .ok ([[.bulk (ascii "5-18446744073709551615")], [.bulk (ascii "5-0")]], ⟨5, 0⟩) := by
  decide +kernel

end JitRedis
