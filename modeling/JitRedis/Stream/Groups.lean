import JitRedis.Stream.Iterator
import JitRedis.Util.Replies

/-!
# Consumer groups

Model of the consumer groups of `src/t_stream.c`: the pending entries lists (PEL) of a group and of its consumers,
which share their NACKs, and `streamReplyWithRange`, which creates them. An address that is not allocated any more
must not be used. Replies are the sequence of what is sent to the client, a deferred length in its place. The clock
is read once a command.
-/

namespace JitRedis

open Fallible

/-- The format `%U-%U` of an ID. -/
def streamIDText (id : StreamID) : Bytes := sdsull2str id.ms.toNat ++ 45 :: sdsull2str id.seq.toNat

/-- `streamGenericParseIDOrReply`; `none` is `C_ERR`. -/
def streamGenericParseID (o : Bytes) (missingSeq : UInt64) (strict : Bool) : Option StreamID :=
  let buf := cstr o
  if 127 < o.length then none
  else if strict ∧ (buf = [45] ∨ buf = [43]) then none
  else if buf = [45] then some ⟨0, 0⟩
  else if buf = [43] then some ⟨-1, -1⟩
  else do
    let ms ← string2ull (buf.takeWhile (· ≠ 45))
    match buf.dropWhile (· ≠ 45) with
    | [] => some ⟨UInt64.ofNat ms, missingSeq⟩
    | _ :: rest => do
      let seq ← string2ull rest
      some ⟨UInt64.ofNat ms, UInt64.ofNat seq⟩

def invalidID : Reply := addReplyError "Invalid stream ID specified as stream command argument"

/-- `streamParseIDOrReply` -/
def streamParseID (o : Bytes) (missingSeq : UInt64) : Option StreamID := streamGenericParseID o missingSeq false

/-- `streamParseStrictIDOrReply` -/
def streamParseStrictID (o : Bytes) (missingSeq : UInt64) : Option StreamID := streamGenericParseID o missingSeq true

namespace StreamCG

def nack (cg : StreamCG) (p : Nat) : Except Fault StreamNACK :=
  match cg.nackHeap.find? p with
  | some nack => .ok nack
  | none => .error .badAccess

def setNack (cg : StreamCG) (p : Nat) (nack : StreamNACK) : StreamCG :=
  { cg with nackHeap := cg.nackHeap.insert p nack }

def consumer (cg : StreamCG) (c : Nat) : Except Fault StreamConsumer :=
  match cg.consumerHeap.find? c with
  | some consumer => .ok consumer
  | none => .error .badAccess

def setConsumer (cg : StreamCG) (c : Nat) (consumer : StreamConsumer) : StreamCG :=
  { cg with consumerHeap := cg.consumerHeap.insert c consumer }

/-- `raxInsert` in the PEL of a consumer. -/
def insertPel (cg : StreamCG) (c : Nat) (buf : Bytes) (p : Nat) : Except Fault StreamCG := do
  let consumer ← cg.consumer c
  .ok (cg.setConsumer c { consumer with pel := consumer.pel.insert buf p })

/-- `raxRemove` in the PEL of a consumer. -/
def removePel (cg : StreamCG) (c : Nat) (buf : Bytes) : Except Fault StreamCG := do
  let consumer ← cg.consumer c
  .ok (cg.setConsumer c { consumer with pel := consumer.pel.erase buf })

/-- `raxTryInsert` in the PEL of a consumer: whether it was inserted. -/
def tryInsertPel (cg : StreamCG) (c : Nat) (buf : Bytes) (p : Nat) : Except Fault (StreamCG × Bool) := do
  let consumer ← cg.consumer c
  if (consumer.pel.find? buf).isSome then .ok (cg, false)
  else .ok (cg.setConsumer c { consumer with pel := consumer.pel.insert buf p }, true)

end StreamCG

def streamCreateNACK (cg : StreamCG) (consumer : Option Nat) (now : Int) : StreamCG × Nat :=
  ({ cg with nackHeap := cg.nackHeap.insert cg.next ⟨now, 1, consumer⟩, next := cg.next + 1 }, cg.next)

def streamFreeNACK (cg : StreamCG) (p : Nat) : Except Fault StreamCG := do
  let _ ← cg.nack p
  .ok { cg with nackHeap := cg.nackHeap.erase p }

/-- `streamCreateCG`; `none` is `NULL`. -/
def streamCreateCG (s : Stream) (name : Bytes) (id : StreamID) : Option Stream :=
  if (s.cgroups.find? name).isSome then none
  else some { s with cgroups := s.cgroups.insert name ⟨id, .empty, .empty, .empty, .empty, 0⟩ }

def streamLookupCG (s : Stream) (groupname : Bytes) : Option StreamCG := s.cgroups.find? groupname

/-- `streamLookupConsumer`; `none` is `NULL`. -/
def streamLookupConsumer (cg : StreamCG) (name : Bytes) (create : Bool) (now : Int) :
    Except Fault (StreamCG × Option Nat) :=
  match cg.consumers.find? name with
  | some c => do
    let consumer ← cg.consumer c
    .ok (cg.setConsumer c { consumer with seenTime := now }, some c)
  | none =>
    if create then
      .ok ({ cg with
        consumers := cg.consumers.insert name cg.next
        consumerHeap := cg.consumerHeap.insert cg.next ⟨now, name, .empty⟩
        next := cg.next + 1 }, some cg.next)
    else .ok (cg, none)

/-- The loop of `streamDelConsumer`; `ri` is what `raxNext` will still return. -/
def streamDelPending : StreamCG → List (Bytes × Nat) → Except Fault StreamCG
  | cg, [] => .ok cg
  | cg, (key, p) :: ri => do
    let cg ← streamFreeNACK { cg with pel := cg.pel.erase key } p
    streamDelPending cg ri

def streamDelConsumer (cg : StreamCG) (name : Bytes) (now : Int) : Except Fault (StreamCG × Nat) := do
  match ← streamLookupConsumer cg name false now with
  | (cg, none) => .ok (cg, 0)
  | (cg, some c) => do
    let consumer ← cg.consumer c
    let cg ← streamDelPending cg consumer.pel.entries
    .ok ({ cg with consumers := cg.consumers.erase name, consumerHeap := cg.consumerHeap.erase c },
      consumer.pel.entries.length)

/-- `streamPropagateXCLAIM`: the command that is propagated. -/
def streamPropagateXCLAIM (key groupname : Bytes) (group : StreamCG) (id : Bytes) (p : Nat) :
    Except Fault (List Bytes) := do
  let nack ← group.nack p
  match nack.consumer with
  | none => .error .badAccess
  | some c => do
    let consumer ← group.consumer c
    .ok [ascii "XCLAIM", key, groupname, consumer.name, ll2string 0, id, ascii "TIME", ll2string nack.deliveryTime,
      ascii "RETRYCOUNT", ll2string (UInt64.ofNat nack.deliveryCount).toInt64.toInt, ascii "FORCE", ascii "JUSTID",
      ascii "LASTID", streamIDText group.lastId]

/-- `streamPropagateGroupID`: the command that is propagated. -/
def streamPropagateGroupID (key groupname : Bytes) (group : StreamCG) : List Bytes :=
  [ascii "XGROUP", ascii "SETID", key, groupname, streamIDText group.lastId]

def replyEntry (id : StreamID) (fields : List (Bytes × Bytes)) : Reply :=
  [.multiBulkLen 2, .bulk (streamIDText id), .multiBulkLen (fields.length * 2)] ++
    fields.flatMap fun f => [.bulk f.1, .bulk f.2]

/-- `streamReplyWithRange` without a group and with `STREAM_RWR_RAWENTRIES`. -/
def streamReplyRaw (s : Stream) (start stop : Option StreamID) (count : Nat) (rev : Bool) :
    Except Fault (Reply × Nat) :=
  streamForEach (fun reply id fields => .ok (reply ++ replyEntry id fields)) count s.fuel
    (streamIteratorStart s start stop rev) 0 []

/-- Reassign an entry that is pending already. -/
def streamReassignNACK (cg : StreamCG) (consumer : Nat) (buf : Bytes) (now : Int) : Except Fault (StreamCG × Nat) :=
  match cg.pel.find? buf with
  | none => .error .assertFailed
  | some p => do
    let nack ← cg.nack p
    match nack.consumer with
    | none => .error .badAccess
    | some old => do
      let cg ← cg.removePel old buf
      let cg ← (cg.setNack p ⟨now, 1, some consumer⟩).insertPel consumer buf p
      .ok (cg, p)

/-- The part of `streamReplyWithRange` that makes an entry pending. -/
def streamDeliverNACK (cg : StreamCG) (consumer : Nat) (buf : Bytes) (now : Int) : Except Fault (StreamCG × Nat) := do
  let (cg, p) := streamCreateNACK cg (some consumer) now
  let groupInserted := (cg.pel.find? buf).isNone
  let cg := if groupInserted then { cg with pel := cg.pel.insert buf p } else cg
  let (cg, consumerInserted) ← cg.tryInsertPel consumer buf p
  if !groupInserted then do
    let cg ← streamFreeNACK cg p
    streamReassignNACK cg consumer buf now
  else if !consumerInserted then .error .assertFailed
  else .ok (cg, p)

/-- What was replied, whether the last ID of the group has moved, and what was propagated. -/
structure GroupRead where
  group : StreamCG
  reply : Reply
  propagateLastId : Bool
  propagated : List (List Bytes)

/-- A turn of the loop of `streamReplyWithRange` with a group. -/
def streamReplyGroupEntry (key groupname : Bytes) (consumer : Nat) (noack : Bool) (now : Int) (st : GroupRead)
    (id : StreamID) (fields : List (Bytes × Bytes)) : Except Fault GroupRead := do
  let newer := 0 < streamCompareID id st.group.lastId
  let group := if newer then { st.group with lastId := id } else st.group
  let propagateLastId := st.propagateLastId || newer
  let reply := st.reply ++ replyEntry id fields
  if noack then
    let propagated := if propagateLastId then st.propagated ++ [streamPropagateGroupID key groupname group]
      else st.propagated
    .ok { group, reply, propagateLastId, propagated }
  else do
    let (group, p) ← streamDeliverNACK group consumer (streamEncodeID id) now
    let argv ← streamPropagateXCLAIM key groupname group (streamIDText id) p
    .ok { group, reply, propagateLastId, propagated := st.propagated ++ [argv] }

/-- The loop of `streamReplyWithRangeFromConsumerPEL`; `ri` is what `raxNext` will still return. -/
def streamReplyHistory (s : Stream) (count : Nat) (now : Int) :
    List (Bytes × Nat) → StreamCG → Reply → Nat → Except Fault (StreamCG × Reply × Nat)
  | [], cg, reply, arraylen => .ok (cg, reply, arraylen)
  | (key, p) :: ri, cg, reply, arraylen =>
    if count ≠ 0 ∧ count ≤ arraylen then .ok (cg, reply, arraylen)
    else do
      let thisid := streamDecodeID key
      let (entry, emitted) ← streamReplyRaw s (some thisid) (some thisid) 1 false
      if emitted = 0 then
        streamReplyHistory s count now ri cg
          (reply ++ [.multiBulkLen 2, .bulk (streamIDText thisid), .nullMultiBulk]) (arraylen + 1)
      else do
        let nack ← cg.nack p
        let cg := cg.setNack p { nack with deliveryTime := now, deliveryCount := (nack.deliveryCount + 1) % 2 ^ 64 }
        streamReplyHistory s count now ri cg (reply ++ entry) (arraylen + 1)

/-- `streamReplyWithRangeFromConsumerPEL` with no `end`. -/
def streamReplyWithRangeFromConsumerPEL (s : Stream) (start : StreamID) (count : Nat) (group : StreamCG)
    (consumer : Nat) (now : Int) : Except Fault GroupRead := do
  let owner ← group.consumer consumer
  let (group, reply, arraylen) ←
    streamReplyHistory s count now (owner.pel.upward (streamEncodeID start)) group [] 0
  .ok ⟨group, .multiBulkLen arraylen :: reply, false, []⟩

/-- `streamReplyWithRange` with a group and no `end`. -/
def streamReplyWithRange (s : Stream) (start : StreamID) (count : Nat) (key groupname : Bytes) (group : StreamCG)
    (consumer : Nat) (noack history : Bool) (now : Int) : Except Fault GroupRead :=
  if history then streamReplyWithRangeFromConsumerPEL s start count group consumer now
  else do
    let (st, arraylen) ← streamForEach (streamReplyGroupEntry key groupname consumer noack now) count s.fuel
      (streamIteratorStart s (some start) none false) 0 ⟨group, [], false, []⟩
    .ok { st with reply := .multiBulkLen arraylen :: st.reply }

end JitRedis
