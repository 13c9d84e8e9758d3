import JitRedis.Lib.BigEndian
import JitRedis.Lib.SortedMap
import JitRedis.Listpack.Model

/-!
# Streams

Model of the low level part of `src/t_stream.c`: a radix tree of listpacks. The tree is used through what
`src/rax.c` offers, a finite map with its keys in lexicographic order (`memcmp`). `s->length` and the
counters of a node are counts of entries in memory and do not wrap; IDs do.
-/

namespace JitRedis

open Fallible

structure StreamID where
  ms : UInt64
  seq : UInt64
  deriving DecidableEq, Repr

def StreamID.val (id : StreamID) : Nat := id.ms.toNat * 2 ^ 64 + id.seq.toNat

lemma StreamID.val_injective : Function.Injective StreamID.val := by
  rintro ⟨ms, seq⟩ ⟨ms', seq'⟩ h
  have hseq := seq.toNat_lt
  have hseq' := seq'.toNat_lt
  simp only [StreamID.val] at h
  rw [StreamID.mk.injEq]
  exact ⟨UInt64.toNat_inj.mp (by omega), UInt64.toNat_inj.mp (by omega)⟩

instance : LinearOrder StreamID := LinearOrder.lift' StreamID.val StreamID.val_injective

def streamCompareID (a b : StreamID) : Int :=
  if b.ms < a.ms then 1
  else if a.ms < b.ms then -1
  else if b.seq < a.seq then 1
  else if a.seq < b.seq then -1
  else 0

def streamEncodeID (id : StreamID) : Bytes := BigEndian.encode 8 id.ms.toNat ++ BigEndian.encode 8 id.seq.toNat

def streamDecodeID (buf : Bytes) : StreamID :=
  ⟨UInt64.ofNat (BigEndian.decode (buf.take 8)), UInt64.ofNat (BigEndian.decode (buf.drop 8))⟩

/-- `streamNACK`; the consumer is the address of one, `none` being `NULL`. -/
structure StreamNACK where
  deliveryTime : Int
  deliveryCount : Nat
  consumer : Option Nat
  deriving DecidableEq

/-- `streamConsumer`; the tree `pel` has addresses of NACKs. -/
structure StreamConsumer where
  seenTime : Int
  name : Bytes
  pel : SortedMap Bytes Nat
  deriving DecidableEq

/-- `streamCG`, with the NACKs and consumers that were not freed. Addresses are not used again. -/
structure StreamCG where
  lastId : StreamID
  pel : SortedMap Bytes Nat
  consumers : SortedMap Bytes Nat
  nackHeap : SortedMap Nat StreamNACK
  consumerHeap : SortedMap Nat StreamConsumer
  next : Nat
  deriving DecidableEq

structure Stream where
  rax : SortedMap Bytes Listpack
  length : Nat
  lastId : StreamID
  cgroups : SortedMap Bytes StreamCG
  deriving DecidableEq

/-- `server.stream_node_max_bytes` and `server.stream_node_max_entries` -/
structure StreamConfig where
  nodeMaxBytes : Nat
  nodeMaxEntries : Int

def streamNew : Stream := ⟨.empty, 0, ⟨0, 0⟩, .empty⟩

def streamNextID (lastId : StreamID) (now : UInt64) : StreamID :=
  if lastId.ms < now then ⟨now, 0⟩ else ⟨lastId.ms, lastId.seq + 1⟩

/-- `flags & STREAM_ITEM_FLAG_DELETED` -/
def flagDeleted (flags : Int) : Bool := flags.toNat.testBit 0

/-- `flags & STREAM_ITEM_FLAG_SAMEFIELDS` -/
def flagSamefields (flags : Int) : Bool := flags.toNat.testBit 1

/-- `flags | STREAM_ITEM_FLAG_DELETED` -/
def setDeleted (flags : Int) : Int := ((flags.toNat ||| 1 : Nat) : Int)

def lpAppendAll (lp : Listpack) (texts : List Bytes) : Except Fault Listpack := texts.foldlM lpAppend lp

/-- Whether `streamAppendItem` leaves the tail node since it has too many bytes or entries. -/
def streamTailFull (cfg : StreamConfig) (lp : Listpack) : Except Fault Bool :=
  if cfg.nodeMaxBytes ≠ 0 ∧ cfg.nodeMaxBytes < lpBytes lp then .ok true
  else if cfg.nodeMaxEntries ≠ 0 then do
    let count ← lpGetInteger lp (lpFirst lp)
    .ok (decide (cfg.nodeMaxEntries < count))
  else .ok false

/-- The node that `streamAppendItem` writes to, `none` being a new one. -/
def streamAppendTarget (cfg : StreamConfig) : Option (Bytes × Listpack) → Except Fault (Option (Bytes × Listpack))
  | none => .ok none
  | some (key, lp) => do
    let full ← streamTailFull cfg lp
    .ok (if full || cfg.nodeMaxBytes < lpBytes lp then none else some (key, lp))

/-- The master entry of a new node: one entry, none deleted, and the fields. -/
def streamMasterEntry (fields : List (Bytes × Bytes)) : Except Fault Listpack := do
  let lp ← lpAppendInteger lpNew 1
  let lp ← lpAppendInteger lp 0
  let lp ← lpAppendInteger lp fields.length
  let lp ← lpAppendAll lp (fields.map Prod.fst)
  lpAppendInteger lp 0

/-- The comparison of the fields with those of the master entry. -/
def sameFieldsLoop (lp : Listpack) : Option Nat → List (Bytes × Bytes) → Except Fault Bool
  | _, [] => .ok true
  | p, (field, _) :: fields => do
    let e ← lpGet lp p
    if e ≠ field then .ok false
    else do
      let p ← lpNext lp p
      sameFieldsLoop lp p fields

/-- Whether an entry gets `STREAM_ITEM_FLAG_SAMEFIELDS`. -/
def streamSameFields (lp : Listpack) (p : Option Nat) (masterFieldsCount : Int) (fields : List (Bytes × Bytes)) :
    Except Fault Bool :=
  if fields.length = masterFieldsCount then sameFieldsLoop lp p fields else .ok false

/-- Count the new entry in the master entry of an old node and compare the fields. -/
def streamReuseNode (lp : Listpack) (fields : List (Bytes × Bytes)) : Except Fault (Listpack × Bool) := do
  let p := lpFirst lp
  let count ← lpGetInteger lp p
  let lp ← lpReplaceInteger lp p (count + 1)
  let p ← lpNext lp p
  let p ← lpNext lp p
  let masterFieldsCount ← lpGetInteger lp p
  let p ← lpNext lp p
  let same ← streamSameFields lp p masterFieldsCount fields
  .ok (lp, same)

/-- The fields and values of an entry, or the values only. -/
def streamEntryBody (same : Bool) (fields : List (Bytes × Bytes)) : List Bytes :=
  if same then fields.map Prod.snd else ll2string fields.length :: fields.flatMap fun f => [f.1, f.2]

def streamAppendEntry (lp : Listpack) (same : Bool) (id masterId : StreamID) (fields : List (Bytes × Bytes)) :
    Except Fault Listpack := do
  let lp ← lpAppendInteger lp (if same then 2 else 0)
  let lp ← lpAppendInteger lp (id.ms - masterId.ms).toInt64.toInt
  let lp ← lpAppendInteger lp (id.seq - masterId.seq).toInt64.toInt
  let lp ← lpAppendAll lp (streamEntryBody same fields)
  lpAppendInteger lp (fields.length + 3 + if same then 0 else fields.length + 1)

def streamWriteEntry (id : StreamID) (fields : List (Bytes × Bytes)) :
    Option (Bytes × Listpack) → Except Fault (Bytes × Listpack)
  | none => do
    let lp ← streamMasterEntry fields
    let lp ← streamAppendEntry lp true id id fields
    .ok (streamEncodeID id, lp)
  | some (key, lp) =>
    if key.length ≠ 16 then .error .assertFailed
    else do
      let (lp, same) ← streamReuseNode lp fields
      let lp ← streamAppendEntry lp same id (streamDecodeID key) fields
      .ok (key, lp)

/-- `streamAppendItem`; `none` is `C_ERR`. -/
def streamAppendItem (cfg : StreamConfig) (s : Stream) (fields : List (Bytes × Bytes)) (useId : Option StreamID)
    (now : UInt64) : Except Fault (Stream × Option StreamID) :=
  if useId.any (fun id => streamCompareID id s.lastId ≤ 0) then .ok (s, none)
  else do
    let id := useId.getD (streamNextID s.lastId now)
    let target ← streamAppendTarget cfg s.rax.entries.getLast?
    let (key, lp) ← streamWriteEntry id fields target
    .ok ({ s with rax := s.rax.insert key lp, length := s.length + 1, lastId := id }, some id)

/-- Go from the flags of an entry to the next entry. -/
def streamSkipEntry (lp : Listpack) (p : Option Nat) (flags masterFieldsCount : Int) : Except Fault (Option Nat) := do
  let p ← lpNext lp p
  let p ← lpNext lp p
  let p ← lpNext lp p
  if flagSamefields flags then do
    let p ← lpNextTimes lp masterFieldsCount.toNat p
    lpNext lp p
  else do
    let toSkip ← lpGetInteger lp p
    let p ← lpNextTimes lp (1 + toSkip * 2).toNat p
    lpNext lp p

/-- The loop of `streamTrimByLength` that marks entries as deleted. Each turn passes an entry. -/
def streamMarkLoop (maxlen : Nat) (masterFieldsCount : Int) :
    Nat → Listpack → Option Nat → Nat → Nat → Except Fault (Listpack × Nat × Nat)
  | _, lp, none, length, deleted => .ok (lp, length, deleted)
  | 0, _, some _, _, _ => .error .diverged
  | fuel + 1, lp, some p, length, deleted => do
    let flags ← lpGetInteger lp (some p)
    if flagDeleted flags then do
      let p ← streamSkipEntry lp (some p) flags masterFieldsCount
      streamMarkLoop maxlen masterFieldsCount fuel lp p length deleted
    else do
      let flags := setDeleted flags
      let lp ← lpReplaceInteger lp (some p) flags
      if length - 1 ≤ maxlen then .ok (lp, length - 1, deleted + 1)
      else do
        let p ← streamSkipEntry lp (some p) flags masterFieldsCount
        streamMarkLoop maxlen masterFieldsCount fuel lp p (length - 1) (deleted + 1)

/-- Mark the oldest entries of a node, which has enough of them. -/
def streamTrimNode (maxlen : Nat) (lp : Listpack) (length deleted : Nat) (entries : Int) :
    Except Fault (Listpack × Nat × Nat) := do
  let p := lpFirst lp
  let toDelete : Int := length - maxlen
  if ¬ toDelete < entries then .error .assertFailed
  else do
    let lp ← lpReplaceInteger lp p (entries - toDelete)
    let p ← lpNext lp p
    let markedDeleted ← lpGetInteger lp p
    let lp ← lpReplaceInteger lp p (markedDeleted + toDelete)
    let p ← lpNext lp p
    let masterFieldsCount ← lpGetInteger lp p
    let p ← lpNext lp p
    let p ← lpNextTimes lp masterFieldsCount.toNat p
    let p ← lpNext lp p
    streamMarkLoop maxlen masterFieldsCount lp.elements.length lp p length deleted

/-- The loop of `streamTrimByLength`; `ri` is what `raxNext` will return. -/
def streamTrimLoop (maxlen : Nat) (approx : Bool) :
    Nat → Stream → List (Bytes × Listpack) → Nat → Except Fault (Stream × Nat)
  | 0, _, _, _ => .error .diverged
  | fuel + 1, s, ri, deleted =>
    if s.length ≤ maxlen then .ok (s, deleted)
    else
      match ri with
      | [] => .ok (s, deleted)
      | (key, lp) :: _ => do
        let entries ← lpGetInteger lp (lpFirst lp)
        if (maxlen : Int) ≤ s.length - entries then
          let s := { s with rax := s.rax.erase key, length := (s.length - entries).toNat }
          streamTrimLoop maxlen approx fuel s (s.rax.upward key) (deleted + entries.toNat)
        else if approx then .ok (s, deleted)
        else do
          let (lp, length, deleted) ← streamTrimNode maxlen lp s.length deleted entries
          .ok ({ s with rax := s.rax.insert key lp, length }, deleted)

def streamTrimByLength (s : Stream) (maxlen : Nat) (approx : Bool) : Except Fault (Stream × Nat) :=
  if s.length ≤ maxlen then .ok (s, 0)
  else streamTrimLoop maxlen approx (s.rax.entries.length + 1) s s.rax.entries 0

end JitRedis
