import JitRedis.Stream.Model

/-!
# The stream iterator

Model of `streamIterator` of `src/t_stream.c`, of the deletion of an entry, which is done with it, and of
the loop by which the commands read a range of entries.
-/

namespace JitRedis

open Fallible

/-- `streamIterator`; `ri` is what `raxNext`, or `raxPrev`, will still return, and `key` is `ri.key`. -/
structure StreamIterator where
  startKey : Bytes
  endKey : Bytes
  rev : Bool
  ri : List (Bytes × Listpack)
  key : Bytes
  masterId : StreamID
  masterFieldsCount : Int
  masterFieldsStart : Option Nat
  masterFieldsPtr : Option Nat
  entryFlags : Int
  lp : Option Listpack
  lpEle : Option Nat
  lpFlags : Option Nat

/-- A seek that falls back to another one when it finds nothing. -/
def seekOr (found other : List (Bytes × Listpack)) : List (Bytes × Listpack) :=
  if found.isEmpty then other else found

/-- The seek of the radix tree in `streamIteratorStart`. -/
def streamIteratorSeek (s : Stream) (start stop : Option StreamID) : Bool → List (Bytes × Listpack)
  | false =>
    match start with
    | some id =>
      if id.ms ≠ 0 ∨ id.seq ≠ 0 then seekOr (s.rax.upwardFrom (streamEncodeID id)) s.rax.entries else s.rax.entries
    | none => s.rax.entries
  | true =>
    match stop with
    | some id =>
      if id.ms ≠ 0 ∨ id.seq ≠ 0 then seekOr (s.rax.downward (streamEncodeID id)) s.rax.entries.reverse
      else s.rax.entries.reverse
    | none => s.rax.entries.reverse

def streamIteratorStart (s : Stream) (start stop : Option StreamID) (rev : Bool) : StreamIterator where
  startKey := match start with
    | some id => streamEncodeID id
    | none => List.replicate 16 0
  endKey := match stop with
    | some id => streamEncodeID id
    | none => List.replicate 16 255
  rev := rev
  ri := streamIteratorSeek s start stop rev
  key := []
  masterId := ⟨0, 0⟩
  masterFieldsCount := 0
  masterFieldsStart := none
  masterFieldsPtr := none
  entryFlags := 0
  lp := none
  lpEle := none
  lpFlags := none

/-- The place in a listpack where the iteration begins: behind the master fields, or at the end. -/
def streamIteratorFirst (lp : Listpack) (p : Option Nat) (masterFieldsCount : Int) :
    Bool → Except Fault (Option Nat)
  | false => lpNextTimes lp masterFieldsCount.toNat p
  | true => .ok (lpLast lp)

/-- Go to a node that `raxNext` or `raxPrev` returned. -/
def streamIteratorEnter (si : StreamIterator) (key : Bytes) (lp : Listpack) (ri : List (Bytes × Listpack)) :
    Except Fault StreamIterator :=
  if key.length ≠ 16 then .error .assertFailed
  else do
    let p ← lpNext lp (lpFirst lp)
    let p ← lpNext lp p
    let masterFieldsCount ← lpGetInteger lp p
    let p ← lpNext lp p
    let lpEle ← streamIteratorFirst lp p masterFieldsCount si.rev
    .ok { si with ri, key, masterId := streamDecodeID key, masterFieldsCount, masterFieldsStart := p,
                  lp := some lp, lpEle }

/-- Seek the next entry of the listpack; the result is false at its end. -/
def streamIteratorSeekEntry (si : StreamIterator) (lp : Listpack) : Except Fault (StreamIterator × Bool) :=
  if si.rev then do
    let lpCount ← lpGetInteger lp si.lpEle
    if lpCount = 0 then .ok ({ si with lp := none, lpEle := none }, false)
    else do
      let lpEle ← lpPrevTimes lp lpCount.toNat si.lpEle
      .ok ({ si with lpEle }, true)
  else do
    let lpEle ← lpNext lp si.lpEle
    .ok ({ si with lpEle }, lpEle.isSome)

/-- The number of fields of an entry, and the place behind it. -/
def streamIteratorNumfields (lp : Listpack) (p : Option Nat) (flags masterFieldsCount : Int) :
    Except Fault (Int × Option Nat) :=
  if flagSamefields flags then .ok (masterFieldsCount, p)
  else do
    let numfields ← lpGetInteger lp p
    let p ← lpNext lp p
    .ok (numfields, p)

/-- Read flags, ID and number of fields of an entry. -/
def streamIteratorReadEntry (si : StreamIterator) (lp : Listpack) :
    Except Fault (StreamIterator × Int × StreamID × Int) := do
  let flags ← lpGetInteger lp si.lpEle
  let p ← lpNext lp si.lpEle
  let ms ← lpGetInteger lp p
  let p ← lpNext lp p
  let seq ← lpGetInteger lp p
  let p ← lpNext lp p
  let (numfields, p) ← streamIteratorNumfields lp p flags si.masterFieldsCount
  let id : StreamID := ⟨si.masterId.ms + UInt64.ofInt ms, si.masterId.seq + UInt64.ofInt seq⟩
  .ok ({ si with lpEle := p, lpFlags := si.lpEle }, flags, id, numfields)

inductive Verdict where
  | emit
  | stop
  | skip
  deriving DecidableEq

/-- Compare an entry with the bounds of the iteration. -/
def streamIteratorVerdict (si : StreamIterator) (flags : Int) (id : StreamID) : Verdict :=
  let buf := streamEncodeID id
  if si.rev then
    if buf ≤ si.endKey ∧ flagDeleted flags = false then if buf < si.startKey then .stop else .emit
    else .skip
  else
    if si.startKey ≤ buf ∧ flagDeleted flags = false then if si.endKey < buf then .stop else .emit
    else .skip

/-- Pass an entry that is not emitted. -/
def streamIteratorSkipEntry (si : StreamIterator) (lp : Listpack) (flags numfields : Int) :
    Except Fault StreamIterator :=
  if si.rev then do
    let prevTimes := if flagSamefields flags then 4 else 5
    let lpEle ← lpPrevTimes lp prevTimes si.lpEle
    .ok { si with lpEle }
  else do
    let toDiscard := if flagSamefields flags then numfields else numfields * 2
    let lpEle ← lpNextTimes lp toDiscard.toNat si.lpEle
    .ok { si with lpEle }

inductive Scan where
  | emitted (si : StreamIterator) (id : StreamID) (numfields : Int)
  | outOfRange (si : StreamIterator)
  | exhausted (si : StreamIterator)

/-- The inner loop of `streamIteratorGetID`. Each turn passes an entry. -/
def streamIteratorScan (lp : Listpack) : Nat → StreamIterator → Except Fault Scan
  | 0, _ => .error .diverged
  | fuel + 1, si => do
    let (si, found) ← streamIteratorSeekEntry si lp
    if found then do
      let (si, flags, id, numfields) ← streamIteratorReadEntry si lp
      match streamIteratorVerdict si flags id with
      | .emit =>
        let masterFieldsPtr := if flagSamefields flags then si.masterFieldsStart else si.masterFieldsPtr
        .ok (.emitted { si with entryFlags := flags, masterFieldsPtr } id numfields)
      | .stop => .ok (.outOfRange si)
      | .skip => do
        let si ← streamIteratorSkipEntry si lp flags numfields
        streamIteratorScan lp fuel si
    else .ok (.exhausted si)

/-- Return from `streamIteratorGetID` after a scan, or go on with the next node. -/
def Scan.finish (next : StreamIterator → Except Fault (StreamIterator × Option (StreamID × Int))) :
    Scan → Except Fault (StreamIterator × Option (StreamID × Int))
  | .emitted si id numfields => .ok (si, some (id, numfields))
  | .outOfRange si => .ok (si, none)
  | .exhausted si => next si

/-- The outer loop of `streamIteratorGetID` from a new node on. -/
def streamIteratorNodes : List (Bytes × Listpack) → StreamIterator →
    Except Fault (StreamIterator × Option (StreamID × Int))
  | [], si => .ok (si, none)
  | (key, lp) :: ri, si => do
    let si ← streamIteratorEnter si key lp ri
    let scan ← streamIteratorScan lp (lp.elements.length + 1) si
    scan.finish (streamIteratorNodes ri)

/-- In reverse order, go back over the entry that was emitted last. -/
def streamIteratorStepBack (si : StreamIterator) (lp : Listpack) : Except Fault StreamIterator :=
  if si.rev then do
    let lpCount ← lpGetInteger lp si.lpEle
    let p ← lpPrevTimes lp lpCount.toNat si.lpEle
    let lpEle ← lpPrev lp p
    .ok { si with lpEle }
  else .ok si

/-- `streamIteratorGetID`; `none` is a return value of 0. -/
def streamIteratorGetID (si : StreamIterator) : Except Fault (StreamIterator × Option (StreamID × Int)) :=
  match si.lp, si.lpEle with
  | some lp, some _ => do
    let si ← streamIteratorStepBack si lp
    let scan ← streamIteratorScan lp (lp.elements.length + 1) si
    scan.finish (streamIteratorNodes si.ri)
  | _, _ => streamIteratorNodes si.ri si

def streamIteratorGetField (si : StreamIterator) (lp : Listpack) : Except Fault (StreamIterator × Bytes × Bytes) :=
  if flagSamefields si.entryFlags then do
    let field ← lpGet lp si.masterFieldsPtr
    let masterFieldsPtr ← lpNext lp si.masterFieldsPtr
    let value ← lpGet lp si.lpEle
    let lpEle ← lpNext lp si.lpEle
    .ok ({ si with masterFieldsPtr, lpEle }, field, value)
  else do
    let field ← lpGet lp si.lpEle
    let lpEle ← lpNext lp si.lpEle
    let value ← lpGet lp lpEle
    let lpEle ← lpNext lp lpEle
    .ok ({ si with lpEle }, field, value)

/-- All fields of the entry that was emitted. -/
def streamIteratorGetFields (lp : Listpack) : Nat → StreamIterator →
    Except Fault (StreamIterator × List (Bytes × Bytes))
  | 0, si => .ok (si, [])
  | n + 1, si => do
    let (si, field, value) ← streamIteratorGetField si lp
    let (si, fields) ← streamIteratorGetFields lp n si
    .ok (si, (field, value) :: fields)

/-- The node after one of its entries was marked as deleted: `none` if it was the last one. -/
def streamCountDeleted (lp : Listpack) : Except Fault (Option Listpack) := do
  let aux ← lpGetInteger lp (lpFirst lp)
  if aux = 1 then .ok none
  else do
    let lp ← lpReplaceInteger lp (lpFirst lp) (aux - 1)
    let p ← lpNext lp (lpFirst lp)
    let aux ← lpGetInteger lp p
    let lp ← lpReplaceInteger lp p (aux + 1)
    .ok (some lp)

/-- The bounds after `streamIteratorRemoveEntry`. -/
def streamIteratorRestart (s : Stream) (si : StreamIterator) (current : StreamID) : StreamIterator :=
  if si.rev then streamIteratorStart s (some (streamDecodeID si.startKey)) (some current) true
  else streamIteratorStart s (some current) (some (streamDecodeID si.endKey)) false

def streamIteratorRemoveEntry (s : Stream) (si : StreamIterator) (current : StreamID) :
    Except Fault (Stream × StreamIterator) :=
  match si.lp with
  | none => .error .badAccess
  | some lp => do
    let flags ← lpGetInteger lp si.lpFlags
    let lp ← lpReplaceInteger lp si.lpFlags (setDeleted flags)
    let node ← streamCountDeleted lp
    let rax := match node with
      | none => s.rax.erase si.key
      | some lp => s.rax.insert si.key lp
    let s := { s with rax, length := s.length - 1 }
    .ok (s, streamIteratorRestart s si current)

def streamDeleteItem (s : Stream) (id : StreamID) : Except Fault (Stream × Bool) := do
  match ← streamIteratorGetID (streamIteratorStart s (some id) (some id) false) with
  | (si, some (myid, _)) => do
    let (s, _) ← streamIteratorRemoveEntry s si myid
    .ok (s, true)
  | (_, none) => .ok (s, false)

/-- More turns than a loop over all entries takes. -/
def Stream.fuel (s : Stream) : Nat := (s.rax.entries.map fun e => e.2.elements.length).sum + 1

/-- The loop `while(streamIteratorGetID(..))` of the commands, over `count` entries unless that is zero. -/
def streamForEach {σ : Type} (visit : σ → StreamID → List (Bytes × Bytes) → Except Fault σ) (count : Nat) :
    Nat → StreamIterator → Nat → σ → Except Fault (σ × Nat)
  | 0, _, _, _ => .error .diverged
  | fuel + 1, si, arraylen, st => do
    match ← streamIteratorGetID si with
    | (_, none) => .ok (st, arraylen)
    | (si, some (id, numfields)) =>
      match si.lp with
      | none => .error .badAccess
      | some lp => do
        let (si, fields) ← streamIteratorGetFields lp numfields.toNat si
        let st ← visit st id fields
        if count ≠ 0 ∧ count = arraylen + 1 then .ok (st, arraylen + 1)
        else streamForEach visit count fuel si (arraylen + 1) st

end JitRedis
