import JitRedis.Quicklist.Model

/-!
# Inserting into, deleting from and iterating over quicklists

The remaining functions of `src/quicklist.c` that list commands use: splitting and merging nodes
around an insertion, deleting ranges, and iterators with deletion. `listTypeReleaseIterator` frees the
iterator without touching the list, so releasing needs no model.
-/

namespace JitRedis

/-- `_quicklistZiplistMerge` of the nodes at `a` and `a + 1`; the kept node ends up at `a`. -/
def quicklistZiplistMerge (env : QuicklistEnv) (q : Quicklist) (a : Nat) : Except Fault Quicklist := do
  let q := quicklistDecompressNode (quicklistDecompressNode q (some a)) (some (a + 1))
  let first ← q.readZl a
  let second ← q.readZl (a + 1)
  let (zl, keepFirst) ← ziplistMerge first second
  let keep := if keepFirst then a else a + 1
  let nokeep := if keepFirst then a + 1 else a
  let q := q.modifyNode keep fun nd => { nd.setZl zl with count := ziplistLen zl % 2 ^ 16 }
  let q := q.modifyNode nokeep fun nd => { nd with count := 0 }
  let q ← quicklistDelNode env q nokeep
  quicklistCompress env q a

/-- Merge the nodes at `a` and `a + 1` if both exist and the result is allowed. -/
def quicklistTryMerge (env : QuicklistEnv) (q : Quicklist) (a : Option Nat) :
    Except Fault (Quicklist × Bool) :=
  match a with
  | none => .ok (q, false)
  | some a =>
    if quicklistNodeAllowMerge q.nodes[a]? q.nodes[a + 1]? q.fill then do
      let q ← quicklistZiplistMerge env q a
      .ok (q, true)
    else
      .ok (q, false)

/-- `_quicklistMergeNodes`: `prev_prev` with `prev`, `next` with `next_next`, `center->prev` with
`center`, and what became of `center` with its next node. A merge before `center` moves it back. -/
def quicklistMergeNodes (env : QuicklistEnv) (q : Quicklist) (center : Nat) :
    Except Fault Quicklist := do
  let (q, merged) ← quicklistTryMerge env q (if 2 ≤ center then some (center - 2) else none)
  let center := if merged then center - 1 else center
  let (q, _) ← quicklistTryMerge env q (some (center + 1))
  let (q, merged) ← quicklistTryMerge env q (if 1 ≤ center then some (center - 1) else none)
  let target := if merged then center - 1 else center
  let (q, _) ← quicklistTryMerge env q (some target)
  .ok q

/-- `(unsigned int)x` of an `int` argument. -/
def uintOfInt (x : Int) : Nat := (x % 2 ^ 32).toNat

/-- `_quicklistSplitNode`: the ziplist that the node keeps, and the one of the new node. -/
def quicklistSplitNode (zl : Ziplist) (offset : Int) (after : Bool) :
    Except Fault (Ziplist × Ziplist) := do
  let kept ← ziplistDeleteRange zl (if after then offset + 1 else 0)
    (uintOfInt (if after then -1 else offset))
  let taken ← ziplistDeleteRange zl (if after then 0 else offset)
    (uintOfInt (if after then offset + 1 else -1))
  pure (kept, taken)

/-- Edit the ziplist of a node in use, count one more element and compress the node again if it was compressed. -/
def quicklistEditNode (env : QuicklistEnv) (q : Quicklist) (i : Nat)
    (edit : Ziplist → Except Fault Ziplist) : Except Fault Quicklist := do
  let q := quicklistDecompressNodeForUse q i
  let zl ← q.readZl i
  let zl ← edit zl
  quicklistRecompressOnly env (q.modifyNode i fun nd => (nd.setZl zl).addCount 1) i

/-- Split a full node next to an entry, put the value into the new node and merge around the old one. -/
def quicklistSplitInsert (env : QuicklistEnv) (q : Quicklist) (node : Nat) (offset : Int)
    (value : Bytes) (after : Bool) : Except Fault Quicklist := do
  let q := quicklistDecompressNodeForUse q node
  let zl ← q.readZl node
  let (kept, taken) ← quicklistSplitNode zl offset after
  let q := q.modifyNode node fun nd => { nd.setZl kept with count := ziplistLen kept % 2 ^ 16 }
  let zl ← ziplistPush taken (clip value) after
  let new := quicklistCreateNode zl (ziplistBlobLen zl) ((ziplistLen taken + 1) % 2 ^ 16)
  let q ← quicklistInsertNode env q (some node) new after
  quicklistMergeNodes env q (if after then node else node + 1)

/-- Where `_quicklistInsert` puts the new element, for the entry `zi` of the ziplist of `nd`. -/
def quicklistPlace (env : QuicklistEnv) (q : Quicklist) (entry : QuicklistEntry) (nd : QuicklistNode)
    (zi : Nat) (value : Bytes) (after : Bool) : Except Fault Quicklist :=
  let node := entry.node
  let allows (other : Option QuicklistNode) := quicklistNodeAllowInsert other q.fill value.length
  let full := !allows (some nd)
  let next := q.nodes[node + 1]?
  let prev := if node = 0 then none else q.nodes[node - 1]?
  let atTail := after && decide (entry.offset = nd.count)
  let fullNext := atTail && !allows next
  let atHead := !after && decide (entry.offset = 0)
  let fullPrev := atHead && !allows prev
  if full = false ∧ after then
    quicklistEditNode env q node fun zl =>
      match ziplistNext zl zi with
      | none => ziplistPush zl (clip value) false
      | some p => ziplistInsert zl p (clip value)
  else if full = false then
    quicklistEditNode env q node fun zl => ziplistInsert zl zi (clip value)
  else if atTail ∧ next.isSome ∧ fullNext = false then
    quicklistEditNode env q (node + 1) fun zl => ziplistPush zl (clip value) true
  else if atHead ∧ prev.isSome ∧ fullPrev = false then
    quicklistEditNode env q (node - 1) fun zl => ziplistPush zl (clip value) false
  else if (atTail ∧ next.isSome ∧ fullNext) ∨ (atHead ∧ prev.isSome ∧ fullPrev) then do
    let zl ← ziplistPush ziplistNew (clip value) true
    quicklistInsertNode env q (some node) (quicklistCreateNode zl (ziplistBlobLen zl) 1) after
  else
    quicklistSplitInsert env q node entry.offset value after

/-- `_quicklistInsert` next to an entry of a node. -/
def quicklistInsert (env : QuicklistEnv) (q : Quicklist) (entry : QuicklistEntry) (value : Bytes)
    (after : Bool) : Except Fault Quicklist :=
  match q.nodes[entry.node]?, entry.zi with
  | some nd, some zi => do
    let q ← quicklistPlace env q entry nd zi value after
    .ok { q with count := q.count + 1 }
  | _, _ => .error .badAccess

/-- How many elements are deleted from a node, and whether the node is deleted as a whole. -/
def delRangeExtent (count : Nat) (offset : Int) (extent : Nat) : Nat × Bool :=
  if offset = 0 ∧ count ≤ extent then (count, true)
  else if 0 ≤ offset ∧ count ≤ extent then (count - offset.toNat, false)
  else if offset < 0 then (min (-offset).toNat extent, false)
  else (extent, false)

/-- The loop of `quicklistDelRange`, at most one turn a node. -/
def delRangeLoop (env : QuicklistEnv) : Nat → Quicklist → Nat → Nat → Int → Except Fault Quicklist
  | 0, _, _, _, _ => .error .diverged
  | fuel + 1, q, extent, i, offset =>
    if extent = 0 then .ok q
    else
      match q.nodes[i]? with
      | none => .error .badAccess
      | some nd =>
        let extents := delRangeExtent nd.count offset extent
        let del := extents.1
        if extents.2 then do
          let q ← quicklistDelNode env q i
          delRangeLoop env fuel q (extent - del) i 0
        else do
          let q := quicklistDecompressNodeForUse q i
          let zl ← q.readZl i
          let zl ← ziplistDeleteRange zl offset del
          let q := q.modifyNode i fun nd => (nd.setZl zl).addCount (-del)
          let q := { q with count := ulongSub q.count del }
          -- `quicklistDeleteIfEmpty`
          if (q.nodes[i]?.any fun nd => nd.count = 0) then do
            let q ← quicklistDelNode env q i
            delRangeLoop env fuel q (extent - del) i 0
          else do
            let q ← quicklistRecompressOnly env q i
            delRangeLoop env fuel q (extent - del) (i + 1) 0

def quicklistDelRange (env : QuicklistEnv) (q : Quicklist) (start count : Int) :
    Except Fault (Quicklist × Bool) :=
  if count ≤ 0 then
    .ok (q, false)
  else do
    let extent := count.toNat
    -- `quicklist->count - start` is unsigned: it is out of reach when `start` exceeds the count.
    let extent :=
      if 0 ≤ start ∧ start ≤ q.count ∧ q.count - start.toNat < extent then q.count - start.toNat
      else if start < 0 ∧ (-start).toNat < extent then (-start).toNat
      else extent
    match ← quicklistIndex q start with
    | (q, none) => .ok (q, false)
    | (q, some entry) =>
      let q ← delRangeLoop env (q.nodes.length + 1) q extent entry.node entry.offset
      .ok (q, true)

structure QuicklistIter where
  current : Option Nat
  zi : Option Nat
  offset : Int
  forward : Bool
  deriving DecidableEq, Repr

def quicklistGetIteratorAtIdx (q : Quicklist) (forward : Bool) (idx : Int) :
    Except Fault (Quicklist × Option QuicklistIter) := do
  match ← quicklistIndex q idx with
  | (q, none) => .ok (q, none)
  | (q, some e) => .ok (q, some { current := some e.node, zi := none, offset := e.offset, forward })

/-- The entry that an iterator moves to in its current node, if any, and its offset. -/
def quicklistIterZi (q : Quicklist) (it : QuicklistIter) (i : Nat) :
    Except Fault (Quicklist × Option Nat × Int) :=
  match it.zi with
  | none => do
    let q := quicklistDecompressNodeForUse q i
    let zl ← q.readZl i
    .ok (q, ziplistIndex zl it.offset, it.offset)
  | some p => do
    let zl ← q.readZl i
    .ok (q, if it.forward then ziplistNext zl p else ziplistPrev zl p,
      if it.forward then it.offset + 1 else it.offset - 1)

/-- `quicklistNext`; it calls itself at most once a node. -/
def quicklistNext (env : QuicklistEnv) : Nat → Quicklist → QuicklistIter →
    Except Fault (Quicklist × QuicklistIter × Option QuicklistEntry)
  | 0, _, _ => .error .diverged
  | fuel + 1, q, it =>
    match it.current with
    | none => .ok (q, it, none)
    | some i => do
      match ← quicklistIterZi q it i with
      | (q, some p, offset) =>
        .ok (q, { it with zi := some p, offset }, some { node := i, zi := some p, offset })
      | (q, none, _) => do
        let q ← quicklistCompress env q i
        quicklistNext env fuel q
          { it with
            current := if it.forward then q.next i else Quicklist.prev i
            zi := none
            offset := if it.forward then 0 else -1 }

/-- Where `quicklistDelEntry` leaves the iterator when the node at `i` is gone: the next one has moved there. -/
def QuicklistIter.skipGone (it : QuicklistIter) (i : Nat) (next : Option Nat) : QuicklistIter :=
  { it with
    current := if it.forward then next.map fun _ => i else Quicklist.prev i
    zi := none
    offset := if it.forward then 0 else -1 }

/-- `quicklistDelEntry` of the entry that the iterator has just returned. -/
def quicklistDelEntry (env : QuicklistEnv) (q : Quicklist) (it : QuicklistIter) (e : QuicklistEntry) :
    Except Fault (Quicklist × QuicklistIter) :=
  match e.zi with
  | none => .error .badAccess
  | some p => do
    match ← quicklistDelIndex env q e.node p with
    | (q', true) => .ok (q', it.skipGone e.node (q.next e.node))
    | (q', false) => .ok (q', { it with zi := none })

/-- The loop of a command that iterates: for each element, whether it is deleted. -/
def quicklistIterate (env : QuicklistEnv) : List Bool → Quicklist → QuicklistIter →
    Except Fault Quicklist
  | [], q, _ => .ok q
  | delete :: rest, q, it => do
    match ← quicklistNext env (q.nodes.length + 1) q it with
    | (q, _, none) => .ok q
    | (q, it, some e) =>
      if delete then do
        let (q, it) ← quicklistDelEntry env q it e
        quicklistIterate env rest q it
      else
        quicklistIterate env rest q it

/-- The loop of `linsertCommand`: pass `skip` elements and return the entry of the one that follows. -/
def quicklistSeek (env : QuicklistEnv) : Nat → Quicklist → QuicklistIter →
    Except Fault (Quicklist × Option QuicklistEntry)
  | 0, q, it => do
    let (q, _, e) ← quicklistNext env (q.nodes.length + 1) q it
    .ok (q, e)
  | skip + 1, q, it => do
    match ← quicklistNext env (q.nodes.length + 1) q it with
    | (q, _, none) => .ok (q, none)
    | (q, it, some _) => quicklistSeek env skip q it

inductive QuicklistOp where
  | push (value : Bytes) (head : Bool)
  | pop (head : Bool)
  | index (idx : Int)
  | replace (idx : Int) (data : Bytes)
  /-- `LRANGE`, `LREM` and the like: iterate from an index, deleting some of the elements met. -/
  | iterate (forward : Bool) (idx : Int) (deletes : List Bool)
  /-- `LINSERT`: iterate from the head and insert next to the element after the first `skip`. -/
  | insert (skip : Nat) (after : Bool) (value : Bytes)
  | delRange (start count : Int)
  | appendZiplist (zl : Ziplist)
  deriving DecidableEq, Repr

inductive QuicklistReply where
  | done
  | flag (ok : Bool)
  | value (v : Option Bytes)
  deriving DecidableEq, Repr

def quicklistStep (env : QuicklistEnv) (q : Quicklist) :
    QuicklistOp → Except Fault (Quicklist × QuicklistReply)
  | .push value head => do
    let q ← quicklistPush env q value head
    .ok (q, .done)
  | .pop head => do
    let (q, v) ← quicklistPopCustom env q head
    .ok (q, .value v)
  | .index idx => do
    match ← quicklistIndex q idx with
    | (q, none) => .ok (q, .value none)
    | (q, some e) => do
      let v ← q.get e
      .ok (q, .value v)
  | .replace idx data => do
    let (q, ok) ← quicklistReplaceAtIndex env q idx data
    .ok (q, .flag ok)
  | .iterate forward idx deletes => do
    match ← quicklistGetIteratorAtIdx q forward idx with
    | (q, none) => .ok (q, .done)
    | (q, some it) => do
      let q ← quicklistIterate env deletes q it
      .ok (q, .done)
  | .insert skip after value => do
    match ← quicklistGetIteratorAtIdx q true 0 with
    | (q, none) => .ok (q, .flag false)
    | (q, some it) => do
      match ← quicklistSeek env skip q it with
      | (q, none) => .ok (q, .flag false)
      | (q, some e) => do
        let q ← quicklistInsert env q e value after
        .ok (q, .flag true)
  | .delRange start count => do
    let (q, ok) ← quicklistDelRange env q start count
    .ok (q, .flag ok)
  | .appendZiplist zl => do
    let q ← quicklistAppendZiplist env q zl
    .ok (q, .done)

end JitRedis
