import JitRedis.Ziplist.Model

/-!
# Quicklists

Model of `src/quicklist.c`. The doubly linked list of nodes is a list, and a pointer to a node is its
position. A node keeps its ziplist also while it is LZF compressed; reading it in that state is
`Fault.lzfAccess`. Whether a compression succeeds is decided by an arbitrary sequence of outcomes, and
decompression is its inverse. `len` is a field of its own, because `__quicklistInsertNode` and
`__quicklistDelNode` compress while it is stale.
-/

namespace JitRedis

inductive QuicklistEncoding where
  | raw
  | lzf
  deriving DecidableEq, Repr

/-- `quicklistNode`; `count` has 16 bits. -/
structure QuicklistNode where
  zl : Ziplist
  sz : Nat
  count : Nat
  encoding : QuicklistEncoding
  recompress : Bool
  deriving DecidableEq, Repr

/-- `quicklist`. `tries` counts the calls of `lzf_compress` and selects the outcome of the next. -/
structure Quicklist where
  nodes : List QuicklistNode
  count : Nat
  len : Nat
  fill : Int
  compress : Nat
  tries : Nat
  deriving DecidableEq, Repr

/-- The outcomes of `lzf_compress`, and whether recompressions of end nodes are monitored. -/
structure QuicklistEnv where
  lzf : Nat → Bool
  monitor : Bool

/-- `quicklistSetFill`; the field has 16 bits. -/
def quicklistSetFill (fill : Int) : Int :=
  Int.bmod (if 2 ^ 15 < fill then 2 ^ 15 else if fill < -5 then -5 else fill) (2 ^ 16)

/-- `quicklistSetCompressDepth`; the field has 16 bits. -/
def quicklistSetCompressDepth (compress : Int) : Nat :=
  (if 2 ^ 16 < compress then 2 ^ 16 else if compress < 0 then 0 else compress).toNat % 2 ^ 16

def quicklistNew (fill compress : Int) : Quicklist :=
  { nodes := []
    count := 0
    len := 0
    fill := quicklistSetFill fill
    compress := quicklistSetCompressDepth compress
    tries := 0 }

/-- `quicklistCreateNode`, with the ziplist that the caller stores in it. -/
def quicklistCreateNode (zl : Ziplist) (sz count : Nat) : QuicklistNode :=
  { zl, sz, count, encoding := .raw, recompress := false }

def Quicklist.modifyNode (q : Quicklist) (i : Nat) (f : QuicklistNode → QuicklistNode) : Quicklist :=
  { q with nodes := q.nodes.modify i f }

/-- `node->next` -/
def Quicklist.next (q : Quicklist) (i : Nat) : Option Nat :=
  if i + 1 < q.nodes.length then some (i + 1) else none

/-- `node->prev` -/
def Quicklist.prev (i : Nat) : Option Nat := if i = 0 then none else some (i - 1)

def Quicklist.readZl (q : Quicklist) (i : Nat) : Except Fault Ziplist :=
  match q.nodes[i]? with
  | none => .error .badAccess
  | some nd => if nd.encoding = .lzf then .error .lzfAccess else .ok nd.zl

def minCompressBytes : Nat := 48

/-- `quicklistCompressNode`: nothing for `NULL`, for a compressed node and for a small one. -/
def quicklistCompressNode (env : QuicklistEnv) (q : Quicklist) (node : Option Nat) : Quicklist :=
  match node with
  | none => q
  | some i =>
    match q.nodes[i]? with
    | none => q
    | some nd =>
      if nd.encoding = .raw ∧ minCompressBytes ≤ nd.sz then
        if env.lzf q.tries then
          { q.modifyNode i fun nd => { nd with encoding := .lzf, recompress := false } with
            tries := q.tries + 1 }
        else
          { q with tries := q.tries + 1 }
      else
        q

def quicklistDecompressNode (q : Quicklist) (node : Option Nat) : Quicklist :=
  match node with
  | none => q
  | some i => q.modifyNode i fun nd => { nd with encoding := .raw }

def quicklistDecompressNodeForUse (q : Quicklist) (i : Nat) : Quicklist :=
  q.modifyNode i fun nd =>
    if nd.encoding = .lzf then { nd with encoding := .raw, recompress := true } else nd

/-- The loop of `__quicklistCompress`, from both ends; `none` when the two sides meet. -/
def compressLoop (node : Option Nat) : Nat → Quicklist → Option Nat → Option Nat → Bool →
    Except Fault (Quicklist × Option (Option Nat × Option Nat × Bool))
  | 0, q, forward, reverse, inDepth => .ok (q, some (forward, reverse, inDepth))
  | turns + 1, q, forward, reverse, inDepth =>
    let q := quicklistDecompressNode (quicklistDecompressNode q forward) reverse
    let inDepth := inDepth || forward == node || reverse == node
    if forward = reverse then
      .ok (q, none)
    else
      match forward, reverse with
      | some i, some j => compressLoop node turns q (q.next i) (Quicklist.prev j) inDepth
      | _, _ => .error .badAccess

/-- `__quicklistCompress` -/
def quicklistCompressDepth (env : QuicklistEnv) (q : Quicklist) (node : Option Nat) :
    Except Fault Quicklist :=
  if q.compress = 0 ∨ q.len < q.compress * 2 then
    .ok q
  else do
    let head := if q.nodes = [] then none else some 0
    let tail := if q.nodes = [] then none else some (q.nodes.length - 1)
    match ← compressLoop node q.compress q head tail false with
    | (q, none) => .ok q
    | (q, some (forward, reverse, inDepth)) =>
      let q := if inDepth then q else quicklistCompressNode env q node
      -- `depth` has been incremented once more than the loop has turned.
      if 2 < q.compress + 1 then
        .ok (quicklistCompressNode env (quicklistCompressNode env q forward) reverse)
      else
        .ok q

/-- The node is within the ends that must stay uncompressed, and compressing it now would succeed. -/
def Quicklist.Stray (env : QuicklistEnv) (q : Quicklist) (i : Nat) : Prop :=
  (i = 0 ∨ i + 1 = q.nodes.length ∨ q.nodes.length < q.compress * 2) ∧
    (q.nodes[i]?.any fun nd => nd.encoding = .raw ∧ minCompressBytes ≤ nd.sz) ∧ env.lzf q.tries

instance (env : QuicklistEnv) (q : Quicklist) (i : Nat) : Decidable (q.Stray env i) :=
  inferInstanceAs (Decidable (_ ∧ _ ∧ _))

/-- A node whose `recompress` bit is set is compressed, wherever it is. A monitor observes this branch. -/
def quicklistRecompress (env : QuicklistEnv) (q : Quicklist) (i : Nat) : Except Fault Quicklist :=
  if env.monitor = true ∧ q.Stray env i then .error .monitor
  else .ok (quicklistCompressNode env q (some i))

def quicklistCompress (env : QuicklistEnv) (q : Quicklist) (i : Nat) : Except Fault Quicklist :=
  match q.nodes[i]? with
  | none => .error .badAccess
  | some nd => if nd.recompress then quicklistRecompress env q i else quicklistCompressDepth env q (some i)

def quicklistRecompressOnly (env : QuicklistEnv) (q : Quicklist) (i : Nat) : Except Fault Quicklist :=
  match q.nodes[i]? with
  | none => .error .badAccess
  | some nd => if nd.recompress then quicklistRecompress env q i else .ok q

/-- `__quicklistInsertNode` around node `old`, which is `NULL` in an empty list only. -/
def quicklistInsertNode (env : QuicklistEnv) (q : Quicklist) (old : Option Nat) (new : QuicklistNode)
    (after : Bool) : Except Fault Quicklist :=
  match old with
  | none =>
    if q.nodes = [] then .ok { q with nodes := [new], len := q.len + 1 } else .error .badAccess
  | some i => do
    let q := { q with nodes := q.nodes.insertIdx (if after then i + 1 else i) new }
    let q ← quicklistCompress env q (if after then i else i + 1)
    .ok { q with len := q.len + 1 }

def ulongSub (a b : Nat) : Nat := if b ≤ a then a - b else a + 2 ^ 64 - b

def quicklistDelNode (env : QuicklistEnv) (q : Quicklist) (i : Nat) : Except Fault Quicklist :=
  match q.nodes[i]? with
  | none => .error .badAccess
  | some nd => do
    let q ← quicklistCompressDepth env { q with nodes := q.nodes.eraseIdx i } none
    .ok { q with count := ulongSub q.count nd.count, len := q.len - 1 }

/-- `_quicklistNodeSizeMeetsOptimizationRequirement` -/
def sizeMeetsOptimizationRequirement (sz : Nat) (fill : Int) : Bool :=
  if 0 ≤ fill then false
  else
    match [4096, 8192, 16384, 32768, 65536][(-fill - 1).toNat]? with
    | none => false
    | some level => decide (sz ≤ level)

def sizeSafetyLimit : Nat := 8192

/-- The decision that `_quicklistNodeAllowInsert` and `_quicklistNodeAllowMerge` share. -/
def allowsSize (fill : Int) (sz : Nat) (countFits : Bool) : Bool :=
  if sizeMeetsOptimizationRequirement sz fill then true
  else if sizeSafetyLimit < sz then false
  else countFits

def quicklistNodeAllowInsert (node : Option QuicklistNode) (fill : Int) (sz : Nat) : Bool :=
  match node with
  | none => false
  | some nd =>
    let overhead := (if sz < 254 then 1 else 5) + (if sz < 64 then 1 else if sz < 16384 then 2 else 5)
    let newSz := (nd.sz + sz + overhead) % 2 ^ 32
    allowsSize fill newSz (decide ((nd.count : Int) < fill))

def quicklistNodeAllowMerge (a b : Option QuicklistNode) (fill : Int) : Bool :=
  match a, b with
  | some a, some b =>
    let mergeSz := (a.sz + b.sz + 2 ^ 32 - 11) % 2 ^ 32
    allowsSize fill mergeSz (decide (((a.count + b.count : Nat) : Int) ≤ fill))
  | _, _ => false

/-- The bytes that reach the ziplist functions, whose length argument is an `unsigned int`. -/
def clip (value : Bytes) : Bytes := value.take (value.length % 2 ^ 32)

/-- Store a changed ziplist in a node and update `sz`. -/
def QuicklistNode.setZl (nd : QuicklistNode) (zl : Ziplist) : QuicklistNode :=
  { nd with zl, sz := ziplistBlobLen zl }

/-- `node->count += k`, in 16 bits. -/
def QuicklistNode.addCount (nd : QuicklistNode) (k : Int) : QuicklistNode :=
  { nd with count := ((nd.count + k) % 2 ^ 16).toNat }

/-- The position of the end node that a push or a pop works on. -/
def Quicklist.endNode (q : Quicklist) (head : Bool) : Nat := if head then 0 else q.nodes.length - 1

/-- The end node that is passed to `__quicklistInsertNode`: `NULL` in an empty list. -/
def Quicklist.endRef (q : Quicklist) (head : Bool) : Option Nat :=
  if q.nodes = [] then none else some (q.endNode head)

/-- Put a value into the end node or, when that does not allow it, into a new one. -/
def quicklistPushNode (env : QuicklistEnv) (q : Quicklist) (value : Bytes) (head : Bool) :
    Except Fault Quicklist :=
  if quicklistNodeAllowInsert q.nodes[q.endNode head]? q.fill value.length then do
    let zl ← q.readZl (q.endNode head)
    let zl ← ziplistPush zl (clip value) head
    .ok (q.modifyNode (q.endNode head) (·.setZl zl))
  else do
    let zl ← ziplistPush ziplistNew (clip value) head
    quicklistInsertNode env q (q.endRef head) (quicklistCreateNode zl (ziplistBlobLen zl) 0) (!head)

/-- `quicklistPushHead` and `quicklistPushTail`. -/
def quicklistPush (env : QuicklistEnv) (q : Quicklist) (value : Bytes) (head : Bool) :
    Except Fault Quicklist := do
  let q ← quicklistPushNode env q value head
  .ok { q.modifyNode (q.endNode head) (·.addCount 1) with count := q.count + 1 }

def quicklistAppendZiplist (env : QuicklistEnv) (q : Quicklist) (zl : Ziplist) :
    Except Fault Quicklist := do
  let node := quicklistCreateNode zl (ziplistBlobLen zl) (ziplistLen zl % 2 ^ 16)
  let q ← quicklistInsertNode env q (q.endRef false) node true
  .ok { q with count := q.count + node.count }

/-- `quicklistDelIndex`: the flag tells whether the node is gone. -/
def quicklistDelIndex (env : QuicklistEnv) (q : Quicklist) (i p : Nat) :
    Except Fault (Quicklist × Bool) := do
  let zl ← q.readZl i
  let zl ← ziplistDelete zl p 1
  let q := q.modifyNode i fun nd => { nd with zl }.addCount (-1)
  if q.nodes[i]?.any fun nd => nd.count = 0 then do
    let q ← quicklistDelNode env q i
    .ok ({ q with count := ulongSub q.count 1 }, true)
  else
    .ok ({ q.modifyNode i (·.setZl zl) with count := ulongSub q.count 1 }, false)

/-- `quicklistEntry`: the node, the entry in its ziplist and the offset. -/
structure QuicklistEntry where
  node : Nat
  zi : Option Nat
  offset : Int
  deriving DecidableEq, Repr

/-- The search of `quicklistIndex` in its direction: the node's position, and the elements before it. -/
def findNode (index : Nat) : List QuicklistNode → Nat → Nat → Option (Nat × Nat)
  | [], _, _ => none
  | nd :: rest, accum, pos =>
    if index < accum + nd.count then some (pos, accum)
    else findNode index rest (accum + nd.count) (pos + 1)

/-- The node that `quicklistIndex` finds, and the offset in it. -/
def Quicklist.locate (q : Quicklist) (idx : Int) : Option (Nat × Int) :=
  if idx < 0 then
    let index := (-idx - 1).toNat
    if q.count ≤ index then none
    else (findNode index q.nodes.reverse 0 0).map fun (pos, accum) =>
      (q.nodes.length - 1 - pos, -index - 1 + accum)
  else
    let index := idx.toNat
    if q.count ≤ index then none
    else (findNode index q.nodes 0 0).map fun (pos, accum) => (pos, index - accum)

def quicklistIndex (q : Quicklist) (idx : Int) : Except Fault (Quicklist × Option QuicklistEntry) :=
  match q.locate idx with
  | none => .ok (q, none)
  | some (node, offset) => do
    let q := quicklistDecompressNodeForUse q node
    let zl ← q.readZl node
    .ok (q, some { node, zi := ziplistIndex zl offset, offset })

/-- `ziplistGet` at an entry: nothing for `NULL`. -/
def Quicklist.get (q : Quicklist) (e : QuicklistEntry) : Except Fault (Option Bytes) := do
  let zl ← q.readZl e.node
  .ok (e.zi.bind fun p => zl[p]?.map fun e => e.value.text)

def quicklistReplaceAtIndex (env : QuicklistEnv) (q : Quicklist) (index : Int) (data : Bytes) :
    Except Fault (Quicklist × Bool) := do
  match ← quicklistIndex q index with
  | (q, none) => .ok (q, false)
  | (_, some { zi := none, .. }) => .error .badAccess
  | (q, some { node, zi := some p, .. }) =>
    let zl ← q.readZl node
    let zl ← ziplistDelete zl p 1
    let zl ← ziplistInsert zl p (clip data)
    let q ← quicklistCompress env (q.modifyNode node (·.setZl zl)) node
    .ok (q, true)

/-- `quicklistPopCustom`, with the text of the element that it hands to the caller. -/
def quicklistPopCustom (env : QuicklistEnv) (q : Quicklist) (head : Bool) :
    Except Fault (Quicklist × Option Bytes) :=
  if q.count = 0 ∨ q.nodes = [] then
    .ok (q, none)
  else do
    let zl ← q.readZl (q.endNode head)
    match ziplistIndex zl (if head then 0 else -1) with
    | none => .ok (q, none)
    | some p => do
      let (q, _) ← quicklistDelIndex env q (q.endNode head) p
      .ok (q, zl[p]?.map fun e => e.value.text)

end JitRedis
