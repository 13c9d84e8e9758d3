import JitRedis.Base

/-!
# Radix trees

Model of `raxInsert`, `raxTryInsert`, `raxFind` and `raxRemove` of `src/rax.c`. A node is a tree, and a
link to a node inside a tree is the stack of its parents, each with its other children: this is what
`raxLowWalk` collects in `raxStack`, and writing through `parentlink` is plugging the new node back
into the stack. A node is a key if it carries a value, and the value may be `NULL`.
-/

namespace JitRedis

variable {V : Type}

/-- `RAX_NODE_MAX_SIZE`: the size of a node has 29 bits. -/
def raxNodeMaxSize : Nat := 2 ^ 29 - 1

/-- `raxNode`: a node with one edge for each child, or a compressed one. `key` is `iskey` with the
associated value, which is `none` for `NULL`. -/
inductive RaxNode (V : Type) where
  | branch (key : Option (Option V)) (edges : List (UInt8 × RaxNode V))
  | compr (key : Option (Option V)) (s : Bytes) (child : RaxNode V)

inductive RaxFrame (V : Type) where
  | branch (key : Option (Option V)) (left : List (UInt8 × RaxNode V)) (c : UInt8)
    (right : List (UInt8 × RaxNode V))
  | compr (key : Option (Option V)) (s : Bytes)

structure Rax (V : Type) where
  head : RaxNode V
  numele : Nat
  numnodes : Nat

/-- `n->iskey` with the value. -/
def RaxNode.key : RaxNode V → Option (Option V)
  | .branch key _ => key
  | .compr key _ _ => key

/-- `n->iscompr` -/
def RaxNode.iscompr : RaxNode V → Bool
  | .branch _ _ => false
  | .compr _ _ _ => true

/-- `n->size` -/
def RaxNode.size : RaxNode V → Nat
  | .branch _ edges => edges.length
  | .compr _ s _ => s.length

def RaxNode.setKey (key : Option (Option V)) : RaxNode V → RaxNode V
  | .branch _ edges => .branch key edges
  | .compr _ s child => .compr key s child

def raxSetData (n : RaxNode V) (data : Option V) : RaxNode V := n.setKey (some data)

/-- `raxNewNode(0,0)` -/
def raxNewLeaf : RaxNode V := .branch none []

def raxNew : Rax V := { head := raxNewLeaf, numele := 0, numnodes := 1 }

/-- A node over the bytes `s`: compressed if they are more than one. -/
def RaxNode.ofBytes (key : Option (Option V)) (s : Bytes) (child : RaxNode V) : RaxNode V :=
  match s with
  | [c] => .branch key [(c, child)]
  | s => .compr key s child

/-- The parent of such a node. -/
def RaxFrame.ofBytes (key : Option (Option V)) (s : Bytes) : RaxFrame V :=
  match s with
  | [c] => .branch key [] c []
  | s => .compr key s

def RaxFrame.key : RaxFrame V → Option (Option V)
  | .branch key _ _ _ => key
  | .compr key _ => key

def RaxFrame.plug : RaxFrame V → RaxNode V → RaxNode V
  | .branch key left c right, n => .branch key (left ++ (c, n) :: right)
  | .compr key s, n => .compr key s n

def plug : List (RaxFrame V) → RaxNode V → RaxNode V
  | [], n => n
  | f :: ts, n => plug ts (f.plug n)

/-- How many bytes of the compressed string match the key. -/
def matchLen : Bytes → Bytes → Nat
  | v :: vs, c :: cs => if v = c then matchLen vs cs + 1 else 0
  | _, _ => 0

/-- The first edge for a byte, with the edges around it. -/
def findEdge (c : UInt8) : List (UInt8 × RaxNode V) →
    Option (List (UInt8 × RaxNode V) × RaxNode V × List (UInt8 × RaxNode V))
  | [] => none
  | (d, n) :: es =>
    if d = c then some ([], n, es)
    else (findEdge c es).map fun (left, m, right) => ((d, n) :: left, m, right)

/-- Where a walk stopped: the parents, the node, the bytes left, and the position in a compressed node. -/
structure RaxWalk (V : Type) where
  stack : List (RaxFrame V)
  stop : RaxNode V
  rest : Bytes
  splitpos : Nat

/-- The loop of `raxLowWalk`. Every turn takes at least one byte of the key. -/
def lowWalkLoop : Nat → RaxNode V → Bytes → List (RaxFrame V) → RaxWalk V
  | 0, h, s, ts => ⟨ts, h, s, 0⟩
  | _ + 1, h, [], ts => ⟨ts, h, [], 0⟩
  | turns + 1, h, c :: s, ts =>
    if h.size = 0 then ⟨ts, h, c :: s, 0⟩
    else
      match h with
      | .compr key v child =>
        let j := matchLen v (c :: s)
        if j = v.length then lowWalkLoop turns child ((c :: s).drop j) (.compr key v :: ts)
        else ⟨ts, h, (c :: s).drop j, j⟩
      | .branch key edges =>
        match findEdge c edges with
        | none => ⟨ts, h, c :: s, 0⟩
        | some (left, child, right) => lowWalkLoop turns child s (.branch key left c right :: ts)

def raxLowWalk (rax : Rax V) (s : Bytes) : RaxWalk V := lowWalkLoop s.length rax.head s []

/-- The walk ended on a node that represents the key. -/
def RaxWalk.Exact (w : RaxWalk V) : Prop := w.rest = [] ∧ (w.stop.iscompr = false ∨ w.splitpos = 0)

instance (w : RaxWalk V) : Decidable w.Exact := inferInstanceAs (Decidable (_ ∧ _))

/-- `raxFind`: `none` is `raxNotFound`. -/
def raxFind (rax : Rax V) (s : Bytes) : Option (Option V) :=
  let w := raxLowWalk rax s
  if w.Exact then w.stop.key else none

/-- The edges before and behind the place of a new byte (`raxAddChild`). -/
def edgePlace (c : UInt8) (edges : List (UInt8 × RaxNode V)) :
    List (UInt8 × RaxNode V) × List (UInt8 × RaxNode V) :=
  edges.span fun e => decide (e.1 ≤ c)

/-- The last loop of `raxGenericInsert`: add nodes below `h` for the bytes that are left, and count them. -/
def insertLoop : Nat → List (RaxFrame V) → RaxNode V → Bytes → Nat →
    Except Fault (List (RaxFrame V) × RaxNode V × Nat)
  | _, ts, h, [], added => .ok (ts, h, added)
  | 0, _, _, _ :: _, _ => .error .diverged
  | turns + 1, ts, h, c :: s, added =>
    if h.size = 0 ∧ s ≠ [] then
      let comprsize := min (s.length + 1) raxNodeMaxSize
      insertLoop turns (.compr h.key ((c :: s).take comprsize) :: ts) raxNewLeaf
        ((c :: s).drop comprsize) (added + 1)
    else
      match h with
      | .compr _ _ _ => .error .assertFailed
      | .branch key edges =>
        let (left, right) := edgePlace c edges
        insertLoop turns (.branch key left c right :: ts) raxNewLeaf s (added + 1)

/-- Algorithm 1 of `raxGenericInsert`: split a compressed node at a byte that differs. -/
def splitMismatch (ts : List (RaxFrame V)) (key : Option (Option V)) (v : Bytes) (next : RaxNode V)
    (j : Nat) : Except Fault (List (RaxFrame V) × RaxNode V × Nat) :=
  match v.drop j with
  | [] => .error .badAccess
  | c :: s =>
    let postfixNode := if s = [] then next else .ofBytes none s next
    let postfixAdded := if s = [] then 0 else 1
    if j = 0 then .ok (ts, .branch key [(c, postfixNode)], postfixAdded)
    else .ok (.ofBytes key (v.take j) :: ts, .branch none [(c, postfixNode)], postfixAdded + 1)

/-- Algorithm 2 of `raxGenericInsert`: split a compressed node where the key ends. -/
def splitInside (key : Option (Option V)) (v : Bytes) (next : RaxNode V) (j : Nat) (data : Option V) :
    RaxNode V :=
  .ofBytes key (v.take j) (.ofBytes (some data) (v.drop j) next)

/-- Where new nodes are to be added: at the node where the walk stopped, split if it is compressed. -/
def splitStop (w : RaxWalk V) : Except Fault (List (RaxFrame V) × RaxNode V × Nat) :=
  match w.stop with
  | .compr key v next => splitMismatch w.stack key v next w.splitpos
  | .branch key edges => .ok (w.stack, .branch key edges, 0)

/-- Insert a key of which bytes are left after the walk. -/
def insertBelow (rax : Rax V) (w : RaxWalk V) (data : Option V) : Except Fault (Rax V) := do
  let (ts, h, added) ← splitStop w
  let (ts, h, added) ← insertLoop w.rest.length ts h w.rest added
  let numele := if h.key.isNone then rax.numele + 1 else rax.numele
  .ok { head := plug ts (raxSetData h data), numele, numnodes := rax.numnodes + added }

/-- `raxGenericInsert`: the tree, whether the key is new, and the old value of a key that was there. -/
def raxGenericInsert (rax : Rax V) (s : Bytes) (data : Option V) (overwrite : Bool) :
    Except Fault (Rax V × Bool × Option (Option V)) :=
  let w := raxLowWalk rax s
  if w.Exact then
    match w.stop.key with
    | some old =>
      let h := if overwrite then raxSetData w.stop data else w.stop
      .ok ({ rax with head := plug w.stack h }, false, some old)
    | none =>
      .ok ({ rax with head := plug w.stack (raxSetData w.stop data), numele := rax.numele + 1 },
        true, none)
  else
    match w.stop, w.rest with
    | .compr key v next, [] =>
      .ok ({ head := plug w.stack (splitInside key v next w.splitpos data)
             numele := rax.numele + 1
             numnodes := rax.numnodes + 1 }, true, none)
    | _, _ => do
      let rax ← insertBelow rax w data
      .ok (rax, true, none)

/-- A node that may be part of a chain: no key and a single child. The bytes, and the child. -/
def RaxNode.link : RaxNode V → Option (Bytes × RaxNode V)
  | .compr none s child => some (s, child)
  | .branch none [(c, child)] => some ([c], child)
  | _ => none

/-- A parent that, with its child, is part of a chain. -/
def RaxFrame.isLink : RaxFrame V → Bool
  | .branch key left _ right => key.isNone && left.isEmpty && right.isEmpty
  | .compr key _ => key.isNone

def raxRemoveChild : RaxFrame V → RaxNode V
  | .branch key left _ right => .branch key (left ++ right)
  | .compr key _ => .branch key []

/-- The loop of `raxRemove` that frees nodes upward, to the node where it stops, and counts them. -/
def cleanupLoop (f : RaxFrame V) : List (RaxFrame V) → Nat → List (RaxFrame V) × RaxNode V × Nat
  | [], freed => ([], raxRemoveChild f, freed + 1)
  | g :: ts, freed =>
    if f.isLink then cleanupLoop g ts (freed + 1) else (g :: ts, raxRemoveChild f, freed + 1)

/-- Seek the topmost node from which a chain leads to `h`. -/
def seekStart : List (RaxFrame V) → RaxNode V → List (RaxFrame V) × RaxNode V
  | [], h => ([], h)
  | f :: ts, h => if f.isLink then seekStart ts (f.plug h) else (f :: ts, h)

/-- Scan the chain behind the start node: bytes, nodes, and whether the limit on node sizes stopped it. -/
def chainCount : RaxNode V → Nat → Nat → Nat × Nat × Bool
  | .compr none s child, comprsize, nodes =>
    if raxNodeMaxSize < comprsize + s.length then (comprsize, nodes, true)
    else chainCount child (comprsize + s.length) (nodes + 1)
  | .branch none [(_, child)], comprsize, nodes =>
    if raxNodeMaxSize < comprsize + 1 then (comprsize, nodes, true)
    else chainCount child (comprsize + 1) (nodes + 1)
  | _, comprsize, nodes => (comprsize, nodes, false)

/-- The second scan of the chain, which copies it: the bytes, the first node that is still needed, and
how many nodes were freed. Unlike the first it looks at no limit. -/
def chainCopy : RaxNode V → Bytes × RaxNode V × Nat
  | .compr none s child =>
    let (t, next, freed) := chainCopy child
    (s ++ t, next, freed + 1)
  | .branch none [(c, child)] =>
    let (t, next, freed) := chainCopy child
    (c :: t, next, freed + 1)
  | n => ([], n, 0)

def raxPadding (nodesize : Nat) : Nat := (8 - (nodesize + 4) % 8) % 8

/-- Recompress the chain that starts at a node. The new node has room for the bytes counted, padding and
one pointer; the copy may write that far, and the pointer is then written over what is past the
bytes. -/
def recompressChain (start : RaxNode V) : Except Fault (RaxNode V × Nat × Nat) :=
  match start.link with
  | none => .ok (start, 0, 0)
  | some (s, child) =>
    let (comprsize, nodes, _) := chainCount child s.length 1
    if 1 < nodes then
      let (t, next, freed) := chainCopy start
      if comprsize + raxPadding comprsize + 8 < t.length then .error .overflow
      else .ok (.compr none (t.take comprsize) next, 1, freed)
    else
      .ok (start, 0, 0)

/-- What `raxRemove` does before it recompresses; the flag is `trycompress`. -/
def unlinkNode (ts : List (RaxFrame V)) (h : RaxNode V) : List (RaxFrame V) × RaxNode V × Nat × Bool :=
  if h.size = 0 then
    match ts with
    | [] => ([], h, 0, false)
    | f :: ts =>
      let (ts, new, freed) := cleanupLoop f ts 0
      (ts, new, freed, new.size = 1 && new.key.isNone)
  else
    (ts, h, 0, h.size = 1)

/-- `raxRemove`: the tree, whether the key was there, and its value. -/
def raxRemove (rax : Rax V) (s : Bytes) : Except Fault (Rax V × Bool × Option (Option V)) :=
  let w := raxLowWalk rax s
  match if w.Exact then w.stop.key else none with
  | none => .ok (rax, false, none)
  | some old => do
    let (ts, h, freed, trycompress) := unlinkNode w.stack (w.stop.setKey none)
    let numele := rax.numele - 1
    let numnodes := rax.numnodes - freed
    if trycompress then do
      let (ts, start) := seekStart ts h
      let (new, added, freed) ← recompressChain start
      .ok ({ head := plug ts new, numele, numnodes := numnodes + added - freed }, true, some old)
    else
      .ok ({ head := plug ts h, numele, numnodes }, true, some old)

end JitRedis
