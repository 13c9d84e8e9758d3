import JitRedis.Base

/-!
# The incrementally rehashed hash table

Model of `src/dict.c`: two chained tables, a rehash index and the operations that add, find, delete
and move entries. A table is the list of its buckets (`NULL` is the empty list) and a bucket is the
list of its chained entries, head first; a pointer to an entry is its table, bucket and position
(`DictEntryRef`). Counters are naturals: every quantity they count is bounded by the allocator, which
aborts the process (`Fault.oom`) when the bytes asked for no longer fit the address space. The number
of bytes itself is an `unsigned long` and wraps, so that a table may be allocated with fewer buckets
than its `size`; reading a bucket outside the allocation is `Fault.badAccess`.

Keys are compared by value (`keyCompare`), the hash function is arbitrary, and `keyDup`/`valDup` are
the identity.
-/

namespace JitRedis

variable {K V : Type}

/-- A chained entry. `val` is `none` until the caller of `dictAddRaw` has set the value. -/
structure DictEntry (K V : Type) where
  key : K
  val : Option V
  deriving DecidableEq, Repr

/-- One hash table (`dictht`). -/
structure Dictht (K V : Type) where
  table : List (List (DictEntry K V))
  size : Nat
  sizemask : Nat
  used : Nat
  deriving DecidableEq, Repr

/-- `dict`: the tables, the rehash index (`-1` when idle) and the number of safe iterators. -/
structure Dict (K V : Type) where
  ht0 : Dictht K V
  ht1 : Dictht K V
  rehashidx : Int
  iterators : Nat
  deriving DecidableEq, Repr

/-- A `dictEntry *`. -/
structure DictEntryRef where
  second : Bool
  idx : Nat
  pos : Nat
  deriving DecidableEq, Repr

def dictHtInitialSize : Nat := 4

def dictForceResizeRatio : Nat := 5

/-- `LONG_MAX` of a 64 bit system -/
def longMax : Nat := 2 ^ 63 - 1

/-- The half of the 64 bit address space that the allocations of a process share. -/
def addressSpace : Nat := 2 ^ 63

def dictReset : Dictht K V :=
  { table := [], size := 0, sizemask := 0, used := 0 }

def dictCreate : Dict K V :=
  { ht0 := dictReset, ht1 := dictReset, rehashidx := -1, iterators := 0 }

/-- `dictIsRehashing` -/
def Dict.isRehashing (d : Dict K V) : Prop := d.rehashidx ≠ -1

instance (d : Dict K V) : Decidable d.isRehashing :=
  inferInstanceAs (Decidable (d.rehashidx ≠ -1))

def Dict.dictSize (d : Dict K V) : Nat := d.ht0.used + d.ht1.used

def Dict.ht (d : Dict K V) (second : Bool) : Dictht K V := if second then d.ht1 else d.ht0

def Dict.setHt (d : Dict K V) (second : Bool) (t : Dictht K V) : Dict K V :=
  if second then { d with ht1 := t } else { d with ht0 := t }

def Dict.deref (d : Dict K V) (r : DictEntryRef) : Option (DictEntry K V) :=
  ((d.ht r.second).table[r.idx]?).bind fun b => b[r.pos]?

/-- The loop of `_dictNextPower`. `fuel` bounds the doublings; 64 of them leave 64 bits. -/
def nextPowerFrom (size : Nat) : Nat → Nat → Nat
  | 0, i => i
  | fuel + 1, i => if size ≤ i then i else nextPowerFrom size fuel (i * 2)

def dictNextPower (size : Nat) : Nat :=
  if longMax ≤ size then longMax + 1 else nextPowerFrom size 64 dictHtInitialSize

/-- The bytes that `zcalloc(realsize*sizeof(dictEntry*))` allocates; the product wraps. -/
def dictTableBytes (realsize : Nat) : Nat := realsize * 8 % 2 ^ 64

/-- `dictExpand`; the flag is `true` for `DICT_OK`. -/
def dictExpand (d : Dict K V) (size : Nat) : Except Fault (Dict K V × Bool) :=
  if d.isRehashing ∨ size < d.ht0.used then
    .ok (d, false)
  else
    let realsize := dictNextPower size
    if realsize = d.ht0.size then
      .ok (d, false)
    else if addressSpace ≤ dictTableBytes realsize then
      .error .oom
    else
      let n : Dictht K V :=
        { table := List.replicate (dictTableBytes realsize / 8) []
          size := realsize
          sizemask := realsize - 1
          used := 0 }
      -- `d->ht[0].table == NULL`: only a reset table has no allocation, and only it has size 0.
      if d.ht0.size = 0 then
        .ok ({ d with ht0 := n }, true)
      else
        .ok ({ d with ht1 := n, rehashidx := 0 }, true)

/-- `dictResize`. The number of entries passes through the `int` variable `minimal`. -/
def dictResize (canResize : Bool) (d : Dict K V) : Except Fault (Dict K V × Bool) :=
  if canResize = false ∨ d.isRehashing then
    .ok (d, false)
  else
    let minimal := Int.bmod d.ht0.used (2 ^ 32)
    let minimal := if minimal < dictHtInitialSize then (dictHtInitialSize : Int) else minimal
    dictExpand d minimal.toNat

/-- The bucket of a key: `dictHashKey(d, key) & sizemask`. -/
def Dictht.slot (hash : K → BitVec 64) (t : Dictht K V) (key : K) : Nat :=
  (hash key).toNat &&& t.sizemask

/-- Chain an entry in front of a bucket. -/
def Dictht.push (t : Dictht K V) (idx : Nat) (e : DictEntry K V) : Except Fault (Dictht K V) :=
  if idx < t.table.length then
    .ok { t with table := t.table.modify idx (e :: ·), used := t.used + 1 }
  else
    .error .badAccess

/-- How the search for a non empty bucket of `dictRehash` ends. -/
inductive DictSkip (K V : Type) where
  /-- `empty_visits` ran out: the caller returns at once. -/
  | exhausted (idx : Nat)
  /-- A non empty bucket, with the visits that are left. -/
  | found (idx : Nat) (bucket : List (DictEntry K V)) (visits : Int)

/-- The inner loop of `dictRehash`, which skips empty buckets from `rehashidx` on. -/
def skipEmptyBuckets : List (List (DictEntry K V)) → Nat → Int → Except Fault (DictSkip K V)
  | [], _, _ => .error .badAccess
  | [] :: rest, idx, visits =>
    if visits - 1 = 0 then .ok (.exhausted (idx + 1))
    else skipEmptyBuckets rest (idx + 1) (visits - 1)
  | (e :: b) :: _, idx, visits => .ok (.found idx (e :: b) visits)

/-- Move all the keys of a bucket from `ht[0]` to the front of their buckets in `ht[1]`. -/
def moveEntries (hash : K → BitVec 64) : List (DictEntry K V) → Dict K V → Except Fault (Dict K V)
  | [], d => .ok d
  | e :: rest, d => do
    let t ← d.ht1.push (d.ht1.slot hash e.key) e
    moveEntries hash rest { d with ht0 := { d.ht0 with used := d.ht0.used - 1 }, ht1 := t }

/-- The main loop of `dictRehash`; the flag tells the early `return 1`. Every turn moves an entry. -/
def rehashLoop (hash : K → BitVec 64) :
    Nat → Int → Int → Dict K V → Except Fault (Dict K V × Bool)
  | 0, _, _, _ => .error .diverged
  | fuel + 1, n, visits, d =>
    if n = 0 ∨ d.ht0.used = 0 then
      .ok (d, false)
    else if ¬ d.rehashidx < d.ht0.size then
      .error .assertFailed
    else do
      match ← skipEmptyBuckets (d.ht0.table.drop d.rehashidx.toNat) d.rehashidx.toNat visits with
      | .exhausted idx => .ok ({ d with rehashidx := idx }, true)
      | .found idx bucket visits =>
        let d ← moveEntries hash bucket d
        rehashLoop hash fuel (n - 1) visits
          { d with
            ht0 := { d.ht0 with table := d.ht0.table.set idx [] }
            rehashidx := idx + 1 }

/-- `dictRehash`; the flag is `true` when there is more to move. -/
def dictRehash (hash : K → BitVec 64) (d : Dict K V) (n : Int) : Except Fault (Dict K V × Bool) :=
  if ¬ d.isRehashing then
    .ok (d, false)
  else do
    let (d, early) ← rehashLoop hash (d.ht0.used + 1) n (Int.bmod (n * 10) (2 ^ 32)) d
    if early then
      .ok (d, true)
    else if d.ht0.used = 0 then
      .ok ({ d with ht0 := d.ht1, ht1 := dictReset, rehashidx := -1 }, false)
    else
      .ok (d, true)

/-- `if (dictIsRehashing(d)) _dictRehashStep(d)`: one step, unless safe iterators are running. -/
def dictRehashStep (hash : K → BitVec 64) (d : Dict K V) : Except Fault (Dict K V) :=
  if d.isRehashing ∧ d.iterators = 0 then do
    let (d, _) ← dictRehash hash d 1
    .ok d
  else
    .ok d

section Keys

variable [DecidableEq K]

/-- Walk the chain of the key's bucket in one table. -/
def Dictht.search (hash : K → BitVec 64) (t : Dictht K V) (key : K) :
    Except Fault (Option (Nat × Nat)) :=
  match t.table[t.slot hash key]? with
  | none => .error .badAccess
  | some b => .ok ((b.findIdx? fun e => e.key = key).map fun pos => (t.slot hash key, pos))

/-- The loop over both tables that searches share: the second table is only consulted while rehashing. -/
def Dict.search (hash : K → BitVec 64) (d : Dict K V) (key : K) :
    Except Fault (Option DictEntryRef) := do
  match ← d.ht0.search hash key with
  | some (idx, pos) => .ok (some { second := false, idx, pos })
  | none =>
    if ¬ d.isRehashing then
      .ok none
    else
      match ← d.ht1.search hash key with
      | some (idx, pos) => .ok (some { second := true, idx, pos })
      | none => .ok none

def dictFind (hash : K → BitVec 64) (d : Dict K V) (key : K) :
    Except Fault (Dict K V × Option DictEntryRef) :=
  if d.dictSize = 0 then
    .ok (d, none)
  else do
    let d ← dictRehashStep hash d
    let r ← d.search hash key
    .ok (d, r)

def dictExpandIfNeeded (canResize : Bool) (d : Dict K V) : Except Fault (Dict K V × Bool) :=
  if d.isRehashing then
    .ok (d, true)
  else if d.ht0.size = 0 then
    dictExpand d dictHtInitialSize
  else if d.ht0.size ≤ d.ht0.used ∧
      (canResize = true ∨ dictForceResizeRatio < d.ht0.used / d.ht0.size) then
    dictExpand d (d.ht0.used * 2)
  else
    .ok (d, true)

/-- What `_dictKeyIndex` finds: a free slot, or `-1` with the existing entry, if any. -/
inductive DictKeyIndex where
  | free (idx : Nat)
  | taken (existing : Option DictEntryRef)
  deriving DecidableEq, Repr

def dictKeyIndex (canResize : Bool) (hash : K → BitVec 64) (d : Dict K V) (key : K) :
    Except Fault (Dict K V × DictKeyIndex) := do
  let (d, ok) ← dictExpandIfNeeded canResize d
  if ok = false then
    .ok (d, .taken none)
  else
    match ← d.search hash key with
    | some r => .ok (d, .taken (some r))
    | none => .ok (d, .free ((d.ht (decide d.isRehashing)).slot hash key))

/-- `dictAddRaw`: the new entry, or `NULL` together with the existing entry. -/
def dictAddRaw (canResize : Bool) (hash : K → BitVec 64) (d : Dict K V) (key : K) :
    Except Fault (Dict K V × Except (Option DictEntryRef) DictEntryRef) := do
  let d ← dictRehashStep hash d
  match ← dictKeyIndex canResize hash d key with
  | (d, .taken existing) => .ok (d, .error existing)
  | (d, .free index) =>
    let second := decide d.isRehashing
    if addressSpace ≤ (d.dictSize + 1) * 24 then
      .error .oom
    else do
      let t ← (d.ht second).push index { key, val := none }
      .ok (d.setHt second t, .ok { second, idx := index, pos := 0 })

def dictSetVal (d : Dict K V) (r : DictEntryRef) (val : V) : Dict K V :=
  let t := d.ht r.second
  d.setHt r.second
    { t with table := t.table.modify r.idx fun b => b.modify r.pos fun e => { e with val := some val } }

/-- `dictAdd`; the flag is `true` for `DICT_OK`. -/
def dictAdd (canResize : Bool) (hash : K → BitVec 64) (d : Dict K V) (key : K) (val : V) :
    Except Fault (Dict K V × Bool) := do
  match ← dictAddRaw canResize hash d key with
  | (d, .ok entry) => .ok (dictSetVal d entry val, true)
  | (d, .error _) => .ok (d, false)

/-- `dictReplace`; the flag is `true` when the key was added from scratch. -/
def dictReplace (canResize : Bool) (hash : K → BitVec 64) (d : Dict K V) (key : K) (val : V) :
    Except Fault (Dict K V × Bool) := do
  match ← dictAddRaw canResize hash d key with
  | (d, .ok entry) => .ok (dictSetVal d entry val, true)
  | (d, .error (some existing)) => .ok (dictSetVal d existing val, false)
  | (_, .error none) => .error .badAccess

/-- `dictGenericDelete`: unlink the entry of a key and return it. -/
def dictGenericDelete (hash : K → BitVec 64) (d : Dict K V) (key : K) :
    Except Fault (Dict K V × Option (DictEntry K V)) :=
  if d.ht0.used = 0 ∧ d.ht1.used = 0 then
    .ok (d, none)
  else do
    let d ← dictRehashStep hash d
    match ← d.search hash key with
    | none => .ok (d, none)
    | some r =>
      let t := d.ht r.second
      .ok (d.setHt r.second
        { t with table := t.table.modify r.idx (·.eraseIdx r.pos), used := t.used - 1 }, d.deref r)

/-- `dictDelete`; the flag is `true` for `DICT_OK`. -/
def dictDelete (hash : K → BitVec 64) (d : Dict K V) (key : K) : Except Fault (Dict K V × Bool) := do
  let (d, he) ← dictGenericDelete hash d key
  .ok (d, he.isSome)

def dictUnlink (hash : K → BitVec 64) (d : Dict K V) (key : K) :
    Except Fault (Dict K V × Option (DictEntry K V)) :=
  dictGenericDelete hash d key

end Keys

/-- The registration that the first `dictNext` on a safe iterator makes. -/
def safeIteratorOpen (d : Dict K V) : Dict K V :=
  { d with iterators := (d.iterators + 1) % 2 ^ 64 }

/-- `dictReleaseIterator` of a registered safe iterator. -/
def safeIteratorClose (d : Dict K V) : Dict K V :=
  { d with iterators := (d.iterators + (2 ^ 64 - 1)) % 2 ^ 64 }

end JitRedis
