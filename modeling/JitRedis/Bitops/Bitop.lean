import JitRedis.Bitops.Model

/-!
# `BITOP` against its bytewise definition

The command combines the prefix that all sources have by blocks of four words, in a copy of the first source, and the
rest byte by byte. A part of the loop is described by the positions that it is done with and by what it makes of the
byte at one position (`Over`), which is how the words, the sources, the blocks and the two loops are put together.
-/

namespace JitRedis.Bitops

open Fallible List LittleEndian

/-- `BITOP_*` -/
inductive BitopOp where
  | and
  | or
  | xor
  | not
  deriving DecidableEq

/-- The operation that `opname` names. -/
def bitopOp (opname : Bytes) : Option BitopOp :=
  if strcaseeq opname "and" then some .and
  else if strcaseeq opname "or" then some .or
  else if strcaseeq opname "xor" then some .xor
  else if strcaseeq opname "not" then some .not
  else none

/-- Look a key up; a missing one is `NULL`. -/
def bitopSource (db : Db) (key : Bytes) : Except Reply (Option Bytes) :=
  match db key with
  | none => .ok none
  | some .other => .error wrongtypeerr
  | some (.string s) => .ok (some s)

def bitopSources (db : Db) (keys : List Bytes) : Except Reply (List (Option Bytes)) := keys.mapM (bitopSource db)

/-- `maxlen` and `minlen`, from the `j`-th key on. -/
def bitopLengths : List (Option Bytes) → Nat → Nat → Nat → Nat × Nat
  | [], _, maxlen, minlen => (maxlen, minlen)
  | none :: src, j, maxlen, _ => bitopLengths src (j + 1) maxlen 0
  | some s :: src, j, maxlen, minlen =>
    bitopLengths src (j + 1) (if s.length > maxlen then s.length else maxlen)
      (if j = 0 ∨ s.length < minlen then s.length else minlen)

/-- An assignment to each of the four words of `lres`; `f` has the position and the word. -/
def fourWords (f : Nat → Nat → Except Fault Nat) (j : Nat) (res : Bytes) : Except Fault Bytes :=
  [0, 8, 16, 24].foldlM (fun res k => do
    let lres ← numberAt res (j + k) 8
    let word ← f (j + k) lres
    putNumber res (j + k) 8 word) res

/-- `lres[k] &= lp[i][k]`, and the like. -/
def wordWith (op : Nat → Nat → Nat) (src : Bytes) (p lres : Nat) : Except Fault Nat := do
  let lp ← numberAt src p 8
  .ok (op lres lp)

def fastBlock (src : List Bytes) (j : Nat) (res : Bytes) : BitopOp → Except Fault Bytes
  | .and => src.foldlM (fun res s => fourWords (wordWith (· &&& ·) s) j res) res
  | .or => src.foldlM (fun res s => fourWords (wordWith (· ||| ·) s) j res) res
  | .xor => src.foldlM (fun res s => fourWords (wordWith (· ^^^ ·) s) j res) res
  -- the complement of a word of 64 bits
  | .not => fourWords (fun _ lres => .ok (lres ^^^ (2 ^ 64 - 1))) j res

/-- The loop of the fast path, by the number of its turns. -/
def fastLoop (op : BitopOp) (src : List Bytes) : Nat → Nat → Bytes → Except Fault Bytes
  | 0, _, res => .ok res
  | n + 1, j, res => do
    let res ← fastBlock src j res op
    fastLoop op src n (j + 32) res

/-- `switch(op)` in the bytewise loop. -/
def outputWith (output byte : UInt8) : BitopOp → UInt8
  | .and => output &&& byte
  | .or => output ||| byte
  | .xor => output ^^^ byte
  | .not => output

/-- `output` for the byte `j`; a source that has ended has zeros. -/
def bitopOutput (op : BitopOp) (src₀ : Bytes) (src : List Bytes) (j : Nat) : UInt8 :=
  let output := src₀.getD j 0
  let output := if op = .not then ~~~output else output
  src.foldl (fun output s => outputWith output (s.getD j 0) op) output

/-- The bytewise loop, by the number of bytes that are left. -/
def slowLoop (op : BitopOp) (src₀ : Bytes) (src : List Bytes) : Nat → Nat → Bytes → Except Fault Bytes
  | 0, _, res => .ok res
  | n + 1, j, res => do
    let res ← Memory.store Fault.overflow res j [bitopOutput op src₀ src j]
    slowLoop op src₀ src n (j + 1) res

/-- The string `res`, for sources that are not all empty. -/
def bitopRes (op : BitopOp) (src₀ : Bytes) (src : List Bytes) (maxlen minlen : Nat) : Except Fault Bytes := do
  let res := replicate maxlen 0
  if minlen ≥ 32 ∧ src.length + 1 ≤ 16 then do
    let copy ← Memory.load Fault.badAccess src₀ 0 minlen
    let res ← Memory.store Fault.overflow res 0 copy
    let j := minlen / 32 * 32
    let res ← fastLoop op src (minlen / 32) 0 res
    slowLoop op src₀ src (maxlen - j) j res
  else slowLoop op src₀ src maxlen 0 res

def bitopCommand (db : Db) (opname targetkey key : Bytes) (keys : List Bytes) : Except Fault (Db × Reply) :=
  match bitopOp opname with
  | none => .ok (db, syntaxerr)
  | some op =>
    if op = .not ∧ keys.length + 4 ≠ 4 then
      .ok (db, addReplyError "BITOP NOT must be called with a single source key.")
    else
      match bitopSources db (key :: keys) with
      | .error reply => .ok (db, reply)
      | .ok objects => do
        let (maxlen, minlen) := bitopLengths objects 0 0 0
        let src := objects.map (·.getD [])
        if maxlen ≠ 0 then do
          let res ← bitopRes op (src.headD []) src.tail maxlen minlen
          .ok (Function.update db targetkey (some (.string res)), [.longLong maxlen])
        else .ok (Function.update db targetkey none, [.longLong maxlen])

/-! ## The bytewise definition -/

/-- What a key has as a source; a missing key is the empty string. -/
def sourceOf (db : Db) (key : Bytes) : Bytes :=
  match db key with
  | some (.string s) => s
  | _ => []

/-- The operation on one byte of each source; `NOT` has one source. -/
def bytewise : BitopOp → List UInt8 → UInt8
  | .and, bytes => bytes.foldl (· &&& ·) 255
  | .or, bytes => bytes.foldl (· ||| ·) 0
  | .xor, bytes => bytes.foldl (· ^^^ ·) 0
  | .not, bytes => ~~~bytes.headD 0

def longest (src : List Bytes) : Nat := (src.map length).foldr max 0

/-- The string that the operation is defined to give. -/
def bitopResult (op : BitopOp) (src : List Bytes) : Bytes :=
  (range (longest src)).map fun i => bytewise op (src.map (·.getD i 0))

/-! ## Words and bytes -/

/-- `m'` is `m` with `f` applied to the bytes from `lo` up to `hi`. -/
def Over (lo hi : Nat) (f : Nat → UInt8 → UInt8) (m m' : Bytes) : Prop :=
  m'.length = m.length ∧ ∀ i, m'[i]? = if lo ≤ i ∧ i < hi then m[i]?.map (f i) else m[i]?

variable {lo mid hi p j n maxlen minlen : Nat} {f g : Nat → UInt8 → UInt8} {m m₁ m₂ res s src₀ : Bytes} {op : BitopOp}
  {src : List Bytes} {word : Nat → Nat → Nat} {byte : UInt8 → UInt8 → UInt8}

lemma Over.refl : Over lo lo f m m := ⟨rfl, fun i => by rw [if_neg (by omega)]⟩

lemma Over.append (h₁ : Over lo mid f m m₁) (h₂ : Over mid hi f m₁ m₂) (hlo : lo ≤ mid) (hhi : mid ≤ hi) :
    Over lo hi f m m₂ := by
  refine ⟨h₂.1.trans h₁.1, fun i => ?_⟩
  rw [h₂.2, h₁.2]
  split_ifs <;> first | rfl | omega

lemma Over.comp (h₁ : Over lo hi f m m₁) (h₂ : Over lo hi g m₁ m₂) :
    Over lo hi (fun i b => g i (f i b)) m m₂ := by
  refine ⟨h₂.1.trans h₁.1, fun i => ?_⟩
  rw [h₂.2, h₁.2]
  split_ifs
  · rw [Option.map_map, Function.comp_def]
  · rfl

lemma over_store {e : Fault} {x : Bytes} (hp : p + x.length ≤ m.length)
    (hx : ∀ i, p ≤ i → i < p + x.length → x[i - p]? = m[i]?.map (f i)) :
    ∃ m', Memory.store e m p x = .ok m' ∧ Over p (p + x.length) f m m' := by
  refine ⟨_, if_pos hp, ?_, fun i => ?_⟩
  · simp only [length_append, length_take, length_drop]
    omega
  · rw [getElem?_append, getElem?_append, length_take, Nat.min_eq_left (by omega), getElem?_take, getElem?_drop]
    split_ifs <;> first | omega | rfl | skip
    · exact hx i (by omega) (by omega)
    · congr 1
      omega

/-- An operation on numbers that works on each of their bytes. -/
structure Bytewise (word : Nat → Nat → Nat) (byte : UInt8 → UInt8 → UInt8) : Prop where
  low : ∀ x y, UInt8.ofNat (word x y) = byte (UInt8.ofNat x) (UInt8.ofNat y)
  high : ∀ x y, word x y / 256 = word (x / 256) (y / 256)

lemma bytewise_and : Bytewise (· &&& ·) (· &&& ·) := ⟨UInt8.ofNat_and, fun _ _ => Nat.and_div_two_pow (n := 8)⟩

lemma bytewise_or : Bytewise (· ||| ·) (· ||| ·) := ⟨UInt8.ofNat_or, fun _ _ => Nat.or_div_two_pow (n := 8)⟩

lemma bytewise_xor : Bytewise (· ^^^ ·) (· ^^^ ·) := ⟨UInt8.ofNat_xor, fun _ _ => Nat.xor_div_two_pow (n := 8)⟩

lemma decode_cons_low (b : UInt8) (bs : Bytes) : UInt8.ofNat (decode (b :: bs)) = b := by
  apply UInt8.toNat.inj
  rw [UInt8.toNat_ofNat', decode, Nat.add_mul_mod_self_left, Nat.mod_eq_of_lt b.toNat_lt]

lemma decode_cons_high (b : UInt8) (bs : Bytes) : decode (b :: bs) / 256 = decode bs := by
  have hb := b.toNat_lt
  rw [decode]
  omega

lemma Bytewise.encode_eq (h : Bytewise word byte) {as bs : Bytes} (hlen : as.length = bs.length) :
    encode as.length (word (decode as) (decode bs)) = zipWith byte as bs := by
  induction as generalizing bs with
  | nil => rfl
  | cons a as ih =>
    obtain _ | ⟨b, bs⟩ := bs
    · cases hlen
    · rw [length_cons, encode, h.low, decode_cons_low, decode_cons_low, h.high, decode_cons_high, decode_cons_high,
        ih (Nat.succ.inj hlen), zipWith_cons_cons]

lemma over_word {g : Nat → Nat → Except Fault Nat} (h : Bytewise word byte) {b : Bytes} (hb : b.length = 8)
    (hg : ∀ a, g p a = .ok (word a (decode b))) (hp : p + 8 ≤ m.length)
    (hf : ∀ i a, p ≤ i → i < p + 8 → f i a = byte a (b.getD (i - p) 0)) :
    ∃ m', (do
      let lres ← numberAt m p 8
      let w ← g p lres
      putNumber m p 8 w) = .ok m' ∧ Over p (p + 8) f m m' := by
  have hlen : ((m.drop p).take 8).length = 8 := by
    rw [length_take, length_drop]
    omega
  have henc := h.encode_eq (hlen.trans hb.symm)
  rw [hlen] at henc
  have hzip : (zipWith byte ((m.drop p).take 8) b).length = 8 := by rw [length_zipWith, hlen, hb, Nat.min_self]
  rw [numberAt, Memory.load, if_pos hp, ok_bind, ok_bind, hg, ok_bind, putNumber, henc]
  have hstore := over_store (e := Fault.overflow) (f := f) (m := m) (p := p) (by rw [hzip]; exact hp)
    fun i h₁ h₂ => by
      rw [hzip] at h₂
      have hi : i - p < 8 := by omega
      rw [getElem?_zipWith, getElem?_take_of_lt hi, getElem?_drop, Nat.add_sub_cancel' h₁,
        getElem?_eq_getElem (by omega : i < m.length), Option.map_some,
        hf i _ h₁ h₂, getD_eq_getElem?_getD, getElem?_eq_getElem (hb.symm ▸ hi), Option.getD_some]
  rwa [hzip] at hstore

lemma over_fourWords {g : Nat → Nat → Except Fault Nat} (h : Bytewise word byte) (b : Nat → Bytes)
    (hb : ∀ p, p + 8 ≤ j + 32 → (b p).length = 8)
    (hg : ∀ p a, p + 8 ≤ j + 32 → g p a = .ok (word a (decode (b p)))) (hj : j + 32 ≤ res.length)
    (hf : ∀ p i a, p + 8 ≤ j + 32 → p ≤ i → i < p + 8 → f i a = byte a ((b p).getD (i - p) 0)) :
    ∃ res', fourWords g j res = .ok res' ∧ Over j (j + 32) f res res' := by
  have turn {k : Nat} {m : Bytes} (hk : k ≤ 24) (hm : m.length = res.length) :=
    over_word (p := j + k) (m := m) (f := f) h (hb _ (by omega)) (fun a => hg _ a (by omega)) (by omega)
      fun i a => hf _ i a (by omega)
  obtain ⟨m₁, h₁, o₁⟩ := turn (k := 0) (by omega) rfl
  obtain ⟨m₂, h₂, o₂⟩ := turn (k := 8) (by omega) o₁.1
  obtain ⟨m₃, h₃, o₃⟩ := turn (k := 16) (by omega) (o₂.1.trans o₁.1)
  obtain ⟨m₄, h₄, o₄⟩ := turn (k := 24) (by omega) (o₃.1.trans (o₂.1.trans o₁.1))
  refine ⟨m₄, ?_, ((o₁.append o₂ (by omega) (by omega)).append o₃ (by omega) (by omega)).append o₄ (by omega) (by omega)⟩
  simp only [fourWords, foldlM_cons, foldlM_nil, h₁, h₂, h₃, h₄, ok_bind]
  rfl

/-! ## The two loops -/

/-- What a turn of the fast path makes of a byte of the first source. -/
def combine (op : BitopOp) (src : List Bytes) (i : Nat) (b : UInt8) : UInt8 :=
  src.foldl (fun output s => outputWith output (s.getD i 0) op) (if op = .not then ~~~b else b)

lemma over_sources (h : Bytewise word byte) (hj : j + 32 ≤ res.length) (hsrc : ∀ s ∈ src, j + 32 ≤ s.length) :
    ∃ res', src.foldlM (fun res s => fourWords (wordWith word s) j res) res = .ok res' ∧
      Over j (j + 32) (fun i b => src.foldl (fun output s => byte output (s.getD i 0)) b) res res' := by
  induction src generalizing res with
  | nil => exact ⟨res, rfl, rfl, fun i => by simp⟩
  | cons s src ih =>
    have hs := hsrc s (mem_cons_self ..)
    obtain ⟨m, hm, o⟩ := over_fourWords (f := fun i b => byte b (s.getD i 0)) h (fun p => (s.drop p).take 8)
      (fun p hp => by rw [length_take, length_drop]; omega)
      (g := wordWith word s) (fun p a hp => by rw [wordWith, numberAt, Memory.load, if_pos (by omega)]; rfl) hj
      fun p i a _ h₁ h₂ => by
        rw [getD_eq_getElem?_getD, getD_eq_getElem?_getD, getElem?_take_of_lt (by omega), getElem?_drop,
          Nat.add_sub_cancel' h₁]
    obtain ⟨m', hm', o'⟩ := @ih m (o.1 ▸ hj) fun s' hs' => hsrc s' (mem_cons_of_mem _ hs')
    refine ⟨m', ?_, o.comp o'⟩
    rw [foldlM_cons, hm, ok_bind, hm']

lemma over_fastBlock (op : BitopOp) (src : List Bytes) (hj : j + 32 ≤ res.length) (hsrc : ∀ s ∈ src, j + 32 ≤ s.length) :
    ∃ res', fastBlock src j res op = .ok res' ∧ Over j (j + 32) (combine op src) res res' := by
  cases op with
  | and => exact over_sources bytewise_and hj hsrc
  | or => exact over_sources bytewise_or hj hsrc
  | xor => exact over_sources bytewise_xor hj hsrc
  | not =>
    refine over_fourWords bytewise_xor (fun _ => replicate 8 255) (fun _ _ => rfl) (fun _ _ _ => rfl) hj ?_
    intro p i a _ h₁ h₂
    have hbyte : (replicate 8 255).getD (i - p) (0 : UInt8) = 255 := by
      rw [getD_eq_getElem?_getD, getElem?_replicate_of_lt (by omega), Option.getD_some]
    rw [hbyte]
    exact (foldl_fixed' (fun _ => rfl) src).trans UInt8.xor_neg_one.symm

lemma over_fastLoop (op : BitopOp) (src : List Bytes) (hj : j + n * 32 ≤ res.length) (hsrc : ∀ s ∈ src, j + n * 32 ≤ s.length) :
    ∃ res', fastLoop op src n j res = .ok res' ∧ Over j (j + n * 32) (combine op src) res res' := by
  induction n generalizing j res with
  | zero => exact ⟨res, rfl, by rw [Nat.zero_mul]; exact .refl⟩
  | succ n ih =>
    obtain ⟨m, hm, o⟩ := over_fastBlock op src (by omega : j + 32 ≤ res.length) fun s hs => by
      have := hsrc s hs
      omega
    have hnext : j + 32 + n * 32 = j + (n + 1) * 32 := by omega
    obtain ⟨m', hm', o'⟩ := @ih (j + 32) m (by rw [hnext, o.1]; exact hj)
      fun s hs => by rw [hnext]; exact hsrc s hs
    rw [hnext] at o'
    exact ⟨m', by rw [fastLoop, hm, ok_bind, hm'], o.append o' (by omega) (by omega)⟩

lemma over_slowLoop (op : BitopOp) (src₀ : Bytes) (src : List Bytes) (hj : j + n ≤ res.length) :
    ∃ res', slowLoop op src₀ src n j res = .ok res' ∧ Over j (j + n) (fun i _ => bitopOutput op src₀ src i) res res' := by
  induction n generalizing j res with
  | zero => exact ⟨res, rfl, .refl⟩
  | succ n ih =>
    obtain ⟨m, hm, o⟩ := over_store (e := Fault.overflow) (f := fun i _ => bitopOutput op src₀ src i)
      (x := [bitopOutput op src₀ src j]) (m := res) (p := j) (by rw [length_singleton]; omega) fun i h₁ h₂ => by
        rw [length_singleton] at h₂
        obtain rfl : i = j := by omega
        rw [Nat.sub_self, getElem?_eq_getElem (by omega : i < res.length)]
        rfl
    have hnext : j + 1 + n = j + (n + 1) := by omega
    change Over j (j + 1) _ res m at o
    obtain ⟨m', hm', o'⟩ := @ih (j + 1) m (by rw [hnext, o.1]; exact hj)
    rw [hnext] at o'
    exact ⟨m', by rw [slowLoop, hm, ok_bind, hm'], o.append o' (by omega) (by omega)⟩

lemma getElem?_map_range (f : Nat → UInt8) (n i : Nat) : ((range n).map f)[i]? = if i < n then some (f i) else none := by
  split_ifs with h
  · rw [getElem?_map, getElem?_range h, Option.map_some]
  · exact getElem?_eq_none (by rw [length_map, length_range]; omega)

lemma bitopRes_eq (hmax : minlen ≤ maxlen) (hsrc₀ : minlen ≤ src₀.length) (hsrc : ∀ s ∈ src, minlen ≤ s.length) :
    bitopRes op src₀ src maxlen minlen = .ok ((range maxlen).map (bitopOutput op src₀ src)) := by
  have hzero : (replicate maxlen (0 : UInt8)).length = maxlen := length_replicate
  rw [bitopRes]
  split_ifs with h
  · have hcopy : (src₀.take minlen).length = minlen := length_take_of_le hsrc₀
    obtain ⟨m, hm, o⟩ := over_store (e := Fault.overflow) (f := fun i _ => src₀.getD i 0) (x := src₀.take minlen)
      (m := replicate maxlen 0) (p := 0) (by omega) fun i h₁ h₂ => by
        rw [getElem?_take_of_lt (by omega), Nat.sub_zero, getElem?_replicate_of_lt (by omega), Option.map_some,
          getD_eq_getElem?_getD, getElem?_eq_getElem (by omega : i < src₀.length), Option.getD_some]
    obtain ⟨m₁, hm₁, o₁⟩ := over_fastLoop op src (by rw [o.1]; omega : 0 + minlen / 32 * 32 ≤ m.length) fun s hs => by
        have := hsrc s hs
        omega
    obtain ⟨m₂, hm₂, o₂⟩ := over_slowLoop op src₀ src
      (by rw [o₁.1, o.1]; omega : minlen / 32 * 32 + (maxlen - minlen / 32 * 32) ≤ m₁.length)
    rw [Memory.load, if_pos (by omega), ok_bind, drop_zero, hm, ok_bind, hm₁, ok_bind, hm₂]
    congr 1
    apply List.ext_getElem?
    intro i
    rw [o₂.2, o₁.2, o.2, getElem?_map_range, getElem?_replicate]
    split_ifs <;> first | rfl | omega
  · obtain ⟨m, hm, o⟩ := over_slowLoop op src₀ src
      (by omega : 0 + maxlen ≤ (replicate maxlen (0 : UInt8)).length)
    rw [hm]
    congr 1
    apply List.ext_getElem?
    intro i
    rw [o.2, getElem?_map_range, getElem?_replicate]
    split_ifs <;> first | rfl | omega

/-! ## The command -/

lemma bitopOutput_eq (op : BitopOp) (src₀ : Bytes) (src : List Bytes) :
    bitopOutput op src₀ src = fun i => bytewise op ((src₀ :: src).map (·.getD i 0)) := by
  funext i
  have hand (b : UInt8) : 255 &&& b = b := UInt8.neg_one_and
  cases op with
  | and => rw [bytewise, map_cons, foldl_cons, hand, foldl_map]; rfl
  | or => rw [bytewise, map_cons, foldl_cons, UInt8.zero_or, foldl_map]; rfl
  | xor => rw [bytewise, map_cons, foldl_cons, UInt8.zero_xor, foldl_map]; rfl
  | not => exact foldl_fixed' (fun _ => rfl) src

lemma bitopSources_eq {db : Db} {keys : List Bytes} (h : ∀ k ∈ keys, db k ≠ some .other) :
    ∃ objects, bitopSources db keys = .ok objects ∧ objects.map (·.getD []) = keys.map (sourceOf db) := by
  induction keys with
  | nil => exact ⟨[], rfl, rfl⟩
  | cons key keys ih =>
    obtain ⟨objects, hobjects, hmap⟩ := ih fun k hk => h k (mem_cons_of_mem _ hk)
    obtain ⟨o, ho, hs⟩ : ∃ o, bitopSource db key = .ok o ∧ o.getD [] = sourceOf db key := by
      rw [bitopSource, sourceOf]
      rcases hdb : db key with _ | s | _
      · exact ⟨none, rfl, rfl⟩
      · exact ⟨some s, rfl, rfl⟩
      · exact absurd hdb (h key (mem_cons_self ..))
    refine ⟨o :: objects, ?_, by rw [map_cons, map_cons, hmap, hs]⟩
    rw [bitopSources] at hobjects
    rw [bitopSources, mapM_cons, hobjects, ho]
    rfl

lemma bitopLengths_spec (objects : List (Option Bytes)) (j maxlen minlen : Nat) :
    (bitopLengths objects j maxlen minlen).1 = max maxlen (longest (objects.map (·.getD []))) ∧
      (j ≠ 0 → (bitopLengths objects j maxlen minlen).2 ≤ minlen) ∧
      ∀ s ∈ objects.map (·.getD []), (bitopLengths objects j maxlen minlen).2 ≤ s.length := by
  induction objects generalizing j maxlen minlen with
  | nil => exact ⟨(Nat.max_zero _).symm, fun _ => le_refl _, nofun⟩
  | cons o objects ih =>
    cases o with
    | none =>
      obtain ⟨hmax, hmin, hall⟩ := ih (j + 1) maxlen 0
      refine ⟨hmax.trans ?_, fun _ => by rw [bitopLengths]; omega, fun s hs => by rw [bitopLengths]; omega⟩
      exact congrArg (max maxlen) (Nat.zero_max _).symm
    | some s =>
      obtain ⟨hmax, hmin, hall⟩ := ih (j + 1) (if s.length > maxlen then s.length else maxlen)
        (if j = 0 ∨ s.length < minlen then s.length else minlen)
      have hnext := hmin (Nat.succ_ne_zero j)
      rw [← bitopLengths] at hmax hnext hall
      refine ⟨?_, fun hj => ?_, ?_⟩
      · have hlong : longest ((some s :: objects).map (·.getD [])) = max s.length (longest (objects.map (·.getD []))) := rfl
        rw [hmax]
        split_ifs <;> omega
      · split_ifs at hnext <;> omega
      · rw [map_cons, forall_mem_cons]
        refine ⟨?_, hall⟩
        change _ ≤ s.length
        split_ifs at hnext <;> omega

/-- `BITOP` stores the bytewise result, as long as the longest source, or deletes the target when there is none. -/
theorem bitopCommand_bytewise (db : Db) (opname targetkey key : Bytes) (keys : List Bytes) (op : BitopOp)
    (hop : bitopOp opname = some op) (hnot : op = .not → keys = []) (hkeys : ∀ k ∈ key :: keys, db k ≠ some .other) :
    let src := (key :: keys).map (sourceOf db)
    bitopCommand db opname targetkey key keys =
      .ok (Function.update db targetkey (if longest src = 0 then none else some (.string (bitopResult op src))),
        [.longLong (longest src)]) := by
  intro src
  obtain ⟨objects, hobjects, hmap⟩ := bitopSources_eq hkeys
  obtain ⟨hmax, -, hmin⟩ := bitopLengths_spec objects 0 0 0
  rw [hmap] at hmin
  rw [hmap] at hmax
  change _ = longest src at hmax
  rw [map_cons, forall_mem_cons] at hmin
  rw [bitopCommand, hop]
  simp only
  rw [if_neg (by rintro ⟨h, hlen⟩; rw [hnot h] at hlen; exact hlen rfl), hobjects]
  simp only [hmap, hmax]
  by_cases h : longest src = 0
  · rw [if_neg (not_not.mpr h), if_pos h]
  · have hlong : (bitopLengths objects 0 0 0).2 ≤ longest src := hmin.1.trans (Nat.le_max_left ..)
    rw [if_pos h, if_neg h, map_cons, headD_cons, tail_cons, bitopRes_eq hlong hmin.1 hmin.2,
      bitopOutput_eq]
    rfl

def twoSources : Db := fun k => if k = [1] then some (.string [12, 10, 7]) else if k = [2] then some (.string [10]) else none

theorem bitopCommand_bytewise_xor :
    bitopCommand twoSources (ascii "XOR") [3] [1] [[2]] =
      .ok (Function.update twoSources [3] (some (.string [6, 10, 7])), [.longLong 3]) :=
  bitopCommand_bytewise twoSources (ascii "XOR") [3] [1] [[2]] .xor (by decide) nofun (by decide)

end JitRedis.Bitops
