import JitRedis.Aof.Format

/-!
# Commands in the replication stream

`replicationFeedSlaves` in `src/replication.c` writes a command twice: into the backlog, with lengths from
`stringObjectLen`, and into the output buffer of every replica, with the functions that reply to clients and lengths
counted by `addReplyBulkLen`. Arguments may be integers that were never turned into text. Both ways give the text that
the append only file has for the command.
-/

namespace JitRedis.Replication

open List

/-- A string object: text, or an integer kept as a `long`. -/
inductive StringObject
  | raw (s : Bytes)
  | int (n : Int)
  deriving DecidableEq

/-- The bytes that `addReply` and `feedReplicationBacklogWithObject` write. -/
def StringObject.text : StringObject → Bytes
  | .raw s => s
  | .int n => ll2string n

/-- The integer fits into a `long`, and a string is not longer than memory. -/
def StringObject.Valid : StringObject → Prop
  | .raw s => s.length < 2 ^ 62
  | .int n => -2 ^ 63 ≤ n ∧ n < 2 ^ 63

def stringObjectLen : StringObject → Nat
  | .raw s => s.length
  | .int n => sdigits10 n

/-- The loop of `addReplyBulkLen`; a `long` has at most 19 digits. -/
def bulkLenLoop : Nat → Int → Nat → Nat
  | 0, _, len => len
  | fuel + 1, n, len => if n.tdiv 10 = 0 then len else bulkLenLoop fuel (n.tdiv 10) (len + 1)

/-- The length of the text of an integer in `addReplyBulkLen`. The smallest `long` is its own negation. -/
def bulkLen (n : Int) : Nat :=
  if n < 0 then bulkLenLoop 20 (if n = -2 ^ 63 then n else -n) 2 else bulkLenLoop 20 n 1

def OBJ_SHARED_BULKHDR_LEN : Nat := 32

/-- `addReplyLongLongWithPrefix` and its callers: a shared object, made by `sdscatprintf`, for small lengths. -/
def lengthLine (mark : UInt8) (len : Nat) : Bytes :=
  if len < OBJ_SHARED_BULKHDR_LEN then mark :: decimal len ++ crlf else mark :: ll2string len ++ crlf

def addReplyBulk (o : StringObject) : Bytes :=
  let len := match o with
    | .raw s => s.length
    | .int n => bulkLen n
  lengthLine 36 len ++ o.text ++ crlf

/-- What `replicationFeedSlaves` adds to the output buffer of a replica. -/
def slaveText (argv : List StringObject) : Bytes := lengthLine 42 argv.length ++ argv.flatMap addReplyBulk

/-- What `replicationFeedSlaves` feeds to the backlog, one piece after the other. -/
def backlogPieces (argv : List StringObject) : List Bytes :=
  (42 :: ll2string argv.length ++ crlf) ::
    argv.flatMap fun o => [36 :: ll2string (stringObjectLen o) ++ crlf, o.text, crlf]

/-- The object of a `SELECT` command, shared or made for the occasion. -/
def selectcmd (dictid : Int) : Bytes :=
  ascii "*2\r\n$6\r\nSELECT\r\n$" ++ decimal (ll2string dictid).length ++ crlf ++ ll2string dictid ++ crlf

/-! ### Lengths -/

lemma length_decimal_step {n : Nat} (hn : 10 ≤ n) : (decimal n).length = (decimal (n / 10)).length + 1 := by
  rw [decimal_step hn, length_append, length_singleton]

lemma length_decimal_digit {n : Nat} (hn : n < 10) : (decimal n).length = 1 := by
  rw [decimal_digit hn, length_singleton]

lemma bulkLenLoop_eq {fuel : Nat} {n : Int} {len : Nat} (h : n.natAbs < 10 ^ (fuel + 1)) :
    bulkLenLoop (fuel + 1) n len + 1 = len + (decimal n.natAbs).length := by
  induction fuel generalizing n len with
  | zero =>
    have habs : (n.tdiv 10).natAbs = n.natAbs / 10 := Int.natAbs_tdiv n 10
    have hdiv : n.tdiv 10 = 0 := by omega
    rw [bulkLenLoop, if_pos hdiv, length_decimal_digit (by omega)]
  | succ fuel ih =>
    have habs : (n.tdiv 10).natAbs = n.natAbs / 10 := Int.natAbs_tdiv n 10
    rw [bulkLenLoop]
    split
    next hdiv =>
      rw [hdiv, Int.natAbs_zero] at habs
      rw [length_decimal_digit (by omega)]
    next hdiv =>
      have hten : 10 ≤ n.natAbs := by omega
      have hlt : (n.tdiv 10).natAbs < 10 ^ (fuel + 1) := by
        rw [habs, Nat.div_lt_iff_lt_mul (by norm_num), ← pow_succ]
        exact h
      rw [ih hlt, habs, length_decimal_step hten]
      omega

lemma bulkLen_eq {n : Int} (low : -2 ^ 63 ≤ n) (high : n < 2 ^ 63) : bulkLen n = (ll2string n).length := by
  rw [length_ll2string low high, bulkLen]
  by_cases hn : n < 0
  · rw [if_pos hn, if_pos hn]
    have habs : (if n = -2 ^ 63 then n else -n).natAbs = n.natAbs := by
      split <;> simp
    have hloop : bulkLenLoop 20 (if n = -2 ^ 63 then n else -n) 2 + 1 =
        2 + (decimal (if n = -2 ^ 63 then n else -n).natAbs).length := bulkLenLoop_eq (by rw [habs]; omega)
    rw [habs] at hloop
    omega
  · rw [if_neg hn, if_neg hn]
    have hloop : bulkLenLoop 20 n 1 + 1 = 1 + (decimal n.natAbs).length := bulkLenLoop_eq (by omega)
    omega

/-! ### Both texts of a command -/

def argvText (argv : List StringObject) : Bytes := commandText (argv.map StringObject.text)

lemma lengthLine_eq {mark : UInt8} {len : Nat} (h : len < 2 ^ 63) : lengthLine mark len = mark :: ll2string len ++ crlf := by
  rw [lengthLine, ll2string_natCast h, ite_self]

lemma StringObject.Valid.length_lt {o : StringObject} (h : o.Valid) : o.text.length < 2 ^ 63 := by
  cases o with
  | raw s =>
    rw [StringObject.Valid] at h
    rw [StringObject.text]
    omega
  | int n =>
    have := length_ll2string_le n
    rw [StringObject.text]
    omega

lemma addReplyBulk_eq {o : StringObject} (h : o.Valid) : addReplyBulk o = bulkText o.text := by
  have hlt := h.length_lt
  rw [bulkText, ← lengthLine_eq hlt]
  cases o with
  | raw s => rfl
  | int n =>
    rw [addReplyBulk, bulkLen_eq h.1 h.2]
    rfl

lemma stringObjectLen_eq {o} (h : o.Valid) : stringObjectLen o = o.text.length := by
  cases o with
  | raw s => rfl
  | int n => exact sdigits10_eq h.1 h.2

lemma commandText_flatMap (argv : List Bytes) :
    commandText argv = 42 :: ll2string argv.length ++ crlf ++ argv.flatMap bulkText := by
  rw [commandText, catAppendOnlyGenericCommand, foldl_bulkText, nil_append]

lemma slaveText_eq {argv} (hlen : argv.length < 2 ^ 63) (h : ∀ o ∈ argv, o.Valid) :
    slaveText argv = argvText argv := by
  rw [slaveText, argvText, commandText_flatMap, lengthLine_eq hlen, length_map, flatMap_map]
  congr 1
  exact flatMap_congr fun o ho => addReplyBulk_eq (h o ho)

lemma backlogPieces_flatten {argv} (h : ∀ o ∈ argv, o.Valid) :
    (backlogPieces argv).flatten = argvText argv := by
  have pieces : ∀ l : List StringObject, (∀ o ∈ l, o.Valid) →
      (l.flatMap fun o => [36 :: ll2string (stringObjectLen o) ++ crlf, o.text, crlf]).flatten =
        (l.map StringObject.text).flatMap bulkText := by
    intro l hl
    induction l with
    | nil => rfl
    | cons o l ih =>
      rw [flatMap_cons, flatten_append, ih fun o' ho' => hl o' (mem_cons_of_mem o ho'), map_cons,
        flatMap_cons, stringObjectLen_eq (hl o mem_cons_self)]
      simp [bulkText]
  rw [backlogPieces, flatten_cons, pieces argv h, argvText, commandText_flatMap, length_map]

lemma selectcmd_eq {dictid : Int} : selectcmd dictid = commandText [ascii "SELECT", ll2string dictid] := by
  have hlen := length_ll2string_le dictid
  have hname : bulkText (ascii "SELECT") = ascii "$6\r\nSELECT\r\n" := by decide
  rw [selectcmd, commandText_flatMap, flatMap_cons, flatMap_singleton, hname, bulkText,
    ll2string_natCast (n := (ll2string dictid).length) (by omega)]
  have hhead : ascii "*2\r\n$6\r\nSELECT\r\n$" =
      42 :: ll2string ([ascii "SELECT", ll2string dictid].length : Nat) ++ crlf ++ ascii "$6\r\nSELECT\r\n" ++ [36] := by
    rw [length_cons, length_singleton]
    decide
  rw [hhead]
  simp

end JitRedis.Replication
