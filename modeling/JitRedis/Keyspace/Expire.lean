import JitRedis.Base

/-!
# Times to live

The commands that give a key a time to live compute the expire time in 64 bit arithmetic. What is stored is the time asked
for as long as nothing wraps around. A negative expire time, which only a wrapped sum can be, means "no expire" to the lazy
expiration and "expired" to the active one.
-/

namespace JitRedis.Keyspace

open Function

/-- A database: the values of the keys and their expire times. -/
structure RedisDb (α : Type) where
  dict : Bytes → Option α
  expires : Bytes → Option Int64

/-- A reply: an error with its text, the null bulk, an integer or `+OK`. -/
inductive Reply where
  | error (msg : String)
  | nullbulk
  | integer (n : Int)
  | ok

inductive TimeUnit where
  | seconds
  | milliseconds
  deriving DecidableEq

variable {α : Type}

def getExpire (db : RedisDb α) (key : Bytes) : Int64 := (db.expires key).getD (-1)

/-- `keyIsExpired` on a server that is not loading. -/
def keyIsExpired (db : RedisDb α) (key : Bytes) (now : Int64) : Bool :=
  if getExpire db key < 0 then false else getExpire db key < now

def dbSyncDelete (db : RedisDb α) (key : Bytes) : RedisDb α := ⟨update db.dict key none, update db.expires key none⟩

def activeExpireCycleTryExpire (db : RedisDb α) (key : Bytes) (t now : Int64) : RedisDb α × Bool :=
  if t < now then (dbSyncDelete db key, true) else (db, false)

/-- `lookupKeyWrite` on a master, with `expireIfNeeded`. -/
def lookupKeyWrite (db : RedisDb α) (key : Bytes) (now : Int64) : RedisDb α × Option α :=
  if keyIsExpired db key now then (dbSyncDelete db key, none) else (db, db.dict key)

def setExpire (db : RedisDb α) (key : Bytes) (when : Int64) : RedisDb α :=
  { db with expires := update db.expires key (some when) }

/-- `setKey`, which also removes the expire time. -/
def setKey (db : RedisDb α) (key : Bytes) (val : α) (now : Int64) : RedisDb α :=
  let db := (lookupKeyWrite db key now).1
  ⟨update db.dict key (some val), update db.expires key none⟩

def TimeUnit.scale (unit : TimeUnit) (n : Int64) : Int64 := if unit = .seconds then n * 1000 else n

def expireGenericCommand (db : RedisDb α) (key : Bytes) (param now basetime : Int64) (unit : TimeUnit) :
    RedisDb α × Reply :=
  let when := unit.scale param + basetime
  match lookupKeyWrite db key now with
  | (db, none) => (db, .integer 0)
  | (db, some _) => if when ≤ now then (dbSyncDelete db key, .integer 1) else (setExpire db key when, .integer 1)

/-- `setGenericCommand` with an expire time. -/
def setGenericCommand (name : String) (nx xx : Bool) (db : RedisDb α) (key : Bytes) (val : α) (expire : Int64)
    (unit : TimeUnit) (now : Int64) : RedisDb α × Reply :=
  if expire ≤ 0 then (db, .error ("invalid expire time in " ++ name))
  else
    let found := lookupKeyWrite db key now
    if nx ∧ found.2.isSome ∨ xx ∧ found.2.isNone then (found.1, .nullbulk)
    else (setExpire (setKey db key val now) key (now + unit.scale expire), .ok)

/-- The commands; `SET` has its options `NX` and `XX` and the unit of `EX` or `PX`. -/
inductive TtlCommand (α : Type) where
  | expire
  | pexpire
  | expireat
  | pexpireat
  | setex (val : α)
  | psetex (val : α)
  | set (nx xx : Bool) (unit : TimeUnit) (val : α)

namespace TtlCommand

/-- A command with the argument `n`, executed at `now`. -/
def run (db : RedisDb α) (key : Bytes) (n now : Int64) : TtlCommand α → RedisDb α × Reply
  | expire => expireGenericCommand db key n now now .seconds
  | pexpire => expireGenericCommand db key n now now .milliseconds
  | expireat => expireGenericCommand db key n now 0 .seconds
  | pexpireat => expireGenericCommand db key n now 0 .milliseconds
  | setex val => setGenericCommand "setex" false false db key val n .seconds now
  | psetex val => setGenericCommand "psetex" false false db key val n .milliseconds now
  | set nx xx unit val => setGenericCommand "set" nx xx db key val n unit now

def unit : TtlCommand α → TimeUnit
  | expire | expireat | setex _ => .seconds
  | pexpire | pexpireat | psetex _ => .milliseconds
  | set _ _ unit _ => unit

def exact (cmd : TtlCommand α) (n now : Int64) : Int :=
  n.toInt * (if cmd.unit = .seconds then 1000 else 1) +
    match cmd with
    | expireat | pexpireat => 0
    | _ => now.toInt

/-- The command has nothing to do: there is no key, the time is no positive number, or `NX` or `XX` is not met. -/
def Refuses (db : RedisDb α) (key : Bytes) (n now : Int64) : TtlCommand α → Prop
  | expire | pexpire | expireat | pexpireat => (lookupKeyWrite db key now).2 = none
  | setex _ | psetex _ => n ≤ 0
  | set nx xx _ _ => n ≤ 0 ∨ nx ∧ (lookupKeyWrite db key now).2.isSome ∨ xx ∧ (lookupKeyWrite db key now).2.isNone

end TtlCommand

/-- What a result should be: an error changes nothing, a command with nothing to do only drops an expired key, and all
others leave the key with the expire time asked for, or without the key if that time is not after `now`. -/
def Granted (db : RedisDb α) (key : Bytes) (now : Int64) (exact : Int) (r : RedisDb α × Reply) : Prop :=
  match r.2 with
  | .error _ => r.1 = db
  | .nullbulk | .integer 0 => r.1 = (lookupKeyWrite db key now).1
  | .integer _ | .ok =>
    if exact ≤ now.toInt then r.1.dict key = none
    else (r.1.dict key).isSome ∧ (r.1.expires key).map Int64.toInt = some exact

/-- The value fits, or both it and what is left of it in 64 bits are not after `now`. -/
def Fits (exact : Int) (now : Int64) : Prop :=
  -2 ^ 63 ≤ exact ∧ exact < 2 ^ 63 ∨ exact ≤ now.toInt ∧ exact.bmod (2 ^ 64) ≤ now.toInt

variable {db : RedisDb α} {key : Bytes} {n now when : Int64} {exact : Int}

lemma toInt_scale (unit : TimeUnit) (n base : Int64) :
    (unit.scale n + base).toInt = (n.toInt * (if unit = .seconds then 1000 else 1) + base.toInt).bmod (2 ^ 64) := by
  rw [Int64.toInt_add, TimeUnit.scale]
  split
  · rw [Int64.toInt_mul, Int.bmod_add_bmod]
    rfl
  · rw [mul_one]

lemma fits_iff (hw : when.toInt = exact.bmod (2 ^ 64)) :
    Fits exact now ↔ exact = when.toInt ∨ exact ≤ now.toInt ∧ when.toInt ≤ now.toInt := by
  have low := when.le_toInt
  have high := when.toInt_lt
  rw [Fits, ← hw]
  refine or_congr_left ⟨fun h => ?_, fun h => ?_⟩
  · rw [hw, Int.bmod_eq_of_le_mul_two (by omega) (by omega)]
  · omega

lemma granted_expire (hw : when.toInt = exact.bmod (2 ^ 64)) (hkey : (db.dict key).isSome) (db₀ : RedisDb α) :
    Granted db₀ key now exact (if when ≤ now then (dbSyncDelete db key, .integer 1) else (setExpire db key when, .integer 1)) ↔
      Fits exact now := by
  have hnone : db.dict key ≠ none := Option.isSome_iff_ne_none.mp hkey
  rw [fits_iff hw]
  split
  · rename_i hle
    rw [Int64.le_iff_toInt_le] at hle
    simp only [Granted, dbSyncDelete, update_self]
    split <;> simp <;> omega
  · rename_i hlt
    rw [Int64.le_iff_toInt_le] at hlt
    simp only [Granted, setExpire, update_self, hkey, hnone, Option.map_some, Option.some.injEq]
    split <;> simp <;> omega

lemma lookupKeyWrite_some {db' : RedisDb α} {o : α} (h : lookupKeyWrite db key now = (db', some o)) :
    (db'.dict key).isSome := by
  rw [lookupKeyWrite] at h
  split at h
  · cases h
  · obtain ⟨rfl, hkey⟩ := Prod.mk.inj h
    rw [hkey]
    rfl

lemma expireGenericCommand_granted (base : Int64) (unit : TimeUnit)
    (hexact : exact = n.toInt * (if unit = .seconds then 1000 else 1) + base.toInt) :
    Granted db key now exact (expireGenericCommand db key n now base unit) ↔
      (lookupKeyWrite db key now).2 = none ∨ Fits exact now := by
  have hw := hexact ▸ toInt_scale unit n base
  rw [expireGenericCommand]
  rcases h : lookupKeyWrite db key now with ⟨db', _ | o⟩
  · simp [Granted, h]
  · simpa using granted_expire hw (lookupKeyWrite_some h) db

lemma setGenericCommand_granted (name : String) (nx xx : Bool) (val : α) (unit : TimeUnit)
    (hexact : exact = n.toInt * (if unit = .seconds then 1000 else 1) + now.toInt) :
    Granted db key now exact (setGenericCommand name nx xx db key val n unit now) ↔
      (n ≤ 0 ∨ nx ∧ (lookupKeyWrite db key now).2.isSome ∨ xx ∧ (lookupKeyWrite db key now).2.isNone) ∨
        Fits exact now := by
  have hw : (now + unit.scale n).toInt = exact.bmod (2 ^ 64) := by
    rw [Int64.add_comm, hexact, toInt_scale]
  rw [setGenericCommand]
  split
  · rename_i hn
    simp [Granted, hn]
  rename_i hn
  have later : now.toInt < exact := by
    rw [Int64.le_iff_toInt_le] at hn
    split at hexact <;> simp at hn <;> omega
  dsimp only
  split
  · rename_i habort
    exact iff_of_true rfl (.inl (.inr habort))
  rw [or_iff_right (by tauto), fits_iff hw]
  simp only [Granted, setExpire, setKey, update_self, if_neg later.not_ge]
  simp
  omega

/-- A command leaves the expire time asked for iff it has nothing to do or the computation does not wrap around; the two
kinds of expiration agree on the expire times that are not negative. -/
theorem ttl_exact_iff (hnow : 0 < now) (db : RedisDb α) (key : Bytes) :
    (∀ (cmd : TtlCommand α) (n : Int64), Granted db key now (cmd.exact n now) (cmd.run db key n now) ↔
      cmd.Refuses db key n now ∨ Fits (cmd.exact n now) now) ∧
    ∀ t, db.expires key = some t →
      (keyIsExpired db key now = (activeExpireCycleTryExpire db key t now).2 ↔ 0 ≤ t) := by
  refine ⟨fun cmd n => ?_, fun t ht => ?_⟩
  · cases cmd with
    | expire | pexpire | expireat | pexpireat => exact expireGenericCommand_granted _ _ rfl
    | set nx xx unit val => exact setGenericCommand_granted _ nx xx val unit rfl
    | setex val | psetex val =>
      refine (setGenericCommand_granted _ false false val _ rfl).trans (or_congr_left ?_)
      simp [TtlCommand.Refuses]
  · simp only [keyIsExpired, getExpire, ht, Option.getD_some, activeExpireCycleTryExpire]
    rw [Int64.lt_iff_toInt_lt] at hnow
    by_cases hneg : t < 0
    · have hlt : t < now := by
        rw [Int64.lt_iff_toInt_lt] at hneg ⊢
        exact hneg.trans hnow
      simp [hneg, hlt]
    · rw [if_neg hneg]
      split <;> simp_all

def keyed : RedisDb Bytes := ⟨fun _ => some [], fun _ => none⟩

theorem ttl_exact_ten : (0 : Int64) < 1 ∧
    Granted keyed [107] 1 (TtlCommand.exact (.expire : TtlCommand Bytes) 10 1) (TtlCommand.run keyed [107] 10 1 .expire) :=
  ⟨by decide, ((ttl_exact_iff (by decide) keyed [107]).1 .expire 10).mpr (.inr (.inl (by decide)))⟩

/-- The greatest argument makes `EXPIRE` delete the key, and `SETEX` store a time that only the active expiration sees. -/
theorem expire_wraps :
    ¬Granted keyed [107] 1 (TtlCommand.exact (.expire : TtlCommand Bytes) Int64.maxValue 1)
      (TtlCommand.run keyed [107] Int64.maxValue 1 .expire) ∧
    let db := (TtlCommand.run keyed [107] Int64.maxValue 1 (.setex [118])).1
    keyIsExpired db [107] 1 = false ∧ (activeExpireCycleTryExpire db [107] (getExpire db [107]) 1).2 = true := by
  refine ⟨?_, by decide⟩
  refine fun h => absurd ((expireGenericCommand_granted 1 .seconds rfl).mp h) ?_
  rw [Fits]
  decide

end JitRedis.Keyspace
