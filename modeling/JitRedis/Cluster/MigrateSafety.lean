import JitRedis.Cluster.Migrate
import JitRedis.Lib.BigEndian

/-!
# What `MIGRATE` sends and deletes

Every `RESTORE` has to carry the value of its own key, and a key may only go when the target has acknowledged it. The
replies are matched rightly, since no socket is kept with a reply unread. The values are not always: the first attempt
moves the keys that have not expired to the front of their array and leaves the array of values as it is, so that a
second attempt may pair a key with the value of another one; and a key listed twice may expire between its two lookups,
which frees the value found by the first.
-/

namespace JitRedis.Migrate

open Runs List Fallible

variable {V : Type} {cfg : Config V} {db : Db V} {s : Server V} {job : Job} {att : Attempt} {key k p : Bytes}

/-! ### Deleting keys -/

@[simp] lemma Db.delete_dict : (db.delete key).dict k = if k = key then none else db.dict k :=
  Function.update_apply ..

@[simp] lemma Db.delete_expires : (db.delete key).expires k = if k = key then none else db.expires k :=
  Function.update_apply ..

def Db.deleteAll (db : Db V) (keys : List Bytes) : Db V := keys.foldl Db.delete db

lemma Db.deleteAll_eq {keys} : (db.deleteAll keys).dict k = (if k ∈ keys then none else db.dict k) ∧
    (db.deleteAll keys).expires k = if k ∈ keys then none else db.expires k := by
  induction keys generalizing db with
  | nil => exact ⟨rfl, rfl⟩
  | cons key keys ih =>
    obtain ⟨hdict, hexpires⟩ := @ih (db.delete key)
    refine ⟨hdict.trans ?_, hexpires.trans ?_⟩ <;>
      by_cases hk : k = key <;> by_cases hks : k ∈ keys <;> simp [hk, hks]

lemma Db.deleteAll_dict {keys} : (db.deleteAll keys).dict k = if k ∈ keys then none else db.dict k := Db.deleteAll_eq.1

lemma Db.deleteAll_expires {keys} : (db.deleteAll keys).expires k = if k ∈ keys then none else db.expires k :=
  Db.deleteAll_eq.2

/-! ### The keys that have not expired -/

/-- Keep the elements that pass a test which also sees their position. -/
def keepFrom {α : Type} (test : Nat → α → Bool) : Nat → List α → List α
  | _, [] => []
  | j, a :: l => if test j a then a :: keepFrom test (j + 1) l else keepFrom test (j + 1) l

lemma keepFrom_map {α β : Type} (test : Nat → α → Bool) (f : β → α) (j : Nat) (l : List β) :
    keepFrom test j (l.map f) = (keepFrom (fun j b => test j (f b)) j l).map f := by
  induction l generalizing j with
  | nil => rfl
  | cons b l ih =>
    rw [map_cons, keepFrom, keepFrom, ih]
    split <;> rfl

lemma keepFrom_congr {α : Type} {test test'} {l : List α} (h : ∀ j, ∀ a ∈ l, test j a = test' j a)
    (j : Nat) : keepFrom test j l = keepFrom test' j l := by
  induction l generalizing j with
  | nil => rfl
  | cons a l ih =>
    rw [keepFrom, keepFrom, h j a mem_cons_self, ih fun j b hb => h j b (mem_cons_of_mem a hb)]

lemma keepFrom_sublist {α : Type} (test : Nat → α → Bool) (j : Nat) (l : List α) :
    (keepFrom test j l).Sublist l := by
  induction l generalizing j with
  | nil => exact .slnil
  | cons a l ih =>
    rw [keepFrom]
    split
    · exact (ih _).cons_cons a
    · exact (ih _).cons a

lemma mem_keepFrom {α : Type} {test} {j} {l} {a : α} :
    a ∈ keepFrom test j l ↔ ∃ i, l[i]? = some a ∧ test (j + i) a := by
  induction l generalizing j with
  | nil => simp [keepFrom]
  | cons b l ih =>
    have rest : (∃ i, (b :: l)[i + 1]? = some a ∧ test (j + (i + 1)) a) ↔ a ∈ keepFrom test (j + 1) l := by
      rw [ih]
      exact exists_congr fun i => by rw [getElem?_cons_succ, Nat.add_right_comm, Nat.add_assoc]
    rw [keepFrom, ← Nat.or_exists_add_one, rest, getElem?_cons_zero, Option.some.injEq]
    split
    next hb =>
      rw [mem_cons, eq_comm]
      exact or_congr_left ⟨fun h => ⟨h, h ▸ hb⟩, And.left⟩
    next hb => exact (or_iff_right fun (h : b = a ∧ _) => hb (h.1 ▸ h.2)).symm

/-- The keys of an array that have not expired when an attempt comes to them. -/
def remaining (db : Db V) (clock : Nat → Int) (keys : List Bytes) : List Bytes :=
  keepFrom (fun j k => !db.skips (clock j) k) 0 keys

/-- The keys with their values that an attempt sends, given the pairs of the two arrays. -/
def toSend (db : Db V) (clock : Nat → Int) (j : Nat) (pairs : List (Bytes × Bytes)) : List (Bytes × Bytes) :=
  keepFrom (fun j e => !db.skips (clock j) e.1) j pairs

/-! ### Creating the commands -/

/-- The `RESTORE` of a key with the value stored under another. -/
def Restores (cfg : Config V) (db : Db V) (e : Bytes × Bytes) (c : Command) : Prop :=
  ∃ ttl o replace, db.dict e.2 = some o ∧
    c = .restore cfg.clusterEnabled e.1 ttl (createDumpPayload cfg o e.1) replace

/-- What the loop that creates the commands makes of the pairs that it comes to. -/
structure Created (cfg : Config V) (db : Db V) (pairs : List (Bytes × Bytes)) (b b' : Buffered) : Prop where
  length : b'.kv.length = b.kv.length
  keys : b'.kv.take b'.nonExpired = b.kv.take b.nonExpired ++ pairs.map Prod.fst
  count : b'.nonExpired = b.nonExpired + pairs.length
  cmds : ∃ rs, b'.cmds = b.cmds ++ rs ∧ List.Forall₂ (Restores cfg db) pairs rs

lemma take_set_succ {α : Type} (l : List α) (n : Nat) (a : α) (h : n < l.length) :
    (l.set n a).take (n + 1) = l.take n ++ [a] := by
  rw [set_eq_take_append_cons_drop, if_pos h, take_append, length_take_of_le (Nat.le_of_lt h)]
  simp

section Creating

variable {replace : Bool} {clock : Nat → Int} {ov : List Bytes} {b : Buffered} {left j : Nat}

lemma Created.add {pairs b'} {ttl} {o : V} (hne : b.nonExpired < b.kv.length)
    (ho : db.dict p = some o) (h : Created cfg db pairs (b.add cfg replace key ttl o) b') :
    Created cfg db ((key, p) :: pairs) b b' := by
  obtain ⟨rs, hcmds, hall⟩ := h.cmds
  refine ⟨h.length.trans length_set, ?_, ?_, _ :: rs, ?_, .cons ⟨ttl, o, replace, ho, rfl⟩ hall⟩
  · rw [h.keys, Buffered.add, take_set_succ _ _ _ hne, append_assoc]
    rfl
  · have hcount : (b.add cfg replace key ttl o).nonExpired = b.nonExpired + 1 := rfl
    rw [h.count, length_cons]
    omega
  · rw [hcmds, Buffered.add, append_assoc]
    rfl

lemma createRestores_created (hk : j + left ≤ b.kv.length) (ho : j + left ≤ ov.length) (hne : b.nonExpired ≤ j) :
    Sat (fun _ => ∃ p ∈ ov, db.dict p = none)
      (Created cfg db (toSend db clock j (((b.kv.drop j).take left).zip (ov.drop j))) b)
      (createRestores cfg replace db clock ov left j b) := by
  induction left generalizing j b with
  | zero =>
    exact ⟨rfl, by simp [toSend, keepFrom], by simp [toSend, keepFrom], [], by simp, by simp [toSend, keepFrom]⟩
  | succ left ih =>
    have hjk : j < b.kv.length := by omega
    have hjo : j < ov.length := by omega
    rw [createRestores, getElem?_eq_getElem hjk, getElem?_eq_getElem hjo, drop_eq_getElem_cons hjk,
      drop_eq_getElem_cons hjo, take_succ_cons, zip_cons_cons, toSend, keepFrom]
    dsimp only
    by_cases hskip : db.skips (clock j) b.kv[j]
    · rw [if_pos hskip, if_neg (by simp [hskip])]
      exact ih (by omega) (by omega) (by omega)
    rw [if_neg hskip, if_pos (by simp [hskip])]
    cases hobj : db.dict ov[j] with
    | none => exact ⟨_, getElem_mem hjo, hobj⟩
    | some o =>
      have hlen : (b.add cfg replace b.kv[j] (db.ttl (clock j) b.kv[j]) o).kv.length = b.kv.length := length_set
      have hdrop : (b.add cfg replace b.kv[j] (db.ttl (clock j) b.kv[j]) o).kv.drop (j + 1) = b.kv.drop (j + 1) :=
        drop_set_of_lt (Nat.lt_succ_of_le hne)
      refine Sat.mono (ih (by omega) (by omega) (Nat.succ_le_succ hne)) fun b' created => ?_
      rw [hdrop] at created
      exact created.add (by omega) hobj

end Creating

/-! ### Reading the replies -/

/-- What the loop that reads the replies leaves, when the next reply is that to the command at position `i`. -/
structure Answered (att : Attempt) (copy : Bool) (i : Nat) (keys : List Bytes) (r r' : Replies V) : Prop where
  unread : r'.socketError = none → r'.reader.unread = []
  deleted : ∃ ds, r'.deleted = r.deleted ++ ds ∧ r'.db = r.db.deleteAll ds ∧
    ∀ k ∈ ds, copy = false ∧ ∃ m, keys[m]? = some k ∧ att.answer (i + m) = .ok

lemma syncReadLine_ok {rd rd' reply} (h : syncReadLine att rd = .ok (reply, rd')) :
    rd.unread = reply :: rd'.unread := by
  have hnext : syncReadLine.next rd = .ok (reply, rd') := by
    rw [syncReadLine] at h
    split at h
    · split at h
      · cases h
      · exact h
    · exact h
  rw [syncReadLine.next] at hnext
  split at hnext
  · cases hnext
  next hu =>
    cases hnext
    exact hu

lemma readIfSent_ok {sent} {rd rd' buf}
    (h : readIfSent att sent rd = .ok (buf, rd')) : rd'.unread = rd.unread.drop sent.toNat := by
  cases sent with
  | false =>
    cases h
    rfl
  | true =>
    obtain ⟨r, hread, ⟨⟩⟩ := map_eq_ok.mp h
    rw [syncReadLine_ok hread]
    rfl

lemma errorText_none {buf0 buf1 buf2} (h : errorText buf0 buf1 buf2 = none) :
    buf2 = .ok := by
  unfold errorText at h
  split at h <;> first | rfl | cases h

lemma Answered.skip {copy : Bool} {i : Nat} {keys : List Bytes} {r r₁ r' : Replies V}
    (ans : Answered att copy (i + 1) keys r₁ r') (hdel : r₁.deleted = r.deleted) (hdb : r₁.db = r.db) :
    Answered att copy i (key :: keys) r r' := by
  obtain ⟨ds, hds, hdb', hacked⟩ := ans.deleted
  refine ⟨ans.unread, ds, by rw [hds, hdel], by rw [hdb', hdb], ?_⟩
  intro k hk
  obtain ⟨hcopy, m, hm, hans⟩ := hacked k hk
  exact ⟨hcopy, m + 1, hm, by rwa [← Nat.add_assoc, Nat.add_right_comm]⟩

lemma Answered.delete {i : Nat} {keys : List Bytes} {r r₁ r' : Replies V}
    (ans : Answered att false (i + 1) keys r₁ r') (hok : att.answer i = .ok) (hdel : r₁.deleted = r.deleted ++ [key])
    (hdb : r₁.db = r.db.delete key) : Answered att false i (key :: keys) r r' := by
  obtain ⟨ds, hds, hdb', hacked⟩ := ans.deleted
  refine ⟨ans.unread, key :: ds, ?_, by rw [hdb', hdb]; rfl, ?_⟩
  · rw [hds, hdel, append_assoc, singleton_append]
  · intro k hk
    cases hk with
    | head => exact ⟨rfl, 0, rfl, hok⟩
    | tail _ hk =>
      obtain ⟨hcopy, m, hm, hans⟩ := hacked k hk
      exact ⟨hcopy, m + 1, hm, by rwa [← Nat.add_assoc, Nat.add_right_comm]⟩

lemma readReplies_answered {copy : Bool} {buf0 buf1 : Option TargetReply} {keys : List Bytes} {r : Replies V} {i : Nat}
    (hunread : r.reader.unread = (List.range' i keys.length).map att.answer) :
    Answered att copy i keys r (readReplies att copy buf0 buf1 keys r) := by
  induction keys generalizing r i with
  | nil => exact ⟨fun _ => hunread, [], (append_nil _).symm, rfl, nofun⟩
  | cons key keys ih =>
    rw [readReplies]
    cases hread : syncReadLine att r.reader with
    | error _ => exact ⟨nofun, [], (append_nil _).symm, rfl, nofun⟩
    | ok reply =>
      obtain ⟨buf2, reader⟩ := reply
      rw [length_cons, range'_succ, map_cons, syncReadLine_ok hread, List.cons.injEq] at hunread
      obtain ⟨hbuf, hrest⟩ := hunread
      dsimp only
      cases herr : errorText buf0 buf1 buf2 with
      | some text => exact (ih hrest).skip rfl rfl
      | none =>
        cases copy with
        | true => exact (ih hrest).skip rfl rfl
        | false => exact (ih hrest).delete (hbuf.symm.trans (errorText_none herr)) rfl rfl

/-! ### One attempt -/

def Clean (sockets : List (Bytes × CachedSocket)) : Prop := ∀ e ∈ sockets, e.2.unread = []

lemma Clean.sublist {sockets sockets'} (h : Clean sockets) (hsub : sockets'.Sublist sockets) :
    Clean sockets' :=
  fun e he => h e (hsub.subset he)

lemma Clean.close {sockets} (h : Clean sockets) (name : Bytes) :
    Clean (closeSocket name sockets) :=
  h.sublist filter_sublist

lemma Clean.put {sockets cs} (h : Clean sockets) (name : Bytes)
    (hcs : cs.unread = []) : Clean (putSocket name cs sockets) := by
  intro e he
  cases he with
  | head => exact hcs
  | tail _ he => exact h.close name e he

lemma Clean.makeRoom {sockets} (h : Clean sockets) : Clean (makeRoom att sockets) := by
  rw [Migrate.makeRoom]
  split
  · exact h.sublist (eraseIdx_sublist ..)
  · exact h

lemma Clean.getSocket {sockets} (h : Clean sockets) (att : Attempt) (name : Bytes) :
    Clean (migrateGetSocket att name sockets).2 ∧
      ∀ {cs}, (migrateGetSocket att name sockets).1 = .ok cs → cs.unread = [] := by
  rw [migrateGetSocket]
  split
  next e he =>
    refine ⟨h, ?_⟩
    rintro cs ⟨⟩
    exact h e (mem_of_find?_eq_some he)
  · split
    · exact ⟨h.makeRoom, nofun⟩
    · exact ⟨h.makeRoom, nofun⟩
    · refine ⟨h.makeRoom.put name rfl, ?_⟩
      rintro cs ⟨⟩
      rfl

lemma getSocket_connected {sockets sockets'} {name reply}
    (hconn : att.connect = .ok) (h : migrateGetSocket att name sockets = (.error reply, sockets')) : False := by
  rw [migrateGetSocket, hconn] at h
  split at h <;> cases h

/-- The target has acknowledged the `RESTORE` of a key. -/
def Acked (att : Attempt) (sent : List Command) (k : Bytes) : Prop :=
  ∃ i asking ttl payload replace, sent[i]? = some (.restore asking k ttl payload replace) ∧ att.answer i = .ok

/-- What an attempt that sends the given pairs leaves. -/
structure Attempted.Sound (cfg : Config V) (job : Job) (att : Attempt) (start : Db V) (pairs : List (Bytes × Bytes))
    (r : Attempted V) : Prop where
  sent : ∃ select rs, r.sent = preamble job select ++ rs ∧ List.Forall₂ (Restores cfg start) pairs rs
  keys : r.kv.take r.numKeys = pairs.map Prod.fst
  numKeys : r.numKeys = pairs.length
  acked : ∀ k ∈ r.deleted, job.copy = false ∧ k ∈ pairs.map Prod.fst ∧ Acked att r.sent k
  db : r.server.db = start.deleteAll r.deleted
  retry : ∀ w t, r.exit = .socketErr w t true → r.deleted = []
  clean : Clean r.server.migrateCachedSockets

lemma forall₂_getElem? {α β : Type} {R} {l : List α} {l' : List β} {m : Nat} {a : α}
    (h : List.Forall₂ R l l') (ha : l[m]? = some a) : ∃ b, l'[m]? = some b ∧ R a b := by
  induction h generalizing m with
  | nil => cases ha
  | cons hab _ ih =>
    cases m with
    | zero =>
      cases ha
      exact ⟨_, rfl, hab⟩
    | succ m => exact ih ha

section Exchange

variable {mayRetry select : Bool} {clock : Nat → Int} {kv ov : List Bytes} {numKeys : Nat} {cs : CachedSocket} {b : Buffered}
  {pairs : List (Bytes × Bytes)}

lemma length_preamble : (preamble job select).length = job.password.isSome.toNat + select.toNat := by
  rw [preamble]
  cases job.password <;> cases select <;> rfl

lemma drop_answers (att : Attempt) (a c n : Nat) :
    (((List.range (a + c + n)).map att.answer).drop a).drop c = (List.range' (a + c) n).map att.answer := by
  rw [drop_drop, ← map_drop, range_eq_range']
  congr 1
  simp

lemma Created.sound_failed (created : Created cfg s.db pairs ⟨kv, 0, preamble job select⟩ b)
    (clean : Clean s.migrateCachedSockets) (w t m : Bool) :
    (Attempted.failed job s b w t m).Sound cfg job att s.db pairs := by
  obtain ⟨rs, hcmds, hall⟩ := created.cmds
  exact ⟨⟨select, rs, hcmds, hall⟩, created.keys, by rw [← Nat.zero_add pairs.length]; exact created.count, nofun, rfl,
    fun _ _ _ => rfl, clean.close job.name⟩

lemma Created.sound_replies {r} (created : Created cfg s.db pairs ⟨kv, 0, preamble job select⟩ b)
    (clean : Clean s.migrateCachedSockets) (rd : Reader)
    (ans : Answered att job.copy (preamble job select).length (b.kv.take b.nonExpired) ⟨s.db, rd, 0, [], none, none⟩ r) :
    (concludeReplies job mayRetry s b r).Sound cfg job att s.db pairs := by
  obtain ⟨rs, hcmds, hall⟩ := created.cmds
  obtain ⟨ds, hdel, hdb, hacked⟩ := ans.deleted
  rw [nil_append] at hdel
  have hkeys : b.kv.take b.nonExpired = pairs.map Prod.fst := created.keys
  have acked : ∀ k ∈ r.deleted, job.copy = false ∧ k ∈ pairs.map Prod.fst ∧ Acked att b.cmds k := by
    intro k hk
    rw [hdel] at hk
    obtain ⟨hcopy, m, hm, hans⟩ := hacked k hk
    rw [hkeys] at hm
    refine ⟨hcopy, mem_of_getElem? hm, ?_⟩
    rw [getElem?_map] at hm
    obtain ⟨e, he, rfl⟩ := Option.map_eq_some_iff.mp hm
    obtain ⟨c, hc, ttl, o, replace, -, rfl⟩ := forall₂_getElem? hall he
    refine ⟨_, cfg.clusterEnabled, ttl, createDumpPayload cfg o e.1, replace, ?_, hans⟩
    rw [hcmds, getElem?_append_right (Nat.le_add_right ..), Nat.add_sub_cancel_left]
    exact hc
  have done : ∀ {sockets exit}, Clean sockets → (∀ w t, exit = .socketErr w t true → r.deleted = []) →
      Attempted.Sound cfg job att s.db pairs ⟨⟨r.db, sockets⟩, b.kv, b.nonExpired, b.cmds, r.deleted, exit⟩ := by
    intro sockets exit hclean hexit
    exact ⟨⟨select, rs, hcmds, hall⟩, hkeys, by rw [← Nat.zero_add pairs.length]; exact created.count, acked,
      by rw [hdel]; exact hdb, hexit, hclean⟩
  rw [concludeReplies]
  split
  · split
    · exact created.sound_failed clean ..
    · exact done (clean.close _) nofun
  next hsock => exact done (clean.put _ (ans.unread hsock)) nofun
  · exact done (clean.close _) nofun
  next hsock => exact done (clean.put _ (ans.unread hsock)) nofun

lemma Created.sound_exchange (s : Server V) (created : Created cfg s.db pairs ⟨kv, 0, preamble job select⟩ b)
    (clean : Clean s.migrateCachedSockets) (hcs : cs.unread = []) :
    (exchange job mayRetry att select s cs b).Sound cfg job att s.db pairs := by
  obtain ⟨rs, hcmds, hall⟩ := created.cmds
  have hlen : b.cmds.length = job.password.isSome.toNat + select.toNat + rs.length := by
    rw [hcmds, length_append, length_preamble]
  rw [exchange]
  split
  · exact created.sound_failed clean ..
  rw [hcs, nil_append, hlen]
  dsimp only
  split
  · exact created.sound_failed clean ..
  next buf0 rd0 hread0 =>
    split
    · exact created.sound_failed clean ..
    next buf1 rd1 hread1 =>
      refine created.sound_replies clean rd1 (readReplies_answered ?_)
      have hkeys : b.kv.take b.nonExpired = pairs.map Prod.fst := created.keys
      rw [hkeys, length_map, hall.length_eq, length_preamble]
      show rd1.unread = _
      rw [readIfSent_ok hread1, readIfSent_ok hread0]
      exact drop_answers ..

lemma attempt_cases (clean : Clean s.migrateCachedSockets) (hk : numKeys ≤ kv.length) (ho : numKeys ≤ ov.length) :
    Sat (fun _ => ∃ p ∈ ov, s.db.dict p = none) (fun r => ∃ sockets, Clean sockets ∧
      ((att.connect ≠ .ok ∧ ∃ reply, r = ⟨⟨s.db, sockets⟩, kv, numKeys, [], [], .noSocket reply⟩) ∨
        ∃ cs b select, cs.unread = [] ∧
          Created cfg s.db (toSend s.db clock 0 ((kv.take numKeys).zip ov)) ⟨kv, 0, preamble job select⟩ b ∧
          r = exchange job mayRetry att select ⟨s.db, sockets⟩ cs b))
      (attempt cfg job mayRetry att clock s ov kv numKeys) := by
  have got := clean.getSocket att job.name
  rw [attempt]
  cases hsock : migrateGetSocket att job.name s.migrateCachedSockets with
  | mk res sockets =>
    rw [hsock] at got
    cases res with
    | error reply => exact ⟨_, got.1, .inl ⟨fun hconn => getSocket_connected hconn hsock, reply, rfl⟩⟩
    | ok cs =>
      refine (createRestores_created ((Nat.zero_add _).trans_le hk) ((Nat.zero_add _).trans_le ho) (Nat.zero_le 0)).bind ?_
      exact fun b created => ⟨_, got.1, .inr ⟨cs, b, _, got.2 rfl, created, rfl⟩⟩

lemma chunks_pos {c cmds} (hc : c ∈ cmds) : 0 < chunks cmds := by
  have hstar : (42 : UInt8) ∈ commandText c.argv := by
    rw [commandText, catAppendOnlyGenericCommand, foldl_bulkText]
    exact mem_cons_self
  have htext : 0 < (commandsText (cmds.map Command.argv)).length :=
    length_pos_of_mem (mem_flatMap.mpr ⟨c.argv, mem_map_of_mem hc, hstar⟩)
  rw [chunks]
  omega

lemma exchange_broken {c} (hc : c ∈ b.cmds) (hwrite : ∀ i, att.write i = some false) :
    exchange job mayRetry att select s cs b = .failed job s b true false mayRetry := by
  obtain ⟨n, hn⟩ := Nat.exists_eq_succ_of_ne_zero (chunks_pos hc).ne'
  have hfail : writeChunks att.write (chunks b.cmds) 0 = some false := by
    rw [hn, writeChunks, hwrite]
  rw [exchange, hfail]

end Exchange

/-! ### Looking up the keys -/

section Lookup

variable {clock : Nat → Int} {keys : List Bytes} {j : Nat}

lemma Db.expiresNow_isSome {now} (h : db.expiresNow cfg now k) : db.dict k ≠ none := by
  intro hnone
  have hexp : db.getExpire k = -1 := by rw [Db.getExpire, db.expires_sub hnone]; rfl
  rw [Db.expiresNow, Db.keyIsExpired, hexp] at h
  simp at h

lemma Db.expiresNow_delete {now} :
    (db.delete key).expiresNow cfg now k = (decide (k ≠ key) && db.expiresNow cfg now k) := by
  by_cases hk : k = key
  · simp [Db.expiresNow, Db.keyIsExpired, Db.getExpire, hk]
  · have hexp : (db.delete key).getExpire k = db.getExpire k := by simp [Db.getExpire, hk]
    rw [Db.expiresNow, Db.keyIsExpired, hexp, decide_eq_true hk]
    rfl

lemma lookupKeys_deleted (db : Db V) (j : Nat) (keys : List Bytes) : ∃ ds, (lookupKeys cfg clock j keys db).db = db.deleteAll ds ∧
    (∀ k, k ∈ ds ↔ ∃ cmd ∈ (lookupKeys cfg clock j keys db).propagated, k ∈ cmd.tail) ∧
    ∀ k ∈ ds, ∃ i, keys[i]? = some k ∧ db.expiresNow cfg (clock (j + i)) k := by
  fun_induction lookupKeys with
  | case1 => exact ⟨[], rfl, by simp, nofun⟩
  | case2 j key keys db hexp found cmd ih =>
    obtain ⟨ds, hdb, hprop, hds⟩ := ih
    refine ⟨key :: ds, hdb, fun k => ?_, forall_mem_cons.mpr ⟨⟨0, rfl, hexp⟩, fun k hk => ?_⟩⟩
    · simp only [mem_cons, hprop, exists_eq_or_imp, cmd, tail_cons, not_mem_nil, or_false]
      rfl
    · obtain ⟨i, hi, hexp'⟩ := hds k hk
      rw [Db.expiresNow_delete, Bool.and_eq_true, Nat.add_right_comm] at hexp'
      exact ⟨i + 1, hi, hexp'.2⟩
  | case3 j key keys db hexp found hsome ih | case4 j key keys db hexp found hnone ih =>
    obtain ⟨ds, hdb, hprop, hds⟩ := ih
    refine ⟨ds, hdb, hprop, fun k hk => ?_⟩
    obtain ⟨i, hi, hexp'⟩ := hds k hk
    rw [Nat.add_right_comm] at hexp'
    exact ⟨i + 1, hi, hexp'⟩

lemma lookupKeys_gone {i} (hk : keys[i]? = some k) (hexp : db.expiresNow cfg (clock (j + i)) k) :
    (lookupKeys cfg clock j keys db).db.dict k = none := by
  have stays : ∀ {j keys} {db : Db V}, db.dict k = none → (lookupKeys cfg clock j keys db).db.dict k = none := by
    intro j keys db hnone
    obtain ⟨ds, hdb, -⟩ : ∃ ds, (lookupKeys cfg clock j keys db).db = db.deleteAll ds ∧ _ := lookupKeys_deleted db j keys
    rw [hdb, Db.deleteAll_dict, hnone, ite_self]
  induction keys generalizing j i db with
  | nil => cases hk
  | cons key keys ih =>
    rw [lookupKeys]
    cases i with
    | zero =>
      cases hk
      rw [Nat.add_zero] at hexp
      rw [if_pos hexp]
      exact stays (by simp)
    | succ i =>
      rw [← Nat.add_assoc, Nat.add_right_comm] at hexp
      split
      · by_cases hkey : k = key
        · exact stays (by simp [hkey])
        · exact ih hk (by simp [Db.expiresNow_delete, hkey, hexp])
      · dsimp only
        split <;> exact ih hk hexp

lemma lookupKeys_found (hk : k ∈ keys) (hsome : db.dict k ≠ none)
    (hexp : db.expiresNow cfg (clock (j + keys.idxOf k)) k = false) : k ∈ (lookupKeys cfg clock j keys db).kv := by
  induction keys generalizing j db with
  | nil => cases hk
  | cons key keys ih =>
    rw [lookupKeys]
    by_cases hkey : k = key
    · rw [hkey, idxOf_cons_self, Nat.add_zero] at hexp
      rw [hkey, Option.ne_none_iff_isSome] at hsome
      rw [hexp, if_neg (by simp)]
      rw [if_pos hsome, hkey]
      exact mem_cons_self
    rw [idxOf_cons_ne _ (Ne.symm hkey), Nat.add_succ, ← Nat.succ_add] at hexp
    have hmem : k ∈ keys := (mem_cons.mp hk).resolve_left hkey
    split
    · refine ih hmem ?_ ?_
      · simpa [hkey] using hsome
      · simp only [Db.expiresNow_delete, hexp, Bool.and_false]
    · dsimp only
      split
      · exact mem_cons_of_mem _ (ih hmem hsome hexp)
      · exact ih hmem hsome hexp

/-- The keys to migrate: those that have a value and had not expired when they were first looked up. -/
def migrated (cfg : Config V) (db : Db V) (clock : Nat → Int) (j : Nat) (keys : List Bytes) : List Bytes :=
  keys.filter fun k => (db.dict k).isSome && !db.expiresNow cfg (clock (j + keys.idxOf k)) k

/-- A key that expires at one of its lookups does so at the first. -/
def ExpiresFirst (cfg : Config V) (db : Db V) (clock : Nat → Int) (j : Nat) (keys : List Bytes) : Prop :=
  ∀ i k, keys[i]? = some k → db.expiresNow cfg (clock (j + i)) k → db.expiresNow cfg (clock (j + keys.idxOf k)) k

lemma idxOf_cons_shift (hk : k ≠ key) : j + (key :: keys).idxOf k = j + 1 + keys.idxOf k := by
  rw [idxOf_cons_ne _ (Ne.symm hk)]
  omega

section

variable (h : ExpiresFirst cfg db clock j (key :: keys))
include h

lemma ExpiresFirst.delete :
    ExpiresFirst cfg (db.delete key) clock (j + 1) keys := by
  intro i k hi hexp
  rw [Db.expiresNow_delete, Bool.and_eq_true, decide_eq_true_iff] at hexp ⊢
  refine ⟨hexp.1, ?_⟩
  rw [← idxOf_cons_shift hexp.1]
  exact h (i + 1) k hi (by rw [← Nat.add_assoc, Nat.add_right_comm]; exact hexp.2)

lemma ExpiresFirst.never (hnow : ¬db.expiresNow cfg (clock j) key) {i}
    (hi : keys[i]? = some key) : db.expiresNow cfg (clock (j + 1 + i)) key = false := by
  rw [← Bool.not_eq_true]
  intro hexp
  refine hnow ?_
  have hfirst := h (i + 1) key hi (by rw [← Nat.add_assoc, Nat.add_right_comm]; exact hexp)
  rwa [idxOf_cons_self, Nat.add_zero] at hfirst

lemma ExpiresFirst.tail (hnow : ¬db.expiresNow cfg (clock j) key) :
    ExpiresFirst cfg db clock (j + 1) keys := by
  intro i k hi hexp
  by_cases hk : k = key
  · rw [hk] at hi hexp
    rw [h.never hnow hi] at hexp
    cases hexp
  · rw [← idxOf_cons_shift hk]
    exact h (i + 1) k hi (by rw [← Nat.add_assoc, Nat.add_right_comm]; exact hexp)

end

lemma lookupKeys_kv (h : ExpiresFirst cfg db clock j keys) :
    (lookupKeys cfg clock j keys db).kv = migrated cfg db clock j keys := by
  induction keys generalizing j db with
  | nil => rfl
  | cons key keys ih =>
    have hself : j + (key :: keys).idxOf key = j := by rw [idxOf_cons_self, Nat.add_zero]
    rw [lookupKeys, migrated, filter_cons, hself]
    split
    next hexp =>
      rw [hexp, Bool.not_true, Bool.and_false, if_neg Bool.false_ne_true]
      refine (ih h.delete).trans (filter_congr fun k hk => ?_)
      by_cases hkey : k = key
      · rw [hkey, hself, hexp]
        simp
      · rw [idxOf_cons_shift hkey, Db.expiresNow_delete, Db.delete_dict, if_neg hkey, decide_eq_true hkey, Bool.true_and]
    next hexp =>
      have hrest : (lookupKeys cfg clock (j + 1) keys db).kv =
          keys.filter fun k => (db.dict k).isSome && !db.expiresNow cfg (clock (j + (key :: keys).idxOf k)) k := by
        refine (ih (h.tail hexp)).trans (filter_congr fun k hk => ?_)
        by_cases hkey : k = key
        · rw [hkey] at hk ⊢
          rw [hself, h.never hexp (getElem?_idxOf hk), Bool.eq_false_iff.mpr hexp]
        · rw [idxOf_cons_shift hkey]
      rw [Bool.eq_false_iff.mpr hexp, Bool.not_false, Bool.and_true]
      split
      · exact congrArg _ hrest
      · exact hrest

lemma ExpiresFirst.agrees (h : ExpiresFirst cfg db clock j keys) (hk : k ∈ migrated cfg db clock j keys) :
    (lookupKeys cfg clock j keys db).db.dict k = db.dict k ∧
      (lookupKeys cfg clock j keys db).db.expires k = db.expires k ∧ db.dict k ≠ none := by
  obtain ⟨ds, hdb, -, hds⟩ : ∃ ds, (lookupKeys cfg clock j keys db).db = db.deleteAll ds ∧ _ :=
    lookupKeys_deleted db j keys
  rw [migrated, mem_filter, Bool.and_eq_true, Bool.not_eq_true'] at hk
  have hnot : k ∉ ds := by
    intro hmem
    obtain ⟨i, hi, hexp⟩ := hds k hmem
    have := h i k hi hexp
    rw [hk.2.2] at this
    cases this
  rw [hdb, Db.deleteAll_dict, Db.deleteAll_expires, if_neg hnot, if_neg hnot]
  exact ⟨rfl, rfl, Option.ne_none_iff_isSome.mpr hk.2.1⟩

end Lookup

/-! ### The command -/

/-- The commands carry the values that their keys have in the given database. -/
def OwnValues (cfg : Config V) (db : Db V) (cmds : List Command) : Prop :=
  ∀ asking k ttl payload replace, .restore asking k ttl payload replace ∈ cmds →
    ∃ o, db.dict k = some o ∧ payload = createDumpPayload cfg o k

/-- What a `MIGRATE` has to do: send every key with its own value; delete a key only when it expired or the target has
acknowledged it, and leave the others as they are; and name exactly the deleted keys in what it propagates. -/
structure Safe (cfg : Config V) (s : Server V) (q : Request) (clock : Clock) (net : Nat → Attempt) (r : Migrated V) :
    Prop where
  own : ∀ cmds ∈ r.sent, OwnValues cfg s.db cmds
  acked : ∀ k, s.db.dict k ≠ none → r.server.db.dict k = none →
    ∃ job, parseRequest q = .ok job ∧
      ((∃ j, job.keys[j]? = some k ∧ s.db.expiresNow cfg (clock.lookup j) k) ∨
        job.copy = false ∧ ∃ a cmds, r.sent[a]? = some cmds ∧ Acked (net a) cmds k)
  kept : ∀ k, r.server.db.dict k ≠ none →
    r.server.db.dict k = s.db.dict k ∧ r.server.db.expires k = s.db.expires k
  propagated : ∀ k, (∃ cmd ∈ r.propagated, k ∈ cmd.tail) ↔ s.db.dict k ≠ none ∧ r.server.db.dict k = none

/-- The inputs on which `MIGRATE` is safe whatever the network does: no key is listed twice and expires after it was
found, and every key that a second attempt would send stands at a position of the first array whose value is serialized
like its own. -/
structure Steady (cfg : Config V) (db : Db V) (clock : Clock) (keys : List Bytes) : Prop where
  once : ExpiresFirst cfg db clock.lookup 0 keys
  aligned : ∀ j k p, (remaining db (clock.attempt 0) (migrated cfg db clock.lookup 0 keys))[j]? = some k →
    (migrated cfg db clock.lookup 0 keys)[j]? = some p → db.skips (clock.attempt 1 j) k = false →
    (db.dict p).map (createDumpPayload cfg · k) = (db.dict k).map (createDumpPayload cfg · k)

section Command

variable {q : Request} {clock : Clock} {net : Nat → Attempt} {pairs : List (Bytes × Bytes)} {found : List Bytes}

lemma safe_of_deleted {m} (del : List Bytes) (hparse : parseRequest q = .ok job)
    (hdb : m.server.db = (lookupKeys cfg clock.lookup 0 job.keys s.db).db.deleteAll del)
    (hprop : m.propagated = (lookupKeys cfg clock.lookup 0 job.keys s.db).propagated ++
      if del = [] then [] else [ascii "DEL" :: del])
    (own : ∀ cmds ∈ m.sent, OwnValues cfg s.db cmds)
    (acked : ∀ k ∈ del, job.copy = false ∧ s.db.dict k ≠ none ∧ ∃ a cmds, m.sent[a]? = some cmds ∧ Acked (net a) cmds k) :
    Safe cfg s q clock net m := by
  obtain ⟨ds, hds, hnames, hexp⟩ : ∃ ds, (lookupKeys cfg clock.lookup 0 job.keys s.db).db = s.db.deleteAll ds ∧ _ :=
    lookupKeys_deleted s.db 0 job.keys
  rw [hds] at hdb
  have hdict : ∀ k, m.server.db.dict k = if k ∈ del ∨ k ∈ ds then none else s.db.dict k := by
    intro k
    rw [hdb, Db.deleteAll_dict, Db.deleteAll_dict]
    by_cases h₁ : k ∈ del <;> by_cases h₂ : k ∈ ds <;> simp [h₁, h₂]
  have hnamed : ∀ k, (∃ cmd ∈ m.propagated, k ∈ cmd.tail) ↔ k ∈ del ∨ k ∈ ds := by
    intro k
    rw [hprop]
    by_cases hdel : del = []
    · simp [hdel, hnames]
    · simp only [if_neg hdel, mem_append, mem_singleton, or_and_right, exists_or, exists_eq_left, tail_cons,
        hnames]
      exact or_comm
  have hgone : ∀ k, k ∈ del ∨ k ∈ ds → s.db.dict k ≠ none := by
    rintro k (hk | hk)
    · exact (acked k hk).2.1
    · obtain ⟨i, -, hi⟩ := hexp k hk
      exact Db.expiresNow_isSome hi
  refine ⟨own, ?_, ?_, ?_⟩
  · intro k hsome hnone
    refine ⟨job, hparse, ?_⟩
    rw [hdict] at hnone
    by_cases hk : k ∈ del
    · exact .inr ⟨(acked k hk).1, (acked k hk).2.2⟩
    by_cases hk' : k ∈ ds
    · obtain ⟨i, hi, hexpires⟩ := hexp k hk'
      rw [Nat.zero_add] at hexpires
      exact .inl ⟨i, hi, hexpires⟩
    · rw [if_neg (by simp [hk, hk'])] at hnone
      exact absurd hnone hsome
  · intro k hsome
    rw [hdict] at hsome ⊢
    by_cases hk : k ∈ del ∨ k ∈ ds
    · rw [if_pos hk] at hsome
      exact absurd rfl hsome
    · obtain ⟨h₁, h₂⟩ := not_or.mp hk
      rw [if_neg hk, hdb, Db.deleteAll_expires, Db.deleteAll_expires, if_neg h₁, if_neg h₂]
      exact ⟨rfl, rfl⟩
  · intro k
    rw [hnamed, hdict]
    constructor
    · intro hk
      rw [if_pos hk]
      exact ⟨hgone k hk, rfl⟩
    · rintro ⟨hsome, hnone⟩
      by_contra hk
      rw [if_neg hk] at hnone
      exact hsome hnone

lemma Attempted.Sound.own {r : Attempted V} {start db : Db V} (sound : r.Sound cfg job att start pairs)
    (h : ∀ e ∈ pairs, (start.dict e.2).map (createDumpPayload cfg · e.1) = (db.dict e.1).map (createDumpPayload cfg · e.1)) :
    OwnValues cfg db r.sent := by
  obtain ⟨select, rs, hsent, hall⟩ := sound.sent
  intro asking k ttl payload replace hmem
  rw [hsent, mem_append] at hmem
  rcases hmem with hmem | hmem
  · rw [preamble] at hmem
    cases job.password <;> cases select <;> simp at hmem
  obtain ⟨i, hi⟩ := mem_iff_getElem?.mp hmem
  obtain ⟨e, he, ttl', o, replace', ho, ⟨⟩⟩ := forall₂_getElem? hall.flip hi
  have heq := h e (mem_of_getElem? he)
  rw [ho] at heq
  obtain ⟨o', ho', hpayload⟩ := Option.map_eq_some_iff.mp heq.symm
  exact ⟨o', ho', hpayload.symm⟩

lemma toSend_self (clock : Nat → Int) :
    toSend db clock 0 ((found.take found.length).zip found) = (remaining db clock found).map fun k => (k, k) := by
  have hzip : found.zip found = found.map fun k => (k, k) := by
    induction found with
    | nil => rfl
    | cons k found ih => rw [zip_cons_cons, ih, map_cons]
  rw [take_length, hzip, toSend, keepFrom_map]
  rfl

lemma mem_toSend_zip {clock : Nat → Int} {kv : List Bytes} :
    (k, p) ∈ toSend db clock 0 (kv.zip found) ↔
      ∃ j, kv[j]? = some k ∧ found[j]? = some p ∧ db.skips (clock j) k = false := by
  rw [toSend, mem_keepFrom]
  simp only [Nat.zero_add, getElem?_zip_eq_some, Bool.not_eq_true', and_assoc]

/-- What every attempt leaves, with or without a socket. -/
structure Attempted.Fine (cfg : Config V) (job : Job) (att : Attempt) (start : Db V) (pairs : List (Bytes × Bytes))
    (r : Attempted V) : Prop where
  own : ∀ db : Db V, (∀ e ∈ pairs,
    (start.dict e.2).map (createDumpPayload cfg · e.1) = (db.dict e.1).map (createDumpPayload cfg · e.1)) →
    OwnValues cfg db r.sent
  acked : ∀ k ∈ r.deleted, job.copy = false ∧ k ∈ pairs.map Prod.fst ∧ Acked att r.sent k
  db : r.server.db = start.deleteAll r.deleted
  retry : ∀ w t, r.exit = .socketErr w t true → r.Sound cfg job att start pairs
  clean : Clean r.server.migrateCachedSockets

lemma attempt_fine {mayRetry : Bool} {clock : Nat → Int} {kv ov : List Bytes} {numKeys : Nat}
    (clean : Clean s.migrateCachedSockets) (hk : numKeys ≤ kv.length) (ho : numKeys ≤ ov.length) :
    Sat (fun _ => ∃ p ∈ ov, s.db.dict p = none)
      (Attempted.Fine cfg job att s.db (toSend s.db clock 0 ((kv.take numKeys).zip ov)))
      (attempt cfg job mayRetry att clock s ov kv numKeys) := by
  refine (attempt_cases clean hk ho).mono ?_
  rintro r ⟨sockets, hclean, ⟨-, reply, rfl⟩ | ⟨cs, b, select, hcs, created, rfl⟩⟩
  · exact ⟨fun _ _ => nofun, nofun, rfl, nofun, hclean⟩
  · have sound : (exchange job mayRetry att select ⟨s.db, sockets⟩ cs b).Sound cfg job att s.db _ :=
      Created.sound_exchange ⟨s.db, sockets⟩ created hclean hcs
    exact ⟨fun _ h => sound.own h, sound.acked, sound.db, fun _ _ _ => sound, sound.clean⟩

lemma Db.skips_congr {db db' : Db V} {now : Int} (h : db'.expires k = db.expires k) :
    db'.skips now k = db.skips now k := by
  rw [Db.skips, Db.skips, Db.getExpire, Db.getExpire, h]

lemma remaining_subset (clock : Nat → Int) (hk : k ∈ remaining db clock found) : k ∈ found :=
  (keepFrom_sublist ..).subset hk

lemma length_remaining_le (clock : Nat → Int) : (remaining db clock found).length ≤ found.length :=
  (keepFrom_sublist ..).length_le

def AgreeOn (keys : List Bytes) (db db' : Db V) : Prop :=
  ∀ k ∈ keys, db'.dict k = db.dict k ∧ db'.expires k = db.expires k ∧ db.dict k ≠ none

lemma AgreeOn.remaining {db db' : Db V} (h : AgreeOn found db db') (clock : Nat → Int) :
    remaining db' clock found = remaining db clock found :=
  keepFrom_congr (fun _ k hk => congrArg _ (Db.skips_congr (h k hk).2.1)) 0

lemma Steady.secondPairs {db' : Db V} {keys : List Bytes} (steady : Steady cfg db clock keys)
    (agree : AgreeOn (migrated cfg db clock.lookup 0 keys) db db') :
    ∀ e ∈ toSend db' (clock.attempt 1) 0
        ((remaining db (clock.attempt 0) (migrated cfg db clock.lookup 0 keys)).zip
          (migrated cfg db clock.lookup 0 keys)),
      (db'.dict e.2).map (createDumpPayload cfg · e.1) = (db.dict e.1).map (createDumpPayload cfg · e.1) := by
  rintro ⟨k, p⟩ he
  obtain ⟨j, hk, hp, hskip⟩ := mem_toSend_zip.mp he
  have hkeys := agree k (remaining_subset _ (mem_of_getElem? hk))
  rw [Db.skips_congr hkeys.2.1] at hskip
  rw [(agree p (mem_of_getElem? hp)).1]
  exact steady.aligned j k p hk hp hskip

lemma Attempted.Sound.leaves {r : Attempted V} {clock : Nat → Int} {w t : Bool}
    (sound : r.Sound cfg job att db ((remaining db clock found).map fun k => (k, k)))
    (hexit : r.exit = .socketErr w t true) :
    r.server.db = db ∧ r.kv.take r.numKeys = remaining db clock found ∧ r.numKeys ≤ r.kv.length ∧
      r.numKeys ≤ found.length := by
  have hkeys : r.kv.take r.numKeys = remaining db clock found := by
    rw [sound.keys, map_map]
    exact map_id _
  have hnum : r.numKeys = (remaining db clock found).length := by
    rw [sound.numKeys, length_map]
  refine ⟨?_, hkeys, ?_, ?_⟩
  · rw [sound.db, sound.retry w t hexit]
    rfl
  · have hlen := congrArg List.length hkeys
    rw [length_take, ← hnum] at hlen
    omega
  · rw [hnum]
    exact length_remaining_le _

/-- The one or two attempts of a command: what each of them leaves. -/
inductive Attempts (cfg : Config V) (job : Job) (clock : Clock) (net : Nat → Attempt) (found : Found V) :
    Migrated V → Prop
  | one {r : Attempted V}
    (fine : r.Fine cfg job (net 0) found.db ((remaining found.db (clock.attempt 0) found.kv).map fun k => (k, k))) :
    Attempts cfg job clock net found (conclude found [r.sent] r)
  | two {r r' : Attempted V}
    (fine : r.Fine cfg job (net 0) found.db ((remaining found.db (clock.attempt 0) found.kv).map fun k => (k, k)))
    (fine' : r'.Fine cfg job (net 1) found.db
      (toSend found.db (clock.attempt 1) 0 ((remaining found.db (clock.attempt 0) found.kv).zip found.kv))) :
    Attempts cfg job clock net found (conclude found [r.sent, r'.sent] r')

lemma first_fine {found : Found V} {sockets} (clean : Clean sockets) :
    Sat (fun _ => ∃ p ∈ found.kv, found.db.dict p = none)
      (Attempted.Fine cfg job att found.db ((remaining found.db (clock.attempt 0) found.kv).map fun k => (k, k)))
      (attempt cfg job true att (clock.attempt 0) ⟨found.db, sockets⟩ found.kv found.kv found.kv.length) := by
  rw [← toSend_self]
  exact attempt_fine clean le_rfl le_rfl

lemma migrateKeys_attempts {found : Found V} {sockets : List (Bytes × CachedSocket)} (clean : Clean sockets) :
    Sat (fun _ => ∃ p ∈ found.kv, found.db.dict p = none) (Attempts cfg job clock net found)
      (migrateKeys cfg job clock net ⟨found.db, sockets⟩ found) := by
  refine (first_fine clean).bind fun r fine => ?_
  split
  next w hexit =>
    obtain ⟨hdb, hkeys, hk, ho⟩ := (fine.retry w false hexit).leaves hexit
    refine ((attempt_fine fine.clean hk ho).weaken fun h => hdb ▸ h).bind fun r' fine' => ?_
    rw [hkeys, hdb] at fine'
    exact .two fine fine'
  · exact .one fine

lemma Attempts.clean {found m} (h : Attempts cfg job clock net found m) :
    Clean m.server.migrateCachedSockets := by
  cases h with
  | one fine => exact fine.clean
  | two _ fine' => exact fine'.clean

lemma migrateCommand_clean {m} (clean : Clean s.migrateCachedSockets)
    (h : migrateCommand cfg s q clock net = .ok m) : Clean m.server.migrateCachedSockets := by
  rw [migrateCommand] at h
  split at h
  · cases h
    exact clean
  dsimp only at h
  split at h
  · cases h
    exact clean
  · exact ((migrateKeys_attempts clean).of_eq h).clean

lemma Attempts.acked {found : Found V} {m : Migrated V} (h : Attempts cfg job clock net found m) :
    ∃ del, m.server.db = found.db.deleteAll del ∧
      m.propagated = found.propagated ++ (if del = [] then [] else [ascii "DEL" :: del]) ∧
      ∀ k ∈ del, job.copy = false ∧ k ∈ found.kv ∧ ∃ a cmds, m.sent[a]? = some cmds ∧ Acked (net a) cmds k := by
  cases h with
  | one fine =>
    refine ⟨_, fine.db, rfl, fun k hk => ?_⟩
    obtain ⟨hcopy, hmem, hack⟩ := fine.acked k hk
    rw [map_map] at hmem
    obtain ⟨k', hk', rfl⟩ := mem_map.mp hmem
    exact ⟨hcopy, remaining_subset _ hk', 0, _, rfl, hack⟩
  | two fine fine' =>
    refine ⟨_, fine'.db, rfl, fun k hk => ?_⟩
    obtain ⟨hcopy, hmem, hack⟩ := fine'.acked k hk
    obtain ⟨⟨k', p⟩, he, rfl⟩ := mem_map.mp hmem
    obtain ⟨j, hj, -⟩ := mem_toSend_zip.mp he
    exact ⟨hcopy, remaining_subset _ (mem_of_getElem? hj), 1, _, rfl, hack⟩

lemma Attempts.own {found m} (h : Attempts cfg job clock net found m)
    (steady : Steady cfg s.db clock job.keys) (hkv : found.kv = migrated cfg s.db clock.lookup 0 job.keys)
    (agree : AgreeOn (migrated cfg s.db clock.lookup 0 job.keys) s.db found.db) :
    ∀ cmds ∈ m.sent, OwnValues cfg s.db cmds := by
  have first : ∀ {r : Attempted V}, r.Fine cfg job (net 0) found.db
      ((remaining found.db (clock.attempt 0) found.kv).map fun k => (k, k)) → OwnValues cfg s.db r.sent := by
    intro r fine
    refine fine.own s.db fun e he => ?_
    obtain ⟨k, hk, rfl⟩ := mem_map.mp he
    have hmem := remaining_subset _ hk
    rw [hkv] at hmem
    exact congrArg _ (agree k hmem).1
  cases h with
  | one fine => exact forall_mem_singleton.mpr (first fine)
  | two fine fine' =>
    rw [hkv, agree.remaining] at fine'
    exact forall_mem_cons.mpr
      ⟨first fine, forall_mem_singleton.mpr (fine'.own s.db (steady.secondPairs agree))⟩

lemma Steady.safe (hparse : parseRequest q = .ok job) (steady : Steady cfg s.db clock job.keys)
    (clean : Clean s.migrateCachedSockets) (net : Nat → Attempt) :
    ∃ m, migrateCommand cfg s q clock net = .ok m ∧ Safe cfg s q clock net m := by
  have agree : AgreeOn (migrated cfg s.db clock.lookup 0 job.keys) s.db
      (lookupKeys cfg clock.lookup 0 job.keys s.db).db := fun k hk => steady.once.agrees hk
  have hkv := lookupKeys_kv steady.once
  rw [migrateCommand, hparse]
  dsimp only
  split
  · exact ⟨_, rfl, safe_of_deleted [] hparse rfl (append_nil _).symm nofun nofun⟩
  have present : ∀ p ∈ (lookupKeys cfg clock.lookup 0 job.keys s.db).kv,
      (lookupKeys cfg clock.lookup 0 job.keys s.db).db.dict p ≠ none := by
    rw [hkv]
    intro p hp
    rw [(agree p hp).1]
    exact (agree p hp).2.2
  obtain ⟨m, hm, attempts⟩ := ((migrateKeys_attempts clean).weaken fun ⟨p, hp, hnone⟩ => present p hp hnone).returns
  obtain ⟨del, hdb, hprop, hacked⟩ := attempts.acked
  refine ⟨m, hm, safe_of_deleted del hparse hdb hprop (attempts.own steady hkv agree) fun k hk => ?_⟩
  obtain ⟨hcopy, hmem, hack⟩ := hacked k hk
  rw [hkv] at hmem
  exact ⟨hcopy, (agree k hmem).2.2, hack⟩

def brokenNet : Attempt where
  connect := .ok
  dropped := 0
  write := fun _ => some false
  answer := fun _ => .ok
  lost := none

lemma migrateKeys_broken {found : Found V} {sockets : List (Bytes × CachedSocket)} {m : Migrated V} (clean : Clean sockets)
    (h : migrateKeys cfg job clock (fun _ => brokenNet) ⟨found.db, sockets⟩ found = .ok m)
    (hrem : remaining found.db (clock.attempt 0) found.kv ≠ []) {e : Bytes × Bytes}
    (he : e ∈ toSend found.db (clock.attempt 1) 0 ((remaining found.db (clock.attempt 0) found.kv).zip found.kv)) :
    ∃ cmds ∈ m.sent, ∃ c ∈ cmds, Restores cfg found.db e c := by
  obtain ⟨r, hr, h⟩ := bind_eq_ok.mp h
  have fine := (first_fine clean).of_eq hr
  obtain ⟨sockets', hclean, ⟨hconn, -⟩ | ⟨cs, b, select, hcs, created, rfl⟩⟩ := (attempt_cases clean le_rfl le_rfl).of_eq hr
  · exact absurd rfl hconn
  have hbroken : exchange job true brokenNet select ⟨found.db, sockets'⟩ cs b =
      .failed job ⟨found.db, sockets'⟩ b true false true := by
    obtain ⟨rs, hcmds, hall⟩ := created.cmds
    obtain ⟨k, hk⟩ := exists_mem_of_ne_nil _ hrem
    obtain ⟨i, hi⟩ := mem_iff_getElem?.mp (mem_map_of_mem (f := fun k => (k, k)) hk)
    rw [toSend_self] at hall
    obtain ⟨c, hc, -⟩ := forall₂_getElem? hall hi
    refine exchange_broken (c := c) ?_ fun _ => rfl
    rw [hcmds]
    exact mem_append_right _ (mem_of_getElem? hc)
  have hexit : (exchange job true brokenNet select ⟨found.db, sockets'⟩ cs b).exit = .socketErr true false true := by
    rw [hbroken]
    rfl
  rw [hexit] at h
  obtain ⟨r', hr', ⟨⟩⟩ := bind_eq_ok.mp h
  obtain ⟨hdb, hkeys, hk, ho⟩ := (fine.retry true false hexit).leaves hexit
  obtain ⟨sockets'', hclean', ⟨hconn, -⟩ | ⟨cs', b', select', hcs', created', rfl⟩⟩ :=
    (attempt_cases fine.clean hk ho).of_eq hr'
  · exact absurd rfl hconn
  rw [hkeys, hdb] at created'
  have sound : (exchange job false brokenNet select' ⟨found.db, sockets''⟩ cs' b').Sound cfg job brokenNet found.db _ :=
    Created.sound_exchange ⟨found.db, sockets''⟩ created' hclean' hcs'
  obtain ⟨select₂, rs, hsent, hall⟩ := sound.sent
  obtain ⟨i, hi⟩ := mem_iff_getElem?.mp he
  obtain ⟨c, hc, hrestores⟩ := forall₂_getElem? hall hi
  refine ⟨_, mem_cons_of_mem _ mem_cons_self, c, ?_, hrestores⟩
  rw [hdb, hsent]
  exact mem_append_right _ (mem_of_getElem? hc)

lemma steady_of_safe (hparse : parseRequest q = .ok job) (clean : Clean s.migrateCachedSockets)
    (h : ∃ m, migrateCommand cfg s q clock (fun _ => brokenNet) = .ok m ∧ Safe cfg s q clock (fun _ => brokenNet) m) :
    Steady cfg s.db clock job.keys := by
  obtain ⟨m, hm, safe⟩ := h
  rw [migrateCommand, hparse] at hm
  dsimp only at hm
  have once : ExpiresFirst cfg s.db clock.lookup 0 job.keys := by
    intro i k hi hexp
    by_contra hfirst
    have hmem := lookupKeys_found (mem_of_getElem? hi) (Db.expiresNow_isSome hexp) (Bool.eq_false_iff.mpr hfirst)
    have hgone := lookupKeys_gone hi hexp
    obtain ⟨n, hn⟩ := mem_iff_getElem?.mp hmem
    rw [if_neg (ne_nil_of_mem hmem)] at hm
    obtain ⟨r, hr, -⟩ := bind_eq_ok.mp hm
    have hskip : ∀ now, (lookupKeys cfg clock.lookup 0 job.keys s.db).db.skips now k = false := by
      intro now
      rw [Db.skips, Db.getExpire, (lookupKeys cfg clock.lookup 0 job.keys s.db).db.expires_sub hgone]
      rfl
    obtain ⟨sockets, -, ⟨hconn, -⟩ | ⟨cs, b, select, -, created, -⟩⟩ :=
      (attempt_cases (s := ⟨(lookupKeys cfg clock.lookup 0 job.keys s.db).db, _⟩) clean le_rfl le_rfl).of_eq hr
    · exact absurd rfl hconn
    -- The key is sent, although its value is gone.
    obtain ⟨rs, -, hall⟩ := created.cmds
    rw [take_length] at hall
    have hsent := mem_toSend_zip.mpr ⟨n, hn, hn, hskip (clock.attempt 0 n)⟩
    obtain ⟨i, hi⟩ := mem_iff_getElem?.mp hsent
    obtain ⟨c, -, ttl, o, replace, ho, -⟩ := forall₂_getElem? hall hi
    cases hgone.symm.trans ho
  refine ⟨once, fun j k p hk hp hskip => ?_⟩
  have agree : AgreeOn (migrated cfg s.db clock.lookup 0 job.keys) s.db
      (lookupKeys cfg clock.lookup 0 job.keys s.db).db := fun k hk => once.agrees hk
  have hkv := lookupKeys_kv once
  have hrem := agree.remaining (clock.attempt 0)
  rw [if_neg (by rw [hkv]; exact ne_nil_of_mem (mem_of_getElem? hp))] at hm
  have hkmem := agree k (remaining_subset _ (mem_of_getElem? hk))
  have hpmem := agree p (mem_of_getElem? hp)
  obtain ⟨cmds, hcmds, c, hc, ttl, o, replace, ho, rfl⟩ := migrateKeys_broken (e := (k, p)) clean hm
    (by rw [hkv, hrem]; exact ne_nil_of_mem (mem_of_getElem? hk))
    (by
      rw [hkv, hrem]
      exact mem_toSend_zip.mpr ⟨j, hk, hp, (Db.skips_congr hkmem.2.1).trans hskip⟩)
  obtain ⟨o', ho', hpayload⟩ := safe.own cmds hcmds _ _ _ _ _ hc
  rw [← hpmem.1, ho, ho', Option.map_some, Option.map_some, hpayload]

lemma serverStep_clean {s' ev} (clean : Clean s.migrateCachedSockets)
    (h : serverStep cfg s ev = some s') : Clean s'.migrateCachedSockets := by
  cases ev with
  | migrate q clock net =>
    obtain ⟨m, hm, rfl⟩ := Option.map_eq_some_iff.mp h
    exact migrateCommand_clean clean (toOption_eq_some.mp hm)
  | otherCommand db =>
    cases h
    exact clean
  | closeSockets names =>
    cases h
    exact clean.sublist filter_sublist

/-- A database of two keys, the first of which expires. -/
def sampleDb : Db Nat where
  dict k := if k = ascii "a" then some 1 else if k = ascii "b" then some 2 else none
  expires k := if k = ascii "a" then some 10 else none
  expires_sub := by
    intro k h
    by_cases hk : k = ascii "a"
    · rw [if_pos hk] at h
      cases h
    · rw [if_neg hk]

def sampleConfig : Config Nat where
  slave := false
  clusterEnabled := false
  lazyfreeLazyExpire := false
  rdbSaveObjectType _ := [0]
  rdbSaveObject o _ := [UInt8.ofNat o]
  crc64 _ := 0

/-- `MIGRATE h 1 "" 0 5 KEYS a b` -/
def sampleRequest : Request :=
  ⟨ascii "h", ascii "1", [], ascii "0", ascii "5", [ascii "KEYS", ascii "a", ascii "b"]⟩

def Clock.stopped (now : Int) : Clock := ⟨fun _ => now, fun _ _ => now⟩

def breaksOnce : Nat → Attempt := fun a => if a = 0 then brokenNet else { brokenNet with write := fun _ => none }

def expiresBetween : Clock := ⟨fun _ => 5, fun _ _ => 20⟩

/-- The key `b` with the value of `a`. -/
def mixedUp : List Command :=
  [.select 0, .restore false (ascii "b") 0 (createDumpPayload sampleConfig 1 (ascii "b")) false]

end Command

end JitRedis.Migrate
