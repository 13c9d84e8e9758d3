import JitRedis.Stream.Commands
import JitRedis.Stream.Ranges

/-!
# Pending entries and their owners

What the pending entries lists of a group stand for: each pending ID has one NACK and one consumer. Each function that
changes the lists changes the owner of one ID, or removes the entries of a consumer.
-/

namespace JitRedis

open Fallible List SortedMap StreamCG

/-- The addresses of the NACK and of the consumer of each pending ID. -/
abbrev Owners := Bytes → Option (Nat × Nat)

abbrev LongLong (v : Int) : Prop := -2 ^ 63 ≤ v ∧ v < 2 ^ 63

lemma longLong_toInt (n : Int64) : LongLong n.toInt := ⟨n.le_toInt, n.toInt_lt⟩

namespace StreamCG

def nameOf (cg : StreamCG) (c : Nat) : Option Bytes := (cg.consumerHeap.find? c).map StreamConsumer.name

/-- The lists of the group represent the owners. -/
structure Owned (cg : StreamCG) (own : Owners) : Prop where
  pel : ∀ k, cg.pel.find? k = (own k).map Prod.fst
  nack : ∀ {k p c}, own k = some (p, c) → ∃ time count, cg.nackHeap.find? p = some ⟨time, count, some c⟩ ∧ LongLong time
  /-- No NACK belongs to two IDs. -/
  apart : ∀ {k k' p c c'}, own k = some (p, c) → own k' = some (p, c') → k = k'
  owner : ∀ {k p c}, own k = some (p, c) → (cg.consumerHeap.find? c).isSome
  consumerPel : ∀ {c x}, cg.consumerHeap.find? c = some x →
    ∀ k, x.pel.find? k = (own k).bind fun o => if o.2 = c then some o.1 else none
  listed : ∀ {name c}, cg.consumers.find? name = some c ↔ cg.nameOf c = some name
  fresh : ∀ a, cg.next ≤ a → cg.nackHeap.find? a = none ∧ cg.consumerHeap.find? a = none

end StreamCG

/-- The lists of the consumers changed at one ID only, where they have the entry `f d` now. -/
structure PelEdit (heap heap' : SortedMap Nat StreamConsumer) (k : Bytes) (f : Nat → Option Nat) : Prop where
  names : ∀ d, (heap'.find? d).map StreamConsumer.name = (heap.find? d).map StreamConsumer.name
  pels : ∀ {d y'}, heap'.find? d = some y' → ∃ y, heap.find? d = some y ∧ y'.pel.find? k = f d ∧
    ∀ j, j ≠ k → y'.pel.find? j = y.pel.find? j

/-- The entry of a consumer for an ID. -/
def pelAt (heap : SortedMap Nat StreamConsumer) (k : Bytes) (d : Nat) : Option Nat :=
  (heap.find? d).bind fun y => y.pel.find? k

variable {heap heap' heap'' : SortedMap Nat StreamConsumer} {cg cg' : StreamCG} {own : Owners} {k : Bytes} {p c : Nat}
  {name : Bytes} {now : Int} {f g : Nat → Option Nat}

lemma PelEdit.trans (h : PelEdit heap heap' k f) (h' : PelEdit heap' heap'' k g) : PelEdit heap heap'' k g where
  names := fun d => (h'.names d).trans (h.names d)
  pels := by
    intro d z hz
    obtain ⟨y, hy, hk, hpel⟩ := h'.pels hz
    obtain ⟨x, hx, -, hpel'⟩ := h.pels hy
    exact ⟨x, hx, hk, fun j hj => (hpel j hj).trans (hpel' j hj)⟩

lemma PelEdit.isSome (h : PelEdit heap heap' k f) (d : Nat) : (heap'.find? d).isSome = (heap.find? d).isSome := by
  have hname := congrArg Option.isSome (h.names d)
  rw [Option.isSome_map, Option.isSome_map] at hname
  exact hname

variable {d old : Nat} {x : StreamConsumer} {pel : SortedMap Bytes Nat}

lemma PelEdit.pelAt_eq (h : PelEdit heap heap' k f) (hd : (heap.find? d).isSome) : pelAt heap' k d = f d := by
  rw [← h.isSome] at hd
  obtain ⟨y, hy⟩ := Option.isSome_iff_exists.mp hd
  obtain ⟨x, -, hk, -⟩ := h.pels hy
  rw [pelAt, hy, Option.bind_some, hk]

lemma PelEdit.congr (h : PelEdit heap heap' k f) (hfg : ∀ d, (heap.find? d).isSome → f d = g d) :
    PelEdit heap heap' k g where
  names := h.names
  pels := by
    intro d y' hy'
    obtain ⟨y, hy, hk, hpel⟩ := h.pels hy'
    exact ⟨y, hy, hk.trans (hfg d (by rw [hy]; rfl)), hpel⟩

lemma PelEdit.only {v} (h : PelEdit heap heap' k fun d => if d = c then v else f d)
    (hnone : ∀ d, d ≠ c → (heap.find? d).isSome → f d = none) :
    PelEdit heap heap' k fun d => if c = d then v else none := by
  refine h.congr fun d hd => ?_
  by_cases heq : d = c
  · rw [if_pos heq, if_pos heq.symm]
  · rw [if_neg heq, if_neg (Ne.symm heq), hnone d heq hd]

lemma PelEdit.insert {v} (hx : heap.find? c = some x)
    (hpel : ∀ j, j ≠ k → pel.find? j = x.pel.find? j) (hk : pel.find? k = v) :
    PelEdit heap (heap.insert c { x with pel }) k fun d => if d = c then v else pelAt heap k d where
  names := by
    intro d
    rw [find?_insert]
    split_ifs with heq
    · rw [heq, hx]
      rfl
    · rfl
  pels := by
    intro d y' hy'
    rw [find?_insert] at hy'
    split_ifs at hy' with heq
    · cases hy'
      exact ⟨x, heq ▸ hx, by rw [if_pos heq, hk], hpel⟩
    · refine ⟨y', hy', ?_, fun j _ => rfl⟩
      rw [if_neg heq, pelAt, hy']
      rfl

namespace StreamCG

lemma insertPel_eq (cg : StreamCG) (k : Bytes) (p : Nat) (hc : (cg.consumerHeap.find? c).isSome) :
    ∃ heap, cg.insertPel c k p = .ok { cg with consumerHeap := heap } ∧
      PelEdit cg.consumerHeap heap k fun d => if d = c then some p else pelAt cg.consumerHeap k d := by
  obtain ⟨x, hx⟩ := Option.isSome_iff_exists.mp hc
  refine ⟨_, ?_, .insert hx (fun j hj => find?_insert_ne hj) find?_insert_self⟩
  rw [insertPel, consumer, hx]
  rfl

lemma removePel_eq (cg : StreamCG) (k : Bytes) (hc : (cg.consumerHeap.find? c).isSome) :
    ∃ heap, cg.removePel c k = .ok { cg with consumerHeap := heap } ∧
      PelEdit cg.consumerHeap heap k fun d => if d = c then none else pelAt cg.consumerHeap k d := by
  obtain ⟨x, hx⟩ := Option.isSome_iff_exists.mp hc
  refine ⟨_, ?_, .insert hx (fun j hj => find?_erase_ne hj) find?_erase_self⟩
  rw [removePel, consumer, hx]
  rfl

lemma tryInsertPel_eq (cg : StreamCG) (k : Bytes) (p : Nat) (hc : (cg.consumerHeap.find? c).isSome) : ∃ heap,
    cg.tryInsertPel c k p = .ok ({ cg with consumerHeap := heap }, (pelAt cg.consumerHeap k c).isNone) ∧
      PelEdit cg.consumerHeap heap k fun d =>
        if d = c then (pelAt cg.consumerHeap k c).or (some p) else pelAt cg.consumerHeap k d := by
  obtain ⟨x, hx⟩ := Option.isSome_iff_exists.mp hc
  have hat : pelAt cg.consumerHeap k c = x.pel.find? k := by
    rw [pelAt, hx]
    rfl
  rw [tryInsertPel, consumer, hx, hat]
  simp only [ok_bind]
  cases hk : x.pel.find? k with
  | none =>
    exact ⟨_, rfl, .insert hx (fun j hj => find?_insert_ne hj) find?_insert_self⟩
  | some q =>
    refine ⟨cg.consumerHeap, rfl, ⟨fun d => rfl, fun {d y} hy => ⟨y, hy, ?_, fun j _ => rfl⟩⟩⟩
    split_ifs with hd
    · rw [hd, hx] at hy
      cases hy
      rw [hk]
      rfl
    · rw [pelAt, hy]
      rfl

section

variable (h : cg.Owned own)
include h

lemma Owned.setLast (id : StreamID) : { cg with lastId := id }.Owned own :=
  ⟨h.pel, h.nack, h.apart, h.owner, h.consumerPel, h.listed, h.fresh⟩

lemma Owned.update (v : Option (Nat × Nat))
    (pel : cg'.pel.find? k = v.map Prod.fst) (others : ∀ j, j ≠ k → cg'.pel.find? j = cg.pel.find? j)
    (consumers : cg'.consumers = cg.consumers)
    (edit : PelEdit cg.consumerHeap cg'.consumerHeap k fun d => v.bind fun o => if o.2 = d then some o.1 else none)
    (nacks : ∀ {j q d}, j ≠ k → own j = some (q, d) → cg'.nackHeap.find? q = cg.nackHeap.find? q)
    (new : ∀ {p c}, v = some (p, c) →
      (∃ time count, cg'.nackHeap.find? p = some ⟨time, count, some c⟩ ∧ LongLong time) ∧ (∀ {j d}, j ≠ k → own j ≠ some (p, d)) ∧ (cg.consumerHeap.find? c).isSome)
    (next : cg.next ≤ cg'.next) (fresh : ∀ a, cg'.next ≤ a → cg'.nackHeap.find? a = none) :
    cg'.Owned (Function.update own k v) where
  pel := by
    intro j
    rw [Function.update_apply]
    split_ifs with heq
    · rw [heq, pel]
    · rw [others j heq, h.pel]
  nack := by
    intro j q d hj
    rw [Function.update_apply] at hj
    split_ifs at hj with hne
    · exact (new hj).1
    · rw [nacks hne hj]
      exact h.nack hj
  apart := by
    intro j j' q d d' hj hj'
    rw [Function.update_apply] at hj hj'
    split_ifs at hj with heq
    · split_ifs at hj' with heq'
      · rw [heq, heq']
      · exact absurd hj' ((new hj).2.1 heq')
    · split at hj'
      · exact absurd hj ((new hj').2.1 heq)
      · exact h.apart hj hj'
  owner := by
    intro j q d hj
    rw [Function.update_apply] at hj
    rw [edit.isSome]
    split at hj
    · exact (new hj).2.2
    · exact h.owner hj
  consumerPel := by
    intro d y' hy' j
    obtain ⟨y, hy, hk, hpel⟩ := edit.pels hy'
    rw [Function.update_apply]
    split_ifs with heq
    · rw [heq, hk]
    · rw [hpel j heq, h.consumerPel hy]
  listed := by
    intro name d
    rw [consumers, nameOf, edit.names]
    exact h.listed
  fresh := by
    intro a ha
    have hnone := edit.names a
    rw [(h.fresh a (next.trans ha)).2, Option.map_none, Option.map_eq_none_iff] at hnone
    exact ⟨fresh a ha, hnone⟩

lemma Owned.setNack {time time' : Int} {count count' : Nat} {owner}
    (hp : cg.nackHeap.find? p = some ⟨time, count, owner⟩) (htime : LongLong time') :
    (cg.setNack p ⟨time', count', owner⟩).Owned own where
  pel := h.pel
  nack := by
    intro j q d hj
    obtain ⟨t, n, hq, ht⟩ := h.nack hj
    by_cases heq : q = p
    · subst heq
      rw [hp] at hq
      cases hq
      exact ⟨time', count', by rw [StreamCG.setNack, find?_insert, if_pos rfl], htime⟩
    · exact ⟨t, n, by rw [StreamCG.setNack, find?_insert, if_neg heq, hq], ht⟩
  apart := h.apart
  owner := h.owner
  consumerPel := h.consumerPel
  listed := h.listed
  fresh := by
    intro a ha
    have hne : a ≠ p := by
      intro heq
      rw [(h.fresh p (heq ▸ ha)).1] at hp
      cases hp
    rw [StreamCG.setNack, find?_insert, if_neg hne]
    exact h.fresh a ha

lemma Owned.setConsumer (x' : StreamConsumer) (hx : cg.consumerHeap.find? c = some x)
    (hname : x'.name = x.name) (hpel : x'.pel = x.pel) :
    (cg.setConsumer c x').Owned own ∧ (cg.setConsumer c x').nameOf = cg.nameOf := by
  have names : (cg.setConsumer c x').nameOf = cg.nameOf := by
    funext d
    rw [nameOf, nameOf, StreamCG.setConsumer, find?_insert]
    split_ifs with heq
    · rw [heq, hx, Option.map_some, Option.map_some, hname]
    · rfl
  refine ⟨⟨h.pel, h.nack, h.apart, ?_, ?_, ?_, ?_⟩, names⟩
  · intro j q d hj
    rw [StreamCG.setConsumer, find?_insert]
    split
    · rfl
    · exact h.owner hj
  · intro d y hy j
    rw [StreamCG.setConsumer, find?_insert] at hy
    split_ifs at hy with heq
    · cases hy
      rw [hpel, heq]
      exact h.consumerPel hx j
    · exact h.consumerPel hy j
  · intro name d
    rw [names]
    exact h.listed
  · intro a ha
    have hne : a ≠ c := by
      intro heq
      rw [(h.fresh c (heq ▸ ha)).2] at hx
      cases hx
    rw [StreamCG.setConsumer, find?_insert, if_neg hne]
    exact h.fresh a ha

lemma Owned.addConsumer (hname : cg.consumers.find? name = none) :
    { cg with
      consumers := cg.consumers.insert name cg.next
      consumerHeap := cg.consumerHeap.insert cg.next ⟨now, name, .empty⟩
      next := cg.next + 1 }.Owned own := by
  have hnone := (h.fresh cg.next le_rfl).2
  have names : ∀ d, (nameOf { cg with
      consumers := cg.consumers.insert name cg.next
      consumerHeap := cg.consumerHeap.insert cg.next ⟨now, name, .empty⟩
      next := cg.next + 1 } d) = if d = cg.next then some name else cg.nameOf d := by
    intro d
    rw [nameOf, find?_insert]
    split <;> rfl
  refine ⟨h.pel, h.nack, h.apart, ?_, ?_, ?_, ?_⟩
  · intro j q d hj
    rw [find?_insert]
    split
    · rfl
    · exact h.owner hj
  · intro d y hy j
    rw [find?_insert] at hy
    split at hy
    · rename_i heq
      cases hy
      rw [find?_empty]
      cases hj : own j with
      | none => rfl
      | some o =>
        obtain ⟨q, e⟩ := o
        have hne : e ≠ d := by
          intro he
          have := h.owner hj
          rw [he, heq, hnone] at this
          cases this
        rw [Option.bind_some, if_neg hne]
    · exact h.consumerPel hy j
  · intro name' d
    rw [names, find?_insert]
    split
    · rename_i heq
      subst heq
      constructor
      · intro hd
        rw [if_pos (Option.some.inj hd).symm]
      · intro hd
        split at hd
        · rename_i hdn
          rw [hdn]
        · rw [← h.listed, hname] at hd
          cases hd
    · rename_i hne
      rw [h.listed]
      split_ifs with hd
      · rw [hd, nameOf, hnone]
        simp [Ne.symm hne]
      · rfl
  · intro a ha
    have hne : a ≠ cg.next := by
      simp only at ha
      omega
    rw [find?_insert, if_neg hne]
    exact h.fresh a (by simp only at ha; omega)

lemma Owned.pelAt_eq (hd : (cg.consumerHeap.find? d).isSome) :
    pelAt cg.consumerHeap k d = (own k).bind fun o => if o.2 = d then some o.1 else none := by
  obtain ⟨y, hy⟩ := Option.isSome_iff_exists.mp hd
  rw [pelAt, hy, Option.bind_some, h.consumerPel hy]

lemma Owned.pelAt_none (hk : own k = none) (hd : (cg.consumerHeap.find? d).isSome) :
    pelAt cg.consumerHeap k d = none := by
  rw [h.pelAt_eq hd, hk]
  rfl

lemma Owned.pelAt_other (hk : own k = some (p, old)) (hne : d ≠ old) (hd : (cg.consumerHeap.find? d).isSome) :
    pelAt cg.consumerHeap k d = none := by
  rw [h.pelAt_eq hd, hk, Option.bind_some, if_neg hne.symm]

lemma Owned.mem_pel (hx : cg.consumerHeap.find? c = some x) :
    (k, p) ∈ x.pel.entries ↔ own k = some (p, c) := by
  rw [← find?_eq_some, h.consumerPel hx]
  cases own k with
  | none => simp
  | some o =>
    obtain ⟨q, d⟩ := o
    by_cases hd : d = c
    · simp [hd]
    · simp [hd]

lemma Owned.allocated {j : Bytes} {q : Nat} (hj : own j = some (q, d)) : q < cg.next := by
  obtain ⟨t, n, hq, -⟩ := h.nack hj
  by_contra hge
  rw [(h.fresh q (by omega)).1] at hq
  cases hq

lemma Owned.moved {heap} (nacks : SortedMap Nat StreamNACK)
    (next : Nat) {nack} (hk : own k = some (p, old)) (hc : (cg.consumerHeap.find? c).isSome)
    (hnack : nack.consumer = some c) (htime : LongLong nack.deliveryTime) (hp : nacks.find? p = some nack)
    (hnacks : ∀ q, q < cg.next → q ≠ p → nacks.find? q = cg.nackHeap.find? q)
    (hfresh : ∀ a, next ≤ a → nacks.find? a = none) (hnext : cg.next ≤ next)
    (edit : PelEdit cg.consumerHeap heap k fun d => if c = d then some p else none) :
    { cg with consumerHeap := heap, nackHeap := nacks, next := next }.Owned (Function.update own k (some (p, c))) := by
  refine h.update (some (p, c)) ?_ (fun j _ => rfl) rfl edit ?_ ?_ hnext hfresh
  · rw [h.pel, hk]
    rfl
  · intro j q d hj hq
    exact hnacks q (h.allocated hq) fun heq => hj (h.apart (heq ▸ hq) hk)
  · intro q d heq
    cases heq
    refine ⟨⟨nack.deliveryTime, nack.deliveryCount, ?_, htime⟩, fun {j d} hj heq => hj (h.apart heq hk), hc⟩
    rw [← hnack]
    exact hp

lemma Owned.added {heap} (nack : StreamNACK)
    (hc : (cg.consumerHeap.find? c).isSome) (hnack : nack.consumer = some c) (htime : LongLong nack.deliveryTime)
    (edit : PelEdit cg.consumerHeap heap k fun d => if c = d then some cg.next else none) :
    { cg with
      pel := cg.pel.insert k cg.next
      consumerHeap := heap
      nackHeap := cg.nackHeap.insert cg.next nack
      next := cg.next + 1 }.Owned (Function.update own k (some (cg.next, c))) := by
  refine h.update (some (cg.next, c)) find?_insert_self (fun j hj => find?_insert_ne hj) rfl edit
    ?_ ?_ (Nat.le_succ _) ?_
  · intro j q d hj hq
    exact find?_insert_ne (h.allocated hq).ne
  · intro q d heq
    cases heq
    refine ⟨⟨nack.deliveryTime, nack.deliveryCount, ?_, htime⟩, fun {j d} hj heq => (h.allocated heq).ne rfl, hc⟩
    rw [← hnack]
    exact find?_insert_self
  · intro a ha
    simp only at ha ⊢
    rw [find?_insert_ne (by omega)]
    exact (h.fresh a (by omega)).1

end

/-- What giving an entry to a consumer does. -/
structure Gives (cg : StreamCG) (own : Owners) (k : Bytes) (c : Nat) (time : Int) (count : Nat)
    (r : StreamCG × Nat) : Prop where
  owned : r.1.Owned (Function.update own k (some (r.2, c)))
  names : r.1.nameOf = cg.nameOf
  lastId : r.1.lastId = cg.lastId
  nack : r.1.nackHeap.find? r.2 = some ⟨time, count, some c⟩
  others : ∀ {j q d}, j ≠ k → own j = some (q, d) → r.1.nackHeap.find? q = cg.nackHeap.find? q

lemma isSome_of_nameOf (hname : cg.nameOf c = some name) : (cg.consumerHeap.find? c).isSome := by
  obtain ⟨x, hx, -⟩ := Option.map_eq_some_iff.mp hname
  rw [hx]
  rfl

lemma nameOf_edit {lastId consumers nacks}
    {next : Nat} (edit : PelEdit cg.consumerHeap heap k f) :
    nameOf ⟨lastId, pel, consumers, nacks, heap, next⟩ = cg.nameOf := by
  funext d
  exact edit.names d

lemma deliver_new (hnow : LongLong now) (h : cg.Owned own) (hk : own k = none) (hc : (cg.consumerHeap.find? c).isSome) :
    Sat NoFault (Gives cg own k c now 1) (streamDeliverNACK cg c k now) := by
  have hgroup : cg.pel.find? k = none := by
    rw [h.pel, hk]
    rfl
  obtain ⟨heap, htry, edit⟩ := tryInsertPel_eq { cg with
    pel := cg.pel.insert k cg.next, nackHeap := cg.nackHeap.insert cg.next ⟨now, 1, some c⟩, next := cg.next + 1 }
    k cg.next hc
  simp only [h.pelAt_none hk hc, Option.isNone_none] at htry edit
  simp only [streamDeliverNACK, streamCreateNACK, hgroup, Option.isNone_none, if_true, htry, ok_bind, Bool.not_true,
    Bool.false_eq_true, if_false]
  have edit' := edit.only fun d _ hd => h.pelAt_none hk hd
  exact ⟨h.added _ hc rfl hnow edit', nameOf_edit edit', rfl, find?_insert_self,
    fun _ hq => find?_insert_ne (h.allocated hq).ne⟩

lemma handOver_eq (cg : StreamCG) (k : Bytes) (p : Nat) (nack : StreamNACK)
    (hold : (cg.consumerHeap.find? old).isSome) (hc : (cg.consumerHeap.find? c).isSome)
    (hothers : ∀ d, d ≠ c → d ≠ old → (cg.consumerHeap.find? d).isSome → pelAt cg.consumerHeap k d = none) :
    ∃ heap, (cg.removePel old k >>= fun cg => (cg.setNack p nack).insertPel c k p) =
        .ok { cg with consumerHeap := heap, nackHeap := cg.nackHeap.insert p nack } ∧
      PelEdit cg.consumerHeap heap k fun d => if c = d then some p else none := by
  obtain ⟨heap₁, hremove, edit₁⟩ := removePel_eq cg k hold
  obtain ⟨heap₂, hinsert, edit₂⟩ := insertPel_eq (setNack { cg with consumerHeap := heap₁ } p nack) k p
    ((edit₁.isSome c).trans hc)
  refine ⟨heap₂, ?_, edit₁.trans (edit₂.only fun d heq hd => ?_)⟩
  · rw [hremove, ok_bind, hinsert]
    rfl
  · have hd' := (edit₁.isSome d).symm.trans hd
    refine (edit₁.pelAt_eq hd').trans ?_
    split_ifs with hne
    · rfl
    · exact hothers d heq hne hd'

lemma deliver_again (hnow : LongLong now) (h : cg.Owned own) (hk : own k = some (p, old))
    (hc : (cg.consumerHeap.find? c).isSome) : Sat NoFault (Gives cg own k c now 1) (streamDeliverNACK cg c k now) := by
  have hgroup : cg.pel.find? k = some p := by
    rw [h.pel, hk]
    rfl
  obtain ⟨time, count, hp, -⟩ := h.nack hk
  have hpn := h.allocated hk
  have hne : p ≠ cg.next := hpn.ne
  obtain ⟨heap₁, htry, edit₁⟩ := tryInsertPel_eq { cg with
    nackHeap := cg.nackHeap.insert cg.next ⟨now, 1, some c⟩, next := cg.next + 1 } k cg.next hc
  -- The NACK that was created is not used after all.
  obtain ⟨nacks, hnacks⟩ : ∃ nacks, nacks = (cg.nackHeap.insert cg.next ⟨now, 1, some c⟩).erase cg.next := ⟨_, rfl⟩
  have hsame : ∀ q, q ≠ cg.next → nacks.find? q = cg.nackHeap.find? q := by
    intro q hq
    rw [hnacks, find?_erase_ne hq, find?_insert_ne hq]
  have hfree : streamFreeNACK { cg with
      consumerHeap := heap₁, nackHeap := cg.nackHeap.insert cg.next ⟨now, 1, some c⟩, next := cg.next + 1 } cg.next =
      .ok { cg with consumerHeap := heap₁, nackHeap := nacks, next := cg.next + 1 } := by
    simp only [streamFreeNACK, nack, find?_insert_self, ok_bind, hnacks]
  obtain ⟨heap₂, hmove, edit₂⟩ := handOver_eq { cg with consumerHeap := heap₁, nackHeap := nacks, next := cg.next + 1 } k
    p ⟨now, 1, some c⟩ ((edit₁.isSome old).trans (h.owner hk)) ((edit₁.isSome c).trans hc) (by
      intro d hdc hdo hd
      have hd' := (edit₁.isSome d).symm.trans hd
      refine (edit₁.pelAt_eq hd').trans ?_
      rw [if_neg hdc]
      exact h.pelAt_other hk hdo hd')
  have edit := edit₁.trans edit₂
  have result : streamDeliverNACK cg c k now = .ok ({ cg with
      consumerHeap := heap₂, nackHeap := nacks.insert p ⟨now, 1, some c⟩, next := cg.next + 1 }, p) := by
    simp only [streamDeliverNACK, streamCreateNACK, hgroup, Option.isNone_some, Bool.false_eq_true, if_false, htry,
      ok_bind, Bool.not_false, if_true, hfree, streamReassignNACK, nack, hsame p hne, hp]
    rw [← bind_assoc, hmove]
    rfl
  rw [result]
  have hothers : ∀ q, q < cg.next → q ≠ p →
      (nacks.insert p ⟨now, 1, some c⟩).find? q = cg.nackHeap.find? q := by
    intro q hq hqp
    rw [find?_insert_ne hqp, hsame q (by omega)]
  refine ⟨h.moved _ _ hk hc rfl hnow find?_insert_self hothers ?_ (Nat.le_succ _) edit, nameOf_edit edit,
    rfl, find?_insert_self, fun hj hq => hothers _ (h.allocated hq) fun heq => hj (h.apart (heq ▸ hq) hk)⟩
  · intro a ha
    rw [find?_insert_ne (by omega), hsame a (by omega)]
    exact (h.fresh a (by omega)).1

lemma streamDeliverNACK_spec (hnow : LongLong now) (h : cg.Owned own) (hc : (cg.consumerHeap.find? c).isSome)
    (k : Bytes) :
    Sat NoFault (Gives cg own k c now 1) (streamDeliverNACK cg c k now) := by
  cases hk : own k with
  | none => exact deliver_new hnow h hk hc
  | some o => exact deliver_again hnow h hk hc

/-- What acknowledging an entry does. -/
structure Acks (cg : StreamCG) (own : Owners) (k : Bytes) (r : StreamCG × Nat) : Prop where
  owned : r.1.Owned (Function.update own k none)
  names : r.1.nameOf = cg.nameOf
  lastId : r.1.lastId = cg.lastId
  count : r.2 = if (own k).isSome then 1 else 0

lemma streamAck_spec (h : cg.Owned own) (k : Bytes) : Sat NoFault (Acks cg own k) (streamAck cg k) := by
  rw [streamAck, h.pel]
  cases hk : own k with
  | none =>
    refine ⟨?_, rfl, rfl, by rw [hk]; rfl⟩
    rw [← hk, Function.update_eq_self]
    exact h
  | some o =>
    obtain ⟨p, c⟩ := o
    obtain ⟨time, count, hp, -⟩ := h.nack hk
    obtain ⟨heap, hremove, edit⟩ := removePel_eq { cg with pel := cg.pel.erase k } k (h.owner hk)
    have edit' : PelEdit cg.consumerHeap heap k fun _ => none := by
      refine edit.congr fun d hd => ?_
      split_ifs with hne
      · rfl
      · exact h.pelAt_other hk hne hd
    simp only [Option.map_some, nack, hp, ok_bind, hremove, streamFreeNACK]
    refine ⟨h.update none find?_erase_self (fun j hj => find?_erase_ne hj) rfl edit' ?_ ?_ le_rfl ?_,
      nameOf_edit edit', rfl, by rw [hk]; rfl⟩
    · intro j q d hj hq
      exact find?_erase_ne fun heq => hj (h.apart (heq ▸ hq) hk)
    · intro q d heq
      cases heq
    · intro a ha
      rw [find?_erase]
      split
      · rfl
      · exact (h.fresh a ha).1

lemma streamLookupConsumer_create (h : cg.Owned own) (name : Bytes) (now : Int) :
    Sat NoFault (fun r => ∃ c, r.2 = some c ∧ r.1.Owned own ∧ r.1.nameOf c = some name ∧ r.1.lastId = cg.lastId ∧
        r.1.pel = cg.pel ∧ r.1.nackHeap = cg.nackHeap ∧ ∀ d n, cg.nameOf d = some n → r.1.nameOf d = some n)
      (streamLookupConsumer cg name true now) := by
  rw [streamLookupConsumer]
  cases hname : cg.consumers.find? name with
  | some c =>
    have hc := h.listed.mp hname
    obtain ⟨x, hx, -⟩ := Option.map_eq_some_iff.mp hc
    obtain ⟨owned, names⟩ := h.setConsumer { x with seenTime := now } hx rfl rfl
    simp only [consumer, hx, ok_bind]
    refine ⟨c, rfl, owned, ?_, rfl, rfl, rfl, fun d n hd => ?_⟩
    · rw [names]
      exact hc
    · rw [names]
      exact hd
  | none =>
    refine ⟨cg.next, rfl, h.addConsumer hname, ?_, rfl, rfl, rfl, fun d n hd => ?_⟩
    · rw [nameOf, find?_insert_self]
      rfl
    · have hne : d ≠ cg.next := by
        intro heq
        rw [nameOf, heq, (h.fresh cg.next le_rfl).2] at hd
        cases hd
      rw [nameOf, find?_insert_ne hne]
      exact hd

/-- The owners without those entries of a consumer. -/
def withoutOwner (own : Owners) (c : Nat) : Owners := fun k => (own k).bind fun o => if o.2 = c then none else some o

def Without {K V : Type} [LinearOrder K] (keys : List K) (m m' : SortedMap K V) : Prop :=
  (∀ j ∈ keys, m'.find? j = none) ∧ ∀ j ∉ keys, m'.find? j = m.find? j

lemma Without.cons {K V : Type} [LinearOrder K] {keys : List K} {k : K} {m m' : SortedMap K V}
    (h : Without keys (m.erase k) m') : Without (k :: keys) m m' := by
  refine ⟨fun j hj => ?_, fun j hj => ?_⟩
  · by_cases hmem : j ∈ keys
    · exact h.1 j hmem
    · rw [h.2 j hmem, (mem_cons.mp hj).resolve_right hmem, find?_erase_self]
  · rw [mem_cons, not_or] at hj
    rw [h.2 j hj.2, find?_erase_ne hj.1]

lemma streamDelPending_spec {ri} (cg : StreamCG)
    (hheap : ∀ e ∈ ri, (cg.nackHeap.find? e.2).isSome) (hnodup : (ri.map Prod.snd).Nodup) :
    Sat NoFault (fun r => ∃ pel nackHeap, r = { cg with pel, nackHeap } ∧ Without (ri.map Prod.fst) cg.pel pel ∧
        Without (ri.map Prod.snd) cg.nackHeap nackHeap)
      (streamDelPending cg ri) := by
  induction ri generalizing cg with
  | nil => exact ⟨_, _, rfl, ⟨by simp, fun j _ => rfl⟩, ⟨by simp, fun j _ => rfl⟩⟩
  | cons e ri ih =>
    obtain ⟨key, p⟩ := e
    obtain ⟨nack, hp⟩ := Option.isSome_iff_exists.mp (hheap (key, p) (mem_cons_self ..))
    rw [map_cons, nodup_cons] at hnodup
    simp only [streamDelPending, streamFreeNACK, StreamCG.nack, hp, ok_bind]
    refine (ih _ ?_ hnodup.2).mono fun r hr => ?_
    · intro e he
      have hne : e.2 ≠ p := by
        intro heq
        exact hnodup.1 (mem_map.mpr ⟨e, he, heq⟩)
      rw [find?_erase_ne hne]
      exact hheap e (mem_cons_of_mem _ he)
    · obtain ⟨pel, nackHeap, rfl, hpel, hnacks⟩ := hr
      exact ⟨pel, nackHeap, rfl, hpel.cons, hnacks.cons⟩

lemma Owned.dropConsumer (h : cg.Owned own)
    {nackHeap} (hx : cg.consumerHeap.find? c = some x)
    (hpel : Without (x.pel.entries.map Prod.fst) cg.pel pel)
    (hnacks : Without (x.pel.entries.map Prod.snd) cg.nackHeap nackHeap) :
    { cg with
      pel, nackHeap
      consumers := cg.consumers.erase x.name
      consumerHeap := cg.consumerHeap.erase c }.Owned (withoutOwner own c) := by
  have hkeys : ∀ {j q}, (j, q) ∈ x.pel.entries ↔ own j = some (q, c) := h.mem_pel hx
  have hmem : ∀ {j}, j ∈ x.pel.entries.map Prod.fst ↔ ∃ q, own j = some (q, c) := by
    intro j
    constructor
    · intro hj
      obtain ⟨⟨j', q⟩, he, rfl⟩ := mem_map.mp hj
      exact ⟨q, hkeys.mp he⟩
    · rintro ⟨q, hq⟩
      exact mem_map.mpr ⟨(j, q), hkeys.mpr hq, rfl⟩
  have hkept : ∀ {j q d}, withoutOwner own c j = some (q, d) ↔ own j = some (q, d) ∧ d ≠ c := by
    intro j q d
    rw [withoutOwner]
    cases own j with
    | none => simp
    | some o =>
      by_cases ho : o.2 = c
      · simp [ho]
        rintro rfl
        exact ho
      · simp [ho]
        rintro rfl
        exact ho
  have hname : ∀ d, (cg.consumerHeap.erase c).find? d = if d = c then none else cg.consumerHeap.find? d := fun d =>
    find?_erase
  refine ⟨?_, ?_, ?_, ?_, ?_, ?_, ?_⟩
  · intro j
    by_cases hj : j ∈ x.pel.entries.map Prod.fst
    · obtain ⟨q, hq⟩ := hmem.mp hj
      rw [hpel.1 j hj, withoutOwner, hq]
      simp
    rw [hpel.2 j hj, h.pel, withoutOwner]
    cases hown : own j with
    | none => rfl
    | some o =>
      obtain ⟨q, d⟩ := o
      have hne : d ≠ c := fun heq => hj (hmem.mpr ⟨q, heq ▸ hown⟩)
      simp [hne]
  · intro j q d hj
    obtain ⟨hj, hne⟩ := hkept.mp hj
    have hq : q ∉ x.pel.entries.map Prod.snd := by
      intro hq
      obtain ⟨⟨j', q'⟩, he, rfl⟩ := mem_map.mp hq
      have hj' := hkeys.mp he
      rw [h.apart hj hj', hj'] at hj
      cases hj
      exact hne rfl
    rw [hnacks.2 q hq]
    exact h.nack hj
  · intro j j' q d d' hj hj'
    exact h.apart (hkept.mp hj).1 (hkept.mp hj').1
  · intro j q d hj
    obtain ⟨hj, hne⟩ := hkept.mp hj
    rw [hname, if_neg hne]
    exact h.owner hj
  · intro d y hy j
    rw [hname] at hy
    split at hy
    · cases hy
    rename_i hne
    rw [h.consumerPel hy, withoutOwner]
    cases hown : own j with
    | none => rfl
    | some o =>
      obtain ⟨q, e⟩ := o
      by_cases he : e = c
      · simp [he, Ne.symm hne]
      · simp [he]
  · intro name d
    have hc : cg.nameOf c = some x.name := by
      rw [nameOf, hx]
      rfl
    rw [nameOf, hname]
    by_cases hd : d = c
    · rw [if_pos hd]
      constructor
      · intro hlist
        by_cases hn : name = x.name
        · rw [hn, find?_erase_self] at hlist
          cases hlist
        · rw [find?_erase_ne hn, h.listed, hd, hc] at hlist
          cases hlist
          exact absurd rfl hn
      · intro hnone
        cases hnone
    · rw [if_neg hd]
      by_cases hn : name = x.name
      · rw [hn, find?_erase_self]
        constructor
        · intro hnone
          cases hnone
        · intro hname'
          have := h.listed.mpr hname'
          rw [h.listed.mpr hc] at this
          exact absurd (Option.some.inj this).symm hd
      · rw [find?_erase_ne hn]
        exact h.listed
  · intro a ha
    refine ⟨?_, ?_⟩
    · by_cases hq : a ∈ x.pel.entries.map Prod.snd
      · exact hnacks.1 a hq
      · rw [hnacks.2 a hq]
        exact (h.fresh a ha).1
    · rw [hname]
      split
      · rfl
      · exact (h.fresh a ha).2

/-- What deleting a consumer does. -/
structure DropsConsumer (cg : StreamCG) (own : Owners) (name : Bytes) (r : StreamCG × Nat) : Prop where
  owned : r.1.Owned (match cg.consumers.find? name with
    | some c => withoutOwner own c
    | none => own)
  names : ∀ d n, n ≠ name → (r.1.nameOf d = some n ↔ cg.nameOf d = some n)
  lastId : r.1.lastId = cg.lastId

lemma streamDelConsumer_spec (h : cg.Owned own) (name : Bytes) (now : Int) :
    Sat NoFault (DropsConsumer cg own name) (streamDelConsumer cg name now) := by
  rw [streamDelConsumer, streamLookupConsumer]
  cases hname : cg.consumers.find? name with
  | none =>
    refine ⟨?_, fun d n _ => Iff.rfl, rfl⟩
    rw [hname]
    exact h
  | some c =>
    have hc := h.listed.mp hname
    obtain ⟨x, hx, rfl⟩ := Option.map_eq_some_iff.mp hc
    obtain ⟨owned, names⟩ := h.setConsumer { x with seenTime := now } hx rfl rfl
    have hx' : (cg.setConsumer c { x with seenTime := now }).consumerHeap.find? c = some { x with seenTime := now } :=
      find?_insert_self
    simp only [consumer, hx, ok_bind, hx']
    have hentries : ∀ {j q}, (j, q) ∈ x.pel.entries → own j = some (q, c) := (h.mem_pel hx).mp
    have hnodup : (x.pel.entries.map Prod.snd).Nodup := by
      rw [List.Nodup, pairwise_map]
      refine x.pel.sorted.imp_of_mem fun {a b} ha hb lt heq => ?_
      have hb' := hentries hb
      rw [← heq] at hb'
      exact absurd (h.apart (hentries ha) hb') lt.ne
    refine Sat.bind (streamDelPending_spec _ (fun e he => ?_) hnodup) fun r hr => ?_
    · obtain ⟨time, count, hp, -⟩ := owned.nack (hentries he)
      rw [hp]
      rfl
    · obtain ⟨pel, nackHeap, rfl, hpel, hnacks⟩ := hr
      have dropped := owned.dropConsumer hx' hpel hnacks
      refine ⟨?_, fun d n hn => ?_, rfl⟩
      · rw [hname]
        exact dropped
      · have hlist := @StreamCG.Owned.listed _ _ dropped n d
        rw [← names, ← owned.listed, ← hlist]
        rw [find?_erase_ne hn]

/-- The command that propagates a NACK. -/
def xclaimArgv (key groupname name id : Bytes) (time count : Int) (lastId : StreamID) : List Bytes :=
  [ascii "XCLAIM", key, groupname, name, ll2string 0, id, ascii "TIME", ll2string time, ascii "RETRYCOUNT",
    ll2string count, ascii "FORCE", ascii "JUSTID", ascii "LASTID", streamIDText lastId]

lemma streamPropagateXCLAIM_eq {time : Int} {count : Nat} (hp : cg.nackHeap.find? p = some ⟨time, count, some c⟩)
    (hname : cg.nameOf c = some name) (key groupname id : Bytes) :
    streamPropagateXCLAIM key groupname cg id p =
      .ok (xclaimArgv key groupname name id time (UInt64.ofNat count).toInt64.toInt cg.lastId) := by
  obtain ⟨x, hx, rfl⟩ := Option.map_eq_some_iff.mp hname
  simp only [streamPropagateXCLAIM, nack, hp, consumer, hx, ok_bind]
  rfl

end StreamCG

/-- All nodes of the stream are laid out well. -/
def Stream.Rendered (s : Stream) : Prop := ∀ e ∈ s.rax.entries, ∃ n : StreamNode, n.Renders e

def Stream.Finds (s : Stream) (id : StreamID) : Prop :=
  ∃ si item, streamIteratorGetID (streamIteratorStart s (some id) (some id) false) = .ok (si, some item)

variable {s : Stream} {start stop : Option StreamID} {rev : Bool}

lemma Stream.Rendered.getID (h : s.Rendered) (start stop : Option StreamID) (rev : Bool) :
    ∃ r, streamIteratorGetID (streamIteratorStart s start stop rev) = .ok r := by
  obtain ⟨nodes, -, ready⟩ := ready_start start stop rev h
  obtain ⟨r, hr, -⟩ := (ready.getID fun _ _ h => h).returns
  exact ⟨r, hr⟩

lemma Stream.Rendered.forEach {σ : Type} (h : s.Rendered) (start stop : Option StreamID) (rev : Bool) (count : Nat)
    (visit : σ → StreamID → List (Bytes × Bytes) → Except Fault σ) (st : σ) : ∃ items : List StreamItem,
      streamForEach visit count s.fuel (streamIteratorStart s start stop rev) 0 st =
        (items.foldlM (fun st i => visit st i.id i.fields) st).map fun st => (st, items.length) := by
  obtain ⟨nodes, hseek, ready⟩ := ready_start start stop rev h
  have hfuel := length_nodesAhead_lt_fuel (fun _ _ h => h) hseek (streamIteratorStart s start stop rev).near
  have heach : streamForEach visit count s.fuel (streamIteratorStart s start stop rev) 0 st = _ :=
    streamForEach_eq (fun _ _ h => h) ready hfuel (Nat.eq_zero_or_pos count)
  simp only [Nat.zero_add] at heach
  exact ⟨_, heach⟩

lemma Stream.Rendered.replyRaw (h : s.Rendered) (start stop : Option StreamID) (count : Nat) (rev : Bool) :
    ∃ r, streamReplyRaw s start stop count rev = .ok r := by
  obtain ⟨items, heq⟩ := h.forEach start stop rev count
    (fun (reply : Reply) id fields => .ok (reply ++ replyEntry id fields)) []
  have hfold : ∀ (l : List StreamItem) (reply : Reply), ∃ r, l.foldlM (fun (reply : Reply) i =>
      (.ok (reply ++ replyEntry i.id i.fields) : Except Fault Reply)) reply = .ok r := by
    intro l
    induction l with
    | nil => exact fun reply => ⟨reply, rfl⟩
    | cons i l ih =>
      intro reply
      exact ih _
  obtain ⟨r, hr⟩ := hfold items []
  exact ⟨_, heq.trans (by rw [hr]; rfl)⟩

/-- What a turn of the loop of `XCLAIM` does with an entry: nothing, or it gives the entry to the consumer. -/
inductive ClaimsEntry (s : Stream) (key groupname arg name : Bytes) (o : XclaimOpts) (minidle : Int) (consumer : Nat)
    (own : Owners) (id : StreamID) (st : ClaimState) : ClaimState → Prop
  | skipped (h : (own (streamEncodeID id)).isSome ∧ minidle ≠ 0 ∨
      own (streamEncodeID id) = none ∧ (o.force = true → ¬ s.Finds id)) :
    ClaimsEntry s key groupname arg name o minidle consumer own id st st
  | claimed {p count : Nat} {group : StreamCG} {entry : Reply}
    (known : (own (streamEncodeID id)).isSome ∨ o.force = true ∧ s.Finds id ∧ count = xclaimCount o 1)
    (gives : st.group.Gives own (streamEncodeID id) consumer o.deliverytime count (group, p)) :
    ClaimsEntry s key groupname arg name o minidle consumer own id st ⟨group, st.reply ++ entry, st.arraylen + 1, false,
      st.dirty + 1, st.propagated ++ [StreamCG.xclaimArgv key groupname name arg o.deliverytime
        (UInt64.ofNat count).toInt64.toInt st.group.lastId]⟩

lemma xclaimReply_ok (h : s.Rendered) (id : StreamID) (justid : Bool) : ∃ r, xclaimReply s id justid = .ok r := by
  rw [xclaimReply]
  split
  · exact ⟨_, rfl⟩
  · obtain ⟨r, hr⟩ := h.replyRaw (some id) (some id) 1 false
    rw [hr]
    exact ⟨_, rfl⟩

section Claim

variable {key groupname arg : Bytes} {o : XclaimOpts} {minidle : Int} {id : StreamID} {st : ClaimState}

section

variable (htime : LongLong o.deliverytime) (hs : s.Rendered) (h : st.group.Owned own) (hname : st.group.nameOf c = some name) (harg : streamParseStrictID arg 0 = some id)
include htime hs h hname harg

lemma xclaimEntry_pending (hk : own (streamEncodeID id) = some (p, old)) :
    Sat NoFault (ClaimsEntry s key groupname arg name o minidle c own id st)
      (xclaimEntry s key groupname c minidle now o st arg) := by
  obtain ⟨time, count, hp, -⟩ := h.nack hk
  have hgroup : st.group.pel.find? (streamEncodeID id) = some p := by
    rw [h.pel, hk]
    rfl
  have hc := isSome_of_nameOf hname
  simp only [xclaimEntry, harg, xclaimNACK, hgroup, ok_bind, nack, hp]
  split_ifs with hidle
  · exact .skipped (.inl ⟨by rw [hk]; rfl, hidle.2.1⟩)
  obtain ⟨heap, hmove, edit⟩ := handOver_eq st.group (streamEncodeID id) p
    ⟨o.deliverytime, xclaimCount o count, some c⟩ (h.owner hk) hc fun d _ hdo hd => h.pelAt_other hk hdo hd
  have hlt := h.allocated hk
  have hnacks : ∀ q, q ≠ p → (st.group.nackHeap.insert p ⟨o.deliverytime, xclaimCount o count, some c⟩).find? q =
      st.group.nackHeap.find? q := fun q hq => find?_insert_ne hq
  have owned := h.moved (st.group.nackHeap.insert p ⟨o.deliverytime, xclaimCount o count, some c⟩) st.group.next hk
    hc rfl htime find?_insert_self (fun q _ hq => hnacks q hq) (by
      intro a ha
      rw [hnacks a (by omega)]
      exact (h.fresh a ha).1) le_rfl edit
  obtain ⟨entry, hentry⟩ := xclaimReply_ok hs id o.justid
  have hprop := @streamPropagateXCLAIM_eq { st.group with
    consumerHeap := heap
    nackHeap := st.group.nackHeap.insert p ⟨o.deliverytime, xclaimCount o count, some c⟩ } _ _ _ _ _
    find?_insert_self ((edit.names c).trans hname) key groupname arg
  rw [xclaimLeave, ← bind_assoc, hmove]
  simp only [ok_bind, hentry, hprop]
  exact .claimed (.inl (by rw [hk]; rfl)) ⟨owned, nameOf_edit edit, rfl, find?_insert_self,
    fun hj hq => hnacks _ fun heq => hj (h.apart (heq ▸ hq) hk)⟩

lemma xclaimEntry_new (hk : own (streamEncodeID id) = none) :
    Sat NoFault (ClaimsEntry s key groupname arg name o minidle c own id st)
      (xclaimEntry s key groupname c minidle now o st arg) := by
  have hgroup : st.group.pel.find? (streamEncodeID id) = none := by
    rw [h.pel, hk]
    rfl
  have hc := isSome_of_nameOf hname
  obtain ⟨⟨si, item⟩, hget⟩ := hs.getID (some id) (some id) false
  simp only [xclaimEntry, harg, xclaimNACK, hgroup]
  cases hforce : o.force with
  | false => exact .skipped (.inr ⟨hk, fun hf => absurd (hforce.symm.trans hf) Bool.false_ne_true⟩)
  | true =>
    simp only [if_true, hget, ok_bind]
    cases item with
    | none =>
      refine .skipped (.inr ⟨hk, fun _ hfinds => ?_⟩)
      obtain ⟨si', item, hget'⟩ := hfinds
      rw [hget] at hget'
      cases hget'
    | some item =>
      obtain ⟨heap, hinsert, edit⟩ := insertPel_eq { st.group with
        pel := st.group.pel.insert (streamEncodeID id) st.group.next
        nackHeap := st.group.nackHeap.insert st.group.next ⟨o.deliverytime, xclaimCount o 1, some c⟩
        next := st.group.next + 1 } (streamEncodeID id) st.group.next hc
      have edit' := edit.only fun d _ hd => h.pelAt_none hk hd
      have owned := h.added ⟨o.deliverytime, xclaimCount o 1, some c⟩ hc rfl htime edit'
      obtain ⟨entry, hentry⟩ := xclaimReply_ok hs id o.justid
      have hprop := @streamPropagateXCLAIM_eq { st.group with
        pel := st.group.pel.insert (streamEncodeID id) st.group.next
        consumerHeap := heap
        nackHeap := st.group.nackHeap.insert st.group.next ⟨o.deliverytime, xclaimCount o 1, some c⟩
        next := st.group.next + 1 } _ _ _ _ _ find?_insert_self ((edit'.names c).trans hname) key groupname arg
      simp only [Option.isNone_some, Bool.false_eq_true, if_false, streamCreateNACK, ok_bind, nack,
        find?_insert_self, Option.isSome_none, false_and, xclaimLeave, setNack,
        insert_insert, hinsert, hentry, hprop]
      exact .claimed (.inr ⟨hforce, ⟨si, item, hget⟩, rfl⟩) ⟨owned, nameOf_edit edit', rfl,
        find?_insert_self, fun _ hq => find?_insert_ne (h.allocated hq).ne⟩

lemma xclaimEntry_spec :
    Sat NoFault (ClaimsEntry s key groupname arg name o minidle c own id st)
      (xclaimEntry s key groupname c minidle now o st arg) := by
  cases hk : own (streamEncodeID id) with
  | none => exact xclaimEntry_new htime hs h hname harg hk
  | some o => exact xclaimEntry_pending htime hs h hname harg hk

end

end Claim

end JitRedis
