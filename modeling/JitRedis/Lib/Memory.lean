import JitRedis.Lib.Fallible

/-!
# Blocks of memory

A block is the list of its bytes, and an address in it a position. Reads and writes that leave the block are faults. The
lemmas describe a block by what it is composed of, so that an access to a part of it needs the length of the parts before
it only.
-/

namespace Memory

open Fallible List

variable {ε : Type} {e f : ε} {m a b c x y z : List UInt8} {p n s d : Nat}

/-- Read `n` bytes at an address. -/
def load (e : ε) (m : List UInt8) (p n : Nat) : Except ε (List UInt8) :=
  if p + n ≤ m.length then .ok ((m.drop p).take n) else .error e

def store (e : ε) (m : List UInt8) (p : Nat) (x : List UInt8) : Except ε (List UInt8) :=
  if p + x.length ≤ m.length then .ok (m.take p ++ (x ++ m.drop (p + x.length))) else .error e

def byte (e : ε) (m : List UInt8) (p : Nat) : Except ε UInt8 :=
  match m[p]? with
  | some u => .ok u
  | none => .error e

/-- `memmove` within a block; the parts may overlap. -/
def move (e f : ε) (m : List UInt8) (dst src n : Nat) : Except ε (List UInt8) := do
  let x ← load e m src n
  store f m dst x

/-- `realloc`: what a block gains has arbitrary contents. -/
def realloc (junk : Nat → UInt8) (m : List UInt8) (n : Nat) : List UInt8 :=
  m.take n ++ (List.range (n - m.length)).map junk

lemma split_at {α} {l : List α} (h : p < l.length) : l = l.take p ++ l[p] :: l.drop (p + 1) := by
  rw [getElem_cons_drop, take_append_drop]

lemma load_eq (hm : m = a ++ (b ++ c)) (hp : p = a.length) (hn : n = b.length) : load e m p n = .ok b := by
  subst hm hp hn
  rw [load, if_pos (by simp only [length_append]; omega), drop_left, take_left]

lemma byte_eq {u : UInt8} (hm : m = a ++ u :: c) (hp : p = a.length) : byte e m p = .ok u := by
  subst hm hp
  rw [byte, getElem?_append_right (Nat.le_refl _), Nat.sub_self, getElem?_cons_zero]

lemma store_eq (hm : m = a ++ (b ++ c)) (hp : p = a.length) (hb : b.length = x.length) :
    store e m p x = .ok (a ++ (x ++ c)) := by
  subst hm hp
  rw [store, if_pos (by simp only [length_append]; omega), take_left, ← hb, ← drop_drop, drop_left,
    drop_left]

lemma store_fault (h : m.length < p + x.length) : store e m p x = .error e := if_neg (Nat.not_le.mpr h)

/-- The bytes at `s` are written to `d`, whatever is there. -/
lemma move_eq (hsrc : m = a ++ (b ++ c)) (hdst : m = x ++ (y ++ z)) (hs : s = a.length) (hd : d = x.length)
    (hb : n = b.length) (hy : n = y.length) : move e f m d s n = .ok (x ++ (b ++ z)) := by
  rw [move, load_eq hsrc hs hb, ok_bind, store_eq hdst hd (hy.symm.trans hb)]

lemma length_of_load (h : load e m p n = .ok x) : x.length = n := by
  rw [load] at h
  split at h
  · cases h
    rw [length_take, length_drop]
    omega
  · cases h

/-- Bytes from anywhere are written over the end of a part of a block. -/
lemma move_over (hm : m = a ++ (b ++ z)) (hload : load e m s n = .ok x) (hd : d = a.length + p) (hp : p + n = b.length) :
    move e f m d s n = .ok (a ++ (b.take p ++ (x ++ z))) := by
  have hx := length_of_load hload
  have hsplit : m = (a ++ b.take p) ++ (b.drop p ++ z) := by
    rw [hm, append_assoc, ← append_assoc (b.take p), take_append_drop]
  rw [move, hload, ok_bind, store_eq hsplit (by rw [hd, length_append, length_take]; omega)
    (by rw [length_drop]; omega), append_assoc]

/-- A part of a block is moved up, into a part that is not in use. -/
lemma move_up (hm : m = a ++ (b ++ (c ++ (x ++ z)))) :
    ∃ g, g.length = b.length + x.length ∧
      move e f m (a.length + (b.length + x.length)) (a.length + b.length) c.length = .ok (a ++ (g ++ (c ++ z))) := by
  set t := b ++ (c ++ x) with ht
  have hlen : t.length = b.length + c.length + x.length := by
    rw [ht, length_append, length_append, Nat.add_assoc]
  have hsplit : m = (a ++ t.take (b.length + x.length)) ++ (t.drop (b.length + x.length) ++ z) := by
    rw [hm, append_assoc, ← append_assoc (t.take _), take_append_drop, ht]
    simp only [append_assoc]
  have htake : (t.take (b.length + x.length)).length = b.length + x.length := by
    rw [length_take]
    omega
  refine ⟨t.take (b.length + x.length), htake, ?_⟩
  rw [move_eq (a := a ++ b) (b := c) (c := x ++ z) (by rw [hm, append_assoc]) hsplit length_append.symm
    (by rw [length_append, htake]) rfl (by rw [length_drop]; omega), append_assoc]

/-- The end of a block is moved down; as much as it moved remains behind it. -/
lemma move_down (hm : m = a ++ (b ++ c)) (hk : p ≤ b.length) :
    ∃ g t, g.length = p ∧ t.length = b.length - p ∧
      move e f m (a.length + p) (a.length + b.length) c.length = .ok (a ++ (g ++ (c ++ t))) := by
  set r := b.drop p ++ c with hr
  have hb : b ++ c = b.take p ++ r := by rw [hr, ← append_assoc, take_append_drop]
  have hlen : r.length = b.length - p + c.length := by rw [hr, length_append, length_drop]
  have htake : (b.take p).length = p := by
    rw [length_take]
    omega
  have hsplit : m = (a ++ b.take p) ++ (r.take c.length ++ r.drop c.length) := by
    rw [hm, hb, take_append_drop, append_assoc]
  refine ⟨b.take p, r.drop c.length, htake, by rw [length_drop]; omega, ?_⟩
  rw [move_eq (a := a ++ b) (b := c) (c := []) (by rw [hm, append_nil, append_assoc]) hsplit
    length_append.symm (by rw [length_append, htake]) rfl (by rw [length_take]; omega), append_assoc]

@[simp] lemma length_realloc (junk : Nat → UInt8) (m : List UInt8) (n : Nat) : (realloc junk m n).length = n := by
  rw [realloc, length_append, length_take, length_map, length_range]
  omega

lemma realloc_shrink (junk : Nat → UInt8) (a b : List UInt8) : realloc junk (a ++ b) a.length = a := by
  rw [realloc, take_left, length_append, Nat.sub_eq_zero_of_le (Nat.le_add_right _ _)]
  exact append_nil a

lemma realloc_grow (junk : Nat → UInt8) (m : List UInt8) (k : Nat) :
    ∃ x, x.length = k ∧ realloc junk m (m.length + k) = m ++ x := by
  refine ⟨(List.range k).map junk, ?_, ?_⟩
  · rw [length_map, length_range]
  · rw [realloc, take_of_length_le (Nat.le_add_right _ _), Nat.add_sub_cancel_left]

/-- A reallocated block keeps what fits of its bytes. -/
lemma realloc_keep (junk : Nat → UInt8) (a b : List UInt8) {n : Nat} (h : a.length ≤ n) :
    ∃ y, y.length = n - a.length ∧ realloc junk (a ++ b) n = a ++ y := by
  refine ⟨(realloc junk (a ++ b) n).drop a.length, ?_, ?_⟩
  · rw [length_drop, length_realloc]
  · conv_lhs => rw [← take_append_drop a.length (realloc junk (a ++ b) n)]
    congr 1
    rw [realloc, take_append_of_le_length, take_take, min_eq_left h, take_left]
    rw [length_take, length_append]
    omega

end Memory
