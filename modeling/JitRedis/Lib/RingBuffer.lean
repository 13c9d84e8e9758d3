import Mathlib.Tactic

/-!
# Ring buffers

A buffer of fixed size that keeps the last items of a history. Writing fills blocks up to the end of the cells and goes
on at the front; reading copies a block up to the end of the cells and goes on at the front.
-/

/-- The cells and their number, the cell to write next, and how many cells hold items of the history. -/
structure RingBuffer (α : Type) where
  cells : List α
  size : Nat
  idx : Nat
  histlen : Nat

namespace RingBuffer

open List

variable {α : Type} {r r' : RingBuffer α} {l data : List α}

/-- Copy a block that fits before the end of the cells. -/
def writeBlock (r : RingBuffer α) (block : List α) : RingBuffer α where
  size := r.size
  cells := r.cells.take r.idx ++ block ++ r.cells.drop (r.idx + block.length)
  idx := if r.idx + block.length = r.size then 0 else r.idx + block.length
  histlen := r.histlen + block.length

def writeLoop : Nat → RingBuffer α → List α → Option (RingBuffer α)
  | _, r, [] => some r
  | 0, _, _ => none
  | fuel + 1, r, data =>
    writeLoop fuel (r.writeBlock (data.take (r.size - r.idx))) (data.drop (r.size - r.idx))

/-- Write data; the history kept is at most as long as the cells. -/
def write (r : RingBuffer α) (data : List α) : Option (RingBuffer α) :=
  (writeLoop data.length r data).map fun r => { r with histlen := min r.histlen r.size }

/-- Read `len` items from a cell on. -/
def readLoop (r : RingBuffer α) : Nat → Nat → Nat → Option (List α)
  | _, _, 0 => some []
  | 0, _, _ => none
  | fuel + 1, j, len =>
    (readLoop r fuel 0 (len - (r.size - j))).map fun rest => (r.cells.drop j).take len ++ rest

/-- Read the history kept but for its first items. -/
def read (r : RingBuffer α) (skip : Nat) : Option (List α) :=
  r.readLoop 2 (((r.idx + (r.size - r.histlen)) % r.size + skip) % r.size) (r.histlen - skip)

/-- The cells end, seen from the cell to write next, in the last items of the history. -/
structure Ends (r : RingBuffer α) (l : List α) : Prop where
  length : r.cells.length = r.size
  idx_lt : r.idx < r.size
  cells : ∀ i < min l.length r.size, r.cells[(r.idx + r.size - 1 - i) % r.size]? = l.reverse[i]?

/-- The buffer keeps the last items of the history. -/
structure Keeps (r : RingBuffer α) (l : List α) : Prop extends r.Ends l where
  histlen : r.histlen = min l.length r.size

lemma Keeps.new {cells : List α} (h : 0 < cells.length) : (⟨cells, cells.length, 0, 0⟩ : RingBuffer α).Keeps [] where
  length := rfl
  idx_lt := h
  cells i hi := by simp at hi
  histlen := by simp

lemma length_writeBlock {block : List α} (hlen : r.cells.length = r.size) (h : r.idx + block.length ≤ r.size) :
    (r.writeBlock block).cells.length = r.size := by
  rw [writeBlock, length_append, length_append, length_take, length_drop]
  omega

/-- The cells of a written block, and the other cells. -/
lemma getElem?_writeBlock {block : List α} (hcells : r.cells.length = r.size) (h : r.idx + block.length ≤ r.size) (p : Nat) :
    (r.writeBlock block).cells[p]? =
      if r.idx ≤ p ∧ p < r.idx + block.length then block[p - r.idx]? else r.cells[p]? := by
  have hlen : (r.cells.take r.idx).length = r.idx := length_take_of_le (by omega)
  rw [writeBlock, append_assoc]
  by_cases hlow : p < r.idx
  · rw [getElem?_append_left (by omega), getElem?_take_of_lt hlow, if_neg (by omega)]
  rw [getElem?_append_right (by omega), hlen]
  by_cases hhigh : p - r.idx < block.length
  · rw [getElem?_append_left hhigh, if_pos (by omega)]
  · rw [getElem?_append_right (by omega), getElem?_drop, if_neg (by omega)]
    congr 1
    omega

lemma Ends.writeBlock {block : List α} (h : r.Ends l) (hb : r.idx + block.length ≤ r.size) :
    (r.writeBlock block).Ends (l ++ block) := by
  have hsize : (r.writeBlock block).size = r.size := rfl
  have hidx : (r.writeBlock block).idx < r.size ∧
      (r.idx + block.length = r.size ∧ (r.writeBlock block).idx = 0 ∨
        (r.writeBlock block).idx = r.idx + block.length) := by
    have hlt := h.idx_lt
    rw [RingBuffer.writeBlock]
    dsimp only
    split
    next heq => exact ⟨by omega, .inl ⟨heq, rfl⟩⟩
    · exact ⟨by omega, .inr rfl⟩
  refine ⟨length_writeBlock h.length hb, hidx.1, fun i hi => ?_⟩
  rw [hsize, length_append] at hi
  rw [hsize, getElem?_writeBlock h.length hb, reverse_append]
  generalize (r.writeBlock block).idx = idx at hidx
  by_cases hblock : i < block.length
  · have hpos : (idx + r.size - 1 - i) % r.size = r.idx + block.length - 1 - i := by
      rcases hidx.2 with ⟨heq, rfl⟩ | rfl
      · rw [Nat.mod_eq_of_lt (by omega)]
        omega
      · have : r.idx + block.length + r.size - 1 - i = r.idx + block.length - 1 - i + r.size := by omega
        rw [this, Nat.add_mod_right, Nat.mod_eq_of_lt (by omega)]
    rw [hpos, if_pos (by omega), getElem?_append_left (by simpa using hblock), getElem?_reverse hblock]
    congr 1
    omega
  have hpos : (idx + r.size - 1 - i) % r.size = (r.idx + r.size - 1 - (i - block.length)) % r.size := by
    rcases hidx.2 with ⟨heq, rfl⟩ | rfl
    · have : r.idx + r.size - 1 - (i - block.length) = 0 + r.size - 1 - i + r.size := by omega
      rw [this, Nat.add_mod_right]
    · congr 1
      omega
  have hout : ¬(r.idx ≤ (r.idx + r.size - 1 - (i - block.length)) % r.size ∧
      (r.idx + r.size - 1 - (i - block.length)) % r.size < r.idx + block.length) := by
    by_cases hwrap : i - block.length < r.idx
    · have : r.idx + r.size - 1 - (i - block.length) = r.idx - 1 - (i - block.length) + r.size := by omega
      rw [this, Nat.add_mod_right, Nat.mod_eq_of_lt (by have := h.idx_lt; omega)]
      omega
    · rw [Nat.mod_eq_of_lt (by have := h.idx_lt; omega)]
      omega
  rw [hpos, if_neg hout, getElem?_append_right (by simpa using hblock), length_reverse]
  exact h.cells _ (by omega)

/-- Writing appends to the history, whatever its length. -/
lemma Ends.writeLoop {fuel : Nat} (h : r.Ends l) (data : List α) (hfuel : data.length ≤ fuel) :
    ∃ r', RingBuffer.writeLoop fuel r data = some r' ∧ r'.Ends (l ++ data) ∧ r'.size = r.size ∧
      r'.histlen = r.histlen + data.length := by
  induction fuel generalizing r l data with
  | zero =>
    obtain rfl := eq_nil_of_length_eq_zero (Nat.le_zero.mp hfuel)
    exact ⟨r, by rw [RingBuffer.writeLoop], by rwa [append_nil], rfl, rfl⟩
  | succ fuel ih =>
    cases data with
    | nil => exact ⟨r, by rw [RingBuffer.writeLoop], by rwa [append_nil], rfl, rfl⟩
    | cons a data =>
      have hlt := h.idx_lt
      have hlen : ((a :: data).take (r.size - r.idx)).length ≤ r.size - r.idx := length_take_le ..
      have hdrop : ((a :: data).drop (r.size - r.idx)).length ≤ fuel := by
        rw [length_drop]
        omega
      have hfits : r.idx + ((a :: data).take (r.size - r.idx)).length ≤ r.size := by omega
      obtain ⟨r', hr', hends, hsize, hhist⟩ := ih (h.writeBlock hfits) _ hdrop
      rw [append_assoc, take_append_drop] at hends
      refine ⟨r', hr', hends, hsize, ?_⟩
      rw [hhist, RingBuffer.writeBlock]
      rw [Nat.add_assoc, ← length_append, take_append_drop]

/-- Writing data keeps the last items of the longer history. -/
theorem Keeps.write (h : r.Keeps l) (data : List α) :
    ∃ r', r.write data = some r' ∧ r'.Keeps (l ++ data) ∧ r'.size = r.size := by
  obtain ⟨r', hr', hends, hsize, hhist⟩ := h.toEnds.writeLoop data le_rfl
  refine ⟨{ r' with histlen := min r'.histlen r'.size }, by rw [RingBuffer.write, hr']; rfl, ⟨⟨hends.1, hends.2, hends.3⟩, ?_⟩, hsize⟩
  show min r'.histlen r'.size = min (l ++ data).length r'.size
  rw [hhist, h.histlen, length_append, hsize]
  omega

lemma readLoop_some (hcells : r.cells.length = r.size) (fuel j len : Nat) (hj : j < r.size)
    (hlen : len ≤ fuel * r.size - j) :
    ∃ out, r.readLoop fuel j len = some out ∧ ∀ t, out[t]? = if t < len then r.cells[(j + t) % r.size]? else none := by
  induction fuel generalizing j len with
  | zero =>
    obtain rfl : len = 0 := by omega
    exact ⟨[], rfl, by simp⟩
  | succ fuel ih =>
    cases len with
    | zero => exact ⟨[], rfl, by simp⟩
    | succ len =>
      obtain ⟨rest, hrest, hget⟩ := ih 0 (len + 1 - (r.size - j)) (by omega) (by
        rw [Nat.succ_mul] at hlen
        omega)
      have hread : r.readLoop (fuel + 1) j (len + 1) = some ((r.cells.drop j).take (len + 1) ++ rest) :=
        congrArg (Option.map _) hrest
      refine ⟨_, hread, fun t => ?_⟩
      have hfirst : ((r.cells.drop j).take (len + 1)).length = min (len + 1) (r.size - j) := by
        rw [length_take, length_drop, hcells]
      by_cases ht : t < min (len + 1) (r.size - j)
      · rw [getElem?_append_left (by omega), getElem?_take_of_lt (by omega), getElem?_drop,
          if_pos (by omega), Nat.mod_eq_of_lt (by omega)]
      rw [getElem?_append_right (by omega), hget, hfirst]
      by_cases hlast : t < len + 1
      · rw [if_pos (by omega), if_pos hlast, Nat.zero_add]
        have : j + t = t - min (len + 1) (r.size - j) + r.size := by omega
        rw [this, Nat.add_mod_right]
      · rw [if_neg (by omega), if_neg hlast]

/-- Reading gives the last items of the history. -/
theorem Keeps.read (h : r.Keeps l) {skip : Nat} (hskip : skip ≤ r.histlen) :
    r.read skip = some (l.drop (l.length - (r.histlen - skip))) := by
  have hpos : 0 < r.size := Nat.zero_lt_of_lt h.idx_lt
  have hle : r.histlen ≤ r.size ∧ r.histlen ≤ l.length := by rw [h.histlen]; omega
  have hj := Nat.mod_lt ((r.idx + (r.size - r.histlen)) % r.size + skip) hpos
  obtain ⟨out, hout, hget⟩ := readLoop_some h.length 2 _ (r.histlen - skip) hj (by omega)
  rw [RingBuffer.read, hout]
  congr 1
  refine ext_getElem? fun t => ?_
  rw [hget, getElem?_drop]
  by_cases ht : t < r.histlen - skip
  · have hcell := h.cells (r.histlen - skip - 1 - t) (by omega)
    rw [getElem?_reverse (by omega)] at hcell
    have hidx : (((r.idx + (r.size - r.histlen)) % r.size + skip) % r.size + t) % r.size =
        (r.idx + r.size - 1 - (r.histlen - skip - 1 - t)) % r.size := by
      rw [Nat.mod_add_mod, Nat.add_assoc, Nat.mod_add_mod]
      congr 1
      omega
    rw [if_pos ht, hidx, hcell]
    congr 1
    omega
  · rw [if_neg ht, getElem?_eq_none (by omega)]

end RingBuffer
