import Mathlib.Tactic

/-!
# Walking over a list from either end

A walk has passed some elements of a list and has the others to come, the next one first. The walk can take the element
it is at out of the list, and then goes on where it is.
-/

namespace Walk

open List

variable {α : Type} {forward : Bool} {P A : List α} {a b : α} {m : Nat}

/-- The list, of which `P` has been passed and `A` is to come. -/
def joined (forward : Bool) (P A : List α) : List α := if forward then P ++ A else A.reverse ++ P

/-- The number of elements before the walk, from the front of the list. -/
def place (forward : Bool) (P A : List α) : Nat := if forward then P.length else A.length

/-- The passed elements after the next one has been passed too. -/
def pass (forward : Bool) (P : List α) (a : α) : List α := if forward then P ++ [a] else a :: P

lemma joined_pass : joined forward (pass forward P a) A = joined forward P (a :: A) := by
  cases forward <;> simp [joined, pass]

lemma place_pass : place forward (pass forward P a) A = if forward then place forward P A + 1 else place forward P A := by
  cases forward <;> simp [place, pass]

lemma mem_pass : b ∈ pass forward P a ↔ b ∈ P ∨ b = a := by
  cases forward <;> simp [pass, or_comm]

lemma mem_joined : b ∈ joined forward P A ↔ b ∈ P ∨ b ∈ A := by
  cases forward <;> simp [joined, or_comm]

lemma length_joined : (joined forward P A).length = P.length + A.length := by
  cases forward <;> simp [joined, add_comm]

/-- The next element is the one behind the place that the walk will have. -/
lemma getElem?_joined : (joined forward P (a :: A))[place forward P A]? = some a := by
  cases forward <;> simp [joined, place]

lemma eraseIdx_joined : (joined forward P (a :: A)).eraseIdx (place forward P A) = joined forward P A := by
  cases forward with
  | true => simp [joined, place, eraseIdx_append_of_length_le]
  | false =>
    rw [joined, if_neg Bool.false_ne_true, place, if_neg Bool.false_ne_true, reverse_cons, append_assoc,
      eraseIdx_append_of_length_le (by rw [length_reverse])]
    simp [joined]

variable [DecidableEq α]

/-- The list without the first `m` elements that are equal to `a`. -/
def removeFirst (a : α) : Nat → List α → List α
  | 0, l => l
  | _ + 1, [] => []
  | m + 1, b :: l => if b = a then removeFirst a m l else b :: removeFirst a (m + 1) l

lemma removeFirst_cons_self : removeFirst a (m + 1) (a :: A) = removeFirst a m A := by
  rw [removeFirst, if_pos rfl]

lemma removeFirst_cons_ne (hb : b ≠ a) : removeFirst a m (b :: A) = b :: removeFirst a m A := by
  cases m with
  | zero => rw [removeFirst, removeFirst]
  | succ m => rw [removeFirst, if_neg hb]

lemma removeFirst_of_notMem (ha : a ∉ A) : removeFirst a m A = A := by
  induction A with
  | nil => cases m <;> rfl
  | cons b A ih =>
    rw [mem_cons, not_or] at ha
    rw [removeFirst_cons_ne (Ne.symm ha.1), ih ha.2]

end Walk
