import Mathlib.Data.List.Basic

/-!
# Definitions and uses in a log

The entries of a log define names, use them, or take all definitions back. A reader that knows some names and reads the
log from some point on has to know each name at its use.
-/

namespace DefUse

inductive Effect (α : Type)
  | define (a : α)
  | use (a : α)
  | clear
  | skip

variable {α ε : Type}

/-- What a reader knows after an entry. -/
def learn (base : List α) : Effect α → List α
  | .define a => a :: base
  | .clear => []
  | .use _ | .skip => base

/-- A reader knows the name that the entry uses. -/
def allowed [DecidableEq α] (base : List α) : Effect α → Bool
  | .use a => a ∈ base
  | .define _ | .clear | .skip => true

variable (effect : ε → Effect α)

/-- What a reader knows after a log. -/
def known (base : List α) (log : List ε) : List α := log.foldl (fun base e => learn base (effect e)) base

/-- A reader knows each name of the log at its use. -/
def closed [DecidableEq α] (base : List α) : List ε → Bool
  | [] => true
  | e :: log => allowed base (effect e) && closed (learn base (effect e)) log

variable {effect} {base base' : List α} {log log' : List ε} {e : ε}

lemma learn_mono (h : base ⊆ base') (f : Effect α) : learn base f ⊆ learn base' f := by
  cases f with
  | define a => exact List.cons_subset_cons a h
  | clear => exact List.nil_subset _
  | use a => exact h
  | skip => exact h

lemma allowed_mono [DecidableEq α] (h : base ⊆ base') {f : Effect α} (hf : allowed base f = true) :
    allowed base' f = true := by
  cases f with
  | use a => exact decide_eq_true (h (of_decide_eq_true hf))
  | define a => rfl
  | clear => rfl
  | skip => rfl

lemma known_append : known effect base (log ++ log') = known effect (known effect base log) log' := List.foldl_append ..

lemma known_snoc : known effect base (log ++ [e]) = learn (known effect base log) (effect e) := known_append

lemma known_mono (h : base ⊆ base') : known effect base log ⊆ known effect base' log := by
  induction log generalizing base base' with
  | nil => exact h
  | cons e log ih => exact ih (learn_mono h _)

lemma closed_append [DecidableEq α] :
    closed effect base (log ++ log') = (closed effect base log && closed effect (known effect base log) log') := by
  induction log generalizing base with
  | nil => rfl
  | cons e log ih => rw [List.cons_append, closed, closed, ih, Bool.and_assoc]; rfl

lemma closed_snoc [DecidableEq α] (h : closed effect base log = true)
    (he : allowed (known effect base log) (effect e) = true) : closed effect base (log ++ [e]) = true := by
  rw [closed_append, h, closed, he]
  rfl

lemma closed_mono [DecidableEq α] (h : base ⊆ base') (hclosed : closed effect base log = true) :
    closed effect base' log = true := by
  induction log generalizing base base' with
  | nil => rfl
  | cons e log ih =>
    rw [closed, Bool.and_eq_true] at hclosed ⊢
    exact ⟨allowed_mono h hclosed.1, ih (learn_mono h _) hclosed.2⟩

/-- What a reader knows who began later, with at least what was known then. -/
lemma known_drop_subset {n : Nat} (h : known effect base (log.take n) ⊆ base') :
    known effect base log ⊆ known effect base' (log.drop n) := by
  nth_rewrite 1 [← List.take_append_drop n log]
  rw [known_append]
  exact known_mono h

end DefUse
