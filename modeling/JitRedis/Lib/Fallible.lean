import Mathlib.Tactic

/-!
# Fallible computations and their runs

A small program logic for functions that return `Except ε α`. `Sat F Q x` says that `x` returns a
value satisfying `Q`, or fails with a fault that `F` permits; a fault outside `F` (a failed assertion,
an access out of bounds) is thereby proved unreachable rather than assumed away. The second half runs
a step function over a list of inputs and packages, once, the induction over such a run: a guarded
simulation rule against a total abstract machine.
-/

namespace Fallible

open List

variable {ε α β σ τ ι ο : Type}

/-- `x` returns a value satisfying `Q`, or fails with a fault permitted by `F`. -/
def Sat (F : ε → Prop) (Q : α → Prop) : Except ε α → Prop
  | .ok a => Q a
  | .error e => F e

variable {F : ε → Prop} {Q P : α → Prop} {a : α} {x : Except ε α} {f : α → Except ε β} {m : ε} {C : σ → ι → Prop}

@[simp] lemma sat_ok : Sat F Q (.ok a) ↔ Q a := Iff.rfl

@[simp] lemma sat_pure :
    Sat F Q (pure a : Except ε α) ↔ Q a := Iff.rfl

@[simp] lemma sat_error {e : ε} : Sat F Q (.error e) ↔ F e := Iff.rfl

@[simp] lemma ok_bind (a : α) (f : α → Except ε β) : (Except.ok a >>= f) = f a := rfl

lemma bind_eq_ok {b : β} :
    (x >>= f) = .ok b ↔ ∃ a, x = .ok a ∧ f a = .ok b := by
  cases x with
  | ok a => exact ⟨fun h => ⟨a, rfl, h⟩, fun ⟨_, rfl, h⟩ => h⟩
  | error e => exact ⟨fun h => (nomatch h), fun ⟨_, h, _⟩ => (nomatch h)⟩

lemma map_eq_ok {g : α → β} {b : β} : x.map g = .ok b ↔ ∃ a, x = .ok a ∧ g a = b := by
  cases x <;> simp [Except.map]

lemma toOption_eq_some : x.toOption = some a ↔ x = .ok a := by
  cases x <;> simp [Except.toOption]

lemma ok_checked {p} (h : x.toOption.any p = true) : ∃ a, x = .ok a ∧ p a = true := by
  cases x with
  | ok a => exact ⟨a, rfl, h⟩
  | error e => cases h

lemma Sat.mono
    (h : Sat F P x) (imp : ∀ a, P a → Q a) : Sat F Q x := by
  cases x with
  | ok a => exact imp a h
  | error e => exact h

lemma Sat.weaken {G}
    (h : Sat F Q x) (imp : ∀ {e}, F e → G e) : Sat G Q x := by
  cases x with
  | ok a => exact h
  | error e => exact imp h

lemma Sat.total (h : Sat (fun _ => False) Q x) : Sat F Q x := h.weaken False.elim

lemma Sat.bind {Q}
    (h : Sat F P x) (hf : ∀ a, P a → Sat F Q (f a)) : Sat F Q (x >>= f) := by
  cases x with
  | ok a => exact hf a h
  | error e => exact h

/-- Sequencing rule with the equation of the first part. -/
lemma Sat.bind_eq {Q}
    (h : Sat F P x) (hf : ∀ a, x = .ok a → P a → Sat F Q (f a)) : Sat F Q (x >>= f) := by
  cases x with
  | ok a => exact hf a rfl h
  | error e => exact h

lemma sat_map {Q} {f : α → β} :
    Sat F Q (x.map f) ↔ Sat F (fun a => Q (f a)) x := by
  cases x <;> rfl

/-- Loop rule: what every turn preserves holds after the loop. -/
lemma Sat.foldlM {I f} {l : List α} {b : β}
    (turn : ∀ b, ∀ a ∈ l, I b → Sat F I (f b a)) (h : I b) : Sat F I (l.foldlM f b) := by
  induction l generalizing b with
  | nil => exact h
  | cons a l ih =>
    refine (turn b a (mem_cons_self ..) h).bind fun b' h' => ?_
    exact ih (fun b a ha => turn b a (mem_cons_of_mem _ ha)) h'

/-- The value of a computation that did not fail satisfies the postcondition. -/
lemma Sat.of_eq
    (h : Sat F Q x) (e : x = .ok a) : Q a := by
  subst e
  exact h

/-- A computation without permitted faults returns. -/
lemma Sat.returns (h : Sat (fun _ => False) Q x) :
    ∃ a, x = .ok a ∧ Q a := by
  cases x with
  | ok a => exact ⟨a, rfl, h⟩
  | error e => exact h.elim

/-- `y` does what `x` does: it fails with the same fault, or returns a value related to the one of `x`. -/
def Mirrors (R : α → β → Prop) : Except ε α → Except ε β → Prop
  | .ok a, .ok b => R a b
  | .error e, .error e' => e = e'
  | _, _ => False

section Mirrors

variable {γ δ : Type} {R : α → β → Prop} {S : γ → δ → Prop} {y : Except ε β}

lemma Mirrors.same (x : Except ε α) : Mirrors Eq x x := by
  cases x <;> rfl

lemma Sat.mirrors_same (h : Sat F Q x) : Mirrors (fun a b => a = b ∧ Q b) x x := by
  cases x
  · rfl
  · exact ⟨rfl, h⟩

lemma Mirrors.mono {S : α → β → Prop} (h : Mirrors R x y) (imp : ∀ a b, R a b → S a b) : Mirrors S x y := by
  cases x <;> cases y
  · exact h
  · exact h.elim
  · exact h.elim
  · exact imp _ _ h

lemma Mirrors.bind {f : α → Except ε γ} {g : β → Except ε δ} (h : Mirrors R x y)
    (hf : ∀ a b, R a b → Mirrors S (f a) (g b)) : Mirrors S (x >>= f) (y >>= g) := by
  cases x <;> cases y
  · exact h
  · exact h.elim
  · exact h.elim
  · exact hf _ _ h

/-- The mirror image goes on alone. -/
lemma Mirrors.andThen {S : α → δ → Prop} {g : β → Except ε δ} (h : Mirrors R x y)
    (hg : ∀ a b, R a b → Mirrors S (.ok a) (g b)) : Mirrors S x (y >>= g) := by
  cases x <;> cases y
  · exact h
  · exact h.elim
  · exact h.elim
  · exact hg _ _ h

lemma Mirrors.map {S : γ → β → Prop} (h : Mirrors R x y) (f : α → γ) (hf : ∀ a b, R a b → S (f a) b) :
    Mirrors S (x.map f) y := by
  cases x <;> cases y
  · exact h
  · exact h.elim
  · exact h.elim
  · exact hf _ _ h

/-- What cannot fail is done before by the mirror image. -/
lemma Sat.mirrors {S : γ → δ → Prop} {Q : β → Prop} {x : Except ε γ} {g : β → Except ε δ} (h : Sat (fun _ => False) Q y)
    (hg : ∀ b, Q b → Mirrors S x (g b)) : Mirrors S x (y >>= g) := by
  obtain ⟨b, rfl, hb⟩ := h.returns
  exact hg b hb

lemma Mirrors.sat (h : Mirrors R x y) (hx : Sat F P x) : Sat F (fun b => ∃ a, P a ∧ R a b) y := by
  cases x <;> cases y
  · exact h ▸ hx
  · exact h.elim
  · exact h.elim
  · exact ⟨_, hx, h⟩

/-- Loop rule for two loops. -/
lemma Mirrors.foldlM {f : α → ι → Except ε α} {g : β → ι → Except ε β} {l : List ι} {a b}
    (turn : ∀ a b i, R a b → Mirrors R (f a i) (g b i)) (h : R a b) : Mirrors R (l.foldlM f a) (l.foldlM g b) := by
  induction l generalizing a b with
  | nil => exact h
  | cons i l ih => exact (turn a b i h).bind fun _ _ h => ih h

end Mirrors

/-- `x` is a monitored version of `y`: it stops with `m`, or does the same. -/
def Monitors (m : ε) (x y : Except ε α) : Prop := x = .error m ∨ x = y

lemma Monitors.refl (x : Except ε α) : Monitors m x x := .inr rfl

lemma Monitors.bind {y g} (h : Monitors m x y)
    (hf : ∀ a, Monitors m (f a) (g a)) : Monitors m (x >>= f) (y >>= g) := by
  rcases h with rfl | rfl
  · exact .inl rfl
  · cases x with
    | ok a => exact hf a
    | error e => exact .inr rfl

/-- What holds of a monitored version that is not stopped holds of the unmonitored one. -/
lemma Monitors.sat {y} (h : Monitors m x y)
    (ne : x ≠ .error m) (sat : Sat (fun e => F e ∨ e = m) Q x) : Sat F Q y := by
  obtain rfl := h.resolve_left ne
  cases x with
  | ok a => exact sat
  | error e => exact sat.resolve_right fun he => ne (by rw [he])

/-- Run a step function over a list of inputs, collecting the outputs. -/
def exec (step : σ → ι → Except ε (σ × ο)) : σ → List ι → Except ε (σ × List ο)
  | s, [] => .ok (s, [])
  | s, i :: is =>
    match step s i with
    | .error e => .error e
    | .ok (s', o) =>
      match exec step s' is with
      | .error e => .error e
      | .ok (s'', os) => .ok (s'', o :: os)

/-- Run a total abstract machine over a list of inputs, collecting the outputs. -/
def follow (astep : τ → ι → τ × ο) : τ → List ι → τ × List ο
  | t, [] => (t, [])
  | t, i :: is =>
    let (t', o) := astep t i
    let (t'', os) := follow astep t' is
    (t'', o :: os)

/-- Every step of the run from `s` over `is` meets the guard `C` in the state it starts from. -/
def Guarded (step : σ → ι → Except ε (σ × ο)) (C : σ → ι → Prop) : σ → List ι → Prop
  | _, [] => True
  | s, i :: is => C s i ∧ ∀ s' o, step s i = .ok (s', o) → Guarded step C s' is

/-- A guard that the inputs meet in every state is met by the run. -/
lemma guarded_of_forall {step : σ → ι → Except ε (σ × ο)} {s is}
    (h : ∀ i ∈ is, ∀ s, C s i) : Guarded step C s is := by
  induction is generalizing s with
  | nil => trivial
  | cons i is ih =>
    refine ⟨h i (mem_cons_self ..) s, fun _ _ _ => ih fun j hj => ?_⟩
    exact h j (mem_cons_of_mem _ hj)

/-- A run meets the guard when its first step does and the run after that step does. -/
lemma guarded_cons {step : σ → ι → Except ε (σ × ο)} {s s' : σ} {i is o}
    (st : step s i = .ok (s', o)) (c : C s i) (rest : Guarded step C s' is) :
    Guarded step C s (i :: is) := by
  refine ⟨c, fun t u h => ?_⟩
  rw [st] at h
  cases h
  exact rest

def checkGuard (step : σ → ι → Except ε (σ × ο)) (c : σ → ι → Bool) : σ → List ι → Bool
  | _, [] => true
  | s, i :: is => c s i &&
    match step s i with
    | .error _ => true
    | .ok (s', _) => checkGuard step c s' is

/-- A guard that can be decided is met by a run along which it was checked. -/
lemma guarded_of_check {step : σ → ι → Except ε (σ × ο)}
    [∀ s i, Decidable (C s i)] {s is} (h : checkGuard step (fun s i => decide (C s i)) s is = true) :
    Guarded step C s is := by
  induction is generalizing s with
  | nil => trivial
  | cons i is ih =>
    rw [checkGuard, Bool.and_eq_true] at h
    refine ⟨of_decide_eq_true h.1, fun s' o st => ih ?_⟩
    have rest := h.2
    rw [st] at rest
    exact rest

/-- A run does what its first step and the run after that step do. -/
lemma Sat.exec_cons {step : σ → ι → Except ε (σ × ο)} {P Q} {s : σ} {i is} (one : Sat F P (step s i))
    (rest : ∀ p, step s i = .ok p → P p → Sat F (fun q => Q (q.1, p.2 :: q.2)) (exec step p.1 is)) :
    Sat F Q (exec step s (i :: is)) := by
  unfold exec
  cases st : step s i with
  | error e =>
    rw [st] at one
    exact one
  | ok p =>
    rw [st] at one
    have after := rest p st one
    cases ex : exec step p.1 is with
    | error e | ok q =>
      simpa [ex] using after

/-- Simulation rule: guarded steps that simulate an abstract machine do so over whole runs, with the same outputs. -/
theorem exec_simulates {step : σ → ι → Except ε (σ × ο)} {astep : τ → ι → τ × ο}
    {R : σ → τ → Prop}
    (sim : ∀ s t i, R s t → C s i →
      Sat F (fun p => R p.1 (astep t i).1 ∧ p.2 = (astep t i).2) (step s i))
    {s t is} (rel : R s t) (grd : Guarded step C s is) :
    Sat F (fun p => R p.1 (follow astep t is).1 ∧ p.2 = (follow astep t is).2)
      (exec step s is) := by
  induction is generalizing s t with
  | nil => exact ⟨rel, rfl⟩
  | cons i is ih =>
    obtain ⟨c, grd'⟩ := grd
    refine (sim s t i rel c).exec_cons fun p st one => ?_
    obtain ⟨rel', eo⟩ := one
    exact (ih rel' (grd' p.1 p.2 st)).mono fun q rest => ⟨rest.1, by rw [eo, rest.2]; rfl⟩

/-- A run whose states are related to those of a nondeterministic abstract machine with the same outputs. -/
inductive Follows (step : σ → ι → Except ε (σ × ο)) (astep : τ → ι → ο → τ → Prop) (R : σ → τ → Prop) :
    σ → τ → List ι → List ο → Prop
  | nil {s t} (rel : R s t) : Follows step astep R s t [] []
  | cons {s t s' t' i o is os} (rel : R s t) (st : step s i = .ok (s', o)) (ast : astep t i o t')
    (rest : Follows step astep R s' t' is os) : Follows step astep R s t (i :: is) (o :: os)

/-- Refinement rule: if guarded steps are steps of a nondeterministic abstract machine, whole runs follow it. -/
theorem exec_follows {step : σ → ι → Except ε (σ × ο)} {astep : τ → ι → ο → τ → Prop}
    {R : σ → τ → Prop}
    (sim : ∀ s t i, R s t → C s i → Sat F (fun p => ∃ t', astep t i p.2 t' ∧ R p.1 t') (step s i))
    {s t is} (rel : R s t) (grd : Guarded step C s is) :
    Sat F (fun p => Follows step astep R s t is p.2) (exec step s is) := by
  induction is generalizing s t with
  | nil => exact .nil rel
  | cons i is ih =>
    obtain ⟨c, grd'⟩ := grd
    refine (sim s t i rel c).exec_cons fun p st one => ?_
    obtain ⟨t', ast, rel'⟩ := one
    exact (ih rel' (grd' p.1 p.2 st)).mono fun q rest => .cons rel st ast rest

lemma foldlM_collect (f : α → β) (l : List α) (acc : List β) :
    l.foldlM (fun acc a => (.ok (acc ++ [f a]) : Except ε (List β))) acc = .ok (acc ++ l.map f) := by
  induction l generalizing acc with
  | nil =>
    rw [map_nil, append_nil]
    rfl
  | cons a l ih =>
    rw [foldlM_cons, ok_bind, ih, map_cons, append_assoc]
    rfl

lemma mapM_ok {g : α → β} {l : List α} (h : ∀ a ∈ l, f a = .ok (g a)) :
    l.mapM f = .ok (l.map g) := by
  induction l with
  | nil => rfl
  | cons a l ih =>
    rw [mapM_cons, h a (mem_cons_self ..), ok_bind, ih fun b hb => h b (mem_cons_of_mem _ hb)]
    rfl

/-- Trace rule: what every guarded step preserves of the state and the outputs holds after every guarded run. -/
theorem exec_trace {step : σ → ι → Except ε (σ × ο)} {I : σ → List ο → Prop}
    (pres : ∀ s os i, I s os → C s i → Sat F (fun p => I p.1 (os ++ [p.2])) (step s i))
    {s is} (os : List ο) (inv : I s os) (grd : Guarded step C s is) :
    Sat F (fun p => I p.1 (os ++ p.2)) (exec step s is) := by
  induction is generalizing s os with
  | nil =>
    show I s (os ++ [])
    rw [append_nil]
    exact inv
  | cons i is ih =>
    obtain ⟨c, grd'⟩ := grd
    refine (pres s os i inv c).exec_cons fun p st one => ?_
    simpa using ih _ one (grd' p.1 p.2 st)

/-- Invariant rule: what every guarded step preserves holds after every guarded run. -/
theorem exec_invariant {step : σ → ι → Except ε (σ × ο)}
    {I : σ → Prop} (pres : ∀ s i, I s → C s i → Sat F (fun p => I p.1) (step s i))
    {s is} (inv : I s) (grd : Guarded step C s is) : Sat F (fun p => I p.1) (exec step s is) :=
  exec_trace (I := fun s _ => I s) (fun s _ => pres s) [] inv grd

end Fallible
