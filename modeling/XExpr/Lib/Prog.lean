import Mathlib.Logic.Relation

/-!
# Runs of `EStateM` programs

A program is `EStateM ε σ α`: it returns a value or stops with an error, and both outcomes carry
the state reached. This file has what a proof about such programs needs and no more:

* `bind_ok`, `bind_of_ok`, `bind_of_error`, `get_bind`: a run of a sequence is a run of its parts.
* `Keeps I x`: every outcome of `x`, a stop included, keeps the state property `I`. One rule for
  each way to build a program.
* `Reads x`: no outcome of `x` changes the state.
* `Errors P x`: the errors that `x` may stop with.
* `invariant`: a property that every step keeps holds in every state of a run.
* `Runs`: runs of labelled steps, with `Runs.simulates` and `Runs.exists` for a relation to an
  abstract state that each label maps on.
-/

namespace Prog

variable {ε σ α β : Type}

/-! ## Sequencing -/

theorem bind_of_ok {x : EStateM ε σ α} {f : α → EStateM ε σ β} {s s' : σ} {a : α}
    (h : x s = .ok a s') : (x >>= f) s = f a s' := by
  show EStateM.bind x f s = _
  simp only [EStateM.bind, h]

theorem bind_of_error {x : EStateM ε σ α} {f : α → EStateM ε σ β} {s s' : σ} {e : ε}
    (h : x s = .error e s') : (x >>= f) s = .error e s' := by
  show EStateM.bind x f s = _
  simp only [EStateM.bind, h]

/-- A sequence depends on what its first part does at the state. -/
theorem bind_congr {x y : EStateM ε σ α} {f : α → EStateM ε σ β} {s : σ} (h : x s = y s) :
    (x >>= f) s = (y >>= f) s := by
  show EStateM.bind x f s = EStateM.bind y f s
  simp only [EStateM.bind, h]

/-- A sequence returns if its parts do, one after the other. -/
theorem bind_ok {x : EStateM ε σ α} {f : α → EStateM ε σ β} {s s'' : σ} {b : β} :
    (x >>= f) s = .ok b s'' ↔ ∃ a s', x s = .ok a s' ∧ f a s' = .ok b s'' := by
  cases h : x s with
  | ok a s' =>
    rw [bind_of_ok h]
    exact ⟨fun hf => ⟨a, s', rfl, hf⟩, fun ⟨_, _, h1, hf⟩ => by cases h1; exact hf⟩
  | error e s' => rw [bind_of_error h]; simp

/-- A sequence stops if its first part does, or if that returns and the second part stops. -/
theorem bind_error {x : EStateM ε σ α} {f : α → EStateM ε σ β} {s s'' : σ} {e : ε} :
    (x >>= f) s = .error e s'' ↔
      x s = .error e s'' ∨ ∃ a s', x s = .ok a s' ∧ f a s' = .error e s'' := by
  cases h : x s with
  | ok a s' =>
    rw [bind_of_ok h]
    refine ⟨fun hf => .inr ⟨a, s', rfl, hf⟩, fun h1 => ?_⟩
    rcases h1 with h1 | ⟨_, _, h1, hf⟩
    · cases h1
    · cases h1; exact hf
  | error e s' => rw [bind_of_error h]; simp

/-- A program that reads its state and goes on. -/
theorem get_bind {f : σ → EStateM ε σ β} {s : σ} : (get >>= f) s = f s s := rfl

@[simp] theorem pure_apply (a : α) (s : σ) : (pure a : EStateM ε σ α) s = .ok a s := rfl

@[simp] theorem throw_apply (e : ε) (s : σ) : (throw e : EStateM ε σ α) s = .error e s := rfl

@[simp] theorem modify_apply (f : σ → σ) (s : σ) :
    (modify f : EStateM ε σ PUnit) s = .ok ⟨⟩ (f s) := rfl

/-! ## State properties kept by every outcome -/

/-- The state that an outcome carries. -/
def stateOf : EStateM.Result ε σ α → σ
  | .ok _ s => s
  | .error _ s => s

@[simp] theorem stateOf_ok (a : α) (s : σ) : stateOf (.ok a s : EStateM.Result ε σ α) = s := rfl

@[simp] theorem stateOf_error (e : ε) (s : σ) :
    stateOf (.error e s : EStateM.Result ε σ α) = s := rfl

/-- What comes after a program and only returns does not count. -/
theorem stateOf_bind {x : EStateM ε σ α} {f : α → EStateM ε σ β} {s : σ}
    (hf : ∀ a s, stateOf (f a s) = s) : stateOf ((x >>= f) s) = stateOf (x s) := by
  cases h : x s with
  | ok a s' => rw [bind_of_ok h, hf, stateOf_ok]
  | error e s' => rw [bind_of_error h, stateOf_error, stateOf_error]

/-- Every outcome of `x` from a state with `I` has `I`. -/
def Keeps (I : σ → Prop) (x : EStateM ε σ α) : Prop := ∀ s, I s → I (stateOf (x s))

section Keeps

variable {I : σ → Prop}

theorem Keeps.pure (a : α) : Keeps I (pure a : EStateM ε σ α) := fun _ h => h

theorem Keeps.throw (e : ε) : Keeps I (throw e : EStateM ε σ α) := fun _ h => h

/-- What holds when `x` ends holds when `x` and what comes after it end. -/
theorem Keeps.after {x : EStateM ε σ α} {f : α → EStateM ε σ β} {s : σ} (hx : I (stateOf (x s)))
    (hf : ∀ a, Keeps I (f a)) : I (stateOf ((x >>= f) s)) := by
  cases h : x s with
  | ok a s' => rw [bind_of_ok h]; rw [h] at hx; exact hf a s' hx
  | error e s' => rw [bind_of_error h]; rw [h] at hx; exact hx

theorem Keeps.bind {x : EStateM ε σ α} {f : α → EStateM ε σ β} (hx : Keeps I x)
    (hf : ∀ a, Keeps I (f a)) : Keeps I (x >>= f) := fun s hs => Keeps.after (hx s hs) hf

/-- A run of `x` keeps `I`, and so ends with `J` or hands over to what comes after it. -/
theorem Keeps.andThen {J : σ → Prop} {x : EStateM ε σ α} {f : α → EStateM ε σ β} {s : σ}
    (hx : Keeps I x) (hs : I s) (hj : ∀ s, I s → J s)
    (hf : ∀ a s, I s → J (stateOf (f a s))) : J (stateOf ((x >>= f) s)) := by
  have hi := hx s hs
  cases h : x s with
  | ok a s' => rw [bind_of_ok h]; rw [h] at hi; exact hf a s' hi
  | error e s' => rw [bind_of_error h]; rw [h] at hi; exact hj s' hi

theorem Keeps.ite {c : Prop} [Decidable c] {x y : EStateM ε σ α} (hx : Keeps I x)
    (hy : Keeps I y) : Keeps I (if c then x else y) := by
  split
  · exact hx
  · exact hy

theorem Keeps.ok {x : EStateM ε σ α} (hx : Keeps I x) {s s' : σ} {a : α} (hs : I s)
    (h : x s = .ok a s') : I s' := by
  have := hx s hs
  rwa [h] at this

theorem Keeps.error {x : EStateM ε σ α} (hx : Keeps I x) {s s' : σ} {e : ε} (hs : I s)
    (h : x s = .error e s') : I s' := by
  have := hx s hs
  rwa [h] at this

end Keeps

/-! ## Programs that only read -/

/-- Every outcome of `x` leaves the state as it is. -/
def Reads (x : EStateM ε σ α) : Prop := ∀ s, stateOf (x s) = s

section Reads

theorem Reads.cases {x : EStateM ε σ α} (hx : Reads x) (s : σ) :
    (∃ a, x s = .ok a s) ∨ ∃ e, x s = .error e s := by
  have h := hx s
  cases hr : x s with
  | ok a s' =>
    rw [hr, stateOf_ok] at h
    exact .inl ⟨a, by rw [h]⟩
  | error e s' =>
    rw [hr, stateOf_error] at h
    exact .inr ⟨e, by rw [h]⟩

theorem Reads.keeps {I : σ → Prop} {x : EStateM ε σ α} (hx : Reads x) : Keeps I x := fun s h => by
  rw [hx s]
  exact h

/-- What follows a reading begins where it did. -/
theorem Reads.after {x : EStateM ε σ α} {f : α → EStateM ε σ β} {P : σ → Prop} {s : σ}
    (hx : Reads x) (hs : P s) (hf : ∀ a, P (stateOf (f a s))) : P (stateOf ((x >>= f) s)) := by
  rcases hx.cases s with ⟨a, h⟩ | ⟨e, h⟩
  · rw [bind_of_ok h]
    exact hf a
  · rw [bind_of_error h]
    exact hs

theorem Reads.bind {x : EStateM ε σ α} {f : α → EStateM ε σ β} (hx : Reads x)
    (hf : ∀ a, Reads (f a)) : Reads (x >>= f) := by
  intro s
  rcases hx.cases s with ⟨a, h⟩ | ⟨e, h⟩
  · rw [bind_of_ok h]
    exact hf a s
  · rw [bind_of_error h]
    rfl

end Reads

/-! ## The errors of a program -/

/-- All errors of `x` are in `P`. -/
def Errors (P : ε → Prop) (x : EStateM ε σ α) : Prop := ∀ s e s', x s = .error e s' → P e

section Errors

variable {P : ε → Prop}

theorem Errors.pure (a : α) : Errors P (pure a : EStateM ε σ α) := fun _ _ _ h => nomatch h

theorem Errors.bind {x : EStateM ε σ α} {f : α → EStateM ε σ β} (hx : Errors P x)
    (hf : ∀ a, Errors P (f a)) : Errors P (x >>= f) := by
  intro s e s' h
  rcases bind_error.mp h with h | ⟨a, s₁, -, h⟩
  · exact hx s e s' h
  · exact hf a s₁ e s' h

end Errors

/-! ## Runs -/

/-- A property that every step keeps holds in every state of a run. -/
theorem invariant {S : Type} {R : S → S → Prop} {I : S → Prop}
    (step : ∀ s s', I s → R s s' → I s') {s s' : S} (hr : Relation.ReflTransGen R s s')
    (hs : I s) : I s' := by
  induction hr with
  | refl => exact hs
  | tail _ h ih => exact step _ _ ih h

/-! ## Runs of labelled steps -/

section Runs

variable {S L A : Type} {step : L → S → S → Prop} {silent : S → S → Prop}

/-- The states that a sequence of labelled steps reaches; steps without a label come between. -/
inductive Runs (step : L → S → S → Prop) (silent : S → S → Prop) : List L → S → S → Prop
  | nil (s : S) : Runs step silent [] s s
  | silent {ls : List L} {s s₁ s' : S} (h : silent s s₁) (hr : Runs step silent ls s₁ s') :
      Runs step silent ls s s'
  | cons {l : L} {ls : List L} {s s₁ s' : S} (h : step l s s₁)
      (hr : Runs step silent ls s₁ s') : Runs step silent (l :: ls) s s'

variable {apply : L → A → Option A} {R : S → A → Prop} {ls : List L} {s s' : S} {a a' : A}

/-- A relation that the steps keep holds at the end of a run. -/
theorem Runs.simulates (hsilent : ∀ s s' a, R s a → silent s s' → R s' a)
    (hstep : ∀ l s s' a a', R s a → apply l a = some a' → step l s s' → R s' a')
    (hr : Runs step silent ls s s') (h : R s a)
    (ha : ls.foldlM (fun a l => apply l a) a = some a') : R s' a' := by
  induction hr generalizing a with
  | nil s =>
    obtain rfl := Option.some.inj ha
    exact h
  | silent hs _ ih => exact ih (hsilent _ _ _ h hs) ha
  | cons hs _ ih =>
    rw [List.foldlM_cons] at ha
    obtain ⟨a₁, ha₁, ha⟩ := Option.bind_eq_some_iff.mp ha
    exact ih (hstep _ _ _ _ _ h ha₁ hs) ha

/-- If every enabled step can be taken, every enabled sequence has a run. -/
theorem Runs.exists (hstep : ∀ l s a a', R s a → apply l a = some a' → ∃ s', step l s s' ∧ R s' a')
    (h : R s a) (ha : ls.foldlM (fun a l => apply l a) a = some a') :
    ∃ s', Runs step silent ls s s' := by
  induction ls generalizing s a with
  | nil => exact ⟨s, .nil s⟩
  | cons l ls ih =>
    rw [List.foldlM_cons] at ha
    obtain ⟨a₁, ha₁, ha⟩ := Option.bind_eq_some_iff.mp ha
    obtain ⟨s₁, hs, h₁⟩ := hstep _ _ _ _ h ha₁
    obtain ⟨s', hr⟩ := ih h₁ ha
    exact ⟨s', .cons hs hr⟩

end Runs

end Prog
