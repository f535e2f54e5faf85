/-
Module: VectorRisc.Proofs.Outcome
Layer: Proofs
Purpose: Steps that can fail, seen from their success: a chain of steps succeeds if each of them does, and
  a result that is carried on has been reached. Requests that are tried in turn leave the state as it is
  where they fail.
Imports: Mathlib.Tactic
Trusted boundary: none
Main exports: bind_eq_ok, map_eq_ok, map_eq_error, attempt, accepted, accepted_append, accepted_concat_ok,
  accepted_concat_error
Open obligations: none
-/
import Mathlib.Tactic

namespace VectorRisc

section Outcome

variable {ε α β : Type}

/-- A step and what follows it succeed if both do. -/
theorem bind_eq_ok {x : Except ε α} {f : α → Except ε β} {b : β} :
    x >>= f = .ok b ↔ ∃ a, x = .ok a ∧ f a = .ok b := by
  cases x with
  | error e =>
      constructor
      · intro h
        cases h
      · rintro ⟨a, h, -⟩
        cases h
  | ok a =>
      constructor
      · intro h
        exact ⟨a, rfl, h⟩
      · rintro ⟨other, h, hf⟩
        cases h
        exact hf

/-- A result that is carried on has been reached. -/
theorem map_eq_ok {x : Except ε α} {f : α → β} {b : β} :
    x.map f = .ok b ↔ ∃ a, x = .ok a ∧ f a = b := by
  cases x with
  | error e =>
      constructor
      · intro h
        cases h
      · rintro ⟨a, h, -⟩
        cases h
  | ok a =>
      constructor
      · intro h
        exact ⟨a, rfl, Except.ok.inj h⟩
      · rintro ⟨other, h, rfl⟩
        cases h
        rfl

/-- An error that is carried on has been met. -/
theorem map_eq_error {x : Except ε α} {f : α → β} {e : ε} (h : x.map f = .error e) : x = .error e := by
  cases x with
  | error met => exact congrArg Except.error (Except.error.inj h)
  | ok a => cases h

end Outcome

section Attempts

variable {σ α ε : Type} (step : σ → α → Except ε σ)

/-- The state after a request, which is the state before it if the request fails. -/
def attempt (s : σ) (a : α) : σ :=
  match step s a with
  | .ok next => next
  | .error _ => s

/-- The requests that succeed, each tried in the state that those before it leave. -/
def accepted : σ → List α → List α
  | _, [] => []
  | s, a :: rest =>
    match step s a with
    | .ok next => a :: accepted next rest
    | .error _ => accepted s rest

variable {step}

theorem attempt_ok {s next : σ} {a : α} (h : step s a = .ok next) : attempt step s a = next := by
  rw [attempt, h]

theorem attempt_error {s : σ} {a : α} {e : ε} (h : step s a = .error e) : attempt step s a = s := by
  rw [attempt, h]

theorem accepted_append (s : σ) (before after : List α) :
    accepted step s (before ++ after) =
      accepted step s before ++ accepted step (before.foldl (attempt step) s) after := by
  induction before generalizing s with
  | nil => rfl
  | cons a rest ih =>
      cases h : step s a with
      | ok next => simp only [List.cons_append, accepted, h, ih, List.foldl_cons, attempt_ok h]
      | error e => simp only [List.cons_append, accepted, h, ih, List.foldl_cons, attempt_error h]

/-- A last request that succeeds is one of those that do. -/
theorem accepted_concat_ok {s next : σ} {before : List α} {a : α}
    (h : step (before.foldl (attempt step) s) a = .ok next) :
    accepted step s (before ++ [a]) = accepted step s before ++ [a] := by
  simp only [accepted_append, accepted, h]

/-- A last request that fails is none of those that succeed. -/
theorem accepted_concat_error {s : σ} {before : List α} {a : α} {e : ε}
    (h : step (before.foldl (attempt step) s) a = .error e) :
    accepted step s (before ++ [a]) = accepted step s before := by
  simp only [accepted_append, accepted, h, List.append_nil]

end Attempts

end VectorRisc
