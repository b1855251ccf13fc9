import Mathlib

/-!
# Runs of a step function

A deterministic system consuming a list of inputs, and the rule that carries an
invariant through every run whose steps meet a condition.  Steps that can fail
are taken apart with the inversion of `Except` sequencing.

Ids and counters that grow by one are natural numbers throughout; a run has to take
2 ^ 64 such steps before a 64-bit counter differs from them.
-/

namespace Firenook

theorem bind_eq_ok {ε α β : Type} {first : Except ε α} {next : α → Except ε β} {result : β} :
    (first >>= next) = .ok result ↔ ∃ value, first = .ok value ∧ next value = .ok result := by
  cases first <;> simp [bind, Except.bind]

theorem mapError_eq_ok {ε φ α : Type} {outcome : Except ε α} {rewrite : ε → φ} {result : α} :
    outcome.mapError rewrite = .ok result ↔ outcome = .ok result := by
  cases outcome <;> simp [Except.mapError]

theorem guard_eq_ok {ε α β : Type} {check : Prop} [Decidable check] {failure : ε}
    {next : α → Except ε β} {rest : Except ε β} {result : β} :
    (if check then (throw failure >>= next) else rest) = .ok result ↔
      ¬check ∧ rest = .ok result := by
  by_cases holds : check
  · simp [holds, bind, Except.bind]
  · simp [holds]

namespace Runs

variable {σ ι : Type} (step : σ → ι → σ) {state : σ} {inputs : List ι}

def run (state : σ) (inputs : List ι) : σ := inputs.foldl step state

def AllSteps (condition : σ → ι → Prop) : σ → List ι → Prop
  | _, [] => True
  | state, input :: inputs =>
    condition state input ∧ AllSteps condition (step state input) inputs

instance decidableAllSteps (condition : σ → ι → Prop)
    [∀ state input, Decidable (condition state input)] :
    ∀ state inputs, Decidable (AllSteps step condition state inputs)
  | _, [] => isTrue trivial
  | state, input :: inputs =>
    have := decidableAllSteps condition (step state input) inputs
    inferInstanceAs (Decidable (_ ∧ _))

variable {step} {condition : σ → ι → Prop}

theorem invariant_run (Invariant : σ → Prop) (preserved : ∀ state input, condition state input →
      Invariant state → Invariant (step state input))
    (holds : Invariant state) (conditions : AllSteps step condition state inputs) :
    Invariant (run step state inputs) := by
  induction inputs generalizing state with
  | nil => exact holds
  | cons input inputs ih =>
    exact ih (preserved state input conditions.1 holds) conditions.2

theorem invariant_run_unconditional (Invariant : σ → Prop)
    (preserved : ∀ state input, Invariant state → Invariant (step state input))
    (holds : Invariant state) (inputs : List ι) : Invariant (run step state inputs) := by
  induction inputs generalizing state with
  | nil => exact holds
  | cons input inputs ih => exact ih (preserved state input holds)

theorem run_append (state : σ) (first second : List ι) :
    run step state (first ++ second) = run step (run step state first) second :=
  List.foldl_append

theorem allSteps_append {first second : List ι} : AllSteps step condition state (first ++ second) ↔
      AllSteps step condition state first ∧ AllSteps step condition (run step state first) second := by
  induction first generalizing state with
  | nil => exact ⟨fun rest => ⟨trivial, rest⟩, fun both => both.2⟩
  | cons input inputs ih =>
    rw [List.cons_append, AllSteps, AllSteps, ih, and_assoc]
    rfl

theorem allSteps_of_forall (always : ∀ state, ∀ input ∈ inputs, condition state input) (state : σ) :
    AllSteps step condition state inputs := by
  induction inputs generalizing state with
  | nil => trivial
  | cons input inputs ih =>
    exact ⟨always state input (List.mem_cons_self ..),
      ih (fun later other member => always later other (List.mem_cons_of_mem _ member)) _⟩

theorem AllSteps.mono {weaker : σ → ι → Prop}
    (implied : ∀ state input, condition state input → weaker state input)
    (conditions : AllSteps step condition state inputs) : AllSteps step weaker state inputs := by
  induction inputs generalizing state with
  | nil => trivial
  | cons input inputs ih => exact ⟨implied state input conditions.1, ih conditions.2⟩

end Runs
end Firenook
