import Mathlib

/-!
# Computations with a state and failures

A computation changes a state and returns a result or a failure; a failure keeps
the state reached so far, so that a caller may recover and go on.  A `Law` is a
relation between two such computations that sequencing preserves: an invariant of
the state, a bound on what a successful result cost, or equality.
-/

namespace Firenook

/-- A computation on a state; a failure keeps the state it reached. -/
def Computation (σ ε α : Type) : Type := σ → Except ε α × σ

namespace Computation

variable {σ ε α β : Type}

def lift (result : Except ε α) : Computation σ ε α := fun state => (result, state)

variable (first : Computation σ ε α)

def andThen (next : α → Computation σ ε β) : Computation σ ε β :=
  fun state =>
    match first state with
    | (.ok value, reached) => next value reached
    | (.error failure, reached) => (.error failure, reached)

theorem andThen_cases (next : α → Computation σ ε β) (state : σ) :
    (∃ value, (first state).1 = .ok value ∧ first.andThen next state = next value (first state).2) ∨
    (∃ failure, (first state).1 = .error failure ∧
      first.andThen next state = (.error failure, (first state).2)) := by
  unfold andThen
  rcases first state with ⟨failure | value, reached⟩
  · exact .inr ⟨failure, rfl, rfl⟩
  · exact .inl ⟨value, rfl, rfl⟩

instance : Monad (Computation σ ε) where
  pure value := lift (.ok value)
  bind := andThen

def fail (failure : ε) : Computation σ ε α := lift (.error failure)

def mapError (rewrite : ε → ε) (computation : Computation σ ε α) : Computation σ ε α :=
  fun state => ((computation state).1.mapError rewrite, (computation state).2)

theorem mapError_eq_ok {rewrite : ε → ε} {computation : Computation σ ε α} {state : σ} {value : α} :
    (mapError rewrite computation state).1 = .ok value ↔ (computation state).1 = .ok value := by
  unfold mapError
  cases (computation state).1 <;> simp [Except.mapError]

/-- Both computations run; failures become values for `combine` to judge.  The second
runs only when `decided` gives no result on the first one's outcome. -/
def consult (decided : Except ε α → Option (Except ε β))
    (combine : Except ε α → Except ε α → Except ε β)
    (first second : Computation σ ε α) : Computation σ ε β :=
  fun state =>
    match decided (first state).1 with
    | some result => (result, (first state).2)
    | none => (combine (first state).1 (second (first state).2).1, (second (first state).2).2)

def CanReturn (computation : Computation σ ε α) (value : α) : Prop :=
  ∃ state, (computation state).1 = .ok value

/-- A relation between computations that sequencing preserves.  The second halves need
to be related only at values that a first half can return. -/
structure Law (Related : ∀ {α : Type}, Computation σ ε α → Computation σ ε α → Prop) : Prop where
  lift : ∀ {α : Type} (result : Except ε α), Related (lift result) (lift result)
  andThen : ∀ {α β : Type} {first first' : Computation σ ε α}
    {next next' : α → Computation σ ε β}, Related first first' →
    (∀ value, first.CanReturn value ∨ first'.CanReturn value → Related (next value) (next' value)) →
    Related (first.andThen next) (first'.andThen next')

/-! ## Typed results -/

def Yields (Property : α → Prop) (computation : Computation σ ε α) : Prop :=
  ∀ value, computation.CanReturn value → Property value

theorem Yields.lift {Property : α → Prop} {result : Except ε α}
    (holds : ∀ value, result = .ok value → Property value) :
    (lift result : Computation σ ε α).Yields Property := by
  rintro value ⟨state, returned⟩
  exact holds value returned

variable {Property : β → Prop}

theorem Yields.andThen {First : α → Prop} {first : Computation σ ε α}
    {next : α → Computation σ ε β} (yields : first.Yields First)
    (continues : ∀ value, First value → (next value).Yields Property) :
    (first.andThen next).Yields Property := by
  rintro value ⟨state, returned⟩
  rcases first.andThen_cases next state with ⟨middle, reached, run⟩ | ⟨failure, -, run⟩
  · rw [run] at returned
    exact continues middle (yields middle ⟨state, reached⟩) value ⟨_, returned⟩
  · rw [run] at returned
    cases returned

theorem Yields.mapError {Property : α → Prop} {rewrite : ε → ε} {computation : Computation σ ε α}
    (yields : computation.Yields Property) : (mapError rewrite computation).Yields Property := by
  rintro value ⟨state, returned⟩
  exact yields value ⟨state, mapError_eq_ok.mp returned⟩

variable {combine : Except ε α → Except ε α → Except ε β}
  {decided : Except ε α → Option (Except ε β)}

theorem Yields.consult {first second : Computation σ ε α}
    (early : ∀ left value, decided left = some (.ok value) → Property value)
    (late : ∀ left right value, combine left right = .ok value → Property value) :
    (consult decided combine first second).Yields Property := by
  rintro value ⟨state, returned⟩
  unfold Computation.consult at returned
  split at returned
  · next result judged =>
    exact early _ value (judged.trans (congrArg some returned))
  · exact late _ _ value returned

/-- Related computations that both return only values with the property. -/
structure Typed (Related : ∀ {α : Type}, Computation σ ε α → Computation σ ε α → Prop)
    (Property : α → Prop) (first second : Computation σ ε α) : Prop where
  related : Related first second
  firstYields : first.Yields Property
  secondYields : second.Yields Property

namespace Typed

variable {Related : ∀ {α : Type}, Computation σ ε α → Computation σ ε α → Prop}

theorem lift (law : Law Related) {Property : α → Prop} {result : Except ε α}
    (holds : ∀ value, result = .ok value → Property value) :
    Typed Related Property (Computation.lift result) (Computation.lift result) :=
  ⟨law.lift result, .lift holds, .lift holds⟩

theorem andThen (law : Law Related) {First : α → Prop}
    {first first' : Computation σ ε α} {next next' : α → Computation σ ε β}
    (typed : Typed Related First first first')
    (continues : ∀ value, First value → Typed Related Property (next value) (next' value)) :
    Typed Related Property (first.andThen next) (first'.andThen next') where
  related := by
    apply law.andThen typed.related
    rintro value (returned | returned)
    · exact (continues value (typed.firstYields value returned)).related
    · exact (continues value (typed.secondYields value returned)).related
  firstYields := typed.firstYields.andThen fun value holds => (continues value holds).firstYields
  secondYields := typed.secondYields.andThen fun value holds => (continues value holds).secondYields

end Typed

/-! ## Invariants -/

def Keeps (Invariant : σ → Prop) (computation : Computation σ ε α) : Prop :=
  ∀ state, Invariant state → Invariant (computation state).2

theorem Keeps.andThen {Invariant : σ → Prop} {first : Computation σ ε α}
    {next : α → Computation σ ε β} (keeps : first.Keeps Invariant)
    (continues : ∀ value, first.CanReturn value → (next value).Keeps Invariant) :
    (first.andThen next).Keeps Invariant := by
  intro state holds
  have reached := keeps state holds
  rcases first.andThen_cases next state with ⟨value, returned, run⟩ | ⟨failure, -, run⟩
  · rw [run]
    exact continues value ⟨state, returned⟩ _ reached
  · rw [run]
    exact reached

theorem Keeps.law (Invariant : σ → Prop) :
    Law (σ := σ) (ε := ε) fun computation _ => computation.Keeps Invariant where
  lift _ _ holds := holds
  andThen keeps continues := keeps.andThen fun value returned => continues value (.inl returned)

/-! ## Successful results -/

def Succeeds (Property : σ → Prop) (computation : Computation σ ε α) : Prop :=
  ∀ state, Property state → ∀ value, (computation state).1 = .ok value →
    Property (computation state).2

theorem Succeeds.law (Property : σ → Prop) :
    Law (σ := σ) (ε := ε) fun computation _ => computation.Succeeds Property where
  lift _ _ holds _ _ := holds
  andThen {α β first _ next _} succeeds continues state holds value := by
    rcases first.andThen_cases next state with ⟨middle, returned, run⟩ | ⟨failure, -, run⟩
    · rw [run]
      exact continues middle (.inl ⟨state, returned⟩) _ (succeeds state holds middle returned) value
    · rw [run]
      nofun

end Computation
end Firenook
