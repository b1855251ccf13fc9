import Firenook.Runs
import Firenook.StoreValues

/-!
# Object generations

The generation of an uploaded object joins the clock, in milliseconds, with a counter that
other operations advance too.  Changes of its metadata raise the metageneration.
-/

namespace Firenook.Storage

open Runs

/-- The clock and the counter, and the generations and metagenerations that one object had,
newest first.  `last` has the milliseconds and the counter of its last upload. -/
structure Generations where
  now : Int
  nextId : Nat
  issued : List (Nat × Nat) := []
  last : Option (Nat × Nat) := none

inductive GenerationStep
  /-- The clock never goes back. -/
  | tick (now : Int)
  /-- An upload session, a download token or the upload of another object takes an id. -/
  | takeId
  | upload
  /-- A change of the metadata or of the download tokens. -/
  | update

namespace Generations

variable (state : Generations)

def milliseconds : Nat := state.now.toNat

/-- An upload takes two ids; the generation has the second. -/
def uploadId : Nat := saturatingAdd (saturatingAdd state.nextId 1) 1

def generation : Nat :=
  saturatingAdd (min (state.milliseconds * 1000) u64Max) (state.uploadId % 1000)

def step (state : Generations) : GenerationStep → Generations
  | .tick now => { state with now := max state.now now }
  | .takeId => { state with nextId := saturatingAdd state.nextId 1 }
  | .upload =>
    { state with
      nextId := state.uploadId
      issued := (state.generation, 1) :: state.issued
      last := some (state.milliseconds, state.uploadId) }
  | .update =>
    match state.issued with
    | (generation, metageneration) :: _ =>
      { state with issued := (generation, saturatingAdd metageneration 1) :: state.issued }
    | [] => state

/-- Since the last upload a millisecond went by, or the counter passed no multiple of a
thousand; and the numbers are within their machine type. -/
def Spaced : GenerationStep → Prop
  | .upload => state.nextId + 2 ≤ u64Max ∧ state.milliseconds * 1000 + 999 ≤ u64Max ∧
      ∀ milliseconds id, state.last = some (milliseconds, id) →
        milliseconds < state.milliseconds ∨ id / 1000 = (state.nextId + 2) / 1000
  | .update => ∀ pair ∈ state.issued.head?, pair.2 < u64Max
  | _ => True

structure Ascends : Prop where
  last : ∀ milliseconds id, state.last = some (milliseconds, id) →
    milliseconds ≤ state.milliseconds ∧ id ≤ min state.nextId u64Max
  issued : ∀ pair ∈ state.issued, ∃ milliseconds id, state.last = some (milliseconds, id) ∧
    pair.1 ≤ milliseconds * 1000 + id % 1000
  ascending : state.issued.Pairwise (Prod.Lex (· > ·) (· > ·))

variable {state}

theorem generation_eq (spaced : state.Spaced .upload) : state.uploadId = state.nextId + 2 ∧
    state.generation = state.milliseconds * 1000 + (state.nextId + 2) % 1000 := by
  obtain ⟨idFits, clockFits, -⟩ := spaced
  have isId : state.uploadId = state.nextId + 2 := by
    unfold uploadId saturatingAdd
    omega
  refine ⟨isId, ?_⟩
  unfold generation saturatingAdd
  omega

theorem Ascends.lt_generation (ascends : state.Ascends) (spaced : state.Spaced .upload) :
    ∀ pair ∈ state.issued, pair.1 < state.generation := by
  intro pair member
  obtain ⟨milliseconds, id, isLast, below⟩ := ascends.issued pair member
  obtain ⟨notLater, atMost⟩ := ascends.last milliseconds id isLast
  rw [(generation_eq spaced).2]
  rcases spaced.2.2 milliseconds id isLast with later | sameThousand <;> omega

theorem ascends_step (state : Generations) (action : GenerationStep)
    (spaced : state.Spaced action) (ascends : state.Ascends) : (state.step action).Ascends := by
  cases action with
  | tick now =>
    refine ⟨fun milliseconds id isLast => ?_, ascends.issued, ascends.ascending⟩
    obtain ⟨notLater, atMost⟩ := ascends.last milliseconds id isLast
    exact ⟨notLater.trans (Int.toNat_le_toNat (le_max_left ..)), atMost⟩
  | takeId =>
    refine ⟨fun milliseconds id isLast => ?_, ascends.issued, ascends.ascending⟩
    obtain ⟨notLater, atMost⟩ := ascends.last milliseconds id isLast
    refine ⟨notLater, ?_⟩
    dsimp only [step, saturatingAdd]
    omega
  | upload =>
    have beyond := ascends.lt_generation spaced
    obtain ⟨isId, isGeneration⟩ := generation_eq spaced
    refine ⟨?_, fun pair member => ⟨_, _, rfl, ?_⟩, ?_⟩
    · rintro _ _ ⟨⟩
      exact ⟨le_refl _, le_min (le_refl _) (Nat.min_le_right ..)⟩
    · rw [isId, ← isGeneration]
      rcases List.mem_cons.mp member with rfl | old
      · exact le_refl _
      · exact (beyond pair old).le
    · exact List.pairwise_cons.mpr ⟨fun pair old => .left _ _ (beyond pair old), ascends.ascending⟩
  | update =>
    obtain ⟨now, nextId, issued, last⟩ := state
    cases issued with
    | nil => exact ascends
    | cons pair issued =>
      have raised : saturatingAdd pair.2 1 = pair.2 + 1 := Nat.min_eq_left (spaced pair rfl)
      have newer : Prod.Lex (· > ·) (· > ·) (pair.1, saturatingAdd pair.2 1) pair :=
        .right _ (raised ▸ Nat.lt_succ_self _)
      refine ⟨ascends.last, ?_, List.pairwise_cons.mpr ⟨fun earlier member => ?_, ascends.ascending⟩⟩
      · intro other member
        rcases List.mem_cons.mp member with rfl | old
        · exact ascends.issued pair (List.mem_cons_self ..)
        · exact ascends.issued other old
      · rcases List.mem_cons.mp member with rfl | old
        · exact newer
        · have older := (List.pairwise_cons.mp ascends.ascending).1 earlier old
          exact IsTrans.trans _ _ _ newer older

/-- While its uploads are spaced, an upload gives an object a greater generation than it ever
had, and no pair of generation and metageneration comes twice. -/
theorem generations_increase (now : Int) (nextId : Nat) (steps : List GenerationStep)
    (spaced : AllSteps step Spaced ⟨now, nextId, [], none⟩ steps) :
    let state := run step ⟨now, nextId, [], none⟩ steps
    state.issued.Nodup ∧ (state.step .upload).issued = (state.generation, 1) :: state.issued ∧
      (state.Spaced .upload → ∀ pair ∈ state.issued, pair.1 < state.generation) := by
  intro state
  have start : Ascends ⟨now, nextId, [], none⟩ := ⟨nofun, nofun, .nil⟩
  have ascends : state.Ascends := invariant_run Ascends ascends_step start spaced
  refine ⟨ascends.ascending.imp fun newer same => ?_, rfl, ascends.lt_generation⟩
  subst same
  exact irrefl _ newer

theorem generations_increase_sample :
    let state := run step ⟨5, 0, [], none⟩ [.upload, .update, .upload, .takeId, .tick 6]
    state.issued = [(5004, 1), (5002, 2), (5002, 1)] ∧ state.issued.Nodup ∧
      ∀ pair ∈ state.issued, pair.1 < state.generation := by
  have again : ∀ milliseconds id, some (5, 2) = some (milliseconds, id) →
      milliseconds < 5 ∨ id / 1000 = (2 + 2) / 1000 := by
    rintro _ _ ⟨⟩
    decide
  have first : ∀ pair ∈ some (5002, 1), pair.2 < u64Max := by
    rintro _ ⟨⟩
    decide
  have increase := generations_increase 5 0 [.upload, .update, .upload, .takeId, .tick 6]
    ⟨⟨by decide, by decide, nofun⟩, first, ⟨by decide, by decide, again⟩, trivial, trivial,
      trivial⟩
  refine ⟨by decide, increase.1, increase.2.2 ⟨by decide, by decide, ?_⟩⟩
  rintro _ _ ⟨⟩
  decide

/-- The counter passes a thousand between two uploads of one millisecond. -/
theorem generation_decreases :
    (run step ⟨5, 997, [], none⟩ [.upload, .upload]).issued = [(5001, 1), (5999, 1)] := by
  decide

end Generations
end Firenook.Storage
