import Firenook.Runs

/-!
# Suite exports

An export is written to a staging directory and then takes the place of an earlier one by two
renames: the earlier one becomes the backup, the staged one the destination.  Every access to
the file system may fail, and a kill ends the run after any of them.
-/

namespace Firenook.Suite

open Runs

inductive ExportFailure
  | parent
  | staging
  | service
  | retire
  | publish
  | remove
  deriving DecidableEq

/-- The next access of `export_suite` to the file system. -/
inductive ExportStage (File : Type)
  | prepare
  | createStaging
  | write (rest : List File)
  | destinationExists
  | retire
  | publish
  | rollbackExists
  | rollback
  | backupExists
  | removeBackup
  | returned (result : Except ExportFailure Unit)

/-- After the first rename, until the second or its rollback succeeds. -/
def ExportStage.between {File : Type} : ExportStage File → Bool
  | publish | rollbackExists | rollback | returned (.error .publish) => true
  | _ => false

/-- The files of the three directories; `none` is a directory that does not exist. -/
structure SuiteExport (File : Type) where
  destination : Option (List File)
  staging : Option (List File) := none
  backup : Option (List File) := none
  stage : ExportStage File := .prepare

variable {File : Type}

namespace SuiteExport

def fail (suite : SuiteExport File) (failure : ExportFailure) : SuiteExport File :=
  { suite with stage := .returned (.error failure) }

/-- One access, with its outcome.  `exists` answers no when it fails, and a rename fails on a
directory that has files. -/
def step (files : List File) (suite : SuiteExport File) (succeeds : Bool) : SuiteExport File :=
  match suite.stage with
  | .prepare =>
    if succeeds then { suite with stage := .createStaging } else suite.fail .parent
  | .createStaging =>
    if succeeds then { suite with staging := some [], stage := .write files }
    else suite.fail .staging
  | .write [] => { suite with stage := .destinationExists }
  | .write (file :: rest) =>
    if succeeds then
      { suite with staging := suite.staging.map (· ++ [file]), stage := .write rest }
    else suite.fail .service
  | .destinationExists =>
    { suite with stage := if succeeds && suite.destination.isSome then .retire else .publish }
  | .retire =>
    if succeeds then
      { suite with destination := none, backup := suite.destination, stage := .publish }
    else suite.fail .retire
  | .publish =>
    if succeeds && (suite.destination.getD []).isEmpty then
      { suite with destination := suite.staging, staging := none, stage := .backupExists }
    else { suite with stage := .rollbackExists }
  | .rollbackExists =>
    if succeeds && suite.backup.isSome then { suite with stage := .rollback }
    else suite.fail .publish
  | .rollback =>
    if succeeds then
      fail { suite with destination := suite.backup, backup := none } .publish
    else suite.fail .publish
  | .backupExists =>
    { suite with
      stage := if succeeds && suite.backup.isSome then .removeBackup else .returned (.ok ()) }
  | .removeBackup =>
    if succeeds then
      match suite.backup with
      | some (_ :: rest) => { suite with backup := some rest }
      | _ => { suite with backup := none, stage := .returned (.ok ()) }
    else suite.fail .remove
  | .returned _ => suite

section

variable (previous files : List File) (suite : SuiteExport File)

def Untouched : Prop := suite.destination = some previous ∧ suite.backup = none

def Retired : Prop := suite.destination = none ∧ suite.backup = some previous

def Sound : Prop :=
  match suite.stage with
  | .prepare | .createStaging => suite.Untouched previous
  | .write rest =>
    suite.Untouched previous ∧ ∃ written, suite.staging = some written ∧ written ++ rest = files
  | .destinationExists | .retire => suite.Untouched previous ∧ suite.staging = some files
  | .publish =>
    (suite.Untouched previous ∨ suite.Retired previous) ∧ suite.staging = some files
  | .rollbackExists => suite.Untouched previous ∨ suite.Retired previous
  | .rollback => suite.Retired previous
  | .returned (.error .publish) => suite.destination = some previous ∨ suite.Retired previous
  | .backupExists | .removeBackup | .returned (.ok _) | .returned (.error .remove) =>
    suite.destination = some files
  | .returned (.error _) => suite.destination = some previous

end

variable {previous files : List File} {suite : SuiteExport File}

theorem Sound.step (sound : suite.Sound previous files) (succeeds : Bool) :
    (suite.step files succeeds).Sound previous files := by
  obtain ⟨destination, staging, backup, stage⟩ := suite
  cases stage with
  | prepare =>
    cases succeeds
    · exact sound.1
    · exact sound
  | createStaging =>
    cases succeeds
    · exact sound.1
    · exact ⟨sound, [], rfl, rfl⟩
  | write rest =>
    obtain ⟨untouched, written, staged, rfl⟩ := sound
    subst staged
    cases rest with
    | nil => exact ⟨untouched, congrArg some (List.append_nil written).symm⟩
    | cons file rest =>
      cases succeeds
      · exact untouched.1
      · exact ⟨untouched, written ++ [file], rfl, List.append_assoc ..⟩
  | destinationExists =>
    obtain ⟨⟨rfl, rfl⟩, staged⟩ := sound
    cases succeeds
    · exact ⟨.inl ⟨rfl, rfl⟩, staged⟩
    · exact ⟨⟨rfl, rfl⟩, staged⟩
  | retire =>
    cases succeeds
    · exact sound.1.1
    · exact ⟨.inr ⟨rfl, sound.1.1⟩, sound.2⟩
  | publish =>
    obtain ⟨kept, staged⟩ := sound
    unfold SuiteExport.step
    dsimp only
    split_ifs
    · exact staged
    · exact kept
  | rollbackExists =>
    rcases sound with ⟨rfl, rfl⟩ | ⟨rfl, rfl⟩ <;> cases succeeds
    · exact .inl rfl
    · exact .inl rfl
    · exact .inr ⟨rfl, rfl⟩
    · exact ⟨rfl, rfl⟩
  | rollback =>
    cases succeeds
    · exact .inr sound
    · exact .inl sound.2
  | backupExists =>
    unfold SuiteExport.step
    dsimp only
    split_ifs <;> exact sound
  | removeBackup =>
    cases succeeds
    · exact sound
    · rcases backup with _ | _ | _ <;> exact sound
  | returned => exact sound

theorem Sound.located (sound : suite.Sound previous files) :
    suite.destination = some previous ∨ suite.destination = some files ∨
      suite.Retired previous ∧ suite.stage.between = true := by
  obtain ⟨destination, staging, backup, stage⟩ := suite
  cases stage with
  | prepare | createStaging => exact .inl sound.1
  | write | destinationExists | retire => exact .inl sound.1.1
  | publish => exact sound.1.imp And.left fun retired => .inr ⟨retired, rfl⟩
  | rollbackExists => exact sound.imp And.left fun retired => .inr ⟨retired, rfl⟩
  | rollback => exact .inr (.inr ⟨sound, rfl⟩)
  | backupExists | removeBackup => exact .inr (.inl sound)
  | returned result =>
    rcases result with failure | _
    · cases failure with
      | publish => exact sound.imp_right fun retired => .inr ⟨retired, rfl⟩
      | remove => exact .inr (.inl sound)
      | _ => exact .inl sound
    · exact .inr (.inl sound)

/-- Whenever the run stops, the destination holds one of the two exports, or the earlier one stands
in the backup between the renames. -/
theorem exports_replace_by_renames (previous files : List File) (outcomes : List Bool) :
    let suite : SuiteExport File := run (step files) { destination := some previous } outcomes
    (suite.destination = some previous ∨ suite.destination = some files ∨
      suite.Retired previous ∧ suite.stage.between = true) ∧
    ∀ failure, suite.stage = .returned (.error failure) → suite.destination = some previous ∨
      failure = .publish ∧ suite.Retired previous ∨
      failure = .remove ∧ suite.destination = some files := by
  intro suite
  have sound : suite.Sound previous files :=
    invariant_run_unconditional (Sound previous files) (fun _ succeeds sound => sound.step succeeds)
      (show Sound previous files { destination := some previous } from ⟨rfl, rfl⟩) outcomes
  refine ⟨sound.located, fun failure failed => ?_⟩
  rw [Sound, failed] at sound
  cases failure with
  | publish => exact sound.imp_right fun retired => .inl ⟨rfl, retired⟩
  | remove => exact .inr (.inr ⟨rfl, sound⟩)
  | _ => exact .inl sound

theorem exports_replace_by_renames_sample :
    let suite : SuiteExport Nat :=
      run (step [1]) { destination := some [0] } (.replicate 6 true ++ [false, true, true])
    suite.stage = .returned (.error .publish) ∧
      (suite.destination = some [0] ∨
        ExportFailure.publish = .publish ∧ suite.Retired [0] ∨
        ExportFailure.publish = .remove ∧ suite.destination = some [1]) :=
  ⟨rfl, (exports_replace_by_renames [0] [1] _).2 .publish rfl⟩

/-- A kill between the renames leaves no destination, and the removal of the backup can fail
after the new export was published. -/
theorem export_not_replaced_at_once :
    (run (step [1]) { destination := some [0] } (.replicate 6 true)).destination = none ∧
    ∃ outcomes, (run (step [1]) { destination := some [0] } outcomes).destination = some [1] ∧
      (run (step [1]) { destination := some [0] } outcomes).stage = .returned (.error .remove) :=
  ⟨rfl, .replicate 8 true ++ [true, false], rfl, rfl⟩

end SuiteExport
end Firenook.Suite
