import Mathlib.Data.List.Basic
import Mathlib.Logic.Function.Basic

/-!
# Files behind names

A table of names over numbered files.  A name can be moved, given up or used again while
handles still write to the file it once stood for.  Distinct names stand for distinct files,
so that an operation on one name leaves what the others read.
-/

namespace Firenook

open Function (update update_self update_of_ne)

structure FileTable (Path : Type) where
  links : Path → Option Nat
  contents : Nat → List UInt8
  /-- The number of the next new file. -/
  next : Nat
  link_lt : ∀ path file, links path = some file → file < next
  link_injective : ∀ path other file,
    links path = some file → links other = some file → path = other

namespace FileTable

variable {Path : Type} {other source target : Path}

def empty : FileTable Path where
  links _ := none
  contents _ := []
  next := 0
  link_lt _ _ link := nomatch link
  link_injective _ _ _ link := nomatch link

variable (files : FileTable Path)

def read (path : Path) : Option (List UInt8) :=
  (files.links path).map files.contents

variable {path : Path}

theorem read_eq_some {files : FileTable Path} {bytes : List UInt8} :
    files.read path = some bytes ↔
      ∃ file, files.links path = some file ∧ files.contents file = bytes :=
  Option.map_eq_some_iff

def setContents (file : Nat) (bytes : List UInt8) : FileTable Path :=
  { files with contents := update files.contents file bytes }

def append (file : Nat) (bytes : List UInt8) : FileTable Path :=
  files.setContents file (files.contents file ++ bytes)

variable [DecidableEq Path] (files : FileTable Path)

/-- The handle of a file that is opened for writing and created if it is missing. -/
def handle (path : Path) : Nat := (files.links path).getD files.next

def create (path : Path) (bytes : List UInt8) : FileTable Path where
  links := update files.links path (some files.next)
  contents := update files.contents files.next bytes
  next := files.next + 1
  link_lt := by
    intro other file link
    by_cases same : other = path
    · subst same
      rw [update_self] at link
      cases link
      omega
    · rw [update_of_ne same] at link
      exact Nat.lt_succ_of_lt (files.link_lt other file link)
  link_injective := by
    intro first second file firstLink secondLink
    have old : ∀ other, other ≠ path →
        update files.links path (some files.next) other = some file →
        file < files.next := by
      intro other differs link
      rw [update_of_ne differs] at link
      exact files.link_lt other file link
    have new : update files.links path (some files.next) path = some file →
        file = files.next := by
      intro link
      rw [update_self] at link
      exact (Option.some.inj link).symm
    by_cases atFirst : first = path <;> by_cases atSecond : second = path
    · rw [atFirst, atSecond]
    · rw [atFirst] at firstLink
      have := new firstLink
      have := old second atSecond secondLink
      omega
    · rw [atSecond] at secondLink
      have := new secondLink
      have := old first atFirst firstLink
      omega
    · rw [update_of_ne atFirst] at firstLink
      rw [update_of_ne atSecond] at secondLink
      exact files.link_injective first second file firstLink secondLink

theorem links_create_self (path : Path) (bytes : List UInt8) :
    (files.create path bytes).links path = some files.next :=
  update_self ..

variable (bytes : List UInt8)

theorem links_create_of_ne
    (differs : other ≠ path) : (files.create path bytes).links other = files.links other :=
  update_of_ne differs ..

/-- The bytes are written under the name, in place if it stands for a file. -/
def overwrite (path : Path) (bytes : List UInt8) : FileTable Path :=
  match files.links path with
  | some file => files.setContents file bytes
  | none => files.create path bytes

def unlink (path : Path) : FileTable Path where
  links := update files.links path none
  contents := files.contents
  next := files.next
  link_lt := by
    intro other file link
    by_cases same : other = path
    · subst same
      rw [update_self] at link
      cases link
    · rw [update_of_ne same] at link
      exact files.link_lt other file link
  link_injective := by
    intro first second file firstLink secondLink
    have kept : ∀ other, update files.links path none other = some file →
        files.links other = some file := by
      intro other link
      by_cases same : other = path
      · subst same
        rw [update_self] at link
        cases link
      · rwa [update_of_ne same] at link
    exact files.link_injective first second file (kept first firstLink) (kept second secondLink)

@[simp] theorem links_unlink_self (path : Path) : (files.unlink path).links path = none :=
  update_self ..

theorem links_unlink_of_ne (differs : other ≠ path) :
    (files.unlink path).links other = files.links other :=
  update_of_ne differs ..

variable {file : Nat}

theorem links_unlink_ne_some {files : FileTable Path}
    (link : files.links source = some file) (other : Path) :
    (files.unlink source).links other ≠ some file := by
  intro otherLink
  by_cases same : other = source
  · subst same
    rw [links_unlink_self] at otherLink
    cases otherLink
  · rw [links_unlink_of_ne files same] at otherLink
    exact same (files.link_injective other source file otherLink link)

/-- The file under one name gets another one, whose file is given up. -/
def move (source target : Path) (file : Nat)
    (link : files.links source = some file) : FileTable Path where
  links := update (files.unlink source).links target (some file)
  contents := files.contents
  next := files.next
  link_lt := by
    intro other moved otherLink
    by_cases same : other = target
    · subst same
      rw [update_self] at otherLink
      cases otherLink
      exact files.link_lt source file link
    · rw [update_of_ne same] at otherLink
      exact (files.unlink source).link_lt other moved otherLink
  link_injective := by
    intro first second moved firstLink secondLink
    by_cases atFirst : first = target <;> by_cases atSecond : second = target
    · rw [atFirst, atSecond]
    · rw [atFirst, update_self] at firstLink
      rw [update_of_ne atSecond] at secondLink
      cases firstLink
      exact absurd secondLink (links_unlink_ne_some link second)
    · rw [atSecond, update_self] at secondLink
      rw [update_of_ne atFirst] at firstLink
      cases secondLink
      exact absurd firstLink (links_unlink_ne_some link first)
    · rw [update_of_ne atFirst] at firstLink
      rw [update_of_ne atSecond] at secondLink
      exact (files.unlink source).link_injective first second moved firstLink secondLink

variable (link : files.links source = some file)

theorem links_move_target : (files.move source target file link).links target = some file :=
  update_self ..

theorem links_move_of_ne (differs : other ≠ target) :
    (files.move source target file link).links other = (files.unlink source).links other :=
  update_of_ne differs ..

def rename (source target : Path) : Option (FileTable Path) :=
  match link : files.links source with
  | some file => some (files.move source target file link)
  | none => none

theorem rename_eq_some {files renamed : FileTable Path} :
    files.rename source target = some renamed ↔
      ∃ file link, renamed = files.move source target file link := by
  unfold rename
  split
  next file link =>
    constructor
    · intro same
      exact ⟨file, link, (Option.some.inj same).symm⟩
    · rintro ⟨other, otherLink, rfl⟩
      cases link.symm.trans otherLink
      rfl
  next missing =>
    constructor
    · exact nofun
    · rintro ⟨other, otherLink, -⟩
      cases missing.symm.trans otherLink

/-! ## The bytes under the name of an operation -/

variable (path)

theorem links_overwrite_self (bytes : List UInt8) :
    (files.overwrite path bytes).links path = some (files.handle path) := by
  unfold overwrite handle
  cases link : files.links path with
  | some file => exact link
  | none => exact files.links_create_self path bytes

theorem contents_overwrite_self (bytes : List UInt8) :
    (files.overwrite path bytes).contents (files.handle path) = bytes := by
  unfold overwrite handle
  cases link : files.links path with
  | some file | none => exact update_self ..

@[simp] theorem read_overwrite_self (bytes : List UInt8) :
    (files.overwrite path bytes).read path = some bytes :=
  read_eq_some.2 ⟨_, files.links_overwrite_self path bytes, files.contents_overwrite_self path bytes⟩

@[simp] theorem read_unlink_self : (files.unlink path).read path = none := by
  rw [read, links_unlink_self]
  rfl

variable {path}

theorem read_move_target :
    (files.move source target file link).read target = files.read source := by
  rw [read, read, link, links_move_target]
  rfl

theorem links_move_source (differs : source ≠ target) :
    (files.move source target file link).links source = none :=
  (files.links_move_of_ne link differs).trans (files.links_unlink_self source)

/-! ## What an operation leaves under other names -/

def AgreeAt (files other : FileTable Path) (path : Path) : Prop :=
  other.links path = files.links path ∧
    ∀ file, files.links path = some file → other.contents file = files.contents file

omit [DecidableEq Path] in
theorem AgreeAt.read_eq {files other : FileTable Path}
    (agree : AgreeAt files other path) : other.read path = files.read path := by
  rw [read, read, agree.1]
  cases link : files.links path with
  | none => rfl
  | some file => exact congrArg some (agree.2 file link)

omit [DecidableEq Path] in
theorem agreeAt_setContents {files : FileTable Path} (differs : files.links path ≠ some file) :
    AgreeAt files (files.setContents file bytes) path := by
  refine ⟨rfl, ?_⟩
  intro other link
  refine update_of_ne ?_ ..
  rintro rfl
  exact differs link

theorem agreeAt_overwrite
    (differs : other ≠ path) : AgreeAt files (files.overwrite path bytes) other := by
  unfold overwrite
  cases link : files.links path with
  | some file =>
    apply agreeAt_setContents
    intro otherLink
    exact differs (files.link_injective other path file otherLink link)
  | none =>
    refine ⟨files.links_create_of_ne bytes differs, ?_⟩
    intro file otherLink
    have := files.link_lt other file otherLink
    exact update_of_ne (by omega) ..

theorem agreeAt_unlink (differs : other ≠ path) : AgreeAt files (files.unlink path) other :=
  ⟨files.links_unlink_of_ne differs, fun _ _ => rfl⟩

theorem agreeAt_move (notSource : other ≠ source) (notTarget : other ≠ target) :
    AgreeAt files (files.move source target file link) other :=
  ⟨(files.links_move_of_ne link notTarget).trans (files.links_unlink_of_ne notSource),
    fun _ _ => rfl⟩

/-! ## Files that have only one name -/

def OnlyAt (file : Nat) (path : Path) : Prop :=
  file < files.next ∧ ∀ other, files.links other = some file → other = path

theorem onlyAt_handle (path : Path) (bytes : List UInt8) :
    (files.overwrite path bytes).OnlyAt (files.handle path) path := by
  have link := files.links_overwrite_self path bytes
  refine ⟨(files.overwrite path bytes).link_lt _ _ link, ?_⟩
  intro other otherLink
  exact (files.overwrite path bytes).link_injective _ _ _ otherLink link

variable {files : FileTable Path} {file : Nat} {path : Path}

section

variable (only : files.OnlyAt file path)
include only

omit [DecidableEq Path] in
theorem OnlyAt.append (changed : Nat) (bytes : List UInt8) :
    (files.append changed bytes).OnlyAt file path :=
  only

theorem OnlyAt.overwrite (changed : Path) (bytes : List UInt8) :
    (files.overwrite changed bytes).OnlyAt file path := by
  unfold FileTable.overwrite
  cases link : files.links changed with
  | some other => exact only
  | none =>
    refine ⟨Nat.lt_succ_of_lt only.1, ?_⟩
    intro other otherLink
    by_cases same : other = changed
    · subst same
      have := Option.some.inj ((files.links_create_self other bytes).symm.trans otherLink)
      have := only.1
      omega
    · exact only.2 other ((files.links_create_of_ne bytes same).symm.trans otherLink)

theorem OnlyAt.unlink (removed : Path) : (files.unlink removed).OnlyAt file path := by
  refine ⟨only.1, ?_⟩
  intro other link
  by_cases same : other = removed
  · subst same
    rw [links_unlink_self] at link
    cases link
  · rw [links_unlink_of_ne files same] at link
    exact only.2 other link

theorem OnlyAt.move {moved : Nat}
    (link : files.links source = some moved) (differs : source ≠ path) :
    (files.move source target moved link).OnlyAt file path := by
  refine ⟨only.1, ?_⟩
  intro other otherLink
  by_cases same : other = target
  · subst same
    cases (files.links_move_target link).symm.trans otherLink
    exact absurd (only.2 source link) differs
  · exact (only.unlink source).2 other ((files.links_move_of_ne link same).symm.trans otherLink)

end

end FileTable
end Firenook
