import ClassSelection.File.System
import Mathlib.Tactic.SplitIfs

/-!
# Writing files

A write that succeeds places one file and leaves everything else as it was
(`placed_of_write`); the content is then read under the same path
(`read_of_write`).
-/

namespace ClassSelection

namespace FileSystem

variable {system : FileSystem} {directory location : Location} {content : ByteArray}

/-! ## Putting files -/

theorem lookup_cons (file : Location × ByteArray) (files : List (Location × ByteArray))
    (location : Location) :
    (file :: files).lookup location =
      if location = file.1 then some file.2 else files.lookup location := by
  rw [List.lookup_cons]
  split <;> simp_all

theorem lookup_putContent (location other : Location) (content : ByteArray)
    (files : List (Location × ByteArray)) :
    (putContent location content files).lookup other =
      if other = location then some content else files.lookup other := by
  induction files with
  | nil => rw [putContent, lookup_cons]
  | cons file files ih =>
      rw [putContent]
      by_cases hfile : file.1 = location
      · rw [if_pos hfile, lookup_cons, lookup_cons, hfile]
        by_cases h : other = location <;> simp [h]
      · rw [if_neg hfile, lookup_cons, lookup_cons, ih]
        by_cases hother : other = file.1
        · rw [hother, if_pos rfl, if_neg hfile, if_pos rfl]
        · rw [if_neg hother, if_neg hother]

@[simp] theorem content?_put (system : FileSystem) (location other : Location)
    (content : ByteArray) :
    (system.put location content).content? other =
      if other = location then some content else system.content? other :=
  lookup_putContent location other content system.files

@[simp] theorem origin_put (system : FileSystem) (location : Location) (content : ByteArray)
    (path : String) : (system.put location content).origin path = system.origin path := rfl

/-! ## The pieces of a path -/

section Pieces

variable {piece : List Char} {others : List (List Char)} {inner : Location} {target : Target}

structure IsLookedUp (piece : List Char) : Prop where
  ne_nil : piece ≠ []
  ne_dot : piece ≠ ['.']
  ne_dots : piece ≠ ['.', '.']

inductive Enters (system : FileSystem) (directory : Location) (piece : List Char) : Location → Prop
  | stay (h : piece = [] ∨ piece = ['.']) : Enters system directory piece directory
  | up (h : piece = ['.', '.']) : Enters system directory piece directory.dropLast
  | down (h : IsLookedUp piece)
      (hlength : ¬maxNameBytes < (String.ofList piece).utf8ByteSize)
      (hdirectory : system.hasDirectory (directory ++ [String.ofList piece]) = true) :
      Enters system directory piece (directory ++ [String.ofList piece])

structure Names (system : FileSystem) (directory : Location) (piece : List Char) : Prop where
  lookedUp : IsLookedUp piece
  length_le : ¬maxNameBytes < (String.ofList piece).utf8ByteSize
  noDirectory : ¬system.hasDirectory (directory ++ [String.ofList piece]) = true

theorem stays_iff (piece : List Char) :
    (String.ofList piece == "" || String.ofList piece == ".") = true ↔
      piece = [] ∨ piece = ['.'] := by
  simp [String.ext_iff]

theorem ascends_iff (piece : List Char) :
    (String.ofList piece == "..") = true ↔ piece = ['.', '.'] := by
  simp [String.ext_iff]

theorem follow_of_enters (h : system.Enters directory piece inner) (others : List (List Char)) :
    system.follow directory (piece :: others) = system.follow inner others := by
  rw [follow]
  dsimp only
  cases h with
  | stay h => rw [if_pos ((stays_iff piece).2 h)]
  | up h =>
      subst h
      rfl
  | down h hlength hdirectory =>
      rw [if_neg (mt (stays_iff piece).1 (not_or.2 ⟨h.ne_nil, h.ne_dot⟩)),
        if_neg (mt (ascends_iff piece).1 h.ne_dots), if_neg hlength, if_pos hdirectory]

theorem follow_of_names (h : system.Names directory piece) :
    system.follow directory [piece] =
      .ok (if (system.content? (directory ++ [String.ofList piece])).isSome then
        .file (directory ++ [String.ofList piece])
      else .free (directory ++ [String.ofList piece])) := by
  rw [follow]
  dsimp only
  rw [if_neg (mt (stays_iff piece).1 (not_or.2 ⟨h.lookedUp.ne_nil, h.lookedUp.ne_dot⟩)),
    if_neg (mt (ascends_iff piece).1 h.lookedUp.ne_dots), if_neg h.length_le,
    if_neg h.noDirectory]
  cases system.content? (directory ++ [String.ofList piece]) <;> rfl

/-- On a way that leads anywhere a piece leads into a directory, or it is the last one and names a
file. -/
theorem enters_or_names (h : system.follow directory (piece :: others) = .ok target) :
    (∃ inner, system.Enters directory piece inner) ∨
      others = [] ∧ system.Names directory piece := by
  rw [follow] at h
  dsimp only at h
  split_ifs at h with hstays hascends hlength hdirectory
  · exact .inl ⟨_, .stay ((stays_iff piece).1 hstays)⟩
  · exact .inl ⟨_, .up ((ascends_iff piece).1 hascends)⟩
  all_goals
    obtain ⟨hnil, hdot⟩ := not_or.1 (mt (stays_iff piece).2 hstays)
    have hlookedUp : IsLookedUp piece := ⟨hnil, hdot, mt (ascends_iff piece).2 hascends⟩
  · exact .inl ⟨_, .down hlookedUp hlength hdirectory⟩
  · refine .inr ⟨?_, hlookedUp, hlength, hdirectory⟩
    split at h <;> first | rfl | contradiction

theorem Enters.put (h : system.Enters directory piece inner) (written : Location) :
    (system.put written content).Enters directory piece inner := by
  cases h with
  | stay h => exact .stay h
  | up h => exact .up h
  | down h hlength hdirectory => exact .down h hlength hdirectory

theorem Names.put (h : system.Names directory piece) (written : Location) :
    (system.put written content).Names directory piece :=
  ⟨h.lookedUp, h.length_le, h.noDirectory⟩

end Pieces

/-! ## Paths to files -/

def Target.location? : Target → Option Location
  | .directory => none
  | .file location | .free location => some location

theorem location?_of_follow_name {piece : List Char} {target : Target}
    (h : system.follow directory [piece] = .ok target)
    (hlocation : target.location? = some location) :
    system.Names directory piece ∧ location = directory ++ [String.ofList piece] := by
  rcases enters_or_names h with ⟨inner, hinner⟩ | ⟨-, hname⟩
  · rw [follow_of_enters hinner, follow] at h
    cases h
    cases hlocation
  · rw [follow_of_names hname] at h
    cases h
    refine ⟨hname, (Option.some.inj (Eq.trans ?_ hlocation)).symm⟩
    split <;> rfl

theorem location?_of_follow_slash {way : List (List Char)} {target : Target}
    (h : system.follow directory (way ++ [[]]) = .ok target) : target.location? = none := by
  induction way generalizing directory with
  | nil =>
      rw [List.nil_append, follow_of_enters (.stay (.inl rfl)), follow] at h
      cases h
      rfl
  | cons piece way ih =>
      rw [List.cons_append] at h
      rcases enters_or_names h with ⟨inner, hinner⟩ | ⟨hlast, -⟩
      · rw [follow_of_enters hinner] at h
        exact ih h
      · simp at hlast

/-- Once there is content at the file that a path leads to, the path leads to it. -/
theorem follow_put {pieces : List (List Char)} {target : Target}
    (h : system.follow directory pieces = .ok target)
    (hlocation : target.location? = some location) :
    (system.put location content).follow directory pieces = .ok (.file location) := by
  induction pieces generalizing directory with
  | nil =>
      cases h
      cases hlocation
  | cons piece others ih =>
      rcases enters_or_names h with ⟨inner, hinner⟩ | ⟨rfl, hname⟩
      · rw [follow_of_enters hinner] at h
        rw [follow_of_enters (hinner.put location)]
        exact ih h
      · obtain ⟨-, rfl⟩ := location?_of_follow_name h hlocation
        rw [follow_of_names (hname.put _), content?_put, if_pos rfl]
        rfl

/-- A file that has been written is found again under its path. -/
theorem resolve_put {path : String} {target : Target}
    (h : system.resolveForWriting path = .ok target)
    (hlocation : target.location? = some location) :
    (system.put location content).resolve path = .ok (.file location) := by
  unfold resolveForWriting at h
  unfold resolve
  cases hpieces : pathPieces path with
  | error cause =>
      rw [hpieces] at h
      cases h
  | ok pieces =>
      rw [hpieces] at h
      simp only [bind, Except.bind] at h ⊢
      split at h
      · rw [location?_of_follow_slash h] at hlocation
        cases hlocation
      · rw [origin_put]
        exact follow_put h hlocation

/-- The file that a write to a path creates or replaces, if there can be one. -/
def fileAt? (system : FileSystem) (path : String) : Option Location :=
  (system.resolveForWriting path).toOption.bind Target.location?

/-- Between two systems the file at a location has been given its content, and nothing else has
changed. -/
structure Placed (before : FileSystem) (location : Location) (content : ByteArray)
    (after : FileSystem) : Prop where
  content : after.content? location = some content
  others : ∀ other, other ≠ location → after.content? other = before.content? other
  directories : after.directories = before.directories
  workingDirectory : after.workingDirectory = before.workingDirectory

theorem placed_put (system : FileSystem) (location : Location) (content : ByteArray) :
    system.Placed location content (system.put location content) where
  content := by rw [content?_put, if_pos rfl]
  others := fun other hother => by rw [content?_put, if_neg hother]
  directories := rfl
  workingDirectory := rfl

theorem write_eq_ok {path : String} {after : FileSystem} :
    system.write path content = .ok after ↔
      ∃ location, system.fileAt? path = some location ∧ after = system.put location content := by
  unfold write fileAt?
  cases system.resolveForWriting path with
  | error cause => simp [bind, Except.bind, Except.toOption]
  | ok target =>
      cases target <;>
        simp [bind, Except.bind, Except.toOption, Target.location?, pure, Except.pure, throw,
          throwThe, MonadExceptOf.throw, eq_comm]

theorem read_of_write {path : String} {after : FileSystem}
    (h : system.write path content = .ok after) : after.read path = .ok content := by
  obtain ⟨location, hfile, rfl⟩ := write_eq_ok.1 h
  obtain ⟨target, htarget, hlocation⟩ := Option.bind_eq_some_iff.1 hfile
  have hresolve : system.resolveForWriting path = .ok target := by
    cases htarget' : system.resolveForWriting path <;> simp_all [Except.toOption]
  rw [read, resolve_put hresolve hlocation]
  simp [bind, Except.bind, pure, Except.pure]

end FileSystem

end ClassSelection
