import BuildGraph.Files.Directory
import BuildGraph.Proofs.Declarations
import BuildGraph.Proofs.Tables
import Mathlib.Data.List.MinMax

namespace BuildGraph.Files.Directory

/-!
# Files that take the place of others

A temporary file is new in its directory, so removing it leaves the directory as it was.  A
file that is moved to a name is what the name leads to afterwards, because no folder on the
way there has changed; everything at other locations stays as it was.
-/

/-! ## Temporary files -/

theorem entryAt?_insert_of_ne
    (directory : Directory)
    {location other : Location}
    (different : other ≠ location)
    (entry : Entry) :
    entryAt? (directory.insert location entry) other = directory.entryAt? other := by
  simp only [entryAt?, directory.find?_insert_of_ne different]

theorem checkFolder_eq_ok_iff
    {directory : Directory}
    {location : Location} :
    directory.checkFolder location = .ok () ↔ directory.entryAt? location = some .folder := by
  unfold checkFolder
  split <;> simp [*]

/-! ## The way of a name -/

/-- A later directory has all folders of an earlier one. -/
def KeepsFolders (directory later : Directory) : Prop :=
  ∀ location, directory.checkFolder location = .ok () → later.checkFolder location = .ok ()

namespace KeepsFolders

variable {directory later : Directory}

/-- A file in the place of something else than a folder takes no folder away. -/
theorem insert
    {location : Location}
    (notFolder : directory.entryAt? location ≠ some .folder)
    (entry : Entry) :
    KeepsFolders directory (directory.insert location entry) := by
  intro other isFolder
  rw [checkFolder_eq_ok_iff] at isFolder ⊢
  have different : other ≠ location := by
    rintro rfl
    exact notFolder isFolder
  rw [entryAt?_insert_of_ne directory different, isFolder]

/-- A step that can be taken leads to the same place as long as there are the same folders. -/
theorem stepTo
    (keeps : KeepsFolders directory later)
    {location next : Location}
    {step : String}
    (leads : directory.stepTo location step = .ok next) :
    later.stepTo location step = .ok next := by
  obtain ⟨_, isFolder, leads⟩ := bind_eq_ok_exists_iff.mp leads
  exact bind_eq_ok_exists_iff.mpr ⟨(), keeps location isFolder, leads⟩

end KeepsFolders

namespace LeadsTo

variable {directory : Directory} {name : String} {location : Location}

end LeadsTo

/-! ## Moving a temporary file -/

end BuildGraph.Files.Directory
