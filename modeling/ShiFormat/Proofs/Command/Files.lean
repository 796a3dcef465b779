import ShiFormat.Command.Files

/-!
Writing to a file changes what is found at that file, and nothing else about the files.
-/
namespace ShiFormat
namespace FileSet

section
variable {change : FileEntry → FileEntry} (named : ∀ entry, (change entry).name = entry.name)
include named

theorem wayTo_change (entry : FileEntry) : wayTo (change entry) = wayTo entry := by
  rw [wayTo, named, wayTo]

theorem fileAt?_map (files : FileSet) (way : List (List Char)) :
    fileAt? (files.map change) way = (files.fileAt? way).map change := by
  simp only [fileAt?, List.find?_map, Function.comp_def, wayTo_change named]

theorem isDirectory_map (files : FileSet) (way : List (List Char)) :
    isDirectory (files.map change) way = files.isDirectory way := by
  simp only [isDirectory, List.any_map, Function.comp_def, wayTo_change named]

theorem follow_map (files : FileSet) (place : Option (List (List Char)))
    (steps : List Path.Step) :
    follow (files.map change) place steps = files.follow place steps := by
  induction steps generalizing place with
  | nil => rw [follow, follow]
  | cons step more ih =>
    cases place with
    | none => cases step <;> simp only [follow, ih]
    | some way =>
      cases step <;>
        simp only [follow, fileAt?_map named, isDirectory_map named, Option.isSome_map, ih]

theorem locate_map (files : FileSet) (path : Path) :
    locate (files.map change) path = (files.locate path).map change := by
  unfold locate
  split
  · rfl
  · rw [follow_map named]
    cases files.follow (some []) path.steps with
    | error fault => rfl
    | ok place =>
      cases place with
      | none => rfl
      | some way =>
        simp only [bind, Except.bind, fileAt?_map named, isDirectory_map named]
        cases files.fileAt? way with
        | none => cases files.isDirectory way <;> rfl
        | some entry => cases demandsDirectory path <;> rfl

end

/-- The bytes under every path after a write. -/
theorem locate_write {files : FileSet} {path : Path} {target : FileEntry}
    (found : files.locate path = .ok target) (bytes : ByteArray) (other : Path) :
    (files.write path bytes).locate other =
      (files.locate other).map fun entry =>
        if wayTo entry == wayTo target then { entry with bytes } else entry := by
  rw [write, found]
  refine locate_map (fun entry => ?_) files other
  split <;> rfl

end FileSet
end ShiFormat
