import ShiFormat.Command.Options

/-!
A command line without its requests to write back asks for the same run, printed instead.
-/
namespace ShiFormat

namespace Arguments

def unwritten (a : Arguments) : Arguments := { a with write := false }

variable {a b : Arguments}

theorem read_shorts (a : Arguments) {letter : Char} (no_dash : letter ≠ '-')
    (letters : List Char) (more : List String) :
    a.read (String.ofList ('-' :: letter :: letters) :: more) =
      ((letter :: letters).foldlM addShort a).bind fun a => a.read more := by
  rw [read]
  simp only [String.toList_ofList]
  split <;> simp_all

theorem whole_name {long : List Char} (unvalued : (long.dropWhile (· != '=')).tail? = none) :
    long.takeWhile (· != '=') = long := by
  have nothing : long.dropWhile (· != '=') = [] := by
    cases rest : long.dropWhile (· != '=') <;> simp_all
  simpa [nothing] using List.takeWhile_append_dropWhile (p := (· != '=')) (l := long)

/-- A request that ends the reading runs nothing. -/
def RunsNothing (step : Except Request Arguments) : Prop := ∀ o, step ≠ .error (.run o)

theorem runsNothing_ok : RunsNothing (.ok a) := fun _ => nofun

theorem runsNothing_bind {first : Except Request Arguments}
    {next : Arguments → Except Request Arguments} (here : RunsNothing first)
    (later : ∀ c, RunsNothing (next c)) : RunsNothing (first.bind next) := by
  cases first with
  | error request =>
    intro o ran
    cases ran
    exact here o rfl
  | ok c => exact later c

theorem runsNothing_addSwitch (switch : Switch) : RunsNothing (a.addSwitch switch) := by
  intro o
  cases switch <;> simp only [addSwitch] <;> (try split) <;> nofun

theorem runsNothing_addWidth (text : List Char) : RunsNothing (a.addWidth text) := by
  intro o
  unfold addWidth
  split <;> nofun

theorem runsNothing_addFile (text : String) : RunsNothing (a.addFile text) := by
  intro o
  unfold addFile
  split <;> nofun

theorem runsNothing_readFiles (files : List String) : RunsNothing (a.readFiles files) := by
  induction files generalizing a with
  | nil => exact runsNothing_ok
  | cons file files ih => exact runsNothing_bind (runsNothing_addFile file) fun _ => ih

theorem runsNothing_addShorts (letters : List Char) : RunsNothing (letters.foldlM addShort a) := by
  induction letters generalizing a with
  | nil => exact runsNothing_ok
  | cons letter letters ih =>
    refine runsNothing_bind ?_ fun _ => ih
    intro o
    unfold addShort
    split
    · exact runsNothing_addSwitch _ o
    · nofun

theorem runsNothing_read (arguments : List String) : RunsNothing (a.read arguments) := by
  fun_induction read a arguments with
  | case1 => exact runsNothing_ok
  | case2 => exact runsNothing_readFiles _
  | case3 _ _ _ _ _ _ _ _ _ _ _ ih => exact runsNothing_bind (runsNothing_addWidth _) ih
  | case4 | case6 | case8 => exact fun _ => nofun
  | case5 _ _ _ _ _ _ _ _ _ _ _ _ ih => exact runsNothing_bind (runsNothing_addWidth _) ih
  | case7 _ _ _ _ _ _ _ _ _ _ _ _ ih => exact runsNothing_bind (runsNothing_addSwitch _) ih
  | case9 _ _ _ _ _ _ _ _ ih => exact runsNothing_bind (runsNothing_addShorts _) ih
  | case10 _ _ _ _ _ _ ih => exact runsNothing_bind (runsNothing_addFile _) ih

/-- Only formatted text is written back. -/
theorem mode_of_write {o : Options} (asked : a.request = .run o) (write : o.write = true) :
    o.mode = .format := by
  unfold request at asked
  split at asked
  · cases asked
  · split at asked
    · cases asked
    · cases asked
      simp_all

end Arguments

theorem ok_of_toOption {ε α : Type} {x : Except ε α} {a : α} (done : x.toOption = some a) :
    x = .ok a := by
  cases x with
  | error => cases done
  | ok => rw [Option.some.inj done]

theorem asked_of_read {arguments : List String} {o : Options} (a : Arguments)
    (read : (Arguments.read {} arguments).toOption = some a) (request : a.request = .run o) :
    Request.ofArguments arguments = .run o := by
  rw [Request.ofArguments, ok_of_toOption read]
  exact request

theorem read_of_asked {arguments : List String} {o : Options}
    (asked : Request.ofArguments arguments = .run o) :
    ∃ a, Arguments.read {} arguments = .ok a ∧ a.request = .run o := by
  unfold Request.ofArguments at asked
  split at asked
  · next a read => exact ⟨a, read, asked⟩
  · next request read =>
    subst asked
    exact absurd read (Arguments.runsNothing_read arguments o)

end ShiFormat
