import DocSearch.Command.Run

/-!
# The program

Everything is decided by `Command.execute`; here the files that an invocation names are read for
it, and what it answers is written out.
-/

namespace DocSearch

/-- What the system has at a path. -/
def lookUp (path : Text) : IO Command.Entry := do
  if '\x00' ∈ path then return .noPath
  try
    return .file (← IO.FS.readBinFile (String.ofList path))
  catch
    | .noFileOrDirectory .. => return .absent
    | .inappropriateType _ 21 _ => return .directory
    | .inappropriateType .. => return .beyondFile
    | e@(.invalidArgument _ code _) =>
      return if code = 36 ∨ code + 36 = 0 then .tooLong else .unreadable (toString e)
    | e => return .unreadable (toString e)

/-- The name of the environment's variable for a settings file. -/
def settingsVariable : String := "DOCQ_SETTINGS"

/-- The paths that an invocation reads. -/
def namedPaths (invocation : Command.Invocation) : List Text :=
  invocation.settings.toList ++ invocation.file.toList

/-- Whether an invocation reads the standard input. -/
def readsInput (invocation : Command.Invocation) : Bool :=
  invocation.verb.takesFile && invocation.file.isNone

/-- What the system shows to some arguments.  Arguments that are not carried out see nothing of it. -/
def surroundings (arguments : List Text) : IO Command.Surroundings := do
  let named := (← IO.getEnv settingsVariable).map String.toList
  match Command.Invocation.ofArguments named arguments with
  | .error _ => return ⟨fun _ => .absent, .empty, named⟩
  | .ok invocation =>
    let entries ← (namedPaths invocation).mapM fun path =>
      return (path, ← lookUp path)
    let input ← if readsInput invocation then (← IO.getStdin).readBinToEnd else pure .empty
    return ⟨fun path => (entries.lookup path).getD .absent, input, named⟩

end DocSearch

def main (arguments : List String) : IO UInt32 := do
  let arguments := arguments.map String.toList
  let outcome := DocSearch.Command.execute arguments (← DocSearch.surroundings arguments)
  IO.print (String.ofList outcome.output)
  unless outcome.complaint.isEmpty do
    IO.eprintln (String.ofList outcome.complaint)
  return UInt32.ofNat outcome.status
