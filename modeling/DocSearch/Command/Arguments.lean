import DocSearch.Text.Basic

/-!
# Command line — arguments

A command line names one of three commands, with its operands and flags, and possibly a settings
file, which may be named in front of the command or behind it; behind it counts.  Where it names none,
the environment may.  What that names is looked at on either side of the command's word on which no
settings file is named, and may not be empty there (`Line.fallBack`).

Arguments are read from left to right.  Each is an option with a long name, an option with a
short one, `--`, behind which everything is an operand, or a plain word (`Argument.ofText`).  What
the last settings option or file operand was given is settled only when the next option or
operand comes, or at the end (`Line.settle`); so an argument that is not known is reported before
a value that is missing in front of it, and a value that is missing before anything else.
-/

namespace DocSearch.Command

/-- Why a command line is not carried out. -/
inductive Usage where
  /-- help was asked for -/
  | help
  /-- the version was asked for -/
  | version
  /-- nothing was asked for -/
  | nothing
  | unknownArgument
  | unknownCommand
  | missingCommand
  | missingOperand
  /-- an option given twice -/
  | repeated
  /-- a flag given a value -/
  | valueForFlag
  /-- an option or operand without a value where one must be -/
  | missingValue
  deriving DecidableEq

/-- The commands. -/
inductive Verb where
  | compile
  | segment
  | find
  deriving DecidableEq

namespace Verb

/-- The word for a command. -/
def word : Verb → Text
  | compile => "compile".toList
  | segment => "segment".toList
  | find => "find".toList

/-- The command of a word. -/
def ofText? (s : Text) : Option Verb :=
  [compile, segment, find].find? fun verb => verb.word = s

/-- The flag of a command. -/
def flag : Verb → Text
  | compile | find => "pretty".toList
  | segment => "unguarded".toList

/-- Whether the first operand of a command is a query, which it must have. -/
def takesQuery : Verb → Bool
  | compile | find => true
  | segment => false

/-- Whether the last operand of a command is a file, which it may lack. -/
def takesFile : Verb → Bool
  | compile => false
  | segment | find => true

end Verb

/-- What an argument is by its looks. -/
inductive Argument where
  /-- `--` -/
  | escape
  /-- two dashes, a name, and possibly `=` and a value -/
  | long (name : Text) (value : Option Text)
  /-- a dash and letters, of which the first decides -/
  | short (letter : Char)
  /-- any other, a lone dash included -/
  | plain (s : Text)
  deriving DecidableEq

/-- An argument by its looks. -/
def Argument.ofText : Text → Argument
  | ['-', '-'] => escape
  | '-' :: '-' :: s =>
    match s.dropWhile (· ≠ '=') with
    | [] => long s none
    | _ :: value => long (s.takeWhile (· ≠ '=')) (some value)
  | '-' :: letter :: _ => short letter
  | s => plain s

/-- What is to be settled. -/
inductive Pending where
  | nothing
  /-- the settings option, and its value if it has one yet -/
  | settings (value : Option Text)
  /-- a file operand -/
  | file (path : Text)
  deriving DecidableEq

/-- What has been read of a command line, in front of the command's word or behind it. -/
structure Line where
  settings : Option Text
  flag : Bool
  query : Option Text
  file : Option Text
  pending : Pending

namespace Line

/-- Nothing read so far. -/
def empty : Line := ⟨none, false, none, none, .nothing⟩

/-- The settings file named. -/
def setSettings (line : Line) (path : Text) : Except Usage Line :=
  if line.settings.isSome then .error .repeated
  else if path.isEmpty then .error .missingValue
  else .ok { line with settings := some path }

/-- Settles what the last option or operand was given. -/
def settle (line : Line) : Except Usage Line :=
  let settled := { line with pending := .nothing }
  match line.pending with
  | .nothing => .ok settled
  | .settings none => .error .missingValue
  | .settings (some path) => settled.setSettings path
  | .file path => if path.isEmpty then .error .missingValue else .ok { settled with file := some path }

/-- Whether a file operand has come. -/
def hasFile (line : Line) : Bool :=
  line.file.isSome || match line.pending with
    | .file _ => true
    | _ => false

/-- Takes an option with a long name: one for settings or help, for the version in front of the
command, or for the command's flag behind it. -/
def takeLong (verb : Option Verb) (line : Line) (name : Text) (value : Option Text) :
    Except Usage Line :=
  if name = "settings".toList then do
    let line ← line.settle
    match value with
    | some path => line.setSettings path
    | none => return { line with pending := .settings none }
  else
    let answer : Option (Line → Except Usage Line) :=
      if name = "help".toList then some fun _ => .error .help
      else match verb with
        | none => if name = "version".toList then some fun _ => .error .version else none
        | some verb =>
          if name = verb.flag then
            some fun line => if line.flag then .error .repeated else .ok { line with flag := true }
          else none
    match answer, value with
    | none, _ => .error .unknownArgument
    | some _, some _ => .error .valueForFlag
    | some answer, none => line.settle >>= answer

/-- Takes an option with a short name: one for help, or for the version in front of the
command. -/
def takeShort (verb : Option Verb) (line : Line) (letter : Char) : Except Usage Line :=
  if letter = 'h' then line.settle >>= fun _ => .error .help
  else if letter = 'V' ∧ verb = none then line.settle >>= fun _ => .error .version
  else .error .unknownArgument

/-- Takes an operand of a command. -/
def takeOperand (verb : Verb) (line : Line) (s : Text) : Except Usage Line :=
  if verb.takesQuery ∧ line.query.isNone then do
    let line ← line.settle
    return { line with query := some s }
  else if verb.takesFile ∧ ¬line.hasFile then do
    let line ← line.settle
    return { line with pending := .file s }
  else .error .unknownArgument

/-- Settles what was given last, and looks at what the environment names, unless a settings file was
given. -/
def fallBack (named : Option Text) (line : Line) : Except Usage Line := do
  let line ← line.settle
  if line.settings.isNone ∧ named = some [] then throw .missingValue
  return line

/-- Settles the end of a command's arguments. -/
def finish (named : Option Text) (verb : Verb) (line : Line) : Except Usage Line := do
  let line ← line.fallBack named
  if verb.takesQuery ∧ line.query.isNone then throw .missingOperand
  return line

/-- Takes the arguments behind a command's word; behind `--` all are operands. -/
def takeAll (named : Option Text) (verb : Verb) (escaped : Bool) (line : Line) :
    List Text → Except Usage Line
  | [] => line.finish named verb
  | s :: rest =>
    match if escaped then .plain s else Argument.ofText s with
    | .escape => takeAll named verb true line rest
    | .long name value => do takeAll named verb escaped (← line.takeLong (some verb) name value) rest
    | .short letter => do takeAll named verb escaped (← line.takeShort (some verb) letter) rest
    | .plain s =>
      if line.pending = .settings none ∧ ¬escaped then
        takeAll named verb escaped { line with pending := .settings (some s) } rest
      else do takeAll named verb escaped (← line.takeOperand verb s) rest

end Line

/-- A command line that can be carried out. -/
structure Invocation where
  settings : Option Text
  verb : Verb
  flag : Bool
  query : Text
  file : Option Text
  deriving DecidableEq

namespace Invocation

/-- The answer to the word `help` and what follows it: at most one word that names something. -/
def helpFor : List Text → Usage
  | [] => .help
  | [s] => if s = "help".toList ∨ (Verb.ofText? s).isSome then .help else .unknownCommand
  | _ => .unknownCommand

/-- Why a word that stands where a command must is none, given whether `--` is in front. -/
def noCommand (escaped : Bool) (s : Text) : Usage :=
  if escaped ∧ (s = "help".toList ∨ (Verb.ofText? s).isSome) then .unknownArgument
  else .unknownCommand

/-- A command with what stands in front of its word and behind it. -/
def ofLines (named : Option Text) (front : Line) (verb : Verb) (back : Line) : Invocation where
  settings := back.settings <|> front.settings <|> named
  verb := verb
  flag := back.flag
  query := back.query.getD []
  file := back.file

/-- Why a command line without a command is not carried out. -/
def lacksCommand (named : Option Text) (line : Line) : Except Usage Invocation := do
  let line ← line.fallBack named
  throw (if line.settings.isSome ∨ named.isSome then .missingCommand else .nothing)

/-- Takes the arguments up to a command's word, and then the command's. -/
def takeAll (named : Option Text) (line : Line) : List Text → Except Usage Invocation
  | [] => lacksCommand named line
  | s :: rest =>
    match Argument.ofText s with
    | .escape =>
      match rest with
      | [] => lacksCommand named line
      | s :: _ => .error (noCommand true s)
    | .long name value => do takeAll named (← line.takeLong none name value) rest
    | .short letter => do takeAll named (← line.takeShort none letter) rest
    | .plain s =>
      if line.pending = .settings none then
        takeAll named { line with pending := .settings (some s) } rest
      else if s = "help".toList then .error (helpFor rest)
      else match Verb.ofText? s with
        | none => .error (noCommand false s)
        | some verb => do
          let back ← Line.empty.takeAll named verb false rest
          return ofLines named (← line.fallBack named) verb back

/-- The invocation that some arguments ask for, where the environment may name a settings file. -/
def ofArguments (named : Option Text) (arguments : List Text) : Except Usage Invocation :=
  takeAll named .empty arguments

/-- What the command line names counts, also in front of the command; else what the environment names,
which may be empty only where it is not looked at. -/
example : (ofArguments (some ['e']) ["--settings=a".toList, "segment".toList]).toOption.map settings
      = some (some ['a'])
    ∧ (ofArguments (some ['e']) ["segment".toList]).toOption.map settings = some (some ['e'])
    ∧ (ofArguments (some []) ["--settings=a".toList, "segment".toList]).toOption = none := by decide

end Invocation

end DocSearch.Command
