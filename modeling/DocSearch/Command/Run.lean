import DocSearch.Command.Arguments
import DocSearch.Command.Files
import DocSearch.Documents
import DocSearch.Json.Printer
import DocSearch.Query.Store
import DocSearch.Segment.Basic
import DocSearch.Settings

/-!
# Command line — the three commands

`compile` writes the filter of a query, `segment` the objects of an array, and `find` the
documents of an array that match a query.  Each gives one text, or one failure:

* settings are read before anything else, and the input before the query of `find` is looked at;
* `find` compiles the query, splits the input, and reads all documents before it matches any;
* objects and documents are separated by line feeds.

`execute` is the whole program: what it ends with, prints, and complains of.  Three kinds of text are
left out of it, and nothing is said about them: what a reader of TOML or JSON has against a text, which
would follow the message of the failure and a colon; the help and the complaints of the parser of
arguments, for all of which `summary` stands; and the log.
-/

namespace DocSearch.Command

/-- Why no settings were read. -/
inductive SettingsError where
  /-- no file at the path -/
  | absent (path : Text)
  | unreadable (path : Text) (reason : String)
  /-- no TOML, or no settings -/
  | invalid (path : Text)
  deriving DecidableEq

/-- Why no settings were read, in words.  What is wrong with an invalid file, in the words of the TOML
reader behind a further colon, is left out. -/
def SettingsError.message : SettingsError → String
  | absent path => "settings file not found at " ++ String.ofList path
  | unreadable path reason => "Failed reading " ++ String.ofList path ++ ": " ++ reason
  | invalid path => "Invalid settings at " ++ String.ofList path

/-- Why a command failed. -/
inductive Failure where
  | query (e : Query.Error)
  | segment (e : Segment.Error)
  | settings (e : SettingsError)
  | read (e : ReadError)
  /-- the document of an index, from zero, is no JSON -/
  | document (index : Nat)
  deriving DecidableEq

/-- Why a command failed, in words.  What is wrong with a document, in the words of the JSON reader
behind a further colon, is left out. -/
def Failure.message : Failure → String
  | query e => "Query error: " ++ e.message
  | segment e => "Query error: " ++ e.message
  | settings e => "Config error: " ++ e.message
  | read e => "I/O error: " ++ e.message
  | document index => "document " ++ toString index ++ " is not valid JSON"

/-- The settings at a path, or the defaults if no path is given. -/
def loadSettings (around : Surroundings) (path : Option Text) : Except SettingsError Settings :=
  match path with
  | none => .ok .default
  | some path =>
    if ¬(around.entry path).isFile then .error (.absent path)
    else
      match around.read (some path) with
      | .error e => .error (.unreadable path e.message)
      | .ok s =>
        match Settings.read? s with
        | some settings => .ok settings
        | none => .error (.invalid path)

/-- The style of a command's output. -/
def styleOf (pretty : Bool) : Json.Style :=
  if pretty then .pretty else .compact

/-- The filter of a query. -/
def compileText (style : Json.Style) (query : Text) : Except Failure Text := do
  let expression ← (Query.compile query).mapError .query
  return expression.filter.print style

/-- The objects of an array, one after the other. -/
def segmentText (mode : Segment.Mode) (input : Text) : Except Failure Text := do
  let segments ← (Segment.segments mode input).mapError .segment
  return Text.joinLines segments

/-- The documents of an array that match a query. -/
def findDocuments (mode : Segment.Mode) (query input : Text) : Except Failure (List Json) := do
  let expression ← (Query.compile query).mapError .query
  let segments ← (Segment.segments mode input).mapError .segment
  let documents ← (readDocuments segments).mapError .document
  return expression.select documents

/-- The documents of an array that match a query, one after the other. -/
def findText (mode : Segment.Mode) (style : Json.Style) (query input : Text) :
    Except Failure Text := do
  let hits ← findDocuments mode query input
  return Text.joinLines (hits.map (·.print style))

/-- What an invocation prints under some settings. -/
def Invocation.run (invocation : Invocation) (around : Surroundings) (settings : Settings) :
    Except Failure Text := do
  match invocation.verb with
  | .compile => compileText (styleOf invocation.flag) invocation.query
  | .segment =>
    let input ← (around.read invocation.file).mapError .read
    segmentText (if invocation.flag then .quoteBlind else settings.mode) input
  | .find =>
    let input ← (around.read invocation.file).mapError .read
    findText settings.mode (styleOf invocation.flag) invocation.query input

/-- What an invocation prints. -/
def Invocation.answer (invocation : Invocation) (around : Surroundings) : Except Failure Text := do
  let settings ← (loadSettings around invocation.settings).mapError .settings
  invocation.run around settings

/-- What the program ends with, prints, and complains of. -/
structure Outcome where
  status : Nat
  output : Text
  complaint : Text
  deriving DecidableEq

/-- The name and version of the program. -/
def programVersion : Text := "docq 0.1.0".toList

/-- How the program is called.  This is not the text that is written for help or with a usage error, but
stands for all of those. -/
def summary : Text :=
  Text.joinLines <| [
    "usage: docq [--settings PATH] compile QUERY [--pretty]",
    "       docq [--settings PATH] segment [FILE] [--unguarded]",
    "       docq [--settings PATH] find QUERY [FILE] [--pretty]",
    "       docq --help | --version"].map String.toList

/-- The end of a command line that is not carried out.  The status is that of the program, and so is
the text for the version; the other texts are left out (`summary`). -/
def Usage.outcome : Usage → Outcome
  | .help => ⟨0, summary ++ ['\n'], []⟩
  | .version => ⟨0, programVersion ++ ['\n'], []⟩
  | _ => ⟨2, [], summary⟩

/-- The program. -/
def execute (arguments : List Text) (around : Surroundings) : Outcome :=
  match Invocation.ofArguments around.settings arguments with
  | .error usage => usage.outcome
  | .ok invocation =>
    match invocation.answer around with
    | .error failure => ⟨1, [], "error: ".toList ++ failure.message.toList⟩
    | .ok s => ⟨0, s ++ ['\n'], []⟩

end DocSearch.Command
