import DocSearch.Segment.Literal
import DocSearch.Toml.Reader

/-!
# Settings

Settings are read from a TOML document with at most two tables, `log` and `segment`, of at most
one key each: the level of the log, and whether segmenting heeds quotes.  What is left out has
its default; any other key, and a value of another kind, is refused.

A table may also be written as a list of its values in order; values beyond the first are not
looked at.
-/

namespace DocSearch

/-- What the settings of a file decide. -/
structure Settings where
  logLevel : Text
  quoteAware : Bool
  deriving DecidableEq

namespace Settings

/-- What holds where no settings are given. -/
def default : Settings where
  logLevel := ['w', 'a', 'r', 'n']
  quoteAware := true

/-- The segmenting mode that the settings ask for. -/
def mode (settings : Settings) : Segment.Mode :=
  if settings.quoteAware then .quoteAware else .quoteBlind

/-- The value of the only key of a table, or its default if the table leaves it out. -/
def only? {α : Type} (key : Text) (value? : Toml.Value → Option α) (default : α) :
    Toml.Value → Option α
  | .table _ entries =>
    if entries.all fun (k, _) => k = key then
      match entries.lookup key with
      | none => some default
      | some value => value? value
    else none
  | .array [] => some default
  | .array (value :: _) => value? value
  | _ => none

/-- The text that a value is. -/
def text? : Toml.Value → Option Text
  | .text s => some s
  | _ => none

/-- The truth value that a value is. -/
def bool? : Toml.Value → Option Bool
  | .bool b => some b
  | _ => none

/-- The table that settings name `log`. -/
def logKey : Text := ['l', 'o', 'g']

/-- The table that settings name `segment`. -/
def segmentKey : Text := ['s', 'e', 'g', 'm', 'e', 'n', 't']

/-- The settings in a document's table. -/
def ofEntries? (entries : Toml.Entries) : Option Settings :=
  if entries.all fun (k, _) => k = logKey || k = segmentKey then do
    let logLevel ← match entries.lookup logKey with
      | none => some default.logLevel
      | some value => only? "level".toList text? default.logLevel value
    let quoteAware ← match entries.lookup segmentKey with
      | none => some default.quoteAware
      | some value => only? "quote_aware".toList bool? default.quoteAware value
    return ⟨logLevel, quoteAware⟩
  else none

/-- The settings in a TOML document. -/
def read? (s : Text) : Option Settings :=
  (Toml.read? s).bind ofEntries?

end Settings

end DocSearch
