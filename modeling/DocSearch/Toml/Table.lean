import DocSearch.Text.Basic

/-!
# TOML — values and tables

A TOML document is a table.  Its statements fill it one by one: a header opens a table to define
it, and a pair gives a key of the table in hand a value.  Either may be given as a dotted path
through further tables, which come into being on the way.

A table is defined once.  How it came into being (`Origin`) decides what may still be added: a
table that a header only passed through may yet be defined by a header of its own, a table that
dotted keys made may only be entered by more dotted keys and by headers that go further, and
what stands in braces is complete.

Numbers and times are kept without their value, as nothing here looks at one.
-/

namespace DocSearch.Toml

/-- How a table came into being. -/
inductive Origin where
  /-- written in braces -/
  | inline
  /-- defined by its own header -/
  | header
  /-- passed through by the header of another -/
  | passed
  /-- made by a dotted key -/
  | dotted
  deriving DecidableEq

/-- A value of a document. -/
inductive Value where
  | text (s : Text)
  | bool (b : Bool)
  | number
  | time
  | array (items : List Value)
  | table (origin : Origin) (entries : List (Text × Value))

/-- The keys of a table with their values. -/
abbrev Entries := List (Text × Value)

namespace Entries

/-- The entries with another value for a key that is among them. -/
def replace (key : Text) (value : Value) (entries : Entries) : Entries :=
  entries.map fun (k, v) => if k = key then (k, value) else (k, v)

/-- The entries with one more, whose key must be new. -/
def put? (key : Text) (value : Value) (entries : Entries) : Option Entries :=
  match entries.lookup key with
  | none => some (entries ++ [(key, value)])
  | some _ => none

/-- The entries with a table defined by a header: a new one, or one so far only passed. -/
def define? (key : Text) (entries : Entries) : Option Entries :=
  match entries.lookup key with
  | none => some (entries ++ [(key, .table .header [])])
  | some (.table .passed sub) => some (replace key (.table .header sub) entries)
  | some _ => none

end Entries

/-- A step of a path: a key, of a header or in front of a dot. -/
structure Step where
  key : Text
  ofHeader : Bool

namespace Step

/-- The origin of a table that comes into being by a step. -/
def origin (step : Step) : Origin :=
  if step.ofHeader then .passed else .dotted

/-- Whether a step may enter a table that is there. -/
def mayEnter (step : Step) : Origin → Bool
  | .inline => false
  | .header => step.ofHeader
  | .passed | .dotted => true

end Step

/-- The entries with a change made at the end of a path. -/
def Entries.updateAt? (change : Entries → Option Entries) : List Step → Entries → Option Entries
  | [], entries => change entries
  | step :: steps, entries =>
    match entries.lookup step.key with
    | none => do
      let sub ← updateAt? change steps []
      return entries ++ [(step.key, .table step.origin sub)]
    | some (.table origin sub) =>
      if step.mayEnter origin then do
        let sub ← updateAt? change steps sub
        return entries.replace step.key (.table origin sub)
      else none
    | some _ => none

/-- The steps of the keys in front of the last, and the last. -/
def splitLast? (ofHeader : Bool) : List Text → Option (List Step × Text)
  | [] => none
  | [last] => some ([], last)
  | key :: keys => (splitLast? ofHeader keys).map fun (steps, last) => (⟨key, ofHeader⟩ :: steps, last)

/-- The root's entries with the table of a header defined. -/
def Entries.openTable? (path : List Text) (root : Entries) : Option Entries := do
  let (steps, last) ← splitLast? true path
  root.updateAt? (define? last) steps

/-- The root's entries with a pair added to the table of a header. -/
def Entries.assign? (header path : List Text) (value : Value) (root : Entries) : Option Entries := do
  let (steps, last) ← splitLast? false path
  root.updateAt? (put? last value) (header.map (⟨·, true⟩) ++ steps)

end DocSearch.Toml
