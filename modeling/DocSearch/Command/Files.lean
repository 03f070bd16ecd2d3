import DocSearch.Text.Basic

/-!
# Command line — files

A command reads at most a settings file, and an input that is a file or the standard input.
`Surroundings` is all that it sees of the system: what is found at a path, the bytes of the
standard input, and what the environment names as a settings file.  Bytes are text when they are
valid UTF-8.

`Directory` gives surroundings without a system: a flat directory that a path names files of.  A
path is walked part by part (`Place.walk`); it may not be too long, and neither may a name that is
looked up on the way.
-/

namespace DocSearch.Command

/-- What is found at a path. -/
inductive Entry where
  | file (bytes : ByteArray)
  | directory
  /-- nothing -/
  | absent
  /-- nothing, because the path leads through a file -/
  | beyondFile
  /-- nothing, because no path has a character U+0000 -/
  | noPath
  /-- nothing, because the path or a name in it is too long -/
  | tooLong
  /-- a file that cannot be read, and the system's words for why -/
  | unreadable (reason : String)

/-- Why an input cannot be read. -/
inductive ReadError where
  | absent
  | directory
  | beyondFile
  | noPath
  | tooLong
  | unreadable (reason : String)
  /-- bytes that are no text -/
  | notText
  deriving DecidableEq

/-- Why an input cannot be read, in words. -/
def ReadError.message : ReadError → String
  | absent => "No such file or directory (os error 2)"
  | directory => "Is a directory (os error 21)"
  | beyondFile => "Not a directory (os error 20)"
  | noPath => "file name contained an unexpected NUL byte"
  | tooLong => "File name too long (os error 36)"
  | unreadable reason => reason
  | notText => "stream did not contain valid UTF-8"

/-- The text that some bytes are. -/
def textOf (bytes : ByteArray) : Except ReadError Text :=
  match String.fromUTF8? bytes with
  | some s => .ok s.toList
  | none => .error .notText

/-- The bytes of the file that an entry is. -/
def Entry.bytes : Entry → Except ReadError ByteArray
  | file bytes => .ok bytes
  | directory => .error .directory
  | absent => .error .absent
  | beyondFile => .error .beyondFile
  | noPath => .error .noPath
  | tooLong => .error .tooLong
  | unreadable reason => .error (.unreadable reason)

/-- Whether an entry is a file, readable or not. -/
def Entry.isFile : Entry → Bool
  | file _ | unreadable _ => true
  | _ => false

/-- What a command sees of the system. -/
structure Surroundings where
  entry : (path : Text) → Entry
  input : ByteArray
  /-- the settings file that the environment names, if it does -/
  settings : Option Text

/-- The text of the file at a path, or of the standard input if no path is given. -/
def Surroundings.read (around : Surroundings) (path : Option Text) : Except ReadError Text := do
  match path with
  | none => textOf around.input
  | some path => textOf (← (around.entry path).bytes)

/-! ### Flat directories -/

/-- The files of a directory by name. -/
abbrev Directory := List (Text × ByteArray)

/-- The parts of a path between its slashes. -/
def pathParts : Text → List Text
  | [] => [[]]
  | c :: s =>
    if c = '/' then [] :: pathParts s
    else match pathParts s with
      | [] => [[c]]
      | part :: parts => (c :: part) :: parts

/-- The number of bytes from which on a path is too long. -/
def pathLimit : Nat := 4096

/-- The number of bytes up to which a name is not too long. -/
def nameLimit : Nat := 255

/-- Where a path may have led. -/
inductive Place where
  /-- to the directory itself -/
  | here
  /-- to a directory above it -/
  | above
  /-- to a file of it -/
  | file (bytes : ByteArray)

namespace Place

/-- What is found at a place. -/
def entry : Place → Entry
  | here | above => .directory
  | file bytes => .file bytes

/-- What the rest of a path names, from a place on.  A file has nothing behind it, not even
a slash, and nothing but directories is known above. -/
def walk (directory : Directory) : Place → List Text → Entry
  | place, [] => place.entry
  | file _, _ :: _ => .beyondFile
  | place, part :: parts =>
    if part = [] ∨ part = ['.'] then walk directory place parts
    else if part = ['.', '.'] then walk directory above parts
    else if nameLimit < Text.byteSize part then .tooLong
    else match place with
      | here =>
        match directory.lookup part with
        | none => .absent
        | some bytes => walk directory (file bytes) parts
      | _ => .absent

end Place

/-- What a path names in a directory. -/
def Directory.entry (directory : Directory) (path : Text) : Entry :=
  if '\x00' ∈ path then .noPath
  else if path = [] then .absent
  else if pathLimit ≤ Text.byteSize path then .tooLong
  else Place.walk directory (if path.head? = some '/' then .above else .here) (pathParts path)

end DocSearch.Command
