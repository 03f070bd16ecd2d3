/-!
# Text — lists of characters

Everything the library reads or writes is a `Text`, a list of Unicode scalar values; strings
appear only at its edges.  Positions are counted in bytes of UTF-8 (`Text.byteSize`), which
is additive over concatenation (`byteSize_append`).
-/

namespace DocSearch

/-- A text is the list of its characters. -/
abbrev Text := List Char

namespace Text

/-- The number of bytes that a text takes in UTF-8. -/
def byteSize : Text → Nat
  | [] => 0
  | c :: s => c.utf8Size + byteSize s

@[simp] theorem byteSize_append (s t : Text) : byteSize (s ++ t) = byteSize s + byteSize t := by
  induction s with
  | nil => simp [byteSize]
  | cons c s ih => simp [byteSize, ih, Nat.add_assoc]

/-- Every character takes a byte. -/
theorem byteSize_eq_zero_iff {s : Text} : byteSize s = 0 ↔ s = [] := by
  cases s with
  | nil => simp [byteSize]
  | cons c s =>
    have hpos := c.utf8Size_pos
    simp only [byteSize, reduceCtorEq, iff_false]
    omega

/-- The texts one after the other, a line feed between neighbours. -/
def joinLines (lines : List Text) : Text :=
  List.intercalate ['\n'] lines

/-- What is left of a text behind a given beginning, if it has that beginning. -/
def after? : (start s : Text) → Option Text
  | [], s => some s
  | _ :: _, [] => none
  | a :: start, c :: s => if a = c then after? start s else none

/-- `after?` succeeds exactly on the texts that begin so. -/
theorem after?_eq_some_iff {start s rest : Text} : after? start s = some rest ↔ s = start ++ rest := by
  induction start generalizing s with
  | nil => simp [after?, eq_comm]
  | cons a start ih =>
    cases s with
    | nil => simp [after?]
    | cons c s => by_cases h : a = c <;> simp [after?, h, ih, eq_comm]

/-- What is left of a text in front of a given last character, if it ends in that character. -/
def before? (last : Char) (s : Text) : Option Text :=
  if s.getLast? = some last then some s.dropLast else none

/-- `before?` succeeds exactly on the texts that end so. -/
theorem before?_eq_some_iff {last : Char} {s inner : Text} :
    before? last s = some inner ↔ s = inner ++ [last] := by
  unfold before?
  constructor
  · intro h
    split at h
    · next hl =>
      cases h
      obtain ⟨inner, rfl⟩ := List.getLast?_eq_some_iff.1 hl
      simp
    · cases h
  · rintro rfl
    simp

end Text

end DocSearch
