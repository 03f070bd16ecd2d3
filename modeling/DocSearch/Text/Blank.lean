import DocSearch.Text.Basic

/-!
# Text — blank characters

A character is blank when it has the Unicode property White_Space (25 characters, the same in
every version of Unicode since 4.1 but for U+180E).  Blank characters separate the parts of a
query, and are dropped at both ends of an array of documents.
-/

namespace DocSearch

/-- The Unicode property White_Space. -/
def isBlank (c : Char) : Bool :=
  let n := c.toNat
  (0x09 ≤ n && n ≤ 0x0D) || n == 0x20 || n == 0x85 || n == 0xA0 || n == 0x1680
    || (0x2000 ≤ n && n ≤ 0x200A) || n == 0x2028 || n == 0x2029 || n == 0x202F || n == 0x205F
    || n == 0x3000

/-- Three blank characters beyond ASCII, and two that only look so: U+200B and U+FEFF. -/
example : isBlank '\u00a0' ∧ isBlank '\u2029' ∧ isBlank '\u3000'
    ∧ isBlank '\u200b' = false ∧ isBlank '\ufeff' = false := by decide

namespace Text

/-- A text without the blank characters in front. -/
def trimStart (s : Text) : Text :=
  s.dropWhile isBlank

/-- A text without the blank characters behind. -/
def trimEnd (s : Text) : Text :=
  (s.reverse.dropWhile isBlank).reverse

/-- A text without the blank characters at its two ends. -/
def trim (s : Text) : Text :=
  trimEnd (trimStart s)

/-- Only an all blank text trims to nothing. -/
theorem trim_eq_nil_iff {s : Text} : trim s = [] ↔ ∀ c ∈ s, isBlank c = true := by
  have key : ∀ t : Text, t.dropWhile isBlank = [] ↔ ∀ c ∈ t, isBlank c = true := by
    intro t
    induction t with
    | nil => simp
    | cons c t ih => by_cases h : isBlank c <;> simp [h, ih]
  constructor
  · intro h c hc
    have hback : ∀ d ∈ (trimStart s).reverse, isBlank d = true :=
      (key _).1 (by simpa [trim, trimEnd] using h)
    rcases List.mem_append.1 (by rwa [List.takeWhile_append_dropWhile] :
        c ∈ s.takeWhile isBlank ++ s.dropWhile isBlank) with h' | h'
    · exact List.all_eq_true.1 List.all_takeWhile c h'
    · exact hback c (by simpa [trimStart] using h')
  · intro h
    simp [trim, trimStart, (key s).2 h, trimEnd]

end Text

end DocSearch
