import DocSearch.Json.Reader
import DocSearch.Proofs.Number.Plain
import DocSearch.Proofs.Segment.Grammar

/-!
# JSON — what the readers take off a text

A reader takes a piece off the front of a text.  Two things hold of the piece, whichever reader
took it (`Local`):

* it is a list of items to a scanner of segments that heeds quotes: its braces balance, and it
  leaves no literal open (`Balanced`).  JSON strings are literals, for the escapes of JSON begin
  with a backslash and take at least one character along;
* in front of any other text that begins like the rest, the reader takes the same piece off and
  gives the same value.  Only the first character of the rest matters, as it tells where a number
  ends; behind a bracket, nothing does.

Values are read the same at every depth that suffices for them, in whatever way doubles are read.
So the text of an object within a JSON text is itself a JSON text, of the same object
(`value?_object`).
-/

namespace DocSearch.Json

open Segment (Parses IsOrdinary Ordinary Literal)

/-! ### Pieces of text -/

/-- White space only. -/
def Space (s : Text) : Prop :=
  ∀ c ∈ s, isSpace c = true

/-- A list of items to a scanner that heeds quotes. -/
def Balanced (s : Text) : Prop :=
  ∃ items, Parses .quoteAware items s

theorem space_nil : Space [] :=
  fun _ h => nomatch h

theorem isSpace_cases {c : Char} (h : isSpace c = true) :
    c = ' ' ∨ c = '\t' ∨ c = '\n' ∨ c = '\r' := by
  simpa [isSpace, or_assoc] using h

theorem isOrdinary_of_isDigit {c : Char} (h : c.isDigit = true) : IsOrdinary .quoteAware c := by
  refine ⟨?_, ?_, fun _ => ?_⟩
  · rintro rfl
    cases h
  · rintro rfl
    cases h
  · rw [← Bool.not_eq_true, Segment.isQuote]
    simp only [Bool.or_eq_true, decide_eq_true_eq]
    rintro (rfl | rfl) <;> cases h

theorem Space.ordinary {s : Text} (h : Space s) : Ordinary .quoteAware s := by
  intro c hc
  rcases isSpace_cases (h c hc) with rfl | rfl | rfl | rfl <;> decide

namespace Balanced

variable {s t : Text}

theorem append (hs : Balanced s) (ht : Balanced t) : Balanced (s ++ t) := by
  obtain ⟨items, hs⟩ := hs
  obtain ⟨items', ht⟩ := ht
  exact ⟨_, hs.append ht⟩

theorem cons {c : Char} (hc : IsOrdinary .quoteAware c) (hs : Balanced s) : Balanced (c :: s) := by
  obtain ⟨items, hs⟩ := hs
  exact ⟨_, .plain hc hs⟩

theorem of_ordinary (h : Ordinary .quoteAware s) : Balanced s :=
  (Segment.exists_parses_ordinary h).imp fun _ => And.left

theorem quoted {body : Text} (h : Literal.Body '"' body) : Balanced ('"' :: body ++ ['"']) :=
  ⟨_, .literal rfl rfl h .nil⟩

theorem braces (h : Balanced s) : Balanced ('\x7b' :: s ++ ['\x7d']) := by
  obtain ⟨items, h⟩ := h
  exact ⟨_, .object h .nil⟩

end Balanced

theorem skipSpace_append {w s : Text} {c : Char} (hw : Space w) (hc : isSpace c = false) :
    skipSpace (w ++ c :: s) = c :: s := by
  rw [skipSpace, List.dropWhile_append_of_pos hw, List.dropWhile_cons_of_neg (by simp [hc])]

theorem skipSpace_cons {s : Text} {c : Char} (hc : isSpace c = false) :
    skipSpace (c :: s) = c :: s :=
  skipSpace_append (w := []) space_nil hc

theorem isSpace_of_skipSpace {s r : Text} {c : Char} (h : skipSpace s = c :: r) :
    isSpace c = false := by
  have hhead := List.head?_dropWhile_not isSpace s
  rw [show s.dropWhile isSpace = c :: r from h] at hhead
  simpa using hhead

/-- White space is skipped up to a character, whatever follows that. -/
theorem exists_of_skipSpace {s r : Text} {c : Char} (h : skipSpace s = c :: r) :
    ∃ w, Space w ∧ s = w ++ c :: r ∧ ∀ r', skipSpace (w ++ c :: r') = c :: r' := by
  have hw : Space (s.takeWhile isSpace) := List.all_eq_true.1 List.all_takeWhile
  have hsplit : s = s.takeWhile isSpace ++ c :: r := by
    rw [← h]
    exact List.takeWhile_append_dropWhile.symm
  exact ⟨_, hw, hsplit, fun r' => skipSpace_append hw (isSpace_of_skipSpace h)⟩

/-- Texts that begin alike do so behind the same text. -/
theorem head?_append_congr {r r' : Text} (h : r'.head? = r.head?) (s : Text) :
    (s ++ r').head? = (s ++ r).head? := by
  cases s with
  | nil => exact h
  | cons c s => rfl

theorem head?_append_cons (s r r' : Text) (c : Char) :
    (s ++ c :: r').head? = (s ++ c :: r).head? := by
  cases s <;> rfl

/-- What the first reader takes off the front of a text is a piece with a property, and the second
takes it off every text that goes on with the same character. -/
def Local {α : Type} (Piece : Text → Prop) (read read' : Reads α) : Prop :=
  ∀ ⦃s : Text⦄ ⦃a : α⦄ ⦃rest : Text⦄, read s = some (a, rest) →
    ∃ piece, Piece piece ∧ s = piece ++ rest
      ∧ ∀ rest', rest'.head? = rest.head? → read' (piece ++ rest') = some (a, rest')

/-! ### Strings -/

theorem hexValue?_ne {c : Char} (h : (hexValue? c).isSome = true) : c ≠ '\\' ∧ c ≠ '"' := by
  constructor
  · rintro rfl
    cases h
  · rintro rfl
    cases h

/-- Four hexadecimal digits are part of the literal that they stand in. -/
theorem body_unit {a b c d : Char} {unit : Nat} {s : Text} (hunit : unit? a b c d = some unit)
    (h : Literal.Body '"' s) : Literal.Body '"' ('\\' :: 'u' :: a :: b :: c :: d :: s) := by
  simp only [unit?, Option.bind_eq_bind, Option.bind_eq_some_iff] at hunit
  obtain ⟨_, ha, _, hb, _, hc, _, hd, -⟩ := hunit
  have hne : ∀ {x : Char} {v : Nat}, hexValue? x = some v → x ≠ '\\' ∧ x ≠ '"' :=
    fun hx => hexValue?_ne (Option.isSome_of_eq_some hx)
  exact .escape 'u' (.other (hne ha).1 (hne ha).2 (.other (hne hb).1 (hne hb).2
    (.other (hne hc).1 (hne hc).2 (.other (hne hd).1 (hne hd).2 h))))

/-- The content of a string runs to the quote that closes it as a literal. -/
theorem stringBody?_local {s body rest : Text} (h : stringBody? s = some (body, rest)) :
    ∃ piece, Literal.Body '"' piece ∧ s = piece ++ '"' :: rest
      ∧ ∀ rest', stringBody? (piece ++ '"' :: rest') = some (body, rest') := by
  fun_induction stringBody? s generalizing body rest with
  | case1 => cases h
  | case2 a b c d s ihLow ih =>
    -- four digits, and behind a high surrogate four more
    obtain ⟨unit, hunit, h⟩ := Option.bind_eq_some_iff.1 h
    split at h
    · next hhigh =>
      split at h
      · next a' b' c' d' s =>
        obtain ⟨low, hlow, h⟩ := Option.bind_eq_some_iff.1 h
        split at h
        · next hpair =>
          obtain ⟨⟨body', rest'⟩, hbody, heq⟩ := Option.map_eq_some_iff.1 h
          cases heq
          obtain ⟨piece, hpiece, rfl, hback⟩ := ihLow hbody
          refine ⟨_, body_unit hunit (body_unit hlow hpiece), rfl, fun rest' => ?_⟩
          simp [stringBody?, hunit, hhigh, hlow, hpair, hback]
        · cases h
      · cases h
    · next hhigh =>
      split at h
      · cases h
      · next hpair =>
        obtain ⟨⟨body', rest'⟩, hbody, heq⟩ := Option.map_eq_some_iff.1 h
        cases heq
        obtain ⟨piece, hpiece, rfl, hback⟩ := ih hbody
        refine ⟨_, body_unit hunit hpiece, rfl, fun rest' => ?_⟩
        simp [stringBody?, hunit, hhigh, hpair, hback]
  | case3 e s hnot ih =>
    obtain ⟨c, hc, h⟩ := Option.bind_eq_some_iff.1 h
    obtain ⟨⟨body', rest'⟩, hbody, heq⟩ := Option.map_eq_some_iff.1 h
    cases heq
    obtain ⟨piece, hpiece, rfl, hback⟩ := ih hbody
    have hu : e ≠ 'u' := by
      rintro rfl
      cases hc
    refine ⟨_, .escape e hpiece, rfl, fun rest' => ?_⟩
    simp [stringBody?, hu, hc, hback]
  | case4 s =>
    cases h
    exact ⟨[], .nil, rfl, fun rest' => by simp [stringBody?]⟩
  | case5 => cases h
  | case6 c s _ _ hquote hother ih =>
    obtain ⟨⟨body', rest'⟩, hbody, heq⟩ := Option.map_eq_some_iff.1 h
    cases heq
    obtain ⟨piece, hpiece, rfl, hback⟩ := ih hbody
    have hslash : c ≠ '\\' := fun e => hother (.inl e)
    refine ⟨_, .other hslash hquote hpiece, rfl, fun rest' => ?_⟩
    simp [stringBody?, hslash, hquote, show ¬ c.toNat < 0x20 from fun e => hother (.inr e), hback]

/-! ### Numbers -/

theorem ordinary_takeWhile_isDigit (s : Text) : Ordinary .quoteAware (s.takeWhile Char.isDigit) :=
  fun _ hc => isOrdinary_of_isDigit (List.all_eq_true.1 List.all_takeWhile _ hc)

theorem fraction?_of_head? {s : Text} (h : s.head? ≠ some '.') : fraction? s = some (none, s) := by
  unfold fraction?
  split
  · simp at h
  · rfl

theorem fraction?_local : Local (Ordinary .quoteAware) fraction? fraction? := by
  intro s a rest h
  by_cases hpoint : s.head? = some '.'
  · obtain ⟨s, rfl⟩ := List.head?_eq_some_iff.1 hpoint
    simp only [fraction?, Option.ite_none_left_eq_some, Option.some.injEq, Prod.mk.injEq] at h
    obtain ⟨hne, rfl, rfl⟩ := h
    refine ⟨'.' :: s.takeWhile Char.isDigit, .cons (by decide) (ordinary_takeWhile_isDigit s),
      by simp, fun rest' hhead => ?_⟩
    obtain ⟨htake, hdrop⟩ := Numeral.takeWhile_isDigit_append hhead
    simp only [List.cons_append, fraction?, htake, hdrop, if_neg hne]
  · rw [fraction?_of_head? hpoint] at h
    cases h
    refine ⟨[], Ordinary.nil _, rfl, fun rest' hhead => ?_⟩
    exact fraction?_of_head? (hhead ▸ hpoint)

theorem exponent?_of_head? {s : Text} (h : s.head? ≠ some 'e' ∧ s.head? ≠ some 'E') :
    exponent? s = some (none, s) := by
  cases s with
  | nil => rfl
  | cons c s =>
    have hc : ¬(c = 'e' ∨ c = 'E') := by simpa using h
    simp [exponent?, hc]

theorem exponent?_local : Local (Ordinary .quoteAware) exponent? exponent? := by
  intro s a rest h
  by_cases hhead : s.head? ≠ some 'e' ∧ s.head? ≠ some 'E'
  · rw [exponent?_of_head? hhead] at h
    cases h
    refine ⟨[], Ordinary.nil _, rfl, fun rest' hrest => ?_⟩
    exact exponent?_of_head? (hrest ▸ hhead)
  · obtain ⟨c, s, rfl, hc⟩ : ∃ c s', s = c :: s' ∧ (c = 'e' ∨ c = 'E') := by
      cases s with
      | nil => simp at hhead
      | cons c s => exact ⟨c, s, rfl, by simpa [Classical.or_iff_not_imp_left] using hhead⟩
    obtain ⟨sign, hsign, hchar, hback⟩ := Numeral.eq_append_splitSign s
    simp only [exponent?, if_pos hc, Option.ite_none_left_eq_some, Option.some.injEq,
      Prod.mk.injEq] at h
    obtain ⟨hne, rfl, rfl⟩ := h
    refine ⟨c :: sign ++ (Numeral.splitSign s).2.takeWhile Char.isDigit, ?_, ?_,
      fun rest' hrest => ?_⟩
    · have hordinary : Ordinary .quoteAware sign := by
        intro c hc
        rcases hchar c hc with rfl | rfl <;> decide
      exact (Ordinary.cons (by rcases hc with rfl | rfl <;> decide) hordinary).append
        (ordinary_takeWhile_isDigit _)
    · rw [List.append_assoc, List.takeWhile_append_dropWhile, List.cons_append, ← hsign]
    · obtain ⟨htake, hdrop⟩ := Numeral.takeWhile_isDigit_append hrest
      have hsplit := hback ((Numeral.splitSign s).2.takeWhile Char.isDigit ++ rest') (by
        rw [head?_append_congr hrest, List.takeWhile_append_dropWhile])
      simp only [List.append_assoc, List.cons_append, exponent?, if_pos hc, hsplit, htake, hdrop,
        if_neg hne]

/-- A numeral behind its sign. -/
def unsigned? (negative : Bool) (s : Text) : Option (Numeral × Text) :=
  let whole := s.takeWhile Char.isDigit
  if whole.isEmpty ∨ (whole.head? = some '0' ∧ whole.length ≠ 1) then none
  else do
    let (fraction, s) ← fraction? (s.dropWhile Char.isDigit)
    let (exponent, s) ← exponent? s
    return (⟨negative, whole, fraction, exponent⟩, s)

theorem numeral?_minus (s : Text) : numeral? ('-' :: s) = unsigned? true s := rfl

theorem numeral?_of_head? {s : Text} (h : s.head? ≠ some '-') :
    numeral? s = unsigned? false s := by
  unfold numeral?
  split
  next heq =>
  split at heq
  · simp at h
  · cases heq
    rfl

theorem unsigned?_local (negative : Bool) :
    Local (fun piece => Ordinary .quoteAware piece ∧ ∃ c s, piece = c :: s ∧ c.isDigit = true)
      (unsigned? negative) (unsigned? negative) := by
  intro s n rest h
  simp only [unsigned?, Option.ite_none_left_eq_some, Option.bind_eq_bind,
    Option.bind_eq_some_iff] at h
  obtain ⟨hwhole, ⟨fraction, s₁⟩, hfraction, ⟨exponent, s₂⟩, hexponent, hn⟩ := h
  cases hn
  obtain ⟨f, hf, hs₁, hbackFraction⟩ := fraction?_local hfraction
  obtain ⟨e, he, rfl, hbackExponent⟩ := exponent?_local hexponent
  have hsplit : s = s.takeWhile Char.isDigit ++ (f ++ (e ++ s₂)) := by
    rw [← hs₁, List.takeWhile_append_dropWhile]
  refine ⟨s.takeWhile Char.isDigit ++ (f ++ e), ⟨?_, ?_⟩, by simpa using hsplit,
    fun rest' hrest => ?_⟩
  · exact (ordinary_takeWhile_isDigit s).append (hf.append he)
  · obtain ⟨c, digits, hdigits⟩ := List.exists_cons_of_ne_nil
      (show s.takeWhile Char.isDigit ≠ [] by
        intro hnil
        simp [hnil] at hwhole)
    have hc : c ∈ s.takeWhile Char.isDigit := by simp [hdigits]
    exact ⟨c, digits ++ (f ++ e), by simp [hdigits], List.all_eq_true.1 List.all_takeWhile c hc⟩
  · have hafter := head?_append_congr hrest e
    obtain ⟨htake, hdrop⟩ := Numeral.takeWhile_isDigit_append (s := s) (t := f ++ (e ++ rest'))
      (by rw [hs₁, head?_append_congr hafter])
    simp only [List.append_assoc, unsigned?, htake, hdrop, if_neg hwhole,
      hbackFraction _ hafter, hbackExponent _ hrest, Option.bind_eq_bind, Option.bind_some]
    rfl

/-- A numeral is told from other values by its first character. -/
theorem numeral?_local :
    Local (fun piece => Ordinary .quoteAware piece
        ∧ ∃ c s, piece = c :: s ∧ (c = '-' ∨ c.isDigit = true))
      numeral? numeral? := by
  intro s n rest h
  by_cases hminus : s.head? = some '-'
  · obtain ⟨s, rfl⟩ := List.head?_eq_some_iff.1 hminus
    rw [numeral?_minus] at h
    obtain ⟨piece, ⟨hpiece, -⟩, rfl, hback⟩ := unsigned?_local true h
    exact ⟨'-' :: piece, ⟨hpiece.cons (by decide), _, _, rfl, .inl rfl⟩, rfl, hback⟩
  · rw [numeral?_of_head? hminus] at h
    obtain ⟨piece, ⟨hpiece, c, s, rfl, hc⟩, rfl, hback⟩ := unsigned?_local false h
    refine ⟨c :: s, ⟨hpiece, c, s, rfl, .inr hc⟩, rfl, fun rest' hrest => ?_⟩
    rw [numeral?_of_head? (by simpa using hminus)]
    exact hback rest' hrest

/-! ### Words and scalars -/

theorem word?_eq_some {s rest : Text} {value : Json} (h : word? s = some (value, rest)) :
    ∃ word, (word, value) ∈ words ∧ s = word ++ rest := by
  obtain ⟨⟨word, value'⟩, hmem, hword⟩ := List.exists_of_findSome?_eq_some h
  obtain ⟨rest', hafter, heq⟩ := Option.map_eq_some_iff.1 hword
  cases heq
  exact ⟨word, hmem, Text.after?_eq_some_iff.1 hafter⟩

theorem words_cases {word : Text} {value : Json} (h : (word, value) ∈ words) :
    word = ['n', 'u', 'l', 'l'] ∧ value = .null ∨ word = ['t', 'r', 'u', 'e'] ∧ value = .bool true
      ∨ word = ['f', 'a', 'l', 's', 'e'] ∧ value = .bool false := by
  simpa [words] using h

theorem word?_append {word : Text} {value : Json} (h : (word, value) ∈ words) (rest : Text) :
    word? (word ++ rest) = some (value, rest) := by
  rcases words_cases h with ⟨rfl, rfl⟩ | ⟨rfl, rfl⟩ | ⟨rfl, rfl⟩ <;> rfl

/-- No word begins with a digit or a minus sign. -/
theorem word?_eq_none {c : Char} (hc : c = '-' ∨ c.isDigit = true) (s : Text) :
    word? (c :: s) = none := by
  rw [Option.eq_none_iff_forall_ne_some]
  rintro ⟨value, rest⟩ h
  obtain ⟨word, hmem, hs⟩ := word?_eq_some h
  rcases words_cases hmem with ⟨rfl, -⟩ | ⟨rfl, -⟩ | ⟨rfl, -⟩ <;>
  · obtain ⟨rfl, -⟩ := List.cons.inj hs
    simp at hc

/-- A piece that values are written as. -/
def Piece (s : Text) : Prop :=
  s ≠ [] ∧ Balanced s

variable {double? : ReadsDouble}

theorem scalar?_of_head? {s : Text} (h : s.head? ≠ some '"') :
    scalar? double? s = match word? s with
      | some found => some found
      | none => do
        let (numeral, rest) ← numeral? s
        let number ← numberOf? double? numeral
        return (.number number, rest) := by
  unfold scalar?
  split
  · simp at h
  · rfl

/-- A scalar is no container, and is not read as the beginning of one. -/
theorem scalar?_local : Local Piece (scalar? double?) (scalar? double?) := by
  intro s value rest h
  by_cases hquote : s.head? = some '"'
  · obtain ⟨s, rfl⟩ := List.head?_eq_some_iff.1 hquote
    obtain ⟨⟨body, rest'⟩, hbody, heq⟩ := Option.map_eq_some_iff.1 h
    cases heq
    obtain ⟨piece, hpiece, rfl, hback⟩ := stringBody?_local hbody
    refine ⟨'"' :: piece ++ ['"'], ⟨by simp, .quoted hpiece⟩, by simp, fun rest' _ => ?_⟩
    simp [scalar?, hback]
  rw [scalar?_of_head? hquote] at h
  split at h
  · next found hword =>
    cases h
    obtain ⟨word, hmem, rfl⟩ := word?_eq_some hword
    have hpiece : Piece word ∧ ∀ r : Text, (word ++ r).head? ≠ some '"' := by
      rcases words_cases hmem with ⟨rfl, -⟩ | ⟨rfl, -⟩ | ⟨rfl, -⟩ <;>
        exact ⟨⟨by simp, .of_ordinary (by decide)⟩, by simp⟩
    refine ⟨word, hpiece.1, rfl, fun rest' _ => ?_⟩
    rw [scalar?_of_head? (hpiece.2 rest'), word?_append hmem]
  · simp only [Option.bind_eq_bind, Option.bind_eq_some_iff] at h
    obtain ⟨⟨numeral, s₁⟩, hnumeral, number, hnumber, heq⟩ := h
    cases heq
    obtain ⟨piece, ⟨hpiece, c, s, rfl, hc⟩, rfl, hback⟩ := numeral?_local hnumeral
    refine ⟨c :: s, ⟨by simp, .of_ordinary hpiece⟩, rfl, fun rest' hrest => ?_⟩
    rw [scalar?_of_head? (by simpa using hquote)]
    have hnone : word? (c :: s ++ rest') = none := word?_eq_none hc _
    simp only [hnone, hback rest' hrest, Option.bind_eq_bind, Option.bind_some, hnumber]
    rfl

/-! ### Containers -/

section
variable {α : Type} {thing? thing'? : Reads α} {close : Char} {things : List α} {s rest : Text}

/-- What a sequence is, without a limit: things with commas between them, up to a bracket. -/
inductive Sequence (thing? : Reads α) (close : Char) : List α → Text → Text → Prop where
  | last {s s' rest : Text} {thing : α} :
      thing? s = some (thing, s') → skipSpace s' = close :: rest →
      Sequence thing? close [thing] s rest
  | cons {s s' s'' rest : Text} {thing : α} {things : List α} :
      thing? s = some (thing, s') → skipSpace s' = ',' :: s'' →
      Sequence thing? close things s'' rest → Sequence thing? close (thing :: things) s rest

/-- The limit bounds the number of things, and nothing else. -/
theorem sequence?_eq_some_iff (hclose : close ≠ ',') {limit : Nat} :
    sequence? thing? close limit s = some (things, rest)
      ↔ Sequence thing? close things s rest ∧ things.length ≤ limit := by
  induction limit generalizing things s with
  | zero =>
    refine iff_of_false (by simp [sequence?]) ?_
    rintro ⟨h, hlen⟩
    cases h <;> simp at hlen
  | succ limit ih =>
    constructor
    · intro h
      rw [sequence?] at h
      split at h
      · cases h
      next thing s' hthing =>
      split at h
      · cases h
      next c s'' hskip =>
      split at h
      · next hc =>
        cases h
        exact ⟨.last hthing (hc ▸ hskip), by simp⟩
      · split at h
        · next hc =>
          obtain ⟨⟨things', rest'⟩, hthings, heq⟩ := Option.map_eq_some_iff.1 h
          cases heq
          obtain ⟨hseq, hlen⟩ := ih.1 hthings
          exact ⟨.cons hthing (hc ▸ hskip) hseq, Nat.succ_le_succ hlen⟩
        · cases h
    · rintro ⟨h, hlen⟩
      cases h with
      | last hthing hskip => simp [sequence?, hthing, hskip]
      | cons hthing hskip h =>
        have hthings := ih.2 ⟨h, Nat.le_of_succ_le_succ hlen⟩
        simp [sequence?, hthing, hskip, hclose.symm, hthings]

theorem Sequence.exists_inner (hlocal : Local Piece thing? thing'?)
    (h : Sequence thing? close things s rest) :
    ∃ inner, Piece inner ∧ s = inner ++ close :: rest ∧ things.length ≤ inner.length
      ∧ ∀ rest', Sequence thing'? close things (inner ++ close :: rest') rest' := by
  -- what follows a thing is white space and then a comma or the bracket, in front of any rest
  induction h with
  | last hthing hskip =>
    obtain ⟨piece, ⟨hne, hpiece⟩, rfl, hback⟩ := hlocal hthing
    obtain ⟨w, hw, rfl, hskip'⟩ := exists_of_skipSpace hskip
    refine ⟨piece ++ w, ⟨by simp [hne], hpiece.append (.of_ordinary hw.ordinary)⟩, by simp, ?_,
      fun rest' => ?_⟩
    · have := List.length_pos_iff.2 hne
      simp only [List.length_cons, List.length_nil, List.length_append]
      omega
    · rw [List.append_assoc]
      exact .last (hback _ (head?_append_cons w ..)) (hskip' rest')
  | @cons _ _ _ rest _ _ hthing hskip _ ih =>
    obtain ⟨piece, ⟨hne, hpiece⟩, rfl, hback⟩ := hlocal hthing
    obtain ⟨w, hw, rfl, hskip'⟩ := exists_of_skipSpace hskip
    obtain ⟨inner, ⟨-, hinner⟩, rfl, hlen, hbackInner⟩ := ih
    refine ⟨piece ++ (w ++ ',' :: inner), ⟨by simp [hne], ?_⟩, by simp, ?_, fun rest' => ?_⟩
    · exact hpiece.append ((Balanced.of_ordinary hw.ordinary).append (hinner.cons (by decide)))
    · have := List.length_pos_iff.2 hne
      simp only [List.length_cons, List.length_append]
      omega
    · rw [List.append_assoc, List.append_assoc]
      exact .cons (hback _ (head?_append_cons w ..)) (hskip' _) (hbackInner rest')

/-- A container is read the same whatever follows its closing bracket. -/
theorem container?_local (hlocal : Local Piece thing? thing'?) (hclose : close ≠ ',')
    (h : container? thing? close s = some (things, rest)) :
    ∃ inner, Balanced inner ∧ s = inner ++ close :: rest
      ∧ ∀ rest', container? thing'? close (inner ++ close :: rest') = some (things, rest') := by
  unfold container? at h
  split at h
  · cases h
  next c r hskip =>
  obtain ⟨w, hw, rfl, hskip'⟩ := exists_of_skipSpace hskip
  split at h
  · next hc =>
    subst hc
    cases h
    refine ⟨w, .of_ordinary hw.ordinary, rfl, fun rest' => ?_⟩
    simp [container?, hskip']
  · next hc =>
    obtain ⟨hseq, -⟩ := (sequence?_eq_some_iff hclose).1 h
    obtain ⟨inner, ⟨hne, hinner⟩, hs, hlen, hback⟩ := hseq.exists_inner hlocal
    obtain ⟨d, inner, rfl⟩ := List.exists_cons_of_ne_nil hne
    obtain ⟨rfl, rfl⟩ := List.cons.inj hs
    refine ⟨w ++ c :: inner, (Balanced.of_ordinary hw.ordinary).append hinner, by simp,
      fun rest' => ?_⟩
    have hlimit : things.length ≤ (w ++ c :: (inner ++ close :: rest')).length := by
      simp only [List.length_append, List.length_cons] at hlen ⊢
      omega
    have hthings := (sequence?_eq_some_iff hclose).2 ⟨hback rest', hlimit⟩
    rw [List.append_assoc, List.cons_append]
    simp only [container?, hskip', if_neg hc]
    exact hthings

end

/-! ### Values -/

theorem member?_local {value? value'? : Reads Json} (hlocal : Local Piece value? value'?) :
    Local Piece (member? value?) (member? value'?) := by
  intro s m rest h
  unfold member? at h
  split at h
  · next s₁ hskip =>
    obtain ⟨w, hw, rfl, hskip'⟩ := exists_of_skipSpace hskip
    simp only [Option.bind_eq_bind, Option.bind_eq_some_iff] at h
    obtain ⟨⟨key, s₂⟩, hkey, h⟩ := h
    obtain ⟨body, hbody, rfl, hbackKey⟩ := stringBody?_local hkey
    split at h
    · next s₃ hcolon =>
      obtain ⟨w', hw', rfl, hcolon'⟩ := exists_of_skipSpace hcolon
      obtain ⟨⟨value, s₄⟩, hvalue, heq⟩ := Option.bind_eq_some_iff.1 h
      cases heq
      obtain ⟨piece, ⟨hne, hpiece⟩, rfl, hback⟩ := hlocal hvalue
      refine ⟨w ++ (('"' :: body ++ ['"']) ++ (w' ++ ':' :: piece)), ⟨by simp, ?_⟩, by simp,
        fun rest' hrest => ?_⟩
      · exact (Balanced.of_ordinary hw.ordinary).append ((Balanced.quoted hbody).append
          ((Balanced.of_ordinary hw'.ordinary).append (hpiece.cons (by decide))))
      · simp [member?, hskip', hbackKey, hcolon', hback _ hrest]
    · cases h
  · cases h

section
variable {depth : Nat} {s r : Text}

theorem value?_scalar {c : Char} (h : skipSpace s = c :: r) (hc : c ≠ '[' ∧ c ≠ '\x7b') :
    value? double? depth s = scalar? double? (c :: r) := by
  unfold value?
  rw [h]
  cases depth <;> simp [hc]

theorem value?_array (h : skipSpace s = '[' :: r) :
    value? double? (depth + 1) s = (container? (value? double? depth) ']' r).map
      fun (items, rest) => (.array items, rest) := by
  unfold value?
  rw [h]
  rfl

theorem value?_members (h : skipSpace s = '\x7b' :: r) :
    value? double? (depth + 1) s = (container? (member? (value? double? depth)) '\x7d' r).map
      fun (members, rest) => (ofMembers members, rest) := by
  unfold value?
  rw [h]
  rfl

/-- A container is read at a positive depth. -/
theorem depth_pos {value : Json} {rest : Text} {c : Char} (hc : ¬(c ≠ '[' ∧ c ≠ '\x7b'))
    (hskip : skipSpace s = c :: r) (h : value? double? depth s = some (value, rest)) :
    ∃ depth', depth = depth' + 1 := by
  cases depth with
  | zero =>
    have hbracket : c = '[' ∨ c = '\x7b' := by simpa [Classical.or_iff_not_imp_left] using hc
    unfold value? at h
    rw [hskip] at h
    simp [hbracket] at h
  | succ depth => exact ⟨depth, rfl⟩

/-- A scalar is read at every depth. -/
theorem value?_scalar_local {depth' : Nat} {value : Json} {rest : Text} {c : Char}
    (hc : c ≠ '[' ∧ c ≠ '\x7b') (hskip : skipSpace s = c :: r)
    (h : value? double? depth s = some (value, rest)) :
    ∃ piece, Balanced (c :: piece) ∧ r = piece ++ rest
      ∧ ∀ s' rest', rest'.head? = rest.head? → skipSpace s' = c :: (piece ++ rest') →
        value? double? depth' s' = some (value, rest') := by
  rw [value?_scalar hskip hc] at h
  obtain ⟨piece, ⟨hne, hpiece⟩, hs, hback⟩ := scalar?_local h
  obtain ⟨d, piece, rfl⟩ := List.exists_cons_of_ne_nil hne
  obtain ⟨rfl, rfl⟩ := List.cons.inj hs
  refine ⟨piece, hpiece, rfl, fun s' rest' hrest hs' => ?_⟩
  rw [value?_scalar hs' hc]
  exact hback rest' hrest

/-- An array is read the same whatever follows its closing bracket. -/
theorem value?_array_local {depth' : Nat} {value : Json} {rest : Text}
    (hlocal : Local Piece (value? double? depth) (value? double? depth'))
    (hskip : skipSpace s = '[' :: r)
    (h : value? double? (depth + 1) s = some (value, rest)) :
    ∃ inner, Balanced inner ∧ r = inner ++ ']' :: rest
      ∧ ∀ s' rest', skipSpace s' = '[' :: (inner ++ ']' :: rest') →
        value? double? (depth' + 1) s' = some (value, rest') := by
  rw [value?_array hskip] at h
  obtain ⟨⟨items, rest'⟩, hitems, heq⟩ := Option.map_eq_some_iff.1 h
  cases heq
  obtain ⟨inner, hinner, rfl, hback⟩ := container?_local hlocal (by decide) hitems
  refine ⟨inner, hinner, rfl, fun s' rest' hs' => ?_⟩
  rw [value?_array hs', hback]
  rfl

/-- An object is read the same whatever follows its closing brace. -/
theorem value?_members_local {depth' : Nat} {value : Json} {rest : Text}
    (hlocal : Local Piece (value? double? depth) (value? double? depth'))
    (hskip : skipSpace s = '\x7b' :: r)
    (h : value? double? (depth + 1) s = some (value, rest)) :
    ∃ inner, Balanced inner ∧ r = inner ++ '\x7d' :: rest
      ∧ ∀ s' rest', skipSpace s' = '\x7b' :: (inner ++ '\x7d' :: rest') →
        value? double? (depth' + 1) s' = some (value, rest') := by
  rw [value?_members hskip] at h
  obtain ⟨⟨members, rest'⟩, hmembers, heq⟩ := Option.map_eq_some_iff.1 h
  cases heq
  obtain ⟨inner, hinner, rfl, hback⟩ :=
    container?_local (member?_local hlocal) (by decide) hmembers
  refine ⟨inner, hinner, rfl, fun s' rest' hs' => ?_⟩
  rw [value?_members hs', hback]
  rfl

theorem skipSpace_ne_nil {value : Json} {rest : Text}
    (h : value? double? depth s = some (value, rest)) : skipSpace s ≠ [] := by
  intro hnil
  unfold value? at h
  rw [hnil] at h
  simp at h

end

/-- **What is read as a value is balanced**, and is read as that value at every larger depth. -/
theorem value?_local {depth depth' : Nat} (hdepth : depth ≤ depth') :
    Local Piece (value? double? depth) (value? double? depth') := by
  induction depth using Nat.strongRecOn generalizing depth' with
  | _ depth ih =>
  intro s value rest h
  obtain ⟨c, r, hskip⟩ := List.exists_cons_of_ne_nil (skipSpace_ne_nil h)
  obtain ⟨w, hw, rfl, hskip'⟩ := exists_of_skipSpace hskip
  have hspace : Balanced w := .of_ordinary hw.ordinary
  by_cases hc : c ≠ '[' ∧ c ≠ '\x7b'
  · obtain ⟨piece, hpiece, rfl, hback⟩ := value?_scalar_local hc hskip h
    refine ⟨w ++ c :: piece, ⟨by simp, hspace.append hpiece⟩, by simp, fun rest' hrest => ?_⟩
    rw [List.append_assoc]
    exact hback _ _ hrest (hskip' _)
  -- a container uses up one depth, and holds its elements to the next smaller one
  obtain ⟨depth, rfl⟩ := depth_pos hc hskip h
  obtain ⟨depth', rfl⟩ : ∃ d, depth' = d + 1 := ⟨depth' - 1, by omega⟩
  have hlocal := ih depth (Nat.lt_succ_self _) (Nat.le_of_succ_le_succ hdepth)
  by_cases hopen : c = '['
  · subst hopen
    obtain ⟨inner, hinner, rfl, hback⟩ := value?_array_local hlocal hskip h
    have hclose : Balanced [']'] := .cons (by decide) ⟨[], .nil⟩
    refine ⟨w ++ '[' :: (inner ++ [']']), ⟨by simp, ?_⟩, by simp, fun rest' _ => ?_⟩
    · exact hspace.append ((hinner.append hclose).cons (by decide))
    · rw [List.append_assoc, List.cons_append, List.append_assoc, List.singleton_append]
      exact hback _ _ (hskip' _)
  · obtain rfl : c = '\x7b' := by simpa [hopen] using hc
    obtain ⟨inner, hinner, rfl, hback⟩ := value?_members_local hlocal hskip h
    refine ⟨w ++ '\x7b' :: (inner ++ ['\x7d']), ⟨by simp, hspace.append hinner.braces⟩, by simp,
      fun rest' _ => ?_⟩
    rw [List.append_assoc, List.cons_append, List.append_assoc, List.singleton_append]
    exact hback _ _ (hskip' _)

/-! ### Objects and arrays of a text -/

theorem scalar?_spec {s rest : Text} {value : Json} (h : scalar? double? s = some (value, rest)) :
    (∀ items, value ≠ .array items) ∧ ∀ members, value ≠ .object members := by
  unfold scalar? at h
  split at h
  · obtain ⟨_, -, heq⟩ := Option.map_eq_some_iff.1 h
    cases heq
    simp
  · split at h
    · next hword =>
      cases h
      obtain ⟨word, hmem, -⟩ := word?_eq_some hword
      rcases words_cases hmem with ⟨-, rfl⟩ | ⟨-, rfl⟩ | ⟨-, rfl⟩ <;> simp
    · simp only [Option.bind_eq_bind, Option.bind_eq_some_iff] at h
      obtain ⟨_, -, _, -, heq⟩ := h
      cases heq
      simp

/-- A value's first character says whether it is an array, an object or neither. -/
theorem value?_cases {depth : Nat} {s rest : Text} {value : Json}
    (h : value? double? depth s = some (value, rest)) :
    (∃ r items depth', skipSpace s = '[' :: r ∧ value = .array items ∧ depth = depth' + 1
      ∧ container? (value? double? depth') ']' r = some (items, rest))
    ∨ (∃ r members depth', skipSpace s = '\x7b' :: r ∧ value = ofMembers members
      ∧ depth = depth' + 1
      ∧ container? (member? (value? double? depth')) '\x7d' r = some (members, rest))
    ∨ (∀ items, value ≠ .array items) ∧ ∀ members, value ≠ .object members := by
  obtain ⟨c, r, hskip⟩ := List.exists_cons_of_ne_nil (skipSpace_ne_nil h)
  by_cases hc : c ≠ '[' ∧ c ≠ '\x7b'
  · rw [value?_scalar hskip hc] at h
    exact .inr (.inr (scalar?_spec h))
  obtain ⟨depth, rfl⟩ := depth_pos hc hskip h
  by_cases hopen : c = '['
  · subst hopen
    rw [value?_array hskip] at h
    obtain ⟨⟨items, rest'⟩, hitems, heq⟩ := Option.map_eq_some_iff.1 h
    cases heq
    exact .inl ⟨r, items, depth, hskip, rfl, rfl, hitems⟩
  · obtain rfl : c = '\x7b' := by simpa [hopen] using hc
    rw [value?_members hskip] at h
    obtain ⟨⟨members, rest'⟩, hmembers, heq⟩ := Option.map_eq_some_iff.1 h
    cases heq
    exact .inr (.inl ⟨r, members, depth, hskip, rfl, rfl, hmembers⟩)

/-- **The text of an object is a text between braces**, of the same object wherever it stands. -/
theorem value?_object {depth depth' : Nat} {s rest : Text} {members : List (Text × Json)}
    (hdepth : depth ≤ depth') (h : value? double? depth s = some (.object members, rest)) :
    ∃ w inner, Space w ∧ Balanced inner ∧ s = w ++ '\x7b' :: (inner ++ '\x7d' :: rest)
      ∧ ∀ rest', value? double? depth' ('\x7b' :: (inner ++ '\x7d' :: rest'))
        = some (.object members, rest') := by
  rcases value?_cases h with ⟨_, _, _, -, hvalue, -⟩ | ⟨r, _, depth, hskip, -, rfl, -⟩ | ⟨-, hvalue⟩
  · cases hvalue
  · obtain ⟨w, hw, rfl, -⟩ := exists_of_skipSpace hskip
    obtain ⟨depth', rfl⟩ : ∃ d, depth' = d + 1 := ⟨depth' - 1, by omega⟩
    obtain ⟨inner, hinner, rfl, hback⟩ :=
      value?_members_local (value?_local (Nat.le_of_succ_le_succ hdepth)) hskip h
    exact ⟨w, inner, hw, hinner, rfl, fun rest' => hback _ _ rfl⟩
  · exact absurd rfl (hvalue members)

end DocSearch.Json
