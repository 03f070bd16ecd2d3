import DocSearch.Proofs.Segment.Scan

/-!
# Segments — with quotes heeded and without

A reader that heeds quotes sees every brace that stands outside literals, and one that does not sees
every brace.  Where all braces stand outside literals the two read in step: at each character they
have the same depth and have kept the same text (`scan_modes`).

So the two modes agree on an array in which, from the first opening brace on, no literal holds a
brace and none is left open (`segments_modes_agree`): they give the same segments, or stop at the
same place for the same reason.
-/

namespace DocSearch.Segment

/-- A reader of a text, for whom it starts at the given place with respect to literals, is outside
all literals at every brace and at the end. -/
def BracesOutside (literal : Literal) (s : Text) : Prop :=
  literal.run .quoteAware s = .outside
    ∧ ∀ (front back : Text) (c : Char), s = front ++ c :: back → c = '\x7b' ∨ c = '\x7d' →
      literal.run .quoteAware front = .outside

namespace BracesOutside

variable {literal : Literal} {s : Text} {c : Char}

theorem nil_iff : BracesOutside literal [] ↔ literal = .outside := by
  constructor
  · exact And.left
  · rintro rfl
    exact ⟨rfl, by simp⟩

/-- One character at a time. -/
theorem cons_iff :
    BracesOutside literal (c :: s)
      ↔ (c = '\x7b' ∨ c = '\x7d' → literal = .outside)
        ∧ BracesOutside (literal.step .quoteAware c) s := by
  constructor
  · rintro ⟨hend, h⟩
    exact ⟨h [] s c rfl, hend, fun front back d hs => h (c :: front) back d (hs ▸ rfl)⟩
  · rintro ⟨hc, hend, h⟩
    refine ⟨hend, fun front back d hs hd => ?_⟩
    cases front with
    | nil =>
      obtain ⟨rfl, -⟩ := List.cons.inj hs
      exact hc hd
    | cons b front =>
      obtain ⟨rfl, rfl⟩ := List.cons.inj hs
      exact h front back d rfl hd

/-- Whether braces stand outside literals is found in one reading. -/
protected def decide : (literal : Literal) → (s : Text) → Decidable (BracesOutside literal s)
  | _, [] => decidable_of_iff' _ nil_iff
  | literal, c :: s =>
    have := BracesOutside.decide (literal.step .quoteAware c) s
    decidable_of_iff' _ cons_iff

instance (literal : Literal) (s : Text) : Decidable (BracesOutside literal s) :=
  BracesOutside.decide literal s

end BracesOutside

/-- **Readers that see the same braces read in step**, whatever they have read. -/
theorem scan_modes {literal : Literal} {depth offset : Nat} {started s : Text}
    (h : BracesOutside literal s) :
    scan .quoteAware literal depth started offset s
      = scan .quoteBlind .outside depth started offset s := by
  -- the literals of the two readers differ, so only the depth and the text kept go in step
  induction s generalizing literal depth offset started with
  | nil =>
    obtain rfl := BracesOutside.nil_iff.1 h
    simp only [scan]
  | cons c s ih =>
    obtain ⟨hbrace, hs⟩ := BracesOutside.cons_iff.1 h
    by_cases hopen : c = '\x7b'
    · subst hopen
      obtain rfl := hbrace (.inl rfl)
      rw [scan_open, scan_open]
      exact ih hs
    by_cases hclose : c = '\x7d'
    · subst hclose
      obtain rfl := hbrace (.inr rfl)
      rw [scan_close, scan_close]
      rcases depth with _ | _ | depth
      · rfl
      · exact congrArg (Except.map _) (ih hs)
      · exact ih hs
    · rw [scan_step fun _ => ⟨hopen, hclose⟩, scan_step fun _ => ⟨hopen, hclose⟩]
      exact ih hs

/-- **Heeding quotes makes no difference where no literal holds a brace and none is left open**, from
the first opening brace on: the segments are the same, or what is wrong is. -/
theorem segments_modes_agree {input : Text}
    (h : ∀ inner, input.trim = '[' :: inner ++ [']'] →
      BracesOutside .outside (inner.dropWhile (· ≠ '\x7b'))) :
    segments .quoteAware input = segments .quoteBlind input := by
  cases hinner : inner? input.trim with
  | none => simp only [segments, hinner]
  | some inner =>
    simp only [segments, hinner]
    exact scan_modes (h inner (inner?_eq_some_iff.1 hinner))

/-- Literals in an object and around it, an apostrophe in front of all objects that closes nowhere,
and a closing brace too many. -/
theorem segments_modes_agree_quoted :
    segments .quoteBlind "[it's \x7ba: '\\'[', b: \x7b\x7d\x7d, \"x\"]".toList
        = .ok ["\x7ba: '\\'[', b: \x7b\x7d\x7d".toList]
    ∧ segments .quoteBlind "[\x7b'a'\x7d \x7d \"\" \x7b]".toList = .error (.unbalanced 7) := by
  have hagree : ∀ inner, Text.trim ('[' :: inner ++ [']']) = '[' :: inner ++ [']'] →
      BracesOutside .outside (inner.dropWhile (· ≠ '\x7b')) →
      segments .quoteAware ('[' :: inner ++ [']']) = segments .quoteBlind ('[' :: inner ++ [']']) := by
    intro inner htrim h
    refine segments_modes_agree fun inner' h' => ?_
    obtain rfl : inner = inner' := by simpa using htrim.symm.trans h'
    exact h
  constructor
  · refine (hagree "it's \x7ba: '\\'[', b: \x7b\x7d\x7d, \"x\"".toList rfl (by decide)).symm.trans ?_
    rfl
  · refine (hagree "\x7b'a'\x7d \x7d \"\" \x7b".toList rfl (by decide)).symm.trans ?_
    rfl

end DocSearch.Segment
