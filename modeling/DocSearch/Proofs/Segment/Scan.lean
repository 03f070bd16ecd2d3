import DocSearch.Proofs.Results
import DocSearch.Proofs.Segment.Grammar

/-!
# Segments — the scanner accepts the grammar

The scanner keeps a depth, what it has read of the outermost object, and where it is with respect
to literals.  It accepts exactly the texts that read as items, with their outermost objects
(`scan_eq_ok_iff`).

* A text that reads is scanned item by item: within an object it leaves the depth as it is
  (`Parses.scan_within`), and outside all objects it gives its objects, whatever follows it
  (`Parses.scan_append`).
* A scan without error leaves nothing open (`closes_of_scan`): what the depth and the literal
  still demand of the text in front is `Closes`, and at depth zero outside literals that is a
  reading of it.

So the segments of an array are the outermost objects of the one reading of its text
(`segments_grammar`).
-/

namespace DocSearch.Segment

/-! ### The scanner, one character at a time -/

/-- What has been read of the outermost object, one text further on: nothing outside objects. -/
def kept (depth : Nat) (started s : Text) : Text :=
  if depth = 0 then [] else s.reverse ++ started

@[simp] theorem kept_kept (depth : Nat) (started s t : Text) :
    kept depth (kept depth started s) t = kept depth started (s ++ t) := by
  unfold kept
  split <;> simp

section
variable {mode : Mode} {literal : Literal} {depth offset : Nat} {started s : Text} {c : Char}

theorem isPlain_brace (hc : c = '\x7b' ∨ c = '\x7d') : Literal.outside.isPlain mode c = true := by
  rcases hc with rfl | rfl <;> cases mode <;> rfl

theorem scan_open :
    scan mode .outside depth started offset ('\x7b' :: s)
      = scan mode .outside (depth + 1) ('\x7b' :: started) (offset + '\x7b'.utf8Size) s := by
  rw [scan.eq_def]
  exact if_pos ⟨isPlain_brace (.inl rfl), rfl⟩

theorem scan_close :
    scan mode .outside depth started offset ('\x7d' :: s)
      = match depth with
        | 0 => .error (.unbalanced offset)
        | 1 =>
          (scan mode .outside 0 [] (offset + '\x7d'.utf8Size) s).map
            (('\x7d' :: started).reverse :: ·)
        | depth + 2 =>
          scan mode .outside (depth + 1) ('\x7d' :: started) (offset + '\x7d'.utf8Size) s := by
  rw [scan.eq_def]
  exact (if_neg (by simp)).trans (if_pos ⟨isPlain_brace (.inr rfl), rfl⟩)

/-- A character that is no brace, or a brace within a literal. -/
theorem scan_step (h : literal = .outside → c ≠ '\x7b' ∧ c ≠ '\x7d') :
    scan mode literal depth started offset (c :: s)
      = scan mode (literal.step mode c) depth (kept depth started [c]) (offset + c.utf8Size) s := by
  have hplain : ∀ brace, brace = '\x7b' ∨ brace = '\x7d' →
      ¬(literal.isPlain mode c = true ∧ c = brace) := by
    rintro brace hbrace ⟨hplain, rfl⟩
    have houtside : literal = .outside := by
      simp only [Literal.isPlain, Bool.and_eq_true, decide_eq_true_eq] at hplain
      exact hplain.1
    rcases hbrace with rfl | rfl
    · exact (h houtside).1 rfl
    · exact (h houtside).2 rfl
  rw [scan.eq_def]
  exact (if_neg (hplain _ (.inl rfl))).trans (if_neg (hplain _ (.inr rfl)))

/-- What a character is to the scanner: an opening brace, a closing one, or neither. -/
theorem brace_cases (literal : Literal) (c : Char) :
    (literal = .outside ∧ c = '\x7b') ∨ (literal = .outside ∧ c = '\x7d')
      ∨ (literal = .outside → c ≠ '\x7b' ∧ c ≠ '\x7d') := by
  by_cases hl : literal = .outside
  · by_cases hopen : c = '\x7b'
    · exact .inl ⟨hl, hopen⟩
    by_cases hclose : c = '\x7d'
    · exact .inr (.inl ⟨hl, hclose⟩)
    · exact .inr (.inr fun _ => ⟨hopen, hclose⟩)
  · exact .inr (.inr fun h => absurd h hl)

theorem scan_ordinary (hc : IsOrdinary mode c) :
    scan mode .outside depth started offset (c :: s)
      = scan mode .outside depth (kept depth started [c]) (offset + c.utf8Size) s := by
  have hstep : Literal.outside.step mode c = .outside := by
    cases mode with
    | quoteAware => simp [Literal.step, hc.2.2 rfl]
    | quoteBlind => rfl
  rw [scan_step fun _ => ⟨hc.1, hc.2.1⟩, hstep]

/-- The body of a literal, and the quote that closes it. -/
theorem scan_literalBody {quote : Char} {body : Text} (hquote : quote ≠ '\\')
    (h : Literal.Body quote body) :
    scan .quoteAware (.inside quote) depth started offset (body ++ quote :: s)
      = scan .quoteAware .outside depth (kept depth started (body ++ [quote]))
          (offset + Text.byteSize (body ++ [quote])) s := by
  induction h generalizing started offset with
  | nil =>
    rw [List.nil_append, scan_step (by simp)]
    simp [Literal.step, hquote, Text.byteSize]
  | escape c h ih =>
    rw [List.cons_append, scan_step (by simp), List.cons_append, scan_step (by simp [Literal.step])]
    simp only [Literal.step, if_true, ih, kept_kept]
    simp [Text.byteSize, Nat.add_assoc]
  | other hc hq h ih =>
    rw [List.cons_append, scan_step (by simp)]
    simp only [Literal.step, hc, hq, if_false, ih, kept_kept]
    simp [Text.byteSize, Nat.add_assoc]

/-- A literal, with both its quotes. -/
theorem scan_literal {quote : Char} {body : Text} (hq : isQuote quote = true)
    (hb : Literal.Body quote body) :
    scan .quoteAware .outside depth started offset (quote :: (body ++ quote :: s))
      = scan .quoteAware .outside depth (kept depth started (quote :: body ++ [quote]))
          (offset + Text.byteSize (quote :: body ++ [quote])) s := by
  obtain ⟨hopen, hclose, hslash⟩ := isQuote_ne hq
  rw [scan_step fun _ => ⟨hopen, hclose⟩]
  simp only [Literal.step, hq, if_true]
  rw [scan_literalBody hslash hb, kept_kept]
  simp [Text.byteSize, Nat.add_assoc]

end

/-! ### What reads is scanned -/

/-- Items within an object leave the depth as it is. -/
theorem Parses.scan_within {mode : Mode} {items : List Item} {s : Text} (h : Parses mode items s)
    (depth : Nat) (started : Text) (offset : Nat) (rest : Text) :
    scan mode .outside (depth + 1) started offset (s ++ rest)
      = scan mode .outside (depth + 1) (s.reverse ++ started) (offset + Text.byteSize s) rest := by
  induction h generalizing depth started offset rest with
  | nil => rfl
  | plain hc _ ih =>
    rw [List.cons_append, scan_ordinary hc, ih]
    simp [kept, Text.byteSize, Nat.add_assoc]
  | literal hm hq hb _ ih =>
    subst hm
    rw [List.append_assoc, List.cons_append, List.cons_append, scan_literal hq hb, ih]
    simp [kept, Text.byteSize, Nat.add_assoc]
  | object _ _ ihInner ih =>
    rw [List.append_assoc, List.cons_append, scan_open, List.cons_append, ihInner, scan_close]
    show scan mode .outside (depth + 1) _ _ _ = _
    rw [ih]
    simp [Text.byteSize, Nat.add_assoc]

/-- Items outside all objects give their objects, whatever follows them. -/
theorem Parses.scan_append {mode : Mode} {items : List Item} {s : Text} (h : Parses mode items s)
    (offset : Nat) (rest : Text) :
    scan mode .outside 0 [] offset (s ++ rest)
      = (scan mode .outside 0 [] (offset + Text.byteSize s) rest).map (outermost items ++ ·) := by
  induction h generalizing offset with
  | nil =>
    show scan mode .outside 0 [] offset rest = (scan mode .outside 0 [] offset rest).map id
    rw [Except.map_id]
    rfl
  | plain hc _ ih =>
    rw [List.cons_append, scan_ordinary hc]
    simp [kept, ih, outermost, Text.byteSize, Nat.add_assoc]
  | literal hm hq hb _ ih =>
    subst hm
    rw [List.append_assoc, List.cons_append, List.cons_append, scan_literal hq hb]
    simp [kept, ih, outermost, Text.byteSize, Nat.add_assoc]
  | @object inner items t s hi _ _ ih =>
    rw [List.append_assoc, List.cons_append, scan_open, List.cons_append, hi.scan_within,
      scan_close]
    show (scan mode .outside 0 [] _ _).map _ = _
    rw [ih]
    have hoffset : offset + '\x7b'.utf8Size + Text.byteSize t + '\x7d'.utf8Size + Text.byteSize s
        = offset + Text.byteSize ('\x7b' :: t ++ '\x7d' :: s) := by
      simp [Text.byteSize, Nat.add_assoc]
    rw [hoffset]
    cases scan mode .outside 0 [] (offset + Text.byteSize ('\x7b' :: t ++ '\x7d' :: s)) rest <;>
      simp [Except.map, outermost, Item.text, hi.textOf_eq]

/-- A text that reads is scanned without error. -/
theorem Parses.scan_eq {mode : Mode} {items : List Item} {s : Text} (h : Parses mode items s)
    (offset : Nat) : scan mode .outside 0 [] offset s = .ok (outermost items) := by
  simpa [scan, Except.map] using h.scan_append offset []

/-! ### What is scanned reads -/

/-- What a depth and a place with respect to literals still demand of a text: the end of the
literal, and for every open object its items and its closing brace. -/
inductive Closes (mode : Mode) : Literal → Nat → Text → Prop where
  | done {items : List Item} {s : Text} : Parses mode items s → Closes mode .outside 0 s
  | close {items : List Item} {depth : Nat} {s t : Text} :
      Parses mode items s → Closes mode .outside depth t →
      Closes mode .outside (depth + 1) (s ++ '\x7d' :: t)
  | unquote {quote : Char} {body : Text} {depth : Nat} {t : Text} :
      Literal.Body quote body → Closes mode .outside depth t →
      Closes mode (.inside quote) depth (body ++ quote :: t)
  | unescape {quote c : Char} {depth : Nat} {t : Text} :
      Closes mode (.inside quote) depth t → Closes mode (.escaped quote) depth (c :: t)

namespace Closes

variable {mode : Mode} {depth : Nat} {s t : Text} {c quote : Char}

/-- Items in front demand nothing. -/
theorem prepend {items : List Item} (h : Parses mode items s) (ht : Closes mode .outside depth t) :
    Closes mode .outside depth (s ++ t) := by
  cases ht with
  | done h' => exact .done (h.append h')
  | close h' ht => simpa using Closes.close (h.append h') ht

theorem cons_ordinary (hc : IsOrdinary mode c) (h : Closes mode .outside depth s) :
    Closes mode .outside depth (c :: s) :=
  prepend (.plain hc .nil) h

theorem cons_open (h : Closes mode .outside (depth + 1) s) :
    Closes mode .outside depth ('\x7b' :: s) := by
  cases h with
  | close hi ht => simpa using prepend (.object hi .nil) ht

theorem cons_close (h : Closes mode .outside depth s) :
    Closes mode .outside (depth + 1) ('\x7d' :: s) :=
  .close .nil h

theorem cons_quote (hm : mode = .quoteAware) (hq : isQuote quote = true)
    (h : Closes mode (.inside quote) depth s) : Closes mode .outside depth (quote :: s) := by
  cases h with
  | unquote hb ht => simpa using prepend (.literal hm hq hb .nil) ht

theorem cons_inside (hc : c ≠ '\\') (hq : c ≠ quote) (h : Closes mode (.inside quote) depth s) :
    Closes mode (.inside quote) depth (c :: s) := by
  cases h with
  | unquote hb ht => exact .unquote (.other hc hq hb) ht

theorem cons_backslash (h : Closes mode (.escaped quote) depth s) :
    Closes mode (.inside quote) depth ('\\' :: s) := by
  cases h with
  | unescape h =>
    cases h with
    | unquote hb ht => exact .unquote (.escape _ hb) ht

end Closes

/-- A scan without error leaves nothing open. -/
theorem closes_of_scan {mode : Mode} {literal : Literal} {depth : Nat} {started : Text}
    {offset : Nat} {s : Text} {segs : List Text}
    (hl : mode = .quoteBlind → literal = .outside)
    (h : scan mode literal depth started offset s = .ok segs) : Closes mode literal depth s := by
  -- each character adds to what the rest of the text closes, so the induction is on the text
  induction s generalizing literal depth started offset segs with
  | nil =>
    rw [scan] at h
    split at h
    · cases h
    · split at h
      · cases h
      · obtain rfl : literal = .outside := by simpa using ‹¬literal ≠ _›
        obtain rfl : depth = 0 := by simpa using ‹¬depth ≠ 0›
        exact .done .nil
  | cons c s ih =>
    have hblind : mode = .quoteBlind → literal.step mode c = .outside := by
      rintro rfl
      rw [hl rfl]
      rfl
    cases literal with
    | outside =>
      by_cases hopen : c = '\x7b'
      · subst hopen
        rw [scan_open] at h
        exact .cons_open (ih hl h)
      by_cases hclose : c = '\x7d'
      · subst hclose
        rw [scan_close] at h
        match depth with
        | 0 => cases h
        | 1 =>
          obtain ⟨_, hs, -⟩ := map_eq_ok.1 h
          exact .cons_close (ih hl hs)
        | depth + 2 => exact .cons_close (ih hl h)
      rw [scan_step fun _ => ⟨hopen, hclose⟩] at h
      have := ih hblind h
      by_cases hq : mode = .quoteAware ∧ isQuote c = true
      · obtain ⟨rfl, hq⟩ := hq
        simp only [Literal.step, hq, if_true] at this
        exact .cons_quote rfl hq this
      · have hc : mode = .quoteAware → isQuote c = false := by simpa using hq
        have hstep : Literal.outside.step mode c = .outside := by
          cases mode <;> simp_all [Literal.step]
        rw [hstep] at this
        exact .cons_ordinary ⟨hopen, hclose, hc⟩ this
    | inside quote =>
      have hm : mode = .quoteAware := by cases mode <;> simp_all
      subst hm
      rw [scan_step (by simp)] at h
      have := ih hblind h
      simp only [Literal.step] at this
      split at this
      · next hc => exact hc ▸ .cons_backslash this
      · next hc =>
        split at this
        · next hq => exact hq ▸ .unquote .nil this
        · next hq => exact .cons_inside hc hq this
    | escaped quote =>
      have hm : mode = .quoteAware := by cases mode <;> simp_all
      subst hm
      rw [scan_step (by simp)] at h
      exact .unescape (ih hblind h)

/-- **The scanner accepts the texts that read, with their outermost objects.** -/
theorem scan_eq_ok_iff {mode : Mode} {offset : Nat} {s : Text} {segs : List Text} :
    scan mode .outside 0 [] offset s = .ok segs
      ↔ ∃ items, Parses mode items s ∧ segs = outermost items := by
  constructor
  · intro h
    cases closes_of_scan (fun _ => rfl) h with
    | done hp =>
      rw [hp.scan_eq] at h
      cases h
      exact ⟨_, hp, rfl⟩
  · rintro ⟨items, hp, rfl⟩
    exact hp.scan_eq offset

/-! ### Arrays -/

theorem inner?_eq_some_iff {s inner : Text} :
    inner? s = some inner ↔ s = '[' :: inner ++ [']'] := by
  cases s with
  | nil => simp [inner?]
  | cons c s =>
    by_cases hc : c = '['
    · simp [hc, inner?, Text.before?_eq_some_iff]
    · simp [hc, inner?]

theorem segments_of_not_bracketed {mode : Mode} {input : Text}
    (h : ∀ inner, input.trim ≠ '[' :: inner ++ [']']) :
    segments mode input = .error .notBracketed := by
  have hnone : inner? input.trim = none :=
    Option.eq_none_iff_forall_ne_some.2 fun inner hi => h inner (inner?_eq_some_iff.1 hi)
  simp [segments, hnone]

/-- Reading starts at the first opening brace. -/
theorem segments_of_bracketed (mode : Mode) {input lead body : Text}
    (h : input.trim = '[' :: (lead ++ body) ++ [']']) (hlead : '\x7b' ∉ lead)
    (hbody : body = [] ∨ body.head? = some '\x7b') :
    segments mode input = scan mode .outside 0 [] (1 + Text.byteSize lead) body := by
  have hall : ∀ c ∈ lead, decide (c ≠ '\x7b') = true := by
    intro c hc
    simpa using ne_of_mem_of_not_mem hc hlead
  have hstop : body.takeWhile (· ≠ '\x7b') = [] ∧ body.dropWhile (· ≠ '\x7b') = body := by
    cases body with
    | nil => exact ⟨rfl, rfl⟩
    | cons c s =>
      obtain rfl : c = '\x7b' := by simpa using hbody
      exact ⟨rfl, rfl⟩
  rw [segments, inner?_eq_some_iff.2 h]
  simp only [List.takeWhile_append_of_pos hall, List.dropWhile_append_of_pos hall, hstop,
    List.append_nil]

/-- All errors are of one kind, and say so. -/
theorem Error.message_eq (e : Error) : ∃ reason, e.message = "invalid array syntax: " ++ reason :=
  ⟨_, rfl⟩

/-- **The segments of an array are the outermost objects of its text.**  Without square brackets
there are none, and without an opening brace there are no segments; otherwise the text from the
first opening brace on has to read as items, which it does in one way at most. -/
theorem segments_grammar (mode : Mode) (input : Text) :
    ((∀ inner, input.trim ≠ '[' :: inner ++ [']']) →
      ∃ e, segments mode input = .error e
        ∧ ∃ reason, e.message = "invalid array syntax: " ++ reason)
    ∧ ∀ inner, input.trim = '[' :: inner ++ [']'] →
      ('\x7b' ∉ inner → segments mode input = .ok [])
      ∧ ∀ lead body, inner = lead ++ body → '\x7b' ∉ lead → body.head? = some '\x7b' →
        (∀ segs, segments mode input = .ok segs
          ↔ ∃ items, Parses mode items body ∧ segs = outermost items)
        ∧ (∀ items items', Parses mode items body → Parses mode items' body → items = items')
        ∧ ((¬∃ items, Parses mode items body) →
          ∃ e, segments mode input = .error e
            ∧ ∃ reason, e.message = "invalid array syntax: " ++ reason) := by
  refine ⟨fun h => ⟨.notBracketed, segments_of_not_bracketed h, Error.message_eq .notBracketed⟩, ?_⟩
  intro inner h
  refine ⟨fun hnone => ?_, ?_⟩
  · have hnil : input.trim = '[' :: (inner ++ []) ++ [']'] := by simpa using h
    rw [segments_of_bracketed mode hnil hnone (.inl rfl)]
    rfl
  rintro lead body rfl hlead hbody
  have hscan := segments_of_bracketed mode h hlead (.inr hbody)
  refine ⟨fun segs => by rw [hscan, scan_eq_ok_iff], fun _ _ h₁ h₂ => h₁.unique h₂, fun hno => ?_⟩
  cases hs : segments mode input with
  | error e => exact ⟨e, rfl, e.message_eq⟩
  | ok segs => exact absurd ((scan_eq_ok_iff.1 (hscan ▸ hs)).imp fun _ => And.left) hno

/-- A brace in a literal, and an object within an object. -/
theorem segments_grammar_nested :
    segments .quoteAware "[1, \x7ba: '\x7d'\x7b\x7d\x7d]".toList
      = .ok ["\x7ba: '\x7d'\x7b\x7d\x7d".toList] := by
  have h := (segments_grammar .quoteAware "[1, \x7ba: '\x7d'\x7b\x7d\x7d]".toList).2
    "1, \x7ba: '\x7d'\x7b\x7d\x7d".toList rfl
  refine ((h.2 "1, ".toList "\x7ba: '\x7d'\x7b\x7d\x7d".toList rfl (by decide) rfl).1 _).2 ?_
  exact ⟨[.object [.plain 'a', .plain ':', .plain ' ', .literal '\'' ['\x7d'], .object []]],
    .object (.plain (by decide) (.plain (by decide) (.plain (by decide)
      (.literal rfl rfl (.other (by decide) (by decide) .nil) (.object .nil .nil))))) .nil, rfl⟩

end DocSearch.Segment
