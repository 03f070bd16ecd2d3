import DocSearch.Proofs.Segment.Scan
import Mathlib.Data.List.Forall2

/-!
# Segments — what stands inside literals

Two texts are the same outside literals when they have one length and differ only at places inside
literals, and there only in characters that are neither quotes nor backslashes (`SameOutside`).
Such texts have their literals at the same places, so the relation is symmetric
(`SameOutside.symm`), and if one reads as items then so does the other, with outermost objects that
are the same outside literals (`Parses.sameOutside`).

Hence the texts from the first opening brace on are split alike (`scan_sameOutside`).  The first
opening brace is looked for without regard to literals, and reading starts there outside of them.
So the contents of literals do not matter to the segments of an array exactly as far as none of
them holds that first brace (`segments_sameOutside`); where one does, they do
(`segments_sameOutside_plain`).
-/

namespace DocSearch.Segment

/-! ### Texts that are the same outside literals -/

/-- A character that within a literal is no more than a part of it. -/
def IsContent (c : Char) : Prop :=
  isQuote c = false ∧ c ≠ '\\'

instance (c : Char) : Decidable (IsContent c) :=
  inferInstanceAs (Decidable (_ ∧ _))

/-- Two texts have one length, and differ only inside the literals that a reader finds in the first
of them, in characters that are neither quotes nor backslashes. -/
def SameOutside (literal : Literal) (s t : Text) : Prop :=
  s.length = t.length ∧ ∀ (i : Nat) (c d : Char), s[i]? = some c → t[i]? = some d → c ≠ d →
    literal.run .quoteAware (s.take i) ≠ .outside ∧ IsContent c ∧ IsContent d

/-- Whether a place in a literal is one that a quote has led to. -/
def Literal.Quoted : Literal → Prop
  | outside => True
  | inside quote | escaped quote => isQuote quote = true

theorem Literal.quoted_outside : Literal.outside.Quoted := trivial

variable {literal : Literal} {s s' t t' u : Text} {c d quote : Char}

theorem Literal.Quoted.step (h : literal.Quoted) (c : Char) :
    (literal.step .quoteAware c).Quoted := by
  cases literal with
  | outside =>
    simp only [Literal.step]
    split
    · next hc => exact hc
    · trivial
  | inside quote =>
    simp only [Literal.step]
    split
    · exact h
    · split
      · trivial
      · exact h
  | escaped quote => exact h

/-- All contents do the same to a literal. -/
theorem Literal.Quoted.step_congr (h : literal.Quoted) (hin : literal ≠ .outside)
    (hc : IsContent c) (hd : IsContent d) :
    literal.step .quoteAware c = literal.step .quoteAware d := by
  cases literal with
  | outside => exact absurd rfl hin
  | inside quote =>
    have hne : ∀ {x : Char}, IsContent x → x ≠ quote := by
      rintro x hx rfl
      exact absurd h (by simp [Literal.Quoted, hx.1])
    simp only [Literal.step, if_neg hc.2, if_neg hd.2, if_neg (hne hc), if_neg (hne hd)]
  | escaped quote => rfl

namespace SameOutside

theorem refl (literal : Literal) (s : Text) : SameOutside literal s s := by
  refine ⟨rfl, fun i c d hc hd hne => ?_⟩
  rw [hc] at hd
  exact absurd (Option.some.inj hd) hne

theorem nil_iff : SameOutside literal [] u ↔ u = [] := by
  constructor
  · intro h
    exact List.eq_nil_of_length_eq_zero h.1.symm
  · rintro rfl
    exact refl literal []

/-- One character at a time. -/
theorem cons_cons_iff :
    SameOutside literal (c :: s) (d :: t)
      ↔ (c ≠ d → literal ≠ .outside ∧ IsContent c ∧ IsContent d)
        ∧ SameOutside (literal.step .quoteAware c) s t := by
  constructor
  · rintro ⟨hlen, h⟩
    refine ⟨h 0 c d rfl rfl, by simpa using hlen, fun i => ?_⟩
    simpa [Literal.run] using h (i + 1)
  · rintro ⟨hhead, hlen, h⟩
    refine ⟨by simp [hlen], fun i c' d' => ?_⟩
    cases i with
    | zero =>
      simp only [List.getElem?_cons_zero, Option.some.injEq, List.take_zero]
      rintro rfl rfl
      exact hhead
    | succ i => simpa [Literal.run] using h i c' d'

/-- Two contents at one place in a literal. -/
theorem single (hin : literal ≠ .outside) (hc : IsContent c) (hd : IsContent d) :
    SameOutside literal [c] [d] :=
  cons_cons_iff.2 ⟨fun _ => ⟨hin, hc, hd⟩, refl _ []⟩

theorem exists_cons (h : SameOutside literal (c :: s) u) :
    ∃ d t, u = d :: t ∧ (c ≠ d → literal ≠ .outside ∧ IsContent c ∧ IsContent d)
      ∧ SameOutside (literal.step .quoteAware c) s t := by
  cases u with
  | nil => cases h.1
  | cons d t => exact ⟨d, t, rfl, cons_cons_iff.1 h⟩

/-- Outside literals, and where no content stands, the characters are the same. -/
theorem exists_cons_same (h : SameOutside literal (c :: s) u)
    (hc : literal = .outside ∨ ¬ IsContent c) :
    ∃ t, u = c :: t ∧ SameOutside (literal.step .quoteAware c) s t := by
  obtain ⟨d, t, rfl, hd, ht⟩ := h.exists_cons
  have hcd : c = d := by
    by_contra hne
    obtain ⟨hin, hcontent, -⟩ := hd hne
    exact hc.elim hin fun hno => hno hcontent
  subst hcd
  exact ⟨t, rfl, ht⟩

/-- The two texts have their literals at the same places. -/
theorem symm (hl : literal.Quoted) (h : SameOutside literal s t) : SameOutside literal t s := by
  induction s generalizing literal t with
  | nil =>
    rw [nil_iff.1 h]
    exact refl literal []
  | cons c s ih =>
    obtain ⟨d, t, rfl, hd, ht⟩ := h.exists_cons
    have hstep : literal.step .quoteAware c = literal.step .quoteAware d := by
      by_cases hcd : c = d
      · rw [hcd]
      · obtain ⟨hin, hc, hd⟩ := hd hcd
        exact hl.step_congr hin hc hd
    refine cons_cons_iff.2 ⟨fun hne => ?_, ?_⟩
    · obtain ⟨hin, hc, hd⟩ := hd hne.symm
      exact ⟨hin, hd, hc⟩
    · rw [← hstep]
      exact ih (hl.step c) ht

/-- What is the same outside literals as two texts in a row falls into two such parts. -/
theorem exists_append (h : SameOutside literal (s ++ s') u) :
    ∃ t t', u = t ++ t' ∧ SameOutside literal s t
      ∧ SameOutside (literal.run .quoteAware s) s' t' := by
  induction s generalizing literal u with
  | nil => exact ⟨[], u, rfl, refl literal [], h⟩
  | cons c s ih =>
    obtain ⟨d, u, rfl, hd, hu⟩ := exists_cons h
    obtain ⟨t, t', rfl, ht, ht'⟩ := ih hu
    exact ⟨d :: t, t', rfl, cons_cons_iff.2 ⟨hd, ht⟩, ht'⟩

theorem append (h : SameOutside literal s t)
    (h' : SameOutside (literal.run .quoteAware s) s' t') :
    SameOutside literal (s ++ s') (t ++ t') := by
  induction s generalizing literal t with
  | nil =>
    rw [nil_iff.1 h]
    exact h'
  | cons c s ih =>
    obtain ⟨d, t, rfl, hd, ht⟩ := h.exists_cons
    exact cons_cons_iff.2 ⟨hd, ih ht h'⟩

end SameOutside

/-! ### Readings of such texts -/

theorem Literal.run_cons (literal : Literal) (c : Char) (s : Text) :
    literal.run .quoteAware (c :: s) = (literal.step .quoteAware c).run .quoteAware s :=
  rfl

/-- Behind the body of a literal a reader is still inside it. -/
theorem Literal.Body.run_eq {body : Text} (h : Literal.Body quote body) :
    (Literal.inside quote).run .quoteAware body = .inside quote := by
  induction h with
  | nil => rfl
  | escape c _ ih => simpa [Literal.run, Literal.step] using ih
  | other hc hq _ ih => simpa [Literal.run, Literal.step, hc, hq] using ih

theorem Literal.Body.sameOutside {body : Text} (h : Literal.Body quote body)
    (hquote : isQuote quote = true) (hu : SameOutside (.inside quote) body u) :
    Literal.Body quote u := by
  induction h generalizing u with
  | nil =>
    rw [SameOutside.nil_iff.1 hu]
    exact .nil
  | escape c _ ih =>
    obtain ⟨u, rfl, hrest⟩ := hu.exists_cons_same (.inr fun hc => hc.2 rfl)
    obtain ⟨d, t, rfl, -, ht⟩ := hrest.exists_cons
    exact .escape d (ih ht)
  | @other c _ hc hq _ ih =>
    obtain ⟨d, t, rfl, hd, ht⟩ := hu.exists_cons
    rw [Literal.step, if_neg hc, if_neg hq] at ht
    have hne : d ≠ '\\' ∧ d ≠ quote := by
      by_cases hcd : c = d
      · exact hcd ▸ ⟨hc, hq⟩
      · obtain ⟨-, -, hcontent⟩ := hd hcd
        refine ⟨hcontent.2, ?_⟩
        rintro rfl
        rw [hcontent.1] at hquote
        cases hquote
    exact .other hne.1 hne.2 (ih ht)

theorem IsOrdinary.step_eq (h : IsOrdinary .quoteAware c) :
    Literal.outside.step .quoteAware c = .outside := by
  simp [Literal.step, h.2.2 rfl]

/-- A text that reads as items leaves no literal open. -/
theorem Parses.run_eq {items : List Item} (h : Parses .quoteAware items s) :
    Literal.outside.run .quoteAware s = .outside := by
  induction h with
  | nil => rfl
  | plain hc _ ih => rw [Literal.run_cons, hc.step_eq, ih]
  | @literal quote _ _ _ _ hq hb _ ih =>
    have hopen : Literal.outside.step .quoteAware quote = .inside quote := if_pos hq
    have hclose : (Literal.inside quote).step .quoteAware quote = .outside := by
      simp [Literal.step, (isQuote_ne hq).2.2]
    rw [List.cons_append, Literal.run_cons, hopen, Literal.run_append, hb.run_eq, Literal.run_cons,
      hclose, ih]
  | object _ _ ihInner ih =>
    have hopen : Literal.outside.step .quoteAware '\x7b' = .outside := rfl
    have hclose : Literal.outside.step .quoteAware '\x7d' = .outside := rfl
    rw [List.cons_append, Literal.run_cons, hopen, Literal.run_append, ihInner, Literal.run_cons,
      hclose, ih]

/-- **Texts that are the same outside literals read alike.**  If one reads as items then so does the
other, and the outermost objects are the same outside literals. -/
theorem Parses.sameOutside {items : List Item} (h : Parses .quoteAware items s)
    (hu : SameOutside .outside s u) :
    ∃ items', Parses .quoteAware items' u
      ∧ List.Forall₂ (SameOutside .outside) (outermost items) (outermost items') := by
  induction h generalizing u with
  | nil =>
    rw [SameOutside.nil_iff.1 hu]
    exact ⟨[], .nil, .nil⟩
  | plain hc _ ih =>
    obtain ⟨t, rfl, ht⟩ := hu.exists_cons_same (.inl rfl)
    rw [hc.step_eq] at ht
    obtain ⟨items', hitems, houter⟩ := ih ht
    exact ⟨_, .plain hc hitems, houter⟩
  | @literal quote body _ s _ hq hb _ ih =>
    obtain ⟨t, rfl, hopened⟩ := hu.exists_cons_same (.inl rfl)
    rw [show Literal.outside.step .quoteAware quote = .inside quote from if_pos hq] at hopened
    obtain ⟨body', t, rfl, hbody, hclosing⟩ := SameOutside.exists_append hopened
    rw [hb.run_eq] at hclosing
    -- the closing quote is the same, for a quote is no content
    obtain ⟨t, rfl, ht⟩ := hclosing.exists_cons_same (.inr fun hc => by simp [hc.1] at hq)
    rw [show (Literal.inside quote).step .quoteAware quote = .outside by
      simp [Literal.step, (isQuote_ne hq).2.2]] at ht
    obtain ⟨items', hitems, houter⟩ := ih ht
    exact ⟨_, .literal rfl hq (hb.sameOutside hq hbody) hitems, houter⟩
  | @object inner items t s hinner _ ihInner ih =>
    have hclosed : Literal.run .quoteAware .outside t = .outside := hinner.run_eq
    obtain ⟨u, rfl, hopened⟩ := hu.exists_cons_same (.inl rfl)
    obtain ⟨t', u, rfl, ht, hclosing⟩ := SameOutside.exists_append hopened
    have hafter : SameOutside .outside ('\x7d' :: s) u := hclosed ▸ hclosing
    obtain ⟨s', rfl, hs⟩ := hafter.exists_cons_same (.inl rfl)
    obtain ⟨inner', hinner', -⟩ := ihInner ht
    obtain ⟨items', hitems, houter⟩ := ih hs
    refine ⟨_, .object hinner' hitems, .cons ?_ houter⟩
    have hobject : SameOutside .outside (t ++ ['\x7d']) (t' ++ ['\x7d']) := by
      refine SameOutside.append ht ?_
      rw [hclosed]
      exact .refl _ _
    have hbraces : SameOutside .outside ('\x7b' :: (t ++ ['\x7d'])) ('\x7b' :: (t' ++ ['\x7d'])) :=
      SameOutside.cons_cons_iff.2 ⟨fun hne => absurd rfl hne, hobject⟩
    simpa [Item.text, hinner.textOf_eq, hinner'.textOf_eq] using hbraces

/-! ### Segments of such texts -/

/-- What two texts are split to is alike: both fail, or the objects correspond. -/
def Alike (x y : Except Error (List Text)) : Prop :=
  (∃ e e', x = .error e ∧ y = .error e')
  ∨ ∃ segs segs', x = .ok segs ∧ y = .ok segs' ∧ segs.length = segs'.length
    ∧ List.Forall₂ (SameOutside .outside) segs segs'

theorem scan_sameOutside (h : SameOutside .outside s t) (offset offset' : Nat) :
    Alike (scan .quoteAware .outside 0 [] offset s) (scan .quoteAware .outside 0 [] offset' t) := by
  have hback : ∀ {s t : Text} {offset : Nat} {segs : List Text}, SameOutside .outside s t →
      scan .quoteAware .outside 0 [] offset s = .ok segs → ∀ offset', ∃ segs',
        scan .quoteAware .outside 0 [] offset' t = .ok segs'
          ∧ List.Forall₂ (SameOutside .outside) segs segs' := by
    intro s t offset segs hst hs offset'
    obtain ⟨items, hitems, rfl⟩ := scan_eq_ok_iff.1 hs
    obtain ⟨items', hitems', houter⟩ := hitems.sameOutside hst
    exact ⟨_, hitems'.scan_eq offset', houter⟩
  -- the other direction is the same by symmetry, so one text cannot fail alone
  cases hs : scan .quoteAware .outside 0 [] offset s with
  | ok segs =>
    obtain ⟨segs', ht, houter⟩ := hback h hs offset'
    exact .inr ⟨segs, segs', rfl, ht, houter.length_eq, houter⟩
  | error e =>
    cases ht : scan .quoteAware .outside 0 [] offset' t with
    | error e' => exact .inl ⟨e, e', rfl, rfl⟩
    | ok segs' =>
      obtain ⟨segs, hs', -⟩ := hback (h.symm Literal.quoted_outside) ht offset
      rw [hs] at hs'
      cases hs'

/-- The first opening brace of a text, if there is one, stands outside literals. -/
def PlainFirst (s : Text) : Prop :=
  '\x7b' ∈ s → Literal.outside.run .quoteAware (s.takeWhile (· ≠ '\x7b')) = .outside

instance (s : Text) : Decidable (PlainFirst s) :=
  inferInstanceAs (Decidable (_ → _))

theorem PlainFirst.run_eq {lead rest : Text} (h : PlainFirst (lead ++ '\x7b' :: rest))
    (hlead : '\x7b' ∉ lead) : Literal.outside.run .quoteAware lead = .outside := by
  have hall : ∀ c ∈ lead, decide (c ≠ '\x7b') = true := by
    intro c hc
    simpa using ne_of_mem_of_not_mem hc hlead
  have hplain := h (by simp)
  rwa [List.takeWhile_append_of_pos hall, List.takeWhile_cons_of_neg (by simp),
    List.append_nil] at hplain

/-- A first brace outside literals is in both texts. -/
theorem PlainFirst.not_mem {lead lead' rest : Text} (h : PlainFirst (lead' ++ rest))
    (hsame : SameOutside .outside lead lead') (hlead : '\x7b' ∉ lead) : '\x7b' ∉ lead' := by
  intro hmem
  obtain ⟨front, back, rfl, hfront⟩ := List.eq_append_cons_of_mem hmem
  rw [List.append_assoc, List.cons_append] at h
  have hplain := h.run_eq hfront
  obtain ⟨_, _, rfl, -, hback⟩ := (hsame.symm Literal.quoted_outside).exists_append
  rw [hplain] at hback
  obtain ⟨_, rfl, -⟩ := hback.exists_cons_same (.inl rfl)
  simp at hlead

/-- A text up to its first opening brace, and from there on. -/
theorem exists_lead (s : Text) :
    ∃ lead body, s = lead ++ body ∧ '\x7b' ∉ lead ∧ (body = [] ∨ body.head? = some '\x7b') := by
  by_cases hmem : '\x7b' ∈ s
  · obtain ⟨lead, rest, rfl, hlead⟩ := List.eq_append_cons_of_mem hmem
    exact ⟨lead, '\x7b' :: rest, rfl, hlead, .inr rfl⟩
  · exact ⟨s, [], by simp, hmem, .inl rfl⟩

/-- **What literals hold does not matter to the segments**, unless it is the first opening brace.
Two arrays whose texts are the same outside literals, with the first opening brace outside literals
in both, are both refused, or have equally many segments, which are the same outside literals. -/
theorem segments_sameOutside {input input' inner inner' : Text}
    (hinput : input.trim = '[' :: inner ++ [']']) (hinput' : input'.trim = '[' :: inner' ++ [']'])
    (hsame : SameOutside .outside inner inner') (hfirst : PlainFirst inner)
    (hfirst' : PlainFirst inner') :
    Alike (segments .quoteAware input) (segments .quoteAware input') := by
  -- the second text is cut where the first has its first brace; that is its own first brace too
  obtain ⟨lead, body, rfl, hlead, hbody⟩ := exists_lead inner
  obtain ⟨lead', body', rfl, hleads, hbodies⟩ := hsame.exists_append
  have hlead' : '\x7b' ∉ lead' := hfirst'.not_mem hleads hlead
  rw [segments_of_bracketed .quoteAware hinput hlead hbody]
  rcases hbody with rfl | hbody
  · rw [SameOutside.nil_iff.1 hbodies] at hinput'
    rw [segments_of_bracketed .quoteAware hinput' hlead' (.inl rfl)]
    exact scan_sameOutside (.refl _ _) _ _
  · obtain ⟨rest, rfl⟩ := List.head?_eq_some_iff.1 hbody
    rw [hfirst.run_eq hlead] at hbodies
    obtain ⟨rest', rfl, -⟩ := hbodies.exists_cons_same (.inl rfl)
    rw [segments_of_bracketed .quoteAware hinput' hlead' (.inr rfl)]
    exact scan_sameOutside hbodies _ _

/-- Braces in literals behind the first object, and another character in a literal in front of it;
but with an opening brace there, reading starts in that literal and finds its end to be the
beginning of one. -/
theorem segments_sameOutside_plain :
    Alike (segments .quoteAware "[\"x\", \x7ba: '\x7b'\x7d]".toList)
        (segments .quoteAware "[\"y\", \x7ba: '\x7d'\x7d]".toList)
      ∧ SameOutside .outside "\"x\", \x7b\"a\":1\x7d".toList "\"\x7b\", \x7b\"a\":1\x7d".toList
      ∧ segments .quoteAware "[\"x\", \x7b\"a\":1\x7d]".toList = .ok ["\x7b\"a\":1\x7d".toList]
      ∧ segments .quoteAware "[\"\x7b\", \x7b\"a\":1\x7d]".toList = .error .openLiteral := by
  refine ⟨?_, ?_, rfl, rfl⟩
  · refine @segments_sameOutside _ _ "\"x\", \x7ba: '\x7b'\x7d".toList
      "\"y\", \x7ba: '\x7d'\x7d".toList rfl rfl ?_ (by decide) (by decide)
    have hfront : SameOutside .outside "\"x".toList "\"y".toList :=
      (SameOutside.refl _ ['"']).append (.single (by decide) (by decide) (by decide))
    have hback : SameOutside (.inside '"') "\", \x7ba: '\x7b'\x7d".toList
        "\", \x7ba: '\x7d'\x7d".toList :=
      (SameOutside.refl _ "\", \x7ba: '".toList).append
        ((SameOutside.single (by decide) (by decide) (by decide)).append (.refl _ "'\x7d".toList))
    exact hfront.append hback
  · exact (SameOutside.refl _ ['"']).append
      ((SameOutside.single (by decide) (by decide) (by decide)).append (.refl _ "\", \x7b\"a\":1\x7d".toList))

end DocSearch.Segment
