import DocSearch.Proofs.Query.Conjunction
import Mathlib.Algebra.Group.Nat.Even

/-!
# Query — which fault is reported

A query is split as a whole before any of its groups is taken apart.  So a quote that is open at its
end is reported for the group that it is open in, and otherwise the first group that is no token is
reported, with its fault (`tokenize_eq_error_iff`).

Whether a quote is open is whether the number of quotes is odd (`quotedAfter_eq_false_iff`).  So what
is reported of a query in which quotes are closed stays so with more text behind it exactly as long
as quotes are closed there too (`tokenize_reports_first`).
-/

namespace DocSearch.Query

variable {a w query group : Text} {error : Error}

/-! ### Quotes left open -/

/-- A quote is open behind an odd number of quotes. -/
theorem quotedAfter_eq_false_iff {quoted : Bool} {s : Text} :
    quotedAfter quoted s = false ↔ (quoted = false ↔ Even (s.count '"')) := by
  induction s generalizing quoted with
  | nil => simp [quotedAfter]
  | cons c s ih =>
    rw [quotedAfter, ih]
    by_cases hc : c = '"'
    · subst hc
      rw [if_pos rfl, List.count_cons_self, Nat.even_add_one]
      cases quoted <;> simp
    · rw [if_neg hc, List.count_cons_of_ne hc]

theorem even_count_iff {s : Text} : Even (s.count '"') ↔ quotedAfter false s = false := by
  simp [quotedAfter_eq_false_iff]

/-- A group that leaves a quote open is reported. -/
theorem LeftOpen.splitGroups_eq (h : LeftOpen group query) :
    splitGroups query = .error (.malformed group .unterminatedQuote) := by
  obtain ⟨lead, rfl, hlast, hlead, hunbroken, hgroup⟩ := h
  have hne : group ≠ [] := by
    rintro rfl
    cases hgroup
  have hsplit : splitGroups group = .error (.malformed group .unterminatedQuote) := by
    have hread := splitFrom_unbroken hunbroken [] []
    simp only [List.append_nil, hgroup] at hread
    simp [splitGroups, hread, splitFrom, hne]
  rcases List.eq_nil_or_concat lead with rfl | ⟨front, b, rfl⟩
  · exact hsplit
  -- what stands in front is closed, and the blank character at its end keeps the group apart
  rw [List.concat_eq_append] at *
  have hb : isBlank b = true := hlast b (by simp)
  have hfront : quotedAfter false front = false := by
    rwa [quotedAfter_append, quotedAfter_cons_blank hb] at hlead
  rcases splitGroups_cases front with ⟨-, groups, hgroups, -⟩ | ⟨_, hopen, -⟩
  · have hw : Blank [b] := by simpa [Blank] using hb
    rw [splitGroups_append hgroups hw (by simp), hsplit]
    rfl
  · simp [hopen.quotedAfter_eq] at hfront

theorem splitGroups_eq_error_iff :
    splitGroups query = .error error
      ↔ ∃ group, LeftOpen group query ∧ error = .malformed group .unterminatedQuote := by
  constructor
  · intro h
    rcases splitGroups_cases query with ⟨-, _, hok, -⟩ | ⟨group, hopen, herror⟩
    · cases h.symm.trans hok
    · exact ⟨group, hopen, Except.error.inj (h.symm.trans herror)⟩
  · rintro ⟨group, hopen, rfl⟩
    exact hopen.splitGroups_eq

/-! ### Groups that are no tokens -/

/-- **What is reported of a query**: the group in which a quote is left open, and if there is none the
first group that is no token. -/
theorem tokenize_eq_error_iff :
    tokenize query = .error error
      ↔ (∃ group, LeftOpen group query ∧ error = .malformed group .unterminatedQuote)
        ∨ ∃ front group back fault, splitGroups query = .ok (front ++ group :: back)
          ∧ (∀ g ∈ front, ∃ t, Token.ofGroup g = .ok t)
          ∧ Token.ofGroup group = .error fault ∧ error = .malformed group fault := by
  rw [tokenize, bind_eq_error, splitGroups_eq_error_iff]
  refine or_congr_right ?_
  constructor
  · rintro ⟨groups, hgroups, h⟩
    obtain ⟨front, group, back, rfl, hfront, hgroup⟩ := mapM_eq_error_iff.1 h
    obtain ⟨fault, hfault, rfl⟩ := mapError_eq_error.1 hgroup
    exact ⟨front, group, back, fault, hgroups, by simpa using hfront, hfault, rfl⟩
  · rintro ⟨front, group, back, fault, hgroups, hfront, hfault, rfl⟩
    exact ⟨_, hgroups, mapM_eq_error_iff.2 ⟨front, group, back, rfl, by simpa using hfront,
      mapError_eq_error.2 ⟨fault, hfault, rfl⟩⟩⟩

/-- What is reported of a text without an open quote is a group of it. -/
theorem closed_of_tokenize_eq_error {fault : Fault} (hclosed : quotedAfter false a = false)
    (h : tokenize a = .error (.malformed group fault)) : quotedAfter false group = false := by
  rcases tokenize_eq_error_iff.1 h with ⟨_, hopen, -⟩ | ⟨front, group', back, _, hgroups, -, -, he⟩
  · simp [hopen.quotedAfter_eq] at hclosed
  · cases he
    exact ((splitGroups_eq_ok_iff.1 hgroups).2 group (by simp)).closed

/-- With more text behind it in which quotes are closed, the same is reported. -/
theorem tokenize_append_closed (hclosed : quotedAfter false a = false)
    (ha : tokenize a = .error error) (hw : Blank w) (hne : w ≠ []) {b : Text}
    (hb : quotedAfter false b = false) : tokenize (a ++ w ++ b) = .error error := by
  rcases tokenize_eq_error_iff.1 ha with ⟨_, hopen, -⟩ | ⟨front, group, back, fault, hgroups, h⟩
  · simp [hopen.quotedAfter_eq] at hclosed
  rcases splitGroups_cases b with ⟨-, groups', hgroups', -⟩ | ⟨_, hopen, -⟩
  · refine tokenize_eq_error_iff.2 (.inr ⟨front, group, back ++ groups', fault, ?_, h⟩)
    rw [splitGroups_append hgroups hw hne, hgroups']
    simp [Except.map]
  · simp [hopen.quotedAfter_eq] at hb

/-- With more text behind it that leaves a quote open, that is reported. -/
theorem tokenize_append_open (hclosed : quotedAfter false a = false) (hw : Blank w) (hne : w ≠ [])
    {b : Text} (hopen : LeftOpen group b) :
    tokenize (a ++ w ++ b) = .error (.malformed group .unterminatedQuote) := by
  rcases splitGroups_cases a with ⟨-, groups, hgroups, -⟩ | ⟨_, hopen', -⟩
  · rw [tokenize, splitGroups_append hgroups hw hne, hopen.splitGroups_eq]
    rfl
  · simp [hopen'.quotedAfter_eq] at hclosed

/-- **What is reported of a text stays reported with closed quotes behind it.**  If quotes are closed
in a text that is refused, then behind it and blank text another one changes nothing exactly when
quotes are closed there too.  Otherwise the group in which that text leaves a quote open is
reported. -/
theorem tokenize_reports_first (ha : Even (a.count '"')) (herror : tokenize a = .error error)
    (hw : Blank w) (hne : w ≠ []) :
    (∀ b, tokenize (a ++ w ++ b) = .error error ↔ Even (b.count '"'))
    ∧ ∀ b, ¬ Even (b.count '"') → ∃ group, LeftOpen group b
      ∧ tokenize (a ++ w ++ b) = .error (.malformed group .unterminatedQuote) := by
  have hclosed := even_count_iff.1 ha
  have hopens : ∀ b, ¬ Even (b.count '"') → ∃ group, LeftOpen group b
      ∧ tokenize (a ++ w ++ b) = .error (.malformed group .unterminatedQuote) := by
    intro b hb
    rcases splitGroups_cases b with ⟨hb', -⟩ | ⟨group, hopen, -⟩
    · exact absurd (even_count_iff.2 hb') hb
    · exact ⟨group, hopen, tokenize_append_open hclosed hw hne hopen⟩
  refine ⟨fun b => ⟨fun h => ?_, fun hb => ?_⟩, hopens⟩
  · -- the group of the first error closes its quotes, and that of the second does not
    by_contra hb
    obtain ⟨group, hopen, h'⟩ := hopens b hb
    obtain rfl : error = .malformed group .unterminatedQuote := Except.error.inj (h.symm.trans h')
    have hgroup := closed_of_tokenize_eq_error hclosed herror
    obtain ⟨-, -, -, -, -, hgroup'⟩ := hopen
    simp [hgroup'] at hgroup
  · exact tokenize_append_closed hclosed herror hw hne (even_count_iff.1 hb)

/-- A group without an operator, behind one that is a token, with quotes behind it that are closed or
not. -/
theorem tokenize_reports_first_oops :
    tokenize "a:1 oops\t b: c:\"x y\"".toList = .error (.malformed "oops".toList .noOperator)
    ∧ ∃ group, LeftOpen group "c:1 b:\"y z".toList
      ∧ tokenize "a:1 oops\t c:1 b:\"y z".toList = .error (.malformed group .unterminatedQuote) := by
  obtain ⟨hfirst, hopens⟩ := tokenize_reports_first (a := "a:1 oops".toList) (w := "\t ".toList)
    (by decide) rfl (by decide) (by decide)
  exact ⟨(hfirst "b: c:\"x y\"".toList).2 (by decide), hopens "c:1 b:\"y z".toList (by decide)⟩

/-- A quote left open behind the first faulty group is reported in its place. -/
theorem not_tokenize_reports_first :
    ¬ ∀ (a w b : Text) (error : Error), Even (a.count '"') → tokenize a = .error error → Blank w →
      w ≠ [] → tokenize (a ++ w ++ b) = .error error := by
  intro h
  have hfirst : tokenize "oops b:\"z".toList = .error (.malformed "oops".toList .noOperator) :=
    h "oops".toList " ".toList "b:\"z".toList _ (by decide) rfl (by decide) (by decide)
  have hopen : tokenize "oops b:\"z".toList
      = .error (.malformed "b:\"z".toList .unterminatedQuote) := rfl
  rw [hopen] at hfirst
  cases hfirst

end DocSearch.Query
