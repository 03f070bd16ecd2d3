import DocSearch.Proofs.Query.Classification
import DocSearch.Proofs.Query.Comparison
import DocSearch.Proofs.Query.OwnField

/-!
# Query — a number in a document against a numeral in a query

Up to two roundings stand between the numbers that are written and the comparison that is made.  A
numeral is read as an integer or as the nearest double, and then both sides are compared by their
nearest doubles.  Which of these took place does not matter: what is compared are the doubles nearest
to the two exact values (`Value.isNearest_of_classify`, `matches_ofToken_iff`).

Going over to the nearest double keeps the order (`Binary64.IsNearest.mono`), so values may become
equal but never change sides: a strict comparison that holds is one of the exact values, and an exact
one that is not strict holds.  Whole numbers up to 2⁵³ are doubles themselves, and stay apart
(`matches_numeral_never_inverted`).
-/

namespace DocSearch.Query

open Binary64 (IsNearest)
open Numeral (Spells valueOf)

variable {raw whole : Text} {negative : Bool} {fraction : Option Text} {n a : Number} {d : Json}
  {f : Text}

/-- The number that a numeral is read as has the double nearest to the numeral's value. -/
theorem Value.isNearest_of_classify (hspells : Spells raw negative whole fraction)
    (hnumber : classify raw false = .number n) :
    IsNearest (valueOf negative whole fraction) n.toBinary64 := by
  obtain ⟨-, m, hm, hn⟩ := classify_eq_number_iff.1 hnumber
  rw [Numeral.ofPlain?_of_spells hspells] at hm
  cases hm
  rcases (numberOf?_eq_some_iff rfl).1 hn with ⟨-, i, rfl, hvalue⟩ | ⟨-, x, rfl, hx, -⟩
  · rw [← hvalue]
    exact Number.isNearest (.int i)
  · exact hx

/-- A bare numeral makes a token with any field that can be written, and any operator. -/
theorem Token.lawful_of_spells (hspells : Spells raw negative whole fraction) (hne : f ≠ [])
    (hfield : ∀ c ∈ f, isBlank c = false ∧ c ≠ '"' ∧ c ∉ [':', '!', '>', '<', '='])
    (operator : Operator) : Token.Lawful ⟨f, operator, raw, false⟩ := by
  have hnumeral : Value.isNumeral raw = true := by
    rw [Value.isNumeral, Numeral.ofPlain?_of_spells hspells]
    rfl
  obtain ⟨hraw, hchar⟩ := char_of_isNumeral hnumeral
  refine ⟨⟨hne, hfield, by simp, fun _ => hraw, fun _ c hc => ?_⟩, fun _ _ hhead => ?_⟩
  · exact ⟨(hchar c hc).1, (hchar c hc).2.1⟩
  · exact (hchar _ (List.mem_of_mem_head? hhead)).2.2 rfl

theorem matches_ofToken_iff (hnumber : Value.classify raw false = .number n)
    (hfield : d.field? f = some (.number a)) (operator : Operator) :
    (Predicate.ofToken ⟨f, operator, raw, false⟩).matches d = true
      ↔ operator.Relates a.toBinary64.toRat n.toBinary64.toRat := by
  rw [Predicate.matches, Predicate.ofToken, Operator.holds_eq_admits, hnumber, hfield]
  exact Operator.admits_order

/-- **Rounding may merge numbers but never inverts them.**  A document's number that is found to be
greater or less than a numeral is so exactly, and one that is at least, at most or equal to it is found
to be; whole numbers up to 2⁵³ are compared exactly by all operators.  The queries of a field that can
be written, an operator and the numeral compare just so. -/
theorem matches_numeral_never_inverted (hspells : Spells raw negative whole fraction)
    (hnumber : Value.classify raw false = .number n) (hfield : d.field? f = some (.number a)) :
    let q := valueOf negative whole fraction
    let holds := fun operator => (Predicate.ofToken ⟨f, operator, raw, false⟩).matches d
    (holds .greaterThan = true → a.toRat > q)
    ∧ (holds .lessThan = true → a.toRat < q)
    ∧ (a.toRat ≥ q → holds .greaterOrEqual = true)
    ∧ (a.toRat ≤ q → holds .lessOrEqual = true)
    ∧ (a.toRat = q → holds .equals = true)
    ∧ (∀ i j : ℤ, a.toRat = i → q = j → |i| ≤ 2 ^ 53 → |j| ≤ 2 ^ 53 →
        ∀ operator, holds operator = true ↔ operator.Relates a.toRat q)
    ∧ (f ≠ [] → (∀ c ∈ f, isBlank c = false ∧ c ≠ '"' ∧ c ∉ [':', '!', '>', '<', '=']) →
        ∀ operator, ∃ e, compile (f ++ operator.symbol ++ raw) = .ok e
          ∧ e.matches d = holds operator) := by
  intro q holds
  have hmatches : ∀ operator, holds operator = true
      ↔ operator.Relates a.toBinary64.toRat n.toBinary64.toRat :=
    matches_ofToken_iff hnumber hfield
  have ha : IsNearest a.toRat a.toBinary64 := a.isNearest
  have hq : IsNearest q n.toBinary64 := Value.isNearest_of_classify hspells hnumber
  refine ⟨fun h => ?greater, fun h => ?less, fun h => ?atLeast, fun h => ?atMost, fun h => ?equal,
    fun i j hi hj hile hjle operator => ?whole, fun hne hchar operator => ?queries⟩
  case greater => exact hq.lt_of_toRat_lt ha ((hmatches .greaterThan).1 h)
  case less => exact ha.lt_of_toRat_lt hq ((hmatches .lessThan).1 h)
  case atLeast => exact (hmatches .greaterOrEqual).2 (hq.mono ha h)
  case atMost => exact (hmatches .lessOrEqual).2 (ha.mono hq h)
  case equal => exact (hmatches .equals).2 (le_antisymm (ha.mono hq h.le) (hq.mono ha h.ge))
  case whole =>
    obtain ⟨x, hx⟩ := Binary64.exists_toRat_eq_intCast hile
    obtain ⟨y, hy⟩ := Binary64.exists_toRat_eq_intCast hjle
    rw [hmatches, ha.toRat_eq_self (hx.trans hi.symm), hq.toRat_eq_self (hy.trans hj.symm)]
  case queries =>
    obtain ⟨e, he, hsame⟩ := (Token.lawful_of_spells hspells hne hchar operator).exists_compile_text
    exact ⟨e, he, hsame d⟩

/-- A numeral just above 2⁵³ is merged with it: the document is found by a number that it does not have,
but not as one beyond it. -/
theorem matches_numeral_never_inverted_merged :
    let a : Number := .int ⟨0x20000000000000, by decide⟩
    let d : Json := .single "id".toList (.number a)
    a.toRat < valueOf false "9007199254740993".toList (some [])
    ∧ (∃ e, compile "id<=9007199254740993.".toList = .ok e ∧ e.matches d = true)
    ∧ (∃ e, compile "id:9007199254740993.".toList = .ok e ∧ e.matches d = true)
    ∧ ∃ e, compile "id>9007199254740993.".toList = .ok e ∧ e.matches d = false := by
  intro a d
  have hspells : Spells "9007199254740993.".toList false "9007199254740993".toList (some []) :=
    ⟨[], _, .none,
      .point (Numeral.digits_iff.2 ⟨by decide, List.all_eq_true.1 (by decide)⟩) (.inl rfl), rfl⟩
  have hnumber : Value.classify "9007199254740993.".toList false
      = .number (.float ⟨false, 0x4340000000000000, by decide⟩) := by decide +kernel
  have hfield : d.field? "id".toList = some (.number a) := rfl
  have hvalue : valueOf false "9007199254740993".toList (some []) = 9007199254740993 := by
    have hdigits : Nat.ofDigitChars 10 "9007199254740993".toList 0 = 9007199254740993 := by decide
    rw [valueOf, hdigits]
    norm_num [signOf]
  have hlt : a.toRat < valueOf false "9007199254740993".toList (some []) := by
    rw [hvalue]
    norm_num [Number.toRat, a]
  obtain ⟨hgreater, -, -, hatMost, -, -, hqueries⟩ :=
    matches_numeral_never_inverted hspells hnumber hfield
  have hqueries := hqueries (by decide) (by simp [isBlank])
  refine ⟨hlt, ?_, ?_, ?_⟩
  · obtain ⟨e, he, hmatches⟩ := hqueries .lessOrEqual
    exact ⟨e, he, hmatches.trans (hatMost hlt.le)⟩
  · obtain ⟨e, he, hmatches⟩ := hqueries .equals
    exact ⟨e, he, hmatches.trans (by decide +kernel)⟩
  · obtain ⟨e, he, hmatches⟩ := hqueries .greaterThan
    exact ⟨e, he, hmatches.trans (Bool.eq_false_iff.2 fun h => (hgreater h).not_gt hlt)⟩

end DocSearch.Query
