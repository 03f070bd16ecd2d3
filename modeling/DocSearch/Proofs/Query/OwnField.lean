import DocSearch.Proofs.Query.Comparison
import DocSearch.Proofs.Query.RoundTrip

/-!
# Query — finding a document by one of its fields

The name of a document's field, an operator and the text of the field's value are a query, and the
document is compared with its own value by it (`matches_own_field`).

* The query has one predicate, and the value in it is read from that text.  It need not be the value
  that was written: an integer that does not fit 64 bits with a sign is read as a double.  But it is a
  number with the same nearest double, and numbers are compared as doubles
  (`Value.order?_classify_raw`).
* So what the document has is equal to what is asked for, and it depends on the operator alone whether
  the document matches (`Predicate.exists_compile_plain`).
-/

namespace DocSearch.Query

/-! ### The value that is read -/

namespace Value

/-- The plain text of an integer from 2⁶³ on is a numeral without point that is read as a double. -/
theorem classify_plain_of_le {i : Integer64} (h : 0x8000000000000000 ≤ i.value) :
    classify (Number.int i).plain false = .number (.float (Number.int i).toBinary64) := by
  obtain ⟨m, hm, hwhole, hvalue⟩ := i.ofPlain?_text
  have hunsigned : signed64? m.wholeValue = none := by
    rw [hvalue]
    exact if_neg (not_lt.2 h)
  have hnearest := Numeral.nearest?_of_isWhole hwhole hvalue (by omega)
  simp [classify, Number.plain, hm, numberOf?, hwhole, hunsigned, hnearest]

/-- The plain text of a number is read as a number with the same nearest double. -/
theorem exists_classify_plain (n : Number) :
    ∃ m, classify n.plain false = .number m ∧ m.toBinary64 = n.toBinary64 := by
  by_cases hsigned : (Value.number n).Signed
  · exact ⟨n, classify_plain hsigned, rfl⟩
  simp only [Signed, number.injEq, not_forall, not_lt] at hsigned
  obtain ⟨i, rfl, hlarge⟩ := hsigned
  exact ⟨_, classify_plain_of_le hlarge, rfl⟩

/-- A value is equal to what is read of its text. -/
theorem order?_classify_raw (value : Value) :
    order? value.toJson (classify value.raw value.quoted) = some .eq := by
  cases value with
  | number n =>
    obtain ⟨m, hm, hnearest⟩ := exists_classify_plain n
    show order? (.number n) (classify n.plain false) = some .eq
    have hself : compare n.toBinary64.key n.toBinary64.key = .eq := Std.ReflCmp.compare_self
    rw [hm, order?, Number.order, hnearest, Binary64.order, hself]
  | text s =>
    have hread : classify (text s).raw (text s).quoted = .text s := classify_raw (by simp [Signed])
    rw [hread]
    exact congrArg some Std.ReflCmp.compare_self

end Value

/-! ### The query that is made of a field -/

/-- A lawful token alone is a query, and a document matches it as it matches the token's predicate. -/
theorem Token.Lawful.exists_compile_text {t : Token} (h : t.Lawful) :
    ∃ e, compile t.text = .ok e ∧ ∀ d, e.matches d = (Predicate.ofToken t).matches d := by
  have htokens : tokenize t.text = .ok [t] :=
    tokenize_eq_ok_iff.2 ⟨List.forall_mem_singleton.2 h, Spaced.single t.text⟩
  refine ⟨⟨[Predicate.ofToken t], List.cons_ne_nil _ _⟩,
    compile_eq_ok_iff.2 ⟨[t], htokens, rfl⟩, fun d => ?_⟩
  rw [Expression.matches, List.all_cons, List.all_nil, Bool.and_true]

/-- A predicate that names a field's own value compiles, and the operator decides whether it holds. -/
theorem Predicate.exists_compile_plain {p : Predicate} {d : Json} (hwhole : p.token.Whole)
    (hrun : ¬ p.RunsOn) (hvalue : d.field? p.field = some p.value.toJson) :
    ∃ e, compile p.plain = .ok e ∧ e.matches d = p.operator.admits (some .eq) := by
  obtain ⟨e, he, hmatches⟩ := (p.lawful_token hwhole hrun).exists_compile_text
  refine ⟨e, p.text_token ▸ he, ?_⟩
  have hread : (Predicate.ofToken p.token).matches d
      = p.operator.admits ((d.field? p.field).bind
          (Value.order? · (.classify p.value.raw p.value.quoted))) := Operator.holds_eq_admits ..
  rw [hmatches, hread, hvalue, Option.bind_some, Value.order?_classify_raw]

/-- **Every document is found by its own field.**  The field must have a name that can be written in a
query, and its value be a number or a text without quotes.  Then the document matches the queries
that the value is equal to this one, at least this one, or at most this one, and not the query that it
is another. -/
theorem matches_own_field {d : Json} {f : Text} {value : Value} (hne : f ≠ [])
    (hfield : ∀ c ∈ f, isBlank c = false ∧ c ≠ '"' ∧ c ∉ [':', '!', '>', '<', '='])
    (htext : ∀ s, value = .text s → '"' ∉ s) (hvalue : d.field? f = some value.toJson) :
    (∃ e, compile (f ++ [':'] ++ value.plain) = .ok e ∧ e.matches d = true)
    ∧ (∃ e, compile (f ++ ['>', '='] ++ value.plain) = .ok e ∧ e.matches d = true)
    ∧ (∃ e, compile (f ++ ['<', '='] ++ value.plain) = .ok e ∧ e.matches d = true)
    ∧ ∃ e, compile (f ++ ['!', ':'] ++ value.plain) = .ok e ∧ e.matches d = false := by
  have hmatch : ∀ operator : Operator, operator ≠ .greaterThan → operator ≠ .lessThan →
      ∃ e, compile (f ++ operator.symbol ++ value.plain) = .ok e
        ∧ e.matches d = operator.admits (some .eq) := by
    intro operator hgreater hless
    have hwhole := Predicate.whole_token (p := ⟨f, operator, value⟩) hne hfield htext
    exact Predicate.exists_compile_plain hwhole (by simp [Predicate.RunsOn, hgreater, hless]) hvalue
  exact ⟨hmatch .equals (by decide) (by decide), hmatch .greaterOrEqual (by decide) (by decide),
    hmatch .lessOrEqual (by decide) (by decide), hmatch .notEquals (by decide) (by decide)⟩

/-- The largest integer is found, though the query has a double in its place, and so is a text that
begins like the end of an operator. -/
theorem matches_own_field_largest :
    let d : Json := .object [("id".toList, .number (.int ⟨0xFFFFFFFFFFFFFFFF, by decide⟩)),
      ("key".toList, .text "=5".toList)]
    (∃ e, compile "id>=18446744073709551615".toList = .ok e ∧ e.matches d = true)
    ∧ ∃ e, compile "key!:=5".toList = .ok e ∧ e.matches d = false := by
  intro d
  have hid : d.field? "id".toList
      = some (Value.number (.int ⟨0xFFFFFFFFFFFFFFFF, by decide⟩)).toJson := rfl
  have hkey : d.field? "key".toList = some (Value.text "=5".toList).toJson := rfl
  exact ⟨(matches_own_field (by decide) (by simp [isBlank]) (by simp) hid).2.1,
    (matches_own_field (by decide) (by simp [isBlank]) (by simp) hkey).2.2.2⟩

end DocSearch.Query
