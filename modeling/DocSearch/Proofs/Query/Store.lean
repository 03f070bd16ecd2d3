import DocSearch.Proofs.Json.RoundTrip
import DocSearch.Query.Store

/-!
# Query — what filters and records keep

The text of an expression's filter determines the expression, and so does the text of its record
(`print_inj`).

* A filter is a JSON value within the reader's limits, whatever the fields and texts in it, so its
  text is read as the filter again (`Expression.regular_filter`, `Json.Regular.eq_of_print`).  With
  this the strings and numbers of a text are settled.
* What is left is a question about trees.  The value of a predicate stands in its filter bare or under
  an operator's key, and is no object itself, so it is seen which (`Predicate.filter_inj`).  The
  object of a single predicate may have the key `$and` if its field is called so, but a list under it
  only several predicates have (`Predicate.filter_ne_and`).
* A record has each part under a key of its own (`Predicate.record_inj`).
-/

namespace DocSearch

theorem Json.single_inj {key key' : Text} {value value' : Json} :
    single key value = single key' value' ↔ key = key' ∧ value = value' := by
  simp [single]

namespace Query

open Json (Regular Style)

/-! ### Operators and values -/

namespace Operator

/-- An operator is known by its key, or by having none. -/
theorem storeKey?_injective : Function.Injective storeKey? := by
  intro a b h
  cases a <;> cases b <;> simp_all [storeKey?]

theorem ofName?_name (operator : Operator) : ofName? operator.name = some operator := by
  cases operator <;> rfl

theorem name_injective : Function.Injective name := by
  intro a b h
  have := congrArg ofName? h
  simpa [ofName?_name] using this

end Operator

namespace Value

theorem toJson_injective : Function.Injective toJson := by
  intro v w h
  cases v with
  | number n => cases w with
    | number m => simpa [toJson] using h
    | text t => cases h
  | text s => cases w with
    | number m => cases h
    | text t => simpa [toJson] using h

/-- The value of a predicate is no container. -/
theorem toJson_ne (value : Value) :
    (∀ members, value.toJson ≠ .object members) ∧ ∀ items, value.toJson ≠ .array items := by
  cases value <;> exact ⟨nofun, nofun⟩

theorem regular_toJson (value : Value) (depth : Nat) : Regular depth value.toJson := by
  cases value with
  | number n => exact .number n
  | text s => exact .text s

end Value

/-! ### Predicates -/

namespace Predicate

variable {p q : Predicate}

/-- What a predicate's filter has under the field. -/
def condition (p : Predicate) : Json :=
  match p.operator.storeKey? with
  | none => p.value.toJson
  | some key => .single key p.value.toJson

theorem filter_eq (p : Predicate) : p.filter = .single p.field p.condition := rfl

theorem condition_ne_array (p : Predicate) (items : List Json) : p.condition ≠ .array items := by
  unfold condition
  split
  · exact p.value.toJson_ne.2 items
  · exact nofun

/-- A condition shows the operator and the value. -/
theorem eq_of_condition (h : p.condition = q.condition) :
    p.operator = q.operator ∧ p.value = q.value := by
  unfold condition at h
  split at h
  · next hp =>
    split at h
    · next hq =>
      exact ⟨Operator.storeKey?_injective (hp.trans hq.symm), Value.toJson_injective h⟩
    · exact absurd h (p.value.toJson_ne.1 _)
  · next key hp =>
    split at h
    · exact absurd h.symm (q.value.toJson_ne.1 _)
    · next key' hq =>
      obtain ⟨rfl, hvalue⟩ := Json.single_inj.1 h
      exact ⟨Operator.storeKey?_injective (hp.trans hq.symm), Value.toJson_injective hvalue⟩

theorem filter_inj : p.filter = q.filter ↔ p = q := by
  refine ⟨fun h => ?_, congrArg filter⟩
  rw [filter_eq, filter_eq] at h
  obtain ⟨hfield, hcondition⟩ := Json.single_inj.1 h
  obtain ⟨hoperator, hvalue⟩ := eq_of_condition hcondition
  obtain ⟨_, _, _⟩ := p
  obtain ⟨_, _, _⟩ := q
  cases hfield
  cases hoperator
  cases hvalue
  rfl

/-- No single predicate has a list in its filter, not even on a field `$and`. -/
theorem filter_ne_and (p : Predicate) (clauses : List Json) :
    p.filter ≠ .single ['$', 'a', 'n', 'd'] (.array clauses) := by
  intro h
  rw [filter_eq] at h
  exact p.condition_ne_array clauses (Json.single_inj.1 h).2

theorem record_inj : p.record = q.record ↔ p = q := by
  refine ⟨fun h => ?_, congrArg record⟩
  obtain ⟨field, operator, value⟩ := p
  obtain ⟨field', operator', value'⟩ := q
  simp only [record, Json.object.injEq, List.cons.injEq, Prod.mk.injEq, Json.text.injEq, true_and,
    and_true] at h
  obtain ⟨rfl, hname, hvalue⟩ := h
  rw [Operator.name_injective hname, Value.toJson_injective hvalue]

/-! ### Depth and order of keys -/

theorem regular_single {depth : Nat} {value : Json} (key : Text) (h : Regular depth value) :
    Regular (depth + 1) (.single key value) :=
  .object (List.pairwise_singleton ..) (by simpa using h)

theorem regular_filter (p : Predicate) (depth : Nat) : Regular (depth + 2) p.filter := by
  rw [filter_eq]
  refine regular_single p.field ?_
  unfold condition
  split
  · exact p.value.regular_toJson _
  · exact regular_single _ (p.value.regular_toJson _)

theorem regular_record (p : Predicate) (depth : Nat) : Regular (depth + 1) p.record := by
  refine .object ?_ ?_
  · have hkeys : ["field".toList, "operator".toList, "value".toList].Pairwise
        fun a b => compare a b = .lt := by decide
    exact Json.sorted_iff_keys.2 hkeys
  · simp [Regular.text, p.value.regular_toJson]

end Predicate

/-! ### Expressions -/

namespace Expression

variable {e f : Expression}

/-- Several predicates are a list under `$and`. -/
theorem filter_cases (e : Expression) :
    (∃ p, e.predicates = [p] ∧ e.filter = p.filter)
    ∨ e.filter = .single ['$', 'a', 'n', 'd'] (.array (e.predicates.map Predicate.filter)) := by
  unfold filter
  split
  · next p hp => exact .inl ⟨p, hp, rfl⟩
  · exact .inr rfl

theorem eq_of_predicates (h : e.predicates = f.predicates) : e = f := by
  cases e
  cases h
  rfl

theorem filter_injective : Function.Injective filter := by
  intro e f h
  refine eq_of_predicates ?_
  rcases e.filter_cases with ⟨p, hp, he⟩ | he <;> rcases f.filter_cases with ⟨q, hq, hf⟩ | hf <;>
    rw [he, hf] at h
  · rw [hp, hq, Predicate.filter_inj.1 h]
  · exact absurd h (p.filter_ne_and _)
  · exact absurd h.symm (q.filter_ne_and _)
  · have hclauses := Json.array.inj (Json.single_inj.1 h).2
    exact (List.map_inj_right fun _ _ => Predicate.filter_inj.1).1 hclauses

theorem record_injective : Function.Injective record := by
  intro e f h
  exact eq_of_predicates
    ((List.map_inj_right fun _ _ => Predicate.record_inj.1).1 (Json.array.inj h))

/-- A filter nests four deep at most. -/
theorem regular_filter (e : Expression) : Regular Json.maxDepth e.filter := by
  rcases e.filter_cases with ⟨p, -, he⟩ | he <;> rw [he]
  · exact p.regular_filter 125
  · have hclauses : Regular (125 + 1) (.array (e.predicates.map Predicate.filter)) := by
      refine .array ?_
      rw [List.forall_mem_map]
      exact fun p _ => p.regular_filter 123
    exact Predicate.regular_single _ hclauses

theorem regular_record (e : Expression) : Regular Json.maxDepth e.record := by
  show Regular (126 + 1) e.record
  refine .array ?_
  rw [List.forall_mem_map]
  exact fun p _ => p.regular_record 125

theorem print_filter_inj {style : Style} (hstyle : style.Spaced) :
    e.filter.print style = f.filter.print style ↔ e = f :=
  ⟨fun h => filter_injective (e.regular_filter.eq_of_print f.regular_filter hstyle h),
    fun h => h ▸ rfl⟩

theorem print_record_inj {style : Style} (hstyle : style.Spaced) :
    e.record.print style = f.record.print style ↔ e = f :=
  ⟨fun h => record_injective (e.regular_record.eq_of_print f.regular_record hstyle h),
    fun h => h ▸ rfl⟩

end Expression

/-- **The text of a filter or a record determines the expression**, in either style, to the last bit
of its numbers: the predicates, their order, and the field, operator and value of each. -/
theorem print_inj (e f : Expression) :
    (e.filter.print .compact = f.filter.print .compact ↔ e = f)
    ∧ (e.filter.print .pretty = f.filter.print .pretty ↔ e = f)
    ∧ (e.record.print .compact = f.record.print .compact ↔ e = f)
    ∧ (e.record.print .pretty = f.record.print .pretty ↔ e = f) :=
  ⟨Expression.print_filter_inj Style.spaced_compact, Expression.print_filter_inj Style.spaced_pretty,
    Expression.print_record_inj Style.spaced_compact, Expression.print_record_inj Style.spaced_pretty⟩

end Query

end DocSearch
