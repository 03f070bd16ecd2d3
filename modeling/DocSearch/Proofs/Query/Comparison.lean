import DocSearch.Proofs.Number.Nearest
import DocSearch.Query.Match

/-!
# Query — what the six operators compare

* Equality of values and their order agree: values are equal when neither is before the other
  (`Value.isEqual_iff`).  So an operator looks only at how the field's value stands to the given one
  (`Operator.admits`), though two of them ask for equality and four for the order
  (`Operator.holds_eq_admits`).
* Numbers are compared by the doubles nearest to them (`matches_number_iff`).  This is the comparison of
  the numbers, for all operators, as long as two that differ have different doubles; integers beyond 2⁵³
  may not.
* Whatever a document has in a field, it is before, at or behind a value of its own kind and in no order
  to any other; the six operators read this off, and agree on it (`operators_preorder`).
-/

namespace DocSearch.Query

open Binary64 (IsNearest)

/-! ### Equality and order -/

/-- Values are equal exactly when they are of one kind and neither is before the other. -/
theorem Value.isEqual_iff {j : Json} {v : Value} : isEqual j v = true ↔ order? j v = some .eq := by
  cases j with
  | number a =>
    cases v with
    | number b =>
      rw [isEqual, Number.isEqual, decide_eq_true_iff, order?, Option.some_inj, Number.order,
        Binary64.order, Std.compare_eq_iff_eq]
    | text t => simp [isEqual, order?]
  | text s =>
    cases v with
    | number b => simp [isEqual, order?]
    | text t => rw [isEqual, decide_eq_true_iff, order?, Option.some_inj, Std.compare_eq_iff_eq]
  | null | bool _ | array _ | object _ => simp [isEqual, order?]

namespace Operator

/-- Whether an operator holds of a value that stands so to another, or in no order to it. -/
def admits : Operator → Option Ordering → Bool
  | equals, o => o = some .eq
  | notEquals, o => o ≠ some .eq
  | greaterThan, o => o = some .gt
  | greaterOrEqual, o => o = some .gt ∨ o = some .eq
  | lessThan, o => o = some .lt
  | lessOrEqual, o => o = some .lt ∨ o = some .eq

/-- **All operators agree on one order.**  Those that ask for equality might ask for the order, and
find that the values are neither before nor behind each other. -/
theorem holds_eq_admits (operator : Operator) (actual : Option Json) (expected : Value) :
    operator.holds actual expected = operator.admits (actual.bind (Value.order? · expected)) := by
  have hequal : actual.any (Value.isEqual · expected)
      = decide (actual.bind (Value.order? · expected) = some .eq) := by
    cases actual with
    | none => rfl
    | some j =>
      rw [Option.any_some, Option.bind_some, Bool.eq_iff_iff, Value.isEqual_iff, decide_eq_true_iff]
  cases operator with
  | equals => exact hequal
  | notEquals =>
    rw [holds, hequal]
    simp [admits]
  | greaterThan | greaterOrEqual | lessThan | lessOrEqual => rfl

end Operator

/-! ### Numbers -/

namespace Operator

/-- The relation between rationals that an operator is written for. -/
def Relates : Operator → ℚ → ℚ → Prop
  | equals, a, b => a = b
  | notEquals, a, b => a ≠ b
  | greaterThan, a, b => a > b
  | greaterOrEqual, a, b => a ≥ b
  | lessThan, a, b => a < b
  | lessOrEqual, a, b => a ≤ b

variable {operator : Operator} {x y : Binary64} {a b c d : ℚ}

theorem admits_order :
    operator.admits (some (x.order y)) = true ↔ operator.Relates x.toRat y.toRat := by
  have hlt := Binary64.order_eq_lt_iff (x := x) (y := y)
  have hgt := Binary64.order_eq_gt_iff (x := x) (y := y)
  have heq := Binary64.order_eq_eq_iff (x := x) (y := y)
  cases operator with
  | equals | notEquals | greaterThan | lessThan => simp [admits, Relates, hlt, hgt, heq]
  | greaterOrEqual => simp [admits, Relates, hgt, heq, le_iff_lt_or_eq, eq_comm (a := x.toRat)]
  | lessOrEqual => simp [admits, Relates, hlt, heq, le_iff_lt_or_eq]

/-- Two pairs that are ordered alike are related alike. -/
theorem relates_congr (hlt : a < b ↔ c < d) (hgt : b < a ↔ d < c) :
    operator.Relates a b ↔ operator.Relates c d := by
  have heq : a = b ↔ c = d := by
    rw [eq_iff_le_not_lt, eq_iff_le_not_lt, ← not_lt, ← not_lt, hlt, hgt]
  cases operator with
  | equals => exact heq
  | notEquals => exact not_congr heq
  | greaterThan => exact hgt
  | greaterOrEqual => exact not_lt.symm.trans ((not_congr hlt).trans not_lt)
  | lessThan => exact hlt
  | lessOrEqual => exact not_lt.symm.trans ((not_congr hgt).trans not_lt)

end Operator

/-- The doubles of two numbers are related as these are, unless these differ and they do not. -/
theorem relates_toBinary64_iff {a b : Number} :
    (∀ operator : Operator, operator.Relates a.toBinary64.toRat b.toBinary64.toRat
        ↔ operator.Relates a.toRat b.toRat)
      ↔ (a.toRat ≠ b.toRat → a.toBinary64.toRat ≠ b.toBinary64.toRat) := by
  constructor
  · intro h
    exact mt (h .equals).1
  · intro hmerge operator
    exact Operator.relates_congr (Number.toBinary64_lt_iff hmerge)
      (Number.toBinary64_lt_iff fun hne => (hmerge hne.symm).symm)

/-- **Numbers are compared by their nearest doubles.**  For all six operators this is the comparison
of the numbers themselves exactly if the numbers are equal or their doubles differ. -/
theorem matches_number_iff {d : Json} {f : Text} {a : Number} (h : d.field? f = some (.number a))
    (b : Number) :
    (∀ operator, (⟨f, operator, .number b⟩ : Predicate).matches d = true
        ↔ operator.Relates a.toBinary64.toRat b.toBinary64.toRat)
    ∧ IsNearest a.toRat a.toBinary64 ∧ IsNearest b.toRat b.toBinary64
    ∧ ((∀ operator, (⟨f, operator, .number b⟩ : Predicate).matches d = true
          ↔ operator.Relates a.toRat b.toRat)
        ↔ (a.toRat ≠ b.toRat → a.toBinary64.toRat ≠ b.toBinary64.toRat)) := by
  have hmatches : ∀ operator, (⟨f, operator, .number b⟩ : Predicate).matches d = true
      ↔ operator.Relates a.toBinary64.toRat b.toBinary64.toRat := by
    intro operator
    rw [Predicate.matches, Operator.holds_eq_admits, h]
    exact Operator.admits_order
  refine ⟨hmatches, a.isNearest, b.isNearest, ?_⟩
  simp only [hmatches]
  exact relates_toBinary64_iff

/-- Beyond 2⁵³ a document is found by its neighbour's number. -/
theorem matches_number_iff_large :
    let d : Json := .single "id".toList (.number (.int ⟨0x20000000000001, by decide⟩))
    let b : Number := .int ⟨0x20000000000000, by decide⟩
    (⟨"id".toList, .equals, .number b⟩ : Predicate).matches d = true
    ∧ ¬ Operator.equals.Relates (Number.int ⟨0x20000000000001, by decide⟩).toRat b.toRat := by
  intro d b
  have hfield : d.field? "id".toList = some (.number (.int ⟨0x20000000000001, by decide⟩)) := rfl
  have hdouble : (Number.int ⟨0x20000000000001, by decide⟩).toBinary64 = b.toBinary64 := by
    decide +kernel
  refine ⟨((matches_number_iff hfield b).1 .equals).2 (congrArg Binary64.toRat hdouble), ?_⟩
  norm_num [Operator.Relates, Number.toRat, b]

/-! ### The order of values -/

/-- Numbers are compared by a key. -/
instance : Std.TransCmp Number.order :=
  inferInstanceAs (Std.TransCmp (compareOn fun a : Number => a.toBinary64.key))

namespace Value

/-- A value of a document is of the kind of a predicate's. -/
def SameKind : Json → Value → Prop
  | .number _, .number _ | .text _, .text _ => True
  | _, _ => False

/-- A value of a document is equal to a predicate's: a number with the same double, or the same
text. -/
def Equal : Json → Value → Prop
  | .number a, .number b => a.toBinary64.toRat = b.toBinary64.toRat
  | .text s, .text t => s = t
  | _, _ => False

variable {j : Json} {v w : Value} {a b : Ordering}

/-- Values are ordered exactly when they are of one kind. -/
theorem exists_order?_iff : (∃ a, order? j v = some a) ↔ SameKind j v := by
  cases j <;> cases v <;> simp [order?, SameKind]

/-- Values are neither before nor behind each other exactly when they are equal. -/
theorem order?_eq_some_eq_iff : order? j v = some .eq ↔ Equal j v := by
  cases j with
  | number a =>
    cases v with
    | number b => exact Option.some_inj.trans Binary64.order_eq_eq_iff
    | text t => simp [order?, Equal]
  | text s =>
    cases v with
    | number b => simp [order?, Equal]
    | text t => exact Option.some_inj.trans Std.compare_eq_iff_eq
  | null | bool _ | array _ | object _ => simp [order?, Equal]

/-- Orders of one comparison that carries over. -/
theorem order?_trans (hv : order? j v = some a) (hw : order? v.toJson w = some b) :
    ∃ c, order? j w = some c ∧ (a.isLE → b.isLE → c.isLE) ∧ (a = .lt → b.isLE → c = .lt)
      ∧ (a.isGE → b.isGE → c.isGE) ∧ (a = .gt → b.isGE → c = .gt) := by
  cases j with
  | number x =>
    cases v with
    | number y =>
      cases w with
      | number z =>
        cases hv
        cases hw
        exact ⟨_, rfl, Std.TransCmp.isLE_trans, Std.TransCmp.lt_of_lt_of_isLE,
          Std.TransCmp.isGE_trans, Std.TransCmp.gt_of_gt_of_isGE⟩
      | text t => cases hw
    | text s => cases hv
  | text s =>
    cases v with
    | number y => cases hv
    | text t =>
      cases w with
      | number z => cases hw
      | text u =>
        cases hv
        cases hw
        exact ⟨_, rfl, Std.TransCmp.isLE_trans, Std.TransCmp.lt_of_lt_of_isLE,
          Std.TransCmp.isGE_trans, Std.TransCmp.gt_of_gt_of_isGE⟩
  | null | bool _ | array _ | object _ => cases hv

end Value

/-! ### The order of documents -/

namespace Operator

variable {o : Option Ordering}

theorem admits_equals : equals.admits o = true ↔ o = some .eq := by
  cases o <;> simp [admits]

theorem admits_lessThan : lessThan.admits o = true ↔ o = some .lt := by
  cases o <;> simp [admits]

theorem admits_greaterThan : greaterThan.admits o = true ↔ o = some .gt := by
  cases o <;> simp [admits]

theorem admits_lessOrEqual : lessOrEqual.admits o = true ↔ ∃ a, o = some a ∧ a.isLE = true := by
  cases o with
  | none => simp [admits]
  | some a => cases a <;> simp [admits]

theorem admits_greaterOrEqual : greaterOrEqual.admits o = true ↔ ∃ a, o = some a ∧ a.isGE = true := by
  cases o with
  | none => simp [admits]
  | some a => cases a <;> simp [admits]

theorem admits_lessOrEqual_eq (o : Option Ordering) :
    lessOrEqual.admits o = (lessThan.admits o || equals.admits o) := by
  rcases o with _ | a
  · rfl
  · cases a <;> rfl

theorem admits_greaterOrEqual_eq (o : Option Ordering) :
    greaterOrEqual.admits o = (greaterThan.admits o || equals.admits o) := by
  rcases o with _ | a
  · rfl
  · cases a <;> rfl

theorem admits_notEquals_eq (o : Option Ordering) : notEquals.admits o = !equals.admits o := by
  rcases o with _ | a
  · rfl
  · cases a <;> rfl

theorem admits_none {operator : Operator} (h : operator ≠ .notEquals) :
    operator.admits none = false := by
  cases operator with
  | notEquals => exact absurd rfl h
  | equals | greaterThan | greaterOrEqual | lessThan | lessOrEqual => rfl

end Operator

/-- How the value that a document has in a field stands to another, if it does. -/
def fieldOrder? (d : Json) (f : Text) (v : Value) : Option Ordering :=
  (d.field? f).bind (Value.order? · v)

theorem exists_fieldOrder?_iff {d : Json} {f : Text} {v : Value} :
    (∃ a, fieldOrder? d f v = some a) ↔ ∃ j, d.field? f = some j ∧ Value.SameKind j v := by
  simp only [← Value.exists_order?_iff, fieldOrder?, Option.bind_eq_some_iff]
  exact exists_comm.trans (exists_congr fun _ => exists_and_left)

theorem fieldOrder?_single (f : Text) (v w : Value) :
    fieldOrder? (.single f v.toJson) f w = Value.order? v.toJson w := by
  simp [fieldOrder?, Json.single, Json.field?]

theorem fieldOrder?_trans {d : Json} {f : Text} {v w : Value} {a b : Ordering}
    (hv : fieldOrder? d f v = some a) (hw : fieldOrder? (.single f v.toJson) f w = some b) :
    ∃ c, fieldOrder? d f w = some c ∧ (a.isLE → b.isLE → c.isLE) ∧ (a = .lt → b.isLE → c = .lt)
      ∧ (a.isGE → b.isGE → c.isGE) ∧ (a = .gt → b.isGE → c = .gt) := by
  obtain ⟨j, hj, hv⟩ := Option.bind_eq_some_iff.1 hv
  rw [fieldOrder?_single] at hw
  rw [fieldOrder?, hj]
  exact Value.order?_trans hv hw

/-- The bounds, each with the one that it may be followed by. -/
inductive Operator.Bound : Operator → Operator → Prop
  | lessOrEqual : Bound lessOrEqual lessOrEqual
  | lessThan : Bound lessThan lessOrEqual
  | greaterOrEqual : Bound greaterOrEqual greaterOrEqual
  | greaterThan : Bound greaterThan greaterOrEqual

/-- A bound on a document carries over from one value to the next. -/
theorem Operator.Bound.admits_trans {operator weak : Operator} (hbound : Bound operator weak)
    {d : Json} {f : Text} {v w : Value} (hv : operator.admits (fieldOrder? d f v) = true)
    (hw : weak.admits (fieldOrder? (.single f v.toJson) f w) = true) :
    operator.admits (fieldOrder? d f w) = true := by
  cases hbound with
  | lessOrEqual =>
    obtain ⟨a, ha, hle⟩ := admits_lessOrEqual.1 hv
    obtain ⟨b, hb, hle'⟩ := admits_lessOrEqual.1 hw
    obtain ⟨c, hc, htrans, -⟩ := fieldOrder?_trans ha hb
    exact admits_lessOrEqual.2 ⟨c, hc, htrans hle hle'⟩
  | lessThan =>
    obtain ⟨b, hb, hle⟩ := admits_lessOrEqual.1 hw
    obtain ⟨c, hc, -, htrans, -⟩ := fieldOrder?_trans (admits_lessThan.1 hv) hb
    rw [hc, htrans rfl hle]
    rfl
  | greaterOrEqual =>
    obtain ⟨a, ha, hge⟩ := admits_greaterOrEqual.1 hv
    obtain ⟨b, hb, hge'⟩ := admits_greaterOrEqual.1 hw
    obtain ⟨c, hc, -, -, htrans, -⟩ := fieldOrder?_trans ha hb
    exact admits_greaterOrEqual.2 ⟨c, hc, htrans hge hge'⟩
  | greaterThan =>
    obtain ⟨b, hb, hge⟩ := admits_greaterOrEqual.1 hw
    obtain ⟨c, hc, -, -, -, htrans⟩ := fieldOrder?_trans (admits_greaterThan.1 hv) hb
    rw [hc, htrans rfl hge]
    rfl

/-- **The six operators are those of one total preorder with an incomparable class.**  A value of the
predicate's kind is before, at or behind the predicate's, a missing field or a value of another kind is
in no order to it, and bounds carry over from one value to the next. -/
theorem operators_preorder (d : Json) (f : Text) (v : Value) :
    let holds := fun d operator v => (⟨f, operator, v⟩ : Predicate).matches d
    ((∃ j, d.field? f = some j ∧ Value.SameKind j v) →
        [holds d .lessThan v, holds d .equals v, holds d .greaterThan v].count true = 1)
    ∧ ((∀ j, d.field? f = some j → ¬ Value.SameKind j v) →
        ∀ operator, operator ≠ .notEquals → holds d operator v = false)
    ∧ (holds d .equals v = true ↔ ∃ j, d.field? f = some j ∧ Value.Equal j v)
    ∧ holds d .lessOrEqual v = (holds d .lessThan v || holds d .equals v)
    ∧ holds d .greaterOrEqual v = (holds d .greaterThan v || holds d .equals v)
    ∧ holds d .notEquals v = !holds d .equals v
    ∧ ∀ w, (holds d .lessOrEqual v → holds (.single f v.toJson) .lessOrEqual w →
          holds d .lessOrEqual w)
      ∧ (holds d .lessThan v → holds (.single f v.toJson) .lessOrEqual w → holds d .lessThan w)
      ∧ (holds d .greaterOrEqual v → holds (.single f v.toJson) .greaterOrEqual w →
          holds d .greaterOrEqual w)
      ∧ (holds d .greaterThan v → holds (.single f v.toJson) .greaterOrEqual w →
          holds d .greaterThan w) := by
  intro holds
  have hholds : ∀ d operator v, holds d operator v = operator.admits (fieldOrder? d f v) :=
    fun _ _ _ => Operator.holds_eq_admits ..
  simp only [hholds]
  refine ⟨fun h => ?ordered, fun h operator hne => ?unordered, ?equal,
    Operator.admits_lessOrEqual_eq _, Operator.admits_greaterOrEqual_eq _,
    Operator.admits_notEquals_eq _,
    fun w => ⟨Operator.Bound.admits_trans .lessOrEqual, Operator.Bound.admits_trans .lessThan,
      Operator.Bound.admits_trans .greaterOrEqual, Operator.Bound.admits_trans .greaterThan⟩⟩
  case ordered =>
    obtain ⟨a, ha⟩ := exists_fieldOrder?_iff.2 h
    rw [ha]
    cases a <;> decide
  case unordered =>
    have hnone : fieldOrder? d f v = none := by
      rw [Option.eq_none_iff_forall_ne_some]
      intro a ha
      obtain ⟨j, hj, hkind⟩ := exists_fieldOrder?_iff.1 ⟨a, ha⟩
      exact h j hj hkind
    rw [hnone]
    exact Operator.admits_none hne
  case equal =>
    rw [Operator.admits_equals, fieldOrder?, Option.bind_eq_some_iff]
    simp only [Value.order?_eq_some_eq_iff]

end DocSearch.Query
