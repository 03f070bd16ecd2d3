import DocSearch.Proofs.Query.Grammar
import DocSearch.Proofs.Query.Store

/-!
# Query — the keys of a filter

Which keys the filter of a query has, and where they come from (`filter_keys`).

* An object anywhere in a JSON value is reached by a path of members and items, and `Json.HasMember`
  says that the object there has a member.
* A filter has keys of two kinds only.  The translation's own are `$and` over several clauses and
  the key of an operator, alone in the condition on a field (`Expression.OwnKey`).  The others are
  the fields, each of them the only key of its clause (`Expression.ClauseAt`).  The two kinds stand
  in different places (`Expression.OwnKey.not_clauseAt`), and values have no keys at all.
* Fields stand in the filter as they stand in the query.  Nothing keeps a field from beginning with
  a `$`, and then its key is none of the translation's (`exists_foreign_key`).
-/

namespace DocSearch

namespace Json

/-- A step down into a value. -/
inductive Step where
  | item (index : Nat)
  | member (key : Text)
  deriving DecidableEq

/-- The object at the end of the path has a member with the key and the value. -/
inductive HasMember : Json → List Step → Text → Json → Prop
  | here {members : List (Text × Json)} {key : Text} {value : Json} (h : (key, value) ∈ members) :
      HasMember (.object members) [] key value
  | item {items : List Json} {i : Nat} {inner : Json} {path : List Step} {key : Text} {value : Json}
      (hi : items[i]? = some inner) (h : HasMember inner path key value) :
      HasMember (.array items) (.item i :: path) key value
  | member {members : List (Text × Json)} {k : Text} {inner : Json} {path : List Step} {key : Text}
      {value : Json} (hk : (k, inner) ∈ members) (h : HasMember inner path key value) :
      HasMember (.object members) (.member k :: path) key value

variable {path : List Step} {key : Text} {value : Json}

theorem hasMember_single {k : Text} {v : Json} :
    (single k v).HasMember path key value
      ↔ path = [] ∧ key = k ∧ value = v
        ∨ ∃ rest, path = .member k :: rest ∧ v.HasMember rest key value := by
  constructor
  · intro h
    cases h with
    | here h => exact .inl ⟨rfl, by simpa using h⟩
    | member hk h =>
      obtain ⟨rfl, rfl⟩ : _ = k ∧ _ = v := by simpa using hk
      exact .inr ⟨_, rfl, h⟩
  · rintro (⟨rfl, rfl, rfl⟩ | ⟨rest, rfl, h⟩)
    · exact .here List.mem_cons_self
    · exact .member List.mem_cons_self h

theorem hasMember_array {items : List Json} :
    (array items).HasMember path key value
      ↔ ∃ i inner rest, items[i]? = some inner ∧ path = .item i :: rest
        ∧ inner.HasMember rest key value := by
  constructor
  · intro h
    cases h with
    | item hi h => exact ⟨_, _, _, hi, rfl, h⟩
  · rintro ⟨i, inner, rest, hi, rfl, h⟩
    exact .item hi h

end Json

namespace Query

open Json (HasMember Step)

variable {path : List Step} {key : Text} {value : Json}

/-- The value of a predicate is no place for keys. -/
theorem Value.not_hasMember_toJson (v : Value) : ¬ v.toJson.HasMember path key value := by
  intro h
  cases v <;> cases h

/-! ### One clause -/

namespace Predicate

variable {p : Predicate}

/-- The only key of a condition is that of the operator. -/
theorem hasMember_condition :
    p.condition.HasMember path key value
      ↔ path = [] ∧ p.operator.storeKey? = some key ∧ p.condition = .single key value := by
  unfold condition
  cases p.operator.storeKey? with
  | none => simp [p.value.not_hasMember_toJson]
  | some k =>
    simp only [Json.hasMember_single, p.value.not_hasMember_toJson, and_false, exists_false,
      or_false, Option.some.injEq, Json.single_inj]
    constructor
    · rintro ⟨hpath, rfl, rfl⟩
      exact ⟨hpath, rfl, rfl, rfl⟩
    · rintro ⟨hpath, rfl, -, rfl⟩
      exact ⟨hpath, rfl, rfl⟩

theorem hasMember_filter :
    p.filter.HasMember path key value
      ↔ path = [] ∧ key = p.field ∧ value = p.condition
        ∨ path = [.member p.field] ∧ p.operator.storeKey? = some key
          ∧ p.condition = .single key value := by
  rw [filter_eq, Json.hasMember_single]
  refine or_congr_right ?_
  simp only [hasMember_condition]
  constructor
  · rintro ⟨_, rfl, rfl, h⟩
    exact ⟨rfl, h⟩
  · rintro ⟨rfl, h⟩
    exact ⟨[], rfl, rfl, h⟩

end Predicate

/-! ### The clauses of an expression -/

namespace Expression

variable {e : Expression} {p q : Predicate}

/-- The path to the clause of a predicate: a single one is the filter, several are the items of the
list under `$and`. -/
inductive ClauseAt (e : Expression) : List Step → Predicate → Prop
  | alone {p : Predicate} (h : e.predicates = [p]) : ClauseAt e [] p
  | listed {i : Nat} {p : Predicate} (hlength : 2 ≤ e.predicates.length)
      (hi : e.predicates[i]? = some p) : ClauseAt e [.member ['$', 'a', 'n', 'd'], .item i] p

/-- The keys that the translation puts into a filter by itself: `$and` at the root, over the list of
two or more clauses, and the key of an operator, alone in the condition on a field. -/
inductive OwnKey (e : Expression) : List Step → Text → Json → Prop
  | and (hlength : 2 ≤ e.predicates.length) :
      OwnKey e [] ['$', 'a', 'n', 'd'] (.array (e.predicates.map Predicate.filter))
  | operator {path : List Step} {p : Predicate} {key : Text} {value : Json}
      (hclause : e.ClauseAt path p) (hkey : p.operator.storeKey? = some key)
      (hcondition : p.condition = .single key value) :
      OwnKey e (path ++ [.member p.field]) key value

theorem filter_of_single (h : e.predicates = [p]) : e.filter = p.filter := by
  simp [filter, h]

theorem filter_of_two_le (h : 2 ≤ e.predicates.length) :
    e.filter = .single ['$', 'a', 'n', 'd'] (.array (e.predicates.map Predicate.filter)) := by
  unfold filter
  split
  · next p hp => simp [hp] at h
  · rfl

theorem single_or_two_le (e : Expression) :
    (∃ p, e.predicates = [p]) ∨ 2 ≤ e.predicates.length := by
  obtain ⟨predicates, hne⟩ := e
  rcases predicates with _ | ⟨p, _ | ⟨q, rest⟩⟩
  · exact absurd rfl hne
  · exact .inl ⟨p, rfl⟩
  · exact .inr (by simp)

theorem exists_clauseAt (h : p ∈ e.predicates) : ∃ path, e.ClauseAt path p := by
  rcases e.single_or_two_le with ⟨q, hq⟩ | hlength
  · obtain rfl : p = q := by simpa [hq] using h
    exact ⟨_, .alone hq⟩
  · obtain ⟨i, hi⟩ := List.mem_iff_getElem?.1 h
    exact ⟨_, .listed hlength hi⟩

theorem ClauseAt.mem (h : e.ClauseAt path p) : p ∈ e.predicates := by
  cases h with
  | alone h => simp [h]
  | listed _ hi => exact List.mem_of_getElem? hi

theorem ClauseAt.unique (hp : e.ClauseAt path p) (hq : e.ClauseAt path q) : p = q := by
  cases hp with
  | alone hp =>
    cases hq with
    | alone hq => simpa [hp] using hq
  | listed _ hp =>
    cases hq with
    | listed _ hq => exact Option.some.inj (hp.symm.trans hq)

/-- A clause has a place of its own kind in a filter of one clause and of several. -/
theorem ClauseAt.length_path (h : e.ClauseAt path p) :
    e.predicates.length = 1 ∧ path.length = 0 ∨ 2 ≤ e.predicates.length ∧ path.length = 2 := by
  cases h with
  | alone h => exact .inl ⟨by simp [h], rfl⟩
  | listed hlength _ => exact .inr ⟨hlength, rfl⟩

/-- Where a clause has its field, the translation has no key. -/
theorem OwnKey.not_clauseAt (h : e.OwnKey path key value) : ¬ e.ClauseAt path p := by
  intro hp
  have hlength := hp.length_path
  cases h with
  | and htwo => simp at hlength; omega
  | operator hclause _ _ =>
    have hclause := hclause.length_path
    simp only [List.length_append, List.length_singleton] at hlength
    omega

/-- A filter has the translation's own keys and the fields, and no others. -/
theorem hasMember_filter :
    e.filter.HasMember path key value
      ↔ e.OwnKey path key value ∨ ∃ p, e.ClauseAt path p ∧ key = p.field ∧ value = p.condition := by
  constructor
  · intro h
    rcases e.single_or_two_le with ⟨p, hp⟩ | hlength
    · rw [filter_of_single hp, Predicate.hasMember_filter] at h
      rcases h with ⟨rfl, hfield⟩ | ⟨rfl, hkey, hcondition⟩
      · exact .inr ⟨p, .alone hp, hfield⟩
      · exact .inl (.operator (.alone hp) hkey hcondition)
    · rw [filter_of_two_le hlength, Json.hasMember_single] at h
      rcases h with ⟨rfl, rfl, rfl⟩ | ⟨_, rfl, h⟩
      · exact .inl (.and hlength)
      · obtain ⟨i, inner, rest, hi, rfl, h⟩ := Json.hasMember_array.1 h
        rw [List.getElem?_map, Option.map_eq_some_iff] at hi
        obtain ⟨p, hp, rfl⟩ := hi
        rcases Predicate.hasMember_filter.1 h with ⟨rfl, hfield⟩ | ⟨rfl, hkey, hcondition⟩
        · exact .inr ⟨p, .listed hlength hp, hfield⟩
        · exact .inl (.operator (.listed hlength hp) hkey hcondition)
  · have hclauses : ∀ {path rest p}, e.ClauseAt path p → p.filter.HasMember rest key value →
        e.filter.HasMember (path ++ rest) key value := by
      intro path rest p hp h
      cases hp with
      | alone hp => rwa [filter_of_single hp]
      | listed hlength hi =>
        rw [filter_of_two_le hlength]
        exact .member List.mem_cons_self (.item (by simp [hi]) h)
    rintro (h | ⟨p, hp, hfield⟩)
    · cases h with
      | and hlength =>
        rw [filter_of_two_le hlength]
        exact .here List.mem_cons_self
      | operator hp hkey hcondition =>
        exact hclauses hp (Predicate.hasMember_filter.2 (.inr ⟨rfl, hkey, hcondition⟩))
    · have := hclauses hp (Predicate.hasMember_filter.2 (.inl ⟨rfl, hfield⟩))
      rwa [List.append_nil] at this

/-- The object of a clause has the field as its only key. -/
theorem ClauseAt.hasMember_filter (h : e.ClauseAt path p) :
    e.filter.HasMember path key value ↔ key = p.field ∧ value = p.condition := by
  rw [Expression.hasMember_filter]
  constructor
  · rintro (hown | ⟨q, hq, hfield⟩)
    · exact absurd h hown.not_clauseAt
    · rwa [h.unique hq]
  · exact fun hfield => .inr ⟨p, h, hfield⟩

/-- The keys of some kind are the translation's own exactly when no field is of that kind. -/
theorem forall_ownKey_iff (P : Text → Prop) :
    (∀ path key value, e.filter.HasMember path key value → P key → e.OwnKey path key value)
      ↔ ∀ p ∈ e.predicates, ¬ P p.field := by
  constructor
  · intro h p hp hfield
    obtain ⟨path, hclause⟩ := exists_clauseAt hp
    have hmember := hclause.hasMember_filter.2 ⟨rfl, rfl⟩
    exact (h path p.field p.condition hmember hfield).not_clauseAt hclause
  · intro h path key value hmember hkey
    rcases hasMember_filter.1 hmember with hown | ⟨p, hp, rfl, -⟩
    · exact hown
    · exact absurd hkey (h p hp.mem)

end Expression

/-- **Where the keys of a filter come from.**  Every key in the filter of a query is the
translation's own, or a field, as it is in the query and the only key of its clause; no value makes
one.  So all keys that begin with a `$` are the translation's own exactly if no field begins so. -/
theorem filter_keys {query : Text} {e : Expression} (h : compile query = .ok e) :
    ∃ tokens, tokenize query = .ok tokens ∧ e.predicates = tokens.map Predicate.ofToken
      ∧ (∀ path key value, e.filter.HasMember path key value
          ↔ e.OwnKey path key value
            ∨ ∃ p, e.ClauseAt path p ∧ key = p.field ∧ value = p.condition)
      ∧ (∀ path p, e.ClauseAt path p →
          ∀ key value, e.filter.HasMember path key value ↔ key = p.field ∧ value = p.condition)
      ∧ ((∀ path key value, e.filter.HasMember path key value → key.head? = some '$' →
            e.OwnKey path key value)
          ↔ ∀ t ∈ tokens, t.field.head? ≠ some '$') := by
  obtain ⟨tokens, htokens, hpredicates⟩ := compile_eq_ok_iff.1 h
  refine ⟨tokens, htokens, hpredicates, fun _ _ _ => Expression.hasMember_filter,
    fun _ _ hclause _ _ => hclause.hasMember_filter, ?_⟩
  rw [Expression.forall_ownKey_iff fun key => key.head? = some '$', hpredicates,
    List.forall_mem_map]
  rfl

/-- Two clauses on fields of the store's own name are still two comparisons. -/
theorem filter_keys_two :
    ∃ e, compile "$gt>1 $and:x".toList = .ok e
      ∧ e.filter.HasMember [.member "$and".toList, .item 1] "$and".toList (.text ['x']) := by
  have hcompile : compile "$gt>1 $and:x".toList
      = .ok ⟨[⟨"$gt".toList, .greaterThan, .number (.int ⟨1, by decide⟩)⟩,
        ⟨"$and".toList, .equals, .text ['x']⟩], List.cons_ne_nil _ _⟩ := rfl
  obtain ⟨_, -, -, hkeys, -⟩ := filter_keys hcompile
  exact ⟨_, hcompile, (hkeys _ _ _).2 (.inr ⟨_, .listed (by decide) rfl, rfl, rfl⟩)⟩

/-- A field that begins with a `$` is accepted, and its key is not the translation's own. -/
theorem exists_foreign_key :
    ¬ ∀ query e, compile query = .ok e → ∀ path key value, e.filter.HasMember path key value →
      key.head? = some '$' → e.OwnKey path key value := by
  intro h
  have hcompile : compile "$where:1".toList = .ok
      ⟨[⟨"$where".toList, .equals, .number (.int ⟨1, by decide⟩)⟩], List.cons_ne_nil _ _⟩ := rfl
  exact (Expression.forall_ownKey_iff _).1 (h _ _ hcompile) _ List.mem_cons_self rfl

end Query

end DocSearch
