import DocSearch.Proofs.Query.Groups
import DocSearch.Query.Expression

/-!
# Query — the grammar of queries

A token is written as its field, its operator's symbol and its raw value, between quotes or bare
(`Token.text`).  Which tokens there are is a condition on these parts alone (`Token.Lawful`), and
the tokens of a query are the lawful ones that it is the spaced texts of (`tokenize_eq_ok_iff`).

* The symbol of `>` or `<` ends in front of a text unless that begins with `=`
  (`Operator.EndsAt`); every other symbol is the longest at its place.
* A field has no character that a symbol begins with, so the first operator of a token's text is
  the token's own (`Token.Lawful.splitOperator?_text`).
* A group is the text of at most one lawful token, the one it is taken apart into
  (`lawful_of_ofGroup`, `Token.Lawful.ofGroup_text`).

A query without tokens is blank, and only such a query is refused as blank (`query_grammar`).
-/

namespace DocSearch.Query

/-! ### Operators at the front of a text -/

namespace Operator

/-- The symbol is not made a longer one by the text behind it. -/
def EndsAt (operator : Operator) (rest : Text) : Prop :=
  operator = greaterThan ∨ operator = lessThan → rest.head? ≠ some '='

theorem atFront?_symbol {operator : Operator} {rest : Text} (h : operator.EndsAt rest) :
    atFront? (operator.symbol ++ rest) = some (operator, rest) := by
  cases operator with
  | equals | notEquals | greaterOrEqual | lessOrEqual => simp [symbol, atFront?]
  | greaterThan | lessThan =>
    cases rest with
    | nil => simp [symbol, atFront?]
    | cons c rest =>
      have hc : c ≠ '=' := by simpa [EndsAt] using h
      simp [symbol, atFront?, hc]

theorem endsAt_of_atFront? {s rest : Text} {operator : Operator}
    (h : atFront? s = some (operator, rest)) : operator.EndsAt rest := by
  intro hop hhead
  obtain rfl := eq_symbol_append h
  obtain ⟨rest, rfl⟩ : ∃ rest', rest = '=' :: rest' := by
    cases rest with
    | nil => cases hhead
    | cons c rest => exact ⟨rest, by simpa using hhead⟩
  rcases hop with rfl | rfl <;> simp [symbol, atFront?] at h

/-- No symbol begins with a character that is in none. -/
theorem atFront?_eq_none {c : Char} (h : isSymbolChar c = false) (s : Text) :
    atFront? (c :: s) = none := by
  cases hs : atFront? (c :: s) with
  | none => rfl
  | some found =>
    obtain ⟨operator, rest⟩ := found
    have hmem : c ∈ operator.symbol := by
      have := eq_symbol_append hs
      cases operator <;> simp_all [symbol]
    simp [isSymbolChar_of_mem hmem] at h

/-- Behind `>` and `<` the character `=` makes another operator. -/
theorem exists_longer {operator : Operator} (h : operator = greaterThan ∨ operator = lessThan) :
    ∃ longer : Operator, longer.symbol = operator.symbol ++ ['='] ∧ longer ≠ operator
      ∧ ∀ rest, longer.EndsAt rest := by
  rcases h with rfl | rfl
  · exact ⟨greaterOrEqual, rfl, by simp, by simp [EndsAt]⟩
  · exact ⟨lessOrEqual, rfl, by simp, by simp [EndsAt]⟩

theorem symbol_plain (operator : Operator) :
    '"' ∉ operator.symbol ∧ ∀ c ∈ operator.symbol, isBlank c = false := by
  cases operator <;> simp [symbol] <;> decide

end Operator

/-! ### Tokens and groups -/

/-- A token's value as it is written. -/
def Token.body (t : Token) : Text :=
  if t.quoted then '"' :: t.raw ++ ['"'] else t.raw

/-- A token as it is written. -/
def Token.text (t : Token) : Text :=
  t.field ++ t.operator.symbol ++ t.body

/-- What makes the text of a token one group: the field has neither blank characters, quotes nor
characters of symbols; a value between quotes has no quote; a bare value has neither quotes nor
blank characters. -/
structure Token.Whole (t : Token) : Prop where
  field_nonempty : t.field ≠ []
  field_char : ∀ c ∈ t.field, isBlank c = false ∧ c ≠ '"' ∧ c ∉ [':', '!', '>', '<', '=']
  raw_quoted : t.quoted = true → '"' ∉ t.raw
  raw_nonempty : t.quoted = false → t.raw ≠ []
  raw_char : t.quoted = false → ∀ c ∈ t.raw, isBlank c = false ∧ c ≠ '"'

/-- What the tokens of a query are: whole, and a bare value does not go on with the operator. -/
structure Token.Lawful (t : Token) : Prop extends t.Whole where
  raw_endsAt : t.quoted = false → t.operator.EndsAt t.raw

theorem isSymbolChar_eq_false_iff {c : Char} :
    Operator.isSymbolChar c = false ↔ c ∉ [':', '!', '>', '<', '='] := by
  simp [Operator.isSymbolChar, and_assoc]

/-- The operator behind a field is the first in the group. -/
theorem splitOperator?_append {field rest : Text} {operator : Operator}
    (hfield : ∀ c ∈ field, Operator.isSymbolChar c = false) (hrest : operator.EndsAt rest) :
    splitOperator? (field ++ operator.symbol ++ rest) = some (field, operator, rest) := by
  induction field with
  | nil =>
    obtain ⟨c, s, hs⟩ : ∃ c s, operator.symbol ++ rest = c :: s := by
      cases operator <;> exact ⟨_, _, rfl⟩
    rw [List.nil_append, hs, splitOperator?, ← hs, Operator.atFront?_symbol hrest]
  | cons c field ih =>
    rw [List.cons_append, List.cons_append, splitOperator?,
      Operator.atFront?_eq_none (hfield c List.mem_cons_self),
      ih fun d hd => hfield d (List.mem_cons_of_mem _ hd)]
    rfl

theorem endsAt_of_splitOperator? {group field rest : Text} {operator : Operator}
    (h : splitOperator? group = some (field, operator, rest)) : operator.EndsAt rest := by
  induction group generalizing field with
  | nil => cases h
  | cons c s ih =>
    rw [splitOperator?] at h
    split at h
    · next hfront =>
      cases h
      exact Operator.endsAt_of_atFront? hfront
    · simp only [Option.map_eq_some_iff, Prod.exists, Prod.mk.injEq] at h
      obtain ⟨field, _, _, hs, -, rfl, rfl⟩ := h
      exact ih hs

theorem rawValue_bare {raw : Text} (hne : raw ≠ []) (h : '"' ∉ raw) :
    rawValue raw = .ok (raw, false) := by
  obtain ⟨c, s, rfl⟩ := List.exists_cons_of_ne_nil hne
  obtain ⟨hc, hs⟩ := not_or.1 (mt List.mem_cons.2 h)
  rw [rawValue, if_neg (Ne.symm hc), if_neg hs]

theorem rawValue_between {raw : Text} (h : '"' ∉ raw) :
    rawValue ('"' :: raw ++ ['"']) = .ok (raw, true) := by
  rw [List.cons_append, rawValue, if_pos rfl, Text.before?_eq_some_iff.2 rfl]
  exact if_neg h

/-- The value behind an operator is bare or between two quotes, and has no quote itself. -/
theorem eq_of_rawValue {rest raw : Text} {quoted : Bool} (h : rawValue rest = .ok (raw, quoted)) :
    '"' ∉ raw ∧ (quoted = true → rest = '"' :: raw ++ ['"'])
      ∧ (quoted = false → raw ≠ [] ∧ rest = raw) := by
  cases rest with
  | nil => cases h
  | cons c s =>
    rw [rawValue] at h
    split at h
    · next hc =>
      subst hc
      split at h
      · cases h
      · next inner hs =>
        obtain rfl := Text.before?_eq_some_iff.1 hs
        split at h
        · cases h
        · next hin =>
          cases h
          exact ⟨hin, fun _ => rfl, fun hq => by cases hq⟩
    · next hc =>
      split at h
      · cases h
      · next hs =>
        cases h
        refine ⟨fun hmem => ?_, fun hq => (by cases hq), fun _ => ⟨List.cons_ne_nil _ _, rfl⟩⟩
        rcases List.mem_cons.1 hmem with e | hmem
        · exact hc e.symm
        · exact hs hmem

variable {t : Token}

namespace Token.Whole

theorem isSymbolChar_field (h : t.Whole) : ∀ c ∈ t.field, Operator.isSymbolChar c = false :=
  fun c hc => isSymbolChar_eq_false_iff.2 (h.field_char c hc).2.2

theorem not_mem_field (h : t.Whole) : '"' ∉ t.field :=
  fun hmem => (h.field_char _ hmem).2.1 rfl

theorem not_mem_raw (h : t.Whole) : '"' ∉ t.raw := by
  intro hmem
  cases hq : t.quoted with
  | false => exact (h.raw_char hq _ hmem).2 rfl
  | true => exact h.raw_quoted hq hmem

/-- The text of a token is one group: only its value may hold blank characters, and then stands
between quotes. -/
theorem isGroup_text (h : t.Whole) : IsGroup t.text := by
  have hsymbol := t.operator.symbol_plain
  have hquoted : quotedAfter false (t.field ++ t.operator.symbol) = false := by
    rw [quotedAfter_append, quotedAfter_of_not_mem h.not_mem_field,
      quotedAfter_of_not_mem hsymbol.1]
  have hfront : Unbroken false (t.field ++ t.operator.symbol) := by
    rw [unbroken_append, quotedAfter_of_not_mem h.not_mem_field,
      unbroken_of_not_mem h.not_mem_field, unbroken_of_not_mem hsymbol.1]
    exact ⟨fun _ c hc => (h.field_char c hc).1, fun _ => hsymbol.2⟩
  have hbody : Unbroken false t.body ∧ quotedAfter false t.body = false := by
    unfold Token.body
    cases hq : t.quoted with
    | false =>
      rw [if_neg (by simp), unbroken_of_not_mem h.not_mem_raw, quotedAfter_of_not_mem h.not_mem_raw]
      exact ⟨fun _ c hc => (h.raw_char hq c hc).1, rfl⟩
    | true =>
      have hraw : Unbroken true t.raw ∧ quotedAfter true t.raw = true :=
        ⟨(unbroken_of_not_mem h.not_mem_raw).2 (by simp), quotedAfter_of_not_mem h.not_mem_raw⟩
      simp [Unbroken, quotedAfter, unbroken_append, hraw, isBlank_quote]
  refine ⟨by simp [Token.text, h.field_nonempty], unbroken_append.2 ⟨hfront, ?_⟩, ?_⟩
  · rw [hquoted]
    exact hbody.1
  · rw [Token.text, quotedAfter_append, hquoted, hbody.2]

end Token.Whole

namespace Token.Lawful

theorem endsAt_body (h : t.Lawful) : t.operator.EndsAt t.body := by
  unfold Token.body
  split
  · simp [Operator.EndsAt]
  · next hq => exact h.raw_endsAt (by simpa using hq)

theorem splitOperator?_text (h : t.Lawful) :
    splitOperator? t.text = some (t.field, t.operator, t.body) :=
  splitOperator?_append h.toWhole.isSymbolChar_field h.endsAt_body

theorem ofGroup_text (h : t.Lawful) : Token.ofGroup t.text = .ok t := by
  have hchars : (t.field.any fun c => Operator.isSymbolChar c || c = '"') = false := by
    rw [List.any_eq_false]
    intro c hc
    have hfield := h.field_char c hc
    simp [h.toWhole.isSymbolChar_field c hc, hfield.2.1]
  have hraw : rawValue t.body = .ok (t.raw, t.quoted) := by
    unfold Token.body
    cases hq : t.quoted with
    | false => exact rawValue_bare (h.raw_nonempty hq) h.toWhole.not_mem_raw
    | true => exact rawValue_between h.toWhole.not_mem_raw
  simp [Token.ofGroup, h.splitOperator?_text, h.field_nonempty, hchars, hraw, Except.map]

end Token.Lawful

/-- A group that is a token is the text of a lawful one. -/
theorem lawful_of_ofGroup {group : Text} {t : Token} (hgroup : IsGroup group)
    (h : Token.ofGroup group = .ok t) : t.Lawful ∧ group = t.text := by
  unfold Token.ofGroup at h
  split at h
  · cases h
  next field operator rest hsplit =>
  split at h
  · cases h
  next hne =>
  split at h
  · cases h
  next hchars =>
  obtain ⟨⟨raw, quoted⟩, hraw, rfl⟩ := map_eq_ok.1 h
  obtain rfl := eq_append_of_splitOperator? hsplit
  obtain ⟨hnoquote, hquoted, hbare⟩ := eq_of_rawValue hraw
  have hfield : ∀ c ∈ field, Operator.isSymbolChar c = false ∧ c ≠ '"' := by
    intro c hc
    have := List.any_eq_false.1 (Bool.not_eq_true _ ▸ hchars) c hc
    simpa using this
  have hmem : '"' ∉ field := fun hc => (hfield _ hc).2 rfl
  -- outside quotes a group has no blank character: none in the field, none in a bare value
  have hbroken := hgroup.unbroken
  rw [List.append_assoc, unbroken_append, quotedAfter_of_not_mem hmem,
    unbroken_of_not_mem hmem, unbroken_append, quotedAfter_of_not_mem operator.symbol_plain.1]
    at hbroken
  have hlawful : Token.Lawful ⟨field, operator, raw, quoted⟩ := by
    refine ⟨⟨by simpa using hne, fun c hc => ?_, fun _ => hnoquote, fun hq => (hbare hq).1,
      fun hq c hc => ?_⟩, fun hq => ?_⟩
    · exact ⟨hbroken.1 rfl c hc, (hfield c hc).2, isSymbolChar_eq_false_iff.1 (hfield c hc).1⟩
    · obtain rfl := (hbare hq).2
      exact ⟨(unbroken_of_not_mem hnoquote).1 hbroken.2.2 rfl c hc,
        ne_of_mem_of_not_mem hc hnoquote⟩
    · obtain rfl := (hbare hq).2
      exact endsAt_of_splitOperator? hsplit
  refine ⟨hlawful, ?_⟩
  cases quoted with
  | false => rw [(hbare rfl).2]; rfl
  | true => rw [hquoted rfl]; rfl

/-- Groups are read to the lawful tokens that they are the texts of. -/
theorem mapM_ofGroup_eq_ok_iff {groups : List Text} {tokens : List Token}
    (hg : ∀ g ∈ groups, IsGroup g) :
    groups.mapM (fun group => (Token.ofGroup group).mapError (Error.malformed group)) = .ok tokens
      ↔ (∀ t ∈ tokens, t.Lawful) ∧ groups = tokens.map Token.text := by
  rw [mapM_eq_ok_iff]
  induction groups generalizing tokens with
  | nil => cases tokens <;> simp
  | cons g groups ih =>
    obtain ⟨hgroup, hgroups⟩ := List.forall_mem_cons.1 hg
    cases tokens with
    | nil => simp
    | cons t tokens =>
      have hone : Token.ofGroup g = .ok t ↔ t.Lawful ∧ g = t.text :=
        ⟨lawful_of_ofGroup hgroup, fun ⟨hlawful, e⟩ => e ▸ hlawful.ofGroup_text⟩
      rw [List.map_cons, List.map_cons, List.cons.injEq, mapError_eq_ok, hone,
        ih (fun x hx => hgroups x hx), List.forall_mem_cons, List.map_cons, List.cons.injEq,
        and_and_and_comm]

/-- The tokens of a query are the lawful ones whose texts it is, with blank text around them and
between any two. -/
theorem tokenize_eq_ok_iff {query : Text} {tokens : List Token} :
    tokenize query = .ok tokens
      ↔ (∀ t ∈ tokens, t.Lawful) ∧ Spaced (tokens.map Token.text) query := by
  rw [tokenize, bind_eq_ok]
  constructor
  · rintro ⟨groups, hs, hmap⟩
    obtain ⟨hspaced, hgroups⟩ := splitGroups_eq_ok_iff.1 hs
    obtain ⟨hlawful, rfl⟩ := (mapM_ofGroup_eq_ok_iff hgroups).1 hmap
    exact ⟨hlawful, hspaced⟩
  · rintro ⟨hlawful, hspaced⟩
    have hgroups : ∀ g ∈ tokens.map Token.text, IsGroup g :=
      List.forall_mem_map.2 fun t ht => (hlawful t ht).toWhole.isGroup_text
    exact ⟨_, splitGroups_eq_ok_iff.2 ⟨hspaced, hgroups⟩,
      (mapM_ofGroup_eq_ok_iff hgroups).2 ⟨hlawful, rfl⟩⟩

/-! ### Compiling -/

/-- Only a blank query has no tokens. -/
theorem tokenize_eq_nil_iff {query : Text} : tokenize query = .ok [] ↔ Blank query := by
  rw [tokenize_eq_ok_iff]
  constructor
  · rintro ⟨-, lead, gaps, -, hlead, -, -, rfl⟩
    simpa using hlead
  · exact fun h => ⟨by simp, .nil h⟩

/-- What is wrong with a group is not that it is blank. -/
theorem tokenize_ne_blank (query : Text) : tokenize query ≠ .error .blank := by
  intro h
  rw [tokenize, bind_eq_error] at h
  rcases h with h | ⟨groups, -, h⟩
  · rcases splitGroups_cases query with ⟨-, _, he, -⟩ | ⟨_, -, he⟩
    · simp [he] at h
    · simp [he] at h
  · obtain ⟨_, g, _, -, -, hg⟩ := mapM_eq_error_iff.1 h
    obtain ⟨_, -, he⟩ := mapError_eq_error.1 hg
    cases he

theorem ofList?_eq_some_iff {ps : List Predicate} {e : Expression} :
    Expression.ofList? ps = some e ↔ e.predicates = ps := by
  unfold Expression.ofList?
  split
  · next h =>
    rw [Option.some.injEq]
    exact ⟨fun he => he ▸ rfl, fun he => by cases e; cases he; rfl⟩
  · next h =>
    have hnil : ps = [] := Decidable.of_not_not h
    simp [hnil, e.nonempty]

theorem isEmpty_trim_iff {s : Text} : s.trim.isEmpty = true ↔ Blank s := by
  rw [List.isEmpty_iff, Text.trim_eq_nil_iff]
  rfl

/-- The tokens of a query make up its expression. -/
theorem compile_eq_ok_iff {query : Text} {e : Expression} :
    compile query = .ok e
      ↔ ∃ tokens, tokenize query = .ok tokens ∧ e.predicates = tokens.map Predicate.ofToken := by
  unfold compile
  split
  · next hblank =>
    have hnil := tokenize_eq_nil_iff.2 (isEmpty_trim_iff.1 hblank)
    simp only [reduceCtorEq, hnil, Except.ok.injEq, false_iff, not_exists, not_and]
    rintro tokens rfl he
    exact e.nonempty he
  · rw [bind_eq_ok]
    refine exists_congr fun tokens => and_congr_right fun _ => ?_
    rw [← ofList?_eq_some_iff]
    split <;> simp_all

/-- A query is refused as blank exactly when it is. -/
theorem compile_eq_blank_iff {query : Text} : compile query = .error .blank ↔ Blank query := by
  rw [← isEmpty_trim_iff]
  unfold compile
  split
  · next hblank => simp [hblank]
  · next hblank =>
    refine iff_of_false (fun h => ?_) hblank
    rcases bind_eq_error.1 h with h | ⟨tokens, htokens, h⟩
    · exact tokenize_ne_blank query h
    · split at h
      · cases h
      · next hnone =>
        have hnil : tokens = [] := by simpa [Expression.ofList?] using hnone
        rw [hnil, tokenize_eq_nil_iff] at htokens
        exact hblank (isEmpty_trim_iff.2 htokens)

/-- **The grammar of queries.**  A query is split into the given tokens exactly when they are
lawful and it is their texts with blank text around them and between any two; and it is refused
as blank exactly when it is. -/
theorem query_grammar (query : Text) (tokens : List Token) :
    (tokenize query = .ok tokens
      ↔ (∀ t ∈ tokens, t.Lawful) ∧ Spaced (tokens.map Token.text) query)
    ∧ (compile query = .error .blank ↔ Blank query) :=
  ⟨tokenize_eq_ok_iff, compile_eq_blank_iff⟩

end DocSearch.Query
