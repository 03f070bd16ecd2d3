import DocSearch.Proofs.Number.Plain
import DocSearch.Proofs.Query.Grammar
import Mathlib.Data.List.Forall2

/-!
# Query — writing an expression and compiling it again

A predicate is written as a token: its field, its operator and the text of its value, which
stands between quotes when it would else be split or read as a number (`Predicate.token`).

* The predicates that queries give have such a token, up to one condition, and it is read as the
  predicate it was made of (`Predicate.Writable`, `writable_of_compile`,
  `Predicate.Writable.ofToken_token`).  For the numbers among the values this says that their
  texts are read back, and so rests on the shortest decimals of doubles
  (`Binary64.nearest?_shortest`).
* The condition is that a bare text does not go on with the operator.  Nothing asks for quotes
  around a text that begins with `=`; behind `>` or `<` it makes the operator a longer one
  (`Predicate.RunsOn`).

So the expression of a query is written as a query for itself exactly when none of its predicates
runs on (`recompiles_iff`), and any other expression exactly when besides all of them can be written
(`compile_plain_iff`).
-/

namespace DocSearch.Query

/-! ### Values -/

/-- The characters of numerals neither end a group nor go on with an operator. -/
theorem numeral_char {c : Char} (h : c.isDigit = true ∨ c = '.' ∨ c = '-' ∨ c = '+') :
    isBlank c = false ∧ c ≠ '"' ∧ c ≠ '=' := by
  rcases h with h | rfl | rfl | rfl
  · have hrange : 48 ≤ c.toNat ∧ c.toNat ≤ 57 := Char.isDigit_iff_toNat.1 h
    refine ⟨?_, ?_, ?_⟩
    · simp only [isBlank, Bool.or_eq_false_iff, Bool.and_eq_false_iff, decide_eq_false_iff_not,
        beq_eq_false_iff_ne]
      omega
    · rintro rfl
      exact absurd hrange (by decide)
    · rintro rfl
      exact absurd hrange (by decide)
  all_goals decide

theorem char_of_isNumeral {s : Text} (h : Value.isNumeral s = true) :
    s ≠ [] ∧ ∀ c ∈ s, isBlank c = false ∧ c ≠ '"' ∧ c ≠ '=' := by
  obtain ⟨n, hn⟩ := Option.isSome_iff_exists.1 h
  obtain ⟨hne, hchar⟩ := Numeral.char_of_ofPlain? hn
  exact ⟨hne, fun c hc => numeral_char (hchar c hc)⟩

namespace Value

/-- A value without its quotes. -/
def raw : Value → Text
  | .number n => n.plain
  | .text s => s

/-- Whether a value is written between quotes. -/
def quoted : Value → Bool
  | .number _ => false
  | .text s => needsQuotes s

/-- The integers that queries have. -/
def Signed (value : Value) : Prop :=
  ∀ i, value = .number (.int i) → i.value < 0x8000000000000000

theorem isNumeral_plain (n : Number) : isNumeral n.plain = true := by
  obtain ⟨m, hm⟩ := n.exists_ofPlain?
  simp [isNumeral, hm]

theorem lt_of_signed64? {n : Int} {i : Integer64} (h : signed64? n = some i) :
    i.value < 0x8000000000000000 := by
  unfold signed64? Integer64.ofInt? at h
  split at h
  · next hlt =>
    split at h
    · cases h
      exact hlt
    · cases h
  · cases h

theorem signed_of_numberOf? {m : Numeral} {n : Number} (h : numberOf? m = some n) :
    (Value.number n).Signed := by
  rintro i hi
  obtain rfl : n = .int i := by simpa using hi
  unfold numberOf? at h
  split at h
  · next hvalue =>
    cases h
    split at hvalue
    · exact lt_of_signed64? hvalue
    · cases hvalue
  · simp at h

/-- A classified text is the raw one, and a classified integer fits 64 bits with a sign. -/
theorem classify_spec (raw : Text) (quoted : Bool) :
    (∀ s, classify raw quoted = .text s → s = raw) ∧ (classify raw quoted).Signed := by
  unfold classify
  split
  · next n hn =>
    refine ⟨by simp, ?_⟩
    cases quoted with
    | true => cases hn
    | false =>
      obtain ⟨m, -, hm⟩ := Option.bind_eq_some_iff.1 (show _ = some n from hn)
      exact signed_of_numberOf? hm
  · exact ⟨fun s hs => by simpa using hs.symm, fun i hi => by cases hi⟩

/-- A number is read back from its plain text. -/
theorem classify_plain {n : Number} (h : (Value.number n).Signed) :
    classify n.plain false = .number n := by
  cases n with
  | int i =>
    obtain ⟨m, hm, hwhole, hvalue⟩ := i.ofPlain?_text
    have hsigned : signed64? i.value = some i := by
      have := i.inRange
      simp [signed64?, h i rfl, Integer64.ofInt?, this]
    simp [classify, Number.plain, hm, numberOf?, hwhole, hvalue, hsigned]
  | float x =>
    obtain ⟨m, hm, hpoint, hvalue⟩ := (x.shortest .away).ofPlain?_positional
    simp [classify, Number.plain, hm, numberOf?, hpoint, hvalue, Binary64.nearest?_shortest]

theorem classify_raw {value : Value} (h : value.Signed) :
    classify value.raw value.quoted = value := by
  cases value with
  | number n => exact classify_plain h
  | text s =>
    show classify s (needsQuotes s) = .text s
    cases hq : needsQuotes s with
    | true => rfl
    | false =>
      have hnone : Numeral.ofPlain? s = none := by
        simp only [needsQuotes, Bool.or_eq_false_iff, isNumeral] at hq
        simpa using hq.2
      simp [classify, hnone]

/-- A bare value is a numeral, or a text that could not be mistaken for one. -/
theorem raw_bare {value : Value} (h : value.quoted = false) :
    value.raw ≠ [] ∧ ∀ c ∈ value.raw, isBlank c = false := by
  cases value with
  | number n =>
    obtain ⟨hne, hchar⟩ := char_of_isNumeral (isNumeral_plain n)
    exact ⟨hne, fun c hc => (hchar c hc).1⟩
  | text s =>
    simp only [quoted, needsQuotes, Bool.or_eq_false_iff, List.isEmpty_eq_false_iff,
      List.any_eq_false, Bool.not_eq_true] at h
    exact h.1

/-- No numeral begins with `=`. -/
theorem isNumeral_eq_false {s : Text} (h : s.head? = some '=') : isNumeral s = false := by
  rw [← Bool.not_eq_true]
  intro hs
  exact ((char_of_isNumeral hs).2 _ (List.mem_of_mem_head? h)).2.2 rfl

theorem needsQuotes_eq_false {s : Text} (hblank : ∀ c ∈ s, isBlank c = false)
    (hhead : s.head? = some '=') : needsQuotes s = false := by
  have hne : s.isEmpty = false := by
    cases s with
    | nil => cases hhead
    | cons c s => rfl
  simp only [needsQuotes, hne, isNumeral_eq_false hhead, Bool.or_false, Bool.false_or]
  simpa using hblank

end Value

/-! ### Predicates -/

namespace Predicate

variable {p : Predicate}

/-- The token that a predicate is written as. -/
def token (p : Predicate) : Token :=
  ⟨p.field, p.operator, p.value.raw, p.value.quoted⟩

/-- A text that is written bare, and goes on with the operator in front of it. -/
def RunsOn (p : Predicate) : Prop :=
  (p.operator = .greaterThan ∨ p.operator = .lessThan)
  ∧ ∃ s, p.value = .text s ∧ (∀ c ∈ s, isBlank c = false) ∧ s.head? = some '='

/-- A predicate whose parts can be written: the field has neither blank characters, quotes nor
characters of symbols, a text has no quote, and an integer fits 64 bits with a sign. -/
structure Writable (p : Predicate) : Prop where
  field_nonempty : p.field ≠ []
  field_char : ∀ c ∈ p.field, isBlank c = false ∧ c ≠ '"' ∧ c ∉ [':', '!', '>', '<', '=']
  text_unquoted : ∀ s, p.value = .text s → '"' ∉ s
  signed : p.value.Signed

theorem text_token (p : Predicate) : p.token.text = p.plain := by
  obtain ⟨field, operator, value⟩ := p
  cases value with
  | number n => rfl
  | text s => rfl

/-- A predicate runs on exactly when it is written bare and its operator is not read as it is. -/
theorem runsOn_iff : p.RunsOn ↔ p.token.quoted = false ∧ ¬ p.operator.EndsAt p.token.raw := by
  obtain ⟨field, operator, value⟩ := p
  simp only [RunsOn, Operator.EndsAt, token, Classical.not_imp, not_not]
  constructor
  · rintro ⟨hop, s, rfl, hblank, hhead⟩
    exact ⟨Value.needsQuotes_eq_false hblank hhead, hop, hhead⟩
  · rintro ⟨hquoted, hop, hhead⟩
    refine ⟨hop, ?_⟩
    cases value with
    | number n =>
      have hnone : Value.isNumeral n.plain = false := Value.isNumeral_eq_false hhead
      rw [Value.isNumeral_plain] at hnone
      cases hnone
    | text s => exact ⟨s, rfl, (Value.raw_bare hquoted).2, hhead⟩

/-- The token of a predicate is whole if its field is a name and its text has no quote. -/
theorem whole_token (hne : p.field ≠ [])
    (hfield : ∀ c ∈ p.field, isBlank c = false ∧ c ≠ '"' ∧ c ∉ [':', '!', '>', '<', '='])
    (htext : ∀ s, p.value = .text s → '"' ∉ s) : p.token.Whole := by
  have hraw : '"' ∉ p.value.raw := by
    intro hmem
    cases hv : p.value with
    | number n =>
      rw [hv] at hmem
      exact ((char_of_isNumeral (Value.isNumeral_plain n)).2 _ hmem).2.1 rfl
    | text s =>
      rw [hv] at hmem
      exact htext s hv hmem
  exact ⟨hne, hfield, fun _ => hraw, fun hq => (Value.raw_bare hq).1,
    fun hq c hc => ⟨(Value.raw_bare hq).2 c hc, ne_of_mem_of_not_mem hc hraw⟩⟩

theorem lawful_token (h : p.token.Whole) (hrun : ¬ p.RunsOn) : p.token.Lawful :=
  ⟨h, fun hq => not_not.1 fun hend => hrun (runsOn_iff.2 ⟨hq, hend⟩)⟩

namespace Writable

theorem whole_token (h : p.Writable) : p.token.Whole :=
  Predicate.whole_token h.field_nonempty h.field_char h.text_unquoted

/-- Of a predicate that runs on another operator is read. -/
theorem splitOperator?_plain (h : p.Writable) (hrun : p.RunsOn) :
    ∃ operator rest, splitOperator? p.plain = some (p.field, operator, rest)
      ∧ operator ≠ p.operator := by
  obtain ⟨hop, s, hvalue, hblank, hhead⟩ := hrun
  obtain ⟨rest, rfl⟩ : ∃ rest, s = '=' :: rest := by
    cases s with
    | nil => cases hhead
    | cons c s => exact ⟨s, by simpa using hhead⟩
  have hplain : p.value.plain = '=' :: rest := by
    rw [hvalue]
    exact if_neg (Bool.not_eq_true _ ▸ Value.needsQuotes_eq_false hblank hhead)
  obtain ⟨longer, hsymbol, hne, hends⟩ := Operator.exists_longer hop
  have hlonger : p.plain = p.field ++ longer.symbol ++ rest := by
    simp [Predicate.plain, hplain, hsymbol]
  refine ⟨longer, rest, ?_, hne⟩
  rw [hlonger]
  exact splitOperator?_append h.whole_token.isSymbolChar_field (hends rest)

theorem ofToken_token (h : p.Writable) : ofToken p.token = p := by
  obtain ⟨field, operator, value⟩ := p
  exact congrArg (Predicate.mk field operator) (Value.classify_raw h.signed)

end Writable

end Predicate

/-- The predicates of lawful tokens can be written. -/
theorem Token.Lawful.writable_ofToken {t : Token} (h : t.Lawful) :
    (Predicate.ofToken t).Writable := by
  obtain ⟨htext, hsigned⟩ := Value.classify_spec t.raw t.quoted
  refine ⟨h.field_nonempty, h.field_char, fun s hs => ?_, hsigned⟩
  rw [htext s hs]
  exact h.toWhole.not_mem_raw

/-! ### Expressions -/

theorem spaced_intercalate {groups : List Text} (hne : groups ≠ []) :
    Spaced groups (List.intercalate [' '] groups) := by
  induction groups with
  | nil => exact absurd rfl hne
  | cons g groups ih =>
    cases groups with
    | nil => simpa [List.intercalate] using Spaced.single g
    | cons g' groups =>
      have hs : List.intercalate [' '] (g :: g' :: groups)
          = g ++ ' ' :: List.intercalate [' '] (g' :: groups) := by
        simp [List.intercalate]
      rw [hs]
      exact .cons (by decide) (ih (List.cons_ne_nil _ _))

namespace Expression

variable {e f : Expression}

theorem same_iff :
    e.same f = true ↔ List.Forall₂ (fun p q => p.same q = true) e.predicates f.predicates := by
  simp [same, List.forall₂_iff_zip]

theorem same_self (e : Expression) : e.same e = true := by
  have hvalue : ∀ value : Value, value.same value = true := by
    intro value
    cases value with
    | number n => cases n <;> simp [Value.same, Number.same]
    | text s => simp [Value.same]
  rw [same_iff, List.forall₂_same]
  intro p _
  simp [Predicate.same, hvalue]

theorem operators_of_same (h : e.same f = true) :
    e.predicates.map Predicate.operator = f.predicates.map Predicate.operator := by
  rw [same_iff] at h
  generalize e.predicates = ps, f.predicates = qs at h ⊢
  induction h with
  | nil => rfl
  | cons hp _ ih =>
    simp only [Predicate.same, Bool.and_eq_true, decide_eq_true_eq] at hp
    rw [List.map_cons, List.map_cons, hp.1.2, ih]

/-- The groups of an expression's text are the texts of its predicates, whether they run on or
not. -/
theorem splitGroups_plain (h : ∀ p ∈ e.predicates, p.Writable) :
    splitGroups e.plain = .ok (e.predicates.map Predicate.plain) := by
  refine splitGroups_eq_ok_iff.2 ⟨spaced_intercalate (by simp [e.nonempty]), ?_⟩
  rw [List.forall_mem_map]
  intro p hp
  rw [← p.text_token]
  exact (h p hp).whole_token.isGroup_text

theorem compile_plain (h : ∀ p ∈ e.predicates, p.Writable)
    (hrun : ∀ p ∈ e.predicates, ¬ p.RunsOn) : compile e.plain = .ok e := by
  refine compile_eq_ok_iff.2 ⟨e.predicates.map Predicate.token, tokenize_eq_ok_iff.2 ⟨?_, ?_⟩, ?_⟩
  · rw [List.forall_mem_map]
    exact fun p hp => Predicate.lawful_token (h p hp).whole_token (hrun p hp)
  · rw [List.map_map, show Token.text ∘ Predicate.token = Predicate.plain from
      funext Predicate.text_token]
    exact (splitGroups_eq_ok_iff.1 (splitGroups_plain h)).1
  · rw [List.map_map]
    exact ((List.map_congr_left fun p hp => (h p hp).ofToken_token).trans (List.map_id _)).symm

/-- What is read of the text of an expression with a predicate that runs on is another expression:
the groups are the same, and that predicate's has another operator. -/
theorem same_eq_false (h : ∀ p ∈ e.predicates, p.Writable) {p : Predicate}
    (hp : p ∈ e.predicates) (hrun : p.RunsOn) (hf : compile e.plain = .ok f) :
    e.same f = false := by
  obtain ⟨tokens, htokens, hpredicates⟩ := compile_eq_ok_iff.1 hf
  obtain ⟨hlawful, hspaced⟩ := tokenize_eq_ok_iff.1 htokens
  have htexts : e.predicates.map Predicate.plain = tokens.map Token.text := by
    have hgroups : ∀ g ∈ tokens.map Token.text, IsGroup g :=
      List.forall_mem_map.2 fun t ht => (hlawful t ht).toWhole.isGroup_text
    simpa [splitGroups_plain h] using splitGroups_eq_ok_iff.2 ⟨hspaced, hgroups⟩
  rw [← Bool.not_eq_true]
  intro hsame
  have hoperators : e.predicates.map Predicate.operator = tokens.map Token.operator := by
    rw [operators_of_same hsame, hpredicates, List.map_map]
    rfl
  -- texts and operators agree one by one, so some token has the text and the operator of `p`
  have hpairs : e.predicates.map (fun p => (p.plain, p.operator))
      = tokens.map fun t => (t.text, t.operator) := by
    rw [← List.zip_map', htexts, hoperators, List.zip_map']
  have hmem : (p.plain, p.operator) ∈ tokens.map fun t => (t.text, t.operator) :=
    hpairs ▸ List.mem_map_of_mem hp
  obtain ⟨t, ht, htp⟩ := List.mem_map.1 hmem
  obtain ⟨htext, hoperator⟩ := Prod.mk.inj htp
  obtain ⟨operator, rest, hsplit, hne⟩ := (h p hp).splitOperator?_plain hrun
  have hsplit' := (hlawful t ht).splitOperator?_text
  rw [htext, hsplit] at hsplit'
  simp only [Option.some.injEq, Prod.mk.injEq] at hsplit'
  exact hne (hsplit'.2.1.trans hoperator)

end Expression

/-- The predicates of a compiled query can be written. -/
theorem writable_of_compile {query : Text} {e : Expression} (h : compile query = .ok e) :
    ∀ p ∈ e.predicates, p.Writable := by
  obtain ⟨tokens, htokens, hpredicates⟩ := compile_eq_ok_iff.1 h
  rw [hpredicates, List.forall_mem_map]
  exact fun t ht => ((tokenize_eq_ok_iff.1 htokens).1 t ht).writable_ofToken

/-- **When an expression is read back from its text.**  The expression of a query is written as a
query for the same expression exactly when none of its predicates runs on, and then even signs of
zeros are kept. -/
theorem recompiles_iff {query : Text} {e : Expression} (h : compile query = .ok e) :
    ((∃ f, compile e.plain = .ok f ∧ e.same f = true) ↔ ∀ p ∈ e.predicates, ¬ p.RunsOn)
    ∧ ((∀ p ∈ e.predicates, ¬ p.RunsOn) → compile e.plain = .ok e) := by
  have hwritable := writable_of_compile h
  have hback : (∀ p ∈ e.predicates, ¬ p.RunsOn) → compile e.plain = .ok e :=
    e.compile_plain hwritable
  refine ⟨⟨?_, fun hrun => ⟨e, hback hrun, e.same_self⟩⟩, hback⟩
  rintro ⟨f, hf, hsame⟩ p hp hrun
  rw [Expression.same_eq_false hwritable hp hrun hf] at hsame
  cases hsame

/-- A comparison with a text that begins with `=` is written as another one; a text with a blank
character, and a number with a point, are written as they are. -/
theorem recompiles_iff_quoted :
    (∃ e, compile "a>\"=b\"".toList = .ok e ∧ e.plain = "a>=b".toList
      ∧ ¬ ∃ f, compile e.plain = .ok f ∧ e.same f = true)
    ∧ ∃ e, compile "a>\"= b\" c<-0.50".toList = .ok e ∧ e.plain = "a>\"= b\" c<-0.5".toList
      ∧ compile e.plain = .ok e := by
  constructor
  · have h : compile "a>\"=b\"".toList
        = .ok ⟨[⟨['a'], .greaterThan, .text ['=', 'b']⟩], List.cons_ne_nil _ _⟩ := by decide
    refine ⟨_, h, by decide, fun hback => ?_⟩
    refine (recompiles_iff h).1.1 hback _ List.mem_cons_self ⟨.inl rfl, _, rfl, ?_, rfl⟩
    simp [isBlank]
  · have h : compile "a>\"= b\" c<-0.50".toList
        = .ok ⟨[⟨['a'], .greaterThan, .text ['=', ' ', 'b']⟩,
            ⟨['c'], .lessThan, .number (.float ⟨true, 0x3FE0000000000000, by decide⟩)⟩],
          List.cons_ne_nil _ _⟩ := by decide +kernel
    refine ⟨_, h, by decide +kernel, (recompiles_iff h).2 ?_⟩
    simp [Predicate.RunsOn, isBlank]

/-! ### Expressions of any predicates -/

/-- The same value has the same text, if it is one, and the same integer. -/
theorem Value.eq_of_same {v w : Value} (h : v.same w = true) :
    (∀ s, v = .text s → w = .text s)
    ∧ ∀ i, v = .number (.int i) → ∃ j, w = .number (.int j) ∧ i.value = j.value := by
  constructor
  · rintro s rfl
    cases w with
    | number n => cases h
    | text t => simpa [Value.same, eq_comm] using h
  · rintro i rfl
    cases w with
    | text t => cases h
    | number n =>
      cases n with
      | int j => exact ⟨j, rfl, by simpa [Value.same, Number.same] using h⟩
      | float x => cases h

/-- The same predicate as one that can be written can be written. -/
theorem Predicate.Writable.of_same {p q : Predicate} (h : p.same q = true) (hq : q.Writable) :
    p.Writable := by
  simp only [Predicate.same, Bool.and_eq_true, decide_eq_true_eq] at h
  obtain ⟨⟨hfield, -⟩, hvalue⟩ := h
  obtain ⟨htext, hint⟩ := Value.eq_of_same hvalue
  refine ⟨hfield ▸ hq.field_nonempty, hfield ▸ hq.field_char, ?_, ?_⟩
  · intro s hs
    exact hq.text_unquoted s (htext s hs)
  · intro i hi
    obtain ⟨j, hj, hij⟩ := hint i hi
    rw [hij]
    exact hq.signed j hj

/-- Only an expression that can be written is the same as a query's. -/
theorem Expression.writable_of_same {query : Text} {e f : Expression} (hf : compile query = .ok f)
    (hsame : e.same f = true) : ∀ p ∈ e.predicates, p.Writable := by
  intro p hp
  have hpairs := Expression.same_iff.1 hsame
  obtain ⟨i, hi, rfl⟩ := List.mem_iff_getElem.1 hp
  have hi' : i < f.predicates.length := hpairs.length_eq ▸ hi
  have hpq : (e.predicates[i]).same f.predicates[i] = true :=
    hpairs.get hi hi'
  exact .of_same hpq (writable_of_compile hf _ (List.getElem_mem hi'))

/-- **Which expressions are read back from their texts.**  Whatever predicates an expression has,
its text is a query for the same expression exactly when each of them can be written and none runs
on; and then the query's expression is the very one, even to the signs of zeros. -/
theorem compile_plain_iff (e : Expression) :
    ((∃ f, compile e.plain = .ok f ∧ e.same f = true)
      ↔ ∀ p ∈ e.predicates, p.Writable ∧ ¬ p.RunsOn)
    ∧ (compile e.plain = .ok e ↔ ∀ p ∈ e.predicates, p.Writable ∧ ¬ p.RunsOn) := by
  have hback : (∀ p ∈ e.predicates, p.Writable ∧ ¬ p.RunsOn) → compile e.plain = .ok e :=
    fun h => e.compile_plain (fun p hp => (h p hp).1) fun p hp => (h p hp).2
  have hforth : (∃ f, compile e.plain = .ok f ∧ e.same f = true) →
      ∀ p ∈ e.predicates, p.Writable ∧ ¬ p.RunsOn := by
    rintro ⟨f, hf, hsame⟩ p hp
    have hwritable := Expression.writable_of_same hf hsame
    refine ⟨hwritable p hp, fun hrun => ?_⟩
    rw [Expression.same_eq_false hwritable hp hrun hf] at hsame
    cases hsame
  exact ⟨⟨hforth, fun h => ⟨e, hback h, e.same_self⟩⟩, fun h => hforth ⟨e, h, e.same_self⟩, hback⟩

end DocSearch.Query
