import DocSearch.Proofs.Query.Grammar
import DocSearch.Query.Match

/-!
# Query — one query behind another

Two queries with blank text between them are one query, of the predicates of both.

* A query that is accepted leaves the splitter outside quotes, so a blank character behind it ends
  its last group, and what follows is split as if it stood alone (`splitFrom_append`).
* So the second query is compiled as it is alone, to the same predicates or to the same error, and
  the predicates of the first stand in front of its own (`compile_append_ok`,
  `compile_append_error`).
* A document matches both expressions at once when it matches the one and the other, so selecting
  by their conjunction is selecting twice, in either order (`Expression.select_and`,
  `Expression.select_comm`).
-/

namespace DocSearch.Query

/-! ### Groups and tokens of the two parts -/

/-- **Behind an accepted text and a blank character, a text is split as it is alone.**  A quote is
open only within a group that has been started. -/
theorem splitFrom_append {quoted : Bool} {started s t : Text} {b : Char} {groups : List Text}
    (hopen : quoted = true → started ≠ []) (hb : isBlank b = true)
    (h : splitFrom quoted started s = .ok groups) :
    splitFrom quoted started (s ++ b :: t) = (splitFrom false [] t).map (groups ++ ·) := by
  induction s generalizing quoted started groups with
  | nil =>
    rw [splitFrom] at h
    split at h
    · next he =>
      obtain rfl : started = [] := by simpa using he
      cases h
      have hq : quoted = false := by simpa using hopen
      rw [List.nil_append, splitFrom_cons_blank hb hq, if_pos he]
      cases splitFrom false [] t <;> rfl
    · next he =>
      split at h
      · cases h
      · next hq =>
        cases h
        rw [List.nil_append, splitFrom_cons_blank hb (by simpa using hq), if_neg he]
        rfl
  | cons c s ih =>
    by_cases hsplit : isBlank c = true ∧ quoted = false
    · obtain ⟨hc, hq⟩ := hsplit
      rw [splitFrom_cons_blank hc hq] at h
      rw [List.cons_append, splitFrom_cons_blank hc hq]
      split at h
      · next he =>
        rw [if_pos he]
        exact ih (by simp) h
      · next he =>
        obtain ⟨rest, hrest, rfl⟩ := map_eq_ok.1 h
        rw [if_neg he, ih (by simp) hrest]
        cases splitFrom false [] t <;> rfl
    · -- the character goes to the group that has been started, quote or not
      have hone : Unbroken quoted [c] := ⟨fun hc => by simpa [hc] using hsplit, trivial⟩
      have hstep := splitFrom_unbroken hone started
      rw [← List.singleton_append, hstep] at h
      rw [← List.singleton_append, List.append_assoc, hstep]
      exact ih (fun _ => by simp) h

variable {a b w : Text}

theorem splitGroups_append {groups : List Text} (h : splitGroups a = .ok groups) (hw : Blank w)
    (hne : w ≠ []) : splitGroups (a ++ w ++ b) = (splitGroups b).map (groups ++ ·) := by
  obtain ⟨c, w, rfl⟩ := List.exists_cons_of_ne_nil hne
  obtain ⟨hc, hw⟩ := List.forall_mem_cons.1 hw
  rw [splitGroups, List.append_assoc, List.cons_append, splitFrom_append (by simp) hc h,
    splitFrom_blank hw, splitGroups]

theorem tokenize_append {tokens : List Token} (h : tokenize a = .ok tokens) (hw : Blank w)
    (hne : w ≠ []) : tokenize (a ++ w ++ b) = (tokenize b).map (tokens ++ ·) := by
  obtain ⟨groups, hgroups, htokens⟩ := bind_eq_ok.1 h
  rw [tokenize, splitGroups_append hgroups hw hne, tokenize]
  cases splitGroups b with
  | error e => rfl
  | ok groups' =>
    show List.mapM _ (groups ++ groups') = Except.map _ (List.mapM _ groups')
    rw [List.mapM_append, htokens]
    rfl

/-! ### Compiling the two parts -/

/-- Both expressions at once. -/
def Expression.and (e f : Expression) : Expression where
  predicates := e.predicates ++ f.predicates
  nonempty := by simp [e.nonempty]

/-- What is wrong with a query that is not blank is wrong with its tokens. -/
theorem compile_eq_error_iff {query : Text} {error : Error} (h : ¬ Blank query) :
    compile query = .error error ↔ tokenize query = .error error := by
  rw [compile, if_neg (mt isEmpty_trim_iff.1 h), bind_eq_error]
  refine or_iff_left ?_
  rintro ⟨tokens, htokens, he⟩
  split at he
  · cases he
  · next hnone =>
    have hnil : tokens = [] := by simpa [Expression.ofList?] using hnone
    rw [hnil, tokenize_eq_nil_iff] at htokens
    exact h htokens

theorem compile_append_ok {e f : Expression} (ha : compile a = .ok e) (hw : Blank w)
    (hne : w ≠ []) (hb : compile b = .ok f) : compile (a ++ w ++ b) = .ok (e.and f) := by
  obtain ⟨tokens, htokens, he⟩ := compile_eq_ok_iff.1 ha
  obtain ⟨tokens', htokens', hf⟩ := compile_eq_ok_iff.1 hb
  refine compile_eq_ok_iff.2 ⟨tokens ++ tokens', ?_, ?_⟩
  · rw [tokenize_append htokens hw hne, htokens']
    rfl
  · rw [List.map_append, ← he, ← hf]
    rfl

theorem compile_append_error {e : Expression} {error : Error} (ha : compile a = .ok e)
    (hw : Blank w) (hne : w ≠ []) (hblank : ¬ Blank b) (hb : compile b = .error error) :
    compile (a ++ w ++ b) = .error error := by
  obtain ⟨tokens, htokens, -⟩ := compile_eq_ok_iff.1 ha
  have hboth : ¬ Blank (a ++ w ++ b) :=
    fun h => hblank fun c hc => h c (List.mem_append_right _ hc)
  rw [compile_eq_error_iff hboth, tokenize_append htokens hw hne,
    (compile_eq_error_iff hblank).1 hb]
  rfl

/-! ### Matching both -/

namespace Expression

theorem matches_and (e f : Expression) (document : Json) :
    (e.and f).matches document = (e.matches document && f.matches document) :=
  List.all_append

/-- Selecting by both at once is selecting by the one and then by the other. -/
theorem select_and (e f : Expression) (documents : List Json) :
    (e.and f).select documents = f.select (e.select documents) := by
  rw [select, select, select, List.filter_filter]
  refine List.filter_congr fun document _ => ?_
  rw [matches_and, Bool.and_comm]

theorem select_comm (e f : Expression) (documents : List Json) :
    f.select (e.select documents) = e.select (f.select documents) := by
  rw [← select_and, ← select_and]
  refine List.filter_congr fun document _ => ?_
  rw [matches_and, matches_and, Bool.and_comm]

end Expression

/-- **A query behind another is their conjunction.**  If the first compiles, the two with blank text
between them compile to the predicates of the first and then those of the second, or fail as the
second alone does.  The documents that they select are those that the one selects among those of
the other, whichever stands in front. -/
theorem compile_conjunction {e : Expression} (ha : compile a = .ok e) (hw : Blank w) (hne : w ≠ [])
    (hblank : ¬ Blank b) :
    (∀ error, compile b = .error error → compile (a ++ w ++ b) = .error error)
    ∧ ∀ f, compile b = .ok f →
      ∃ both, compile (a ++ w ++ b) = .ok both ∧ both.predicates = e.predicates ++ f.predicates
        ∧ ∃ turned, compile (b ++ w ++ a) = .ok turned
          ∧ ∀ documents, both.select documents = f.select (e.select documents)
            ∧ both.select documents = e.select (f.select documents)
            ∧ both.select documents = turned.select documents := by
  refine ⟨fun error hb => compile_append_error ha hw hne hblank hb, fun f hb => ?_⟩
  refine ⟨e.and f, compile_append_ok ha hw hne hb, rfl, f.and e, compile_append_ok hb hw hne ha, ?_⟩
  intro documents
  have hboth := e.select_and f documents
  have hturned := f.select_and e documents
  have hcomm := e.select_comm f documents
  exact ⟨hboth, hboth.trans hcomm, (hboth.trans hcomm).trans hturned.symm⟩

/-- An open quote in the second query is found behind quotes in the first; and two queries on one
field. -/
theorem compile_conjunction_quoted :
    compile "a:\"x y\" \t b:\"z".toList = .error (.malformed "b:\"z".toList .unterminatedQuote)
    ∧ ∃ both, compile "a>\"x y\" a!:z".toList = .ok both ∧ both.predicates.length = 2 := by
  have ha : compile "a:\"x y\"".toList
      = .ok ⟨[⟨['a'], .equals, .text ['x', ' ', 'y']⟩], List.cons_ne_nil _ _⟩ := rfl
  have ha' : compile "a>\"x y\"".toList
      = .ok ⟨[⟨['a'], .greaterThan, .text ['x', ' ', 'y']⟩], List.cons_ne_nil _ _⟩ := rfl
  have hb' : compile "a!:z".toList
      = .ok ⟨[⟨['a'], .notEquals, .text ['z']⟩], List.cons_ne_nil _ _⟩ := rfl
  constructor
  · exact (compile_conjunction ha (w := " \t ".toList) (b := "b:\"z".toList)
      (by decide) (by decide) (by decide)).1 _ rfl
  · obtain ⟨both, hboth, hlist, -⟩ := (compile_conjunction ha' (w := " ".toList)
      (b := "a!:z".toList) (by decide) (by decide) (by decide)).2 _ hb'
    exact ⟨both, hboth, by rw [hlist]; rfl⟩

end DocSearch.Query
