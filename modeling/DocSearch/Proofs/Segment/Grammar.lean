import DocSearch.Segment.Basic

/-!
# Segments — the grammar of an array's text

The text between the brackets of an array is a list of items.  An item is an object, which is a
list of items between braces; a string literal, where quotes are heeded; or any other character.
A literal's body runs to the next quote of its kind that no backslash takes along.

`Parses mode items s` says that `s` reads as `items`.  The items are written as `s` again
(`Parses.textOf_eq`), and no text reads in two ways (`Parses.unique`).
-/

namespace DocSearch.Segment

/-- A part of the text between brackets or braces. -/
inductive Item where
  /-- a character that counts as itself -/
  | plain (c : Char)
  /-- a quote, a body and the same quote -/
  | literal (quote : Char) (body : Text)
  /-- items between braces -/
  | object (items : List Item)

mutual

/-- An item as it is written. -/
def Item.text : Item → Text
  | .plain c => [c]
  | .literal quote body => quote :: body ++ [quote]
  | .object items => '\x7b' :: textOf items ++ ['\x7d']

/-- Items as they are written, one after the other. -/
def textOf : List Item → Text
  | [] => []
  | item :: items => item.text ++ textOf items

end

/-- The texts of the objects among some items, not of those within them. -/
def outermost : List Item → List Text
  | [] => []
  | .object inner :: items => (Item.object inner).text :: outermost items
  | .plain _ :: items | .literal _ _ :: items => outermost items

/-- What stands between two quotes of a kind: a backslash takes the next character along. -/
inductive Literal.Body (quote : Char) : Text → Prop where
  | nil : Body quote []
  | escape {s : Text} (c : Char) : Body quote s → Body quote ('\\' :: c :: s)
  | other {c : Char} {s : Text} :
      c ≠ '\\' → c ≠ quote → Body quote s → Body quote (c :: s)

/-- A character that is neither a brace nor, where quotes are heeded, a quote. -/
def IsOrdinary (mode : Mode) (c : Char) : Prop :=
  c ≠ '\x7b' ∧ c ≠ '\x7d' ∧ (mode = .quoteAware → isQuote c = false)

instance (mode : Mode) (c : Char) : Decidable (IsOrdinary mode c) :=
  inferInstanceAs (Decidable (_ ∧ _ ∧ _))

/-- Only such characters. -/
def Ordinary (mode : Mode) (s : Text) : Prop :=
  ∀ c ∈ s, IsOrdinary mode c

instance (mode : Mode) (s : Text) : Decidable (Ordinary mode s) :=
  List.decidableBAll (IsOrdinary mode) s

namespace Ordinary

variable {mode : Mode} {s t : Text} {c : Char}

theorem nil (mode : Mode) : Ordinary mode [] :=
  fun _ h => nomatch h

theorem cons (hc : IsOrdinary mode c) (hs : Ordinary mode s) : Ordinary mode (c :: s) :=
  List.forall_mem_cons.2 ⟨hc, hs⟩

theorem append (hs : Ordinary mode s) (ht : Ordinary mode t) : Ordinary mode (s ++ t) :=
  List.forall_mem_append.2 ⟨hs, ht⟩

/-- A line feed is ordinary. -/
theorem feed (mode : Mode) : Ordinary mode ['\n'] := by
  cases mode <;> decide

end Ordinary

/-- A text reads as some items. -/
inductive Parses (mode : Mode) : List Item → Text → Prop where
  | nil : Parses mode [] []
  | plain {c : Char} {items : List Item} {s : Text} :
      IsOrdinary mode c → Parses mode items s → Parses mode (.plain c :: items) (c :: s)
  | literal {quote : Char} {body : Text} {items : List Item} {s : Text} :
      mode = .quoteAware → isQuote quote = true → Literal.Body quote body → Parses mode items s →
      Parses mode (.literal quote body :: items) (quote :: body ++ quote :: s)
  | object {inner items : List Item} {t s : Text} :
      Parses mode inner t → Parses mode items s →
      Parses mode (.object inner :: items) ('\x7b' :: t ++ '\x7d' :: s)

/-- A text that reads as items is what they are written as. -/
theorem Parses.textOf_eq {mode : Mode} {items : List Item} {s : Text} (h : Parses mode items s) :
    textOf items = s := by
  induction h with
  | nil => rfl
  | plain _ _ ih => simp [textOf, Item.text, ih]
  | literal _ _ _ _ ih => simp [textOf, Item.text, ih]
  | object _ _ ihInner ih => simp [textOf, Item.text, ihInner, ih]

theorem Parses.append {mode : Mode} {items items' : List Item} {s s' : Text}
    (h : Parses mode items s) (h' : Parses mode items' s') :
    Parses mode (items ++ items') (s ++ s') := by
  induction h with
  | nil => exact h'
  | plain hc _ ih => exact .plain hc ih
  | literal hm hq hb _ ih => simpa using Parses.literal hm hq hb ih
  | object hi _ _ ih => simpa using Parses.object hi ih

theorem outermost_append (items items' : List Item) :
    outermost (items ++ items') = outermost items ++ outermost items' := by
  induction items with
  | nil => rfl
  | cons item items ih => cases item <;> simp [outermost, ih]

/-- Ordinary characters read as items that hold no object. -/
theorem exists_parses_ordinary {mode : Mode} {w : Text} (h : Ordinary mode w) :
    ∃ items, Parses mode items w ∧ outermost items = [] := by
  induction w with
  | nil => exact ⟨[], .nil, rfl⟩
  | cons c w ih =>
    obtain ⟨hc, hw⟩ := List.forall_mem_cons.1 h
    obtain ⟨items, hitems, hnone⟩ := ih hw
    exact ⟨.plain c :: items, .plain hc hitems, hnone⟩

/-- A quote is neither a brace nor a backslash. -/
theorem isQuote_ne {quote : Char} (h : isQuote quote = true) :
    quote ≠ '\x7b' ∧ quote ≠ '\x7d' ∧ quote ≠ '\\' := by
  refine ⟨?_, ?_, ?_⟩ <;> rintro rfl <;> simp [isQuote] at h

/-! ### A text reads in one way -/

/-- A literal ends at the first quote that no backslash takes along. -/
theorem Literal.Body.unique {quote : Char} (hquote : quote ≠ '\\') {b b' r r' : Text}
    (h : Body quote b) (h' : Body quote b') (e : b ++ quote :: r = b' ++ quote :: r') :
    b = b' ∧ r = r' := by
  induction h generalizing b' with
  | nil =>
    cases h' with
    | nil => exact ⟨rfl, (List.cons.inj e).2⟩
    | escape _ _ => exact absurd (List.cons.inj e).1 hquote
    | other _ hc _ => exact absurd (List.cons.inj e).1.symm hc
  | escape c _ ih =>
    cases h' with
    | nil => exact absurd (List.cons.inj e).1.symm hquote
    | escape c' h' =>
      simp only [List.cons_append, List.cons.injEq, true_and] at e
      obtain ⟨rfl, e⟩ := e
      obtain ⟨rfl, rfl⟩ := ih h' e
      exact ⟨rfl, rfl⟩
    | other hc _ _ => exact absurd (List.cons.inj e).1.symm hc
  | other hc hq _ ih =>
    cases h' with
    | nil => exact absurd (List.cons.inj e).1 hq
    | escape _ _ => exact absurd (List.cons.inj e).1 hc
    | other _ _ h' =>
      simp only [List.cons_append, List.cons.injEq] at e
      obtain ⟨rfl, e⟩ := e
      obtain ⟨rfl, rfl⟩ := ih h' e
      exact ⟨rfl, rfl⟩

/-- What may follow a list of items: nothing, or the brace that closes the object around it. -/
def Stops (r : Text) : Prop :=
  r = [] ∨ ∃ r', r = '\x7d' :: r'

theorem Stops.ne_cons {r s : Text} {c : Char} (h : Stops r) (hc : c ≠ '\x7d') : r ≠ c :: s := by
  rintro rfl
  rcases h with h | ⟨_, h⟩
  · cases h
  · exact hc (List.cons.inj h).1

/-- Two readings of texts that agree up to where both stop are the same.  An item's first
character says which kind of item it is, so the readings go in step. -/
theorem Parses.unique_append {mode : Mode} {items items' : List Item} {s s' r r' : Text}
    (h : Parses mode items s) (h' : Parses mode items' s') (hr : Stops r) (hr' : Stops r')
    (e : s ++ r = s' ++ r') : items = items' ∧ r = r' := by
  -- of the sixteen pairs of items only the four on the diagonal begin alike
  induction h generalizing items' s' r r' with
  | nil =>
    cases h' with
    | nil => exact ⟨rfl, e⟩
    | plain hc _ => exact absurd e (hr.ne_cons hc.2.1)
    | literal _ hq _ _ => exact absurd e (hr.ne_cons (isQuote_ne hq).2.1)
    | object _ _ => exact absurd e (hr.ne_cons (by decide))
  | plain hc _ ih =>
    cases h' with
    | nil => exact absurd e.symm (hr'.ne_cons hc.2.1)
    | plain _ h' =>
      obtain ⟨rfl, e'⟩ := List.cons.inj e
      obtain ⟨rfl, rfl⟩ := ih h' hr hr' e'
      exact ⟨rfl, rfl⟩
    | literal hm hq _ _ =>
      obtain ⟨rfl, -⟩ := List.cons.inj e
      simp [hc.2.2 hm] at hq
    | object _ _ => exact absurd (List.cons.inj e).1 hc.1
  | literal hm hq hb _ ih =>
    cases h' with
    | nil => exact absurd e.symm (hr'.ne_cons (isQuote_ne hq).2.1)
    | plain hc _ =>
      obtain ⟨rfl, -⟩ := List.cons.inj e
      simp [hc.2.2 hm] at hq
    | literal _ _ hb' h' =>
      simp only [List.cons_append, List.append_assoc, List.cons.injEq] at e
      obtain ⟨rfl, e⟩ := e
      obtain ⟨rfl, e'⟩ := hb.unique (isQuote_ne hq).2.2 hb' e
      obtain ⟨rfl, rfl⟩ := ih h' hr hr' e'
      exact ⟨rfl, rfl⟩
    | object _ _ => exact absurd (List.cons.inj e).1 (isQuote_ne hq).1
  | object _ _ ihInner ih =>
    cases h' with
    | nil => exact absurd e.symm (hr'.ne_cons (by decide))
    | plain hc _ => exact absurd (List.cons.inj e).1.symm hc.1
    | literal _ hq _ _ => exact absurd (List.cons.inj e).1.symm (isQuote_ne hq).1
    | object hi' h' =>
      simp only [List.cons_append, List.append_assoc, List.cons.injEq, true_and] at e
      obtain ⟨rfl, e'⟩ := ihInner hi' (.inr ⟨_, rfl⟩) (.inr ⟨_, rfl⟩) e
      obtain ⟨rfl, rfl⟩ := ih h' hr hr' (List.cons.inj e').2
      exact ⟨rfl, rfl⟩

/-- **A text reads in at most one way.** -/
theorem Parses.unique {mode : Mode} {items items' : List Item} {s : Text}
    (h : Parses mode items s) (h' : Parses mode items' s) : items = items' :=
  (h.unique_append h' (.inl rfl) (.inl rfl) rfl).1

end DocSearch.Segment
