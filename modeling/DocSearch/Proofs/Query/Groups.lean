import DocSearch.Proofs.Results
import DocSearch.Query.Token

/-!
# Query — groups

A query is split at the blank characters that stand outside quotes.  So its groups are the texts
`g₁ … gₙ` for which it is `w₀ g₁ w₁ … gₙ wₙ` with blank `wᵢ` (`Spaced`), where no group is empty,
has a blank character outside quotes, or leaves a quote open (`IsGroup`): `splitGroups_eq_ok_iff`.

Splitting keeps one bit, whether it is between quotes.  A stretch without a blank character
outside quotes is taken as a whole (`splitFrom_unbroken`), and that is all that is used of it.
Where a quote is left open there are no groups, and what is reported is the end of the query from
the last place to split at (`LeftOpen`, `splitGroups_cases`).
-/

namespace DocSearch.Query

/-- Only blank characters. -/
def Blank (s : Text) : Prop :=
  ∀ c ∈ s, isBlank c = true

instance (s : Text) : Decidable (Blank s) :=
  List.decidableBAll (isBlank · = true) s

/-- Whether a reader is between quotes behind a text. -/
def quotedAfter (quoted : Bool) : Text → Bool
  | [] => quoted
  | c :: s => quotedAfter (if c = '"' then !quoted else quoted) s

/-- No blank character stands outside quotes. -/
def Unbroken (quoted : Bool) : Text → Prop
  | [] => True
  | c :: s => (isBlank c = true → quoted = true) ∧ Unbroken (quotedAfter quoted [c]) s

/-- What a group is: some characters, none of them a place to split at, and no quote left open. -/
structure IsGroup (group : Text) : Prop where
  nonempty : group ≠ []
  unbroken : Unbroken false group
  closed : quotedAfter false group = false

/-- A text is `w₀ g₁ w₁ … gₙ wₙ` for the given groups and some blank `wᵢ`, of which those between
two groups are not empty. -/
def Spaced (groups : List Text) (s : Text) : Prop :=
  ∃ (lead : Text) (gaps : List Text),
    gaps.length = groups.length ∧ Blank lead ∧ (∀ gap ∈ gaps, Blank gap)
    ∧ (∀ gap ∈ gaps.dropLast, gap ≠ []) ∧ s = lead ++ (List.zipWith (· ++ ·) groups gaps).flatten

namespace Spaced

variable {groups : List Text} {g s : Text} {b : Char}

theorem nil (h : Blank s) : Spaced [] s :=
  ⟨s, [], rfl, h, by simp, by simp, by simp⟩

theorem single (g : Text) : Spaced [g] g :=
  ⟨[], [[]], rfl, by simp [Blank], by simp [Blank], by simp, by simp⟩

/-- A blank character in front. -/
theorem cons_blank (hb : isBlank b = true) (h : Spaced groups s) : Spaced groups (b :: s) := by
  obtain ⟨lead, gaps, hlen, hlead, hgaps, hbetween, rfl⟩ := h
  exact ⟨b :: lead, gaps, hlen, List.forall_mem_cons.2 ⟨hb, hlead⟩, hgaps, hbetween, rfl⟩

/-- A group and a blank character in front. -/
theorem cons (hb : isBlank b = true) (h : Spaced groups s) :
    Spaced (g :: groups) (g ++ b :: s) := by
  obtain ⟨lead, gaps, hlen, hlead, hgaps, hbetween, rfl⟩ := h
  refine ⟨[], (b :: lead) :: gaps, by simp [hlen], by simp [Blank],
    List.forall_mem_cons.2 ⟨List.forall_mem_cons.2 ⟨hb, hlead⟩, hgaps⟩, fun gap hgap => ?_, by simp⟩
  cases gaps with
  | nil => simp at hgap
  | cons gap' gaps =>
    rcases List.mem_cons.1 (by simpa using hgap) with rfl | hgap
    · exact List.cons_ne_nil _ _
    · exact hbetween gap hgap

end Spaced

/-! ### Quotes and blank characters -/

@[simp] theorem quotedAfter_append (quoted : Bool) (s t : Text) :
    quotedAfter quoted (s ++ t) = quotedAfter (quotedAfter quoted s) t := by
  induction s generalizing quoted with
  | nil => rfl
  | cons c s ih => simp [quotedAfter, ih]

theorem quotedAfter_of_not_mem {quoted : Bool} {s : Text} (h : '"' ∉ s) :
    quotedAfter quoted s = quoted := by
  induction s with
  | nil => rfl
  | cons c s ih =>
    have hc : c ≠ '"' := fun e => h (e ▸ List.mem_cons_self)
    rw [quotedAfter, if_neg hc, ih fun hs => h (List.mem_cons_of_mem _ hs)]

theorem unbroken_append {quoted : Bool} {s t : Text} :
    Unbroken quoted (s ++ t) ↔ Unbroken quoted s ∧ Unbroken (quotedAfter quoted s) t := by
  induction s generalizing quoted with
  | nil => simp [Unbroken, quotedAfter]
  | cons c s ih => simp [Unbroken, quotedAfter, ih, and_assoc]

/-- Where no quote is, a text is unbroken between quotes, and outside if it has no blank. -/
theorem unbroken_of_not_mem {quoted : Bool} {s : Text} (h : '"' ∉ s) :
    Unbroken quoted s ↔ (quoted = false → ∀ c ∈ s, isBlank c = false) := by
  induction s with
  | nil => simp [Unbroken]
  | cons c s ih =>
    have hs : '"' ∉ s := fun hs => h (List.mem_cons_of_mem _ hs)
    have hc : '"' ∉ [c] := fun hc => h (List.mem_cons.2 (.inl (by simpa using hc)))
    rw [Unbroken, quotedAfter_of_not_mem hc, ih hs]
    cases quoted <;> simp

theorem isBlank_quote : isBlank '"' = false := by decide

theorem ne_quote_of_isBlank {b : Char} (hb : isBlank b = true) : b ≠ '"' := by
  rintro rfl
  simp [isBlank_quote] at hb

theorem quotedAfter_cons_blank {quoted : Bool} {b : Char} {s : Text} (hb : isBlank b = true) :
    quotedAfter quoted (b :: s) = quotedAfter quoted s := by
  rw [quotedAfter, if_neg (ne_quote_of_isBlank hb)]

/-! ### Splitting, one stretch at a time -/

theorem splitFrom_cons_blank {quoted : Bool} {b : Char} {s started : Text}
    (hb : isBlank b = true) (hq : quoted = false) :
    splitFrom quoted started (b :: s)
      = if started.isEmpty then splitFrom false [] s
        else (splitFrom false [] s).map (started.reverse :: ·) := by
  subst hq
  simp [splitFrom, hb, ne_quote_of_isBlank hb]

theorem splitFrom_unbroken {quoted : Bool} {g : Text} (h : Unbroken quoted g) (started s : Text) :
    splitFrom quoted started (g ++ s)
      = splitFrom (quotedAfter quoted g) (g.reverse ++ started) s := by
  induction g generalizing quoted started with
  | nil => rfl
  | cons c g ih =>
    obtain ⟨hc, hg⟩ := h
    have hnot : (isBlank c && !quotedAfter quoted [c]) = false := by
      by_cases hb : isBlank c = true
      · rw [quotedAfter_cons_blank hb, quotedAfter, hc hb]
        simp
      · simp [hb]
    rw [List.cons_append, splitFrom]
    show (if (isBlank c && !quotedAfter quoted [c]) = true then _ else _) = _
    rw [hnot, if_neg (by simp)]
    exact (ih hg (c :: started)).trans (by simp [quotedAfter])

theorem splitFrom_blank {w : Text} (h : Blank w) (s : Text) :
    splitFrom false [] (w ++ s) = splitFrom false [] s := by
  induction w with
  | nil => rfl
  | cons b w ih =>
    rw [List.cons_append, splitFrom_cons_blank (h b List.mem_cons_self) rfl]
    exact ih fun c hc => h c (List.mem_cons_of_mem _ hc)

/-- A group at the end of the query. -/
theorem splitFrom_group {g : Text} (h : IsGroup g) : splitFrom false [] g = .ok [g] := by
  have hs := splitFrom_unbroken h.unbroken [] []
  simp only [List.append_nil, h.closed] at hs
  rw [hs, splitFrom, if_neg (by simp [h.nonempty])]
  simp

/-- A group in front of blank text. -/
theorem splitFrom_group_blank {g s : Text} {b : Char} (h : IsGroup g) (hb : isBlank b = true) :
    splitFrom false [] (g ++ b :: s) = (splitFrom false [] s).map (g :: ·) := by
  rw [splitFrom_unbroken h.unbroken, h.closed, splitFrom_cons_blank hb rfl,
    if_neg (by simp [h.nonempty])]
  simp

/-! ### A quote left open -/

/-- A text ends in something begun outside quotes, behind a blank character or nothing, that leaves a
quote open and has no place to split at. -/
def LeftOpen (group s : Text) : Prop :=
  ∃ lead, s = lead ++ group ∧ (∀ c, lead.getLast? = some c → isBlank c = true)
    ∧ quotedAfter false lead = false ∧ Unbroken false group ∧ quotedAfter false group = true

theorem LeftOpen.quotedAfter_eq {group s : Text} (h : LeftOpen group s) :
    quotedAfter false s = true := by
  obtain ⟨lead, rfl, -, hlead, -, hgroup⟩ := h
  rw [quotedAfter_append, hlead, hgroup]

/-- More text in front, closed and with a blank character behind it. -/
theorem LeftOpen.prepend {group front s : Text} {b : Char} (hfront : quotedAfter false front = false)
    (hb : isBlank b = true) (h : LeftOpen group s) : LeftOpen group (front ++ b :: s) := by
  obtain ⟨lead, rfl, hlast, hlead, hgroup⟩ := h
  refine ⟨front ++ b :: lead, by simp, ?_, ?_, hgroup⟩
  · intro c hc
    cases lead with
    | nil =>
      obtain rfl : b = c := by simpa using hc
      exact hb
    | cons d lead => exact hlast c (by simpa using hc)
  · rw [quotedAfter_append, hfront, quotedAfter_cons_blank hb, hlead]

/-! ### The groups of a query -/

theorem splitGroups_of_spaced {groups : List Text} {s : Text} (hg : ∀ g ∈ groups, IsGroup g)
    (h : Spaced groups s) : splitGroups s = .ok groups := by
  obtain ⟨lead, gaps, hlen, hlead, hgaps, hbetween, rfl⟩ := h
  induction groups generalizing lead gaps with
  | nil =>
    rw [splitGroups, List.zipWith_nil_left, List.flatten_nil, splitFrom_blank hlead]
    rfl
  | cons g groups ih =>
    obtain ⟨w, gaps, rfl⟩ := List.exists_cons_of_length_eq_add_one hlen
    have hw := hgaps w List.mem_cons_self
    have hgroup := hg g List.mem_cons_self
    have hlen' : gaps.length = groups.length := by simpa using hlen
    rw [splitGroups, splitFrom_blank hlead, List.zipWith_cons_cons, List.flatten_cons,
      List.append_assoc]
    cases groups with
    | nil =>
      obtain rfl : gaps = [] := List.eq_nil_of_length_eq_zero hlen'
      cases w with
      | nil => simpa using splitFrom_group hgroup
      | cons b w =>
        rw [List.cons_append, splitFrom_group_blank hgroup (hw b List.mem_cons_self),
          splitFrom_blank fun c hc => hw c (List.mem_cons_of_mem _ hc)]
        rfl
    | cons g' groups =>
      obtain ⟨w', gaps, rfl⟩ := List.exists_cons_of_length_eq_add_one hlen'
      obtain ⟨b, w, rfl⟩ := List.exists_cons_of_ne_nil (hbetween w (by simp))
      have hrest : splitGroups (w ++ (List.zipWith (· ++ ·) (g' :: groups) (w' :: gaps)).flatten)
          = .ok (g' :: groups) :=
        ih (fun x hx => hg x (List.mem_cons_of_mem _ hx)) w (w' :: gaps) hlen'
          (fun c hc => hw c (List.mem_cons_of_mem _ hc))
          (fun x hx => hgaps x (List.mem_cons_of_mem _ hx))
          (fun x hx => hbetween x (by simpa using .inr hx))
      rw [List.cons_append, splitFrom_group_blank hgroup (hw b List.mem_cons_self)]
      rw [splitGroups] at hrest
      rw [hrest]
      rfl

/-! ### What splitting gives -/

/-- Splitting from within a group: what has been read of it is unbroken, and says whether a quote
is open.  It gives groups if the text closes all quotes, and otherwise reports the one that is left
open. -/
theorem splitFrom_cases {quoted : Bool} (started : Text) {s : Text}
    (hbroken : Unbroken false started.reverse)
    (hquoted : quotedAfter false started.reverse = quoted) :
    (quotedAfter quoted s = false ∧ ∃ groups, splitFrom quoted started s = .ok groups
      ∧ Spaced groups (started.reverse ++ s) ∧ ∀ g ∈ groups, IsGroup g)
    ∨ ∃ group, LeftOpen group (started.reverse ++ s)
      ∧ splitFrom quoted started s = .error (.malformed group .unterminatedQuote) := by
  induction s generalizing quoted started with
  | nil =>
    by_cases he : started = []
    · subst he hquoted
      exact .inl ⟨rfl, [], rfl, .nil fun c hc => by simp at hc, by simp⟩
    cases quoted with
    | false =>
      have hgroup : IsGroup started.reverse := ⟨by simpa using he, hbroken, hquoted⟩
      exact .inl ⟨rfl, [started.reverse], by simp [splitFrom, he], by simpa using Spaced.single _,
        by simpa using hgroup⟩
    | true =>
      exact .inr ⟨started.reverse, ⟨[], by simp, by simp, rfl, hbroken, hquoted⟩,
        by simp [splitFrom, he]⟩
  | cons c s ih =>
    -- a blank character outside quotes ends what was started; any other one becomes part of it
    by_cases hsplit : isBlank c = true ∧ quoted = false
    · obtain ⟨hc, rfl⟩ := hsplit
      have hnone : quotedAfter false (List.reverse []) = false := rfl
      rw [splitFrom_cons_blank hc rfl, quotedAfter_cons_blank hc]
      rcases ih [] trivial hnone with ⟨hclosed, groups, hs, hspaced, hgroups⟩ | ⟨group, hopen, hs⟩
      · refine .inl ⟨hclosed, ?_⟩
        split
        · next he =>
          obtain rfl : started = [] := by simpa using he
          exact ⟨groups, hs, hspaced.cons_blank hc, hgroups⟩
        · next he =>
          have hgroup : IsGroup started.reverse := ⟨by simpa using he, hbroken, hquoted⟩
          exact ⟨_, map_eq_ok.2 ⟨groups, hs, rfl⟩, .cons hc hspaced,
            List.forall_mem_cons.2 ⟨hgroup, hgroups⟩⟩
      · refine .inr ⟨group, hopen.prepend hquoted hc, ?_⟩
        split
        · exact hs
        · exact map_eq_error.2 hs
    · have hone : Unbroken quoted [c] := ⟨fun hc => by simpa [hc] using hsplit, trivial⟩
      have hstep := splitFrom_unbroken hone started s
      rw [List.singleton_append] at hstep
      have hbroken' : Unbroken false (started.reverse ++ [c]) :=
        unbroken_append.2 ⟨hbroken, hquoted ▸ hone⟩
      have hquoted' : quotedAfter false (c :: started).reverse = quotedAfter quoted [c] := by
        simp [hquoted]
      rw [hstep, ← List.singleton_append, quotedAfter_append]
      simpa using ih (c :: started) (by simpa using hbroken') hquoted'

/-- **Splitting fails only where a quote is left open**, and reports the group that it is open in. -/
theorem splitGroups_cases (s : Text) :
    (quotedAfter false s = false ∧ ∃ groups, splitGroups s = .ok groups
      ∧ Spaced groups s ∧ ∀ g ∈ groups, IsGroup g)
    ∨ ∃ group, LeftOpen group s
      ∧ splitGroups s = .error (.malformed group .unterminatedQuote) :=
  splitFrom_cases [] trivial rfl

/-- **The groups of a query.** -/
theorem splitGroups_eq_ok_iff {s : Text} {groups : List Text} :
    splitGroups s = .ok groups ↔ Spaced groups s ∧ ∀ g ∈ groups, IsGroup g := by
  constructor
  · intro h
    rcases splitGroups_cases s with ⟨-, groups', hok, hs⟩ | ⟨_, -, herror⟩
    · obtain rfl : groups = groups' := Except.ok.inj (h.symm.trans hok)
      exact hs
    · cases h.symm.trans herror
  · exact fun ⟨hs, hg⟩ => splitGroups_of_spaced hg hs

end DocSearch.Query
