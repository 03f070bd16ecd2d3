import DocSearch.Proofs.Segment.Scan

/-!
# Segments — objects in a row

A segment is a text between braces that reads as one object (`Enclosed`): a scanner enters it outside
all literals and leaves it so, at the depth at which it came.  This depends on nothing around it, so
any such texts, in a row with ordinary text in front, between them and behind (`Row`), are the
segments of what they make up between square brackets (`segments_row`).

Every segment is such a text (`enclosed_of_segments`); so an array may be made anew of the segments of
another, and has the same.
-/

namespace DocSearch.Segment

/-- A text between braces that reads as one object. -/
def Enclosed (mode : Mode) (seg : Text) : Prop :=
  ∃ inner items, Parses mode items inner ∧ seg = '\x7b' :: inner ++ ['\x7d']

/-- A text is `w₀ s₁ w₁ … sₙ wₙ` for the given texts `sᵢ` and some `wᵢ` of ordinary characters. -/
def Row (mode : Mode) (segs : List Text) (s : Text) : Prop :=
  ∃ (lead : Text) (gaps : List Text),
    gaps.length = segs.length ∧ Ordinary mode lead ∧ (∀ gap ∈ gaps, Ordinary mode gap)
    ∧ s = lead ++ (List.zipWith (· ++ ·) segs gaps).flatten

variable {mode : Mode} {input s w seg : Text} {segs : List Text} {items : List Item}

namespace Row

theorem nil (h : Ordinary mode w) : Row mode [] w :=
  ⟨w, [], rfl, h, by simp, by simp⟩

/-- Ordinary text in front. -/
theorem prepend (hw : Ordinary mode w) (h : Row mode segs s) : Row mode segs (w ++ s) := by
  obtain ⟨lead, gaps, hlen, hlead, hgaps, rfl⟩ := h
  exact ⟨w ++ lead, gaps, hlen, hw.append hlead, hgaps, by simp⟩

/-- A text more in front. -/
theorem cons (seg : Text) (h : Row mode segs s) : Row mode (seg :: segs) (seg ++ s) := by
  obtain ⟨lead, gaps, hlen, hlead, hgaps, rfl⟩ := h
  exact ⟨[], lead :: gaps, by simp [hlen], .nil mode, List.forall_mem_cons.2 ⟨hlead, hgaps⟩, by simp⟩

/-- Texts on lines of their own, and ordinary text behind the last. -/
theorem joinLines (segs : List Text) (hw : Ordinary mode w) :
    Row mode segs (Text.joinLines segs ++ w) := by
  induction segs with
  | nil => exact nil hw
  | cons seg segs ih =>
    cases segs with
    | nil => simpa [Text.joinLines] using cons seg (nil hw)
    | cons seg' segs =>
      simpa [Text.joinLines] using cons seg (prepend (Ordinary.feed mode) ih)

end Row

/-! ### Objects that a scanner takes whole -/

/-- An outermost object reads as an object by itself. -/
theorem Parses.enclosed (h : Parses mode items s) (hseg : seg ∈ outermost items) :
    Enclosed mode seg := by
  induction h with
  | nil => cases hseg
  | plain _ _ ih => exact ih hseg
  | literal _ _ _ _ ih => exact ih hseg
  | object hi _ _ ih =>
    rcases List.mem_cons.1 hseg with rfl | hseg
    · exact ⟨_, _, hi, by simp [Item.text, hi.textOf_eq]⟩
    · exact ih hseg

/-- **Segments read as objects by themselves.** -/
theorem enclosed_of_segments (h : segments mode input = .ok segs) :
    ∀ seg ∈ segs, Enclosed mode seg := by
  intro seg hseg
  unfold segments at h
  split at h
  · cases h
  · obtain ⟨items, hitems, rfl⟩ := scan_eq_ok_iff.1 h
    exact hitems.enclosed hseg

theorem exists_parses_objects {gaps : List Text} (hobj : ∀ seg ∈ segs, Enclosed mode seg)
    (hgaps : ∀ gap ∈ gaps, Ordinary mode gap) (hlen : gaps.length = segs.length) :
    ∃ items, Parses mode items (List.zipWith (· ++ ·) segs gaps).flatten ∧ outermost items = segs := by
  induction segs generalizing gaps with
  | nil => exact ⟨[], .nil, rfl⟩
  | cons seg segs ih =>
    obtain ⟨gap, gaps, rfl⟩ := List.exists_cons_of_length_eq_add_one hlen
    obtain ⟨⟨inner, held, hheld, rfl⟩, hobjs⟩ := List.forall_mem_cons.1 hobj
    obtain ⟨hgap, hgaps⟩ := List.forall_mem_cons.1 hgaps
    obtain ⟨between, hbetween, hnone⟩ := exists_parses_ordinary hgap
    obtain ⟨items, hitems, houter⟩ := ih hobjs hgaps (Nat.succ.inj hlen)
    refine ⟨.object held :: (between ++ items), ?_, ?_⟩
    · simpa using Parses.object hheld (hbetween.append hitems)
    · rw [outermost, outermost_append, hnone, houter]
      simp [Item.text, hheld.textOf_eq]

/-- **Objects in a row are segments**, whatever ordinary text stands around them. -/
theorem segments_row (hobj : ∀ seg ∈ segs, Enclosed mode seg) (h : Row mode segs s)
    (hinput : input.trim = '[' :: s ++ [']']) : segments mode input = .ok segs := by
  obtain ⟨lead, gaps, hlen, hlead, hgaps, rfl⟩ := h
  obtain ⟨items, hitems, houter⟩ := exists_parses_objects hobj hgaps hlen
  -- reading starts at the first object, since no brace stands in front of it
  have hfirst : '\x7b' ∉ lead := fun hmem => (hlead _ hmem).1 rfl
  have hbody : (List.zipWith (· ++ ·) segs gaps).flatten = []
      ∨ (List.zipWith (· ++ ·) segs gaps).flatten.head? = some '\x7b' := by
    cases segs with
    | nil => exact .inl rfl
    | cons seg segs =>
      obtain ⟨gap, gaps, rfl⟩ := List.exists_cons_of_length_eq_add_one hlen
      obtain ⟨inner, -, -, rfl⟩ := hobj seg List.mem_cons_self
      exact .inr rfl
  rw [segments_of_bracketed mode hinput hfirst hbody, hitems.scan_eq, houter]

/-- Trimming ends at square brackets. -/
theorem trim_brackets {before after : Text} (hbefore : ∀ c ∈ before, isBlank c = true)
    (hafter : ∀ c ∈ after, isBlank c = true) (inner : Text) :
    Text.trim (before ++ ('[' :: inner ++ [']']) ++ after) = '[' :: inner ++ [']'] := by
  have hstart : Text.trimStart (before ++ ('[' :: inner ++ [']']) ++ after)
      = '[' :: inner ++ [']'] ++ after := by
    rw [Text.trimStart, List.append_assoc, List.dropWhile_append_of_pos hbefore]
    rfl
  have hback : ∀ c ∈ after.reverse, isBlank c = true := fun c hc => hafter c (List.mem_reverse.1 hc)
  rw [Text.trim, hstart, Text.trimEnd, List.reverse_append, List.dropWhile_append_of_pos hback]
  simp [show isBlank ']' = false by decide]

/-- Brackets with nothing around them are not trimmed away. -/
theorem trim_bracketed (inner : Text) : Text.trim ('[' :: inner ++ [']']) = '[' :: inner ++ [']'] := by
  simpa using @trim_brackets [] [] (by simp) (by simp) inner

/-- Objects on lines of their own are the segments of what they make up between brackets. -/
theorem segments_of_joinLines (hobj : ∀ seg ∈ segs, Enclosed mode seg) :
    segments mode ('[' :: Text.joinLines segs ++ [']']) = .ok segs := by
  have hrow : Row mode segs (Text.joinLines segs ++ []) := .joinLines segs (Ordinary.nil mode)
  rw [List.append_nil] at hrow
  exact segments_row hobj hrow (trim_bracketed _)

end DocSearch.Segment
