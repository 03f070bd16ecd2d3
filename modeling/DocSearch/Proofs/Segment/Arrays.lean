import DocSearch.Proofs.Json.Spans
import DocSearch.Proofs.Segment.Rows
import Mathlib.Data.List.Forall2

/-!
# Segments — arrays in JSON

A JSON array is written as its elements' texts between square brackets, with commas between
neighbours and white space around any of them (`IsArrayOf`).

* Where these texts are objects, they are the segments of the array: with commas and white space
  around them they stand in a row (`segments_of_isArrayOf`).
* Whatever the reader takes for an array of objects is written so, and the texts are JSON texts of
  the elements (`exists_isArrayOf`).

So the segments of a JSON array of objects are the texts of its elements, and no other texts are
(`segments_of_read`).
-/

namespace DocSearch.Segment

open Json (Space Balanced)

/-- A text with white space of JSON around it. -/
def Padded (s padded : Text) : Prop :=
  ∃ before after, Space before ∧ Space after ∧ padded = before ++ s ++ after

/-- The text of an array whose elements have the given texts. -/
def IsArrayOf (elements : List Text) (t : Text) : Prop :=
  ∃ lead parts, Space lead ∧ List.Forall₂ Padded elements parts
    ∧ Padded ('[' :: (lead ++ List.intercalate [','] parts) ++ [']']) t

/-- A text between braces that is the JSON text of a value. -/
def ObjectText (seg : Text) (value : Json) : Prop :=
  (∃ inner, seg = '\x7b' :: inner ++ ['\x7d']) ∧ Json.read? seg = some value

/-! ### The objects of an array's text -/

theorem isBlank_of_isSpace {c : Char} (h : Json.isSpace c = true) : isBlank c = true := by
  rcases Json.isSpace_cases h with rfl | rfl | rfl | rfl <;> decide

/-- An element with white space around it, in front of a row. -/
theorem row_cons {seg part s : Text} {segs : List Text} (hpart : Padded seg part)
    (h : Row .quoteAware segs s) : Row .quoteAware (seg :: segs) (part ++ s) := by
  obtain ⟨before, after, hbefore, hafter, rfl⟩ := hpart
  simpa using ((h.prepend hafter.ordinary).cons seg).prepend hbefore.ordinary

/-- Elements with white space around them and commas between neighbours stand in a row. -/
theorem row_intercalate {segs parts : List Text} (h : List.Forall₂ Padded segs parts) :
    Row .quoteAware segs (List.intercalate [','] parts) := by
  have hcomma : Ordinary .quoteAware [','] := by decide
  induction h with
  | nil => exact .nil (Ordinary.nil _)
  | cons hpart hparts ih =>
    cases hparts with
    | nil => simpa [List.intercalate] using row_cons hpart (.nil (Ordinary.nil _))
    | cons =>
      rw [List.intercalate_cons_cons, List.append_assoc]
      exact row_cons hpart (ih.prepend hcomma)

/-- **The objects of an array's text are its segments.** -/
theorem segments_of_isArrayOf {segs : List Text} {t : Text} (h : IsArrayOf segs t)
    (hobj : ∀ seg ∈ segs, Enclosed .quoteAware seg) : segments .quoteAware t = .ok segs := by
  obtain ⟨lead, parts, hlead, hparts, before, after, hbefore, hafter, rfl⟩ := h
  refine segments_row hobj ((row_intercalate hparts).prepend hlead.ordinary) (trim_brackets ?_ ?_ _)
  · exact fun c hc => isBlank_of_isSpace (hbefore c hc)
  · exact fun c hc => isBlank_of_isSpace (hafter c hc)

/-! ### The text of a JSON array -/

theorem space_of_skipSpace {s : Text} (h : (Json.skipSpace s).isEmpty = true) : Space s := by
  have hall : s.takeWhile Json.isSpace = s := by
    have hsplit : s.takeWhile Json.isSpace ++ Json.skipSpace s = s :=
      List.takeWhile_append_dropWhile
    rwa [List.isEmpty_iff.1 h, List.append_nil] at hsplit
  rw [← hall]
  exact List.all_eq_true.1 List.all_takeWhile

theorem read?_of_value? {s : Text} {value : Json}
    (h : Json.value? Numeral.approximate? Json.maxDepth s = some (value, [])) :
    Json.read? s = some value := by
  unfold Json.read? Json.readBy?
  rw [h]
  rfl

theorem exists_of_read? {s : Text} {value : Json} (h : Json.read? s = some value) :
    ∃ rest, Space rest
      ∧ Json.value? Numeral.approximate? Json.maxDepth s = some (value, rest) := by
  obtain ⟨⟨value', rest⟩, hvalue, hrest⟩ := Option.bind_eq_some_iff.1 h
  simp only [Option.ite_none_right_eq_some, Option.some.injEq] at hrest
  obtain ⟨hspace, rfl⟩ := hrest
  exact ⟨rest, space_of_skipSpace hspace, hvalue⟩

/-- What is read of a text between braces is an object. -/
theorem exists_members_of_read? {inner : Text} {value : Json}
    (h : Json.read? ('\x7b' :: inner ++ ['\x7d']) = some value) :
    ∃ members, value = .object members := by
  obtain ⟨rest, -, hvalue⟩ := exists_of_read? h
  have hskip : Json.skipSpace ('\x7b' :: inner ++ ['\x7d']) = '\x7b' :: (inner ++ ['\x7d']) :=
    Json.skipSpace_cons (by decide)
  rw [show Json.maxDepth = 126 + 1 from rfl, Json.value?_members hskip] at hvalue
  obtain ⟨⟨members, _⟩, -, heq⟩ := Option.map_eq_some_iff.1 hvalue
  cases heq
  exact ⟨_, rfl⟩

/-- Documents read of segments are objects. -/
theorem exists_members_of_segments {mode : Mode} {t : Text} {segs : List Text} {items : List Json}
    (hsegs : segments mode t = .ok segs) (hread : segs.map Json.read? = items.map some) :
    ∀ item ∈ items, ∃ members, item = .object members := by
  intro item hitem
  have hmem : some item ∈ segs.map Json.read? := hread ▸ List.mem_map_of_mem hitem
  obtain ⟨seg, hseg, hvalue⟩ := List.mem_map.1 hmem
  obtain ⟨inner, -, -, rfl⟩ := enclosed_of_segments hsegs seg hseg
  exact exists_members_of_read? hvalue

/-- The JSON text of an object between braces is balanced: its braces are the object's. -/
theorem ObjectText.enclosed {seg : Text} {members : List (Text × Json)}
    (h : ObjectText seg (.object members)) : Enclosed .quoteAware seg := by
  obtain ⟨⟨inside, hseg⟩, hread⟩ := h
  obtain ⟨rest, hrest, hvalue⟩ := exists_of_read? hread
  obtain ⟨w, inner, hw, hinner, hs, -⟩ := Json.value?_object (Nat.le_refl _) hvalue
  have hnoLead : w = [] := by
    cases w with
    | nil => rfl
    | cons c w =>
      have hc : '\x7b' = c := (List.cons.inj (hseg.symm.trans hs)).1
      have := hw c List.mem_cons_self
      rw [← hc] at this
      cases this
  have hnoTail : rest = [] := by
    rcases List.eq_nil_or_concat rest with hnil | ⟨rest', c, rfl⟩
    · exact hnil
    · have hends : ('\x7b' :: inside) ++ ['\x7d']
          = (w ++ '\x7b' :: (inner ++ '\x7d' :: rest')) ++ [c] := by
        simpa using hseg.symm.trans hs
      have hc : '\x7d' = c := by simpa using List.append_inj_right' hends rfl
      have := hrest c (by simp)
      rw [← hc] at this
      cases this
  subst hnoLead hnoTail
  obtain ⟨items, hitems⟩ := hinner
  exact ⟨inner, items, hitems, hs⟩

theorem enclosed_of_forall₂ {segs : List Text} {items : List Json}
    (h : List.Forall₂ ObjectText segs items)
    (hobj : ∀ item ∈ items, ∃ members, item = .object members) :
    ∀ seg ∈ segs, Enclosed .quoteAware seg := by
  induction h with
  | nil => simp
  | cons hseg _ ih =>
    obtain ⟨⟨members, rfl⟩, hobjs⟩ := List.forall_mem_cons.1 hobj
    exact List.forall_mem_cons.2 ⟨hseg.enclosed, ih hobjs⟩

/-- An element that is an object, with the white space around it. -/
theorem exists_padded {depth : Nat} {s s' r : Text} {c : Char} {members : List (Text × Json)}
    (hdepth : depth ≤ Json.maxDepth)
    (h : Json.value? Numeral.approximate? depth s = some (.object members, s'))
    (hskip : Json.skipSpace s' = c :: r) :
    ∃ seg part, Padded seg part ∧ ObjectText seg (.object members) ∧ s = part ++ c :: r := by
  obtain ⟨w, inner, hw, -, rfl, hback⟩ := Json.value?_object hdepth h
  obtain ⟨w', hw', rfl, -⟩ := Json.exists_of_skipSpace hskip
  exact ⟨'\x7b' :: inner ++ ['\x7d'], _, ⟨w, w', hw, hw', rfl⟩,
    ⟨⟨inner, rfl⟩, read?_of_value? (hback [])⟩, by simp⟩

theorem exists_parts {depth : Nat} {items : List Json} {s rest : Text}
    (hdepth : depth ≤ Json.maxDepth)
    (h : Json.Sequence (Json.value? Numeral.approximate? depth) ']' items s rest)
    (hobj : ∀ item ∈ items, ∃ members, item = .object members) :
    ∃ segs parts, List.Forall₂ Padded segs parts ∧ List.Forall₂ ObjectText segs items
      ∧ parts ≠ [] ∧ s = List.intercalate [','] parts ++ ']' :: rest := by
  induction h with
  | last hthing hskip =>
    obtain ⟨members, rfl⟩ := hobj _ List.mem_cons_self
    obtain ⟨seg, part, hpart, hseg, rfl⟩ := exists_padded hdepth hthing hskip
    exact ⟨[seg], [part], .cons hpart .nil, .cons hseg .nil, by simp, by simp [List.intercalate]⟩
  | cons hthing hskip _ ih =>
    obtain ⟨⟨members, rfl⟩, hobjs⟩ := List.forall_mem_cons.1 hobj
    obtain ⟨segs, parts, hparts, hsegs, hne, rfl⟩ := ih hobjs
    obtain ⟨seg, part, hpart, hseg, rfl⟩ := exists_padded hdepth hthing hskip
    obtain ⟨part', parts, rfl⟩ := List.exists_cons_of_ne_nil hne
    refine ⟨seg :: segs, part :: part' :: parts, .cons hpart hparts, .cons hseg hsegs, by simp, ?_⟩
    simp [List.intercalate_cons_cons]

/-- What is read as an array of objects is written as one. -/
theorem exists_isArrayOf {t : Text} {items : List Json} (h : Json.read? t = some (.array items))
    (hobj : ∀ item ∈ items, ∃ members, item = .object members) :
    ∃ segs, IsArrayOf segs t ∧ List.Forall₂ ObjectText segs items := by
  obtain ⟨rest, hrest, hvalue⟩ := exists_of_read? h
  rcases Json.value?_cases hvalue with ⟨r, _, depth, hskip, hitems, hdepth, hcontainer⟩
    | ⟨_, _, _, -, hmembers, -⟩ | ⟨hnone, -⟩
  · cases hitems
    obtain ⟨w, hw, rfl, -⟩ := Json.exists_of_skipSpace hskip
    unfold Json.container? at hcontainer
    split at hcontainer
    · cases hcontainer
    next c r' hskip' =>
    obtain ⟨w', hw', rfl, -⟩ := Json.exists_of_skipSpace hskip'
    split at hcontainer
    · next hc =>
      cases hcontainer
      exact ⟨[], ⟨w', [], hw', .nil, w, _, hw, hrest, by simp [hc, List.intercalate]⟩, .nil⟩
    · obtain ⟨hseq, -⟩ := (Json.sequence?_eq_some_iff (by decide)).1 hcontainer
      obtain ⟨segs, parts, hparts, hsegs, -, hs⟩ := exists_parts (by omega) hseq hobj
      exact ⟨segs, ⟨w', parts, hw', hparts, w, rest, hw, hrest, by simp [hs]⟩, hsegs⟩
  · simp [Json.ofMembers] at hmembers
  · exact absurd rfl (hnone items)

/-- **The segments of a JSON array of objects are the texts of its elements**, and there is one way
only to write the array with texts of these elements. -/
theorem segments_of_read {t : Text} {items : List Json} (h : Json.read? t = some (.array items))
    (hobj : ∀ item ∈ items, ∃ members, item = .object members) :
    ∃ segs, segments .quoteAware t = .ok segs
      ∧ (IsArrayOf segs t ∧ List.Forall₂ ObjectText segs items)
      ∧ ∀ segs', IsArrayOf segs' t → List.Forall₂ ObjectText segs' items → segs' = segs := by
  obtain ⟨segs, harray, hsegs⟩ := exists_isArrayOf h hobj
  have hok := segments_of_isArrayOf harray (enclosed_of_forall₂ hsegs hobj)
  refine ⟨segs, hok, ⟨harray, hsegs⟩, fun segs' harray' hsegs' => ?_⟩
  have hok' := segments_of_isArrayOf harray' (enclosed_of_forall₂ hsegs' hobj)
  rw [hok] at hok'
  cases hok'
  rfl

end DocSearch.Segment
