import DocSearch.Command.Run
import DocSearch.Proofs.Results
import DocSearch.Proofs.Segment.Arrays

/-!
# Command line — what `find` finds

`find` splits its input into segments, reads each as a document, and prints those that match.  Of
a JSON array of objects the segments are the texts of its elements, so the documents are the
elements, and none of the three steps fails (`find_of_read`).
-/

namespace DocSearch.Command

variable {mode : Segment.Mode} {style : Json.Style} {query t out : Text} {e : Query.Expression}
  {segs : List Text} {items hits : List Json}

/-- What it takes to find something. -/
theorem findDocuments_eq (hquery : Query.compile query = .ok e)
    (hsegs : Segment.segments mode t = .ok segs) (hread : segs.map Json.read? = items.map some) :
    findDocuments mode query t = .ok (e.select items) := by
  have hitems : readDocuments segs = .ok items := (readDocumentsFrom_eq_ok_iff 0).2 hread
  simp [findDocuments, hquery, hsegs, hitems]

theorem findText_eq (style : Json.Style) (hquery : Query.compile query = .ok e)
    (hsegs : Segment.segments mode t = .ok segs) (hread : segs.map Json.read? = items.map some) :
    findText mode style query t = .ok (Text.joinLines ((e.select items).map (·.print style))) := by
  simp [findText, findDocuments_eq hquery hsegs hread]

/-- What a search that succeeds has done. -/
theorem exists_of_findDocuments (h : findDocuments mode query t = .ok hits) :
    ∃ e segs items, Query.compile query = .ok e ∧ Segment.segments mode t = .ok segs
      ∧ segs.map Json.read? = items.map some ∧ hits = e.select items := by
  simp only [findDocuments, bind_eq_ok, pure_eq_ok, mapError_eq_ok] at h
  obtain ⟨e, he, segs, hsegs, items, hitems, rfl⟩ := h
  exact ⟨e, segs, items, he, hsegs, (readDocumentsFrom_eq_ok_iff 0).1 hitems, rfl⟩

theorem exists_of_findText (h : findText mode style query t = .ok out) :
    ∃ hits, findDocuments mode query t = .ok hits
      ∧ out = Text.joinLines (hits.map (·.print style)) := by
  simp only [findText, bind_eq_ok, pure_eq_ok] at h
  obtain ⟨hits, hhits, rfl⟩ := h
  exact ⟨hits, hhits, rfl⟩

/-- What was read was read of some segment. -/
theorem exists_read?_of_mem (hread : segs.map Json.read? = items.map some) {item : Json}
    (hitem : item ∈ items) : ∃ seg ∈ segs, Json.read? seg = some item := by
  have hmem : some item ∈ segs.map Json.read? := hread ▸ List.mem_map_of_mem hitem
  exact List.mem_map.1 hmem

/-- Each document found was read. -/
theorem exists_read?_of_findDocuments (h : findDocuments mode query t = .ok hits) {hit : Json}
    (hmem : hit ∈ hits) : ∃ s, Json.read? s = some hit := by
  obtain ⟨e, segs, items, -, -, hread, rfl⟩ := exists_of_findDocuments h
  obtain ⟨seg, -, hseg⟩ := exists_read?_of_mem hread (List.mem_of_mem_filter hmem)
  exact ⟨seg, hseg⟩

theorem map_read?_eq (h : List.Forall₂ Segment.ObjectText segs items) :
    segs.map Json.read? = items.map some := by
  induction h with
  | nil => rfl
  | cons hseg _ ih => rw [List.map_cons, List.map_cons, hseg.2, ih]

/-- **A JSON array of objects is searched as such.**  Its segments are the texts of its elements,
which there is one way only to choose, and `find` prints the elements that match, in their order. -/
theorem find_of_read (hread : Json.read? t = some (.array items))
    (hobj : ∀ item ∈ items, ∃ members, item = .object members) :
    (∃ segs, Segment.segments .quoteAware t = .ok segs
      ∧ (Segment.IsArrayOf segs t ∧ List.Forall₂ Segment.ObjectText segs items)
      ∧ ∀ segs', Segment.IsArrayOf segs' t → List.Forall₂ Segment.ObjectText segs' items →
        segs' = segs)
    ∧ ∀ (invocation : Invocation) (around : Surroundings) (settings : Settings)
        (e : Query.Expression),
      invocation.verb = .find → loadSettings around invocation.settings = .ok settings →
      settings.mode = .quoteAware → around.read invocation.file = .ok t →
      Query.compile invocation.query = .ok e →
      invocation.answer around = .ok (Text.joinLines
        ((items.filter e.matches).map (·.print (styleOf invocation.flag)))) := by
  obtain ⟨segs, hsegs, hwritten, hunique⟩ := Segment.segments_of_read hread hobj
  refine ⟨⟨segs, hsegs, hwritten, hunique⟩, ?_⟩
  intro invocation around settings e hverb hsettings hmode hinput hquery
  have hfound := findText_eq (styleOf invocation.flag) hquery hsegs (map_read?_eq hwritten.2)
  rw [← hmode] at hfound
  simp [Invocation.answer, hsettings, Invocation.run, hverb, hinput, hfound,
    Query.Expression.select]

/-- A closing brace in a text of the first of two documents, and the second found. -/
theorem find_of_read_second :
    Invocation.answer ⟨none, .find, false, "a:x".toList, none⟩
        ⟨fun _ => .absent, "[\x7b\"a\":\"\x7d\"\x7d, \x7b\"a\":\"x\"\x7d]".toUTF8, none⟩
      = .ok "\x7b\"a\":\"x\"\x7d".toList := by
  have hread : Json.read? "[\x7b\"a\":\"\x7d\"\x7d, \x7b\"a\":\"x\"\x7d]".toList
      = some (.array [.object [(['a'], .text ['\x7d'])], .object [(['a'], .text ['x'])]]) := rfl
  exact (find_of_read hread (by simp)).2 ⟨none, .find, false, "a:x".toList, none⟩ _ .default
    ⟨[⟨['a'], .equals, .text ['x']⟩], List.cons_ne_nil _ _⟩ rfl rfl rfl (by decide +kernel)
    (by decide)

end DocSearch.Command
