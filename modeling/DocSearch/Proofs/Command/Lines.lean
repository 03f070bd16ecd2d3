import DocSearch.Proofs.Command.Find
import DocSearch.Proofs.Json.Printable
import DocSearch.Proofs.Json.RoundTrip
import DocSearch.Proofs.Text.Lines

/-!
# Command line — output in lines

`segment` and `find` join what they give with line feeds, and the program ends its output with one
more (`execute_eq`).  So each text is a line of the output, if there is a text at all and none has a
line feed itself (`Text.isLines_joinLines_iff`).

* A document that is printed in the compact style never has one (`Json.printable_print`), so `find`
  prints a line for each document that it finds, if it finds any.  The line is read as that document
  again if the document's numbers are read back from their texts (`find_lines`).
* An object is printed by `segment` as it stands in the input, where it may span lines.  So its objects
  are lines under the condition that they were such in the input (`segment_lines`).

Where nothing is given, the output is still one empty line.
-/

namespace DocSearch.Command

variable {arguments : List Text} {around : Surroundings} {invocation : Invocation} {out : Text}

/-! ### The program -/

/-- What a command answers is printed with a line feed behind it. -/
theorem execute_eq (hargs : Invocation.ofArguments around.settings arguments = .ok invocation)
    (h : invocation.answer around = .ok out) :
    execute arguments around = ⟨0, out ++ ['\n'], []⟩ := by
  simp [execute, hargs, h]

/-- The program ends well exactly when the command answers. -/
theorem status_eq_zero_iff (hargs : Invocation.ofArguments around.settings arguments = .ok invocation) :
    (execute arguments around).status = 0 ↔ ∃ out, invocation.answer around = .ok out := by
  cases h : invocation.answer around with
  | error failure => simp [execute, hargs, h]
  | ok out => simp [execute, hargs, h]

/-! ### Documents -/

/-- What there is to find: the documents of the input that match the query, if the settings, the query
and all documents can be read. -/
def Invocation.Finds (invocation : Invocation) (around : Surroundings) (hits : List Json) : Prop :=
  ∃ (settings : Settings) (input : Text) (e : Query.Expression) (segs : List Text)
      (documents : List Json),
    loadSettings around invocation.settings = .ok settings
    ∧ around.read invocation.file = .ok input
    ∧ Query.compile invocation.query = .ok e
    ∧ Segment.segments settings.mode input = .ok segs
    ∧ segs.map Json.read? = documents.map some
    ∧ hits = documents.filter e.matches

/-- `find` answers with the documents that there are to find. -/
theorem answer_find_iff (hverb : invocation.verb = .find) :
    invocation.answer around = .ok out ↔ ∃ hits, invocation.Finds around hits
      ∧ out = Text.joinLines (hits.map (·.print (styleOf invocation.flag))) := by
  constructor
  · intro h
    simp only [Invocation.answer, Invocation.run, hverb, bind_eq_ok, mapError_eq_ok] at h
    obtain ⟨settings, hsettings, input, hinput, hfound⟩ := h
    obtain ⟨hits, hhits, rfl⟩ := exists_of_findText hfound
    obtain ⟨e, segs, documents, he, hsegs, hread, rfl⟩ := exists_of_findDocuments hhits
    exact ⟨_, ⟨settings, input, e, segs, documents, hsettings, hinput, he, hsegs, hread, rfl⟩, rfl⟩
  · rintro ⟨_, ⟨settings, input, e, segs, documents, hsettings, hinput, he, hsegs, hread, rfl⟩, rfl⟩
    have hfound := findText_eq (styleOf invocation.flag) he hsegs hread
    simp [Invocation.answer, Invocation.run, hverb, hsettings, hinput, hfound, Query.Expression.select]

/-- Each document found was read. -/
theorem Invocation.Finds.exists_read? {hits : List Json} (h : invocation.Finds around hits) :
    ∀ hit ∈ hits, ∃ s, Json.read? s = some hit := by
  obtain ⟨_, _, e, segs, documents, -, -, -, -, hread, rfl⟩ := h
  intro hit hmem
  obtain ⟨seg, -, hseg⟩ := exists_read?_of_mem hread (List.mem_of_mem_filter hmem)
  exact ⟨seg, hseg⟩

/-- **The output of `find` is a line for each document found, if there is one**, and is read back if the
numbers are.  The program ends well exactly when there is something to search.  Then its output is an
empty line where nothing is found, and else a line for each document found, in their order.  The lines
are read as the documents again exactly when there is one and each of their numbers is read back from
its own text. -/
theorem find_lines (hargs : Invocation.ofArguments around.settings arguments = .ok invocation)
    (hverb : invocation.verb = .find) (hflag : invocation.flag = false) :
    ((execute arguments around).status = 0 ↔ ∃ hits, invocation.Finds around hits)
    ∧ ∀ hits, invocation.Finds around hits →
      (hits = [] → (execute arguments around).output = ['\n'])
      ∧ (hits ≠ [] →
        Text.IsLines (hits.map (·.print .compact)) (execute arguments around).output)
      ∧ ((∃ lines, Text.IsLines lines (execute arguments around).output
          ∧ List.Forall₂ (fun line hit => Json.read? line = some hit) lines hits)
        ↔ hits ≠ []
          ∧ ∀ hit ∈ hits, ∀ n, hit.HasNumber n → Json.read? n.json = some (.number n)) := by
  constructor
  · rw [status_eq_zero_iff hargs]
    simp [answer_find_iff hverb]
  intro hits hfinds
  have houtput : (execute arguments around).output
      = Text.joinLines (hits.map (·.print .compact)) ++ ['\n'] := by
    have hanswer := (answer_find_iff hverb).2 ⟨hits, hfinds, rfl⟩
    rw [hflag] at hanswer
    exact congrArg Outcome.output (execute_eq hargs hanswer)
  have hprinted : hits ≠ [] →
      Text.IsLines (hits.map (·.print .compact)) (execute arguments around).output := by
    intro hne
    rw [houtput, Text.isLines_joinLines_iff, List.forall_mem_map]
    exact ⟨by simpa using hne, fun hit _ => (Json.printable_print hit).not_mem⟩
  have hread : List.Forall₂ (fun line hit => Json.read? line = some hit)
        (hits.map (·.print .compact)) hits
      ↔ ∀ hit ∈ hits, ∀ n, hit.HasNumber n → Json.read? n.json = some (.number n) := by
    rw [List.forall₂_map_left_iff, List.forall₂_same]
    refine forall₂_congr fun hit hmem => ?_
    obtain ⟨s, hs⟩ := hfinds.exists_read? hit hmem
    exact Json.read?_print_iff hs Json.Style.spaced_compact
  refine ⟨?_, hprinted, ?_, ?_⟩
  · rintro rfl
    exact houtput
  · rintro ⟨lines, hlines, hback⟩
    have hne : hits ≠ [] := by
      -- no lines make no output, and there is some
      rintro rfl
      cases hback
      rw [houtput] at hlines
      exact (Text.isLines_joinLines_iff.1 hlines).1 rfl
    rw [hlines.unique (hprinted hne)] at hback
    exact ⟨hne, hread.1 hback⟩
  · rintro ⟨hne, hnumbers⟩
    exact ⟨_, hprinted hne, hread.2 hnumbers⟩

/-- Nothing is found, and an empty line printed; and a document whose number is printed so that another
is read. -/
theorem find_lines_not_read_back :
    let nothing := execute ["find".toList, "a:1".toList]
      ⟨fun _ => .absent, "[\x7b\"a\":2\x7d]".toUTF8, none⟩
    let large := execute ["find".toList, "a!:1".toList]
      ⟨fun _ => .absent, "[\x7b\"a\":5e32\x7d]".toUTF8, none⟩
    let x : Binary64 := ⟨false, 5096006472832567709, by decide⟩
    (nothing.status = 0 ∧ nothing.output = ['\n']
      ∧ ¬ ∃ lines, Text.IsLines lines nothing.output
        ∧ List.Forall₂ (fun line hit => Json.read? line = some hit) lines [])
    ∧ large.status = 0 ∧ large.output = "\x7b\"a\":5.0000000000000004e+32\x7d\n".toList
    ∧ ¬ ∃ lines, Text.IsLines lines large.output
      ∧ List.Forall₂ (fun line hit => Json.read? line = some hit) lines
        [.single ['a'] (.number (.float x))] := by
  intro nothing large x
  constructor
  · have hargs : Invocation.ofArguments
        (Surroundings.settings ⟨fun _ => .absent, "[\x7b\"a\":2\x7d]".toUTF8, none⟩)
        ["find".toList, "a:1".toList] = .ok ⟨none, .find, false, "a:1".toList, none⟩ := by decide
    have hquery : Query.compile "a:1".toList
        = .ok ⟨[⟨['a'], .equals, .number (.int ⟨1, by decide⟩)⟩], List.cons_ne_nil _ _⟩ := by
      decide +kernel
    have hfinds : Invocation.Finds ⟨none, .find, false, "a:1".toList, none⟩
        ⟨fun _ => .absent, "[\x7b\"a\":2\x7d]".toUTF8, none⟩ [] :=
      ⟨.default, "[\x7b\"a\":2\x7d]".toList, _, ["\x7b\"a\":2\x7d".toList],
        [.single ['a'] (.number (.int ⟨2, by decide⟩))], rfl, by decide +kernel, hquery, by decide, rfl,
        by decide +kernel⟩
    obtain ⟨hstatus, hlines⟩ := find_lines hargs rfl rfl
    obtain ⟨hempty, -, hback⟩ := hlines [] hfinds
    exact ⟨hstatus.2 ⟨[], hfinds⟩, hempty rfl, fun h => (hback.1 h).1 rfl⟩
  · have hargs : Invocation.ofArguments
        (Surroundings.settings ⟨fun _ => .absent, "[\x7b\"a\":5e32\x7d]".toUTF8, none⟩)
        ["find".toList, "a!:1".toList] = .ok ⟨none, .find, false, "a!:1".toList, none⟩ := by decide
    have hquery : Query.compile "a!:1".toList
        = .ok ⟨[⟨['a'], .notEquals, .number (.int ⟨1, by decide⟩)⟩], List.cons_ne_nil _ _⟩ := by
      decide +kernel
    have hregular : Json.Regular Json.maxDepth (.single ['a'] (.number (.float x))) :=
      .object (List.pairwise_singleton ..) (List.forall_mem_singleton.2 (.number _))
    have hread : Json.read? "\x7b\"a\":5e32\x7d".toList
        = some (.single ['a'] (.number (.float x))) :=
      Json.read?_eq_some_of_print hregular Json.Style.spaced_compact (by decide +kernel)
    have hfinds : Invocation.Finds ⟨none, .find, false, "a!:1".toList, none⟩
        ⟨fun _ => .absent, "[\x7b\"a\":5e32\x7d]".toUTF8, none⟩
        [.single ['a'] (.number (.float x))] := by
      refine ⟨.default, "[\x7b\"a\":5e32\x7d]".toList, _, ["\x7b\"a\":5e32\x7d".toList],
        [.single ['a'] (.number (.float x))], rfl, by decide +kernel, hquery, by decide, ?_, ?_⟩
      · rw [List.map_singleton, List.map_singleton, hread]
      · exact (List.filter_eq_self.2 (List.forall_mem_singleton.2 (by decide +kernel))).symm
    have hother : (Json.read? (Number.float x).json).map (·.print .compact)
        ≠ some (Number.float x).json := by decide +kernel
    obtain ⟨hstatus, hlines⟩ := find_lines hargs rfl rfl
    obtain ⟨-, hprinted, hback⟩ := hlines _ hfinds
    refine ⟨hstatus.2 ⟨_, hfinds⟩, (hprinted (List.cons_ne_nil _ _)).2.trans ?_, fun h => hother ?_⟩
    · decide +kernel
    · rw [(hback.1 h).2 _ List.mem_cons_self (.float x) (.member List.mem_cons_self .here)]
      rfl

/-! ### Objects -/

/-- **The output of `segment` is a line for each object, if there is one and all were lines.**  The
program ends well where the input can be split, and puts a line feed behind each object as it stands.
So the objects are the lines of the output, and are given back by splitting it at line feeds, exactly
when there is an object and none spans lines; where there is none the output is an empty line. -/
theorem segment_lines {settings : Settings} {input : Text} {segs : List Text}
    (hargs : Invocation.ofArguments around.settings arguments = .ok invocation)
    (hverb : invocation.verb = .segment)
    (hsettings : loadSettings around invocation.settings = .ok settings)
    (hinput : around.read invocation.file = .ok input)
    (hsegs : Segment.segments (if invocation.flag then .quoteBlind else settings.mode) input
      = .ok segs) :
    (execute arguments around).status = 0
    ∧ (Text.IsLines segs (execute arguments around).output
      ↔ segs ≠ [] ∧ ∀ seg ∈ segs, '\n' ∉ seg)
    ∧ (segs ≠ [] → (∀ seg ∈ segs, '\n' ∉ seg) →
      (execute arguments around).output.splitOn '\n' = segs ++ [[]])
    ∧ (segs ≠ [] → (execute arguments around).output = segs.flatMap (· ++ ['\n']))
    ∧ (segs = [] → (execute arguments around).output = ['\n']) := by
  have hanswer : invocation.answer around = .ok (Text.joinLines segs) := by
    simp [Invocation.answer, Invocation.run, hverb, hsettings, hinput, segmentText, hsegs]
  rw [execute_eq hargs hanswer]
  refine ⟨rfl, Text.isLines_joinLines_iff, fun hne hline => ?_, fun hne => ?_, ?_⟩
  · exact (Text.isLines_joinLines_iff.2 ⟨hne, hline⟩).splitOn_eq
  · exact (Text.flatMap_append_eq_joinLines hne).symm
  · rintro rfl
    rfl

/-- No object, and an empty line printed; two objects, of which the first is printed on two lines. -/
theorem segment_lines_spanning :
    let nothing := execute ["segment".toList] ⟨fun _ => .absent, "[]".toUTF8, none⟩
    let spanning := execute ["segment".toList]
      ⟨fun _ => .absent, "[\x7ba:\n1\x7d, \x7bb:2\x7d]".toUTF8, none⟩
    (nothing.status = 0 ∧ nothing.output = ['\n'] ∧ ¬ Text.IsLines [] nothing.output)
    ∧ spanning.status = 0 ∧ spanning.output = "\x7ba:\n1\x7d\n\x7bb:2\x7d\n".toList
    ∧ ¬ Text.IsLines ["\x7ba:\n1\x7d".toList, "\x7bb:2\x7d".toList] spanning.output := by
  have hnone : Invocation.ofArguments none ["segment".toList]
      = .ok ⟨none, .segment, false, [], none⟩ := by decide
  have hargs : ∀ entry input, Invocation.ofArguments
      (Surroundings.settings ⟨entry, input, none⟩) ["segment".toList]
      = .ok ⟨none, .segment, false, [], none⟩ := fun _ _ => hnone
  have hsettings : ∀ around, loadSettings around none = .ok .default := fun _ => rfl
  constructor
  · have hinput : Surroundings.read ⟨fun _ => .absent, "[]".toUTF8, none⟩ none = .ok "[]".toList := by
      decide +kernel
    have hsegs : Segment.segments .quoteAware "[]".toList = .ok [] := by decide
    obtain ⟨hstatus, hlines, -, -, hempty⟩ := segment_lines (hargs _ _) rfl (hsettings _) hinput hsegs
    exact ⟨hstatus, hempty rfl, fun h => (hlines.1 h).1 rfl⟩
  · have hinput : Surroundings.read
        ⟨fun _ => .absent, "[\x7ba:\n1\x7d, \x7bb:2\x7d]".toUTF8, none⟩ none
        = .ok "[\x7ba:\n1\x7d, \x7bb:2\x7d]".toList := by decide +kernel
    have hsegs : Segment.segments .quoteAware "[\x7ba:\n1\x7d, \x7bb:2\x7d]".toList
        = .ok ["\x7ba:\n1\x7d".toList, "\x7bb:2\x7d".toList] := by decide +kernel
    obtain ⟨hstatus, hlines, -, houtput, -⟩ := segment_lines (hargs _ _) rfl (hsettings _) hinput hsegs
    refine ⟨hstatus, houtput (by simp), fun h => ?_⟩
    exact absurd (hlines.1 h).2 (by decide)

end DocSearch.Command
