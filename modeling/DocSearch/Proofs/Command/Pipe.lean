import DocSearch.Proofs.Command.Lines
import DocSearch.Proofs.Json.RoundTrip
import DocSearch.Proofs.Query.Conjunction

/-!
# Command line — output taken as input

What `segment` and `find` print, put between square brackets, is an array that they take again.  Its
segments are the texts that were printed, for these are objects on lines of their own
(`Segment.segments_of_joinLines`).

* So `segment` prints them once more (`segment_again`).
* If `find` reads each as the document that it was printed from, which is to say that the numbers are
  read back (`Json.read?_print_iff`), then searching the array selects among the documents found.  That
  is selecting by both queries at once (`Query.Expression.select_and`): `find_among_found`.
-/

namespace DocSearch.Command

open Segment (ObjectText)

variable {mode : Segment.Mode} {style : Json.Style} {query t out : Text} {segs : List Text}
  {items : List Json}

/-! ### Splitting what was split -/

/-- The arguments ask for the segments of a text, in the given mode. -/
def Splits (arguments : List Text) (around : Surroundings) (mode : Segment.Mode) (input : Text) :
    Prop :=
  ∃ (invocation : Invocation) (settings : Settings),
    Invocation.ofArguments around.settings arguments = .ok invocation ∧ invocation.verb = .segment
    ∧ loadSettings around invocation.settings = .ok settings
    ∧ around.read invocation.file = .ok input
    ∧ mode = if invocation.flag then .quoteBlind else settings.mode

theorem Splits.execute_eq {arguments : List Text} {around : Surroundings} {input : Text}
    (h : Splits arguments around mode input) (hsegs : Segment.segments mode input = .ok segs) :
    execute arguments around = ⟨0, Text.joinLines segs ++ ['\n'], []⟩ := by
  obtain ⟨invocation, settings, hargs, hverb, hsettings, hinput, rfl⟩ := h
  refine Command.execute_eq hargs ?_
  simp [Invocation.answer, Invocation.run, hverb, hsettings, hinput, segmentText, hsegs]

/-- **Splitting what was split changes nothing.**  The segments of an input, in a row between brackets
with any ordinary text around them, are its segments in the same mode.  So what the program prints
when it is asked for segments, put between brackets, makes it print that again. -/
theorem segment_again {input : Text} (h : Segment.segments mode input = .ok segs) :
    (∀ s, Segment.Row mode segs s → Segment.segments mode ('[' :: s ++ [']']) = .ok segs)
    ∧ ∀ arguments around, Splits arguments around mode input →
      ∃ out, execute arguments around = ⟨0, out, []⟩
        ∧ ∀ arguments' around', Splits arguments' around' mode ('[' :: out ++ [']']) →
          execute arguments' around' = ⟨0, out, []⟩ := by
  have hrow : ∀ s, Segment.Row mode segs s → Segment.segments mode ('[' :: s ++ [']']) = .ok segs :=
    fun s hs => Segment.segments_row (Segment.enclosed_of_segments h) hs (Segment.trim_bracketed s)
  refine ⟨hrow, fun arguments around hsplits => ⟨_, hsplits.execute_eq h, ?_⟩⟩
  intro arguments' around' hsplits'
  -- the line feed at the end of the output is ordinary text as well
  exact hsplits'.execute_eq (hrow _ (.joinLines segs (Segment.Ordinary.feed mode)))

/-- A brace in a literal and an object that spans lines, in a row with other text than before; and
output with a quote left open, where quotes are not heeded. -/
theorem segment_again_spanning :
    Segment.segments .quoteAware "[, \x7ba: '\x7d'\x7d\t\x7b\n\x7d;]".toList
        = .ok ["\x7ba: '\x7d'\x7d".toList, "\x7b\n\x7d".toList]
    ∧ execute ["segment".toList, "--unguarded".toList]
        ⟨fun _ => .absent, "['\x7b\n\x7d' \x7b\"\x7d]".toUTF8, none⟩
      = ⟨0, "\x7b\n\x7d\n\x7b\"\x7d\n".toList, []⟩
    ∧ execute ["segment".toList, "--unguarded".toList]
        ⟨fun _ => .absent, "[\x7b\n\x7d\n\x7b\"\x7d\n]".toUTF8, none⟩
      = ⟨0, "\x7b\n\x7d\n\x7b\"\x7d\n".toList, []⟩ := by
  constructor
  · have h : Segment.segments .quoteAware "[1 \x7ba: '\x7d'\x7d 'x' \x7b\n\x7d]".toList
        = .ok ["\x7ba: '\x7d'\x7d".toList, "\x7b\n\x7d".toList] := rfl
    exact (segment_again h).1 ", \x7ba: '\x7d'\x7d\t\x7b\n\x7d;".toList
      ⟨", ".toList, ["\t".toList, ";".toList], rfl, by decide,
        List.forall_mem_cons.2 ⟨by decide, List.forall_mem_singleton.2 (by decide)⟩, rfl⟩
  · have h : Segment.segments .quoteBlind "['\x7b\n\x7d' \x7b\"\x7d]".toList
        = .ok ["\x7b\n\x7d".toList, "\x7b\"\x7d".toList] := rfl
    have hargs : Invocation.ofArguments none ["segment".toList, "--unguarded".toList]
        = .ok ⟨none, .segment, true, [], none⟩ := by decide
    have hsplits : ∀ {bytes : ByteArray} {input : Text}, textOf bytes = .ok input →
        Splits ["segment".toList, "--unguarded".toList] ⟨fun _ => .absent, bytes, none⟩ .quoteBlind
          input :=
      fun hinput => ⟨⟨none, .segment, true, [], none⟩, .default, hargs, rfl, rfl, hinput, rfl⟩
    have hfirst : Splits _ ⟨_, "['\x7b\n\x7d' \x7b\"\x7d]".toUTF8, none⟩ _
        "['\x7b\n\x7d' \x7b\"\x7d]".toList := hsplits (by decide +kernel)
    obtain ⟨out, hout, hagain⟩ := (segment_again h).2 _ _ hfirst
    obtain rfl : "\x7b\n\x7d\n\x7b\"\x7d\n".toList = out :=
      congrArg Outcome.output ((hfirst.execute_eq h).symm.trans hout)
    exact ⟨hout, hagain _ _ (hsplits (by decide +kernel))⟩

/-! ### Finding among what was found -/

/-- What is printed of an object is a text of that object, if the object is read back from it. -/
theorem objectText_print {members : List (Text × Json)}
    (h : Json.read? ((Json.object members).print style) = some (.object members)) :
    ObjectText ((Json.object members).print style) (.object members) := by
  refine ⟨?_, h⟩
  cases members with
  | nil => exact ⟨[], rfl⟩
  | cons m members =>
    refine ⟨style.gap 1 ++ Json.writeMember style 1 m ++ Json.writeMembers style 1 members
      ++ style.gap 0, ?_⟩
    simp [Json.print, Json.write]

/-- The printed texts of some objects, on lines between brackets, are searched as those objects, if they
are read back. -/
theorem findText_joinLines {e : Query.Expression} (style' : Json.Style)
    (hquery : Query.compile query = .ok e)
    (hobj : ∀ item ∈ items, ∃ members, item = .object members)
    (hback : ∀ item ∈ items, Json.read? (item.print style) = some item) :
    findText .quoteAware style' query ('[' :: Text.joinLines (items.map (·.print style)) ++ [']'])
      = .ok (Text.joinLines ((e.select items).map (·.print style'))) := by
  have hobjects : ∀ text ∈ items.map (·.print style), Segment.Enclosed .quoteAware text := by
    rw [List.forall_mem_map]
    intro item hitem
    obtain ⟨members, rfl⟩ := hobj item hitem
    exact (objectText_print (hback _ hitem)).enclosed
  have hread : (items.map (·.print style)).map Json.read? = items.map some := by
    rw [List.map_map]
    exact List.map_congr_left hback
  exact findText_eq style' hquery (Segment.segments_of_joinLines hobjects) hread

/-- **Finding among what was found is finding by both queries**, if what was found is read back from what
is printed of it.  If a search succeeds, what it prints, put between brackets, can be searched by every
query; that gives what the two queries with blank text between them give of the first input, in the
style of the last search.  Searching again by the same query changes nothing. -/
theorem find_among_found {query' w : Text} {e' : Query.Expression} {pretty : Bool}
    (hfind : findText .quoteAware (styleOf pretty) query t = .ok out)
    (hback : ∀ hits, findDocuments .quoteAware query t = .ok hits →
      ∀ hit ∈ hits, Json.read? (hit.print (styleOf pretty)) = some hit)
    (hquery' : Query.compile query' = .ok e') (hw : Query.Blank w) (hne : w ≠ []) :
    (∀ pretty', ∃ found,
      findText .quoteAware (styleOf pretty') query' ('[' :: out ++ [']']) = .ok found
      ∧ findText .quoteAware (styleOf pretty') (query ++ w ++ query') t = .ok found)
    ∧ findText .quoteAware (styleOf pretty) query ('[' :: out ++ [']']) = .ok out := by
  obtain ⟨hits, hhits, rfl⟩ := exists_of_findText hfind
  have hhitsBack := hback hits hhits
  obtain ⟨e, segs, items, hquery, hsegs, hread, rfl⟩ := exists_of_findDocuments hhits
  have hobj : ∀ item ∈ e.select items, ∃ members, item = .object members :=
    fun item hitem => Segment.exists_members_of_segments hsegs hread item
      (List.mem_of_mem_filter hitem)
  constructor
  · intro pretty'
    refine ⟨_, findText_joinLines (styleOf pretty') hquery' hobj hhitsBack, ?_⟩
    rw [findText_eq (styleOf pretty') (Query.compile_append_ok hquery hw hne hquery') hsegs hread,
      Query.Expression.select_and]
  · rw [findText_joinLines (styleOf pretty) hquery hobj hhitsBack]
    have hagain : e.select (e.select items) = e.select items := by
      simp [Query.Expression.select]
    rw [hagain]

/-- From an input that is no JSON as a whole, with a brace in a text, and printed on several
lines. -/
theorem find_among_found_relaxed :
    let input : Text := "[1; \x7b\"a\":\"\x7d\\\"\",\"b\":2\x7d x \x7b\"a\":1.50\x7d]".toList
    let out : Text :=
      "\x7b\n  \"a\": \"\x7d\\\"\",\n  \"b\": 2\n\x7d\n\x7b\n  \"a\": 1.5\n\x7d".toList
    findText .quoteAware .pretty "b!:3".toList input = .ok out
    ∧ findText .quoteAware .compact "a:1.5".toList ('[' :: out ++ [']'])
      = .ok "\x7b\"a\":1.5\x7d".toList := by
  intro input out
  have hfind : findText .quoteAware (styleOf true) "b!:3".toList input = .ok out := by
    decide +kernel
  have hback : ∀ hits, findDocuments .quoteAware "b!:3".toList input = .ok hits →
      ∀ hit ∈ hits, Json.read? (hit.print (styleOf true)) = some hit := by
    intro hits hhits hit hmem
    -- documents are told apart by their texts, so it is enough to print what is read
    have hprint : (findDocuments .quoteAware "b!:3".toList input).map (·.map fun hit =>
          (Json.read? (hit.print .pretty)).map (·.print .pretty))
        = (findDocuments .quoteAware "b!:3".toList input).map (·.map fun hit =>
          some (hit.print .pretty)) := by
      decide +kernel
    rw [hhits] at hprint
    obtain ⟨s, hs⟩ := exists_read?_of_findDocuments hhits hmem
    exact Json.read?_eq_some_of_print (Json.regular_of_read? hs) Json.Style.spaced_pretty
      (List.map_inj_left.1 (Except.ok.inj hprint) hit hmem)
  have hquery' : Query.compile "a:1.5".toList
      = .ok ⟨[⟨['a'], .equals, .number (.float ⟨false, 0x3FF8000000000000, by decide⟩)⟩],
          List.cons_ne_nil _ _⟩ := by
    decide +kernel
  have hboth : findText .quoteAware .compact ("b!:3".toList ++ [' '] ++ "a:1.5".toList) input
      = .ok "\x7b\"a\":1.5\x7d".toList := by
    decide +kernel
  have hblank : Query.Blank [' '] := by decide
  obtain ⟨found, hpiped, hsame⟩ :=
    (find_among_found hfind hback hquery' hblank (List.cons_ne_nil _ _)).1 false
  exact ⟨hfind, hpiped.trans (hsame.symm.trans hboth)⟩

end DocSearch.Command
