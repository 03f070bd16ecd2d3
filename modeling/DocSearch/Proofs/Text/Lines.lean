import DocSearch.Text.Basic

/-!
# Text — lines

A text is made of lines when a line feed ends each of them and no other stands in it (`IsLines`).  The
lines of a text are the pieces that it splits into at its line feeds, less the empty piece behind the
last, so a text has its lines in one way only (`IsLines.unique`).

Joining some texts and ending the last makes them the lines of one, as long as there is a text to end
and none of them spans lines itself (`isLines_joinLines_iff`).  Without any, the line feed at the end
makes one line of its own.
-/

namespace DocSearch.Text

variable {lines lines' : List Text} {s : Text}

/-- A text is the given lines, each ended by the only line feed in it. -/
def IsLines (lines : List Text) (s : Text) : Prop :=
  (∀ line ∈ lines, '\n' ∉ line) ∧ s = lines.flatMap (· ++ ['\n'])

/-- Ended one by one, lines are joined and ended. -/
theorem flatMap_append_eq_joinLines (h : lines ≠ []) :
    lines.flatMap (· ++ ['\n']) = joinLines lines ++ ['\n'] := by
  induction lines with
  | nil => exact absurd rfl h
  | cons line lines ih =>
    cases lines with
    | nil => simp [joinLines]
    | cons line' lines =>
      rw [List.flatMap_cons, ih (List.cons_ne_nil _ _), joinLines, joinLines,
        List.intercalate_cons_cons, List.append_assoc, List.append_assoc, List.append_assoc]

/-- Splitting at line feeds gives the lines, and the empty text behind the last. -/
theorem IsLines.splitOn_eq (h : IsLines lines s) : s.splitOn '\n' = lines ++ [[]] := by
  obtain ⟨hlines, rfl⟩ := h
  induction lines with
  | nil => rfl
  | cons line lines ih =>
    obtain ⟨hline, hlines⟩ := List.forall_mem_cons.1 hlines
    rw [List.flatMap_cons, List.append_assoc, List.singleton_append,
      List.splitOn_append_cons_self_of_not_mem hline, ih hlines, List.cons_append]

theorem IsLines.unique (h : IsLines lines s) (h' : IsLines lines' s) : lines = lines' :=
  List.append_cancel_right (h.splitOn_eq.symm.trans h'.splitOn_eq)

/-- When texts that are joined and ended are the lines of the whole. -/
theorem isLines_joinLines_iff :
    IsLines lines (joinLines lines ++ ['\n']) ↔ lines ≠ [] ∧ ∀ line ∈ lines, '\n' ∉ line := by
  constructor
  · rintro ⟨hlines, htext⟩
    refine ⟨?_, hlines⟩
    rintro rfl
    simp [joinLines] at htext
  · rintro ⟨hne, hlines⟩
    exact ⟨hlines, (flatMap_append_eq_joinLines hne).symm⟩

end DocSearch.Text
