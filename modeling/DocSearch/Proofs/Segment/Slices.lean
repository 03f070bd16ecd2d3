import DocSearch.Proofs.Segment.Scan
import DocSearch.Proofs.Text.Slices

/-!
# Segments — objects as slices

The segments of an array are not copied: they are slices of its body, which is a slice of the text
between the brackets, from its first opening brace on.  The reader goes by positions in the body and
remembers where the outermost open object begins; the object ends with the closing brace, and so one byte
behind the position of it (`Sliced.scan`).

No slice fails, and the slices are the objects that `scan` keeps character by character (`cuts_scan`,
`cuts_segments`).  An object begins and ends with its braces, so nothing is trimmed from it
(`trimObject_ofList`).
-/

namespace DocSearch.Segment

/-! ### The programs -/

namespace Sliced

/-- A slice without the blank characters and commas at its two ends. -/
def trimObject (s : String) : String :=
  let drop := List.dropWhile fun c => c = ',' || isBlank c
  String.ofList (drop (drop s.toList).reverse).reverse

/-- The objects of a body that stands behind `first` bytes, inside `depth` objects, the outermost of
which begins at the position `start`. -/
def scan (mode : Mode) (body : String) (first : Nat) (literal : Literal) (depth start : Nat) :
    List (Nat × Char) → Slicing (Except Error (List String))
  | [] =>
    if literal ≠ .outside then pure (.error .openLiteral)
    else if depth ≠ 0 then pure (.error (.openObjects depth))
    else pure (.ok [])
  | (i, c) :: places =>
    if literal.isPlain mode c ∧ c = '\x7b' then
      scan mode body first .outside (depth + 1) (if depth = 0 then i else start) places
    else if literal.isPlain mode c ∧ c = '\x7d' then
      match depth with
      | 0 => pure (.error (.unbalanced (first + i + 1)))
      | 1 => do
        let object ← cut body start (i + 1)
        let objects ← scan mode body first .outside 0 start places
        pure (objects.map (trimObject object :: ·))
      | depth + 2 => scan mode body first .outside (depth + 1) start places
    else scan mode body first (literal.step mode c) depth start places

@[inherit_doc Segment.segments] def segments (mode : Mode) (input : String) :
    Slicing (Except Error (List String)) :=
  match (inner? (Text.trim input.toList)).map String.ofList with
  | none => pure (.error .notBracketed)
  | some inner =>
    match (places inner).find? fun place => place.2 = '\x7b' with
    | none => pure (.ok [])
    | some (first, _) => do
      let body ← cut inner first inner.utf8ByteSize
      scan mode body first .outside 0 0 (places body)

end Sliced

/-! ### What they cut -/

/-- The objects of a text that are complete where reading stops. -/
def objects (mode : Mode) (literal : Literal) (depth : Nat) (started : Text) : Text → List Text
  | [] => []
  | c :: s =>
    if literal.isPlain mode c ∧ c = '\x7b' then objects mode .outside (depth + 1) (c :: started) s
    else if literal.isPlain mode c ∧ c = '\x7d' then
      match depth with
      | 0 => []
      | 1 => (c :: started).reverse :: objects mode .outside 0 [] s
      | depth + 2 => objects mode .outside (depth + 1) (c :: started) s
    else objects mode (literal.step mode c) depth (if depth = 0 then [] else c :: started) s

/-- What is cut of an array: the body if there is a brace, and the objects in it. -/
def slices (mode : Mode) (input : Text) : List Text :=
  match inner? input.trim with
  | none => []
  | some inner =>
    match inner.dropWhile (· ≠ '\x7b') with
    | [] => []
    | body => body :: objects mode .outside 0 [] body

variable {mode : Mode} {literal : Literal} {depth start offset position first : Nat}
  {started front rest s : Text} {body : String}

/-- Where reading ends without error these are the segments. -/
theorem objects_of_scan {segs : List Text}
    (h : scan mode literal depth started offset s = .ok segs) :
    objects mode literal depth started s = segs := by
  induction s generalizing literal depth started offset segs with
  | nil =>
    rw [scan] at h
    split at h
    · cases h
    · split at h <;> cases h
      rfl
  | cons c s ih =>
    rw [scan.eq_def] at h
    rw [objects.eq_def]
    dsimp only at h ⊢
    split at h
    · next hopen => rw [if_pos hopen, ih h]
    · next hopen =>
      rw [if_neg hopen]
      split at h
      · next hclose =>
        rw [if_pos hclose]
        rcases depth with _ | _ | depth
        · cases h
        · obtain ⟨segs', hsegs, rfl⟩ := map_eq_ok.1 h
          exact congrArg _ (ih hsegs)
        · exact ih h
      · next hclose => rw [if_neg hclose, ih h]

/-- So all slices of an array but its body are its segments, if it has any. -/
theorem tail_slices {input : Text} {segs : List Text} (h : segments mode input = .ok segs) :
    (slices mode input).tail = segs := by
  unfold segments at h
  unfold slices
  cases hinner : inner? input.trim with
  | none =>
    rw [hinner] at h
    cases h
  | some inner =>
    rw [hinner] at h
    have hobjects := objects_of_scan h
    dsimp only
    cases hbody : inner.dropWhile (· ≠ '\x7b') with
    | nil =>
      rw [hbody] at hobjects
      exact hobjects
    | cons c rest =>
      rw [hbody] at hobjects
      exact hobjects

theorem trimObject_ofList (t : Text) :
    Sliced.trimObject (String.ofList ('\x7b' :: t ++ ['\x7d']))
      = String.ofList ('\x7b' :: t ++ ['\x7d']) := by
  have hopen : isBlank '\x7b' = false := by decide
  have hclose : isBlank '\x7d' = false := by decide
  simp [Sliced.trimObject, hopen, hclose]

/-- Of the outermost open object the characters `started` have been read, from the position `start`
behind a text on. -/
def BegunAt (front started : Text) (start : Nat) : Nat → Prop
  | 0 => started = []
  | _ + 1 => start = Text.byteSize front ∧ ∃ t, started.reverse = '\x7b' :: t

theorem BegunAt.cons {depth' : Nat} (h : BegunAt front started start (depth + 1)) (c : Char) :
    BegunAt front (c :: started) start (depth' + 1) := by
  obtain ⟨hstart, t, ht⟩ := h
  exact ⟨hstart, t ++ [c], by rw [List.reverse_cons, ht, List.cons_append]⟩

theorem cuts_scan (h : body.toList = front ++ (started.reverse ++ rest))
    (hposition : position = Text.byteSize (front ++ started.reverse))
    (hbegun : BegunAt front started start depth) :
    Cuts (Sliced.scan mode body first literal depth start (placesFrom position rest))
      (objects mode literal depth started rest)
      ((scan mode literal depth started (1 + first + position) rest).map
        (List.map String.ofList)) := by
  induction rest generalizing literal depth started start front position with
  | nil =>
    rw [placesFrom, Sliced.scan, objects, scan]
    split
    · exact .pure _
    · split <;> exact .pure _
  | cons c rest ih =>
    have hgo : body.toList = front ++ ((c :: started).reverse ++ rest) := by
      rw [h]
      simp
    have hgoPosition : position + c.utf8Size = Text.byteSize (front ++ (c :: started).reverse) := by
      rw [hposition, List.reverse_cons, ← List.append_assoc, Text.byteSize_append _ [c]]
      rfl
    -- outside objects all that has been read is in front of what comes next
    have hend : body.toList = front ++ (c :: started).reverse ++ ([].reverse ++ rest) :=
      hgo.trans (List.append_assoc ..).symm
    have hendPosition : position + c.utf8Size
        = Text.byteSize (front ++ (c :: started).reverse ++ [].reverse) := by
      rw [hgoPosition, List.reverse_nil, List.append_nil]
    rw [placesFrom, Sliced.scan.eq_def, objects.eq_def, scan.eq_def]
    dsimp only
    rw [Nat.add_assoc (1 + first)]
    split
    · next hopen =>
      obtain ⟨-, rfl⟩ := hopen
      cases depth with
      | zero =>
        obtain rfl : started = [] := hbegun
        rw [List.reverse_nil, List.append_nil] at hposition
        exact ih hgo hgoPosition ⟨hposition, [], rfl⟩
      | succ depth => exact ih hgo hgoPosition (hbegun.cons _)
    · split
      · next hclose =>
        obtain ⟨-, rfl⟩ := hclose
        rcases depth with _ | _ | depth
        · have hoffset : first + position + 1 = 1 + first + position := by omega
          rw [hoffset]
          exact .pure _
        · obtain ⟨rfl, t, ht⟩ := hbegun
          have htrim : Sliced.trimObject (String.ofList ('\x7d' :: started).reverse)
              = String.ofList ('\x7d' :: started).reverse := by
            rw [List.reverse_cons, ht]
            exact trimObject_ofList t
          have hobjects : Cuts (Sliced.scan mode body first .outside 0 (Text.byteSize front)
              (placesFrom (position + '\x7d'.utf8Size) rest)) _ _ := ih hend hendPosition rfl
          have hall := cuts_cut_cons hgo htrim hobjects
          rw [← hgoPosition] at hall
          exact hall
        · exact ih hgo hgoPosition (hbegun.cons _)
      · next hopen hclose =>
        cases depth with
        | zero =>
          obtain rfl : started = [] := hbegun
          exact ih hend hendPosition rfl
        | succ depth => exact ih hgo hgoPosition (hbegun.cons _)

/-- A character is found where the first of its kind stands. -/
theorem find?_placesFrom (brace : Char) (position : Nat) (t : Text) :
    (placesFrom position t).find? (fun place => place.2 = brace)
      = if (t.dropWhile (· ≠ brace)).isEmpty then none
        else some (position + Text.byteSize (t.takeWhile (· ≠ brace)), brace) := by
  induction t generalizing position with
  | nil => rfl
  | cons c t ih =>
    by_cases hc : c = brace
    · simp [placesFrom, hc, Text.byteSize]
    · simp [placesFrom, hc, Text.byteSize, ih, Nat.add_assoc]

/-- **Objects are cut out of an array** without fail. -/
theorem cuts_segments (mode : Mode) (input : String) :
    Cuts (Sliced.segments mode input) (slices mode input.toList)
      ((segments mode input.toList).map (List.map String.ofList)) := by
  unfold Sliced.segments slices segments
  cases inner? (Text.trim input.toList) with
  | none => exact .pure _
  | some inner =>
    rw [Option.map_some]
    dsimp only
    rw [places, find?_placesFrom, String.toList_ofList, Nat.zero_add]
    cases hbody : inner.dropWhile (· ≠ '\x7b') with
    | nil => exact .pure _
    | cons c rest =>
      have hinner : (String.ofList inner).toList
          = inner.takeWhile (· ≠ '\x7b') ++ inner.dropWhile (· ≠ '\x7b') := by
        rw [String.toList_ofList, List.takeWhile_append_dropWhile]
      have hwhole : (String.ofList (c :: rest)).toList = [] ++ ([].reverse ++ (c :: rest)) :=
        String.toList_ofList
      refine (hbody ▸ cuts_cut_end hinner).bind ?_
      rw [places, String.toList_ofList]
      exact cuts_scan hwhole rfl rfl

end DocSearch.Segment
