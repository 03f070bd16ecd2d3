import DocSearch.Proofs.Segment.Rows

/-!
# Segments — what is reported of an array that does not balance

Two things can be wrong with the braces of an array, and each is reported with a number.

* A closing brace may stand outside literals with no open brace to close (`Stray`).  Then the first
  such brace ends the reading, and where it stands is reported (`scan_eq_unbalanced_iff`).  The place
  is counted in the trimmed text.  In the array as it was given the brace stands as much further behind
  as there are blank bytes in front, so what is reported is its place there exactly if there are none
  (`unbalanced_offset_iff`).
* Objects may be open at the end, outside literals.  Their number is reported, and it is the number of
  closing braces that are missing: with so many in front of the closing bracket the array has segments,
  and with any other number it has not (`segments_closed_iff`).  They are the objects that were complete,
  and one more that begins at the first brace closed nowhere.
-/

namespace DocSearch.Segment

variable {mode : Mode} {literal : Literal} {depth depth' offset n : Nat} {started s t front : Text}
  {c : Char} {input place : Text}

/-! ### Stray braces -/

/-- What a character adds to the number of open objects. -/
def weight (literal : Literal) (c : Char) : Int :=
  if literal ≠ .outside then 0
  else if c = '\x7b' then 1
  else if c = '\x7d' then -1
  else 0

theorem weight_open : weight .outside '\x7b' = 1 := rfl

theorem weight_close : weight .outside '\x7d' = -1 := rfl

theorem weight_eq_zero (h : literal = .outside → c ≠ '\x7b' ∧ c ≠ '\x7d') :
    weight literal c = 0 := by
  unfold weight
  split
  · rfl
  · next hl =>
    obtain ⟨hopen, hclose⟩ := h (Decidable.of_not_not hl)
    rw [if_neg hopen, if_neg hclose]

/-- The opening braces outside literals, less the closing ones. -/
def balance (mode : Mode) : Literal → Text → Int
  | _, [] => 0
  | literal, c :: s => weight literal c + balance mode (literal.step mode c) s

/-- Behind this text, read inside so many objects, a closing brace stands outside literals and has no
open brace to close. -/
structure Stray (mode : Mode) (literal : Literal) (depth : Nat) (front : Text) : Prop where
  outside : literal.run mode front = .outside
  unmatched : depth + balance mode literal front ≤ 0

/-- The leftmost closing brace of a text that is stray stands behind this part of it. -/
structure FirstStray (mode : Mode) (literal : Literal) (depth : Nat) (s front : Text) : Prop where
  brace : ∃ back, s = front ++ '\x7d' :: back
  stray : Stray mode literal depth front
  leftmost : ∀ front' back, s = front' ++ '\x7d' :: back → Stray mode literal depth front' →
    front.length ≤ front'.length

theorem Stray.cons_iff (h : (depth' : Int) = depth + weight literal c) :
    Stray mode literal depth (c :: front) ↔ Stray mode (literal.step mode c) depth' front := by
  have hbalance : depth + balance mode literal (c :: front)
      = depth' + balance mode (literal.step mode c) front := by
    rw [balance, h, Int.add_assoc]
  constructor
  · rintro ⟨houtside, hle⟩
    exact ⟨houtside, hbalance ▸ hle⟩
  · rintro ⟨houtside, hle⟩
    exact ⟨houtside, hbalance ▸ hle⟩

namespace FirstStray

theorem not_nil : ¬ FirstStray mode literal depth [] front := by
  rintro ⟨⟨back, h⟩, -⟩
  simp at h

/-- There is one leftmost stray brace. -/
theorem unique {front' : Text} (h : FirstStray mode literal depth s front)
    (h' : FirstStray mode literal depth s front') : front = front' := by
  obtain ⟨back, hs⟩ := h.brace
  obtain ⟨back', hs'⟩ := h'.brace
  have hlength := Nat.le_antisymm (h.leftmost _ _ hs' h'.stray) (h'.leftmost _ _ hs h.stray)
  exact (List.append_inj (hs.symm.trans hs') hlength).1

/-- A character behind which so many objects are open is no stray brace. -/
theorem cons_iff (h : (depth' : Int) = depth + weight literal c) :
    FirstStray mode literal depth (c :: s) front
      ↔ ∃ front', front = c :: front' ∧ FirstStray mode (literal.step mode c) depth' s front' := by
  have hfirst : ∀ {back}, c :: s = '\x7d' :: back → ¬ Stray mode literal depth [] := by
    rintro back hs ⟨houtside, hle⟩
    obtain rfl : literal = .outside := houtside
    obtain ⟨rfl, -⟩ := List.cons.inj hs
    rw [weight_close] at h
    rw [balance] at hle
    omega
  constructor
  · rintro ⟨⟨back, hs⟩, hstray, hleft⟩
    cases front with
    | nil => exact absurd hstray (hfirst hs)
    | cons d front =>
      obtain ⟨rfl, rfl⟩ := List.cons.inj hs
      refine ⟨front, rfl, ⟨back, rfl⟩, (Stray.cons_iff h).1 hstray, fun front' back' hs' h' => ?_⟩
      have := hleft (c :: front') back' (by rw [hs', List.cons_append]) ((Stray.cons_iff h).2 h')
      simpa using this
  · rintro ⟨front, rfl, ⟨back, rfl⟩, hstray, hleft⟩
    refine ⟨⟨back, rfl⟩, (Stray.cons_iff h).2 hstray, fun front' back' hs' h' => ?_⟩
    cases front' with
    | nil => exact absurd h' (hfirst hs')
    | cons d front' =>
      obtain ⟨rfl, hrest⟩ := List.cons.inj hs'
      have := hleft front' back' hrest ((Stray.cons_iff h).1 h')
      simpa using this

/-- A closing brace outside literals, with no object open. -/
theorem close_iff : FirstStray mode .outside 0 ('\x7d' :: s) front ↔ front = [] := by
  have hstray : Stray mode .outside 0 [] := ⟨rfl, by simp [balance]⟩
  constructor
  · intro h
    exact List.eq_nil_of_length_eq_zero (Nat.le_zero.1 (h.leftmost [] s rfl hstray))
  · rintro rfl
    exact ⟨⟨s, rfl⟩, hstray, by simp⟩

end FirstStray

theorem exists_firstStray_cons_iff (depth' : Nat) (h : (depth' : Int) = depth + weight literal c) :
    (∃ front, FirstStray mode literal depth (c :: s) front ∧ n = offset + Text.byteSize front)
      ↔ ∃ front, FirstStray mode (literal.step mode c) depth' s front
        ∧ n = offset + c.utf8Size + Text.byteSize front := by
  simp only [FirstStray.cons_iff h]
  constructor
  · rintro ⟨_, ⟨front, rfl, hfront⟩, rfl⟩
    exact ⟨front, hfront, by simp [Text.byteSize, Nat.add_assoc]⟩
  · rintro ⟨front, hfront, rfl⟩
    exact ⟨_, ⟨front, rfl, hfront⟩, by simp [Text.byteSize, Nat.add_assoc]⟩

theorem step_brace (hc : c = '\x7b' ∨ c = '\x7d') : Literal.outside.step mode c = .outside := by
  rcases hc with rfl | rfl <;> cases mode <;> rfl

/-- **Reading stops at the leftmost stray brace**, and reports how many bytes stand in front of it. -/
theorem scan_eq_unbalanced_iff :
    scan mode literal depth started offset s = .error (.unbalanced n)
      ↔ ∃ front, FirstStray mode literal depth s front ∧ n = offset + Text.byteSize front := by
  induction s generalizing literal depth started offset with
  | nil =>
    simp only [FirstStray.not_nil, false_and, exists_false, iff_false, scan]
    split
    · simp
    · split <;> simp
  | cons c s ih =>
    rcases brace_cases literal c with ⟨rfl, rfl⟩ | ⟨rfl, rfl⟩ | hplain
    · rw [scan_open, ih, exists_firstStray_cons_iff (depth + 1) (by rw [weight_open]; omega),
        step_brace (.inl rfl)]
    · rw [scan_close]
      rcases depth with _ | _ | depth
      · simp [FirstStray.close_iff, Text.byteSize, eq_comm]
      · rw [exists_firstStray_cons_iff 0 (by rw [weight_close]; omega), step_brace (.inr rfl), ← ih]
        exact map_eq_error
      · rw [exists_firstStray_cons_iff (depth + 1) (by rw [weight_close]; omega),
          step_brace (.inr rfl), ← ih]
    · rw [scan_step hplain, ih,
        exists_firstStray_cons_iff depth (by rw [weight_eq_zero hplain]; omega)]

/-! ### An array as it is given -/

/-- An array as it is given: its text in square brackets, with blank text around them. -/
structure Given (before inner after input : Text) : Prop where
  blank_before : ∀ c ∈ before, isBlank c = true
  blank_after : ∀ c ∈ after, isBlank c = true
  eq : input = before ++ ('[' :: inner ++ [']']) ++ after

namespace Given

variable {before inner after before' inner' after' : Text}

theorem trim_eq (h : Given before inner after input) : input.trim = '[' :: inner ++ [']'] := by
  rw [h.eq, trim_brackets h.blank_before h.blank_after]

theorem takeWhile_eq (h : Given before inner after input) : input.takeWhile isBlank = before := by
  rw [h.eq, List.append_assoc, List.takeWhile_append_of_pos h.blank_before]
  simp [show isBlank '[' = false by decide]

/-- There is one way to lay out an array. -/
theorem unique (h : Given before inner after input) (h' : Given before' inner' after' input) :
    before = before' ∧ inner = inner' ∧ after = after' := by
  obtain rfl : before = before' := h.takeWhile_eq.symm.trans h'.takeWhile_eq
  obtain rfl : inner = inner' := by simpa using h.trim_eq.symm.trans h'.trim_eq
  exact ⟨rfl, rfl, List.append_cancel_left (h.eq.symm.trans h'.eq)⟩

/-- Reading starts at the first opening brace. -/
theorem segments_eq (h : Given before inner after input) (mode : Mode) :
    segments mode input
      = scan mode .outside 0 [] (1 + Text.byteSize (inner.takeWhile (· ≠ '\x7b')))
          (inner.dropWhile (· ≠ '\x7b')) := by
  rw [segments, inner?_eq_some_iff.2 h.trim_eq]

end Given

/-- What is trimmed away is blank. -/
theorem exists_trim (s : Text) :
    ∃ before after, (∀ c ∈ before, isBlank c = true) ∧ (∀ c ∈ after, isBlank c = true)
      ∧ s = before ++ s.trim ++ after := by
  have hblank : ∀ t : Text, ∀ c ∈ t.takeWhile isBlank, isBlank c = true :=
    fun t => List.all_eq_true.1 List.all_takeWhile
  have hend : s.trimStart = s.trim ++ (s.trimStart.reverse.takeWhile isBlank).reverse := by
    rw [Text.trim, Text.trimEnd, ← List.reverse_append, List.takeWhile_append_dropWhile,
      List.reverse_reverse]
  refine ⟨s.takeWhile isBlank, (s.trimStart.reverse.takeWhile isBlank).reverse, hblank s,
    fun c hc => hblank _ c (List.mem_reverse.1 hc), ?_⟩
  rw [List.append_assoc, ← hend, Text.trimStart, List.takeWhile_append_dropWhile]

/-- What is not refused for its brackets has them. -/
theorem exists_given (h : segments mode input ≠ .error .notBracketed) :
    ∃ before inner after, Given before inner after input := by
  obtain ⟨before, after, hbefore, hafter, hinput⟩ := exists_trim input
  by_cases hbracketed : ∃ inner, input.trim = '[' :: inner ++ [']']
  · obtain ⟨inner, hinner⟩ := hbracketed
    exact ⟨before, inner, after, hbefore, hafter, hinner ▸ hinput⟩
  · exact absurd (segments_of_not_bracketed fun inner hinner => hbracketed ⟨inner, hinner⟩) h

/-! ### Where a stray brace is reported -/

/-- The leftmost stray brace of an array, from its first opening brace on, stands behind this part of
what was given. -/
def StrayBehind (mode : Mode) (input place : Text) : Prop :=
  ∃ before inner after front, Given before inner after input
    ∧ FirstStray mode .outside 0 (inner.dropWhile (· ≠ '\x7b')) front
    ∧ place = before ++ '[' :: (inner.takeWhile (· ≠ '\x7b') ++ front)

theorem StrayBehind.unique {place' : Text} (h : StrayBehind mode input place)
    (h' : StrayBehind mode input place') : place = place' := by
  obtain ⟨before, inner, after, front, hgiven, hfirst, rfl⟩ := h
  obtain ⟨before', inner', after', front', hgiven', hfirst', rfl⟩ := h'
  obtain ⟨rfl, rfl, -⟩ := hgiven.unique hgiven'
  rw [hfirst.unique hfirst']

/-- A stray brace is a closing brace of the array. -/
theorem StrayBehind.exists_back (h : StrayBehind mode input place) :
    ∃ back, input = place ++ '\x7d' :: back := by
  obtain ⟨before, inner, after, front, hgiven, hfirst, hplace⟩ := h
  obtain ⟨back, hback⟩ := hfirst.brace
  have hinner : inner.takeWhile (· ≠ '\x7b') ++ (front ++ '\x7d' :: back) = inner := by
    rw [← hback, List.takeWhile_append_dropWhile]
  have hsplit : place ++ '\x7d' :: (back ++ ']' :: after)
      = before ++ ('[' :: (inner.takeWhile (· ≠ '\x7b') ++ (front ++ '\x7d' :: back)) ++ [']'])
        ++ after := by
    simp [hplace]
  exact ⟨back ++ ']' :: after, by rw [hgiven.eq, hsplit, hinner]⟩

/-- **The leftmost stray brace is reported**, by its place in the trimmed array. -/
theorem segments_eq_unbalanced_iff :
    segments mode input = .error (.unbalanced offset)
      ↔ ∃ place, StrayBehind mode input place
        ∧ offset + Text.byteSize (input.takeWhile isBlank) = Text.byteSize place := by
  have hbracket : '['.utf8Size = 1 := rfl
  constructor
  · intro h
    obtain ⟨before, inner, after, hgiven⟩ :=
      exists_given (show segments mode input ≠ .error .notBracketed by simp [h])
    rw [hgiven.segments_eq, scan_eq_unbalanced_iff] at h
    obtain ⟨front, hfirst, rfl⟩ := h
    refine ⟨_, ⟨before, inner, after, front, hgiven, hfirst, rfl⟩, ?_⟩
    simp only [hgiven.takeWhile_eq, Text.byteSize_append, Text.byteSize, hbracket]
    omega
  · rintro ⟨_, ⟨before, inner, after, front, hgiven, hfirst, rfl⟩, hoffset⟩
    rw [hgiven.segments_eq, scan_eq_unbalanced_iff]
    refine ⟨front, hfirst, ?_⟩
    simp only [hgiven.takeWhile_eq, Text.byteSize_append, Text.byteSize, hbracket] at hoffset
    omega

/-- **What is reported of a stray brace is its place in the array, less the blank text in front.**  So
it is the place exactly if the array does not begin with a blank character. -/
theorem unbalanced_offset_iff (h : segments mode input = .error (.unbalanced offset)) :
    ∃ place, StrayBehind mode input place
      ∧ (∀ place', StrayBehind mode input place' → place' = place)
      ∧ (∃ back, input = place ++ '\x7d' :: back)
      ∧ offset + Text.byteSize (input.takeWhile isBlank) = Text.byteSize place
      ∧ (offset = Text.byteSize place ↔ ∀ c, input.head? = some c → isBlank c = false) := by
  obtain ⟨place, hstray, hoffset⟩ := segments_eq_unbalanced_iff.1 h
  refine ⟨place, hstray, fun _ h' => h'.unique hstray, hstray.exists_back, hoffset, ?_⟩
  have hnone : offset = Text.byteSize place ↔ input.takeWhile isBlank = [] := by
    rw [← hoffset, ← Text.byteSize_eq_zero_iff]
    omega
  rw [hnone]
  cases input with
  | nil => simp
  | cons c s => cases hc : isBlank c <;> simp [hc]

/-- Characters of several bytes in front of the brace, and a blank one of three bytes in front of the
array that is not counted. -/
theorem unbalanced_offset_iff_blank :
    (∃ place, StrayBehind .quoteAware "[é\x7b'\x7d'\x7d \x7d]".toList place
      ∧ Text.byteSize place = 9)
    ∧ segments .quoteAware "\u2003[é\x7b'\x7d'\x7d \x7d]".toList = .error (.unbalanced 9)
    ∧ ∃ place, StrayBehind .quoteAware "\u2003[é\x7b'\x7d'\x7d \x7d]".toList place
      ∧ Text.byteSize place = 12 := by
  refine ⟨?_, rfl, ?_⟩
  · obtain ⟨place, hstray, -, -, -, hiff⟩ :=
      @unbalanced_offset_iff .quoteAware 9 "[é\x7b'\x7d'\x7d \x7d]".toList rfl
    exact ⟨place, hstray, (hiff.2 (by simp [isBlank])).symm⟩
  · obtain ⟨place, hstray, -, -, hoffset, -⟩ :=
      @unbalanced_offset_iff .quoteAware 9 "\u2003[é\x7b'\x7d'\x7d \x7d]".toList rfl
    exact ⟨place, hstray, hoffset.symm⟩

/-! ### Objects left open -/

/-- The outermost object that is open behind a text, and the objects read in front of it.  It was open
before, or begins at a brace of the text. -/
inductive Unclosed (mode : Mode) (literal : Literal) (depth : Nat) (started : Text) (offset : Nat)
    (s : Text) : List Text → Text → Prop where
  | before : 0 < depth → Unclosed mode literal depth started offset s [] (started.reverse ++ s)
  | within {front rest : Text} {segs : List Text} : s = front ++ '\x7b' :: rest →
      scan mode literal depth started offset front = .ok segs →
      Unclosed mode literal depth started offset s segs ('\x7b' :: rest)

/-- A scan that ends with objects open goes on with more text from where it is. -/
def GoesOn (mode : Mode) (literal : Literal) (depth : Nat) (started : Text) (offset : Nat)
    (s : Text) (n : Nat) : Prop :=
  ∃ segs object, Unclosed mode literal depth started offset s segs object
    ∧ ∀ t, scan mode literal depth started offset (s ++ t)
        = (scan mode .outside n object.reverse (offset + Text.byteSize s) t).map (segs ++ ·)

theorem map_append_map (x : Except Error (List Text)) (closed segs : List Text) :
    (x.map (segs ++ ·)).map (closed ++ ·) = x.map ((closed ++ segs) ++ ·) := by
  cases x <;> simp [Except.map]

/-- One character more in front, which closes these objects. -/
theorem GoesOn.cons {literal' : Literal} {started' : Text} (closed : List Text)
    (hstep : ∀ x, scan mode literal depth started offset (c :: x)
      = (scan mode literal' depth' started' (offset + c.utf8Size) x).map (closed ++ ·))
    (hbefore : 0 < depth' →
      Unclosed mode literal depth started offset (c :: s) closed (started'.reverse ++ s))
    (h : GoesOn mode literal' depth' started' (offset + c.utf8Size) s n) :
    GoesOn mode literal depth started offset (c :: s) n := by
  obtain ⟨segs, object, hobject, hscan⟩ := h
  refine ⟨closed ++ segs, object, ?_, fun t => ?_⟩
  · cases hobject with
    | before hpos => simpa using hbefore hpos
    | @within front rest _ hs hfront =>
      refine @Unclosed.within _ _ _ _ _ _ (c :: front) rest _ (by rw [hs, List.cons_append]) ?_
      rw [hstep, hfront]
      rfl
  · rw [List.cons_append, hstep, hscan, map_append_map, Text.byteSize, Nat.add_assoc]

theorem map_nil_append (x : Except Error (List Text)) : x.map ([] ++ ·) = x := by
  cases x <;> rfl

theorem goesOn_of_scan (hstarted : depth = 0 → started = [])
    (h : scan mode literal depth started offset s = .error (.openObjects n)) :
    GoesOn mode literal depth started offset s n := by
  induction s generalizing literal depth started offset with
  | nil =>
    rw [scan] at h
    split at h
    · cases h
    · next hliteral =>
      obtain rfl : literal = .outside := Decidable.of_not_not hliteral
      split at h
      · next hdepth =>
        cases h
        refine ⟨[], _, .before (Nat.pos_of_ne_zero hdepth), fun t => ?_⟩
        rw [map_nil_append]
        simp [Text.byteSize]
      · cases h
  | cons c s ih =>
    rcases brace_cases literal c with ⟨rfl, rfl⟩ | ⟨rfl, rfl⟩ | hplain
    · rw [scan_open] at h
      refine GoesOn.cons [] (fun x => ?_) (fun _ => ?_) (ih (by simp) h)
      · rw [scan_open, map_nil_append]
      · rcases Nat.eq_zero_or_pos depth with rfl | hpos
        · rw [hstarted rfl]
          exact @Unclosed.within _ _ _ _ _ _ [] s _ rfl rfl
        · simpa using @Unclosed.before mode .outside depth started offset ('\x7b' :: s) hpos
    · rw [scan_close] at h
      rcases depth with _ | _ | depth
      · cases h
      · exact GoesOn.cons [('\x7d' :: started).reverse] (fun _ => scan_close) (by simp)
          (ih (fun _ => rfl) (map_eq_error.1 h))
      · refine GoesOn.cons [] (fun x => ?_) (fun _ => ?_) (ih (by simp) h)
        · rw [scan_close, map_nil_append]
        · simpa using @Unclosed.before mode .outside (depth + 2) started offset ('\x7d' :: s)
            (Nat.succ_pos _)
    · rw [scan_step hplain] at h
      refine GoesOn.cons [] (fun x => ?_) (fun hpos => ?_) (ih (by simp [kept]) h)
      · rw [scan_step hplain, map_nil_append]
      · have hkept : kept depth started [c] = c :: started := by simp [kept, Nat.ne_of_gt hpos]
        rw [hkept]
        simpa using @Unclosed.before mode literal depth started offset (c :: s) hpos

theorem exists_scan_replicate_iff {k : Nat} :
    (∃ segs, scan mode .outside n started offset (List.replicate k '\x7d') = .ok segs) ↔ k = n := by
  induction k generalizing n started offset with
  | zero =>
    cases n with
    | zero => simp [scan]
    | succ n => simp [scan]
  | succ k ih =>
    rw [List.replicate_succ, scan_close]
    rcases n with _ | _ | n
    · simp
    · exact exists_map_eq_ok.trans (ih.trans (by omega))
    · exact ih.trans (by omega)

/-- As many closing braces as there are open objects make a segment of the outermost. -/
theorem scan_replicate (n : Nat) :
    scan mode .outside (n + 1) started offset (List.replicate (n + 1) '\x7d')
      = .ok [started.reverse ++ List.replicate (n + 1) '\x7d'] := by
  induction n generalizing started offset with
  | zero =>
    rw [List.replicate_succ, scan_close]
    simp [scan, Except.map]
  | succ n ih =>
    rw [List.replicate_succ, scan_close]
    exact ih.trans (by simp)

/-- These objects of an array's text are complete, and this one is not: behind them the text goes on with
an opening brace, and no closing brace ends what begins there. -/
def LeavesOpen (mode : Mode) (inner : Text) (complete : List Text) (object : Text) : Prop :=
  ∃ front rest items, inner.dropWhile (· ≠ '\x7b') = front ++ '\x7b' :: rest
    ∧ Parses mode items front ∧ complete = outermost items ∧ object = '\x7b' :: rest
    ∧ ∀ held back, rest = held ++ '\x7d' :: back → ¬ ∃ items', Parses mode items' held

/-- An object that takes all closing braces at the end was closed nowhere before. -/
theorem not_parses_of_scan {rest held back : Text} {items : List Item} (hitems : Parses mode items front)
    (h : scan mode .outside 0 [] offset (front ++ '\x7b' :: rest ++ List.replicate (n + 1) '\x7d')
      = .ok (outermost items ++ ['\x7b' :: rest ++ List.replicate (n + 1) '\x7d']))
    (hrest : rest = held ++ '\x7d' :: back) : ¬ ∃ items', Parses mode items' held := by
  rintro ⟨items', hheld⟩
  have hobject : Parses mode [.object items'] ('\x7b' :: held ++ ['\x7d']) := .object hheld .nil
  have hsplit : front ++ '\x7b' :: rest ++ List.replicate (n + 1) '\x7d'
      = front ++ ('\x7b' :: held ++ ['\x7d']) ++ (back ++ List.replicate (n + 1) '\x7d') := by
    simp [hrest]
  rw [hsplit, (hitems.append hobject).scan_append, map_eq_ok] at h
  obtain ⟨segs, -, hsegs⟩ := h
  rw [outermost_append, List.append_assoc, List.append_cancel_left_eq] at hsegs
  have htext := (List.cons.inj hsegs).1
  rw [Item.text, hheld.textOf_eq, hrest] at htext
  have hlength := congrArg List.length htext
  simp at hlength

/-- No error counts no objects. -/
theorem openObjects_pos (h : scan mode .outside 0 [] offset s = .error (.openObjects n)) : 0 < n := by
  obtain ⟨segs, object, -, hscan⟩ := goesOn_of_scan (fun _ => rfl) h
  have hend := hscan []
  rw [List.append_nil, h] at hend
  cases n with
  | zero => cases hend
  | succ n => exact Nat.succ_pos n

theorem exists_leavesOpen {inner : Text}
    (h : scan mode .outside 0 [] offset (inner.dropWhile (· ≠ '\x7b')) = .error (.openObjects n)) :
    ∃ complete object, LeavesOpen mode inner complete object
      ∧ ∀ t, scan mode .outside 0 [] offset (inner.dropWhile (· ≠ '\x7b') ++ t)
          = (scan mode .outside n object.reverse
              (offset + Text.byteSize (inner.dropWhile (· ≠ '\x7b'))) t).map (complete ++ ·) := by
  obtain ⟨m, rfl⟩ := Nat.exists_eq_add_of_lt (openObjects_pos h)
  obtain ⟨segs, object, hobject, hscan⟩ := goesOn_of_scan (fun _ => rfl) h
  cases hobject with
  | before hpos => exact absurd hpos (Nat.lt_irrefl 0)
  | @within front rest _ hbody hfront =>
    obtain ⟨items, hitems, rfl⟩ := scan_eq_ok_iff.1 hfront
    have hall : scan mode .outside 0 [] offset
        (front ++ '\x7b' :: rest ++ List.replicate (m + 1) '\x7d')
        = .ok (outermost items ++ ['\x7b' :: rest ++ List.replicate (m + 1) '\x7d']) := by
      rw [← hbody, hscan, Nat.zero_add, scan_replicate]
      simp [Except.map]
    exact ⟨_, _, ⟨front, rest, items, hbody, hitems, rfl, rfl,
      fun held back hrest => not_parses_of_scan hitems hall hrest⟩, hscan⟩

/-- More text at the end leaves the first opening brace where it is. -/
theorem Given.segments_append {before inner after : Text} (hopen : '\x7b' ∈ inner)
    (h : Given before (inner ++ t) after input) :
    segments mode input
      = scan mode .outside 0 [] (1 + Text.byteSize (inner.takeWhile (· ≠ '\x7b')))
          (inner.dropWhile (· ≠ '\x7b') ++ t) := by
  obtain ⟨front, rest, rfl, hfront⟩ := List.eq_append_cons_of_mem hopen
  have hall : ∀ c ∈ front, decide (c ≠ '\x7b') = true := by
    intro c hc
    simpa using ne_of_mem_of_not_mem hc hfront
  rw [h.segments_eq]
  simp only [List.append_assoc, List.cons_append, List.takeWhile_append_of_pos hall,
    List.dropWhile_append_of_pos hall]
  simp

/-- **The number of objects left open is the number of closing braces that are missing.**  With
closing braces in front of the closing bracket such an array has segments if they are as many as is
reported, and only then.  These are the objects that were complete, and the first that was not with
the braces behind it. -/
theorem segments_closed_iff (h : segments mode input = .error (.openObjects n)) :
    ∃ before inner after, Given before inner after input
      ∧ (let closed (k : Nat) :=
          before ++ ('[' :: (inner ++ List.replicate k '\x7d') ++ [']']) ++ after
        (∀ k, (∃ segs, segments mode (closed k) = .ok segs) ↔ k = n)
        ∧ ∃ complete object, LeavesOpen mode inner complete object
          ∧ segments mode (closed n) = .ok (complete ++ [object ++ List.replicate n '\x7d'])) := by
  obtain ⟨before, inner, after, hgiven⟩ :=
    exists_given (show segments mode input ≠ .error .notBracketed by simp [h])
  rw [hgiven.segments_eq] at h
  obtain ⟨complete, object, hleaves, hscan⟩ := exists_leavesOpen h
  have hopen : '\x7b' ∈ inner := by
    obtain ⟨front, rest, -, hbody, -⟩ := hleaves
    have hmem : '\x7b' ∈ inner.dropWhile (· ≠ '\x7b') := by
      rw [hbody]
      simp
    exact (List.dropWhile_sublist _).subset hmem
  have hclosed : ∀ k, segments mode
      (before ++ ('[' :: (inner ++ List.replicate k '\x7d') ++ [']']) ++ after) = _ :=
    fun k => Given.segments_append hopen ⟨hgiven.blank_before, hgiven.blank_after, rfl⟩
  refine ⟨before, inner, after, hgiven, fun k => ?_, complete, object, hleaves, ?_⟩
  · rw [hclosed, hscan, exists_map_eq_ok, exists_scan_replicate_iff]
  · obtain ⟨m, rfl⟩ := Nat.exists_eq_add_of_lt (openObjects_pos h)
    rw [hclosed, hscan, Nat.zero_add, scan_replicate]
    simp [Except.map]

/-- Two objects left open, one in the other, behind one that is complete and has a brace in a
literal. -/
theorem segments_closed_iff_nested :
    segments .quoteAware "[\x7ba: '\x7b'\x7d \x7bb: \x7b\x7d, c: \x7b ]".toList
        = .error (.openObjects 2)
    ∧ (∃ segs, segments .quoteAware "[\x7ba: '\x7b'\x7d \x7bb: \x7b\x7d, c: \x7b \x7d\x7d]".toList
        = .ok segs)
    ∧ ¬ ∃ segs, segments .quoteAware "[\x7ba: '\x7b'\x7d \x7bb: \x7b\x7d, c: \x7b \x7d]".toList
        = .ok segs := by
  have hopen : segments .quoteAware "[\x7ba: '\x7b'\x7d \x7bb: \x7b\x7d, c: \x7b ]".toList
      = .error (.openObjects 2) := rfl
  have hplain : Given [] "\x7ba: '\x7b'\x7d \x7bb: \x7b\x7d, c: \x7b ".toList []
      "[\x7ba: '\x7b'\x7d \x7bb: \x7b\x7d, c: \x7b ]".toList := ⟨by simp, by simp, rfl⟩
  obtain ⟨before, inner, after, hgiven, hclosed, -⟩ := segments_closed_iff hopen
  obtain ⟨rfl, rfl, rfl⟩ := hgiven.unique hplain
  exact ⟨hopen, (hclosed 2).2 rfl, fun hsegs => absurd ((hclosed 1).1 hsegs) (by decide)⟩

end DocSearch.Segment
