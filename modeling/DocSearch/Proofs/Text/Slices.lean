import DocSearch.Text.Basic

/-!
# Texts — slices of strings

A string is its bytes in UTF-8, and a slice of it is cut out between two positions that are counted in
bytes.  That fails unless the positions are in order and both are boundaries of characters (`slice?`).
So what it gives are the parts of the text (`slice?_eq_some_iff`).

A program that finds the characters of a string together with their positions (`places`) and cuts slices
is a `Slicing`.  It fails at the first slice that does, and otherwise keeps account of all of them.  What
`Cuts` says of such a program is that no slice fails, which texts the slices are, and what the result is;
programs are taken apart by it (`Cuts.bind`, `cuts_cut`, `cuts_cut_cons`).
-/

namespace DocSearch

/-! ### Boundaries -/

/-- A position in a string that is the first byte of a character, or the end. -/
def IsBoundary (s : String) (position : Nat) : Prop :=
  String.Pos.Raw.isValid s ⟨position⟩ = true

instance (s : String) (position : Nat) : Decidable (IsBoundary s position) :=
  inferInstanceAs (Decidable (_ = true))

theorem isValidUTF8_extract {s : String} {start stop : Nat}
    (h : start ≤ stop ∧ IsBoundary s start ∧ IsBoundary s stop) :
    (s.toByteArray.extract start stop).IsValidUTF8 := by
  obtain ⟨hle, hstart, hstop⟩ := h
  have hstart' := String.Pos.Raw.isValid_eq_true_iff.1 hstart
  have hstop' := String.Pos.Raw.isValid_eq_true_iff.1 hstop
  exact (String.Pos.Raw.isValidUTF8_extract_iff ⟨start⟩ ⟨stop⟩ hle hstop'.le_rawEndPos).2
    (.inr ⟨hstart', hstop'⟩)

/-- The bytes of a string from one position to another. -/
def slice? (s : String) (start stop : Nat) : Option String :=
  if h : start ≤ stop ∧ IsBoundary s start ∧ IsBoundary s stop then
    some ⟨s.toByteArray.extract start stop, isValidUTF8_extract h⟩
  else none

/-- A slice begins and ends with whole characters. -/
example : slice? "aé" 1 3 = some "é" ∧ slice? "aé" 1 2 = none ∧ slice? "aé" 2 3 = none
    ∧ slice? "aé" 3 1 = none ∧ slice? "aé" 1 4 = none := by decide +kernel

theorem utf8ByteSize_ofList (t : Text) : (String.ofList t).utf8ByteSize = Text.byteSize t := by
  induction t with
  | nil => rfl
  | cons c t ih =>
    have hsplit : String.ofList (c :: t) = String.singleton c ++ String.ofList t := by
      rw [String.singleton_eq_ofList, ← String.ofList_append]
      rfl
    rw [hsplit, String.utf8ByteSize_append, String.utf8ByteSize_singleton, ih, Text.byteSize]

variable {s : String} {position start stop : Nat} {front middle back : Text}

theorem eq_append_of_toList (h : s.toList = front ++ back) :
    s = String.ofList front ++ String.ofList back := by
  rw [← String.ofList_append, ← h, String.ofList_toList]

/-- The boundaries are the positions behind the parts of the text. -/
theorem isBoundary_iff :
    IsBoundary s position ↔ ∃ front back, s.toList = front ++ back
      ∧ position = Text.byteSize front := by
  rw [IsBoundary, String.Pos.Raw.isValid_eq_true_iff, String.Pos.Raw.isValid_iff_exists_append]
  constructor
  · rintro ⟨s₁, s₂, rfl, hposition⟩
    refine ⟨s₁.toList, s₂.toList, String.toList_append, ?_⟩
    rw [← utf8ByteSize_ofList, String.ofList_toList]
    exact congrArg String.Pos.Raw.byteIdx hposition
  · rintro ⟨front, back, h, rfl⟩
    refine ⟨_, _, eq_append_of_toList h, ?_⟩
    rw [← utf8ByteSize_ofList]
    rfl

theorem extract_toByteArray (h : s.toList = front ++ (middle ++ back)) :
    s.toByteArray.extract (Text.byteSize front) (Text.byteSize (front ++ middle))
      = (String.ofList middle).toByteArray := by
  have hsize : ∀ t, Text.byteSize t = (String.ofList t).toByteArray.size :=
    fun t => (utf8ByteSize_ofList t).symm
  rw [eq_append_of_toList h, String.ofList_append, String.toByteArray_append,
    String.toByteArray_append, Text.byteSize_append]
  exact (ByteArray.extract_append_size_add' (i := 0) (hsize front)).trans
    (ByteArray.extract_append_eq_left (hsize middle))

/-- What stands between two parts of a string is a slice of it. -/
theorem slice?_eq_some (h : s.toList = front ++ (middle ++ back)) :
    slice? s (Text.byteSize front) (Text.byteSize (front ++ middle))
      = some (String.ofList middle) := by
  have hle : Text.byteSize front ≤ Text.byteSize (front ++ middle) := by
    rw [Text.byteSize_append]
    exact Nat.le_add_right _ _
  have hstart : IsBoundary s (Text.byteSize front) := isBoundary_iff.2 ⟨front, _, h, rfl⟩
  have hstop : IsBoundary s (Text.byteSize (front ++ middle)) :=
    isBoundary_iff.2 ⟨front ++ middle, back, by rw [h, List.append_assoc], rfl⟩
  rw [slice?, dif_pos ⟨hle, hstart, hstop⟩, Option.some_inj, ← String.toByteArray_inj]
  exact extract_toByteArray h

/-- Boundaries in order stand behind a part of the text and behind one that is no shorter. -/
theorem exists_middle {front' back' : Text} (h : front ++ back = front' ++ back')
    (hle : Text.byteSize front ≤ Text.byteSize front') :
    ∃ middle, front' = front ++ middle ∧ back = middle ++ back' := by
  rcases List.append_eq_append_iff.1 h with ⟨middle, hfront, hback⟩ | ⟨extra, rfl, rfl⟩
  · exact ⟨middle, hfront, hback⟩
  · rw [Text.byteSize_append] at hle
    obtain rfl : extra = [] := Text.byteSize_eq_zero_iff.1 (by omega)
    exact ⟨[], by simp, by simp⟩

/-- **A slice is a part of the text**, from the position behind what stands in front of it. -/
theorem slice?_eq_some_iff {slice : String} :
    slice? s start stop = some slice ↔ ∃ front back, s.toList = front ++ (slice.toList ++ back)
      ∧ start = Text.byteSize front ∧ stop = Text.byteSize (front ++ slice.toList) := by
  constructor
  · intro h
    obtain ⟨hle, hstart, hstop⟩ :
        start ≤ stop ∧ IsBoundary s start ∧ IsBoundary s stop := by
      unfold slice? at h
      split at h
      · next hboth => exact hboth
      · cases h
    obtain ⟨front, back, hfront, rfl⟩ := isBoundary_iff.1 hstart
    obtain ⟨front', back', hback, rfl⟩ := isBoundary_iff.1 hstop
    obtain ⟨middle, rfl, rfl⟩ := exists_middle (hfront.symm.trans hback) hle
    rw [slice?_eq_some hfront] at h
    cases h
    exact ⟨front, back', by rw [String.toList_ofList, hfront], rfl, by rw [String.toList_ofList]⟩
  · rintro ⟨front, back, h, rfl, rfl⟩
    rw [slice?_eq_some h, String.ofList_toList]

/-- The rest of a string behind a part of it is a slice. -/
theorem slice?_end (h : s.toList = front ++ back) :
    slice? s (Text.byteSize front) s.utf8ByteSize = some (String.ofList back) := by
  have hend : s.utf8ByteSize = Text.byteSize (front ++ back) := by
    rw [← h, ← utf8ByteSize_ofList, String.ofList_toList]
  rw [hend]
  exact slice?_eq_some (by rw [h, List.append_nil])

/-! ### Characters by position -/

/-- The characters of a text that stands at a position, each with its own. -/
def placesFrom (position : Nat) : Text → List (Nat × Char)
  | [] => []
  | c :: t => (position, c) :: placesFrom (position + c.utf8Size) t

/-- The characters of a string, each with its position. -/
def places (s : String) : List (Nat × Char) :=
  placesFrom 0 s.toList

theorem placesFrom_cons (front : Text) (c : Char) (t : Text) :
    placesFrom (Text.byteSize front) (c :: t)
      = (Text.byteSize front, c) :: placesFrom (Text.byteSize (front ++ [c])) t := by
  rw [placesFrom, Text.byteSize_append]
  rfl

/-! ### Programs that cut slices -/

/-- A program that cuts slices out of strings and keeps account of them. -/
abbrev Slicing (α : Type) :=
  StateT (List String) Option α

/-- The slice between two positions. -/
def cut (s : String) (start stop : Nat) : Slicing String :=
  fun taken => (slice? s start stop).map fun slice => (slice, taken ++ [slice])

/-- All slices that a program cuts are slices, they are these texts, and this is its result. -/
def Cuts {α : Type} (m : Slicing α) (slices : List Text) (result : α) : Prop :=
  ∀ taken, m taken = some (result, taken ++ slices.map String.ofList)

namespace Cuts

variable {α β : Type} {m : Slicing α} {f : α → Slicing β} {slices slices' : List Text} {a : α} {b : β}

theorem pure (a : α) : Cuts (Pure.pure a) [] a := by
  intro taken
  rw [List.map_nil, List.append_nil]
  rfl

theorem bind (hm : Cuts m slices a) (hf : Cuts (f a) slices' b) :
    Cuts (m >>= f) (slices ++ slices') b := by
  intro taken
  have hrun : (m >>= f) taken = (m taken).bind fun p => f p.1 p.2 := rfl
  rw [hrun, hm, Option.bind_some, hf, List.map_append, List.append_assoc]

theorem map (f : α → β) (hm : Cuts m slices a) :
    Cuts (m >>= fun a => Pure.pure (f a)) slices (f a) := by
  have hbind : Cuts (m >>= fun a => Pure.pure (f a)) (slices ++ []) (f a) := hm.bind (pure (f a))
  rwa [List.append_nil] at hbind

end Cuts

theorem cuts_cut (h : s.toList = front ++ (middle ++ back)) :
    Cuts (cut s (Text.byteSize front) (Text.byteSize (front ++ middle))) [middle]
      (String.ofList middle) := by
  intro taken
  rw [cut, slice?_eq_some h]
  rfl

/-- A slice in front of the others that are cut, if none of them is refused. -/
theorem cuts_cut_cons {ε : Type} {m : Slicing (Except ε (List String))} {r : Except ε (List Text)}
    {f : String → String} {slices : List Text} (h : s.toList = front ++ (middle ++ back))
    (hf : f (String.ofList middle) = String.ofList middle)
    (hm : Cuts m slices (r.map (List.map String.ofList))) :
    Cuts (do
        let slice ← cut s (Text.byteSize front) (Text.byteSize (front ++ middle))
        let others ← m
        pure (others.map (f slice :: ·)))
      (middle :: slices) ((r.map (middle :: ·)).map (List.map String.ofList)) := by
  have hmap : (r.map (middle :: ·)).map (List.map String.ofList)
      = (r.map (List.map String.ofList)).map (f (String.ofList middle) :: ·) := by
    rw [hf]
    cases r <;> rfl
  rw [hmap]
  exact (cuts_cut h).bind (hm.map fun others => others.map (f (String.ofList middle) :: ·))

theorem cuts_cut_end (h : s.toList = front ++ back) :
    Cuts (cut s (Text.byteSize front) s.utf8ByteSize) [back] (String.ofList back) := by
  intro taken
  rw [cut, slice?_end h]
  rfl

end DocSearch
