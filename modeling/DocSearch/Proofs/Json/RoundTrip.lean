import DocSearch.Json.Printer
import DocSearch.Proofs.Json.Numbers

/-!
# JSON — printing a value and reading it again

What is printed of a document is read as that document, in either style, exactly if each of its
numbers is read back from its own text (`read?_print_iff`).

* What is read off a text nests no deeper than the reader went, and has the members of its objects
  in the order of their keys, each key once (`Regular`, `regular_of_value?`).
* What is printed of a regular value is read as that value with its numbers read anew (`reread`,
  `Regular.takes_write`), in front of whatever does not go on with a number, and with any white space
  in front (`Takes`).  Strings are read back (`stringBody?_flatMap_escape`).  Items and members are
  written and read alike, in a row with commas between them, so both kinds of container need one
  argument (`container?_of_takes`); objects besides need that members in order are inserted as they
  stand (`Sorted.ofMembers_eq`).

A reader that takes every numeral for the nearest double reads all numbers back
(`readBy?_json_nearest`).  No document is read by it, but it tells what is printed apart: values with
the same text are the same (`Regular.eq_of_print`).
-/

namespace DocSearch.Json

/-! ### Strings -/

/-- The two last digits of a control character's escape. -/
theorem unit?_control {n : Nat} (h : n < 0x20) :
    unit? '0' '0' (hexDigit (n / 16)) (hexDigit (n % 16)) = some n := by
  have hall : ∀ n < 0x20, unit? '0' '0' (hexDigit (n / 16)) (hexDigit (n % 16)) = some n := by
    decide
  exact hall n h

/-- A character is written by a letter, if it has one, else by its number, if it is a control
character, and else as it stands. -/
theorem escape_cases (c : Char) :
    (∃ letter, letter ≠ 'u' ∧ escape c = ['\\', letter] ∧ shortEscape? letter = some c)
    ∨ (c.toNat < 0x20
      ∧ escape c = ['\\', 'u', '0', '0', hexDigit (c.toNat / 16), hexDigit (c.toNat % 16)])
    ∨ (c ≠ '"' ∧ ¬(c = '\\' ∨ c.toNat < 0x20) ∧ escape c = [c]) := by
  unfold escape
  split
  · next hc => exact .inl ⟨_, by decide, rfl, by rw [hc]; rfl⟩
  next hquote =>
  split
  · next hc => exact .inl ⟨_, by decide, rfl, by rw [hc]; rfl⟩
  next hslash =>
  split
  · next hc => exact .inl ⟨_, by decide, rfl, by rw [hc]; rfl⟩
  split
  · next hc => exact .inl ⟨_, by decide, rfl, by rw [hc]; rfl⟩
  split
  · next hc => exact .inl ⟨_, by decide, rfl, by rw [hc]; rfl⟩
  split
  · next hc => exact .inl ⟨_, by decide, rfl, by rw [hc]; rfl⟩
  split
  · next hc => exact .inl ⟨_, by decide, rfl, by rw [hc]; rfl⟩
  split
  · next hcontrol => exact .inr (.inl ⟨hcontrol, rfl⟩)
  · next hcontrol => exact .inr (.inr ⟨hquote, not_or.2 ⟨hslash, hcontrol⟩, rfl⟩)

/-- What is written of a character is read as that character. -/
theorem stringBody?_escape {c : Char} {s body rest : Text} (h : stringBody? s = some (body, rest)) :
    stringBody? (escape c ++ s) = some (c :: body, rest) := by
  rcases escape_cases c with ⟨letter, hu, hc, hletter⟩ | ⟨hcontrol, hc⟩ | ⟨hquote, hplain, hc⟩
  · rw [hc, List.cons_append, List.singleton_append, stringBody?]
    · simp [hletter, h]
    · rintro _ _ _ _ _ rfl
      exact absurd rfl hu
  · have hhigh : isHighSurrogate c.toNat = false := by
      simp only [isHighSurrogate, Bool.and_eq_false_iff, decide_eq_false_iff_not]
      omega
    have hlow : isLowSurrogate c.toNat = false := by
      simp only [isLowSurrogate, Bool.and_eq_false_iff, decide_eq_false_iff_not]
      omega
    simp [hc, stringBody?, unit?_control hcontrol, hhigh, hlow, h]
  · obtain ⟨hslash, hcontrol⟩ := not_or.1 hplain
    simp [hc, stringBody?, hquote, hslash, hcontrol, h]

/-- A string is read back up to the quote that closes it. -/
theorem stringBody?_flatMap_escape (s rest : Text) :
    stringBody? (s.flatMap escape ++ '"' :: rest) = some (s, rest) := by
  induction s with
  | nil => simp [stringBody?]
  | cons c s ih =>
    rw [List.flatMap_cons, List.append_assoc]
    exact stringBody?_escape ih

/-! ### Members in order -/

theorem sorted_iff_keys {members : List (Text × Json)} :
    Sorted members ↔ (members.map Prod.fst).Pairwise fun a b => compare a b = .lt := by
  rw [List.pairwise_map, Sorted]

/-- A member whose key comes behind all others goes to the end. -/
theorem insert_eq_append {key : Text} {value : Json} {members : List (Text × Json)}
    (h : ∀ m ∈ members, compare m.1 key = .lt) :
    insert key value members = members ++ [(key, value)] := by
  induction members with
  | nil => rfl
  | cons m members ih =>
    obtain ⟨k, v⟩ := m
    obtain ⟨hk, hmembers⟩ := List.forall_mem_cons.1 h
    have hgt : compare key k = .gt := Std.OrientedCmp.gt_of_lt hk
    rw [insert, hgt]
    simp [ih hmembers]

/-- Members in order are inserted as they stand. -/
theorem Sorted.ofMembers_eq {members : List (Text × Json)} (h : Sorted members) :
    ofMembers members = .object members := by
  have hfold : ∀ front back : List (Text × Json), Sorted (front ++ back) →
      back.foldl (fun sorted member => Json.insert member.1 member.2 sorted) front
        = front ++ back := by
    intro front back hsorted
    induction back generalizing front with
    | nil => simp
    | cons m back ih =>
      have hlast : ∀ x ∈ front, compare x.1 m.1 = .lt :=
        fun x hx => (List.pairwise_append.1 hsorted).2.2 x hx m List.mem_cons_self
      rw [List.foldl_cons, insert_eq_append hlast, ih _ (by simpa using hsorted)]
      simp
  exact congrArg Json.object (hfold [] members h)

/-- What is inserted one by one is in order, and nothing else is in it. -/
theorem exists_ofMembers (members : List (Text × Json)) :
    ∃ sorted, ofMembers members = .object sorted ∧ Sorted sorted ∧ ∀ m ∈ sorted, m ∈ members := by
  have hfold : ∀ front : List (Text × Json), Sorted front → ∃ sorted,
      members.foldl (fun sorted member => Json.insert member.1 member.2 sorted) front = sorted
        ∧ Sorted sorted ∧ ∀ m ∈ sorted, m ∈ front ∨ m ∈ members := by
    intro front hfront
    induction members generalizing front with
    | nil => exact ⟨front, rfl, hfront, fun m hm => .inl hm⟩
    | cons m members ih =>
      obtain ⟨sorted, hsorted, horder, hmem⟩ := ih _ (hfront.insert m.1 m.2)
      refine ⟨sorted, hsorted, horder, fun x hx => ?_⟩
      rcases hmem x hx with hx | hx
      · rcases mem_insert hx with rfl | hx
        · exact .inr List.mem_cons_self
        · exact .inl hx
      · exact .inr (List.mem_cons_of_mem _ hx)
  obtain ⟨sorted, hsorted, horder, hmem⟩ := hfold [] .nil
  exact ⟨sorted, congrArg Json.object hsorted, horder, fun m hm => (hmem m hm).resolve_left (by simp)⟩

/-! ### Regular values -/

/-- A value that nests no deeper than a given depth, and has the members of all its objects in
order. -/
inductive Regular : Nat → Json → Prop where
  | null {depth : Nat} : Regular depth .null
  | bool {depth : Nat} (b : Bool) : Regular depth (.bool b)
  | number {depth : Nat} (n : Number) : Regular depth (.number n)
  | text {depth : Nat} (s : Text) : Regular depth (.text s)
  | array {depth : Nat} {items : List Json} :
      (∀ item ∈ items, Regular depth item) → Regular (depth + 1) (.array items)
  | object {depth : Nat} {members : List (Text × Json)} :
      Sorted members → (∀ m ∈ members, Regular depth m.2) → Regular (depth + 1) (.object members)

section
variable {α : Type} {thing? : Reads α} {close : Char} {things : List α} {s rest : Text}

/-- What holds of everything that is read holds of all things of a sequence. -/
theorem Sequence.forall_mem {P : α → Prop}
    (hthing : ∀ {s rest : Text} {a : α}, thing? s = some (a, rest) → P a)
    (h : Sequence thing? close things s rest) : ∀ a ∈ things, P a := by
  induction h with
  | last ha _ => simpa using hthing ha
  | cons ha _ _ ih => exact List.forall_mem_cons.2 ⟨hthing ha, ih⟩

theorem forall_mem_of_container? {P : α → Prop}
    (hthing : ∀ {s rest : Text} {a : α}, thing? s = some (a, rest) → P a) (hclose : close ≠ ',')
    (h : container? thing? close s = some (things, rest)) : ∀ a ∈ things, P a := by
  unfold container? at h
  split at h
  · cases h
  · split at h
    · cases h
      simp
    · exact ((sequence?_eq_some_iff hclose).1 h).1.forall_mem hthing

end

theorem exists_of_member? {value? : Reads Json} {s rest : Text} {m : Text × Json}
    (h : member? value? s = some (m, rest)) : ∃ s', value? s' = some (m.2, rest) := by
  unfold member? at h
  split at h
  · simp only [Option.bind_eq_bind, Option.bind_eq_some_iff] at h
    obtain ⟨_, -, h⟩ := h
    split at h
    · obtain ⟨⟨value, rest⟩, hvalue, heq⟩ := Option.bind_eq_some_iff.1 h
      cases heq
      exact ⟨_, hvalue⟩
    · cases h
  · cases h

variable {double? : ReadsDouble}

/-- **What is read is regular.** -/
theorem regular_of_value? {depth : Nat} {s rest : Text} {value : Json}
    (h : value? double? depth s = some (value, rest)) : Regular depth value := by
  induction depth using Nat.strongRecOn generalizing s value rest with
  | _ depth ih =>
  rcases value?_cases h with ⟨_, items, depth, -, rfl, rfl, hitems⟩
    | ⟨_, members, depth, -, rfl, rfl, hmembers⟩ | ⟨harray, hobject⟩
  · exact .array (forall_mem_of_container? (fun hvalue => ih depth (Nat.lt_succ_self depth) hvalue)
      (by decide) hitems)
  · have hregular : ∀ m ∈ members, Regular depth m.2 := by
      refine forall_mem_of_container? (P := fun m => Regular depth m.2) ?_ (by decide) hmembers
      intro s rest m hm
      obtain ⟨_, hvalue⟩ := exists_of_member? hm
      exact ih depth (Nat.lt_succ_self depth) hvalue
    obtain ⟨sorted, hsorted, horder, hmem⟩ := exists_ofMembers members
    rw [hsorted]
    exact .object horder fun m hm => hregular m (hmem m hm)
  · cases value with
    | null => exact .null
    | bool b => exact .bool b
    | number n => exact .number n
    | text s => exact .text s
    | array items => exact absurd rfl (harray items)
    | object members => exact absurd rfl (hobject members)

/-! ### Values read anew -/

/-- A number stands in a value. -/
inductive HasNumber : Json → Number → Prop where
  | here {n : Number} : HasNumber (.number n) n
  | item {items : List Json} {item : Json} {n : Number} :
      item ∈ items → HasNumber item n → HasNumber (.array items) n
  | member {members : List (Text × Json)} {m : Text × Json} {n : Number} :
      m ∈ members → HasNumber m.2 n → HasNumber (.object members) n

mutual

/-- A value with each number as it is read from its text, if all are read. -/
def reread (double? : ReadsDouble) : Json → Option Json
  | .null => some .null
  | .bool b => some (.bool b)
  | .number n => readBy? double? n.json
  | .text s => some (.text s)
  | .array items => (rereadItems double? items).map .array
  | .object members => (rereadMembers double? members).map .object

@[inherit_doc reread] def rereadItems (double? : ReadsDouble) : List Json → Option (List Json)
  | [] => some []
  | item :: items => do return (← reread double? item) :: (← rereadItems double? items)

@[inherit_doc reread] def rereadMember (double? : ReadsDouble) : Text × Json → Option (Text × Json)
  | (key, value) => (reread double? value).map (key, ·)

@[inherit_doc reread] def rereadMembers (double? : ReadsDouble) :
    List (Text × Json) → Option (List (Text × Json))
  | [] => some []
  | member :: members => do
    return (← rereadMember double? member) :: (← rereadMembers double? members)

end

theorem rereadItems_eq (items : List Json) :
    rereadItems double? items = items.mapM (reread double?) := by
  induction items with
  | nil => rfl
  | cons item items ih => simp [rereadItems, ih]

theorem rereadMembers_eq (members : List (Text × Json)) :
    rereadMembers double? members = members.mapM (rereadMember double?) := by
  induction members with
  | nil => rfl
  | cons m members ih => simp [rereadMembers, ih]

/-- A list is the same after each step of a traversal is. -/
theorem mapM_eq_some_self_iff {α : Type} {f : α → Option α} {l : List α} :
    l.mapM f = some l ↔ ∀ a ∈ l, f a = some a := by
  induction l with
  | nil => simp
  | cons a l ih => simp [List.mapM_cons, ← ih, Option.bind_eq_some_iff]

/-- Members keep their keys, and so their order. -/
theorem Sorted.of_mapM {members members' : List (Text × Json)} (h : Sorted members)
    (hread : members.mapM (rereadMember double?) = some members') : Sorted members' := by
  have hkeys : members'.map Prod.fst = members.map Prod.fst := by
    clear h
    induction members generalizing members' with
    | nil => simpa using hread.symm
    | cons m members ih =>
      simp only [List.mapM_cons, Option.bind_eq_bind, Option.bind_eq_some_iff] at hread
      obtain ⟨m', hm, members', hmembers, heq⟩ := hread
      cases heq
      obtain ⟨key, value⟩ := m
      obtain ⟨value', -, rfl⟩ := Option.map_eq_some_iff.1 hm
      simp [ih hmembers]
  rw [sorted_iff_keys] at h ⊢
  rwa [hkeys]

/-! ### Things in a row -/

namespace EndsNumeral

theorem cons {c : Char} {s : Text} (h : c.isDigit = false ∧ c ≠ '.' ∧ c ≠ 'e' ∧ c ≠ 'E') :
    EndsNumeral (c :: s) := by
  intro d hd
  obtain rfl : c = d := by simpa using hd
  exact h

theorem space_append {w s : Text} (hw : Space w) (h : EndsNumeral s) : EndsNumeral (w ++ s) := by
  cases w with
  | nil => exact h
  | cons c w =>
    rcases isSpace_cases (hw c List.mem_cons_self) with rfl | rfl | rfl | rfl <;>
      exact cons (by decide)

end EndsNumeral

/-- A reader makes a thing of a text, or nothing, behind any white space and in front of whatever does
not go on with a number. -/
def Takes {α : Type} (thing? : Reads α) (outcome : Option α) (t : Text) : Prop :=
  ∀ w rest, Space w → EndsNumeral rest → thing? (w ++ (t ++ rest)) = outcome.map (·, rest)

/-- What can close a container. -/
def IsClosing (close : Char) : Prop :=
  isSpace close = false ∧ close ≠ ',' ∧ close.isDigit = false ∧ close ≠ '.' ∧ close ≠ 'e'
    ∧ close ≠ 'E'

instance (close : Char) : Decidable (IsClosing close) :=
  inferInstanceAs (Decidable (_ ∧ _))

/-- Things in a row, a comma and a gap in front of each. -/
def row {α : Type} (gap : Text) (written : α → Text) (things : List α) : Text :=
  things.flatMap fun a => ',' :: (gap ++ written a)

section
variable {α : Type} {thing? : Reads α} {close : Char} {a : α} {things : List α}
  {again : α → Option α} {written : α → Text} {gap after w rest : Text}

theorem row_cons (gap : Text) (written : α → Text) (a : α) (things : List α) :
    row gap written (a :: things) = ',' :: (gap ++ (written a ++ row gap written things)) := by
  simp [row]

theorem length_le_row (gap : Text) (written : α → Text) (things : List α) :
    things.length ≤ (row gap written things).length := by
  induction things with
  | nil => simp
  | cons a things ih =>
    rw [row_cons]
    simp only [List.length_cons, List.length_append]
    omega

/-- A thing and others in a row behind it are read as a sequence. -/
theorem sequence?_of_takes (hclose : IsClosing close) (hgap : Space gap) (hafter : Space after)
    (h : ∀ b ∈ a :: things, Takes thing? (again b) (written b)) (hw : Space w) (rest : Text)
    (limit : Nat) (hlimit : things.length < limit) :
    sequence? thing? close limit
        (w ++ (written a ++ (row gap written things ++ (after ++ close :: rest))))
      = ((a :: things).mapM again).map (·, rest) := by
  obtain ⟨hspace, hcomma, hends⟩ := hclose
  induction things generalizing a w limit with
  | nil =>
    obtain ⟨limit, rfl⟩ := Nat.exists_eq_add_of_lt hlimit
    have hrest : EndsNumeral (after ++ close :: rest) := .space_append hafter (.cons hends)
    rw [sequence?, row, List.flatMap_nil, List.nil_append, h a List.mem_cons_self w _ hw hrest]
    cases hagain : again a with
    | none => simp [hagain]
    | some a' => simp [hagain, skipSpace_append hafter hspace]
  | cons b things ih =>
    obtain ⟨limit, rfl⟩ := Nat.exists_eq_add_of_lt hlimit
    obtain ⟨ha, hthings⟩ := List.forall_mem_cons.1 h
    have hothers := ih hthings hgap ((b :: things).length + limit) (by rw [List.length_cons]; omega)
    rw [sequence?, row_cons, List.cons_append, List.append_assoc, List.append_assoc,
      ha w _ hw (.cons (by decide)), List.mapM_cons]
    cases again a with
    | none => rfl
    | some a' =>
      simp only [Option.map_some, skipSpace_cons (show isSpace ',' = false by decide), hcomma.symm,
        if_false, if_true, hothers]
      cases (b :: things).mapM again <;> rfl

/-- **Things in a row are read as a container**, of what is read of each. -/
theorem container?_of_takes (hclose : IsClosing close) (hgap : Space gap) (hafter : Space after)
    (hfirst : ∃ c t, written a = c :: t ∧ isSpace c = false ∧ c ≠ close)
    (h : ∀ b ∈ a :: things, Takes thing? (again b) (written b)) :
    container? thing? close
        (gap ++ (written a ++ (row gap written things ++ (after ++ close :: rest))))
      = ((a :: things).mapM again).map (·, rest) := by
  obtain ⟨c, t, hc, hspace, hne⟩ := hfirst
  have hskip : skipSpace (gap ++ (written a ++ (row gap written things ++ (after ++ close :: rest))))
      = written a ++ (row gap written things ++ (after ++ close :: rest)) := by
    rw [hc]
    exact skipSpace_append hgap hspace
  have hlimit : things.length
      < (gap ++ (written a ++ (row gap written things ++ (after ++ close :: rest)))).length := by
    have := length_le_row gap written things
    simp only [List.length_append, List.length_cons]
    omega
  have hseq := sequence?_of_takes hclose hgap hafter h space_nil rest _ hlimit
  rw [container?, hskip]
  rw [List.nil_append] at hseq
  generalize (gap ++ _).length = limit at hseq ⊢
  rw [hc] at hseq ⊢
  exact (if_neg hne).trans hseq

end

/-! ### Printed values -/

/-- What a style puts between the parts of a value is white space. -/
structure Style.Spaced (style : Style) : Prop where
  gap : ∀ depth, Space (style.gap depth)
  colon : ∃ w, Space w ∧ style.colon = ':' :: w

theorem Style.spaced_compact : Style.compact.Spaced :=
  ⟨fun _ => space_nil, [], space_nil, rfl⟩

theorem Style.spaced_pretty : Style.pretty.Spaced := by
  refine ⟨fun depth => ?_, [' '], by simp [Space, isSpace], rfl⟩
  refine List.forall_mem_cons.2 ⟨by decide, fun c hc => ?_⟩
  rw [List.eq_of_mem_replicate hc]
  decide

theorem writeItems_eq (style : Style) (place : Nat) (items : List Json) :
    writeItems style place items = row (style.gap place) (write style place) items := by
  induction items with
  | nil => rfl
  | cons item items ih => simp [writeItems, ih, row_cons]

theorem writeMembers_eq (style : Style) (place : Nat) (members : List (Text × Json)) :
    writeMembers style place members = row (style.gap place) (writeMember style place) members := by
  induction members with
  | nil => rfl
  | cons m members ih => simp [writeMembers, ih, row_cons]

variable {style : Style} {depth : Nat} {value : Json}

/-- No value begins with a closing bracket or white space. -/
theorem exists_write (style : Style) (place : Nat) (value : Json) :
    ∃ c t, write style place value = c :: t ∧ isSpace c = false ∧ c ≠ ']' := by
  cases value with
  | null | text _ => exact ⟨_, _, rfl, by decide, by decide⟩
  | bool b => cases b <;> exact ⟨_, _, rfl, by decide, by decide⟩
  | number n =>
    obtain ⟨m, hm⟩ := exists_beginsWith_json n
    obtain ⟨c, t, ht, hc⟩ := hm.exists_cons
    obtain ⟨hspace, -, hclose, -⟩ := ne_of_begins_numeral hc
    exact ⟨c, t, ht, hspace, hclose⟩
  | array items => cases items <;> exact ⟨_, _, rfl, by decide, by decide⟩
  | object members => cases members <;> exact ⟨_, _, rfl, by decide, by decide⟩

/-- A text that is read as a scalar, and begins with none of the characters of other values. -/
theorem takes_scalar {c : Char} {t : Text} {outcome : Option Json} (hspace : isSpace c = false)
    (hc : c ≠ '[' ∧ c ≠ '\x7b')
    (h : ∀ rest, EndsNumeral rest →
      scalar? double? (c :: (t ++ rest)) = outcome.map (·, rest)) :
    Takes (value? double? depth) outcome (c :: t) := by
  intro w rest hw hrest
  rw [List.cons_append, value?_scalar (skipSpace_append hw hspace) hc]
  exact h rest hrest

theorem takes_word {c : Char} {t : Text} (hword : (c :: t, value) ∈ words) :
    Takes (value? double? depth) (some value) (c :: t) := by
  have hc : isSpace c = false ∧ (c ≠ '[' ∧ c ≠ '\x7b') ∧ c ≠ '"' := by
    rcases words_cases hword with ⟨h, -⟩ | ⟨h, -⟩ | ⟨h, -⟩ <;>
    · obtain ⟨rfl, -⟩ := List.cons.inj h
      decide
  refine takes_scalar hc.1 hc.2.1 fun rest _ => ?_
  rw [scalar?_of_head? (by simpa using hc.2.2), ← List.cons_append, word?_append hword]
  rfl

theorem takes_number (n : Number) :
    Takes (value? double? depth) (readBy? double? n.json) n.json := by
  obtain ⟨m, hm⟩ := exists_beginsWith_json n
  rw [hm.readBy?_eq]
  have hscalar := fun {rest : Text} (hrest : EndsNumeral rest) =>
    hm.scalar?_eq double? hrest
  obtain ⟨c, t, ht, hc⟩ := hm.exists_cons
  obtain ⟨hspace, hcontainer, -⟩ := ne_of_begins_numeral hc
  rw [ht] at hscalar ⊢
  refine takes_scalar hspace hcontainer fun rest hrest => ?_
  rw [Option.map_map]
  exact hscalar hrest

theorem takes_text (s : Text) : Takes (value? double? depth) (some (.text s)) (quote s) := by
  refine takes_scalar (by decide) (by decide) fun rest _ => ?_
  have hbody := stringBody?_flatMap_escape s rest
  simp [scalar?, hbody]

/-- A member is a key, a colon and a value. -/
theorem takes_member (hstyle : style.Spaced) {place : Nat} {m : Text × Json}
    (h : Takes (value? double? depth) (reread double? m.2) (write style place m.2)) :
    Takes (member? (value? double? depth)) (rereadMember double? m) (writeMember style place m) := by
  obtain ⟨key, value⟩ := m
  obtain ⟨colon, hcolon, hstyleColon⟩ := hstyle.colon
  intro w rest hw hrest
  have hkey := stringBody?_flatMap_escape key
    (':' :: (colon ++ (write style place value ++ rest)))
  have htext : writeMember style place (key, value) ++ rest
      = '"' :: (key.flatMap escape ++ '"' :: ':' :: (colon ++ (write style place value ++ rest))) := by
    simp [writeMember, quote, hstyleColon]
  rw [htext, member?, skipSpace_append hw (by decide)]
  simp only [hkey, Option.bind_eq_bind, Option.bind_some]
  rw [skipSpace_cons (by decide)]
  simp only [h colon rest hcolon hrest]
  rw [rereadMember]
  cases reread double? value <;> rfl

theorem takes_array (hstyle : style.Spaced) {place : Nat} {items : List Json}
    (h : ∀ item ∈ items,
      Takes (value? double? depth) (reread double? item) (write style (place + 1) item)) :
    Takes (value? double? (depth + 1)) (reread double? (.array items))
      (write style place (.array items)) := by
  intro w rest hw _
  cases items with
  | nil =>
    have hskip : skipSpace (w ++ (write style place (.array []) ++ rest)) = '[' :: ']' :: rest :=
      skipSpace_append hw (by decide)
    rw [value?_array hskip, container?, skipSpace_cons (by decide)]
    rfl
  | cons item items =>
    have htext : write style place (.array (item :: items)) ++ rest
        = '[' :: (style.gap (place + 1) ++ (write style (place + 1) item
          ++ (row (style.gap (place + 1)) (write style (place + 1)) items
            ++ (style.gap place ++ ']' :: rest)))) := by
      simp [write, writeItems_eq]
    rw [htext, value?_array (skipSpace_append hw (by decide)),
      container?_of_takes (by decide) (hstyle.gap _) (hstyle.gap _) (exists_write ..) h, reread,
      rereadItems_eq]
    cases (item :: items).mapM (reread double?) <;> rfl

theorem takes_object (hstyle : style.Spaced) {place : Nat} {members : List (Text × Json)}
    (hsorted : Sorted members)
    (h : ∀ m ∈ members,
      Takes (value? double? depth) (reread double? m.2) (write style (place + 1) m.2)) :
    Takes (value? double? (depth + 1)) (reread double? (.object members))
      (write style place (.object members)) := by
  intro w rest hw _
  cases members with
  | nil =>
    have hskip : skipSpace (w ++ (write style place (.object []) ++ rest))
        = '\x7b' :: '\x7d' :: rest := skipSpace_append hw (by decide)
    rw [value?_members hskip, container?, skipSpace_cons (by decide)]
    rfl
  | cons m members =>
    have htext : write style place (.object (m :: members)) ++ rest
        = '\x7b' :: (style.gap (place + 1) ++ (writeMember style (place + 1) m
          ++ (row (style.gap (place + 1)) (writeMember style (place + 1)) members
            ++ (style.gap place ++ '\x7d' :: rest)))) := by
      simp [write, writeMembers_eq]
    have hmember : ∀ m' ∈ m :: members, Takes (member? (value? double? depth))
        (rereadMember double? m') (writeMember style (place + 1) m') :=
      fun m' hm' => takes_member hstyle (h m' hm')
    have hfirst : ∃ c t, writeMember style (place + 1) m = c :: t
        ∧ isSpace c = false ∧ c ≠ '\x7d' := by
      obtain ⟨key, value⟩ := m
      exact ⟨_, _, rfl, by decide, by decide⟩
    rw [htext, value?_members (skipSpace_append hw (by decide)),
      container?_of_takes (by decide) (hstyle.gap _) (hstyle.gap _) hfirst hmember, reread,
      rereadMembers_eq]
    cases hread : (m :: members).mapM (rereadMember double?) with
    | none => rfl
    | some members' => simp [(hsorted.of_mapM hread).ofMembers_eq]

/-- **What is printed of a regular value is read as the value with its numbers read anew.** -/
theorem Regular.takes_write (double? : ReadsDouble) (h : Regular depth value)
    (hstyle : style.Spaced) (place : Nat) :
    Takes (value? double? depth) (reread double? value) (write style place value) := by
  induction h generalizing place with
  | null => exact takes_word (by simp [words])
  | bool b => cases b <;> exact takes_word (by simp [words])
  | number n => exact takes_number n
  | text s => exact takes_text s
  | array _ ih => exact takes_array hstyle fun item hitem => ih item hitem (place + 1)
  | object hsorted _ ih => exact takes_object hstyle hsorted fun m hm => ih m hm (place + 1)

/-- A value with its numbers read anew is that value when each number is read back. -/
theorem Regular.reread_eq_some_iff (h : Regular depth value) :
    reread double? value = some value
      ↔ ∀ n, value.HasNumber n → readBy? double? n.json = some (.number n) := by
  induction h with
  | null | bool | text => exact ⟨fun _ n hn => (nomatch hn), fun _ => rfl⟩
  | number n =>
    refine ⟨fun hread n' hn => ?_, fun hback => hback n .here⟩
    cases hn
    exact hread
  | @array _ items _ ih =>
    have hitems : reread double? (.array items) = some (.array items)
        ↔ ∀ item ∈ items, reread double? item = some item := by
      rw [← mapM_eq_some_self_iff, ← rereadItems_eq, reread, Option.map_eq_some_iff]
      simp
    rw [hitems]
    constructor
    · rintro hread n (_ | ⟨hitem, hn⟩)
      exact (ih _ hitem).1 (hread _ hitem) n hn
    · exact fun hback item hitem => (ih item hitem).2 fun n hn => hback n (.item hitem hn)
  | @object _ members _ _ ih =>
    have hmembers : reread double? (.object members) = some (.object members)
        ↔ ∀ m ∈ members, reread double? m.2 = some m.2 := by
      have hmember : ∀ m : Text × Json,
          rereadMember double? m = some m ↔ reread double? m.2 = some m.2 := by
        rintro ⟨key, value⟩
        rw [rereadMember, Option.map_eq_some_iff]
        simp
      rw [reread, Option.map_eq_some_iff, rereadMembers_eq]
      simp only [Json.object.injEq, exists_eq_right, mapM_eq_some_self_iff, hmember]
    rw [hmembers]
    constructor
    · rintro hread n (_ | _ | ⟨hm, hn⟩)
      exact (ih _ hm).1 (hread _ hm) n hn
    · exact fun hback m hm => (ih m hm).2 fun n hn => hback n (.member hm hn)

theorem Regular.readBy?_print (double? : ReadsDouble) (h : Regular maxDepth value)
    (hstyle : style.Spaced) : readBy? double? (value.print style) = reread double? value := by
  refine readBy?_of_value? ?_
  simpa [print] using h.takes_write double? hstyle 0 [] [] space_nil .nil

/-- **A regular value is read from what is printed of it exactly if its numbers are**, each from its
own text. -/
theorem Regular.readBy?_print_iff (h : Regular maxDepth value) (hstyle : style.Spaced) :
    readBy? double? (value.print style) = some value
      ↔ ∀ n, value.HasNumber n → readBy? double? n.json = some (.number n) := by
  rw [h.readBy?_print double? hstyle, h.reread_eq_some_iff]

/-- Regular values with the same text are the same. -/
theorem Regular.eq_of_print {value' : Json} (h : Regular maxDepth value)
    (h' : Regular maxDepth value') (hstyle : style.Spaced)
    (htext : value.print style = value'.print style) : value = value' := by
  have hread := (h.readBy?_print_iff hstyle).2 fun n _ => readBy?_json_nearest n
  rw [htext, (h'.readBy?_print_iff hstyle).2 fun n _ => readBy?_json_nearest n] at hread
  exact (Option.some.inj hread).symm

theorem regular_of_read? {s : Text} (h : read? s = some value) : Regular maxDepth value := by
  obtain ⟨⟨value', rest⟩, hvalue, hrest⟩ := Option.bind_eq_some_iff.1 h
  simp only [Option.ite_none_right_eq_some, Option.some.injEq] at hrest
  obtain ⟨-, rfl⟩ := hrest
  exact regular_of_value? hvalue

/-- What is read of a text is known from what is printed of it. -/
theorem read?_eq_some_of_print {s : Text} (h : Regular maxDepth value) (hstyle : style.Spaced)
    (hprint : (read? s).map (·.print style) = some (value.print style)) : read? s = some value := by
  obtain ⟨value', hread, htext⟩ := Option.map_eq_some_iff.1 hprint
  rw [hread, (regular_of_read? hread).eq_of_print h hstyle htext]

/-- **A document is read back from what is printed of it exactly if its numbers are.** -/
theorem read?_print_iff {s : Text} (h : read? s = some value) (hstyle : style.Spaced) :
    read? (value.print style) = some value
      ↔ ∀ n, value.HasNumber n → read? n.json = some (.number n) :=
  (regular_of_read? h).readBy?_print_iff hstyle

end DocSearch.Json
