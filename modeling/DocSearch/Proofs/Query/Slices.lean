import DocSearch.Proofs.Results
import DocSearch.Proofs.Text.Slices
import DocSearch.Query.Token

/-!
# Query — groups and tokens as slices

A query is not copied when it is split: its groups are slices of it, and field and value are slices of
their group.  Going through the characters finds the positions, in bytes, where a slice begins and ends.
Some of them are remembered while others go by, and the value begins where the length of the operator's
symbol is added to one.  `Sliced` has the programs that work so.

They cut the characters that the functions on texts give, and no slice fails (`cuts_splitGroups`,
`cuts_findOperator`, `cuts_ofGroup`).  What carries the induction in the first two is that the text is
known in front of the position that is reached; the group that has been begun ends there, and begins at
the position that is remembered.
-/

namespace DocSearch.Query

/-! ### The programs -/

namespace Sliced

/-- The groups of a query, one of them begun at the position `start?`, inside a pair of quotes or not. -/
def splitFrom (query : String) (quoted : Bool) (start? : Option Nat) :
    List (Nat × Char) → Slicing (Except Error (List String))
  | [] =>
    match start? with
    | none => pure (.ok [])
    | some start => do
      let group ← cut query start query.utf8ByteSize
      if quoted then pure (.error (.malformed group.toList .unterminatedQuote))
      else pure (.ok [group])
  | (i, c) :: places =>
    let quoted := if c = '"' then !quoted else quoted
    if isBlank c && !quoted then
      match start? with
      | none => splitFrom query quoted none places
      | some start => do
        let group ← cut query start i
        let groups ← splitFrom query quoted none places
        pure (groups.map (group :: ·))
    else splitFrom query quoted (some (start?.getD i)) places

@[inherit_doc Query.splitGroups] def splitGroups (query : String) :
    Slicing (Except Error (List String)) :=
  splitFrom query false none (places query)

/-- The first position of a group at which there is an operator. -/
def findOperator (group : String) : List (Nat × Char) → Slicing (Option (Nat × Operator))
  | [] => pure none
  | (i, _) :: places => do
    let tail ← cut group i group.utf8ByteSize
    match Operator.atFront? tail.toList with
    | some (operator, _) => pure (some (i, operator))
    | none => findOperator group places

/-- The token that a field, an operator and what stands behind it make, or the fault in them. -/
def token (field : Text) (operator : Operator) (rest : Text) : Except Fault Token :=
  if field.isEmpty then .error .emptyField
  else if field.any fun c => Operator.isSymbolChar c || c = '"' then .error .fieldCharacter
  else (rawValue rest).map fun (raw, quoted) => ⟨field, operator, raw, quoted⟩

@[inherit_doc Token.ofGroup] def ofGroup (group : String) : Slicing (Except Fault Token) := do
  match ← findOperator group (places group) with
  | none => pure (.error .noOperator)
  | some (i, operator) =>
    let field ← cut group 0 i
    let rest ← cut group (i + Text.byteSize operator.symbol) group.utf8ByteSize
    pure (token field.toList operator rest.toList)

end Sliced

/-! ### What they cut -/

/-- The groups of a text, that in which a quote is left open among them. -/
def pieces (quoted : Bool) (started : Text) : Text → List Text
  | [] => if started.isEmpty then [] else [started.reverse]
  | c :: s =>
    let quoted := if c = '"' then !quoted else quoted
    if isBlank c && !quoted then
      if started.isEmpty then pieces quoted [] s else started.reverse :: pieces quoted [] s
    else pieces quoted (c :: started) s

/-- Where no quote is left open these are the groups. -/
theorem pieces_of_splitFrom {quoted : Bool} {started s : Text} {groups : List Text}
    (h : splitFrom quoted started s = .ok groups) : pieces quoted started s = groups := by
  induction s generalizing quoted started groups with
  | nil =>
    rw [splitFrom] at h
    rw [pieces]
    split at h
    · next hnone =>
      cases h
      rw [if_pos hnone]
    · next hsome =>
      rw [if_neg hsome]
      cases quoted with
      | true => cases h
      | false =>
        cases h
        rfl
  | cons c s ih =>
    rw [splitFrom] at h
    rw [pieces]
    generalize (if c = '"' then !quoted else quoted) = quoted at h ⊢
    split at h
    · next hend =>
      rw [if_pos hend]
      split at h
      · next hnone => rw [if_pos hnone, ih h]
      · next hsome =>
        obtain ⟨groups', hgroups, rfl⟩ := map_eq_ok.1 h
        rw [if_neg hsome, ih hgroups]
    · next hgo => rw [if_neg hgo, ih h]

/-- The ends of a text that are tried for an operator in front: all up to the first that has one. -/
def tried : Text → List Text
  | [] => []
  | c :: s =>
    (c :: s) ::
      match Operator.atFront? (c :: s) with
      | some _ => []
      | none => tried s

/-- What is cut of a group: the ends that are tried, and field and value if there is an operator. -/
def parts (group : Text) : List Text :=
  tried group ++
    match splitOperator? group with
    | none => []
    | some (field, _, rest) => [field, rest]

variable {query group : String} {quoted : Bool} {front started rest s : Text}

/-- Where a group stands that has been begun behind a text. -/
def startOf (front started : Text) : Option Nat :=
  if started.isEmpty then none else some (Text.byteSize front)

theorem startOf_cons (front started : Text) (c : Char) :
    startOf front (c :: started)
      = some ((startOf front started).getD (Text.byteSize (front ++ started.reverse))) := by
  cases started with
  | nil => simp [startOf]
  | cons d started => rfl

theorem cuts_splitFrom (h : query.toList = front ++ (started.reverse ++ rest)) :
    Cuts (Sliced.splitFrom query quoted (startOf front started)
        (placesFrom (Text.byteSize (front ++ started.reverse)) rest))
      (pieces quoted started rest)
      ((splitFrom quoted started rest).map (List.map String.ofList)) := by
  induction rest generalizing quoted front started with
  | nil =>
    cases started with
    | nil => exact .pure _
    | cons c started =>
      refine (cuts_cut_end (h.trans (by rw [List.append_nil]))).bind ?_
      cases quoted with
      | true =>
        rw [if_pos rfl, String.toList_ofList]
        exact .pure _
      | false => exact .pure _
  | cons c rest ih =>
    have hnext : query.toList = front ++ started.reverse ++ [c] ++ ([].reverse ++ rest) := by
      rw [h]
      simp
    rw [placesFrom_cons, Sliced.splitFrom.eq_def, pieces, splitFrom]
    dsimp only
    generalize (if c = '"' then !quoted else quoted) = quoted
    split
    · cases started with
      | nil => simpa [startOf] using ih hnext
      | cons d started =>
        have hgroups := @ih quoted _ [] hnext
        rw [List.reverse_nil, List.append_nil] at hgroups
        have hsome : ¬ (d :: started).isEmpty = true := Bool.false_ne_true
        rw [if_neg hsome, if_neg hsome]
        exact cuts_cut_cons (f := id) h rfl hgroups
    · rw [← startOf_cons]
      have hgroup := @ih quoted front (c :: started) (by rw [h]; simp)
      rw [List.reverse_cons, ← List.append_assoc] at hgroup
      exact hgroup

theorem cuts_splitGroups (query : String) :
    Cuts (Sliced.splitGroups query) (pieces false [] query.toList)
      ((splitGroups query.toList).map (List.map String.ofList)) :=
  @cuts_splitFrom query false [] [] query.toList rfl

theorem cuts_findOperator (h : group.toList = front ++ rest) :
    Cuts (Sliced.findOperator group (placesFrom (Text.byteSize front) rest)) (tried rest)
      ((splitOperator? rest).map fun (field, operator, _) =>
        (Text.byteSize (front ++ field), operator)) := by
  induction rest generalizing front with
  | nil => exact .pure _
  | cons c rest ih =>
    have hnext : group.toList = front ++ [c] ++ rest := by rw [h, List.append_assoc]; rfl
    rw [placesFrom_cons, Sliced.findOperator, tried, splitOperator?]
    refine (cuts_cut_end h).bind ?_
    rw [String.toList_ofList]
    cases Operator.atFront? (c :: rest) with
    | some found =>
      obtain ⟨operator, behind⟩ := found
      have hhere : Text.byteSize (front ++ []) = Text.byteSize front := by rw [List.append_nil]
      show Cuts (pure (some (Text.byteSize front, operator))) []
        (some (Text.byteSize (front ++ []), operator))
      rw [hhere]
      exact .pure _
    | none =>
      have hlater := ih hnext
      rw [Option.map_map]
      simpa [Function.comp_def] using hlater

/-- **A token is cut out of its group** without fail. -/
theorem cuts_ofGroup (group : String) :
    Cuts (Sliced.ofGroup group) (parts group.toList) (Token.ofGroup group.toList) := by
  have hfind := @cuts_findOperator group [] group.toList rfl
  rw [parts, Token.ofGroup]
  refine hfind.bind ?_
  cases hsplit : splitOperator? group.toList with
  | none => exact .pure _
  | some found =>
    obtain ⟨field, operator, rest⟩ := found
    have hgroup : group.toList = field ++ operator.symbol ++ rest :=
      eq_append_of_splitOperator? hsplit
    have hfield : group.toList = [] ++ (field ++ (operator.symbol ++ rest)) := by
      rw [hgroup, List.append_assoc]
      rfl
    have hbehind : Text.byteSize field + Text.byteSize operator.symbol
        = Text.byteSize (field ++ operator.symbol) := (Text.byteSize_append ..).symm
    have hrest := (cuts_cut_end hgroup).map fun rest => Sliced.token field operator rest.toList
    rw [← hbehind, String.toList_ofList] at hrest
    refine (cuts_cut hfield).bind ?_
    rw [String.toList_ofList]
    exact hrest

end DocSearch.Query
