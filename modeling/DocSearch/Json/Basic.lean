import DocSearch.Number.Basic

/-!
# JSON — values

Objects are lists of members in the order of their keys, by code point, which is the order of
the keys' UTF-8 bytes.  `Json.insert` keeps that order and replaces the member of a key that is
there already, so an object built by it (`Json.ofMembers`) has every key once (`Sorted.insert`),
with the value given last.
-/

namespace DocSearch

/-- A JSON value. -/
inductive Json where
  | null
  | bool (b : Bool)
  | number (n : Number)
  | text (s : Text)
  | array (items : List Json)
  | object (members : List (Text × Json))

namespace Json

/-- The members with one more, or with another value for its key. -/
def insert (key : Text) (value : Json) : List (Text × Json) → List (Text × Json)
  | [] => [(key, value)]
  | (k, v) :: members =>
    match compare key k with
    | .lt => (key, value) :: (k, v) :: members
    | .eq => (key, value) :: members
    | .gt => (k, v) :: insert key value members

/-- The object of some members, of which the last with a given key counts. -/
def ofMembers (members : List (Text × Json)) : Json :=
  .object (members.foldl (fun sorted member => insert member.1 member.2 sorted) [])

/-- The object with a single member. -/
def single (key : Text) (value : Json) : Json :=
  .object [(key, value)]

/-- The value of a key.  Only objects have keys. -/
def field? (key : Text) : Json → Option Json
  | .object members => members.lookup key
  | _ => none

/-! ### Order of keys -/

/-- The keys are in order, each once. -/
def Sorted (members : List (Text × Json)) : Prop :=
  members.Pairwise fun a b => compare a.1 b.1 = .lt

theorem mem_insert {key : Text} {value : Json} {members : List (Text × Json)} {m : Text × Json}
    (h : m ∈ insert key value members) : m = (key, value) ∨ m ∈ members := by
  fun_induction insert key value members with
  | case1 => simpa using h
  | case2 => simpa using h
  | case3 k v members _ => exact (List.mem_cons.1 h).imp_right (List.mem_cons_of_mem _)
  | case4 k v members _ ih =>
    rcases List.mem_cons.1 h with rfl | h
    · exact .inr List.mem_cons_self
    · exact (ih h).imp_right (List.mem_cons_of_mem _)

/-- Inserting keeps the keys in order. -/
theorem Sorted.insert {members : List (Text × Json)} (h : Sorted members) (key : Text)
    (value : Json) : Sorted (insert key value members) := by
  fun_induction Json.insert key value members with
  | case1 => exact List.pairwise_singleton ..
  | case2 k v members hlt =>
    refine List.pairwise_cons.2 ⟨fun m hm => ?_, h⟩
    rcases List.mem_cons.1 hm with rfl | hm
    · exact hlt
    · exact Std.TransCmp.lt_trans hlt ((List.pairwise_cons.1 h).1 m hm)
  | case3 k v members heq =>
    cases Std.LawfulEqCmp.eq_of_compare heq
    exact List.pairwise_cons.2 (List.pairwise_cons.1 h)
  | case4 k v members hgt ih =>
    obtain ⟨hhead, htail⟩ := List.pairwise_cons.1 h
    refine List.pairwise_cons.2 ⟨fun m hm => ?_, ih htail⟩
    rcases mem_insert hm with rfl | hm
    · exact Std.OrientedCmp.lt_of_gt hgt
    · exact hhead m hm

end Json

end DocSearch
