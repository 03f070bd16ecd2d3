import DocSearch.Json.Reader
import DocSearch.Query.Match

/-!
# Documents — reading a list of them

Documents are texts of JSON.  A list of them is read in order, and the first that is no JSON
stands for the whole list (`readDocuments`).
-/

namespace DocSearch

/-- The documents of some texts, or the index of the first that is no JSON, counted on from
`index`. -/
def readDocumentsFrom (index : Nat) : List Text → Except Nat (List Json)
  | [] => .ok []
  | s :: texts =>
    match Json.read? s with
    | none => .error index
    | some document => (readDocumentsFrom (index + 1) texts).map (document :: ·)

/-- The documents of some texts, or the index of the first that is no JSON. -/
def readDocuments (texts : List Text) : Except Nat (List Json) :=
  readDocumentsFrom 0 texts

/-- A list is read when each of its texts is, to the same documents. -/
theorem readDocumentsFrom_eq_ok_iff {texts : List Text} {documents : List Json} (index : Nat) :
    readDocumentsFrom index texts = .ok documents
      ↔ texts.map Json.read? = documents.map some := by
  induction texts generalizing index documents with
  | nil => cases documents <;> simp [readDocumentsFrom]
  | cons s texts ih =>
    unfold readDocumentsFrom
    cases hs : Json.read? s with
    | none => cases documents <;> simp [hs]
    | some document =>
      cases documents with
      | nil => cases readDocumentsFrom (index + 1) texts <;> simp [Except.map]
      | cons d ds =>
        have := @ih ds (index + 1)
        cases h : readDocumentsFrom (index + 1) texts with
        | error i => simp_all [Except.map]
        | ok found => simp_all [Except.map]

end DocSearch
