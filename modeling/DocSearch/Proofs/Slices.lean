import DocSearch.Proofs.Query.Slices
import DocSearch.Proofs.Segment.Slices

/-!
# Slices of queries and arrays

Queries, groups and arrays are cut at positions that are counted in bytes, and text of every kind is
cut: characters take one to four bytes, and so do the blank ones that groups are split at and arrays
are trimmed of.  No position is ever within a character (`slices_at_boundaries`).
-/

namespace DocSearch

open Query (pieces tried parts)
open Segment (Mode slices)

/-- **All slices are cut at the boundaries of characters.**  Whatever the query, the group and the array
are, the programs that cut them by positions cut slices and nothing else, these are the texts that are
read character by character, and so are the results: the groups of the query, the place of the operator,
the token of the group, and the segments of the array. -/
theorem slices_at_boundaries (query group input : String) (mode : Mode) :
    (Cuts (Query.Sliced.splitGroups query) (pieces false [] query.toList)
        ((Query.splitGroups query.toList).map (List.map String.ofList))
      ∧ ∀ groups, Query.splitGroups query.toList = .ok groups →
        pieces false [] query.toList = groups)
    ∧ Cuts (Query.Sliced.findOperator group (places group)) (tried group.toList)
        ((Query.splitOperator? group.toList).map fun (field, operator, _) =>
          (Text.byteSize field, operator))
    ∧ Cuts (Query.Sliced.ofGroup group) (parts group.toList) (Query.Token.ofGroup group.toList)
    ∧ Cuts (Segment.Sliced.segments mode input) (slices mode input.toList)
        ((Segment.segments mode input.toList).map (List.map String.ofList))
    ∧ ∀ segs, Segment.segments mode input.toList = .ok segs →
        (slices mode input.toList).tail = segs := by
  refine ⟨⟨Query.cuts_splitGroups query, ?groups⟩, ?operator, Query.cuts_ofGroup group,
    Segment.cuts_segments mode input, ?segments⟩
  case groups => exact fun _ hgroups => Query.pieces_of_splitFrom hgroups
  case operator => exact @Query.cuts_findOperator group [] group.toList rfl
  case segments => exact fun _ hsegs => Segment.tail_slices hsegs

/-- Characters of two and three bytes within the groups, between them, and in front of an array. -/
theorem slices_at_boundaries_wide :
    Cuts (Query.Sliced.splitGroups "naïf>5\u3000é:\"∞ €\"")
      ["naïf>5".toList, "é:\"∞ €\"".toList] (.ok ["naïf>5", "é:\"∞ €\""])
    ∧ Cuts (Query.Sliced.ofGroup "é:\"∞ €\"")
      ["é:\"∞ €\"".toList, ":\"∞ €\"".toList, "é".toList, "\"∞ €\"".toList]
      (.ok ⟨"é".toList, .equals, "∞ €".toList, true⟩)
    ∧ Cuts (Segment.Sliced.segments .quoteAware "\u2003[é, \x7b€: '\x7d'\x7d]")
      ["\x7b€: '\x7d'\x7d".toList, "\x7b€: '\x7d'\x7d".toList] (.ok ["\x7b€: '\x7d'\x7d"]) := by
  obtain ⟨⟨hgroups, hpieces⟩, -, htoken, hsegments, -⟩ :=
    slices_at_boundaries "naïf>5\u3000é:\"∞ €\"" "é:\"∞ €\"" "\u2003[é, \x7b€: '\x7d'\x7d]" .quoteAware
  rw [hpieces ["naïf>5".toList, "é:\"∞ €\"".toList] rfl] at hgroups
  exact ⟨hgroups, htoken, hsegments⟩

end DocSearch
