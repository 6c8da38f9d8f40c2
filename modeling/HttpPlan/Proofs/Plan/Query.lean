import HttpPlan.Proofs.Json.Record
import HttpPlan.Proofs.OrderedMap
import HttpPlan.Proofs.Text.Percent

/-! Query strings read back. Encoded keys and values hold neither `&` nor `=`, so cutting at the
first and then at the first of the second gives the entries again, in their order. -/
namespace HttpPlan

namespace RequestPlan

/-- A key and a value around the first equals sign. -/
def readEntry (piece : List Char) : Option (String × String) :=
  match piece.dropWhile (· ≠ '=') with
  | _ :: value => do
    return (← Percent.decodeText? (piece.takeWhile (· ≠ '=')), ← Percent.decodeText? value)
  | [] => none

def readQuery (query : String) : Option (List (String × String)) :=
  (query.toList.splitOn '&').mapM readEntry

end RequestPlan

theorem Percent.Encoded.not_mem_of_joins {cs : List Char} {c : Char} (encoded : Encoded cs)
    (joins : c ∈ ['&', '=']) : c ∉ cs := by
  intro member
  have kept := encoded.mem member
  simp only [List.mem_cons, List.not_mem_nil, or_false] at joins
  rcases joins with rfl | rfl <;> exact absurd kept (by decide)

namespace RequestPlan

theorem toList_queryEntry (entry : String × String) : (queryEntry entry).toList =
    (Percent.encode entry.1).toList ++ '=' :: (Percent.encode entry.2).toList := by
  simp [queryEntry]

theorem readEntry_queryEntry (entry : String × String) :
    readEntry (queryEntry entry).toList = some entry := by
  have key : ∀ c ∈ (Percent.encode entry.1).toList, decide (c ≠ '=') = true := by
    intro c member
    refine decide_eq_true ?_
    rintro rfl
    exact (Percent.encoded_encode entry.1).not_mem_of_joins (by decide) member
  have value : (queryEntry entry).toList.dropWhile (· ≠ '=') =
      '=' :: (Percent.encode entry.2).toList := by
    rw [toList_queryEntry, List.dropWhile_append_of_pos key, List.dropWhile_cons_of_neg (by decide)]
  have before : (queryEntry entry).toList.takeWhile (· ≠ '=') =
      (Percent.encode entry.1).toList := by
    rw [toList_queryEntry, List.takeWhile_append_of_pos key, List.takeWhile_cons_of_neg (by decide),
      List.append_nil]
  rw [readEntry, value, before]
  simp only [Percent.decodeText?_encode]
  rfl

theorem not_mem_queryEntry (entry : String × String) : '&' ∉ (queryEntry entry).toList := by
  have apart : ∀ s, '&' ∉ (Percent.encode s).toList := fun s =>
    (Percent.encoded_encode s).not_mem_of_joins (by decide)
  simp [toList_queryEntry, apart]

theorem readQuery_entries {entries : List (String × String)} (some_entry : entries ≠ []) :
    readQuery ("&".intercalate (entries.map queryEntry)) = some entries := by
  have pieces : ("&".intercalate (entries.map queryEntry)).toList.splitOn '&' =
      entries.map fun entry => (queryEntry entry).toList := by
    rw [String.toList_intercalate, List.map_map]
    refine List.splitOn_intercalate '&' ?_ (by simpa using some_entry)
    exact List.forall_mem_map.mpr fun entry _ => not_mem_queryEntry entry
  have read : (entries.map fun entry => (queryEntry entry).toList).mapM readEntry =
      some (entries.map id) := Json.mapM_map fun entry _ => readEntry_queryEntry entry
  rw [readQuery, pieces, read, List.map_id]

theorem entries_ne_nil {query : OrderedMap String String} (filled : query ≠ ∅) :
    query.entries ≠ [] := fun none => filled (OrderedMap.ext_entries none)

theorem pathAndQuery_of_filled {request : RequestPlan} (filled : request.query ≠ ∅) :
    ∃ text, request.pathAndQuery = request.path ++ "?" ++ text ∧
      readQuery text = some request.query.entries := by
  have entries := entries_ne_nil filled
  refine ⟨"&".intercalate (request.query.entries.map queryEntry), ?_, readQuery_entries entries⟩
  rw [pathAndQuery, if_neg (by simpa [OrderedMap.isEmpty] using entries)]

theorem pathAndQuery_eq_path {request : RequestPlan} :
    request.pathAndQuery = request.path ↔ request.query = ∅ := by
  constructor
  · intro same
    refine Decidable.byContradiction fun filled => ?_
    obtain ⟨text, url, -⟩ := pathAndQuery_of_filled filled
    have long := congrArg String.length (url.symm.trans same)
    simp only [String.length_append] at long
    have mark : "?".length = 1 := rfl
    omega
  · intro empty
    rw [pathAndQuery, empty]
    rfl

/-- Nothing follows the path of a request without a query; what follows the others reads back as
the query, entry by entry. So requests of one path share their URL only if they share the query. -/
theorem pathAndQuery_read_back (request : RequestPlan) :
    (request.query = ∅ → request.pathAndQuery = request.path) ∧
      (request.query ≠ ∅ → ∃ text, request.pathAndQuery = request.path ++ "?" ++ text ∧
        readQuery text = some request.query.entries) ∧
      ∀ other : RequestPlan, other.path = request.path →
        (other.pathAndQuery = request.pathAndQuery ↔ other.query = request.query) := by
  refine ⟨pathAndQuery_eq_path.mpr, pathAndQuery_of_filled, fun other path => ?_⟩
  by_cases empty : request.query = ∅
  · rw [pathAndQuery_eq_path.mpr empty, ← path, pathAndQuery_eq_path, empty]
  · refine ⟨fun same => ?_, fun same => by rw [pathAndQuery, pathAndQuery, path, same]⟩
    have filled : other.query ≠ ∅ := fun void =>
      empty (pathAndQuery_eq_path.mp (same.symm.trans ((pathAndQuery_eq_path.mpr void).trans path)))
    obtain ⟨text, url, entries⟩ := pathAndQuery_of_filled empty
    obtain ⟨twin, url', entries'⟩ := pathAndQuery_of_filled filled
    have texts : twin = text := by simpa [url, url', path] using same
    rw [texts, entries] at entries'
    exact OrderedMap.ext_entries (Option.some.inj entries').symm

/-- Empty keys and values, and texts with every character that means something in a query. -/
def searching : RequestPlan where
  method := "GET"
  path := "/find"
  query := .ofList [("", ""), ("a&b=c", "1+1 ?#%"), ("ü", "")]

def searchingLess : RequestPlan := { searching with query := .ofList [("", ""), ("a", "1")] }

theorem pathAndQuery_read_back_searching : searching.query ≠ ∅ ∧
    searchingLess.path = searching.path ∧
    (∃ text, searching.pathAndQuery = "/find?" ++ text ∧
      readQuery text = some [("", ""), ("a&b=c", "1+1 ?#%"), ("ü", "")]) ∧
    searchingLess.pathAndQuery ≠ searching.pathAndQuery := by
  have filled : searching.query ≠ ∅ := by decide
  have differ : searchingLess.query ≠ searching.query := by decide
  obtain ⟨-, reads, distinguishes⟩ := pathAndQuery_read_back searching
  obtain ⟨text, url, entries⟩ := reads filled
  exact ⟨filled, rfl, ⟨text, url, entries⟩, fun same =>
    differ ((distinguishes searchingLess rfl).mp same)⟩

example : searching.pathAndQuery = "/find?=&a%26b%3Dc=1%2B1%20%3F%23%25&%C3%BC=" := by
  decide +kernel

end RequestPlan

end HttpPlan
