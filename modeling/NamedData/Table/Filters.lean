import NamedData.Callback.Outcome
import NamedData.Interest.Filter

/-!
Interest filters and the callbacks that receive the interests they select.
-/
namespace NamedData

/-- An interest filter with its callback. -/
structure FilterEntry (κ : Type) where
  id : EntryId
  filter : InterestFilter
  onInterest : κ

/-- `InterestFilterTable`: interest filters in the order they were set. -/
structure FilterTable (κ : Type) where
  entries : List (FilterEntry κ) := []
deriving Inhabited

namespace FilterTable

variable {κ : Type}

/-- `InterestFilterTable::len`: the number of filters. -/
def size (t : FilterTable κ) : Nat := t.entries.length

/-- `InterestFilterTable::set_interest_filter`: set a filter. Its identifier need not be unique. -/
def add (t : FilterTable κ) (id : EntryId) (filter : InterestFilter) (onInterest : κ) :
    FilterTable κ :=
  ⟨t.entries ++ [{ id := id, filter, onInterest }]⟩

/-- `InterestFilterTable::matching_filters`: the filters that select interests of a name, in the order
they were set. -/
def matching (t : FilterTable κ) (name : Name) : List (FilterEntry κ) :=
  t.entries.filter fun e => e.filter.matchesName name

/-- `InterestFilterTable::unset_interest_filter`: drop every filter with an identifier. -/
def removeById (t : FilterTable κ) (id : EntryId) : FilterTable κ :=
  ⟨t.entries.filter fun e => e.id != id⟩

/-- Whether some filter has an identifier. -/
def containsId (t : FilterTable κ) (id : EntryId) : Bool := t.entries.any fun e => e.id == id

/-- What `InterestFilterTable::unset_interest_filter` logs: that no filter had the identifier, if so. -/
def removalNotices (t : FilterTable κ) (id : EntryId) : List Notice :=
  Notice.unlessFound (t.containsId id) (.unknownFilter id)

/-- What is logged when the filters of several identifiers are dropped, one identifier after another. -/
def removalsNotices (t : FilterTable κ) : List EntryId → List Notice
  | [] => []
  | id :: ids => t.removalNotices id ++ (t.removeById id).removalsNotices ids

end FilterTable

end NamedData
