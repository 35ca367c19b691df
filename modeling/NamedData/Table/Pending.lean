import NamedData.Callback.Outcome
import NamedData.Interest.Basic

/-!
Interests that have been expressed and are still waiting for data.

An entry is the same entry wherever it is mentioned: it carries a handle that is issued once, while
its identifier may be shared with other entries. Whether an entry has been resolved is recorded in
`Marks`, apart from the tables, because a timer that was armed for an entry asks for its mark long
after the entry has left its table. One set of marks serves any number of tables.
-/
namespace NamedData

/-- An outstanding interest with the callbacks to resolve it by. -/
structure PendingInterest (κ : Type) where
  handle : Nat
  id : EntryId
  interest : Interest
  onData : κ
  onTimeout : Option κ

/-- For each handle issued so far, whether its entry has been removed. -/
structure Marks where
  flags : Array Bool := #[]
deriving Inhabited

namespace Marks

/-- The next handle to be issued. -/
def next (m : Marks) : Nat := m.flags.size

/-- Issue a handle. Its entry is not removed. -/
def issue (m : Marks) : Marks := ⟨m.flags.push false⟩

/-- `PendingInterest::is_removed`: whether the entry of a handle has been marked removed. -/
def isRemoved (m : Marks) (handle : Nat) : Bool := m.flags[handle]?.getD false

/-- `PendingInterest::set_removed`: mark the entry of a handle removed. -/
def remove (m : Marks) (handle : Nat) : Marks := ⟨m.flags.setIfInBounds handle true⟩

/-- Mark several entries removed. -/
def removeAll {κ : Type} (m : Marks) (entries : List (PendingInterest κ)) : Marks :=
  entries.foldl (fun m e => m.remove e.handle) m

end Marks

/-- A `PendingInterest` as it is displayed to a developer. -/
def PendingInterest.describe {κ : Type} (e : PendingInterest κ) (m : Marks) : String :=
  "PendingInterest \x7b id: EntryId(" ++ e.id.toText ++ "), name: \"" ++ e.interest.name.toUri ++
    "\", removed: " ++ (if m.isRemoved e.handle then "true" else "false") ++ " \x7d"

/-- `PendingInterestTable`: interests waiting for data, in the order they were expressed. -/
structure PendingTable (κ : Type) where
  entries : List (PendingInterest κ) := []
deriving Inhabited

namespace PendingTable

variable {κ : Type}

/-- `PendingInterestTable::len`: the number of entries. -/
def size (t : PendingTable κ) : Nat := t.entries.length

/-- `PendingInterestTable::add`: add an entry under a fresh handle. Its identifier need not be
unique. -/
def add (t : PendingTable κ) (m : Marks) (id : EntryId) (interest : Interest) (onData : κ)
    (onTimeout : Option κ) : PendingInterest κ × PendingTable κ × Marks :=
  let entry := { handle := m.next, id, interest, onData, onTimeout }
  (entry, ⟨t.entries ++ [entry]⟩, m.issue)

/-- A sweep through the entries of a table: what has been put out and what stays, each in the order the
sweep came upon it, and the marks. -/
structure Sweep (κ : Type) where
  output : List (PendingInterest κ)
  retained : List (PendingInterest κ) := []
  marks : Marks

/-- Come upon one more entry. It is put out, marked removed, if its interest matches the name. -/
def Sweep.visit (name : Name) (s : Sweep κ) (entry : PendingInterest κ) : Sweep κ :=
  if entry.interest.matchesName name then
    { s with output := s.output ++ [entry], marks := s.marks.remove entry.handle }
  else { s with retained := s.retained ++ [entry] }

/-- `PendingInterestTable::extract_matching`: move every entry whose interest matches a name to the end
of `output`, from the most recently added to the oldest, marking each removed. The other entries keep
their order. -/
def extractMatching (t : PendingTable κ) (m : Marks) (name : Name)
    (output : List (PendingInterest κ) := []) :
    List (PendingInterest κ) × PendingTable κ × Marks :=
  let s := t.entries.reverse.foldl (Sweep.visit name) { output, marks := m }
  (s.output, ⟨s.retained.reverse⟩, s.marks)

/-- `PendingInterestTable::remove_by_id`: drop every entry with an identifier, marking each removed. -/
def removeById (t : PendingTable κ) (m : Marks) (id : EntryId) : PendingTable κ × Marks :=
  (⟨t.entries.filter fun e => e.id != id⟩, m.removeAll (t.entries.filter fun e => e.id == id))

/-- Whether some entry has an identifier. -/
def containsId (t : PendingTable κ) (id : EntryId) : Bool := t.entries.any fun e => e.id == id

/-- What `PendingInterestTable::remove_by_id` logs: that no entry had the identifier, if so. -/
def removalNotices (t : PendingTable κ) (id : EntryId) : List Notice :=
  Notice.unlessFound (t.containsId id) (.unknownPendingInterest id)

/-- `PendingInterestTable::remove_entry`: drop the entry of a handle and mark it removed. Nothing
happens, and the answer is `false`, if the entry is marked already or is not in this table. -/
def removeEntry (t : PendingTable κ) (m : Marks) (handle : Nat) : Bool × PendingTable κ × Marks :=
  if m.isRemoved handle then (false, t, m)
  else if t.entries.any fun e => e.handle == handle then
    (true, ⟨t.entries.eraseP fun e => e.handle == handle⟩, m.remove handle)
  else (false, t, m)

/-- `PendingInterestTable::clear`: drop all entries, marking each removed. -/
def clear (t : PendingTable κ) (m : Marks) : PendingTable κ × Marks :=
  (⟨[]⟩, m.removeAll t.entries)

end PendingTable

end NamedData
