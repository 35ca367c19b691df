import NamedData.Callback.Outcome

/-!
Prefixes that have been registered with the forwarder.
-/
namespace NamedData

/-- A registered prefix, with the filter that was installed along with it. -/
structure Registration where
  id : EntryId
  root : Name
  filterId : Option EntryId
deriving DecidableEq

/-- `RegisteredPrefixTable`: registered prefixes in the order they were registered. -/
structure RegistrationTable where
  entries : List Registration := []
deriving DecidableEq, Inhabited

namespace RegistrationTable

/-- `RegisteredPrefixTable::len`: the number of registrations. -/
def size (t : RegistrationTable) : Nat := t.entries.length

/-- `RegisteredPrefixTable::add`: add a registration. Its identifier need not be unique. -/
def add (t : RegistrationTable) (id : EntryId) (root : Name) (filterId : Option EntryId) :
    RegistrationTable :=
  ⟨t.entries ++ [{ id := id, root, filterId }]⟩

/-- `RegisteredPrefixTable::prefixes`: the registered prefixes. -/
def roots (t : RegistrationTable) : List Name := t.entries.map (·.root)

/-- `RegisteredPrefixTable::remove_registered_prefix`: drop every registration with an identifier. The
identifiers of the filters that were installed along with them come back, for the caller to remove. -/
def removeById (t : RegistrationTable) (id : EntryId) : List EntryId × RegistrationTable :=
  ((t.entries.filter fun e => e.id == id).filterMap (·.filterId),
    ⟨t.entries.filter fun e => e.id != id⟩)

/-- Whether some registration has an identifier. -/
def containsId (t : RegistrationTable) (id : EntryId) : Bool := t.entries.any fun e => e.id == id

/-- What `RegisteredPrefixTable::remove_registered_prefix` logs: that no registration had the
identifier, if so. -/
def removalNotices (t : RegistrationTable) (id : EntryId) : List Notice :=
  Notice.unlessFound (t.containsId id) (.unknownRegistration id)

end RegistrationTable

end NamedData
