/-!
Identifiers of table entries.

Identifiers are drawn from one counter of 64 bits that starts at one, so they can be handed out
ahead of the work they name.
-/
namespace NamedData

/-- The identifier of a pending interest, a registered prefix or an interest filter. -/
structure EntryId where
  value : UInt64
deriving DecidableEq, Inhabited

namespace EntryId

/-- The first identifier drawn. -/
def first : EntryId := ⟨1⟩

/-- `EntryId::next`: the identifier drawn after this one. The counter wraps at its width. -/
def succ (id : EntryId) : EntryId := ⟨id.value + 1⟩

/-- An `EntryId` as it is displayed: its decimal spelling. -/
def toText (id : EntryId) : String := toString id.value.toNat

instance : Ord EntryId := ⟨fun a b => compare a.value.toNat b.value.toNat⟩

end EntryId

end NamedData
