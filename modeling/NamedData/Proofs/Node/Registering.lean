import NamedData.Proofs.Node.Holdings
import NamedData.Proofs.Node.Moves
import NamedData.Proofs.Node.Resolution

/-!
Registering a prefix, and taking the registration back.

A filter is installed before the transport is asked, under an identifier that is drawn for it. As long as no
other filter has that identifier, to remove it again is to undo that (`FilterTable.removeById_add`): a
registration that is refused leaves a node as it was, and one that is granted can be removed without a trace
(`Engine.registration_is_all_or_nothing`).
-/
namespace NamedData

variable {κ : Type}

/-- To remove a filter that alone has its identifier undoes setting it. -/
theorem FilterTable.removeById_add {t : FilterTable κ} {id : EntryId} (filter : InterestFilter)
    (onInterest : κ) (unused : ∀ f ∈ t.entries, f.id ≠ id) :
    (t.add id filter onInterest).removeById id = t := by
  have kept : t.entries.filter (fun f => f.id != id) = t.entries :=
    List.filter_eq_self.mpr fun f member => bne_iff_ne.mpr (unused f member)
  rw [add, removeById, List.filter_append, kept]
  simp

/-- To remove a registration that alone has its identifier undoes adding it, and tells of its filter. -/
theorem RegistrationTable.removeById_add {t : RegistrationTable} {id : EntryId} (root : Name)
    (filterId : Option EntryId) (unused : ∀ r ∈ t.entries, r.id ≠ id) :
    (t.add id root filterId).removeById id = (filterId.toList, t) := by
  have kept : t.entries.filter (fun r => r.id != id) = t.entries :=
    List.filter_eq_self.mpr fun r member => bne_iff_ne.mpr (unused r member)
  have others : t.entries.filter (fun r => r.id == id) = [] :=
    List.filter_eq_nil_iff.mpr fun r member => by simpa using unused r member
  rw [add, removeById, List.filter_append, List.filter_append, kept, others]
  cases filterId <;> simp

/-- Once the registrations of an identifier have been removed, there are none. -/
theorem RegistrationTable.removeById_removeById (t : RegistrationTable) (id : EntryId) :
    (t.removeById id).2.removeById id = ([], (t.removeById id).2) := by
  simp [removeById, List.filter_filter]

theorem RegistrationTable.removalNotices_removeById (t : RegistrationTable) (id : EntryId) :
    (t.removeById id).2.removalNotices id = [.unknownRegistration id] := by
  simp [removalNotices, containsId, removeById, Notice.unlessFound]

/-- Nothing is logged when a filter is removed that has just been set. -/
theorem FilterTable.removalNotices_add (t : FilterTable κ) (id : EntryId) (filter : InterestFilter)
    (onInterest : κ) : (t.add id filter onInterest).removalNotices id = [] := by
  simp [removalNotices, containsId, add, Notice.unlessFound]

/-- Nothing is logged when a registration is removed that has just been added. -/
theorem RegistrationTable.removalNotices_add (t : RegistrationTable) (id : EntryId) (root : Name)
    (filterId : Option EntryId) : (t.add id root filterId).removalNotices id = [] := by
  simp [removalNotices, containsId, add, Notice.unlessFound]

namespace Engine

variable {τ : Type} {σ : Type → Type} [Transport τ] {e : Engine κ σ τ}
variable {id : EntryId} {root : Name} {onInterest : Option κ} {onFailed : κ}
variable {options : RegistrationOptions} {cause : TransportError} {transport : τ}

/-- A registration that is granted is added, along with its filter. -/
theorem register_granted (granted : Transport.register e.transport root options = (.ok (), transport)) :
    e.register id root onInterest onFailed options =
      ({ e with
          transport
          host := e.hostWith onInterest
          node := { e.node with
            filters := e.filtersWith root onInterest
            registrations := e.node.registrations.add id root (onInterest.map fun _ => e.host.nextId) } },
        .done, [.registering root options]) := by
  cases onInterest <;> simp [register, granted, hostWith, filtersWith, Host.drawId]

/-- A registration that is refused is told to its callback, when its filter is gone. -/
theorem register_refused (unused : ∀ f ∈ e.node.filters.entries, f.id ≠ e.host.nextId)
    (refused : Transport.register e.transport root options = (.error cause, transport)) :
    e.register id root onInterest onFailed options =
      ({ e with
          transport
          host := e.hostWith onInterest
          frames := .inside (.registerFailed onFailed root) :: e.frames },
        .done, [.registering root options, .logged (.registrationFailed root cause),
          .called (.registerFailed onFailed root)]) := by
  cases onInterest with
  | none => simp [register, refused, hostWith, invoke, push]
  | some onInterest =>
    simp [register, refused, hostWith, invoke, push, Host.drawId, FilterTable.removeById_add _ _ unused]

variable [Scheduler σ]

/-- Removing the registrations of an identifier takes their filters along, and nothing else. -/
theorem removeRegistered_eq (e : Engine κ σ τ) (id : EntryId) :
    e.request (.removeRegistered id) =
      ({ e with node := { e.node with
          registrations := ⟨e.node.registrations.entries.filter fun r => r.id != id⟩
          filters := ⟨e.node.filters.entries.filter fun f => f.id ∉ e.holdings.related id⟩ } },
        .done, (e.node.registrations.removalNotices id ++
          e.node.filters.removalsNotices (e.node.registrations.removeById id).1).map .logged) := by
  rw [Holdings.related, holdings, ← FilterTable.foldl_removeById]
  rfl

/-- A registration that is granted can be taken back: the node is what it was before, and all was found. -/
theorem removeRegistered_register (unused : ∀ f ∈ e.node.filters.entries, f.id ≠ e.host.nextId)
    (unknown : ∀ r ∈ e.node.registrations.entries, r.id ≠ id)
    (granted : Transport.register e.transport root options = (.ok (), transport)) :
    let (after, _, seen) := (e.request (.register id root onInterest onFailed options)).1.request
      (.removeRegistered id)
    after.node = e.node ∧ seen = [] := by
  simp only [request, register_granted granted, RegistrationTable.removeById_add _ _ unknown,
    RegistrationTable.removalNotices_add]
  cases onInterest with
  | none => exact ⟨rfl, rfl⟩
  | some onInterest =>
    simp [filtersWith, FilterTable.removalsNotices, FilterTable.removeById_add _ _ unused,
      FilterTable.removalNotices_add]

/-- To remove the registrations of an identifier twice is to remove them once. -/
theorem removeRegistered_removeRegistered (e : Engine κ σ τ) (id : EntryId) :
    (e.request (.removeRegistered id)).1.request (.removeRegistered id) =
      ((e.request (.removeRegistered id)).1, .done, [.logged (.unknownRegistration id)]) := by
  simp only [request, RegistrationTable.removeById_removeById, RegistrationTable.removalNotices_removeById]
  rfl

/-- A node with one filter, which was installed along with a registration of the same name. -/
def enrolled (faults : Faults) : Engine Unit DelayedCalls LinkEnd where
  node := { untouched.node with
    filters := ⟨[⟨⟨2⟩, ⟨⟨[]⟩⟩, ()⟩]⟩
    registrations := ⟨[⟨⟨1⟩, ⟨[]⟩, some ⟨2⟩⟩]⟩ }
  transport := { faults }
  host := { untouched.host with nextId := ⟨4⟩ }

end Engine

end NamedData
