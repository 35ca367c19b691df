import NamedData.Proofs.Node.Effect

/-!
What a node holds for its owner, and what becomes of it.

An owner knows what a node holds by identifiers: of pending interests, of filters and of registrations.
Whatever a node does changes what it holds in one of a few ways (`Holdings.Change`), and only a request adds
anything (`Engine.Step.changes`).
-/
namespace NamedData

/-- What a node holds, and the identifier it would draw next. -/
structure Holdings (κ : Type) where
  pending : List (PendingInterest κ)
  filters : List (FilterEntry κ)
  registrations : List Registration
  nextId : EntryId

/-- The request that an operation is. -/
def Operation.request? {κ : Type} : Operation κ → Option (Request κ)
  | .request asked => some asked
  | _ => none

/-- The request that a move is. -/
def Move.request? {κ : Type} : Move κ → Option (Request κ)
  | .perform operation => operation.request?
  | _ => none

namespace Holdings

variable {κ : Type}

/-- The filters that were installed along with the registrations of an identifier. -/
def related (h : Holdings κ) (id : EntryId) : List EntryId :=
  (h.registrations.filter fun r => r.id == id).filterMap (·.filterId)

/-- What becomes of what a node holds when it carries out a request, or does anything else. -/
inductive Change (h : Holdings κ) : Option (Request κ) → Holdings κ → Prop where
  /-- Some interests are no longer pending. -/
  | resolve {pending : List (PendingInterest κ)} (fewer : pending.Sublist h.pending) :
      Change h none { h with pending }
  /-- The node is shut down. -/
  | clear : Change h none { h with pending := [], filters := [], registrations := [] }
  | express {interest sent : Interest} (name : sent.name = interest.name) (handle : Nat) (id : EntryId)
      (onData : κ) (onTimeout : Option κ) :
      Change h (some (.express id interest onData onTimeout))
        { h with pending := h.pending ++ [⟨handle, id, sent, onData, onTimeout⟩] }
  /-- The interest cannot be sent. -/
  | unsent (id : EntryId) (interest : Interest) (onData : κ) (onTimeout : Option κ) :
      Change h (some (.express id interest onData onTimeout)) h
  | withdraw (id : EntryId) :
      Change h (some (.removePending id)) { h with pending := h.pending.filter fun e => e.id != id }
  | enroll (id : EntryId) (root : Name) (onFailed : κ) (options : RegistrationOptions) :
      Change h (some (.register id root none onFailed options))
        { h with registrations := h.registrations ++ [⟨id, root, none⟩] }
  | install (id : EntryId) (root : Name) (onInterest onFailed : κ) (options : RegistrationOptions) :
      Change h (some (.register id root (some onInterest) onFailed options))
        { h with
          filters := h.filters ++ [⟨h.nextId, ⟨root⟩, onInterest⟩]
          registrations := h.registrations ++ [⟨id, root, some h.nextId⟩]
          nextId := h.nextId.succ }
  /-- The transport refuses a registration that comes without a filter. -/
  | decline (id : EntryId) (root : Name) (onFailed : κ) (options : RegistrationOptions) :
      Change h (some (.register id root none onFailed options)) h
  /-- The transport refuses a registration, and the filter is taken out again. -/
  | refuse (id : EntryId) (root : Name) (onInterest onFailed : κ) (options : RegistrationOptions) :
      Change h (some (.register id root (some onInterest) onFailed options))
        { h with
          filters := h.filters.filter fun f => f.id != h.nextId
          nextId := h.nextId.succ }
  | unregister (id : EntryId) :
      Change h (some (.removeRegistered id))
        { h with
          filters := h.filters.filter fun f => f.id ∉ h.related id
          registrations := h.registrations.filter fun r => r.id != id }
  | set (id : EntryId) (filter : InterestFilter) (onInterest : κ) :
      Change h (some (.setFilter id filter onInterest))
        { h with filters := h.filters ++ [⟨id, filter, onInterest⟩] }
  | unset (id : EntryId) :
      Change h (some (.unsetFilter id)) { h with filters := h.filters.filter fun f => f.id != id }
  | put (data : Data) : Change h (some (.putData data)) h
  | send (element : Bytes) : Change h (some (.send element)) h

/-- Nothing is held any differently. -/
theorem Change.rest (h : Holdings κ) : h.Change none h := .resolve (List.Sublist.refl _)

/-- At most one identifier is drawn. -/
theorem Change.nextId {h after : Holdings κ} {asked : Option (Request κ)}
    (change : h.Change asked after) : after.nextId = h.nextId ∨ after.nextId = h.nextId.succ := by
  cases change with
  | install | refuse => exact .inr rfl
  | resolve | clear | express | unsent | withdraw | enroll | decline | unregister | set | unset | put
  | send => exact .inl rfl

end Holdings

/-- Removing filters one by one is keeping those that are not among them. -/
theorem FilterTable.foldl_removeById {κ : Type} (t : FilterTable κ) (ids : List EntryId) :
    (ids.foldl removeById t).entries = t.entries.filter fun f => f.id ∉ ids := by
  induction ids generalizing t with
  | nil => simp
  | cons id ids ih =>
    rw [List.foldl_cons, ih, removeById, List.filter_filter]
    apply List.filter_congr
    intro f _
    by_cases same : f.id = id <;> simp [same]

namespace Engine

variable {κ τ : Type} {σ : Type → Type}

/-- What a node holds. -/
def holdings (e : Engine κ σ τ) : Holdings κ where
  pending := e.node.pending.entries
  filters := e.node.filters.entries
  registrations := e.node.registrations.entries
  nextId := e.host.nextId

variable {e after : Engine κ σ τ} {events : List (Event κ)} {move : Move κ}

/-- The end of a callback changes nothing of what a node holds. -/
theorem resume_holdings (e : Engine κ σ τ) (result : CallbackResult) :
    (e.resume result).1.holdings = e.holdings := by
  rw [resume.eq_def]
  split <;> rfl

theorem Takes.request?_eq_none {call : NodeCall κ} {left : List (Frame κ)}
    (takes : e.Takes call move left) : move.request? = none := by
  cases takes <;> rfl

variable [Transport τ]

theorem Brings.request?_eq_none {element : Bytes} {transport : τ}
    (brings : e.Brings element move transport) : move.request? = none := by
  cases brings <;> rfl

variable [Scheduler σ]

/-- A request adds what it asks for, or takes away what it names, and nothing else adds anything. -/
theorem Does.changes (does : e.Does move events after) :
    e.holdings.Change move.request? after.holdings := by
  cases does with
  | unsent => exact .unsent ..
  | @overrun id interest onData onTimeout | @express id interest onData onTimeout =>
    have name : (e.completion interest).name = interest.name := rfl
    exact .express name _ id onData onTimeout
  | removePending => exact .withdraw _
  | @granted _ _ onInterest =>
    cases onInterest with
    | none => exact .enroll ..
    | some => exact .install ..
  | @refused id root onInterest onFailed options =>
    cases onInterest with
    | none => exact .decline ..
    | some onInterest =>
      have refused : e.holdings.Change _ _ := .refuse id root onInterest onFailed options
      change e.holdings.Change (some _) _
      simpa [holdings, filtersWith, hostWith, Host.drawId, FilterTable.add, FilterTable.removeById]
        using refused
  | @removeRegistered id =>
    have removed : e.holdings.Change _ _ := .unregister id
    rwa [Holdings.related, holdings, ← FilterTable.foldl_removeById] at removed
  | setFilter => exact .set ..
  | unsetFilter => exact .unset _
  | unput | put => exact .put _
  | tooLong | send => exact .send _
  | shutdown => exact .clear
  | undecodable brings | interest brings =>
    rw [brings.request?_eq_none]
    exact .rest _
  | data brings =>
    rw [brings.request?_eq_none, PendingTable.extractMatching_eq]
    exact .resolve List.filter_sublist
  | delayed takes =>
    rw [takes.request?_eq_none]
    exact .rest _
  | @expire _ entry _ _ takes | @lapse _ entry _ takes =>
    rw [takes.request?_eq_none]
    exact .resolve (PendingTable.removeEntry_sublist ..)
  | _ => exact .rest _

theorem perform_changes (e : Engine κ σ τ) (operation : Operation κ) :
    e.holdings.Change operation.request? (e.perform operation).1.holdings :=
  (e.perform_does operation).changes

theorem request_changes (e : Engine κ σ τ) (request : Request κ) :
    e.holdings.Change (some request) (e.request request).1.holdings :=
  e.perform_changes (.request request)

theorem run_changes (e : Engine κ σ τ) (call : NodeCall κ) :
    e.holdings.Change none (e.run call).1.holdings :=
  e.perform_changes (.run call)

theorem advance_changes (advanced : e.advance = some (after, events)) :
    e.holdings.Change none after.holdings :=
  (advance_does advanced).changes

variable [Scheduler.Faithful σ]

/-- What a node holds changes by what it does, and otherwise stays; identifiers may be drawn by others. -/
theorem Step.changes (step : e.Step move events after) :
    move = .drift ∧ after.holdings = { e.holdings with nextId := after.host.nextId } ∨
      e.holdings.Change move.request? after.holdings := by
  cases step with
  | drift drifts =>
    refine .inl ⟨rfl, ?_⟩
    rw [holdings, holdings, drifts.node]
  | act acted => exact .inr (does_of_act? acted).changes

end Engine

end NamedData
