import Mathlib.Data.List.Nodup
import NamedData.Proofs.Lockstep
import NamedData.Proofs.Node.Holdings
import NamedData.Proofs.Node.Resolution
import NamedData.Proofs.Table.Identifiers

/-!
Filters that are installed along with registrations.

A registration and its filter are put into two tables one after the other, and a registration that is
refused takes its filter with it. In between and afterwards anything may be asked of the node, but as long
as identifiers are fresh the two tables keep step: filters that nobody has set are those of the
registrations that have one, in the same order (`no_filter_is_orphaned`).
-/
namespace NamedData

/-- The identifiers that a request is given. -/
def Request.ids {κ : Type} : Request κ → List EntryId
  | .express id .. | .removePending id | .register id .. | .removeRegistered id | .setFilter id ..
  | .unsetFilter id => [id]
  | .putData _ | .send _ => []

/-- The identifier under which a request sets or unsets a filter. -/
def Request.filterId? {κ : Type} : Request κ → Option EntryId
  | .setFilter id .. | .unsetFilter id => some id
  | _ => none

/-- The identifier under which a request sets a filter. -/
def Request.setId? {κ : Type} : Request κ → Option EntryId
  | .setFilter id .. => some id
  | _ => none

theorem Move.eq_of_request? {κ : Type} {move : Move κ} {request : Request κ}
    (asked : move.request? = some request) : move = .perform (.request request) := by
  rw [request?.eq_def] at asked
  split at asked
  · rw [Operation.request?.eq_def] at asked
    split at asked
    · cases asked
      rfl
    · cases asked
  · cases asked

namespace Engine

variable {κ τ : Type} {σ : Type → Type}

/-- The identifiers under which filters have been set. -/
def setIds (stages : List (Stage κ σ τ)) : List EntryId :=
  stages.filterMap fun stage => stage.move.request?.bind Request.setId?

/-- The filters that nobody has set. -/
def unset (stages : List (Stage κ σ τ)) (filters : List (FilterEntry κ)) : List (FilterEntry κ) :=
  filters.filter fun f => f.id ∉ setIds stages

/-- In the course of a stage identifiers may be drawn, by the node or by others, but no more than there
are; and those that are passed to the node had been drawn. -/
def Draws (stage : Stage κ σ τ) : Prop :=
  ∃ before after, before ≤ after ∧ after < UInt64.size ∧
    stage.before.host.nextId = .nth before ∧ stage.after.host.nextId = .nth after ∧
    ∀ request, stage.move.request? = some request → ∀ id ∈ request.ids, ∃ n < before, id = .nth n

/-- No filter is set or unset under the identifier of one that was installed along with a registration. -/
def Respects (stage : Stage κ σ τ) : Prop :=
  ∀ request id, stage.move.request? = some request → request.filterId? = some id →
    ∀ registration ∈ stage.before.node.registrations.entries, registration.filterId ≠ some id

/-- A filter was installed along with a registration. -/
structure Belongs (stages : List (Stage κ σ τ)) (filter : FilterEntry κ) (registration : Registration) :
    Prop where
  related : registration.filterId = some filter.id
  root : filter.filter = ⟨registration.root⟩
  asked : ∃ stage ∈ stages, stage.before.host.nextId = filter.id ∧ ∃ onFailed options,
    stage.move = .perform (.request (.register registration.id registration.root
      (some filter.onInterest) onFailed options))

/-- The registrations that a filter was installed along with. -/
def accompanied (registrations : List Registration) : List Registration :=
  registrations.filter fun r => r.filterId.isSome

/-- The filters that nobody has set are those that were installed along with a registration that still
stands, in the same order. -/
structure Paired (stages : List (Stage κ σ τ)) (h : Holdings κ) : Prop where
  belongs : List.Forall₂ (Belongs stages) (unset stages h.filters) (accompanied h.registrations)
  /-- No two registrations share a filter. -/
  distinct : ((accompanied h.registrations).map (·.filterId)).Nodup
  /-- Any other filter was set. -/
  set : ∀ f ∈ h.filters, f.id ∈ setIds stages →
    ∃ stage ∈ stages, stage.move = .perform (.request (.setFilter f.id f.filter f.onInterest))
  /-- No filter is in use that is still to be drawn. -/
  fresh : ∀ f ∈ h.filters, f.id.rank < h.nextId.rank
  unused : ∀ id ∈ setIds stages, id.rank < h.nextId.rank

variable {stage : Stage κ σ τ} {past stages more : List (Stage κ σ τ)} {h after : Holdings κ}

theorem Draws.forward (draws : Draws stage) :
    stage.before.host.nextId.rank ≤ stage.after.host.nextId.rank := by
  obtain ⟨m, n, grows, room, before, after, -⟩ := draws
  rw [before, after, EntryId.rank_nth (by omega), EntryId.rank_nth room]
  exact grows

theorem Draws.passed {request : Request κ} {id : EntryId} (draws : Draws stage)
    (asked : stage.move.request? = some request) (given : id ∈ request.ids) :
    id.rank < stage.before.host.nextId.rank := by
  obtain ⟨m, n, grows, room, before, -, drawn⟩ := draws
  obtain ⟨k, earlier, rfl⟩ := drawn request asked id given
  rw [before, EntryId.rank_nth (by omega), EntryId.rank_nth (by omega)]
  exact earlier

theorem Belongs.mono {filter : FilterEntry κ} {registration : Registration}
    (belongs : Belongs stages filter registration) : Belongs (stages ++ more) filter registration where
  related := belongs.related
  root := belongs.root
  asked := by
    obtain ⟨stage, member, rest⟩ := belongs.asked
    exact ⟨stage, List.mem_append_left _ member, rest⟩

theorem setIds_concat (stages : List (Stage κ σ τ)) (stage : Stage κ σ τ) :
    setIds (stages ++ [stage]) =
      setIds stages ++ (stage.move.request?.bind Request.setId?).toList := by
  rw [setIds, setIds, List.filterMap_append]
  cases set : stage.move.request?.bind Request.setId? <;> simp [set]

theorem setIds_of_silent (silent : stage.move.request?.bind Request.setId? = none) :
    setIds (stages ++ [stage]) = setIds stages := by
  rw [setIds_concat, silent, Option.toList_none, List.append_nil]

theorem mem_unset {filters : List (FilterEntry κ)} {f : FilterEntry κ} :
    f ∈ unset stages filters ↔ f ∈ filters ∧ f.id ∉ setIds stages := by
  simp [unset]

namespace Paired

/-- The filters that nobody has set, each matched with a registration that stands. -/
theorem listed (paired : Paired stages h) :
    List.Forall₂ (fun f r => r ∈ accompanied h.registrations ∧ Belongs stages f r)
      (unset stages h.filters) (accompanied h.registrations) :=
  ((List.forall₂_and_left _ _).mpr ⟨fun _ member => member, paired.belongs.flip⟩).flip

/-- A filter that nobody has set has no identifier but one that a registration knows. -/
theorem apart {id : EntryId} (paired : Paired stages h)
    (respects : ∀ r ∈ h.registrations, r.filterId ≠ some id) :
    ∀ f ∈ unset stages h.filters, f.id ≠ id := by
  have apart : List.Forall₂ (fun f r => f.id ≠ id ∧ Belongs stages f r) (unset stages h.filters)
      (accompanied h.registrations) := by
    refine paired.listed.imp ?_
    rintro f r ⟨member, belongs⟩
    refine ⟨?_, belongs⟩
    rintro rfl
    exact respects r (List.mem_filter.mp member).1 belongs.related
  exact ((List.forall₂_and_left _ _).mp apart).1

/-- A registration that a filter was installed along with still has it. -/
theorem owner (paired : Paired stages h) :
    ∀ r ∈ accompanied h.registrations, ∃ f ∈ h.filters, Belongs stages f r := by
  have members : List.Forall₂ (fun f r => f ∈ unset stages h.filters ∧ Belongs stages f r)
      (unset stages h.filters) (accompanied h.registrations) :=
    (List.forall₂_and_left _ _).mpr ⟨fun _ member => member, paired.belongs⟩
  have owners : List.Forall₂ (fun r f => (∃ f ∈ h.filters, Belongs stages f r) ∧ Belongs stages f r)
      (accompanied h.registrations) (unset stages h.filters) :=
    (members.imp fun f _ found => ⟨⟨f, (mem_unset.mp found.1).1, found.2⟩, found.2⟩).flip
  exact ((List.forall₂_and_left _ _).mp owners).1

/-- A stage that sets no filter, and drops none but with its registration. -/
theorem shrink (paired : Paired past h) (silent : stage.move.request?.bind Request.setId? = none)
    (filters : after.filters ⊆ h.filters)
    (registrations : (accompanied after.registrations).Sublist (accompanied h.registrations))
    (belongs : List.Forall₂ (Belongs past) (unset past after.filters)
      (accompanied after.registrations))
    (forward : h.nextId.rank ≤ after.nextId.rank) : Paired (past ++ [stage]) after := by
  have same : setIds (past ++ [stage]) = setIds past := setIds_of_silent silent
  constructor
  case belongs =>
    rw [unset, same]
    exact belongs.imp fun _ _ belongs => belongs.mono
  case distinct => exact paired.distinct.sublist (registrations.map _)
  case set =>
    rw [same]
    intro f member set
    obtain ⟨stage, listed, move⟩ := paired.set f (filters member) set
    exact ⟨stage, List.mem_append_left _ listed, move⟩
  case fresh => exact fun f member => Nat.lt_of_lt_of_le (paired.fresh f (filters member)) forward
  case unused =>
    rw [same]
    exact fun id member => Nat.lt_of_lt_of_le (paired.unused id member) forward

/-- A stage that sets no filter and leaves the two tables alone, as far as they are paired. -/
theorem keep (paired : Paired past h) (silent : stage.move.request?.bind Request.setId? = none)
    (filters : after.filters = h.filters)
    (registrations : accompanied after.registrations = accompanied h.registrations)
    (forward : h.nextId.rank ≤ after.nextId.rank) : Paired (past ++ [stage]) after := by
  apply paired.shrink silent
  · exact filters ▸ List.Subset.refl _
  · exact registrations ▸ List.Sublist.refl _
  · rw [filters, registrations]
    exact paired.belongs
  · exact forward

/-- A registration is granted, and its filter is installed. -/
theorem install {id : EntryId} {root : Name} {onInterest onFailed : κ} {options : RegistrationOptions}
    (paired : Paired past h) (next : stage.before.host.nextId = h.nextId)
    (move : stage.move = .perform (.request (.register id root (some onInterest) onFailed options)))
    (forward : h.nextId.rank ≤ h.nextId.succ.rank) :
    Paired (past ++ [stage])
      { h with
        filters := h.filters ++ [⟨h.nextId, ⟨root⟩, onInterest⟩]
        registrations := h.registrations ++ [⟨id, root, some h.nextId⟩]
        nextId := h.nextId.succ } := by
  have same : setIds (past ++ [stage]) = setIds past := setIds_of_silent (by rw [move]; rfl)
  have later := EntryId.rank_lt_succ forward
  have unset_new : h.nextId ∉ setIds past := fun member => Nat.lt_irrefl _ (paired.unused _ member)
  have filters : unset (past ++ [stage]) (h.filters ++ [⟨h.nextId, ⟨root⟩, onInterest⟩]) =
      unset past h.filters ++ [⟨h.nextId, ⟨root⟩, onInterest⟩] := by
    rw [unset, same, List.filter_append, List.filter_singleton, decide_eq_true unset_new]
    rfl
  have registrations : accompanied (h.registrations ++ [⟨id, root, some h.nextId⟩]) =
      accompanied h.registrations ++ [⟨id, root, some h.nextId⟩] := by
    rw [accompanied, List.filter_append]
    rfl
  constructor
  case belongs =>
    rw [filters, registrations]
    refine List.rel_append (paired.belongs.imp fun _ _ belongs => belongs.mono) (.cons ?_ .nil)
    exact ⟨rfl, rfl, stage, by simp, next, onFailed, options, move⟩
  case distinct =>
    have known : some h.nextId ∉ (accompanied h.registrations).map (·.filterId) := by
      rw [List.mem_map]
      rintro ⟨r, member, related⟩
      obtain ⟨f, held, belongs⟩ := paired.owner r member
      rw [belongs.related] at related
      have below := paired.fresh f held
      rw [Option.some.inj related] at below
      exact Nat.lt_irrefl _ below
    rw [registrations, List.map_append]
    exact paired.distinct.append (List.nodup_singleton _) (by simpa using known)
  case set =>
    rw [same]
    intro f member set
    rcases List.mem_append.mp member with old | new
    · obtain ⟨stage, listed, move⟩ := paired.set f old set
      exact ⟨stage, List.mem_append_left _ listed, move⟩
    · rw [List.mem_singleton.mp new] at set
      exact absurd set unset_new
  case fresh =>
    intro f member
    rcases List.mem_append.mp member with old | new
    · exact Nat.lt_trans (paired.fresh f old) later
    · rw [List.mem_singleton.mp new]
      exact later
  case unused =>
    rw [same]
    exact fun id member => Nat.lt_trans (paired.unused id member) later

/-- The registrations of an identifier are removed, each with its filter. -/
theorem unregister (id : EntryId) (paired : Paired past h)
    (silent : stage.move.request?.bind Request.setId? = none) :
    Paired (past ++ [stage])
      { h with
        filters := h.filters.filter fun f => f.id ∉ h.related id
        registrations := h.registrations.filter fun r => r.id != id } := by
  -- A filter goes if and only if the registration it is matched with does.
  have together : ∀ f r, r ∈ accompanied h.registrations ∧ Belongs past f r →
      ((decide (f.id ∉ h.related id) = true) ↔ (r.id != id) = true) := by
    rintro f r ⟨member, belongs⟩
    rw [decide_eq_true_iff, bne_iff_ne, not_iff_not, Holdings.related, List.mem_filterMap]
    constructor
    · rintro ⟨other, found, related⟩
      obtain ⟨stands, named⟩ := List.mem_filter.mp found
      have listed : other ∈ accompanied h.registrations :=
        List.mem_filter.mpr ⟨stands, by rw [related]; rfl⟩
      have alone : other = r := List.inj_on_of_nodup_map paired.distinct listed member
        (related.trans belongs.related.symm)
      exact alone ▸ beq_iff_eq.mp named
    · rintro rfl
      exact ⟨r, List.mem_filter.mpr ⟨(List.mem_filter.mp member).1, beq_self_eq_true _⟩,
        belongs.related⟩
  have registrations : accompanied (h.registrations.filter fun r => r.id != id) =
      (accompanied h.registrations).filter fun r => r.id != id := List.filter_comm ..
  apply paired.shrink silent
  · exact List.filter_subset_self _
  · rw [registrations]
    exact List.filter_sublist
  · rw [registrations, unset, List.filter_comm]
    exact (List.rel_filter (fun _ _ matched => together _ _ matched) paired.listed).imp
      fun _ _ found => found.2
  · exact Nat.le_refl _

/-- A filter is set under an identifier that no registration knows. -/
theorem setFilter {id : EntryId} {filter : InterestFilter} {onInterest : κ} (paired : Paired past h)
    (move : stage.move = .perform (.request (.setFilter id filter onInterest)))
    (drawn : id.rank < h.nextId.rank) (respects : ∀ r ∈ h.registrations, r.filterId ≠ some id) :
    Paired (past ++ [stage]) { h with filters := h.filters ++ [⟨id, filter, onInterest⟩] } := by
  have more : setIds (past ++ [stage]) = setIds past ++ [id] := by
    rw [setIds_concat, move]
    rfl
  have filters : unset (past ++ [stage]) (h.filters ++ [⟨id, filter, onInterest⟩]) =
      unset past h.filters := by
    have kept : ∀ f ∈ h.filters, decide (f.id ∉ setIds past ++ [id]) = decide (f.id ∉ setIds past) := by
      intro f member
      by_cases set : f.id ∈ setIds past
      · simp [set]
      · simpa [set] using paired.apart respects f (mem_unset.mpr ⟨member, set⟩)
    rw [unset, more, List.filter_append, List.filter_congr kept]
    simp [unset]
  constructor
  case belongs =>
    rw [filters]
    exact paired.belongs.imp fun _ _ belongs => belongs.mono
  case distinct => exact paired.distinct
  case set =>
    intro f member set
    rcases List.mem_append.mp member with old | new
    · by_cases before : f.id ∈ setIds past
      · obtain ⟨stage, listed, move⟩ := paired.set f old before
        exact ⟨stage, List.mem_append_left _ listed, move⟩
      · rw [more] at set
        have same : f.id = id := by simpa [before] using set
        exact absurd same (paired.apart respects f (mem_unset.mpr ⟨old, before⟩))
    · rw [List.mem_singleton.mp new]
      exact ⟨stage, by simp, move⟩
  case fresh =>
    intro f member
    rcases List.mem_append.mp member with old | new
    · exact paired.fresh f old
    · rw [List.mem_singleton.mp new]
      exact drawn
  case unused =>
    intro other member
    rw [more] at member
    rcases List.mem_append.mp member with old | new
    · exact paired.unused other old
    · rw [List.mem_singleton.mp new]
      exact drawn

/-- Filters are unset under an identifier that no registration knows. -/
theorem unsetFilter {id : EntryId} (paired : Paired past h)
    (silent : stage.move.request?.bind Request.setId? = none)
    (respects : ∀ r ∈ h.registrations, r.filterId ≠ some id) :
    Paired (past ++ [stage]) { h with filters := h.filters.filter fun f => f.id != id } := by
  have kept : ∀ f ∈ unset past h.filters, (f.id != id) = true :=
    fun f member => bne_iff_ne.mpr (paired.apart respects f member)
  apply paired.shrink silent
  · exact List.filter_subset_self _
  · exact List.Sublist.refl _
  · rw [unset, List.filter_comm]
    exact (List.filter_eq_self.mpr kept).symm ▸ paired.belongs
  · exact Nat.le_refl _

/-- Whatever becomes of what a node holds, filters and registrations stay paired. -/
theorem change {asked : Option (Request κ)} (paired : Paired past h) (change : h.Change asked after)
    (move : stage.move.request? = asked) (next : stage.before.host.nextId = h.nextId)
    (drawn : ∀ request, asked = some request → ∀ id ∈ request.ids, id.rank < h.nextId.rank)
    (respects : ∀ request id, asked = some request → request.filterId? = some id →
      ∀ r ∈ h.registrations, r.filterId ≠ some id)
    (forward : h.nextId.rank ≤ after.nextId.rank) : Paired (past ++ [stage]) after := by
  cases change with
  | resolve | express | unsent | withdraw | decline | put | send =>
    exact paired.keep (by rw [move]; rfl) rfl rfl forward
  | clear =>
    exact paired.shrink (by rw [move]; rfl) (List.nil_subset _) (List.nil_sublist _) .nil forward
  | enroll id root onFailed options =>
    have same : accompanied (h.registrations ++ [⟨id, root, none⟩]) = accompanied h.registrations := by
      rw [accompanied, List.filter_append]
      exact List.append_nil _
    exact paired.keep (by rw [move]; rfl) rfl same forward
  | install id root onInterest onFailed options =>
    exact paired.install next (Move.eq_of_request? move) forward
  | refuse id root onInterest onFailed options =>
    -- Nothing else can have the identifier that was drawn for the filter.
    have untouched : h.filters.filter (fun f => f.id != h.nextId) = h.filters := by
      apply List.filter_eq_self.mpr
      intro f member
      exact bne_iff_ne.mpr fun same => Nat.lt_irrefl _ (same ▸ paired.fresh f member)
    exact paired.keep (by rw [move]; rfl) untouched rfl forward
  | unregister id => exact paired.unregister id (by rw [move]; rfl)
  | set id filter onInterest =>
    exact paired.setFilter (Move.eq_of_request? move) (drawn _ rfl id List.mem_cons_self)
      (respects _ id rfl rfl)
  | unset id => exact paired.unsetFilter (by rw [move]; rfl) (respects _ id rfl rfl)

end Paired

variable [Scheduler σ] [Scheduler.Faithful σ] [Transport τ] {start e : Engine κ σ τ}

/-- Every step keeps filters and registrations paired. -/
theorem Paired.step (paired : Paired past stage.before.holdings)
    (step : stage.before.Step stage.move stage.events stage.after) (draws : Draws stage)
    (respects : Respects stage) : Paired (past ++ [stage]) stage.after.holdings := by
  have forward := draws.forward
  rcases step.changes with ⟨drifts, same⟩ | change
  · rw [same]
    exact paired.keep (by rw [drifts]; rfl) rfl rfl forward
  · exact paired.change change rfl rfl (fun _ asked _ given => draws.passed asked given) respects forward

/-- **No filter is orphaned and none is missing.** At every point of a run, also while callbacks run, the
filters that nobody has set are those of the registrations that a filter was installed along with, in the
same order and under the same prefixes, whatever the transport has granted or refused; and the filters of
a registration are the ones that were installed for it. -/
theorem no_filter_is_orphaned (fresh : start.Fresh) (run : start.Run stages e)
    (draws : ∀ stage ∈ stages, Draws stage) (respects : ∀ stage ∈ stages, Respects stage) :
    Paired stages e.holdings := by
  have lawful : ∀ stage ∈ stages, Draws stage ∧ Respects stage :=
    fun stage member => ⟨draws stage member, respects stage member⟩
  revert lawful
  apply run.invariant
  · intro
    rw [holdings, fresh.filters, fresh.registrations]
    exact ⟨.nil, List.nodup_nil, List.forall_mem_nil _, List.forall_mem_nil _, List.forall_mem_nil _⟩
  · intro past stage upTo follows paired lawful
    obtain ⟨draws, respects⟩ := lawful stage (by simp)
    exact (paired fun stage member => lawful stage (List.mem_append_left _ member)).step follows.1
      draws respects

/-- A run goes on with a step of the node. -/
theorem Run.act {move : Move κ} {events : List (Event κ)} {next : Engine κ σ τ}
    (run : start.Run past e) (acted : e.act? move = some (next, events))
    (own : ∀ call, move ≠ .perform (.run call)) :
    start.Run (past ++ [⟨e, move, events, next⟩]) next :=
  .step run ⟨.act acted, fun call same => absurd same (own call)⟩

/-- A run goes on with a change of the transport. -/
theorem Run.change (run : start.Run past e) (transport : τ) :
    start.Run (past ++ [⟨e, .drift, [], { e with transport }⟩]) { e with transport } :=
  .step run ⟨.drift ⟨rfl, rfl, fun _ held => held, Nat.le_refl _, fun _ _ => rfl⟩, by simp⟩

/-- A node that has nothing to do, on a host where two identifiers have been drawn. -/
def granting : Engine Unit DelayedCalls LinkEnd where
  node := untouched.node
  transport := {}
  host := { untouched.host with nextId := .nth 2 }

/-- One registration is granted and another is refused, and then a filter is set under the identifier of
the second. The first has its filter, and nothing is left of the second. -/
theorem granted_and_refused :
    ∃ (stages : List (Stage Unit DelayedCalls LinkEnd)) (e : Engine Unit DelayedCalls LinkEnd),
      granting.Fresh ∧ granting.Run stages e ∧ Paired stages e.holdings ∧
      e.node.filters.entries.map (·.id) = [.nth 2, .nth 1] ∧
      unset stages e.node.filters.entries = [⟨.nth 2, ⟨⟨[]⟩⟩, ()⟩] ∧
      e.node.registrations.entries = [⟨.nth 0, ⟨[]⟩, some (.nth 2)⟩] := by
  have fresh : granting.Fresh := by
    refine ⟨rfl, rfl, rfl, rfl, ?_⟩
    rintro entry ⟨delayed, member, -⟩
    cases member
  have begins : granting.Run [] granting := .start
  have granted := begins.act (show granting.act? (.perform (.request
    (.register (.nth 0) ⟨[]⟩ (some ()) () {}))) = _ from rfl) (by simp)
  have refusing := granted.change { faults := { refuse := some "full" } }
  have refused := refusing.act (show act? _ (.perform (.request
    (.register (.nth 1) ⟨[]⟩ (some ()) () {}))) = _ from rfl) (by simp)
  have returned := refused.act (show act? _ (.resume (.ok ())) = _ from rfl) (by simp)
  have run := returned.act (show act? _ (.perform (.request
    (.setFilter (.nth 1) ⟨⟨[]⟩⟩ ()))) = _ from rfl) (by simp)
  refine ⟨_, _, fresh, run, no_filter_is_orphaned fresh run ?_ ?_, rfl, rfl, rfl⟩
  · simp only [List.nil_append, List.forall_mem_append, List.forall_mem_singleton]
    refine ⟨⟨⟨⟨?_, ?_⟩, ?_⟩, ?_⟩, ?_⟩
    · refine ⟨2, 3, by decide, by decide, rfl, rfl, ?_⟩
      rintro _ ⟨⟩ id given
      exact ⟨0, by decide, List.mem_singleton.mp given⟩
    · exact ⟨3, 3, by decide, by decide, rfl, rfl, by rintro _ ⟨⟩⟩
    · refine ⟨3, 4, by decide, by decide, rfl, rfl, ?_⟩
      rintro _ ⟨⟩ id given
      exact ⟨1, by decide, List.mem_singleton.mp given⟩
    · exact ⟨4, 4, by decide, by decide, rfl, rfl, by rintro _ ⟨⟩⟩
    · refine ⟨4, 4, by decide, by decide, rfl, rfl, ?_⟩
      rintro _ ⟨⟩ id given
      exact ⟨1, by decide, List.mem_singleton.mp given⟩
  · simp only [List.nil_append, List.forall_mem_append, List.forall_mem_singleton]
    refine ⟨⟨⟨⟨?_, ?_⟩, ?_⟩, ?_⟩, ?_⟩
    · rintro _ _ ⟨⟩ ⟨⟩
    · rintro _ _ ⟨⟩
    · rintro _ _ ⟨⟩ ⟨⟩
    · rintro _ _ ⟨⟩
    · rintro _ _ ⟨⟩ ⟨⟩ registration member
      rw [List.mem_singleton.mp member]
      decide

end Engine

end NamedData
