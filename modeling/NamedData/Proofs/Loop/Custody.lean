import Mathlib.Data.List.Nodup
import NamedData.Proofs.Loop.Projection
import NamedData.Proofs.Node.Holdings
import NamedData.Proofs.Table.Identifiers

/-!
What a loop has in its custody: the requests that wait in its queue, and what its node holds.

Every identifier in custody came in with a request, or was drawn by the node for the filter of a
registration; and it leaves with the one entry it stands for, as long as no two entries share it. A step of
a loop is one of four things to its custody (`Custody.Step`, `LoopSystem.Step.custody`).
-/
namespace NamedData

/-- The identifier under which a request adds something. -/
def Request.creates? {κ : Type} : Request κ → Option EntryId
  | .express id .. | .register id .. | .setFilter id .. => some id
  | _ => none

/-- The identifier of what a request removes. -/
def Request.removes? {κ : Type} : Request κ → Option EntryId
  | .removePending id | .removeRegistered id | .unsetFilter id => some id
  | _ => none

/-- What removes something adds nothing. -/
theorem Request.not_creates {κ : Type} {request : Request κ} {id : EntryId}
    (removes : request.removes? = some id) : request.creates? = none := by
  cases request with
  | express | register | setFilter => cases removes
  | removePending | removeRegistered | unsetFilter | putData | send => rfl

/-- The request that a command is. -/
def Command.request? {κ : Type} : Command κ → Option (Request κ)
  | .request asked => some asked
  | _ => none

/-- What is done about a request. -/
inductive Handling (κ : Type) where
  /-- A face hands it over. -/
  | queue (request : Request κ)
  /-- The loop takes it from the queue and its node carries it out. -/
  | take (request : Request κ)
  /-- A callback that was handed the node has it carried out. -/
  | perform (request : Request κ)
  /-- Nothing is asked. -/
  | rest

/-- The request that comes in. -/
def Handling.request? {κ : Type} : Handling κ → Option (Request κ)
  | .queue request | .perform request => some request
  | .take _ | .rest => none

/-- The request that is carried out. -/
def Handling.asked? {κ : Type} : Handling κ → Option (Request κ)
  | .take request | .perform request => some request
  | .queue _ | .rest => none

namespace Holdings

variable {κ : Type} {h after : Holdings κ}

/-- The identifiers of everything a node holds. -/
def ids (h : Holdings κ) : List EntryId :=
  h.pending.map (·.id) ++ h.filters.map (·.id) ++ h.registrations.map (·.id)

/-- The identifier that was drawn, if the counter stands elsewhere afterwards. -/
def drawn (h after : Holdings κ) : List EntryId :=
  if after.nextId = h.nextId then [] else [h.nextId]

theorem count_ids (h : Holdings κ) (id : EntryId) :
    h.ids.count id = (h.pending.map (·.id)).count id + (h.filters.map (·.id)).count id +
      (h.registrations.map (·.id)).count id := by
  rw [ids, List.count_append, List.count_append]

theorem count_drawn (h after : Holdings κ) (id : EntryId) :
    (h.drawn after).count id ≤ if h.nextId = id then 1 else 0 := by
  rw [drawn]
  split
  · exact Nat.zero_le _
  · by_cases same : h.nextId = id <;> simp [same]

private theorem count_filter_le {α : Type} (l : List α) (p : α → Bool) (f : α → EntryId)
    (id : EntryId) : ((l.filter p).map f).count id ≤ (l.map f).count id :=
  (List.filter_sublist.map f).count_le id

/-- What is held afterwards was held, or was asked for, or was drawn. -/
theorem Change.count {asked : Option (Request κ)} (change : h.Change asked after) (id : EntryId) :
    after.ids.count id ≤
      h.ids.count id + (asked.bind Request.creates?).toList.count id + (h.drawn after).count id := by
  have interests := fun p => count_filter_le h.pending p (·.id) id
  have filters := fun p => count_filter_le h.filters p (·.id) id
  have registrations := fun p => count_filter_le h.registrations p (·.id) id
  rw [count_ids, count_ids]
  cases change with
  | resolve fewer =>
    have left := (fewer.map (·.id)).count_le id
    simp only
    omega
  | clear => simp
  | express | enroll | set =>
    simp only [List.map_append, List.map_singleton, List.count_append, Option.bind_some,
      Request.creates?, Option.toList_some]
    omega
  | unsent | decline | put | send => omega
  | withdraw other =>
    have left := interests fun e => e.id != other
    simp only
    omega
  | install =>
    simp only [List.map_append, List.map_singleton, List.count_append, Option.bind_some,
      Request.creates?, Option.toList_some, drawn, EntryId.succ_ne, if_false]
    omega
  | refuse =>
    have left := filters fun f => f.id != h.nextId
    simp only
    omega
  | unregister other =>
    have left := filters fun f => f.id ∉ h.related other
    have others := registrations fun r => r.id != other
    simp only
    omega
  | unset other =>
    have left := filters fun f => f.id != other
    simp only
    omega

/-! ## What a removal takes away -/

/-- What goes when the entry goes that a request has added. -/
inductive Loses (h : Holdings κ) : Request κ → Holdings κ → Prop where
  | pending {before behind : List (PendingInterest κ)} {entry : PendingInterest κ} {interest : Interest}
      (held : h.pending = before ++ entry :: behind) (name : interest.name = entry.interest.name) :
      Loses h (.express entry.id interest entry.onData entry.onTimeout)
        { h with pending := before ++ behind }
  | filter {before behind : List (FilterEntry κ)} {f : FilterEntry κ}
      (held : h.filters = before ++ f :: behind) :
      Loses h (.setFilter f.id f.filter f.onInterest) { h with filters := before ++ behind }
  /-- A registration that has no filter. -/
  | registration {before behind : List Registration} {r : Registration} {onInterest : Option κ}
      {onFailed : κ} {options : RegistrationOptions}
      (held : h.registrations = before ++ r :: behind)
      (bare : ∀ f ∈ h.filters, r.filterId ≠ some f.id) :
      Loses h (.register r.id r.root onInterest onFailed options)
        { h with registrations := before ++ behind }
  /-- A registration and the filter that was installed along with it. -/
  | accompanied {before behind : List Registration} {r : Registration}
      {earlier later : List (FilterEntry κ)} {f : FilterEntry κ} {onInterest : Option κ} {onFailed : κ}
      {options : RegistrationOptions}
      (held : h.registrations = before ++ r :: behind) (installed : h.filters = earlier ++ f :: later)
      (own : r.filterId = some f.id) :
      Loses h (.register r.id r.root onInterest onFailed options)
        { h with registrations := before ++ behind, filters := earlier ++ later }

/-- In a list without two of one identifier, dropping an identifier drops one element or none. -/
theorem filter_id {α : Type} {l : List α} {f : α → EntryId} (distinct : (l.map f).Nodup)
    (id : EntryId) : (l.filter (fun a => f a != id) = l ∧ ∀ a ∈ l, f a ≠ id) ∨
      ∃ before a behind, l = before ++ a :: behind ∧ f a = id ∧
        l.filter (fun a => f a != id) = before ++ behind ∧ l.filter (fun a => f a == id) = [a] := by
  by_cases found : ∃ a ∈ l, f a = id
  · obtain ⟨a, member, rfl⟩ := found
    obtain ⟨before, behind, rfl⟩ := List.append_of_mem member
    right
    refine ⟨before, a, behind, rfl, rfl, ?_⟩
    rw [List.map_append, List.map_cons, List.nodup_middle, List.nodup_cons, ← List.map_append] at distinct
    have others : ∀ b ∈ before ++ behind, f b ≠ f a := by
      intro b listed same
      exact distinct.1 (List.mem_map.mpr ⟨b, listed, same⟩)
    have kept : (before ++ behind).filter (fun b => f b != f a) = before ++ behind :=
      List.filter_eq_self.mpr fun b listed => bne_iff_ne.mpr (others b listed)
    have gone : (before ++ behind).filter (fun b => f b == f a) = [] :=
      List.filter_eq_nil_iff.mpr fun b listed => by simpa using others b listed
    rw [List.filter_append] at kept gone
    obtain ⟨none, nobody⟩ := List.append_eq_nil_iff.mp gone
    constructor
    · rw [List.filter_append, List.filter_cons_of_neg (by simp), kept]
    · rw [List.filter_append, List.filter_cons_of_pos (by simp), none, nobody, List.nil_append]
  · left
    have others : ∀ a ∈ l, f a ≠ id := fun a member same => found ⟨a, member, same⟩
    exact ⟨List.filter_eq_self.mpr fun a member => bne_iff_ne.mpr (others a member), others⟩

/-- Everything that is held stems from a request that was made or, if it is a filter, from an identifier
that was drawn for it. -/
structure Stems (made : Request κ → Prop) (drawn : EntryId → Prop) (h : Holdings κ) : Prop where
  pending : ∀ entry ∈ h.pending, ∃ interest : Interest, interest.name = entry.interest.name ∧
    made (.express entry.id interest entry.onData entry.onTimeout)
  filters : ∀ f ∈ h.filters, made (.setFilter f.id f.filter f.onInterest) ∨ drawn f.id
  registrations : ∀ r ∈ h.registrations, ∃ onInterest onFailed options,
    made (.register r.id r.root onInterest onFailed options)
  related : ∀ r ∈ h.registrations, ∀ id, r.filterId = some id → drawn id

namespace Stems

variable {made more : Request κ → Prop} {drawn others : EntryId → Prop}

theorem imp (stems : h.Stems made drawn) (requests : ∀ request, made request → more request)
    (ids : ∀ id, drawn id → others id) : h.Stems more others where
  pending entry member := by
    obtain ⟨interest, name, asked⟩ := stems.pending entry member
    exact ⟨interest, name, requests _ asked⟩
  filters f member := (stems.filters f member).imp (requests _) (ids _)
  registrations r member := by
    obtain ⟨onInterest, onFailed, options, asked⟩ := stems.registrations r member
    exact ⟨onInterest, onFailed, options, requests _ asked⟩
  related r member id own := ids id (stems.related r member id own)

/-- What becomes of it, all that is held stems from something. -/
theorem change {asked : Option (Request κ)} (stems : h.Stems made drawn) (change : h.Change asked after)
    (asks : ∀ request id, asked = some request → request.creates? = some id → made request)
    (draws : after.nextId ≠ h.nextId → drawn h.nextId) : after.Stems made drawn := by
  obtain ⟨pending, filters, registrations, related⟩ := stems
  cases change with
  | resolve fewer => exact ⟨fun entry member => pending entry (fewer.subset member), filters,
      registrations, related⟩
  | clear =>
    exact ⟨List.forall_mem_nil _, List.forall_mem_nil _, List.forall_mem_nil _, List.forall_mem_nil _⟩
  | unsent | decline | put | send => exact ⟨pending, filters, registrations, related⟩
  | withdraw id =>
    exact ⟨fun entry member => pending entry (List.mem_filter.mp member).1, filters, registrations,
      related⟩
  | express name handle id onData onTimeout =>
    have new := asks _ id rfl rfl
    exact ⟨List.forall_mem_append.mpr ⟨pending, List.forall_mem_singleton.mpr ⟨_, name.symm, new⟩⟩,
      filters, registrations, related⟩
  | enroll id root onFailed options =>
    have new := asks _ id rfl rfl
    refine ⟨pending, filters, List.forall_mem_append.mpr ⟨registrations, ?_⟩,
      List.forall_mem_append.mpr ⟨related, ?_⟩⟩
    · exact List.forall_mem_singleton.mpr ⟨none, onFailed, options, new⟩
    · exact List.forall_mem_singleton.mpr (by rintro _ ⟨⟩)
  | install id root onInterest onFailed options =>
    have new := asks _ id rfl rfl
    have fresh := draws (EntryId.succ_ne _)
    refine ⟨pending, List.forall_mem_append.mpr ⟨filters, ?_⟩,
      List.forall_mem_append.mpr ⟨registrations, ?_⟩, List.forall_mem_append.mpr ⟨related, ?_⟩⟩
    · exact List.forall_mem_singleton.mpr (.inr fresh)
    · exact List.forall_mem_singleton.mpr ⟨some onInterest, onFailed, options, new⟩
    · exact List.forall_mem_singleton.mpr fun _ own => Option.some.inj own ▸ fresh
  | refuse id root onInterest onFailed options =>
    exact ⟨pending, fun f member => filters f (List.mem_filter.mp member).1, registrations, related⟩
  | unregister id =>
    exact ⟨pending, fun f member => filters f (List.mem_filter.mp member).1,
      fun r member => registrations r (List.mem_filter.mp member).1,
      fun r member => related r (List.mem_filter.mp member).1⟩
  | set id filter onInterest =>
    have new := asks _ id rfl rfl
    exact ⟨pending, List.forall_mem_append.mpr ⟨filters, List.forall_mem_singleton.mpr (.inl new)⟩,
      registrations, related⟩
  | unset id =>
    exact ⟨pending, fun f member => filters f (List.mem_filter.mp member).1, registrations, related⟩

/-- The identifier of something that is held is that of a request that was made, or was drawn. -/
theorem of_mem {id : EntryId} (stems : h.Stems made drawn) (member : id ∈ h.ids) :
    (∃ request, made request ∧ request.creates? = some id) ∨ drawn id := by
  rcases List.mem_append.mp member with member | member
  · rcases List.mem_append.mp member with member | member
    · obtain ⟨entry, held, rfl⟩ := List.mem_map.mp member
      obtain ⟨interest, -, asked⟩ := stems.pending entry held
      exact .inl ⟨_, asked, rfl⟩
    · obtain ⟨f, held, rfl⟩ := List.mem_map.mp member
      exact (stems.filters f held).imp_left fun asked => ⟨_, asked, rfl⟩
  · obtain ⟨r, held, rfl⟩ := List.mem_map.mp member
    obtain ⟨onInterest, onFailed, options, asked⟩ := stems.registrations r held
    exact .inl ⟨_, asked, rfl⟩

/-- A removal takes away what was added by the one request that was made under the identifier, if that
is still held, and nothing else. -/
theorem loses {asked request : Request κ} {id : EntryId} (stems : h.Stems made drawn)
    (distinct : h.ids.Nodup) (change : h.Change (some asked) after) (removes : asked.removes? = some id)
    (unique : ∀ other, made other → other.creates? = some id → other = request)
    (issued : ¬ drawn id) : after = h ∨ made request ∧ h.Loses request after := by
  obtain ⟨distinct, enrolled, -⟩ := List.nodup_append.mp distinct
  obtain ⟨interests, filters, -⟩ := List.nodup_append.mp distinct
  cases change with
  | express | unsent | enroll | install | decline | refuse | set | put | send => cases removes
  | withdraw other =>
    cases removes
    rcases filter_id interests id with ⟨same, -⟩ | ⟨before, entry, behind, held, rfl, left, -⟩
    · left
      rw [same]
    · right
      obtain ⟨interest, name, stem⟩ := stems.pending entry (by simp [held])
      obtain rfl := unique _ stem rfl
      rw [left]
      exact ⟨stem, .pending held name⟩
  | unset other =>
    cases removes
    rcases filter_id filters id with ⟨same, -⟩ | ⟨before, f, behind, held, rfl, left, -⟩
    · left
      rw [same]
    · right
      have stem := (stems.filters f (by simp [held])).resolve_right issued
      obtain rfl := unique _ stem rfl
      rw [left]
      exact ⟨stem, .filter held⟩
  | unregister other =>
    cases removes
    rcases filter_id enrolled id with ⟨same, others⟩ | ⟨before, r, behind, held, rfl, left, gone⟩
    · left
      have none : h.related id = [] := by
        rw [Holdings.related, List.filter_eq_nil_iff.mpr fun r member => by simpa using others r member]
        rfl
      rw [same, none]
      simp
    · right
      obtain ⟨onInterest, onFailed, options, stem⟩ := stems.registrations r (by simp [held])
      obtain rfl := unique _ stem rfl
      refine ⟨stem, ?_⟩
      rw [left, Holdings.related, gone]
      cases own : r.filterId with
      | none =>
        have bare : ∀ f ∈ h.filters, r.filterId ≠ some f.id := by simp [own]
        simpa [own] using Loses.registration held bare
      | some filterId =>
        have kept : (h.filters.filter fun f => f.id ∉ [r].filterMap (·.filterId)) =
            h.filters.filter fun f => f.id != filterId := by
          apply List.filter_congr
          intro f _
          by_cases same : f.id = filterId <;> simp [own, same]
        rw [kept]
        rcases filter_id filters filterId with
          ⟨same, others⟩ | ⟨earlier, f, later, installed, rfl, rest, -⟩
        · have bare : ∀ f ∈ h.filters, r.filterId ≠ some f.id := fun f member claimed =>
            others f member (Option.some.inj (own.symm.trans claimed)).symm
          rw [same]
          exact .registration held bare
        · rw [rest]
          exact .accompanied held installed own

end Stems

end Holdings

/-- The requests that wait to be carried out, oldest first, and what is held. -/
structure Custody (κ : Type) where
  waiting : List (Request κ)
  held : Holdings κ

namespace Custody

variable {κ : Type} {c after : Custody κ} {handling : Handling κ}

/-- The identifiers in custody. -/
def ids (c : Custody κ) : List EntryId := c.waiting.filterMap Request.creates? ++ c.held.ids

/-- What becomes of a custody. -/
inductive Step (c : Custody κ) : Handling κ → Custody κ → Prop where
  | queue (request : Request κ) :
      Step c (.queue request) { c with waiting := c.waiting ++ [request] }
  | take {request : Request κ} {rest : List (Request κ)} {held : Holdings κ}
      (first : c.waiting = request :: rest) (change : c.held.Change (some request) held) :
      Step c (.take request) ⟨rest, held⟩
  | perform {request : Request κ} {held : Holdings κ} (change : c.held.Change (some request) held) :
      Step c (.perform request) { c with held }
  | rest {waiting : List (Request κ)} {held : Holdings κ} (fewer : waiting.Sublist c.waiting)
      (change : c.held.Change none held) : Step c .rest ⟨waiting, held⟩

/-- Nothing happens to a custody. -/
theorem Step.idle (c : Custody κ) : c.Step .rest c := .rest (List.Sublist.refl _) (.rest _)

/-- A request that is carried out changes what is held; if it adds nothing, what waits to be added goes on
waiting. -/
theorem Step.of_asked {request : Request κ} (step : c.Step handling after)
    (asked : handling.asked? = some request) : c.held.Change (some request) after.held ∧
      (request.creates? = none →
        after.waiting.filterMap Request.creates? = c.waiting.filterMap Request.creates?) := by
  cases step with
  | queue | rest => cases asked
  | take first change =>
    cases asked
    exact ⟨change, fun adds => by rw [first, List.filterMap_cons_none adds]⟩
  | perform change =>
    cases asked
    exact ⟨change, fun _ => rfl⟩

/-- At most one identifier is drawn. -/
theorem Step.nextId (step : c.Step handling after) :
    after.held.nextId = c.held.nextId ∨ after.held.nextId = c.held.nextId.succ := by
  cases step with
  | queue request => exact .inl rfl
  | take first change => exact change.nextId
  | perform change => exact change.nextId
  | rest fewer change => exact change.nextId

/-- What is in custody afterwards was so before, or came in with a request, or was drawn. -/
theorem Step.count (step : c.Step handling after) (id : EntryId) :
    after.ids.count id ≤ c.ids.count id +
      (handling.request?.bind Request.creates?).toList.count id +
      (c.held.drawn after.held).count id := by
  simp only [ids, List.count_append]
  cases step with
  | queue request =>
    cases creates : request.creates? with
    | none => simp [Handling.request?, List.filterMap_append, creates]
    | some id =>
      simp [Handling.request?, List.filterMap_append, creates]
      omega
  | @take request rest held first change =>
    have kept := change.count id
    rw [first, List.filterMap_cons]
    cases creates : request.creates? <;>
      (simp [Handling.request?, creates, List.count_cons] at kept ⊢; omega)
  | perform change =>
    have kept := change.count id
    simp only [Handling.request?]
    omega
  | rest fewer change =>
    have kept := change.count id
    have left := (fewer.filterMap Request.creates?).count_le id
    simp only [Handling.request?, Option.bind_none, Option.toList_none, List.count_nil] at kept ⊢
    omega

/-- Everything in custody stems from a request that was made, or from an identifier that was drawn. -/
structure Stems (made : Request κ → Prop) (drawn : EntryId → Prop) (c : Custody κ) : Prop where
  waiting : ∀ request ∈ c.waiting, ∀ id, request.creates? = some id → made request
  held : c.held.Stems made drawn

namespace Stems

variable {made more : Request κ → Prop} {drawn others : EntryId → Prop}

theorem imp (stems : c.Stems made drawn) (requests : ∀ request, made request → more request)
    (ids : ∀ id, drawn id → others id) : c.Stems more others where
  waiting request member id creates := requests _ (stems.waiting request member id creates)
  held := stems.held.imp requests ids

theorem step (stems : c.Stems made drawn) (step : c.Step handling after)
    (asks : ∀ request id, handling.request? = some request → request.creates? = some id →
      made request)
    (draws : after.held.nextId ≠ c.held.nextId → drawn c.held.nextId) : after.Stems made drawn := by
  cases step with
  | queue request =>
    refine ⟨List.forall_mem_append.mpr ⟨stems.waiting, ?_⟩, stems.held⟩
    exact List.forall_mem_singleton.mpr fun id creates => asks request id rfl creates
  | @take request rest held first change =>
    have asked := stems.waiting
    rw [first, List.forall_mem_cons] at asked
    refine ⟨asked.2, stems.held.change change ?_ draws⟩
    rintro _ id ⟨⟩ creates
    exact asked.1 id creates
  | perform change => exact ⟨stems.waiting, stems.held.change change asks draws⟩
  | rest fewer change =>
    exact ⟨fun request member => stems.waiting request (fewer.subset member),
      stems.held.change change (by rintro _ _ ⟨⟩) draws⟩

/-- The identifier of something in custody is that of a request that was made, or was drawn. -/
theorem of_mem {id : EntryId} (stems : c.Stems made drawn) (member : id ∈ c.ids) :
    (∃ request, made request ∧ request.creates? = some id) ∨ drawn id := by
  rcases List.mem_append.mp member with waits | held
  · obtain ⟨request, listed, creates⟩ := List.mem_filterMap.mp waits
    exact .inl ⟨request, stems.waiting request listed id creates, creates⟩
  · exact stems.held.of_mem held

end Stems

end Custody

namespace EventLoop

variable {κ τ : Type} [Transport τ]

/-- What a node holds changes only by the request that its loop has settled on. -/
theorem carryOut_changes (l : EventLoop κ τ) (choice : Choice κ) :
    l.engine.holdings.Change (choice.command?.bind Command.request?)
      (l.carryOut choice).1.engine.holdings := by
  cases choice with
  | command command queue =>
    cases command with
    | request request =>
      have change := l.engine.request_changes request
      simp only [carryOut, execute]
      split <;> exact change
    | callLater delay callback =>
      simp only [carryOut, execute]
      split
      · exact .rest _
      · next armed =>
        obtain ⟨deadline, rfl⟩ := eq_of_arm? armed
        exact .rest _
    | shutdown => exact .clear
    | stopWhen | countPending | flush => exact .rest _
  | timer task timers =>
    cases task with
    | processEvents =>
      simp only [carryOut, runTask]
      split
      · split
        · exact .rest _
        · next armed =>
          obtain ⟨deadline, rfl⟩ := eq_of_arm? armed
          exact .rest _
      · exact .rest _
    | pollPredicate =>
      simp only [carryOut, runTask]
      split
      · split
        · rw [(rearmPoll_engine _).1]
          exact .rest _
        · exact .rest _
      · exact .rest _
    | node call => exact l.engine.run_changes call
    | callback callback => exact .rest _
  | close | wait | idle => exact .rest _

/-- A command leaves the queue when the loop settles on it, and otherwise none does. -/
theorem carryOut_queue (l : EventLoop κ τ) (choice : Choice κ) :
    (l.carryOut choice).1.channel.queue =
      match choice with
      | .command _ queue => queue
      | _ => l.channel.queue := by
  cases choice with
  | command command queue =>
    exact (execute_keeps { l with channel := { l.channel with queue } } command).queue
  | timer task timers => exact (runTask_keeps { l with timers } task).queue
  | close | wait | idle => rfl

omit [Transport τ] in
/-- A callback that returns changes nothing of what its node holds. -/
theorem resume_holdings (l : EventLoop κ τ) (result : Except CallbackError Bool) :
    (l.resume result).1.engine.holdings = l.engine.holdings := by
  rw [resume.eq_def]
  split
  · dsimp only
    split
    · rfl
    · rw [(rearmPoll_engine _).1]
      rfl
    · rw [(rearmPoll_engine _).1]
      rfl
  · exact l.engine.resume_holdings _

end EventLoop

namespace LoopSystem

variable {κ τ : Type}

/-- What a loop has in its custody. -/
def custody (s : LoopSystem κ τ) : Custody κ where
  waiting := s.loop.channel.queue.filterMap Command.request?
  held := s.loop.engine.holdings

theorem custody_congr {s after : LoopSystem κ τ}
    (queue : after.loop.channel.queue = s.loop.channel.queue)
    (held : after.loop.engine.holdings = s.loop.engine.holdings) : after.custody = s.custody := by
  rw [custody, custody, queue, held]

/-- A command that a face queues comes into custody, if it is a request and the loop is there. -/
theorem custody_handOff (s : LoopSystem κ τ) (command : Command κ) :
    s.custody.Step
      (((if s.loop.channel.hasLoop then some command else none).bind Command.request?).elim .rest
        .queue) (s.handOff command).custody := by
  cases there : s.loop.channel.hasLoop with
  | false =>
    simp only [handOff, Channel.handOff, there]
    exact .idle _
  | true =>
    have queued : (s.handOff command).custody =
        { s.custody with waiting := s.custody.waiting ++ command.request?.toList } := by
      simp only [handOff, Channel.handOff, there, custody, withChannel, if_true,
        List.filterMap_append]
      cases asked : command.request? <;> simp [asked]
    rw [queued]
    cases asked : command.request? with
    | none => simpa [asked] using Custody.Step.idle s.custody
    | some request => simpa [asked] using Custody.Step.queue request

variable [Transport τ]

/-- A loop that settles on a request takes it from its queue and has it carried out. -/
theorem custody_turn (s : LoopSystem κ τ) {loop : EventLoop κ τ} {choice : EventLoop.Choice κ}
    {pick : List (Timer κ) → Option (Timer κ × List (Timer κ))}
    (armed : s.loop.armNodeCalls? = some loop) (chosen : loop.choose pick = choice) :
    s.custody.Step ((choice.command?.bind Command.request?).elim .rest .take)
      (s.settle (loop.carryOut choice)).custody := by
  have queue := (EventLoop.sameQueue_of_armNodeCalls? armed).queue
  have held : loop.engine.holdings = s.loop.engine.holdings :=
    (congrArg Engine.holdings (EventLoop.engine_of_armNodeCalls? armed)).trans rfl
  have change := loop.carryOut_changes choice
  have after : (s.settle (loop.carryOut choice)).custody =
      ⟨(loop.carryOut choice).1.channel.queue.filterMap Command.request?,
        (loop.carryOut choice).1.engine.holdings⟩ := rfl
  rw [held] at change
  rw [after, EventLoop.carryOut_queue]
  cases choice with
  | command command waiting =>
    have first : s.loop.channel.queue = command :: waiting :=
      queue.symm.trans (EventLoop.queue_of_command chosen).2
    simp only [EventLoop.Choice.command?, Option.bind_some] at change ⊢
    cases asked : command.request? with
    | none =>
      refine .rest ?_ (asked ▸ change)
      rw [custody, first]
      exact (List.sublist_cons_self ..).filterMap _
    | some request =>
      refine .take ?_ (asked ▸ change)
      rw [custody, first, List.filterMap_cons_some asked]
  | close | timer | wait | idle =>
    refine .rest ?_ change
    simp only [queue]
    exact List.Sublist.refl _

/-- What is done about a request in a stage. -/
def handling (stage : Stage κ τ) : Handling κ :=
  match stage.move with
  | .turn _ => ((taken? stage).bind Command.request?).elim .rest .take
  | .perform operation => operation.request?.elim .rest .perform
  | _ => ((queued? stage).bind Command.request?).elim .rest .queue

/-- Every step of a loop is one of the four to its custody. Only others may draw identifiers meanwhile. -/
theorem Step.custody {stage : Stage κ τ}
    (step : stage.before.Step stage.move stage.events stage.after)
    (still : stage.move = .drift →
      stage.after.loop.engine.host.nextId = stage.before.loop.engine.host.nextId) :
    stage.before.custody.Step (handling stage) stage.after.custody := by
  obtain ⟨before, move, events, after⟩ := stage
  change before.Step move events after at step
  cases step with
  | queue other face => exact before.custody_handOff _
  | announce closing =>
    have queued := before.custody_handOff .shutdown
    simp only [handling, queued?] at queued ⊢
    exact queued
  | lower | leave | overflow | pause => exact .idle _
  | begin parked begun =>
    have same : LoopSystem.custody { before with loop := _, phase := .running } = before.custody :=
      custody_congr (EventLoop.begin?_keeps begun).queue
        (congrArg Engine.holdings (EventLoop.engine_of_begin? begun))
    rw [same]
    exact .idle _
  | @turn pick running rest lawful =>
    simp only [handling, taken?, settled?]
    cases armed : before.loop.armNodeCalls? with
    | none =>
      rw [EventLoop.turnBy_of_none armed]
      exact .idle _
    | some loop =>
      rw [EventLoop.turnBy_of_some armed]
      simp only [Option.map_some, Option.bind_some]
      exact before.custody_turn armed rfl
  | advance running advanced => exact .rest (List.Sublist.refl _) (Engine.advance_changes advanced)
  | @resume call result running inside =>
    have same : (before.settle (before.loop.resume result)).custody = before.custody :=
      custody_congr (EventLoop.resume_keeps before.loop result).queue
        (before.loop.resume_holdings result)
    rw [same]
    exact .idle _
  | @perform call operation running inside handed public' =>
    have change := before.loop.engine.perform_changes operation
    simp only [handling]
    cases asked : operation.request? with
    | none => exact .rest (List.Sublist.refl _) (asked ▸ change)
    | some request => exact .perform (asked ▸ change)
  | destroy idle => exact .rest (List.nil_sublist _) (.rest _)
  | @drift transport host drifts =>
    have counter : host.nextId = before.loop.engine.host.nextId := still rfl
    have same : (before.withEngine { before.loop.engine with transport, host }).custody =
        before.custody := by
      simp only [LoopSystem.custody, withEngine, Engine.holdings, counter]
    rw [same]
    exact .idle _

end LoopSystem

end NamedData
