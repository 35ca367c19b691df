import NamedData.Proofs.Node.Acting

/-!
What a node does by itself, told apart from what an event loop does with the same engine.

A loop uses the engine of its node to run callbacks of its own: calls that were delayed at a face, and
the stop predicate. A node never makes these calls, and what it logs is never about a command
(`Engine.Does.owns`).
-/
namespace NamedData

/-- Whether a call is one that a node makes. -/
def Call.ofNode {κ : Type} : Call κ → Bool
  | .faceDelay _ | .poll .. => false
  | _ => true

theorem Call.ofNode_of_handsNode {κ : Type} {call : Call κ} (handed : call.handsNode = true) :
    call.ofNode = true := by
  cases call with
  | interest | nodeDelay => rfl
  | data | timeout | registerFailed | faceDelay | poll => cases handed

/-- Whether a log record is one that a node writes. -/
def Notice.ofNode : Notice → Bool
  | .callbackFailed .callLater _ | .predicateFailed _ | .expressFailed .. | .putFailed ..
  | .sendFailed .. => false
  | _ => true

/-- Whether an event is one that a node brings about. -/
def Event.ofNode {κ : Type} : Event κ → Bool
  | .called call => call.ofNode
  | .logged notice => notice.ofNode
  | .answered .. => false
  | _ => true

/-- Whether a frame is one that a node begins. -/
def Frame.ofNode {κ : Type} : Frame κ → Bool
  | .inside call => call.ofNode
  | _ => true

namespace Engine

variable {κ τ : Type} {σ : Type → Type}

/-- Everything in progress is the node's own. -/
def Own (e : Engine κ σ τ) : Prop := ∀ frame ∈ e.frames, frame.ofNode = true

/-- The outcome of something a node did: everything in progress is its own, and so is what was seen. -/
structure Owns (after : Engine κ σ τ) (events : List (Event κ)) : Prop where
  frames : after.Own
  events : ∀ event ∈ events, event.ofNode = true

/-- What is logged of removed filters is that there are none. -/
theorem unknown_of_mem_removalsNotices {filters : FilterTable κ} {ids : List EntryId} {notice : Notice}
    (logged : notice ∈ filters.removalsNotices ids) : ∃ id ∈ ids, notice = .unknownFilter id := by
  induction ids generalizing filters with
  | nil => cases logged
  | cons id ids ih =>
    rw [FilterTable.removalsNotices, List.mem_append] at logged
    rcases logged with first | later
    · exact ⟨id, List.mem_cons_self, (Notice.mem_unlessFound.mp first).2⟩
    · obtain ⟨other, member, same⟩ := ih later
      exact ⟨other, List.mem_cons_of_mem _ member, same⟩

/-- What a callback of the node's own returns is logged as such. -/
theorem ofNode_notices {call : Call κ} (mine : call.ofNode = true) (result : CallbackResult) :
    ∀ notice ∈ call.notices result, notice.ofNode = true := by
  intro notice logged
  cases call with
  | faceDelay | poll => cases mine
  | nodeDelay => cases logged
  | data | timeout | interest | registerFailed =>
    cases result with
    | ok => cases logged
    | error error =>
      obtain rfl := List.mem_singleton.mp logged
      rfl

variable {e after : Engine κ σ τ} {events : List (Event κ)} {move : Move κ}

/-- What lies below something of a node's own is its own too. -/
theorem Own.below {frame : Frame κ} {outer : List (Frame κ)} (own : e.Own)
    (frames : e.frames = frame :: outer) : ∀ other ∈ outer, other.ofNode = true := by
  rw [Own, frames] at own
  exact (List.forall_mem_cons.mp own).2

/-- So is what is left in progress when a call is taken to be run. -/
theorem Own.takes {call : NodeCall κ} {left : List (Frame κ)} (own : e.Own)
    (takes : e.Takes call move left) : ∀ frame ∈ left, frame.ofNode = true := by
  cases takes with
  | given => exact own
  | due frames => exact List.forall_mem_cons.mpr ⟨rfl, own.below frames⟩

theorem Own.resume {call : Call κ} {outer : List (Frame κ)} (own : e.Own)
    (frames : e.frames = .inside call :: outer) (result : CallbackResult) :
    Owns { e with frames := outer } ((call.notices result).map .logged) := by
  refine ⟨own.below frames, ?_⟩
  have mine : call.ofNode = true := own (.inside call) (frames ▸ List.mem_cons_self)
  intro event member
  obtain ⟨notice, logged, rfl⟩ := List.mem_map.mp member
  exact ofNode_notices mine result notice logged

theorem resume_owns (own : e.Own) (result : CallbackResult) :
    (e.resume result).1.Owns (e.resume result).2 := by
  cases inside : e.current? with
  | some call =>
    obtain ⟨outer, frames⟩ := frames_of_current? inside
    rw [resume_of_frames frames]
    exact own.resume frames result
  | none =>
    rw [resume_of_none inside]
    exact ⟨own, List.forall_mem_nil _⟩

variable [Scheduler σ] [Transport τ]

/-- **What a node does by itself is its own.** -/
theorem Does.owns (does : e.Does move events after) (own : e.Own) : after.Owns events := by
  cases does with
  | overrun | stuck => exact ⟨List.forall_mem_nil _, List.forall_mem_nil _⟩
  | refused | processEvents | interest | data =>
    exact ⟨List.forall_mem_cons.mpr ⟨rfl, own⟩, by simp [Event.ofNode, Notice.ofNode, Call.ofNode]⟩
  | drained frames | unreadable frames =>
    exact ⟨List.forall_mem_cons.mpr ⟨rfl, own.below frames⟩, by simp [Event.ofNode, Notice.ofNode]⟩
  | delayed takes | expire takes =>
    exact ⟨List.forall_mem_cons.mpr ⟨rfl, own.takes takes⟩, by simp [Event.ofNode, Call.ofNode]⟩
  | lapse takes => exact ⟨own.takes takes, List.forall_mem_nil _⟩
  | offer frames | deliver frames =>
    refine ⟨?_, by simp [Event.ofNode, Call.ofNode]⟩
    exact List.forall_mem_cons.mpr ⟨rfl, List.forall_mem_cons.mpr ⟨rfl, own.below frames⟩⟩
  | finish frames => exact ⟨own.below frames, List.forall_mem_nil _⟩
  | resume frames => exact own.resume frames _
  | removePending | unsetFilter =>
    refine ⟨own, List.forall_mem_map.mpr ?_⟩
    rintro notice logged
    obtain ⟨-, rfl⟩ := Notice.mem_unlessFound.mp logged
    rfl
  | removeRegistered =>
    refine ⟨own, List.forall_mem_map.mpr ?_⟩
    rintro notice logged
    rcases List.mem_append.mp logged with unknown | gone
    · obtain ⟨-, rfl⟩ := Notice.mem_unlessFound.mp unknown
      rfl
    · obtain ⟨id, -, rfl⟩ := unknown_of_mem_removalsNotices gone
      rfl
  | _ => exact ⟨own, by simp [Event.ofNode, Notice.ofNode]⟩

theorem perform_owns (own : e.Own) (operation : Operation κ) :
    (e.perform operation).1.Owns (e.perform operation).2.2 :=
  (e.perform_does operation).owns own

theorem request_owns (own : e.Own) (request : Request κ) :
    (e.request request).1.Owns (e.request request).2.2 :=
  perform_owns own (.request request)

theorem run_owns (own : e.Own) (call : NodeCall κ) : (e.run call).1.Owns (e.run call).2 :=
  perform_owns own (.run call)

theorem shutdown_owns (own : e.Own) : e.shutdown.1.Owns e.shutdown.2 :=
  perform_owns own .shutdown

theorem advance_owns (own : e.Own) (advanced : e.advance = some (after, events)) : after.Owns events :=
  (advance_does advanced).owns own

end Engine

end NamedData
