import NamedData.Proofs.Loop.Errands
import NamedData.Proofs.Node.Ticking

/-!
What the node of a loop does about errands.

Whatever a node does, it only adds to its outbox, what it adds is what is seen to be armed, and it makes
no delayed call on its own account (`Engine.Does.posts`).
-/
namespace NamedData

/-- The errand on whose account a call into the application is made. -/
def Call.task? {κ : Type} : Call κ → Option (Task κ)
  | .faceDelay callback => some (.callback callback)
  | .nodeDelay callback => some (.node (.callback callback))
  | .timeout entry _ => some (.node (.timeout entry))
  | .data .. | .interest .. | .registerFailed .. | .poll .. => none

/-- The errand on whose account the application is called. -/
def Event.task? {κ : Type} : Event κ → Option (Task κ)
  | .called call => call.task?
  | _ => none

/-- What a node arms, and for which delay. -/
def Event.arming? {κ : Type} : Event κ → Option (Duration × NodeCall κ)
  | .armed delay call => some (delay, call)
  | _ => none

theorem Event.eq_armed_of_arming? {κ : Type} {event : Event κ} {delay : Duration} {call : NodeCall κ}
    (arms : event.arming? = some (delay, call)) : event = .armed delay call := by
  rw [arming?.eq_def] at arms
  split at arms
  · cases arms
    rfl
  · cases arms

/-- The application is called on account of the errand that is run and of no other. A timeout may come
too late for that. -/
structure Told {κ : Type} (run : Option (Task κ)) (events : List (Event κ)) : Prop where
  only : (events.filterMap Event.task?).Sublist run.toList
  each : (∀ entry, run ≠ some (.node (.timeout entry))) →
    events.filterMap Event.task? = run.toList

/-- Log records run no errand. -/
theorem task_logged {κ : Type} (notices : List Notice) :
    (notices.map (Event.logged (κ := κ))).filterMap Event.task? = [] := by
  rw [List.filterMap_map]
  exact List.filterMap_eq_nil_iff.mpr fun _ _ => rfl

/-- Log records arm nothing. -/
theorem arming_logged {κ : Type} (notices : List Notice) :
    (notices.map (Event.logged (κ := κ))).filterMap Event.arming? = [] := by
  rw [List.filterMap_map]
  exact List.filterMap_eq_nil_iff.mpr fun _ _ => rfl

/-- Nobody is called when no errand is run. -/
theorem Told.none {κ : Type} {events : List (Event κ)} (silent : events.filterMap Event.task? = []) :
    Told none events where
  only := by rw [silent]; exact .slnil
  each _ := silent

namespace Engine

variable {κ τ : Type} {e after : Engine κ Outbox τ} {events : List (Event κ)}

/-- What a node does about errands when one of them is run, or none. -/
structure Posts (e : Engine κ Outbox τ) (run : Option (Task κ)) (events : List (Event κ))
    (after : Engine κ Outbox τ) : Prop where
  /-- Calls are added to the outbox and none is taken out. -/
  boxed : after.node.scheduler.calls = e.node.scheduler.calls ++ events.filterMap Event.arming?
  now : after.host.now = e.host.now
  /-- No calls are run but those that were being run. -/
  batches : after.frames.flatMap Frame.calls ⊆ e.frames.flatMap Frame.calls
  told : Told run events

/-- Work that is no errand's. -/
theorem Posts.idle (scheduler : after.node.scheduler = e.node.scheduler)
    (now : after.host.now = e.host.now)
    (batches : after.frames.flatMap Frame.calls ⊆ e.frames.flatMap Frame.calls)
    (unarmed : events.filterMap Event.arming? = []) (silent : events.filterMap Event.task? = []) :
    e.Posts none events after where
  boxed := by rw [scheduler, unarmed, List.append_nil]
  now := now
  batches := batches
  told := .none silent

/-- To call the application on account of an errand is to run it. -/
theorem Posts.invoke (e : Engine κ Outbox τ) (call : Call κ) :
    e.Posts call.task? (e.invoke call).2 (e.invoke call).1 := by
  have told : (e.invoke call).2.filterMap Event.task? = call.task?.toList := by
    cases named : call.task? <;> simp [Engine.invoke, Event.task?, named]
  have unarmed : (e.invoke call).2.filterMap Event.arming? = [] := rfl
  refine ⟨?_, rfl, List.Subset.refl _, ?_, fun _ => told⟩
  · rw [unarmed, List.append_nil]
    rfl
  · rw [told]

/-- What is logged besides does not matter. -/
theorem Posts.log {run : Option (Task κ)} (posts : e.Posts run events after)
    (notice : Option Notice) : e.Posts run (events ++ (notice.map .logged).toList) after := by
  cases notice with
  | none =>
    rw [Option.map_none, Option.toList_none, List.append_nil]
    exact posts
  | some notice =>
    have logs : ∀ {α : Type} (seen? : Event κ → Option α), seen? (.logged notice) = none →
        (events ++ [Event.logged notice]).filterMap seen? = events.filterMap seen? := by
      intro α seen? unseen
      simp [unseen]
    obtain ⟨boxed, now, batches, only, each⟩ := posts
    rw [← logs Event.arming? rfl] at boxed
    rw [← logs Event.task? rfl] at only each
    exact ⟨boxed, now, batches, only, each⟩

/-- To run a call of a node is to run its errand: the application is called on account of it, unless it is a
timeout that comes too late. -/
theorem Takes.posts {move : Move κ} {call : NodeCall κ} {left : List (Frame κ)}
    (takes : e.Takes call move left) (idle : move = .advance → e.frames.flatMap Frame.calls = [])
    (scheduler : after.node.scheduler = e.node.scheduler) (now : after.host.now = e.host.now)
    (batches : after.frames.flatMap Frame.calls ⊆ left.flatMap Frame.calls)
    (unarmed : events.filterMap Event.arming? = []) (told : Told (some (.node call)) events) :
    e.Posts (move.given?.map .node) events after := by
  cases takes with
  | given => exact ⟨by rw [scheduler, unarmed, List.append_nil], now, batches, told⟩
  | due frames =>
    have none := idle rfl
    simp [frames, Frame.calls] at none

variable [Transport τ]

/-- **Whatever a node does about errands** is to post what it arms, and to run the one that it is given. Its
unfinished work is no errand's, since its outbox hands no calls back. -/
theorem Does.posts {move : Move κ} (does : e.Does move events after)
    (idle : move = .advance → e.frames.flatMap Frame.calls = []) :
    e.Posts (move.given?.map .node) events after := by
  cases does with
  | overrun _ unarmed | stuck unarmed => cases unarmed
  | express _ armed | arm armed =>
    cases armed
    exact ⟨rfl, rfl, List.Subset.refl _, .none rfl⟩
  | undecodable brings | interest brings | data brings =>
    rw [brings.given?_eq_none]
    exact .idle rfl rfl (List.Subset.refl _) rfl rfl
  | delayed takes =>
    exact takes.posts idle rfl rfl (List.Subset.refl _) rfl ⟨.refl _, fun _ => rfl⟩
  | expire takes =>
    exact takes.posts idle rfl rfl (List.Subset.refl _) rfl ⟨.refl _, fun _ => rfl⟩
  | lapse takes =>
    refine takes.posts idle rfl rfl (List.Subset.refl _) rfl ⟨List.nil_sublist _, ?_⟩
    intro other
    exact absurd rfl (other _)
  | drained frames | unreadable frames | offer frames | deliver frames =>
    refine .idle rfl rfl ?_ rfl rfl
    rw [frames]
    exact List.Subset.refl _
  | finish frames =>
    refine .idle rfl rfl ?_ rfl rfl
    rw [frames, List.flatMap_cons]
    exact List.subset_append_right _ _
  | resume frames =>
    refine .idle rfl rfl ?_ ?_ ?_
    · rw [frames, List.flatMap_cons]
      exact List.subset_append_right _ _
    · exact arming_logged _
    · exact task_logged _
  | removePending | removeRegistered | unsetFilter =>
    exact .idle rfl rfl (List.Subset.refl _) (arming_logged _) (task_logged _)
  | _ => exact .idle rfl rfl (List.Subset.refl _) rfl rfl

theorem resume_posts (e : Engine κ Outbox τ) (result : CallbackResult) :
    e.Posts none (e.resume result).2 (e.resume result).1 :=
  (e.resume_does result).posts nofun

theorem request_posts (e : Engine κ Outbox τ) (request : Request κ) :
    e.Posts none (e.request request).2.2 (e.request request).1 :=
  (e.perform_does (.request request)).posts nofun

theorem run_posts (e : Engine κ Outbox τ) (call : NodeCall κ) :
    e.Posts (some (.node call)) (e.run call).2 (e.run call).1 :=
  (e.perform_does (.run call)).posts nofun

theorem shutdown_posts (e : Engine κ Outbox τ) : e.Posts none e.shutdown.2 e.shutdown.1 :=
  (e.perform_does .shutdown).posts nofun

/-- An operation other than to run a call is no errand. -/
theorem perform_posts (e : Engine κ Outbox τ) {operation : Operation κ}
    (public' : ∀ call, operation ≠ .run call) :
    e.Posts none (e.perform operation).2.2 (e.perform operation).1 := by
  have posts := (e.perform_does operation).posts nofun
  cases operation with
  | run call => exact absurd rfl (public' call)
  | request | callLater | processEvents | receive | shutdown => exact posts

theorem advance_posts (rest : e.frames.flatMap Frame.calls = [])
    (advanced : e.advance = some (after, events)) : e.Posts none events after :=
  (advance_does advanced).posts fun _ => rest

end Engine

end NamedData
