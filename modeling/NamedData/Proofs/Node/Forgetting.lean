import Mathlib.Algebra.Order.Group.Multiset
import Mathlib.Tactic.Abel
import NamedData.Proofs.Node.Polled
import NamedData.Proofs.Table.DelayedCalls

/-!
The delayed calls of the application that a polled node still makes.

Such a call is kept until it is due, is then taken with all others that are due, and is made when its turn
comes in that batch. No step makes a call that was not to come (`Engine.Step.delays`). To shut a node down
empties the table and leaves the batches alone, so of the calls armed before it only those of a batch are
made after it (`Engine.Run.delayed_after_shutdown`).
-/
namespace NamedData

variable {κ τ : Type}

/-- What a call of a node calls the application with, unless it is a timeout. -/
def NodeCall.callback? : NodeCall κ → Option κ
  | .callback wanted => some wanted
  | .timeout _ => none

/-- The application's callback whose delay at a node is over. -/
def Event.delayed? : Event κ → Option κ
  | .called (.nodeDelay callback) => some callback
  | _ => none

/-- The application's callback that a node arms for later. -/
def Event.deferred? : Event κ → Option κ
  | .armed _ call => call.callback?
  | _ => none

/-- The callbacks of the application among some calls of a node. -/
def callbacks (calls : List (NodeCall κ)) : Multiset κ := ↑(calls.filterMap NodeCall.callback?)

/-- The delayed calls of the application that were made. -/
def delayed (events : List (Event κ)) : Multiset κ := ↑(events.filterMap Event.delayed?)

/-- The delayed calls of the application that were armed. -/
def deferred (events : List (Event κ)) : Multiset κ := ↑(events.filterMap Event.deferred?)

@[simp] theorem callbacks_nil : callbacks ([] : List (NodeCall κ)) = 0 := rfl

@[simp] theorem callbacks_cons_timeout (entry : PendingInterest κ) (calls : List (NodeCall κ)) :
    callbacks (.timeout entry :: calls) = callbacks calls := rfl

@[simp] theorem callbacks_append (calls others : List (NodeCall κ)) :
    callbacks (calls ++ others) = callbacks calls + callbacks others := by
  rw [callbacks, List.filterMap_append, ← Multiset.coe_add]
  rfl

theorem callbacks_cons (call : NodeCall κ) (calls : List (NodeCall κ)) :
    callbacks (call :: calls) = callbacks [call] + callbacks calls :=
  callbacks_append [call] calls

theorem callbacks_perm {calls others : List (NodeCall κ)} (perm : calls.Perm others) :
    callbacks calls = callbacks others :=
  Multiset.coe_eq_coe.mpr (perm.filterMap _)

@[simp] theorem delayed_nil : delayed ([] : List (Event κ)) = 0 := rfl

@[simp] theorem deferred_nil : deferred ([] : List (Event κ)) = 0 := rfl

@[simp] theorem delayed_append (events others : List (Event κ)) :
    delayed (events ++ others) = delayed events + delayed others := by
  rw [delayed, List.filterMap_append, ← Multiset.coe_add]
  rfl

@[simp] theorem deferred_append (events others : List (Event κ)) :
    deferred (events ++ others) = deferred events + deferred others := by
  rw [deferred, List.filterMap_append, ← Multiset.coe_add]
  rfl

@[simp] theorem delayed_logged (notices : List Notice) :
    delayed (notices.map (Event.logged (κ := κ))) = 0 := by
  induction notices with
  | nil => rfl
  | cons notice notices ih => exact ih

/-- Work that is finished has no more calls to run. -/
theorem Frame.calls_of_finished {frame : Frame κ} (finished : frame.finished = true) : frame.calls = [] := by
  rw [Frame.finished.eq_def] at finished
  split at finished
  · rfl
  · rfl
  · rfl
  · cases finished

namespace Engine

/-- The delayed calls of the application that have been taken and are to be made in their turn. -/
def taken {σ : Type → Type} (e : Engine κ σ τ) : Multiset κ := callbacks (e.frames.flatMap Frame.calls)

/-- The delayed calls of the application that are still to come. -/
def awaited (e : Engine κ DelayedCalls τ) : Multiset κ :=
  e.taken + callbacks (e.node.scheduler.calls.map (·.call))

/-- A node makes no delayed call that was not to come, and is not given to it to be run. -/
def Delays (e : Engine κ DelayedCalls τ) (given : List (NodeCall κ)) (events : List (Event κ))
    (after : Engine κ DelayedCalls τ) : Prop :=
  delayed events + after.awaited ≤ e.awaited + callbacks given + deferred events

variable {e after : Engine κ DelayedCalls τ} {events : List (Event κ)} {call : NodeCall κ}

/-- Steps that make and arm no delayed call, and leave those alone that are to come. -/
theorem Delays.still (scheduler : after.node.scheduler = e.node.scheduler)
    (calls : after.frames.flatMap Frame.calls = e.frames.flatMap Frame.calls)
    (silent : delayed events = 0) : e.Delays [] events after := by
  rw [Delays, awaited, awaited, taken, taken, scheduler, calls, silent, zero_add, callbacks_nil, add_zero]
  exact Multiset.le_add_right _ _

/-- A node that gives up all work makes no delayed call of what it had taken. -/
theorem Delays.collapse (scheduler : after.node.scheduler = e.node.scheduler)
    (frames : after.frames = []) : e.Delays [] [] after := by
  rw [Delays, awaited, awaited, taken, scheduler, frames, List.flatMap_nil, callbacks_nil, delayed_nil,
    deferred_nil, zero_add, zero_add, add_zero, add_zero]
  exact Multiset.le_add_left _ _

/-- A call that is armed is to come. -/
theorem Delays.arm {now : Instant} {delay : Duration} {scheduler : DelayedCalls (NodeCall κ)}
    (armed : e.node.scheduler.callLater? now delay call = some scheduler)
    (after_eq : after.node.scheduler = scheduler) (frames : after.frames = e.frames)
    (arms : deferred events = callbacks [call]) (silent : delayed events = 0) :
    e.Delays [] events after := by
  obtain ⟨due, -, rfl⟩ := Option.map_eq_some_iff.mp armed
  have kept := callbacks_perm ((DelayedCalls.callAt_perm e.node.scheduler due call).map (·.call))
  rw [Delays, awaited, awaited, taken, taken, after_eq, frames, arms, silent, kept, List.map_cons,
    callbacks_cons, callbacks_nil, zero_add, add_zero]
  exact le_of_eq (by abel)

/-- A call that is run is taken from those that are to be made in their turn, or given to the node. -/
theorem Takes.parts {move : Move κ} {left : List (Frame κ)} (takes : e.Takes call move left) :
    callbacks (left.flatMap Frame.calls) + callbacks [call] = e.taken + callbacks move.given?.toList := by
  cases takes with
  | given => rfl
  | @due calls outer frames =>
    have parts := callbacks_cons call (calls ++ outer.flatMap Frame.calls)
    rw [taken, frames]
    change callbacks (calls ++ outer.flatMap Frame.calls) + callbacks [call] =
      callbacks (call :: (calls ++ outer.flatMap Frame.calls)) + 0
    rw [parts, add_zero, add_comm]

/-- To run a call is to make the delayed call that it is, if any. -/
theorem Takes.delays {move : Move κ} {left : List (Frame κ)} (takes : e.Takes call move left)
    (scheduler : after.node.scheduler = e.node.scheduler)
    (calls : after.frames.flatMap Frame.calls = left.flatMap Frame.calls)
    (made : delayed events = callbacks [call]) : e.Delays move.given?.toList events after := by
  have left_taken : after.taken = callbacks (left.flatMap Frame.calls) := by rw [taken, calls]
  rw [Delays, awaited, left_taken, scheduler, made]
  calc callbacks [call] + (callbacks (left.flatMap Frame.calls) +
        callbacks (e.node.scheduler.calls.map (·.call)))
      = callbacks (left.flatMap Frame.calls) + callbacks [call] +
        callbacks (e.node.scheduler.calls.map (·.call)) := by abel
    _ = e.taken + callbacks move.given?.toList + callbacks (e.node.scheduler.calls.map (·.call)) := by
        rw [takes.parts]
    _ = e.awaited + callbacks move.given?.toList := add_right_comm _ _ _
    _ ≤ e.awaited + callbacks move.given?.toList + deferred events := Multiset.le_add_right _ _

/-- The calls that are due are taken, to be made in their turn. -/
theorem Delays.take {outer : List (Frame κ)} (reading : e.frames = .reading :: outer)
    (scheduler : after.node.scheduler = (e.node.scheduler.takeDue e.host.now).2)
    (frames : after.frames = .running (e.node.scheduler.takeDue e.host.now).1 :: outer)
    (silent : delayed events = 0) : e.Delays [] events after := by
  have parted : callbacks (e.node.scheduler.takeDue e.host.now).1 +
      callbacks ((e.node.scheduler.takeDue e.host.now).2.calls.map (·.call)) =
        callbacks (e.node.scheduler.calls.map (·.call)) := by
    rw [← callbacks_append, DelayedCalls.takeDue, ← List.map_append, List.takeWhile_append_dropWhile]
  rw [Delays, awaited, awaited, taken, taken, reading, frames, scheduler, silent, ← parted, zero_add,
    List.flatMap_cons, List.flatMap_cons, callbacks_append, callbacks_append]
  simp only [Frame.calls, callbacks_nil, zero_add, add_zero]
  refine le_trans (le_of_eq ?_) (Multiset.le_add_right _ _)
  abel

variable [Transport τ]

/-- To shut a node down leaves the calls alone that it has taken, and no others. -/
theorem awaited_shutdown (e : Engine κ DelayedCalls τ) : e.shutdown.1.awaited = e.taken :=
  add_zero e.taken

/-- No move of a node makes a delayed call that was not to come. -/
theorem Does.delays {move : Move κ} (does : e.Does move events after) :
    e.Delays move.given?.toList events after := by
  cases does with
  | overrun | stuck => exact .collapse rfl rfl
  | express _ armed | arm armed => exact .arm armed rfl rfl rfl rfl
  | shutdown =>
    change 0 + e.shutdown.1.awaited ≤ e.awaited + 0 + 0
    rw [awaited_shutdown, zero_add, add_zero, add_zero]
    exact Multiset.le_add_right _ _
  | undecodable brings | interest brings | data brings =>
    rw [brings.given?_eq_none]
    exact .still rfl rfl rfl
  | drained frames | unreadable frames => exact .take frames rfl rfl rfl
  | delayed takes | expire takes | lapse takes => exact takes.delays rfl rfl rfl
  | offer frames | deliver frames =>
    exact .still rfl (by rw [frames]; rfl) rfl
  | finish frames finished =>
    refine .still rfl ?_ rfl
    rw [frames, List.flatMap_cons, Frame.calls_of_finished finished]
    rfl
  | resume frames => exact .still rfl (by rw [frames]; rfl) (delayed_logged _)
  | removePending | removeRegistered | unsetFilter => exact .still rfl rfl (delayed_logged _)
  | _ => exact .still rfl rfl rfl

/-- No step of a polled node makes a delayed call of the application that was not to come, or armed in
it. -/
theorem Step.delays {stage : Stage κ DelayedCalls τ} (keeps : KeepsCalls [stage])
    (step : stage.before.Step stage.move stage.events stage.after) :
    stage.before.Delays stage.move.given?.toList stage.events stage.after := by
  have kept := keeps stage List.mem_cons_self
  obtain ⟨before, move, events, after⟩ := stage
  change before.Step move events after at step
  cases step with
  | act acted => exact (does_of_act? acted).delays
  | drift drifts => exact .still (kept rfl) (by rw [drifts.frames]) rfl

/-- No one but the node itself takes the calls it keeps, or runs any. -/
structure KeepsOwn (stages : List (Stage κ DelayedCalls τ)) : Prop where
  keeps : KeepsCalls stages
  own : ∀ stage ∈ stages, ∀ call, stage.move ≠ .perform (.run call)

/-- The stages a node goes through by itself leave its calls alone, unless it is given one to run. -/
theorem keepsOwn_stages {moves : List (Move κ)}
    (own : ∀ call, .perform (.run call) ∉ moves) : KeepsOwn (e.stages moves) := by
  induction moves generalizing e with
  | nil => exact ⟨List.forall_mem_nil _, List.forall_mem_nil _⟩
  | cons move moves ih =>
    rw [stages]
    cases acted : e.act? move with
    | none => exact ⟨List.forall_mem_nil _, List.forall_mem_nil _⟩
    | some result =>
      have rest := ih (e := result.1) fun call member => own call (List.mem_cons_of_mem _ member)
      refine ⟨List.forall_mem_cons.mpr ⟨?_, rest.keeps⟩, List.forall_mem_cons.mpr ⟨?_, rest.own⟩⟩
      · rintro (rfl : move = .drift)
        cases acted
      · rintro call (rfl : move = .perform (.run call))
        exact own call List.mem_cons_self

variable {start : Engine κ DelayedCalls τ} {stage : Stage κ DelayedCalls τ}
variable {past future : List (Stage κ DelayedCalls τ)}

/-- After a polled node has been shut down it makes only those of its delayed calls that it had taken
before, and those that have been armed since. -/
theorem Run.delayed_after_shutdown (run : start.Run (past ++ stage :: future) e)
    (alone : KeepsOwn future) (shut : stage.move = .perform .shutdown) :
    delayed (NamedData.Stage.seen future) ≤
      stage.before.taken + deferred (NamedData.Stage.seen future) := by
  have left : stage.after.awaited = stage.before.taken := by
    obtain ⟨-, step, -⟩ := run.at_stage
    rw [shut] at step
    rw [step.perform_eq.1]
    exact awaited_shutdown stage.before
  have since : delayed (NamedData.Stage.seen future) + e.awaited ≤
      stage.before.taken + deferred (NamedData.Stage.seen future) := by
    revert alone
    rw [List.append_cons] at run
    apply run.since
    · intro mid upTo _
      rw [upTo.of_concat.2.2, left]
      exact Multiset.le_add_right _ _
    · intro later next _ follows before alone
      have before := before ⟨fun stage member => alone.keeps stage (List.mem_append_left _ member),
        fun stage member => alone.own stage (List.mem_append_left _ member)⟩
      have own := alone.own next (List.mem_append_right _ (List.mem_singleton_self _))
      have unasked : next.move.given? = none := by
        by_contra asked
        obtain ⟨call, given⟩ := Option.ne_none_iff_exists'.mp asked
        exact own call (Move.given?_eq_some given)
      have step := Step.delays (List.forall_mem_singleton.mpr <|
        alone.keeps next (List.mem_append_right _ (List.mem_singleton_self _))) follows.1
      rw [unasked, Option.toList_none, Delays, callbacks_nil, add_zero] at step
      rw [NamedData.Stage.seen_concat, delayed_append, deferred_append]
      calc delayed (NamedData.Stage.seen later) + delayed next.events + next.after.awaited
          = delayed (NamedData.Stage.seen later) + (delayed next.events + next.after.awaited) :=
            add_assoc _ _ _
        _ ≤ delayed (NamedData.Stage.seen later) + (next.before.awaited + deferred next.events) :=
            Multiset.add_le_add_left step
        _ = delayed (NamedData.Stage.seen later) + next.before.awaited + deferred next.events :=
            (add_assoc _ _ _).symm
        _ ≤ stage.before.taken + deferred (NamedData.Stage.seen later) + deferred next.events :=
            Multiset.add_le_add_right before
        _ = stage.before.taken + (deferred (NamedData.Stage.seen later) + deferred next.events) :=
            add_assoc _ _ _
  exact (Multiset.le_add_right _ _).trans since

end Engine

end NamedData
