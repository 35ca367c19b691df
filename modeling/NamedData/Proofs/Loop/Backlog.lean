import Mathlib.Data.List.Flatten
import NamedData.Proofs.Loop.Posting
import NamedData.Proofs.Loop.Shutdown

/-!
What the functions of an event loop do with errands.

The errands of a loop are in its queue, in the outbox of its node and among its timers
(`EventLoop.backlog`). What a loop settles on leads them from one place to the next, and runs one when its
timer is taken off (`EventLoop.carryOut_does`).
-/
namespace NamedData

/-- The callback that a command asks to be called later, and the delay. -/
def Command.later? {κ : Type} : Command κ → Option (Duration × κ)
  | .callLater delay callback => some (delay, callback)
  | _ => none

/-- Whether a task is done once, and not again and again. -/
def Task.isErrand {κ : Type} (task : Task κ) : Bool := task.service?.isNone

/-- The errand that a task is. -/
def Task.errand? {κ : Type} : Task κ → Option (Task κ)
  | .processEvents | .pollPredicate => none
  | task => some task

/-- The errand whose timer a loop takes off. -/
def EventLoop.Choice.errand? {κ : Type} : Choice κ → Option (Task κ)
  | .timer task _ => task.errand?
  | _ => none

/-- What a node arms at a time, as errands. -/
def armings {κ : Type} (events : List (Event κ)) (now : Instant) : List (Errand κ) :=
  (events.filterMap Event.arming?).map fun w => ⟨.node w.2, now, w.1⟩

/-- A timer that goes off at a whole millisecond is not early. -/
theorem Instant.le_of_ceilMillis_le {deadline now : Instant}
    (reached : deadline.ceilMillis ≤ now.nanos / 1000000) : deadline ≤ now := by
  rw [Instant.ceilMillis] at reached
  rw [Instant.le_def]
  omega

namespace EventLoop

variable {κ τ : Type} {l after : EventLoop κ τ} {dead : Bool}

/-- The places where a loop keeps errands. -/
def backlog (l : EventLoop κ τ) (dead : Bool) : Backlog κ where
  waiting := l.channel.queue.filterMap Command.later?
  boxed := l.engine.node.scheduler.calls
  timers := l.timers.filter (·.task.isErrand)
  now := l.engine.host.now
  dead := dead

/-- A command that is queued may be an errand. -/
theorem backlog_queue (l : EventLoop κ τ) (command : Command κ) (dead : Bool) :
    backlog { l with channel := { l.channel with queue := l.channel.queue ++ [command] } } dead =
      { l.backlog dead with
        waiting := (l.backlog dead).waiting ++ command.later?.toList } := by
  cases asked : command.later? <;> simp [backlog, asked]

/-- Timers of services are none of its errands. -/
theorem backlog_of_arm? (dead : Bool) {delay : Duration} {task : Task κ} (timed : l.arm? delay task = some after)
    (service : task.isErrand = false) : after.backlog dead = l.backlog dead := by
  obtain ⟨deadline, rfl⟩ := eq_of_arm? timed
  simp [backlog, service]

/-- Other timers are. -/
theorem backlog_arm {timer : Timer κ} (errand : timer.task.isErrand = true) :
    backlog { l with timers := l.timers ++ [timer] } dead =
      { l.backlog dead with timers := (l.backlog dead).timers ++ [timer] } := by
  simp [backlog, errand]

theorem rearmPoll_backlog (l : EventLoop κ τ) (dead : Bool) : l.rearmPoll.1.backlog dead = l.backlog dead := by
  rw [rearmPoll]
  cases timed : l.arm? l.engine.node.config.stopWhenInterval .pollPredicate with
  | none => rfl
  | some mid =>
    have same := backlog_of_arm? dead timed rfl
    exact same

/-- To begin a run leaves the errands where they are. -/
theorem backlog_of_begin? (dead : Bool) (begun : l.begin? = some after) :
    after.backlog dead = l.backlog dead := by
  rw [begin?] at begun
  split at begun
  · obtain ⟨mid, timed, rfl⟩ := Option.map_eq_some_iff.mp begun
    have same := backlog_of_arm? dead timed rfl
    exact same
  · cases begun
    rfl

/-- So does the return of a callback. -/
theorem resume_backlog (l : EventLoop κ τ) (result : Except CallbackError Bool) (dead : Bool) :
    (l.resume result).1.backlog dead = l.backlog dead := by
  rw [resume.eq_def]
  split
  · dsimp only
    split
    · rfl
    · exact rearmPoll_backlog _ dead
    · exact rearmPoll_backlog _ dead
  · dsimp only
    rw [Engine.resume.eq_def]
    split <;> rfl

/-- A loop arms a timer for each call in the outbox. -/
theorem steps_of_armCalls? (dead : Bool) {calls : List (Duration × NodeCall κ)}
    (armed : l.armCalls? calls = some after) :
    Backlog.Steps { l.backlog dead with boxed := calls } [] []
      { after.backlog dead with boxed := [] } := by
  induction calls generalizing l with
  | nil =>
    cases armed
    exact .refl
  | cons call calls ih =>
    rw [armCalls?] at armed
    cases timed : l.arm? call.1 (.node call.2) with
    | none =>
      rw [timed] at armed
      cases armed
    | some next =>
      rw [timed] at armed
      obtain ⟨deadline, shown, rfl⟩ := Option.map_eq_some_iff.mp timed
      have first : Backlog.Steps { l.backlog dead with boxed := call :: calls } [] [] _ :=
        .single (.armCall rfl shown)
      have rest := ih armed
      rw [backlog_arm rfl] at rest
      exact first.trans rest

theorem steps_of_armNodeCalls? (armed : l.armNodeCalls? = some after) :
    (l.backlog dead).Steps [] [] (after.backlog dead) := by
  have steps := steps_of_armCalls? dead armed
  have emptied : ({ after.backlog dead with boxed := [] } : Backlog κ) = after.backlog dead := by
    have engine := engine_of_armNodeCalls? armed
    simp [backlog, engine, collected]
  rw [emptied] at steps
  exact steps

/-- What a loop does with its errands when one of them is run, or none. -/
structure Does (l : EventLoop κ τ) (run : Option (Task κ))
    (outcome : EventLoop κ τ × List (Event κ) × Turn) : Prop where
  steps : (l.backlog false).Steps (armings outcome.2.1 l.engine.host.now)
    (run.toList.map (·, l.engine.host.now)) (outcome.1.backlog (outcome.2.2.phase = .dead))
  told : Told run outcome.2.1
  batches : outcome.1.engine.frames.flatMap Frame.calls ⊆ l.engine.frames.flatMap Frame.calls

/-- The loop lets its node work, having taken off the timer of the errand that is run. -/
theorem Does.of_posts {mid : EventLoop κ τ} {run : Option (Task κ)}
    {outcome : EventLoop κ τ × List (Event κ) × Turn}
    (first : (l.backlog false).Steps [] (run.toList.map (·, l.engine.host.now)) (mid.backlog false))
    (engine : mid.engine = l.engine) (posts : l.engine.Posts run outcome.2.1 outcome.1.engine)
    (queue : outcome.1.channel.queue.filterMap Command.later? =
      mid.channel.queue.filterMap Command.later?)
    (timers : outcome.1.timers.filter (·.task.isErrand) = mid.timers.filter (·.task.isErrand)) :
    l.Does run outcome where
  steps := by
    have posted := first.trans (Backlog.Steps.post _ (outcome.2.1.filterMap Event.arming?))
    have same : { mid.backlog false with
        boxed := (mid.backlog false).boxed ++ outcome.2.1.filterMap Event.arming? } =
          outcome.1.backlog false := by
      simp only [backlog, queue, timers, posts.boxed, posts.now, engine]
    rw [same, List.nil_append, List.append_nil] at posted
    have now : (mid.backlog false).now = l.engine.host.now := congrArg (·.host.now) engine
    rw [now] at posted
    exact posted.doom (by rintro ⟨⟩)
  told := posts.told
  batches := posts.batches

/-- Before it does anything the loop collects the calls in the outbox. -/
theorem Does.collect {mid : EventLoop κ τ} {run : Option (Task κ)}
    {outcome : EventLoop κ τ × List (Event κ) × Turn} (armed : l.armNodeCalls? = some mid)
    (does : mid.Does run outcome) : l.Does run outcome := by
  have engine := engine_of_armNodeCalls? armed
  have now : mid.engine.host.now = l.engine.host.now := by
    rw [engine]
    rfl
  have frames : mid.engine.frames = l.engine.frames := by
    rw [engine]
    rfl
  obtain ⟨steps, told, batches⟩ := does
  rw [now] at steps
  rw [frames] at batches
  exact ⟨(steps_of_armNodeCalls? armed).trans steps, told, batches⟩

/-- A command that is taken from the queue runs no errand. -/
theorem execute_does [Transport τ] {command : Command κ} {queue : List (Command κ)}
    (first : l.channel.queue = command :: queue) :
    l.Does none (execute { l with channel := { l.channel with queue } } command) := by
  cases command with
  | request request =>
    have posts := l.engine.request_posts request
    have others : queue.filterMap Command.later? = l.channel.queue.filterMap Command.later? := by
      rw [first]
      rfl
    simp only [execute]
    split
    · exact .of_posts .refl rfl posts others rfl
    · exact .of_posts .refl rfl (posts.log _) others rfl
    · exact .of_posts .refl rfl posts others rfl
  | callLater delay callback =>
    have waits : (l.backlog false).waiting =
        (delay, callback) :: queue.filterMap Command.later? := by
      simp [backlog, first, Command.later?]
    simp only [execute]
    split
    · have lost := Backlog.Step.lose (b := l.backlog false) 1
      rw [waits] at lost
      exact ⟨.single lost, .none rfl, List.Subset.refl _⟩
    · next timed =>
      obtain ⟨deadline, shown, rfl⟩ := Option.map_eq_some_iff.mp timed
      have armed := Backlog.Step.armCallback waits shown
      refine ⟨?_, .none rfl, List.Subset.refl _⟩
      rw [backlog_arm rfl]
      exact .single armed
  | shutdown =>
    refine .of_posts .refl rfl l.engine.shutdown_posts ?_ rfl
    rw [first]
    rfl
  | stopWhen | countPending | flush =>
    refine .of_posts .refl rfl (.idle rfl rfl (List.Subset.refl _) rfl rfl) ?_ rfl
    rw [first]
    rfl

/-- An errand is run when its timer is taken off. -/
theorem steps_of_timer {first : Timer κ} {timers : List (Timer κ)}
    (errand : first.task.isErrand = true) (perm : (first :: timers).Perm l.timers)
    (due : first.deadline ≤ l.engine.host.now) :
    (l.backlog false).Steps [] [(first.task, l.engine.host.now)] (backlog { l with timers } false) := by
  have left := perm.filter (·.task.isErrand)
  rw [List.filter_cons, if_pos errand] at left
  exact .single (.fire left due)

/-- A task whose timer is taken off is the only errand that is run. -/
theorem runTask_does [Transport τ] {first : Timer κ} {timers : List (Timer κ)}
    (perm : (first :: timers).Perm l.timers) (due : first.deadline ≤ l.engine.host.now) :
    l.Does first.task.errand? (runTask { l with timers } first.task) := by
  have left := perm.filter (·.task.isErrand)
  obtain ⟨deadline, task⟩ := first
  cases task with
  | processEvents =>
    have taken : (l.backlog false).Steps [] [] (backlog { l with timers } false) :=
      .single (.shuffle left)
    simp only [runTask, Task.errand?]
    split
    · split
      · exact .of_posts taken rfl (.idle rfl rfl (List.Subset.refl _) rfl rfl) rfl rfl
      · next timed =>
        obtain ⟨again, rfl⟩ := eq_of_arm? timed
        refine .of_posts taken rfl (.idle rfl rfl (List.Subset.refl _) rfl rfl) rfl ?_
        simp [Task.isErrand, Task.service?]
    · exact .of_posts taken rfl (.idle rfl rfl (List.Subset.refl _) rfl rfl) rfl rfl
  | pollPredicate =>
    have taken : (l.backlog false).Steps [] [] (backlog { l with timers, pollArmed := false } false) :=
      .single (.shuffle left)
    simp only [runTask, Task.errand?]
    split
    · split
      · have same := rearmPoll_backlog { l with timers, pollArmed := false } false
        obtain ⟨engine, silent⟩ := rearmPoll_engine { l with timers, pollArmed := false }
        refine .of_posts taken rfl ?_ (congrArg Backlog.waiting same) (congrArg Backlog.timers same)
        rw [engine, silent]
        exact .idle rfl rfl (List.Subset.refl _) rfl rfl
      · exact .of_posts taken rfl (.idle rfl rfl (List.Subset.refl _) rfl rfl) rfl rfl
    · exact .of_posts taken rfl (.idle rfl rfl (List.Subset.refl _) rfl rfl) rfl rfl
  | node call =>
    exact .of_posts (steps_of_timer rfl perm due) rfl (l.engine.run_posts call) rfl rfl
  | callback callback =>
    have posts := Engine.Posts.invoke l.engine (.faceDelay callback)
    exact .of_posts (steps_of_timer rfl perm due) rfl posts rfl rfl

/-- What a loop settles on leads its errands on. -/
theorem carryOut_does [Transport τ] {pick : List (Timer κ) → Option (Timer κ × List (Timer κ))}
    (lawful : LawfulPick pick) {choice : Choice κ} (chosen : l.choose pick = choice) :
    l.Does choice.errand? (l.carryOut choice) := by
  have idle : l.engine.Posts none [] l.engine :=
    .idle rfl rfl (List.Subset.refl _) rfl rfl
  cases choice with
  | command command queue => exact execute_does (queue_of_command chosen).2
  | timer task timers =>
    obtain ⟨first, rfl, picked, reached⟩ := picked_of_timer chosen
    exact runTask_does (lawful.perm picked) (Instant.le_of_ceilMillis_le reached)
  | close | wait | idle => exact .of_posts .refl rfl idle rfl rfl

/-- A step that a loop takes of its own accord leads its errands on, and runs one of them or none. -/
theorem stepBy?_does [Transport τ] {pick : List (Timer κ) → Option (Timer κ × List (Timer κ))}
    {outcome : EventLoop κ τ × List (Event κ) × Turn} (lawful : LawfulPick pick)
    (idle : l.engine.frames.flatMap Frame.calls = []) (stepped : l.stepBy? pick = some outcome) :
    ∃ run, l.Does run outcome := by
  rw [stepBy?] at stepped
  split at stepped
  · obtain rfl := Option.some.inj stepped
    cases armed : l.armNodeCalls? with
    | none =>
      rw [turnBy_of_none armed]
      exact ⟨none, .of_posts .refl rfl (.idle rfl rfl (List.Subset.refl _) rfl rfl) rfl rfl⟩
    | some mid =>
      rw [turnBy_of_some armed]
      exact ⟨_, (carryOut_does lawful rfl).collect armed⟩
  · obtain ⟨⟨engine, events⟩, advanced, rfl⟩ := Option.map_eq_some_iff.mp stepped
    exact ⟨none, .of_posts .refl rfl (Engine.advance_posts idle advanced) rfl rfl⟩

/-- When a callback returns no errand is run. -/
theorem resume_does [Transport τ] (l : EventLoop κ τ) (result : Except CallbackError Bool) :
    l.Does none (l.resume result) := by
  have fewer : l.engine.frames.tail.flatMap Frame.calls ⊆ l.engine.frames.flatMap Frame.calls :=
    ((List.tail_sublist _).flatMap _).subset
  have same := resume_backlog l result false
  refine .of_posts .refl rfl ?_ (congrArg Backlog.waiting same) (congrArg Backlog.timers same)
  rw [resume.eq_def]
  split
  · obtain ⟨engine, silent⟩ :=
      rearmPoll_engine { l with engine := { l.engine with frames := l.engine.frames.tail } }
    dsimp only
    split
    · exact .idle rfl rfl fewer rfl rfl
    · rw [engine, silent]
      exact .idle rfl rfl fewer rfl rfl
    · dsimp only
      rw [engine, silent]
      exact .idle rfl rfl fewer rfl rfl
  · exact l.engine.resume_posts _

end EventLoop

end NamedData
