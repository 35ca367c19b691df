import NamedData.Proofs.Node.Processing

/-!
What a node does about the lifetimes of its interests.

Of a polled node whose deadlines the clock can show, every step is of one of a few kinds
(`Engine.Ticks`): it makes an entry and arms its timeout, arms a call of the application, takes the
calls that are due, runs one of them, forgets everything, or does nothing about timeouts.
-/
namespace NamedData

/-- The batches of due calls that are being run, each with what was in progress when it was taken. -/
def Frame.batches {κ : Type} : List (Frame κ) → List (List (NodeCall κ) × List (Frame κ))
  | [] => []
  | .running calls :: outer => (calls, outer) :: batches outer
  | _ :: outer => batches outer

/-- What was in progress when a batch was taken still is. -/
theorem Frame.length_lt_of_batch {κ : Type} {frames outer : List (Frame κ)} {calls : List (NodeCall κ)}
    (member : (calls, outer) ∈ Frame.batches frames) : outer.length < frames.length := by
  induction frames with
  | nil => cases member
  | cons frame frames ih =>
    cases frame with
    | running others =>
      rcases List.mem_cons.mp member with same | member
      · cases same
        exact Nat.lt_succ_self _
      · exact Nat.lt_succ_of_lt (ih member)
    | reading | offering | delivering | inside => exact Nat.lt_succ_of_lt (ih member)

/-- Whether nobody is told that an interest has timed out. -/
def Untimed {κ : Type} (events : List (Event κ)) : Prop :=
  ∀ entry callback, .called (.timeout entry callback) ∉ events

namespace Engine

variable {κ τ : Type} {e after : Engine κ DelayedCalls τ} {events : List (Event κ)}

/-- The kinds of steps: the entry that is made, the time up to which due calls are taken, and what is
seen. -/
inductive Ticks (e after : Engine κ DelayedCalls τ) :
    Option (PendingInterest κ) → Option Instant → List (Event κ) → Prop
  /-- Entries may leave the table. -/
  | keep {events : List (Event κ)} (pending : after.node.pending.entries ⊆ e.node.pending.entries)
      (scheduler : after.node.scheduler = e.node.scheduler)
      (batches : Frame.batches after.frames ⊆ Frame.batches e.frames)
      (calls : after.frames.flatMap Frame.calls = e.frames.flatMap Frame.calls)
      (untimed : Untimed events) : Ticks e after none none events
  /-- The timeout of a new entry is armed for the end of its lifetime. -/
  | make {entry : PendingInterest κ} {lifetime : Duration} {due : Instant} {events : List (Event κ)}
      (pending : after.node.pending.entries = e.node.pending.entries ++ [entry])
      (numbered : entry.handle = e.host.marks.next)
      (lives : entry.interest.lifetime = some lifetime) (ends : e.host.now.add? lifetime = some due)
      (scheduler : after.node.scheduler = e.node.scheduler.callAt due (.timeout entry))
      (frames : after.frames = e.frames) (untimed : Untimed events) :
      Ticks e after (some entry) none events
  /-- A call of the application is armed. -/
  | arm {due : Instant} {callback : κ} {events : List (Event κ)}
      (pending : after.node.pending = e.node.pending)
      (scheduler : after.node.scheduler = e.node.scheduler.callAt due (.callback callback))
      (frames : after.frames = e.frames) (untimed : Untimed events) : Ticks e after none none events
  /-- The calls that are due are taken, to be run. -/
  | take {outer : List (Frame κ)} {events : List (Event κ)} (reading : e.frames = .reading :: outer)
      (pending : after.node.pending = e.node.pending)
      (scheduler : after.node.scheduler = (e.node.scheduler.takeDue e.host.now).2)
      (frames : after.frames = .running (e.node.scheduler.takeDue e.host.now).1 :: outer)
      (untimed : Untimed events) : Ticks e after none (some e.host.now) events
  /-- One of them is run. If it is a timeout, its entry is not in the table any more. -/
  | run {call : NodeCall κ} {calls : List (NodeCall κ)} {outer : List (Frame κ)}
      {events : List (Event κ)} (frames : e.frames = .running (call :: calls) :: outer)
      (pending : ∀ entry ∈ after.node.pending.entries,
        entry ∈ e.node.pending.entries ∧ call.times entry.handle = false)
      (scheduler : after.node.scheduler = e.node.scheduler)
      (batches : Frame.batches after.frames = (calls, outer) :: Frame.batches outer)
      (left : after.frames.flatMap Frame.calls = calls ++ outer.flatMap Frame.calls)
      (told : ∀ entry callback, .called (.timeout entry callback) ∈ events → call = .timeout entry) :
      Ticks e after none none events
  /-- Everything is forgotten, apart from the calls that are being run. -/
  | clear {events : List (Event κ)} (pending : after.node.pending.entries = [])
      (scheduler : after.node.scheduler.calls = []) (frames : after.frames = e.frames)
      (untimed : Untimed events) : Ticks e after none none events

/-- Steps that leave the table, the armed calls and the batches alone. -/
theorem Ticks.still (pending : after.node.pending = e.node.pending)
    (scheduler : after.node.scheduler = e.node.scheduler)
    (batches : Frame.batches after.frames = Frame.batches e.frames)
    (calls : after.frames.flatMap Frame.calls = e.frames.flatMap Frame.calls)
    (untimed : Untimed events) : Ticks e after none none events :=
  .keep (by rw [pending]; exact List.Subset.refl _) scheduler
    (by rw [batches]; exact List.Subset.refl _) calls untimed

/-- The delay after which something is armed by a move to go off. -/
def delay? (e : Engine κ DelayedCalls τ) : Move κ → Option Duration
  | .perform (.callLater delay _) => some delay
  | move => (e.makes? move).bind (·.interest.lifetime)

/-- The timeout of an interest is armed for the end of its lifetime. -/
theorem delay?_express {id : EntryId} {interest : Interest} {onData : κ} {onTimeout : Option κ} {element : Bytes}
    (encoded : e.encode (.interest (e.completion interest)) = .ok element) :
    e.delay? (.perform (.request (.express id interest onData onTimeout))) = some (e.lifetimeOf interest) := by
  simp [delay?, makes?, expressed?_of_ok encoded, entryFor, completion]

variable [Transport τ] {move : Move κ}

/-- A step that dispatches an element does not take the calls that are due. -/
theorem Brings.check?_eq_none {element : Bytes} {transport : τ} (brings : e.Brings element move transport) :
    check? ⟨e, move, events, after⟩ = none := by
  cases brings with
  | receive => rfl
  | read frames received => simp [check?, arrival?, frames, received]

/-- A call that was taken is run. -/
theorem Ticks.of_takes {call : NodeCall κ} {left : List (Frame κ)} (takes : e.Takes call move left)
    (own : ∀ call, move ≠ .perform (.run call))
    (pending : ∀ entry ∈ after.node.pending.entries,
      entry ∈ e.node.pending.entries ∧ call.times entry.handle = false)
    (scheduler : after.node.scheduler = e.node.scheduler)
    (batches : Frame.batches after.frames = Frame.batches left)
    (calls : after.frames.flatMap Frame.calls = left.flatMap Frame.calls)
    (told : ∀ entry callback, .called (.timeout entry callback) ∈ events → call = .timeout entry) :
    Ticks e after (e.makes? move) (check? ⟨e, move, events, after⟩) events := by
  cases takes with
  | given => exact absurd rfl (own call)
  | due frames =>
    have unchecked : check? ⟨e, .advance, events, after⟩ = none := by simp [check?, arrival?, frames]
    rw [unchecked]
    exact .run frames pending scheduler batches calls told

/-- **Whatever a polled node does is of one of these kinds,** if everything it arms has a deadline and no one
else runs its calls. -/
theorem Does.ticks (does : e.Does move events after) (standing : e.node.pending.Standing e.host.marks)
    (own : ∀ call, move ≠ .perform (.run call))
    (shown : ∀ delay, e.delay? move = some delay → (e.host.now.add? delay).isSome = true) :
    Ticks e after (e.makes? move) (check? ⟨e, move, events, after⟩) events := by
  have gone : ∀ entry other : PendingInterest κ,
      other ∈ (e.node.pending.removeEntry e.host.marks entry.handle).2.1.entries →
        other ∈ e.node.pending.entries ∧ (NodeCall.timeout entry).times other.handle = false := by
    intro entry other member
    obtain ⟨waits, different⟩ := standing.mem_removeEntry member
    exact ⟨waits, beq_eq_false_iff_ne.mpr different.symm⟩
  cases does with
  | unsent refused =>
    rw [makes?, expressed?_of_error refused]
    exact .still rfl rfl rfl rfl (by simp [Untimed])
  | @overrun _ interest _ _ _ encoded unarmed =>
    obtain ⟨due, ends⟩ := Option.isSome_iff_exists.mp (shown (e.lifetimeOf interest) (delay?_express encoded))
    simp [Scheduler.callLater?, DelayedCalls.callLater?, ends] at unarmed
  | express encoded armed =>
    obtain ⟨due, ends, rfl⟩ := Option.map_eq_some_iff.mp armed
    rw [makes?, expressed?_of_ok encoded]
    exact .make rfl rfl rfl ends rfl rfl (by simp [Untimed])
  | removePending =>
    exact .keep (List.filter_subset_self _) rfl (List.Subset.refl _) rfl (by simp [Untimed])
  | @stuck delay _ unarmed =>
    obtain ⟨due, ends⟩ := Option.isSome_iff_exists.mp (shown delay rfl)
    simp [Scheduler.callLater?, DelayedCalls.callLater?, ends] at unarmed
  | arm armed =>
    obtain ⟨due, -, rfl⟩ := Option.map_eq_some_iff.mp armed
    exact .arm rfl rfl rfl (by simp [Untimed])
  | shutdown => exact .clear rfl rfl rfl (by simp [Untimed])
  | undecodable brings | interest brings =>
    rw [brings.makes?_eq_none, brings.check?_eq_none]
    exact .still rfl rfl rfl rfl (by simp [Untimed])
  | data brings =>
    rw [brings.makes?_eq_none, brings.check?_eq_none, PendingTable.extractMatching_eq]
    exact .keep (List.filter_subset_self _) rfl (List.Subset.refl _) rfl (by simp [Untimed])
  | drained frames received | unreadable frames received =>
    simp only [check?, arrival?, frames, received]
    exact .take frames rfl rfl rfl (by simp [Untimed])
  | delayed takes =>
    exact .of_takes takes own (fun entry waits => ⟨waits, rfl⟩) rfl rfl rfl (by simp)
  | @expire _ entry _ _ takes =>
    refine .of_takes takes own (gone entry) rfl rfl rfl ?_
    simp
  | @lapse _ entry _ takes => exact .of_takes takes own (gone entry) rfl rfl rfl (by simp)
  | offer frames | deliver frames | resume frames =>
    obtain ⟨node, transport, host, under⟩ := e
    cases frames
    exact .still rfl rfl rfl rfl (by simp [Untimed])
  | finish frames finished =>
    obtain ⟨node, transport, host, under⟩ := e
    cases frames
    rw [Frame.finished.eq_def] at finished
    split at finished
    · exact .keep (List.Subset.refl _) rfl (List.subset_cons_self _ _) rfl (by simp [Untimed])
    · exact .still rfl rfl rfl rfl (by simp [Untimed])
    · exact .still rfl rfl rfl rfl (by simp [Untimed])
    · cases finished
  | _ => exact .still rfl rfl rfl rfl (by simp [Untimed])

/-- What the owner of a node that is polled leaves to the node, and what its clock can show: no one but
the node takes the calls it keeps or runs them, and everything that is armed has a deadline. The clock may
run as it likes. -/
structure Polled (stages : List (Stage κ DelayedCalls τ)) : Prop where
  keeps : KeepsCalls stages
  own : ∀ stage ∈ stages, ∀ call, stage.move ≠ .perform (.run call)
  shown : ∀ stage ∈ stages, ∀ delay, stage.before.delay? stage.move = some delay →
    (stage.before.host.now.add? delay).isSome = true

omit [Transport τ] in
theorem Polled.nil : Polled ([] : List (Stage κ DelayedCalls τ)) where
  keeps := List.forall_mem_nil _
  own := List.forall_mem_nil _
  shown := List.forall_mem_nil _

omit [Transport τ] in
theorem Polled.of_subset {stages others : List (Stage κ DelayedCalls τ)} (polled : Polled stages)
    (part : others ⊆ stages) : Polled others where
  keeps stage member := polled.keeps stage (part member)
  own stage member := polled.own stage (part member)
  shown stage member := polled.shown stage (part member)

/-- Every step of a polled node is of one of these kinds. -/
theorem Step.ticks {stage : Stage κ DelayedCalls τ} (polled : Polled [stage])
    (standing : stage.before.node.pending.Standing stage.before.host.marks)
    (step : stage.before.Step stage.move stage.events stage.after) :
    Ticks stage.before stage.after (stage.before.makes? stage.move) (check? stage) stage.events := by
  have own := polled.own stage List.mem_cons_self
  have shown := polled.shown stage List.mem_cons_self
  have keeps := polled.keeps stage List.mem_cons_self
  obtain ⟨before, move, events, after⟩ := stage
  change before.Step move events after at step
  cases step with
  | act acted => exact (does_of_act? acted).ticks standing own shown
  | drift drifts =>
    have pending : after.node.pending = before.node.pending := by rw [drifts.node]
    exact .still pending (keeps rfl) (by rw [drifts.frames]) (by rw [drifts.frames])
      (by simp [Untimed])

end Engine

end NamedData
