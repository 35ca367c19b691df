import NamedData.Proofs.Exchange.Desks
import NamedData.Proofs.Loop.Resting

/-!
Loops of an exchange that are at rest.

Whatever one loop does, the other only sees (`Sees`), so it stays at rest. A loop whose run the stop
predicate has ended is at rest (`rests_of_exit`), and from then on it takes one command after another
(`step_of_rests`).
-/
namespace NamedData.Exchange

variable {config : FaceConfig} {x : Exchange} {role : Role}

/-! ## What a loop sees of the other -/

/-- A loop that sees something else of the link and of the host, and is the same otherwise. -/
def Sees (l after : EventLoop ExchangeCallback LinkEnd) : Prop := ∃ other, after = follow l other

variable {l mid after : EventLoop ExchangeCallback LinkEnd}

theorem Sees.refl (l : EventLoop ExchangeCallback LinkEnd) : Sees l l := ⟨l, rfl⟩

theorem Sees.trans (first : Sees l mid) (second : Sees mid after) : Sees l after := by
  obtain ⟨other, rfl⟩ := first
  obtain ⟨last, rfl⟩ := second
  exact ⟨last, rfl⟩

theorem Sees.orderly (sees : Sees l after) (orderly : l.Orderly) : after.Orderly := by
  obtain ⟨other, rfl⟩ := sees
  exact orderly.keep rfl rfl rfl

theorem Sees.rests {channel : Channel ExchangeCallback} (sees : Sees l after) (rests : l.Rests channel) :
    after.Rests channel := by
  obtain ⟨other, rfl⟩ := sees
  exact { rests with }

theorem Sees.channel (sees : Sees l after) : after.channel = l.channel := by
  obtain ⟨other, rfl⟩ := sees
  rfl

theorem Sees.commandsOpen (sees : Sees l after) : after.commandsOpen = l.commandsOpen := by
  obtain ⟨other, rfl⟩ := sees
  rfl

theorem sees_update (l : EventLoop ExchangeCallback LinkEnd) (link : Link) (host : Host) :
    Sees l { l with engine := { l.engine with transport := { l.engine.transport with link }, host } } :=
  ⟨{ l with engine := { l.engine with transport := { l.engine.transport with link }, host } }, rfl⟩

/-- What is put back at one face is seen at the other. -/
theorem sees_setLoop (x : Exchange) (role : Role) (l : EventLoop ExchangeCallback LinkEnd) :
    Sees (x.loop role.other) ((x.setLoop role l).loop role.other) := by
  cases role <;> exact ⟨l, rfl⟩

theorem loop_note (x : Exchange) (events : List (Event ExchangeCallback)) (role : Role) :
    (x.note events).loop role = x.loop role := by
  rw [note_eq]
  cases role <;> rfl

/-- A callback changes nothing about the loops but what they see. -/
theorem sees_react (tidy : x.Tidy config) (role : Role) (call : Call ExchangeCallback) (face : Role) :
    Sees (x.loop face) ((x.react role call).1.loop face) := by
  rw [react.eq_def]
  split
  case h_5 entry interest answers =>
    have same : ({ x with received := x.received + 1 } : Exchange).loop role = x.loop role := by
      cases role <;> rfl
    dsimp only
    split
    · cases face <;> exact .refl _
    · rw [same, engine_putData (tidy.tame role)]
      have sees := sees_update (x.loop role) (reply config (x.loop role).engine.transport.link role.side
        (some { name := interest.name, content := answerContent (x.received + 1) })) (x.loop role).engine.host
      cases role <;> cases face
      exacts [sees, ⟨_, rfl⟩, ⟨_, rfl⟩, sees]
  all_goals cases face <;> exact .refl _

/-- A step of a loop changes nothing about the other but what it sees. -/
theorem sees_step (tidy : x.Tidy config) (role : Role) :
    Sees (x.loop role.other) ((x.step role).1.loop role.other) := by
  rw [step, stepBy]
  split
  · next call inside =>
    dsimp only
    rw [loop_note]
    exact (sees_react tidy role call role.other).trans (sees_setLoop ..)
  · split
    · exact .refl _
    · dsimp only
      rw [loop_note]
      exact sees_setLoop ..

/-- Time passes. -/
theorem sees_setNow (x : Exchange) (now : Instant) (face : Role) :
    Sees (x.loop face) ((x.setNow now).loop face) := by
  cases face
  · exact sees_update x.consumer x.consumer.engine.transport.link { x.consumer.engine.host with now }
  · exact ⟨_, rfl⟩

/-- What is under way at a loop stays in order in a step of that loop. -/
theorem orderly_step (tidy : x.Tidy config) (orderly : (x.loop role).Orderly) :
    ((x.step role).1.loop role).Orderly := by
  rw [step, stepBy]
  split
  · next call inside =>
    have sees := sees_react tidy role call role
    have inside' : ((x.react role call).1.loop role).engine.current? = some call := by
      obtain ⟨other, same⟩ := sees
      rw [same]
      exact inside
    dsimp only
    rw [loop_note, loop_setLoop]
    exact (sees.orderly orderly).resume inside' _
  · split
    · exact orderly
    · next stepped =>
      dsimp only
      rw [loop_note, loop_setLoop]
      exact orderly.stepBy? (tidy.tame role).commandsOpen stepped

/-- A step changes nothing about the channel but its queue, unless the run ends with it. -/
theorem channel_of_step (tidy : x.Tidy config) (role : Role) (other : (x.step role).2 ≠ .exited .shutdown) :
    ∃ queue, ((x.step role).1.loop role).channel = { (x.loop role).channel with queue } := by
  rw [step, stepBy] at other ⊢
  split at other
  · next call inside =>
    dsimp only
    rw [loop_note, loop_setLoop, EventLoop.resume_channel, (sees_react tidy role call role).channel]
    exact ⟨_, rfl⟩
  · split at other
    · exact ⟨_, rfl⟩
    · next stepped =>
      dsimp only
      rw [loop_note, loop_setLoop]
      exact EventLoop.channel_of_stepBy? stepped other

/-- When the stop predicate ends a run the loop is at rest, and nothing waits. -/
theorem rests_of_exit {exit : LoopExit} (tidy : x.Tidy config) (orderly : (x.loop role).Orderly)
    (works : (x.desk role).work ≠ []) (ended : (x.step role).2 = .exited exit) :
    ((x.step role).1.loop role).Rests { (x.loop role).channel with queue := [] } := by
  rw [step, stepBy] at ended ⊢
  split at ended
  · next call inside =>
    have sees := sees_react tidy role call role
    have inside' : ((x.react role call).1.loop role).engine.current? = some call := by
      obtain ⟨other, same⟩ := sees
      rw [same]
      exact inside
    dsimp only
    rw [loop_note, loop_setLoop, ← sees.channel]
    exact (sees.orderly orderly).rests (sees.commandsOpen.trans (tidy.tame role).commandsOpen) inside' ended
  · split at ended
    · cases ended
    · next stepped =>
      rw [EventLoop.stepBy?] at stepped
      split at stepped
      · next rest => exact absurd (EventLoop.work_of_rest rest) works
      · obtain ⟨done, -, same⟩ := Option.map_eq_some_iff.mp stepped
        cases same
        cases ended

/-! ## Commands -/

variable {channel : Channel ExchangeCallback} {command : Command ExchangeCallback}

/-- Loops that have not run yet are at rest. -/
theorem rests_start? {plan : Plan} {host : Host} (started : start? plan config host = some x) (role : Role) :
    (x.loop role).Rests {} := by
  rw [start?] at started
  split at started
  · next consumer producer mine theirs =>
    cases started
    obtain ⟨deadline, rfl⟩ := EventLoop.eq_of_arm? mine
    obtain ⟨deadline, rfl⟩ := EventLoop.eq_of_arm? theirs
    cases role <;> exact ⟨rfl, rfl, rfl, rfl⟩
  · cases started

/-- A command is queued at a loop at rest. -/
theorem rests_queue (rests : (x.loop role).Rests channel) (there : channel.hasLoop = true)
    (command : Command ExchangeCallback) :
    ((x.queue role command).loop role).Rests { channel with queue := channel.queue ++ [command] } := by
  have queued : x.queue role command = x.setLoop role { x.loop role with
      channel := { channel with queue := channel.queue ++ [command] } } := by
    rw [queue, rests.channel, Channel.handOff, if_pos there]
  rw [queued, loop_setLoop]
  exact { rests with channel := rfl }

/-- A face is shut down whose loop is at rest. -/
theorem rests_shutdown (rests : (x.loop role).Rests channel) (there : channel.hasLoop = true)
    (active : channel.active = true) :
    ((x.shutdown role).loop role).Rests
      { channel with active := false, queue := channel.queue ++ [.shutdown] } := by
  have down : x.shutdown role = x.setLoop role { x.loop role with
      channel := { channel with active := false, queue := channel.queue ++ [.shutdown] } } := by
    rw [shutdown, rests.channel, Channel.shutdown, if_pos active, Channel.handOff, if_pos there]
  rw [down, loop_setLoop]
  exact { rests with channel := rfl }

/-- A run begins of a loop at rest. -/
theorem rests_begin {after : Exchange} (rests : (x.loop role).Rests channel)
    (begun : x.begin? role = some after) : (after.loop role).Rests channel := by
  obtain ⟨l, starts, rfl⟩ := Option.map_eq_some_iff.mp begun
  rw [loop_setLoop]
  rw [EventLoop.begin?] at starts
  split at starts
  · obtain ⟨mid, armed, rfl⟩ := Option.map_eq_some_iff.mp starts
    obtain ⟨deadline, rfl⟩ := EventLoop.eq_of_arm? armed
    exact { rests with }
  · cases starts
    exact rests

/-- An identifier is drawn. -/
theorem sees_drawId (x : Exchange) (role : Role) (face : Role) :
    Sees (x.loop face) ((x.drawId role).2.loop face) := by
  have sees := sees_update (x.loop role) (x.loop role).engine.transport.link
    (x.loop role).engine.host.drawId.2
  cases role <;> cases face
  exacts [sees, ⟨_, rfl⟩, ⟨_, rfl⟩, sees]

/-- What is queued at one face does not concern the other. -/
theorem sees_queue (x : Exchange) (role : Role) (command : Command ExchangeCallback) :
    Sees (x.loop role.other) ((x.queue role command).loop role.other) := by
  rw [queue]
  split
  · exact sees_setLoop ..
  · exact .refl _

theorem sees_begin {after : Exchange} (begun : x.begin? role = some after) :
    Sees (x.loop role.other) (after.loop role.other) := by
  obtain ⟨l, -, rfl⟩ := Option.map_eq_some_iff.mp begun
  exact sees_setLoop ..

/-- **A loop at rest takes the next command.** -/
theorem step_of_rests {queue : List (Command ExchangeCallback)} (rests : (x.loop role).Rests channel)
    (first : channel.queue = command :: queue) :
    let outcome := EventLoop.execute { x.loop role with channel := { channel with queue } } command
    (x.step role).1.loop role = outcome.1 ∧ (x.step role).2 = outcome.2.2 := by
  have idle : (x.loop role).engine.current? = none := by rw [Engine.current?, rests.frames]
  intro outcome
  have done : x.step role = ((x.setLoop role outcome.1).note outcome.2.1, outcome.2.2) := by
    simp only [step, stepBy, idle, rests.next first]
    rfl
  rw [done]
  exact ⟨by rw [loop_note, loop_setLoop], rfl⟩

/-- A command that concerns neither the node nor the timers leaves a loop at rest. -/
theorem rests_step {queue : List (Command ExchangeCallback)} (rests : (x.loop role).Rests channel)
    (first : channel.queue = command :: queue)
    (aside : command.forLoop = true ∨ ∃ ticket, command = .countPending ticket) :
    ((x.step role).1.loop role).Rests { channel with queue } ∧ (x.step role).2 = .worked := by
  obtain ⟨after, turn⟩ := step_of_rests rests first
  rw [after, turn]
  rcases aside with skips | ⟨ticket, rfl⟩
  · cases command with
    | stopWhen | flush => exact ⟨{ rests with channel := rfl }, rfl⟩
    | request | callLater | countPending | shutdown => cases skips
  · exact ⟨{ rests with channel := rfl }, rfl⟩

end NamedData.Exchange
