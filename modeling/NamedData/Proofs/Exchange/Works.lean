import NamedData.Proofs.Exchange.Desk
import NamedData.Proofs.Loop.Turn
import NamedData.Proofs.Table.Marks

/-!
Every step of a loop of an exchange is of one of the kinds that its desk knows.
-/
namespace NamedData.EventLoop

variable {κ : Type} {l after : EventLoop κ LinkEnd} {config : FaceConfig} {side : Side}
variable {events : List (Event κ)}

/-- A node that does part of its work leaves its loop in order. -/
theorem Tame.withEngine {e : Engine κ Outbox LinkEnd} (tame : l.Tame config side)
    (node : e.node.config = l.engine.node.config ∧ e.node.format = l.engine.node.format ∧
      e.node.scheduler = l.engine.node.scheduler)
    (transport : e.transport.side = l.engine.transport.side ∧
      e.transport.faults = l.engine.transport.faults)
    (batches : e.frames.flatMap Frame.calls = [])
    (below : ∀ outer, .reading :: outer <:+ e.frames → outer = []) :
    Tame config side { l with engine := e } where
  config := node.1.trans tame.config
  format := node.2.1.trans tame.format
  side := transport.1.trans tame.side
  faults := transport.2.trans tame.faults
  batches := batches
  below := below
  calls call member := by
    have same : EventLoop.calls { l with engine := e } = l.calls := by
      rw [EventLoop.calls, EventLoop.calls, node.2.2]
    rw [same] at member
    exact tame.calls call member
  tasks := tame.tasks
  queue := tame.queue
  face := tame.face
  loopExists := tame.loopExists
  commandsOpen := tame.commandsOpen

/-- Of the frames that a node has yet to come back to, only the outermost reads. -/
theorem below_cons {frame : Frame κ} {frames : List (Frame κ)}
    (other : frame = .reading → frames = []) (below : ∀ outer, .reading :: outer <:+ frames → outer = []) :
    ∀ outer, .reading :: outer <:+ frame :: frames → outer = [] := by
  intro outer suffix
  rcases List.suffix_cons_iff.mp suffix with same | within
  · obtain ⟨rfl, rfl⟩ := List.cons.inj same
    exact other rfl
  · exact below outer within

/-- A step in which nothing is refused, counted or told. -/
theorem Works.quiet {turn : Turn} (step : l.desk.Step config side .rest after.desk)
    (tame : after.Tame config side) (refused : NamedData.refusals events = 0)
    (counted : events.filterMap Event.pending? = []) (goesOn : ∀ exit, turn ≠ .exited exit) :
    l.Works config side .rest (after, events, turn) where
  step := step
  tame := tame
  refusals := refused
  counts := counted
  expires := nofun
  ends exit ended := absurd ended (goesOn exit)

/-- A node may go on with its work without anything to be seen of it. -/
theorem Works.still {frames : List (Frame κ)} (tame : l.Tame config side)
    (work : frames.flatMap Frame.work = l.engine.frames.flatMap Frame.work)
    (batches : frames.flatMap Frame.calls = [])
    (below : ∀ outer, .reading :: outer <:+ frames → outer = [])
    (refused : NamedData.refusals events = 0) (counted : events.filterMap Event.pending? = []) :
    l.Works config side .rest ({ l with engine := { l.engine with frames } }, events, .worked) := by
  have same : EventLoop.desk { l with engine := { l.engine with frames } } = l.desk := by
    rw [EventLoop.desk, EventLoop.desk, work]
    rfl
  refine .quiet ?_ (tame.withEngine ⟨rfl, rfl, rfl⟩ ⟨rfl, rfl⟩ batches below) refused counted (by simp)
  rw [same]
  exact .rest

/-- An element that has arrived is dispatched. -/
theorem Works.dispatch {element : Bytes} {link : Link} (tame : l.Tame config side)
    (frames : l.engine.frames = [.reading])
    (arrived : l.engine.transport.link.receive side = (.element element, link)) :
    l.Works config side .rest
      ({ l with
        engine := (Engine.dispatch
          { l.engine with transport := { l.engine.transport with link } } element).1 },
      (Engine.dispatch { l.engine with transport := { l.engine.transport with link } } element).2,
      .worked) := by
  have same : l.engine.node.format.decode element = jsonFormat.decode element := by rw [tame.format]
  have idle : l.desk.work = [] := by simp [desk, frames, Frame.work]
  have below : ∀ outer, .reading :: outer <:+ [(.reading : Frame κ)] → outer = [] :=
    below_cons (fun _ => rfl) (by simp)
  cases decoded : jsonFormat.decode element with
  | error error =>
    simp only [Engine.dispatch, same, decoded]
    have looked : l.desk.Step config side .rest
        { l.desk with link := (l.engine.transport.link.receive side).2 } := .look (by
      intro other found
      change (l.engine.transport.link.receive side).1 = _ at found
      rw [arrived] at found
      cases found
      exact ⟨error, decoded⟩)
    rw [arrived] at looked
    exact .quiet looked (tame.withEngine ⟨rfl, rfl, rfl⟩ ⟨rfl, rfl⟩ tame.batches tame.below) rfl rfl
      (by simp)
  | ok packet =>
    simp only [Engine.dispatch, same, decoded, Engine.push, frames]
    cases packet with
    | interest interest =>
      have taken : l.desk.Step config side .rest _ := .take idle arrived decoded
      refine .quiet ?_ (tame.withEngine ⟨rfl, rfl, rfl⟩ ⟨rfl, rfl⟩ rfl (below_cons (by simp) below)) rfl rfl
        (by simp)
      simpa [desk, Frame.work, EventLoop.calls, FilterTable.matching] using taken
    | data data =>
      have marked : (l.engine.node.pending.extractMatching l.engine.host.marks data.name).2.2.next =
          l.engine.host.marks.next := by
        rw [PendingTable.extractMatching_eq]
        exact Marks.next_removeAll ..
      have read : l.desk.Step config side .rest _ := .read idle arrived decoded marked
      refine .quiet ?_ (tame.withEngine ⟨rfl, rfl, rfl⟩ ⟨rfl, rfl⟩ rfl (below_cons (by simp) below)) rfl rfl
        (by simp)
      simpa [desk, Frame.work, EventLoop.calls, PendingTable.extractMatching_eq, PendingTable.strike] using read

/-- What an end of a link is told that has found something. -/
def told : Link.Arrival → Except TransportError (Option Bytes)
  | .element octets => .ok (some octets)
  | .nothing => .ok none
  | .closed => .error .closed

/-- An end of a link that nothing strikes finds what the link has for it. -/
theorem Tame.receive {arrival : Link.Arrival} {link : Link} (tame : l.Tame config side)
    (received : l.engine.transport.link.receive side = (arrival, link)) :
    Transport.receive l.engine.transport = (told arrival, { l.engine.transport with link }) := by
  rw [← tame.side] at received
  simp only [Transport.receive, LinkEnd.receive, tame.faults, received]
  cases arrival <;> rfl

/-- A node that does the next bit of its unfinished work. -/
theorem Works.advance {engine : Engine κ Outbox LinkEnd} (tame : l.Tame config side)
    (advanced : l.engine.advance = some (engine, events)) :
    l.Works config side .rest ({ l with engine }, events, .worked) := by
  have batches := tame.batches
  have below := tame.below
  cases frames : l.engine.frames with
  | nil =>
    rw [Engine.advance, frames] at advanced
    cases advanced
  | cons frame outer =>
    rw [frames, List.flatMap_cons, List.append_eq_nil_iff] at batches
    rw [frames] at below
    have outside : ∀ more, .reading :: more <:+ outer → more = [] := fun more suffix =>
      below more (suffix.trans (List.suffix_cons ..))
    rw [Engine.advance, frames] at advanced
    cases frame with
    | inside call => cases advanced
    | reading =>
      obtain rfl := below outer (List.suffix_refl _)
      rcases received : l.engine.transport.link.receive side with ⟨arrival, link⟩
      -- Whatever else is found, the node goes on to the calls that are due, and there are none.
      have ends (nothing : ∀ element, arrival ≠ .element element) (seen : List (Event κ))
          (refused : NamedData.refusals seen = 0) (counted : seen.filterMap Event.pending? = []) :
          l.Works config side .rest
            ({ l with engine := { l.engine with
              transport := { l.engine.transport with link }
              frames := [.running []] } }, seen, .worked) := by
        have looked : l.desk.Step config side .rest
            { l.desk with link := (l.engine.transport.link.receive side).2 } := .look (by
          intro element found
          change (l.engine.transport.link.receive side).1 = _ at found
          rw [received] at found
          exact absurd found (nothing element))
        rw [received] at looked
        have ended := tame.withEngine (e := { l.engine with
          transport := { l.engine.transport with link }, frames := [.running []] })
          ⟨rfl, rfl, rfl⟩ ⟨rfl, rfl⟩ rfl (below_cons (by simp) outside)
        refine .quiet ?_ ended refused counted (by simp)
        simpa [desk, frames, Frame.work, EventLoop.calls] using looked
      simp only [tame.receive received] at advanced
      cases arrival with
      | element octets =>
        have works := Works.dispatch tame frames received
        have done := Option.some.inj advanced
        rw [← frames] at done
        rwa [done] at works
      | nothing | closed =>
        cases advanced
        exact ends (by simp) _ rfl rfl
    | running calls =>
      cases calls with
      | nil =>
        cases advanced
        exact .still tame (by simp [frames, Frame.work]) batches.2 outside rfl rfl
      | cons call calls => cases batches.1
    | offering interest entries | delivering data entries =>
      cases entries with
      | nil =>
        cases advanced
        exact .still tame (by simp [frames, Frame.work]) batches.2 outside rfl rfl
      | cons entry entries =>
        cases advanced
        exact .still tame (by simp [frames, Frame.work]) batches.2
          (below_cons (by simp) (below_cons (by simp) outside)) rfl rfl

/-! ## Turns -/

/-- A loop of an exchange has the same on its desk when its timers have been armed. -/
theorem Tame.collect (tame : l.Tame config side) (armed : l.armNodeCalls? = some after) :
    after.Tame config side ∧ after.desk = l.desk ∧ after.engine.frames = l.engine.frames := by
  have same := calls_of_armNodeCalls? armed
  obtain ⟨timers, rfl, fresh⟩ := eq_of_armNodeCalls? armed
  have kept : EventLoop.desk { l with engine := collected l.engine, timers := l.timers ++ timers } =
      l.desk := by
    rw [EventLoop.desk, EventLoop.desk, same]
    rfl
  refine ⟨?_, kept, rfl⟩
  exact {
    config := tame.config
    format := tame.format
    side := tame.side
    faults := tame.faults
    batches := tame.batches
    below := tame.below
    calls := fun call member => tame.calls call (same ▸ member)
    tasks := by
      intro timer member callback is
      rcases List.mem_append.mp member with old | new
      · exact tame.tasks timer old callback is
      · obtain ⟨call, -, named⟩ := fresh timer new
        exact nomatch named.symm.trans is
    queue := tame.queue
    face := tame.face
    loopExists := tame.loopExists
    commandsOpen := tame.commandsOpen }

/-- A loop of an exchange that has taken a command from its queue. -/
theorem Tame.taken {command : Command κ} {queue : List (Command κ)} (tame : l.Tame config side)
    (first : l.channel.queue = command :: queue) :
    Tame config side { l with channel := { l.channel with queue } } where
  config := tame.config
  format := tame.format
  side := tame.side
  faults := tame.faults
  batches := tame.batches
  below := tame.below
  calls := tame.calls
  tasks := tame.tasks
  queue other member := tame.queue other (first ▸ List.mem_cons_of_mem _ member)
  face := tame.face
  loopExists := tame.loopExists
  commandsOpen := tame.commandsOpen

/-- An end of a link that nothing strikes sends what the link takes. -/
theorem Tame.send (tame : l.Tame config side) (element : Bytes) :
    ∃ outcome, Transport.send l.engine.transport element =
      (outcome, { l.engine.transport with link := l.engine.transport.link.handed side element }) := by
  simp only [Transport.send, LinkEnd.send, tame.faults, tame.side, Link.handed]
  cases l.engine.transport.link.send? side element with
  | none => exact ⟨_, by rw [← tame.side, ← tame.faults]; rfl⟩
  | some link => exact ⟨_, by rw [← tame.side, ← tame.faults]; rfl⟩

/-- A packet is encoded unless that makes it too long. -/
theorem Tame.encode (tame : l.Tame config side) (packet : Packet) : l.engine.encode packet =
    if config.maxPacketSize.toNat < packet.toJson.length then
      .error (.packetTooLarge packet.toJson.length config.maxPacketSize.toNat)
    else .ok packet.toJson := by
  rw [Engine.encode, tame.format, tame.config]
  rfl

section express

variable {id : EntryId} {interest sent : Interest} {onData onTimeout : κ} {queue : List (Command κ)}
variable {span : Duration} {host : Host}

/-- An interest that is too long is refused. -/
theorem Works.refuse (tame : l.Tame config side)
    (first : l.channel.queue = .request (.express id interest onData (some onTimeout)) :: queue)
    (completed : interest.completed config l.engine.host = (sent, span, host))
    (long : config.maxPacketSize.toNat < (Packet.interest sent).toJson.length) :
    l.Works config side .refuse
      (execute { l with channel := { l.channel with queue } }
        (.request (.express id interest onData (some onTimeout)))) := by
  have left := tame.taken first
  have named : interest.completed l.engine.node.config l.engine.host = (sent, span, host) := by
    rw [tame.config, completed]
  have refused : l.desk.Step config side .refuse
      { l.desk with queue, host := (interest.completed config l.engine.host).2.2 } := .refuse first (by
    change config.maxPacketSize.toNat <
      (Packet.interest (interest.completed config l.engine.host).1).toJson.length
    rwa [completed])
  rw [completed] at refused
  have outcome : execute { l with channel := { l.channel with queue } }
      (.request (.express id interest onData (some onTimeout))) =
      ({ l with channel := { l.channel with queue }, engine := { l.engine with host } },
        [.logged (.expressFailed id (.packetTooLarge (Packet.interest sent).toJson.length
          config.maxPacketSize.toNat))], .worked) := by
    simp only [execute, Engine.request, Engine.express, named, tame.encode, if_pos long]
    rfl
  rw [outcome]
  exact ⟨refused, left.withEngine ⟨rfl, rfl, rfl⟩ ⟨rfl, rfl⟩ left.batches left.below, rfl, rfl, (by simp), (by simp)⟩

/-- An interest that is not too long is expressed. -/
theorem Works.express (tame : l.Tame config side)
    (first : l.channel.queue = .request (.express id interest onData (some onTimeout)) :: queue)
    (completed : interest.completed config l.engine.host = (sent, span, host))
    (fits : (Packet.interest sent).toJson.length ≤ config.maxPacketSize.toNat) :
    l.Works config side .rest
      (execute { l with channel := { l.channel with queue } }
        (.request (.express id interest onData (some onTimeout)))) := by
  have left := tame.taken first
  have named : interest.completed l.engine.node.config l.engine.host = (sent, span, host) := by
    rw [tame.config, completed]
  have marks : host.marks = l.engine.host.marks := by
    have same := Interest.marks_completed interest config l.engine.host
    rwa [completed] at same
  obtain ⟨sending, sends⟩ := tame.send (Packet.interest sent).toJson
  let entry : PendingInterest κ := ⟨l.engine.host.marks.next, id, sent, onData, some onTimeout⟩
  let after : EventLoop κ LinkEnd :=
    { l with
      channel := { l.channel with queue }
      engine := { l.engine with
        host := { host with marks := l.engine.host.marks.issue }
        transport := { l.engine.transport with
          link := l.engine.transport.link.handed side (Packet.interest sent).toJson }
        node := { l.engine.node with
          pending := ⟨l.engine.node.pending.entries ++ [entry]⟩
          scheduler := ⟨l.engine.node.scheduler.calls ++ [(span, .timeout entry)]⟩ } } }
  have more : after.calls = l.calls + {.timeout entry} := by
    simp only [EventLoop.calls, after, List.map_append, List.map_cons, List.map_nil,
      ← Multiset.coe_add, Multiset.coe_singleton]
    abel
  have outcome : ∃ seen : List (Event κ), NamedData.refusals seen = 0 ∧
      seen.filterMap Event.pending? = [] ∧
      execute { l with channel := { l.channel with queue } }
        (.request (.express id interest onData (some onTimeout))) = (after, seen, .worked) := by
    simp only [execute, Engine.request, Engine.express, named, tame.encode,
      if_neg (Nat.not_lt.mpr fits), PendingTable.add, Scheduler.callLater?, Engine.transmit, sends, marks]
    cases sending with
    | ok => exact ⟨_, rfl, rfl, rfl⟩
    | error cause => exact ⟨_, rfl, rfl, rfl⟩
  obtain ⟨seen, refused, counted, outcome⟩ := outcome
  rw [outcome]
  refine .quiet ?_ ?_ refused counted (by simp)
  · have same : after.desk = { after.desk with calls := l.calls + {.timeout entry} } := by
      rw [← more]
      rfl
    rw [same]
    refine Desk.Step.express first ?_ (?_ : entry = _) ?_
    · change (Packet.interest (interest.completed config l.engine.host).1).toJson.length ≤ _
      rwa [completed]
    · change entry = ⟨_, _, (interest.completed config l.engine.host).1, _, _⟩
      rw [completed]
      rfl
    · change after.engine.host =
        { (interest.completed config l.engine.host).2.2 with marks := l.engine.host.marks.issue }
      rw [completed]
  · exact {
      config := tame.config
      format := tame.format
      side := tame.side
      faults := tame.faults
      batches := tame.batches
      below := tame.below
      calls := by
        intro call member
        rw [more, Multiset.mem_add, Multiset.mem_singleton] at member
        rcases member with old | rfl
        · exact tame.calls call old
        · exact ⟨entry, rfl, rfl⟩
      tasks := tame.tasks
      queue := left.queue
      face := tame.face
      loopExists := tame.loopExists
      commandsOpen := tame.commandsOpen }

end express

/-- A prefix is registered with a callback. -/
theorem Works.register {id : EntryId} {root : Name} {onInterest onFailed : κ}
    {options : RegistrationOptions} {queue : List (Command κ)} (tame : l.Tame config side)
    (first : l.channel.queue = .request (.register id root (some onInterest) onFailed options) :: queue) :
    l.Works config side .rest
      (execute { l with channel := { l.channel with queue } }
        (.request (.register id root (some onInterest) onFailed options))) := by
  have left := tame.taken first
  have granted : Transport.register l.engine.transport root options = (.ok (), l.engine.transport) := by
    simp [Transport.register, LinkEnd.register, tame.faults]
  simp only [execute, Engine.request, Engine.register, granted]
  exact .quiet (.register first) (left.withEngine ⟨rfl, rfl, rfl⟩ ⟨rfl, rfl⟩ left.batches left.below)
    rfl rfl (by simp)

/-- A node that does nothing has no calls to make. -/
theorem work_of_rest (rest : l.engine.frames = []) : l.desk.work = [] := by
  simp [desk, rest]

/-- A node is shut down. -/
theorem Works.shutdown {queue : List (Command κ)} (tame : l.Tame config side)
    (rest : l.engine.frames = []) (first : l.channel.queue = .shutdown :: queue) :
    l.Works config side .leave (execute { l with channel := { l.channel with queue } } .shutdown) where
  step := by
    obtain rfl := tame.side
    exact .shutdown first (work_of_rest rest) (Marks.next_removeAll _ l.engine.node.pending.entries)
  tame := by
    have left := (tame.taken first).withEngine
      (e := (l.engine.shutdown).1) ⟨rfl, rfl, rfl⟩ ⟨rfl, rfl⟩ tame.batches tame.below
    exact { left with }
  refusals := rfl
  counts := rfl
  expires := nofun
  ends := by
    rintro exit ⟨⟩
    exact .leave

/-- A command is executed. -/
theorem Works.execute {command : Command κ} {queue : List (Command κ)} (tame : l.Tame config side)
    (rest : l.engine.frames = []) (first : l.channel.queue = command :: queue) :
    ∃ deed, deed.told? = none ∧ l.Works config side deed
      (EventLoop.execute { l with channel := { l.channel with queue } } command) := by
  have left := tame.taken first
  have known : command.ofExchange = true := tame.queue command (first ▸ List.mem_cons_self)
  cases command with
  | request request =>
    cases request with
    | express id interest onData onTimeout =>
      cases onTimeout with
      | none => cases known
      | some onTimeout =>
        rcases completed : interest.completed config l.engine.host with ⟨sent, span, host⟩
        rcases Nat.lt_or_ge config.maxPacketSize.toNat (Packet.interest sent).toJson.length with
          long | fits
        · exact ⟨_, rfl, .refuse tame first completed long⟩
        · exact ⟨_, rfl, .express tame first completed fits⟩
    | register id root onInterest onFailed options =>
      cases onInterest with
      | none => cases known
      | some onInterest => exact ⟨_, rfl, .register tame first⟩
    | removePending | removeRegistered | setFilter | unsetFilter | putData | send => cases known
  | stopWhen predicate =>
    exact ⟨.rest, rfl, .quiet (.skip first rfl) { left with } rfl rfl (by simp)⟩
  | flush ticket => exact ⟨.rest, rfl, .quiet (.skip first rfl) left rfl rfl (by simp)⟩
  | countPending ticket => exact ⟨_, rfl, .count first, left, rfl, rfl, nofun, nofun⟩
  | shutdown => exact ⟨_, rfl, .shutdown tame rest first⟩
  | callLater => cases known

/-- A loop of an exchange that has taken off a timer. -/
theorem Tame.fired {timer : Timer κ} {timers : List (Timer κ)} (tame : l.Tame config side)
    (perm : (timer :: timers).Perm l.timers) : Tame config side { l with timers } := by
  have part : timers ⊆ l.timers := fun other member => perm.subset (List.mem_cons_of_mem _ member)
  exact {
    config := tame.config
    format := tame.format
    side := tame.side
    faults := tame.faults
    batches := tame.batches
    below := tame.below
    calls := by
      intro call member
      refine tame.calls call (mem_calls.mpr ?_)
      exact (mem_calls.mp member).imp_right fun ⟨other, armed, is⟩ => ⟨other, part armed, is⟩
    tasks := fun other member => tame.tasks other (part member)
    queue := tame.queue
    face := tame.face
    loopExists := tame.loopExists
    commandsOpen := tame.commandsOpen }

/-- The call that a timer was armed for is no longer kept when the timer has been taken off. -/
theorem calls_of_fired {timer : Timer κ} {timers : List (Timer κ)} (perm : (timer :: timers).Perm l.timers) :
    l.calls = ↑timer.task.call?.toList + EventLoop.calls { l with timers } := by
  have same : (↑(l.timers.filterMap (·.task.call?)) : Multiset (NodeCall κ)) =
      ↑timer.task.call?.toList + ↑(timers.filterMap (·.task.call?)) := by
    rw [← Multiset.coe_eq_coe.mpr (perm.filterMap _), Multiset.coe_add]
    cases call : timer.task.call? <;> simp [call]
  rw [EventLoop.calls, EventLoop.calls, same]
  abel

/-- A timer that was armed for nothing of the node changes nothing on the desk. -/
theorem desk_of_fired {timer : Timer κ} {timers : List (Timer κ)} (perm : (timer :: timers).Perm l.timers)
    (other : timer.task.call? = none) : EventLoop.desk { l with timers } = l.desk := by
  have same := calls_of_fired perm
  rw [other] at same
  change l.calls = 0 + _ at same
  rw [zero_add] at same
  rw [desk, desk, same]

/-- A service is armed again. -/
theorem Tame.arm {delay : Duration} {task : Task κ} (tame : l.Tame config side)
    (service : task.call? = none) (own : ∀ callback, task ≠ .callback callback)
    (armed : l.arm? delay task = some after) :
    after.Tame config side ∧ after.desk = l.desk ∧ after.engine = l.engine := by
  obtain ⟨deadline, rfl⟩ := eq_of_arm? armed
  have same : EventLoop.calls { l with timers := l.timers ++ [{ deadline, task }] } = l.calls := by
    simp [EventLoop.calls, service]
  refine ⟨?_, by rw [desk, desk, same], rfl⟩
  exact {
    config := tame.config
    format := tame.format
    side := tame.side
    faults := tame.faults
    batches := tame.batches
    below := tame.below
    calls := fun call member => tame.calls call (same ▸ member)
    tasks := by
      intro timer member
      rcases List.mem_append.mp member with old | new
      · exact tame.tasks timer old
      · rw [List.mem_singleton.mp new]
        exact own
    queue := tame.queue
    face := tame.face
    loopExists := tame.loopExists
    commandsOpen := tame.commandsOpen }

/-- Loops with the same on their desks do the same. -/
theorem Works.of_desk {other : EventLoop κ LinkEnd} {deed : Deed κ}
    {outcome : EventLoop κ LinkEnd × List (Event κ) × Turn} (works : l.Works config side deed outcome)
    (same : l.desk = other.desk) : other.Works config side deed outcome :=
  { works with step := same ▸ works.step }

/-- A run that goes on with nothing new on the desk. -/
theorem Works.idle {turn : Turn} (same : after.desk = l.desk) (tame : after.Tame config side)
    (goesOn : ∀ exit, turn ≠ .exited exit) : l.Works config side .rest (after, [], turn) := by
  refine .quiet ?_ tame rfl rfl goesOn
  rw [same]
  exact .rest

/-- The next poll is armed, if the clock reaches it. -/
theorem Tame.rearmPoll (tame : l.Tame config side) :
    ∃ after turn, l.rearmPoll = (after, [], turn) ∧ after.Tame config side ∧ after.desk = l.desk ∧
      ∀ exit, turn ≠ .exited exit := by
  rw [EventLoop.rearmPoll]
  cases armed : l.arm? l.engine.node.config.stopWhenInterval .pollPredicate with
  | none => exact ⟨_, _, rfl, tame, rfl, (by simp)⟩
  | some after =>
    obtain ⟨left, same, -⟩ := tame.arm rfl (by simp) armed
    exact ⟨_, _, rfl, { left with }, same, (by simp)⟩

/-- A timeout comes, in time or too late. -/
theorem Works.timeout {timer : Timer κ} {timers : List (Timer κ)} {entry : PendingInterest κ}
    (tame : l.Tame config side) (rest : l.engine.frames = []) (perm : (timer :: timers).Perm l.timers)
    (is : timer.task = .node (.timeout entry)) :
    ∃ deed, deed.told? = none ∧
      l.Works config side deed (runTask { l with timers } (.node (.timeout entry))) := by
  have left := tame.fired perm
  have idle := work_of_rest rest
  have due : l.desk.calls = .timeout entry ::ₘ EventLoop.calls { l with timers } := by
    have taken := calls_of_fired perm
    rwa [is] at taken
  obtain ⟨onTimeout, own⟩ : ∃ onTimeout, entry.onTimeout = some onTimeout := by
    obtain ⟨other, same, waited⟩ := tame.calls (.timeout entry) (by
      change _ ∈ l.desk.calls
      rw [due]
      exact Multiset.mem_cons_self ..)
    cases same
    exact Option.isSome_iff_exists.mp waited
  rcases removal : l.engine.node.pending.removeEntry l.engine.host.marks entry.handle with
    ⟨removed, pending, marks⟩
  by_cases waits : l.engine.host.marks.isRemoved entry.handle = false ∧
      (l.engine.node.pending.entries.any fun other => other.handle == entry.handle) = true
  · have removal : l.engine.node.pending.removeEntry l.engine.host.marks entry.handle =
        (true, ⟨l.engine.node.pending.entries.eraseP fun other => other.handle == entry.handle⟩,
          l.engine.host.marks.remove entry.handle) := by
      simp [PendingTable.removeEntry, waits.1, waits.2]
    obtain ⟨other, member, same⟩ := List.any_eq_true.mp waits.2
    simp only [runTask, Engine.run, removal, own, Engine.invoke, Engine.push, rest]
    refine ⟨.expire entry, rfl, ?_, ?_, rfl, rfl, ?_, (by simp)⟩
    · exact .expire idle due own ⟨other, member, beq_iff_eq.mp same⟩ (Marks.next_remove ..)
    · exact left.withEngine ⟨rfl, rfl, rfl⟩ ⟨rfl, rfl⟩ rfl (below_cons (by simp) (by simp))
    · rintro _ ⟨⟩
      exact ⟨onTimeout, List.mem_singleton.mpr rfl⟩
  · have removal : l.engine.node.pending.removeEntry l.engine.host.marks entry.handle =
        (false, l.engine.node.pending, l.engine.host.marks) := by
      rw [PendingTable.removeEntry]
      split
      · rfl
      · next unmarked =>
        split
        · next found => exact absurd ⟨Bool.eq_false_iff.mpr unmarked, found⟩ waits
        · rfl
    simp only [runTask, Engine.run, removal]
    refine ⟨.rest, rfl, .quiet ?_ left rfl rfl (by simp)⟩
    exact .lapse due

/-- The task of a timer is run. -/
theorem Works.runTask {timer : Timer κ} {timers : List (Timer κ)} (tame : l.Tame config side)
    (rest : l.engine.frames = []) (quiet : l.channel.queue = []) (armed : timer ∈ l.timers)
    (perm : (timer :: timers).Perm l.timers) :
    ∃ deed, deed.told? = none ∧
      l.Works config side deed (EventLoop.runTask { l with timers } timer.task) := by
  have left := tame.fired perm
  cases is : timer.task with
  | processEvents =>
    have same := desk_of_fired perm (by rw [is]; rfl)
    rw [EventLoop.runTask]
    split
    · cases again : arm? { l with timers } l.engine.node.config.processEventsInterval .processEvents with
      | none => exact ⟨.rest, rfl, .idle same left (by simp)⟩
      | some after =>
        obtain ⟨kept, desk, engine⟩ := left.arm rfl (by simp) again
        have none : after.engine.frames = [] := by rw [engine]; exact rest
        refine ⟨.rest, rfl, .idle ?_ ?_ (by simp)⟩
        · rw [← same, ← desk]
          simp [EventLoop.desk, Engine.push, none, Frame.work, EventLoop.calls]
        · refine kept.withEngine ⟨rfl, rfl, rfl⟩ ⟨rfl, rfl⟩ ?_ ?_
          · simp [Engine.push, none, Frame.calls]
          · exact below_cons (fun _ => none) kept.below
    · exact ⟨.rest, rfl, .idle same left (by simp)⟩
  | pollPredicate =>
    have same := desk_of_fired perm (by rw [is]; rfl)
    have unarmed : Tame config side { l with timers, pollArmed := false } := { left with }
    rw [EventLoop.runTask]
    dsimp only
    split
    · split
      · obtain ⟨after, turn, outcome, kept, still, goesOn⟩ := unarmed.rearmPoll
        rw [outcome]
        exact ⟨.rest, rfl, .idle (still.trans same) kept goesOn⟩
      · next predicate index _ =>
        simp only [Engine.invoke, Engine.push, rest]
        refine ⟨.rest, rfl, .quiet ?_ ?_ rfl rfl (by simp)⟩
        · have polled : l.desk.Step config side .rest { l.desk with work := [.poll predicate index] } :=
            .poll quiet (work_of_rest rest)
          rw [← same] at polled
          rw [← same]
          exact polled
        · exact { unarmed.withEngine (e := { l.engine with frames := [.inside (.poll predicate index)] })
            ⟨rfl, rfl, rfl⟩ ⟨rfl, rfl⟩ rfl (below_cons (by simp) (by simp)) with }
    · exact ⟨.rest, rfl, .idle same unarmed (by simp)⟩
  | node call =>
    cases call with
    | timeout entry => exact Works.timeout tame rest perm is
    | callback callback =>
      have kept : .callback callback ∈ l.calls := mem_calls.mpr (.inr ⟨timer, armed, is⟩)
      obtain ⟨_, same, -⟩ := tame.calls _ kept
      cases same
  | callback callback => exact absurd is (tame.tasks timer armed callback)

/-! ## Steps -/

/-- A turn of a loop of an exchange. -/
theorem Works.turnBy {pick : List (Timer κ) → Option (Timer κ × List (Timer κ))} (lawful : LawfulPick pick)
    (tame : l.Tame config side) (rest : l.engine.frames = []) :
    ∃ deed, deed.told? = none ∧ l.Works config side deed (l.turnBy pick) := by
  cases armed : l.armNodeCalls? with
  | none =>
    rw [turnBy_of_none armed]
    exact ⟨.rest, rfl, .idle rfl tame (by simp)⟩
  | some ready =>
    obtain ⟨left, same, frames⟩ := tame.collect armed
    rw [rest] at frames
    rw [turnBy_of_some armed]
    suffices ∃ deed, deed.told? = none ∧
        ready.Works config side deed (ready.carryOut (ready.choose pick)) by
      obtain ⟨deed, silent, works⟩ := this
      exact ⟨deed, silent, works.of_desk same⟩
    cases chosen : ready.choose pick with
    | command command queue => exact Works.execute left frames (queue_of_command chosen).2
    | close => exact absurd left.face (by simp [(hasFace_of_close chosen).2])
    | timer task timers =>
      obtain ⟨first, rfl, perm⟩ := perm_of_timer lawful chosen
      have none := queue_eq_nil chosen (by simp) left.commandsOpen
      exact Works.runTask left frames none (perm.subset List.mem_cons_self) perm
    | wait wake => exact ⟨.rest, rfl, .idle rfl left (by simp)⟩
    | idle =>
      have shut := ((choose_eq_idle_iff lawful).mp chosen).1
      exact absurd left.commandsOpen (by simp [shut])

/-- **A step of a loop of an exchange is of one of the kinds that its desk knows.** -/
theorem Works.stepBy? {pick : List (Timer κ) → Option (Timer κ × List (Timer κ))}
    {outcome : EventLoop κ LinkEnd × List (Event κ) × Turn} (lawful : LawfulPick pick)
    (tame : l.Tame config side) (stepped : l.stepBy? pick = some outcome) :
    ∃ deed, deed.told? = none ∧ l.Works config side deed outcome := by
  rw [EventLoop.stepBy?] at stepped
  split at stepped
  · next rest =>
    obtain rfl := Option.some.inj stepped
    exact Works.turnBy lawful tame rest
  · obtain ⟨⟨engine, seen⟩, advanced, rfl⟩ := Option.map_eq_some_iff.mp stepped
    exact ⟨.rest, rfl, .advance tame advanced⟩

/-- When a callback returns nothing is seen but that it has failed. -/
theorem seen_of_resume (e : Engine κ Outbox LinkEnd) (result : CallbackResult) :
    (e.resume result).2 = [] ∨
      ∃ place error, (e.resume result).2 = [.logged (.callbackFailed place error)] := by
  rw [Engine.resume.eq_def]
  split
  · next call outer _ =>
    cases call.place? with
    | none => exact .inl rfl
    | some place =>
      cases result with
      | ok => exact .inl rfl
      | error error => exact .inr ⟨place, error, rfl⟩
  · exact .inl rfl

/-- **The callback on top returns.** A run ends with it only if it is the stop predicate and holds. -/
theorem Works.resume {call : Call κ} (tame : l.Tame config side) (inside : l.engine.current? = some call)
    (verdict : Except CallbackError Bool) :
    l.Works config side (.tell call) (l.resume verdict) ∧
      ∀ exit, (l.resume verdict).2.2 = .exited exit → verdict = .ok true := by
  obtain ⟨outer, frames⟩ := Engine.frames_of_current? inside
  have told : l.desk.Step config side (.tell call)
      (EventLoop.desk { l with engine := { l.engine with frames := outer } }) := by
    apply Desk.Step.tell
    simp [desk, frames, Frame.work]
  have below : ∀ more, .reading :: more <:+ outer → more = [] := fun more suffix =>
    tame.below more (frames ▸ suffix.trans (List.suffix_cons ..))
  have batches : outer.flatMap Frame.calls = [] := by
    have whole := tame.batches
    rw [frames, List.flatMap_cons, List.append_eq_nil_iff] at whole
    exact whole.2
  have left := tame.withEngine (e := { l.engine with frames := outer }) ⟨rfl, rfl, rfl⟩ ⟨rfl, rfl⟩
    batches below
  have done {turn : Turn} {after : EventLoop κ LinkEnd} {seen : List (Event κ)}
      (same : after.desk = EventLoop.desk { l with engine := { l.engine with frames := outer } })
      (tame : after.Tame config side) (refused : NamedData.refusals seen = 0)
      (counted : seen.filterMap Event.pending? = [])
      (ends : ∀ exit, turn = .exited exit → Deed.Ends (.tell call) exit) :
      l.Works config side (.tell call) (after, seen, turn) :=
    ⟨same ▸ told, tame, refused, counted, (by simp), ends⟩
  obtain ⟨after, turn, outcome, kept, still, goesOn⟩ := left.rearmPoll
  rw [EventLoop.resume, inside]
  split
  · next predicate index polled =>
    cases polled
    simp only [frames, List.tail_cons]
    cases verdict with
    | error error =>
      simp only [outcome]
      exact ⟨done still kept rfl rfl fun exit ended => absurd ended (goesOn exit),
        fun exit ended => absurd ended (goesOn exit)⟩
    | ok holds =>
      cases holds with
      | false =>
        simp only [outcome]
        exact ⟨done still kept rfl rfl fun exit ended => absurd ended (goesOn exit),
          fun exit ended => absurd ended (goesOn exit)⟩
      | true =>
        refine ⟨done rfl { left with } rfl rfl ?_, fun _ _ => rfl⟩
        rintro exit ⟨⟩
        exact .stop predicate index
  · have kept : (l.engine.resume (verdict.map fun _ => ())).1 = { l.engine with frames := outer } := by
      rw [Engine.resume, frames]
    have seen := seen_of_resume l.engine (verdict.map fun _ => ())
    rcases returned : l.engine.resume (verdict.map fun _ => ()) with ⟨engine, notices⟩
    rw [returned] at kept seen
    obtain rfl := kept
    rcases seen with rfl | ⟨place, error, rfl⟩
    · exact ⟨done rfl left rfl rfl (by simp), (by simp)⟩
    · exact ⟨done rfl left rfl rfl (by simp), (by simp)⟩

end NamedData.EventLoop
