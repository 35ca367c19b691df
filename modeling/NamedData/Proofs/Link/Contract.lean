import NamedData.Link.Transport
import NamedData.Proofs.Run

/-!
What the two ends of a link see of each other.

Whatever is done with the ends, and in whatever order, a direction holds what one end has sent and the
other has not received, and the flags of the link say who has left and who has been told so
(`Link.Recorded`). What an end is told from then on follows from this.
-/
namespace NamedData

/-- What is done with an end of a link. -/
inductive Use where
  | send (element : Bytes)
  | receive
  | close
  | drop

/-- What the holder of an end is told. -/
inductive Reply where
  | sent (outcome : Except TransportError Unit)
  | received (outcome : Except TransportError (Option Bytes))

namespace Side

@[simp] theorem other_other (side : Side) : side.other.other = side := by cases side <;> rfl

end Side

namespace Link

/-! ## Runs of a link -/

/-- What using an end comes to. -/
def use (l : Link) (side : Side) : Use → List Reply × Link
  | .send element =>
    let (outcome, e) := Transport.send ({ link := l, side } : LinkEnd) element
    ([.sent outcome], e.link)
  | .receive =>
    let (outcome, e) := Transport.receive ({ link := l, side } : LinkEnd)
    ([.received outcome], e.link)
  | .close => ([], (Transport.close ({ link := l, side } : LinkEnd)).link)
  | .drop => ([], l.drop side)

/-- A stage of a link: which end was used and how, and what its holder was told. -/
abbrev Stage := NamedData.Stage Link (Side × Use) Reply

/-- The ends may be used in any order. Nothing depends on a dropped end being left alone. -/
def Follows (_ : List Stage) (stage : Stage) : Prop :=
  stage.before.use stage.move.1 stage.move.2 = (stage.events, stage.after)

/-- The runs of a new link. -/
abbrev Run (stages : List Stage) (l : Link) : Prop := NamedData.Run Follows {} stages l

/-- The element that an end sends, if the link takes it. -/
def sent? (side : Side) (stage : Stage) : Option Bytes :=
  match stage.move, stage.events with
  | (user, .send element), [.sent (.ok ())] => if user = side then some element else none
  | _, _ => none

/-- The element that an end receives. -/
def received? (side : Side) (stage : Stage) : Option Bytes :=
  match stage.move, stage.events with
  | (user, .receive), [.received (.ok element)] => if user = side then element else none
  | _, _ => none

/-- Whether an end is closed or dropped. -/
def leaves (side : Side) (stage : Stage) : Bool :=
  match stage.move with
  | (user, .close) | (user, .drop) => decide (user = side)
  | _ => false

/-- Whether an end is told that the other one is gone. -/
def notified (side : Side) (stage : Stage) : Bool :=
  match stage.move, stage.events with
  | (user, .receive), [.received (.error .closed)] => decide (user = side)
  | _, _ => false

/-- What an end has sent, in order. -/
def sent (side : Side) (stages : List Stage) : List Bytes := stages.filterMap (sent? side)

/-- What an end has received, in order. -/
def received (side : Side) (stages : List Stage) : List Bytes := stages.filterMap (received? side)

/-- Whether an end has been closed or dropped. -/
def gone (side : Side) (stages : List Stage) : Bool := stages.any (leaves side)

/-- Whether either end has been closed or dropped. -/
def parted (stages : List Stage) : Bool := gone .left stages || gone .right stages

/-- Whether an end has been told that the other one is gone. -/
def told (side : Side) (stages : List Stage) : Bool := stages.any (notified side)

/-! ## What a link remembers -/

/-- What a link holds is what its run has made of it. -/
structure Recorded (stages : List Stage) (l : Link) : Prop where
  /-- Nothing is lost, doubled or reordered on the way. -/
  lane : ∀ side, sent side stages = received side.other stages ++ (l.lane side).queue
  isOpen : ∀ side, (l.lane side).isOpen = !parted stages
  closed : ∀ side, l.isClosed side = (gone side stages || told side stages)
  /-- An end that has been told has received everything. -/
  drained : ∀ side, told side stages = true →
    gone side.other stages = true ∧ (l.lane side.other).queue = []

variable {l : Link} {stages past future : List Stage} {stage : Stage} {side : Side} {element : Bytes}

theorem sent_concat (side : Side) (stages : List Stage) (stage : Stage) :
    sent side (stages ++ [stage]) = sent side stages ++ (sent? side stage).toList := by
  rw [sent, List.filterMap_append]
  cases found : sent? side stage <;> simp [sent, found]

theorem received_concat (side : Side) (stages : List Stage) (stage : Stage) :
    received side (stages ++ [stage]) = received side stages ++ (received? side stage).toList := by
  rw [received, List.filterMap_append]
  cases found : received? side stage <;> simp [received, found]

theorem gone_concat (side : Side) (stages : List Stage) (stage : Stage) :
    gone side (stages ++ [stage]) = (gone side stages || leaves side stage) := by
  simp [gone]

theorem parted_concat (stages : List Stage) (stage : Stage) :
    parted (stages ++ [stage]) = (parted stages || leaves .left stage || leaves .right stage) := by
  simp only [parted, gone_concat, Bool.or_assoc, Bool.or_left_comm]

theorem parted_of_gone (left : gone side stages = true) : parted stages = true := by
  cases side <;> simp [parted, left]

/-- If somebody has left, it was this end or the other one. -/
theorem parted_eq (side : Side) (stages : List Stage) :
    parted stages = (gone side stages || gone side.other stages) := by
  cases side
  · rfl
  · exact Bool.or_comm ..

theorem told_concat (side : Side) (stages : List Stage) (stage : Stage) :
    told side (stages ++ [stage]) = (told side stages || notified side stage) := by
  simp [told]

/-- The ways in which an end can be used, with what its holder is told and what becomes of the link. -/
inductive Used (l : Link) (side : Side) : Use → List Reply → Link → Prop
  | taken {element : Bytes} (present : l.isClosed side = false) (takes : (l.lane side).isOpen = true) :
      Used l side (.send element) [.sent (.ok ())]
        (l.setLane side { l.lane side with queue := (l.lane side).queue ++ [element] })
  | refused {element : Bytes} (shut : l.isClosed side = true ∨ (l.lane side).isOpen = false) :
      Used l side (.send element) [.sent (.error .closed)] l
  | delivered {element : Bytes} {rest : List Bytes} (present : l.isClosed side = false)
      (waiting : (l.lane side.other).queue = element :: rest) :
      Used l side .receive [.received (.ok (some element))]
        (l.setLane side.other { l.lane side.other with queue := rest })
  | nothing (idle : l.isClosed side = true ∨
        (l.lane side.other).queue = [] ∧ (l.lane side.other).isOpen = true) :
      Used l side .receive [.received (.ok none)] l
  | notified (present : l.isClosed side = false) (drained : (l.lane side.other).queue = [])
      (shut : (l.lane side.other).isOpen = false) :
      Used l side .receive [.received (.error .closed)] (l.setClosed side)
  | left {use : Use} (leaves : use = .close ∨ use = .drop) : Used l side use [] (l.close side)

theorem used (l : Link) (side : Side) (use : Use) :
    Used l side use (l.use side use).1 (l.use side use).2 := by
  cases use with
  | close => exact .left (.inl rfl)
  | drop => exact .left (.inr rfl)
  | send element =>
    simp only [Link.use, Transport.send, LinkEnd.send, send?]
    by_cases shut : (l.isClosed side || !(l.lane side).isOpen) = true
    · rw [if_pos shut]
      exact .refused (by simpa using shut)
    · rw [if_neg shut]
      simp only [Bool.or_eq_true, Bool.not_eq_true', not_or, Bool.not_eq_true,
        Bool.not_eq_false] at shut
      exact .taken shut.1 shut.2
  | receive =>
    simp only [Link.use, Transport.receive, LinkEnd.receive, receive]
    cases present : l.isClosed side with
    | true => exact .nothing (.inl present)
    | false =>
      cases waiting : (l.lane side.other).queue with
      | cons element rest => exact .delivered present waiting
      | nil =>
        cases takes : (l.lane side.other).isOpen with
        | true => exact .nothing (.inr ⟨waiting, takes⟩)
        | false => exact .notified present waiting takes

@[simp] theorem lane_setLane (l : Link) (side other : Side) (lane : Lane) :
    (l.setLane side lane).lane other = if side = other then lane else l.lane other := by
  cases side <;> cases other <;> rfl

/-- To change what is under way in a direction neither opens nor closes any. -/
theorem isOpen_setLane (l : Link) (side other : Side) (queue : List Bytes) :
    ((l.setLane side { l.lane side with queue }).lane other).isOpen = (l.lane other).isOpen := by
  by_cases same : side = other
  · subst same
    simp
  · simp [same]

@[simp] theorem isClosed_setLane (l : Link) (side other : Side) (lane : Lane) :
    (l.setLane side lane).isClosed other = l.isClosed other := by
  cases side <;> cases other <;> rfl

@[simp] theorem lane_setClosed (l : Link) (side other : Side) :
    (l.setClosed side).lane other = l.lane other := by
  cases side <;> cases other <;> rfl

@[simp] theorem isClosed_setClosed (l : Link) (side other : Side) :
    (l.setClosed side).isClosed other = (decide (side = other) || l.isClosed other) := by
  cases side <;> cases other <;> rfl

/-- Closing an end closes both directions and keeps what is under way. -/
@[simp] theorem lane_close (l : Link) (side other : Side) :
    (l.close side).lane other = { l.lane other with isOpen := false } := by
  cases side <;> cases other <;> rfl

@[simp] theorem isClosed_close (l : Link) (side other : Side) :
    (l.close side).isClosed other = (decide (side = other) || l.isClosed other) := by
  cases side <;> cases other <;> rfl

/-- A stage in which nobody leaves and nobody is told, and the lanes record what is sent and received. -/
theorem Recorded.keep {after : Link} (recorded : Recorded stages l)
    (stays : ∀ side, leaves side stage = false) (silent : ∀ side, notified side stage = false)
    (queue : ∀ side, (l.lane side).queue ++ (sent? side stage).toList =
      (received? side.other stage).toList ++ (after.lane side).queue)
    (isOpen : ∀ side, (after.lane side).isOpen = (l.lane side).isOpen)
    (closed : ∀ side, after.isClosed side = l.isClosed side)
    (drained : ∀ side, told side stages = true → (after.lane side.other).queue = []) :
    Recorded (stages ++ [stage]) after where
  lane side := by
    rw [sent_concat, received_concat, recorded.lane, List.append_assoc, queue, List.append_assoc]
  isOpen side := by
    simp only [parted_concat, stays, Bool.or_false]
    exact (isOpen side).trans (recorded.isOpen side)
  closed side := by
    simp only [gone_concat, told_concat, stays, silent, Bool.or_false]
    exact (closed side).trans (recorded.closed side)
  drained side was := by
    rw [told_concat, silent, Bool.or_false] at was
    rw [gone_concat, stays, Bool.or_false]
    exact ⟨(recorded.drained side was).1, drained side was⟩

theorem Follows.used {use : Use} (follows : Follows past stage) (move : stage.move = (side, use)) :
    Used stage.before side use stage.events stage.after := by
  have used := stage.before.used side use
  rwa [show stage.before.use side use = (stage.events, stage.after) by rw [← follows, move]] at used

/-- An element is sent. As long as a direction takes elements nobody is gone, so nobody has been told. -/
theorem Recorded.taken (recorded : Recorded stages l) (takes : (l.lane side).isOpen = true)
    (element : Bytes) :
    let after := l.setLane side { l.lane side with queue := (l.lane side).queue ++ [element] }
    Recorded (stages ++ [⟨l, (side, .send element), [.sent (.ok ())], after⟩]) after := by
  intro after
  have together : parted stages = false := by simpa [takes] using recorded.isOpen side
  have untold : ∀ other, told other stages = false := by
    intro other
    rw [← Bool.not_eq_true]
    intro was
    rw [parted_of_gone (recorded.drained other was).1] at together
    cases together
  apply recorded.keep
  case stays => exact fun _ => rfl
  case silent => exact fun _ => rfl
  case queue =>
    intro other
    by_cases mine : side = other
    · subst mine
      simp [after, sent?, received?]
    · simp [after, sent?, received?, mine]
  case isOpen => exact fun other => isOpen_setLane l side other _
  case closed => simp [after]
  case drained => simp [untold]

/-- An element is received by an end that has not been told. -/
theorem Recorded.delivered {rest : List Bytes} (recorded : Recorded stages l)
    (present : l.isClosed side = false) (waiting : (l.lane side.other).queue = element :: rest) :
    let after := l.setLane side.other { l.lane side.other with queue := rest }
    Recorded (stages ++ [⟨l, (side, .receive), [.received (.ok (some element))], after⟩]) after := by
  intro after
  apply recorded.keep
  case stays => exact fun _ => rfl
  case silent => exact fun _ => rfl
  case queue =>
    intro other
    by_cases theirs : side.other = other
    · subst theirs
      simp [after, sent?, received?, waiting]
    · have mine : side ≠ other.other := by
        rintro rfl
        exact theirs other.other_other
      simp [after, sent?, received?, theirs, mine]
  case isOpen => exact fun other => isOpen_setLane l side.other other _
  case closed => simp [after]
  case drained =>
    intro other was
    have shut := recorded.closed other
    have theirs : side.other ≠ other.other := by
      intro same
      rw [← side.other_other, same, other.other_other] at present
      rw [present, was, Bool.or_true] at shut
      cases shut
    simpa [after, theirs] using (recorded.drained other was).2

/-- An end is told that the other one is gone, when it has received everything. -/
theorem Recorded.notify (recorded : Recorded stages l) (present : l.isClosed side = false)
    (drained : (l.lane side.other).queue = []) (shut : (l.lane side.other).isOpen = false) :
    Recorded (stages ++ [⟨l, (side, .receive), [.received (.error .closed)], l.setClosed side⟩])
      (l.setClosed side) := by
  have away : gone side.other stages = true := by
    have mine := recorded.closed side
    have theirs := recorded.isOpen side.other
    rw [present, eq_comm, Bool.or_eq_false_iff] at mine
    rw [shut, parted_eq side, mine.1, Bool.false_or, eq_comm, Bool.not_eq_false'] at theirs
    exact theirs
  constructor
  case lane => simpa [sent_concat, received_concat, sent?, received?] using recorded.lane
  case isOpen => simpa [parted_concat, leaves] using recorded.isOpen
  case closed =>
    intro other
    simp [gone_concat, told_concat, leaves, notified, recorded.closed, Bool.or_comm,
      Bool.or_left_comm]
  case drained =>
    intro other was
    simp only [told_concat, notified, Bool.or_eq_true, decide_eq_true_eq] at was
    simp only [gone_concat, leaves, Bool.or_false, lane_setClosed]
    rcases was with was | rfl
    · exact recorded.drained other was
    · exact ⟨away, drained⟩

/-- An end is closed or dropped. -/
theorem Recorded.left {use : Use} (recorded : Recorded stages l) (leaves : use = .close ∨ use = .drop) :
    Recorded (stages ++ [⟨l, (side, use), [], l.close side⟩]) (l.close side) := by
  have left : ∀ other, Link.leaves other ⟨l, (side, use), [], l.close side⟩ = decide (side = other) := by
    rcases leaves with rfl | rfl <;> exact fun _ => rfl
  have quiet : ∀ other, sent? other ⟨l, (side, use), [], l.close side⟩ = none ∧
      received? other ⟨l, (side, use), [], l.close side⟩ = none ∧
      notified other ⟨l, (side, use), [], l.close side⟩ = false := by
    rcases leaves with rfl | rfl <;> exact fun _ => ⟨rfl, rfl, rfl⟩
  constructor
  case lane => simpa [sent_concat, received_concat, quiet] using recorded.lane
  case isOpen =>
    intro other
    cases side <;> simp [parted_concat, left]
  case closed =>
    intro other
    simp [gone_concat, told_concat, left, quiet, recorded.closed, Bool.or_comm (gone other _),
      Bool.or_assoc]
  case drained =>
    intro other was
    simp only [told_concat, quiet, Bool.or_false] at was
    simp only [gone_concat, lane_close, (recorded.drained other was).1, Bool.true_or, true_and]
    exact (recorded.drained other was).2

/-- A use of an end is recorded. -/
theorem Recorded.step (recorded : Recorded stages stage.before) (follows : Follows stages stage) :
    Recorded (stages ++ [stage]) stage.after := by
  obtain ⟨before, ⟨side, use⟩, events, after⟩ := stage
  have used : Used before side use events after := follows.used rfl
  change Recorded stages before at recorded
  clear follows
  cases used with
  | taken present takes => exact recorded.taken takes _
  | delivered present waiting => exact recorded.delivered present waiting
  | notified present drained shut => exact recorded.notify present drained shut
  | left leaves => exact recorded.left leaves
  | refused shut | nothing idle =>
    apply recorded.keep
    case queue => simp [sent?, received?]
    case drained => exact fun other was => (recorded.drained other was).2
    all_goals exact fun _ => rfl

theorem Run.recorded (run : Run stages l) : Recorded stages l := by
  apply run.invariant
  · constructor
    case lane => intro side; cases side <;> rfl
    case isOpen => intro side; cases side <;> rfl
    case closed => intro side; cases side <;> rfl
    case drained => simp [told]
  · intro past stage _ follows recorded
    exact recorded.step follows

/-! ## What an end is told -/

/-- An end sends an element exactly as long as nobody is gone. -/
theorem Recorded.sends (recorded : Recorded past stage.before) (follows : Follows past stage)
    (move : stage.move = (side, .send element)) :
    stage.events = [.sent (if parted past then .error .closed else .ok ())] := by
  have used := follows.used move
  have isOpen := recorded.isOpen side
  have closed := recorded.closed side
  generalize stage.events = events, stage.after = after at used ⊢
  cases used with
  | left leaves => simp at leaves
  | taken present takes =>
    rw [takes, eq_comm, Bool.not_eq_true'] at isOpen
    rw [isOpen]
    rfl
  | refused shut =>
    have away : parted past = true := by
      rcases shut with shut | shut
      · rw [shut, eq_comm, Bool.or_eq_true] at closed
        rcases closed with left | was
        · exact parted_of_gone left
        · exact parted_of_gone (recorded.drained side was).1
      · rw [shut, eq_comm, Bool.not_eq_false'] at isOpen
        exact isOpen
    rw [away]
    rfl

/-- An end that has left or has been told receives nothing. -/
theorem Recorded.receives_nothing (recorded : Recorded past stage.before)
    (follows : Follows past stage) (move : stage.move = (side, .receive))
    (apart : gone side past = true ∨ told side past = true) :
    stage.events = [.received (.ok none)] := by
  have used := follows.used move
  have closed : stage.before.isClosed side = true := by
    rw [recorded.closed, Bool.or_eq_true]
    exact apart
  generalize stage.events = events, stage.after = after at used ⊢
  cases used with
  | nothing => rfl
  | left leaves => simp at leaves
  | delivered present | notified present => cases closed.symm.trans present

/-- Any other end receives the next element that the other one has sent. When there is none, it is told
if the other one is gone. -/
theorem Recorded.receives (recorded : Recorded past stage.before) (follows : Follows past stage)
    (move : stage.move = (side, .receive)) (present : gone side past = false)
    (untold : told side past = false) :
    stage.events = [.received
      (match (sent side.other past).drop (received side past).length with
      | element :: _ => .ok (some element)
      | [] => if gone side.other past then .error .closed else .ok none)] := by
  have used := follows.used move
  have closed := recorded.closed side
  have lane := recorded.lane side.other
  have isOpen := recorded.isOpen side.other
  rw [Side.other_other] at lane
  rw [present, untold, Bool.or_self] at closed
  rw [parted_eq side, present, Bool.false_or] at isOpen
  rw [lane, List.drop_left]
  generalize stage.events = events, stage.after = after at used ⊢
  cases used with
  | left leaves => simp at leaves
  | delivered present waiting => rw [waiting]
  | nothing idle =>
    rcases idle with shut | ⟨empty, takes⟩
    · cases closed.symm.trans shut
    · rw [takes, eq_comm, Bool.not_eq_true'] at isOpen
      simp [empty, isOpen]
  | notified present drained shut =>
    rw [shut, eq_comm, Bool.not_eq_false'] at isOpen
    simp [drained, isOpen]

/-- When an end is told, the other one is gone and everything it has sent was received, and the end
had not been told before. -/
theorem Recorded.tells (recorded : Recorded past stage.before) (follows : Follows past stage)
    (tells : notified side stage = true) :
    gone side.other past = true ∧ received side past = sent side.other past ∧
      told side past = false := by
  obtain ⟨before, ⟨user, use⟩, events, after⟩ := stage
  have used : Used before user use events after := follows.used rfl
  clear follows
  cases used with
  | taken | refused | delivered | nothing => cases tells
  | left leaves => rcases leaves with rfl | rfl <;> cases tells
  | notified present drained shut =>
    obtain rfl : user = side := by simpa [notified] using tells
    have closed := recorded.closed user
    have lane := recorded.lane user.other
    have isOpen := recorded.isOpen user.other
    change before.isClosed user = _ at closed
    rw [present, eq_comm, Bool.or_eq_false_iff] at closed
    rw [shut, parted_eq user, closed.1, Bool.false_or, eq_comm, Bool.not_eq_false'] at isOpen
    rw [drained, List.append_nil, Side.other_other] at lane
    exact ⟨isOpen, lane.symm, closed.2⟩

/-- Once an end has left, nothing more is sent. -/
theorem Run.sent_of_parted (run : Run (past ++ future) l) (away : parted past = true) (side : Side) :
    sent side (past ++ future) = sent side past := by
  apply run.since
  · intro mid _
    rw [List.append_nil]
  · intro later stage run follows before
    have still : parted (past ++ later) = true := by
      rw [parted, Bool.or_eq_true] at away ⊢
      simp only [gone, List.any_append, Bool.or_eq_true]
      exact away.imp .inl .inl
    have none : sent? side stage = none := by
      rcases move : stage.move with ⟨user, use⟩
      cases use with
      | receive | close | drop => simp [sent?, move]
      | send element =>
        have refused := (Run.recorded run).sends follows move
        rw [if_pos still] at refused
        simp [sent?, move, refused]
    rw [← List.append_assoc, sent_concat, before, none, Option.toList_none, List.append_nil]

/-- An end is told once at most. -/
theorem Run.told_once (run : Run stages l) (side : Side) : stages.countP (notified side) ≤ 1 := by
  apply run.invariant
  · exact Nat.zero_le 1
  · intro past stage run follows once
    rw [List.countP_append, List.countP_singleton]
    split
    · next tells =>
      have never : past.countP (notified side) = 0 := by
        have untold := ((Run.recorded run).tells follows tells).2.2
        rw [told, List.any_eq_false] at untold
        exact List.countP_eq_zero.mpr untold
      omega
    · exact once

/-- What the ends of a link can rely on. -/
structure Contract (stages : List Stage) : Prop where
  /-- Elements arrive in the order they were sent, and none twice. -/
  inOrder : ∀ side, received side.other stages <+: sent side stages
  /-- An end is told once at most that the other one is gone. -/
  once : ∀ side, stages.countP (notified side) ≤ 1
  /-- It is told so when the other one is gone, and has then received all that the other one ever
  sends. -/
  last : ∀ past stage future side, stages = past ++ stage :: future → notified side stage = true →
    gone side.other past = true ∧ received side past = sent side.other stages
  /-- From the moment an end has left or has been told, it neither receives nor sends. -/
  apart : ∀ past stage future side, stages = past ++ stage :: future →
    gone side past = true ∨ told side past = true →
    (stage.move = (side, .receive) → stage.events = [.received (.ok none)]) ∧
      ∀ element, stage.move = (side, .send element) → stage.events = [.sent (.error .closed)]
  /-- Elements are taken until either end has left, and not from then on. -/
  sends : ∀ past stage future side element, stages = past ++ stage :: future →
    stage.move = (side, .send element) →
    stage.events = [.sent (if parted past then .error .closed else .ok ())]
  /-- Until an end has left or been told, it receives what the other one has sent, and then nothing for
  as long as the other one is there. -/
  receives : ∀ past stage future side, stages = past ++ stage :: future →
    stage.move = (side, .receive) → gone side past = false → told side past = false →
    stage.events = [.received
      (match (sent side.other past).drop (received side past).length with
      | element :: _ => .ok (some element)
      | [] => if gone side.other past then .error .closed else .ok none)]

/-- **Both ends of a link keep its contract**, in whatever order they send, receive, close and are
dropped. -/
theorem ends_keep_the_contract (run : Run stages l) : Contract stages := by
  constructor
  case inOrder =>
    intro side
    rw [run.recorded.lane]
    exact List.prefix_append ..
  case once => exact run.told_once
  case last =>
    rintro past stage future side rfl tells
    obtain ⟨earlier, follows⟩ := run.at_stage
    obtain ⟨away, everything, -⟩ := (Run.recorded earlier).tells follows tells
    exact ⟨away, everything.trans (run.sent_of_parted (parted_of_gone away) _).symm⟩
  case apart =>
    rintro past stage future side rfl apart
    obtain ⟨earlier, follows⟩ := run.at_stage
    refine ⟨fun move => (Run.recorded earlier).receives_nothing follows move apart, ?_⟩
    intro element move
    have away : parted past = true := by
      rcases apart with left | was
      · exact parted_of_gone left
      · exact parted_of_gone ((Run.recorded earlier).drained side was).1
    rw [(Run.recorded earlier).sends follows move, if_pos away]
  case sends =>
    rintro past stage future side element rfl move
    obtain ⟨earlier, follows⟩ := run.at_stage
    exact (Run.recorded earlier).sends follows move
  case receives =>
    rintro past stage future side rfl move present untold
    obtain ⟨earlier, follows⟩ := run.at_stage
    exact (Run.recorded earlier).receives follows move present untold

/-- A run goes on with any use of either end. -/
theorem Run.extend (run : Run stages l) (side : Side) (use : Use) :
    Run (stages ++ [⟨l, (side, use), (l.use side use).1, (l.use side use).2⟩]) (l.use side use).2 := by
  have follows : Follows stages ⟨l, (side, use), (l.use side use).1, (l.use side use).2⟩ := rfl
  exact .step run follows

/-- The left end sends an element and is dropped; the right end receives the element, is told, and then
receives nothing and sends nothing. -/
theorem told_after_the_last_element :
    ∃ (stages : List Stage) (l : Link), Run stages l ∧ Contract stages ∧
      stages.flatMap (·.events) = [.sent (.ok ()), .received (.ok (some [7])),
        .received (.error .closed), .received (.ok none), .sent (.error .closed)] := by
  have begins : Run [] {} := .start
  have sent := Run.extend begins .left (.send [7])
  have dropped := Run.extend sent .left .drop
  have received := Run.extend dropped .right .receive
  have told := Run.extend received .right .receive
  have silent := Run.extend told .right .receive
  have refused := Run.extend silent .right (.send [])
  exact ⟨_, _, refused, ends_keep_the_contract refused, rfl⟩

end Link

end NamedData
