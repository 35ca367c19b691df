import NamedData.Proofs.Node.Completion

/-!
Offering an interest to the filters that select it.

A callback may call back into the node that called it, change its filters, and have the same interest or another
one dispatched before it returns. What a node has in progress is a stack all the same: whatever is begun goes on
top, and only the innermost piece of work is continued or ended (`Engine.Step.frames`). So the filters that
selected an interest when it arrived are called one by one, whatever happens to the table in the meantime
(`Engine.interests_are_offered_to_the_filters_of_their_arrival`).
-/
namespace NamedData

/-- The filters that select a name are those whose prefix is a prefix of it. -/
theorem FilterTable.matching_eq {κ : Type} (t : FilterTable κ) (name : Name) :
    t.matching name = t.entries.filter fun f => f.filter.root.components <+: name.components := by
  refine List.filter_congr fun f _ => ?_
  rw [Bool.eq_iff_iff, decide_eq_true_iff]
  exact List.isPrefixOf_iff_prefix

namespace Engine

variable {κ τ : Type} {σ : Type → Type}

section stack

variable {e after : Engine κ σ τ} {events : List (Event κ)} {move : Move κ} {frame : Frame κ}
variable {outer : List (Frame κ)}

/-- To take a call leaves what is in progress below the innermost work. -/
theorem Takes.below {call : NodeCall κ} {left : List (Frame κ)} (takes : e.Takes call move left)
    (frames : e.frames = frame :: outer) : outer <:+ left := by
  cases takes with
  | given => exact frames ▸ List.suffix_cons _ _
  | due under =>
    cases frames.symm.trans under
    exact List.suffix_cons _ _

variable [Transport τ] [Scheduler σ]

/-- Whatever a node does leaves what is in progress below the innermost work, unless it does not return. -/
theorem Does.frames (does : e.Does move events after) (frames : e.frames = frame :: outer) :
    outer <:+ after.frames ∨ after.frames = [] ∧
      ∃ operation, move = .perform operation ∧ (e.perform operation).2.1 = .collapsed := by
  have below : outer <:+ e.frames := frames ▸ List.suffix_cons _ _
  cases does with
  | overrun _ _ collapsed | stuck _ collapsed => exact .inr ⟨rfl, _, rfl, collapsed⟩
  | refused | processEvents | interest | data => exact .inl (below.trans (List.suffix_cons _ _))
  | delayed takes | expire takes => exact .inl ((takes.below frames).trans (List.suffix_cons _ _))
  | lapse takes => exact .inl (takes.below frames)
  | drained under | unreadable under =>
    cases frames.symm.trans under
    exact .inl (List.suffix_cons _ _)
  | offer under | deliver under =>
    cases frames.symm.trans under
    exact .inl ((List.suffix_cons _ _).trans (List.suffix_cons _ _))
  | finish under | resume under =>
    cases frames.symm.trans under
    exact .inl List.suffix_rfl
  | _ => exact .inl below

variable [Scheduler.Faithful σ]

/-- **What is in progress is a stack.** A step leaves everything below the innermost piece of work as it is,
unless it is an operation that does not return. -/
theorem Step.frames (step : e.Step move events after) (frames : e.frames = frame :: outer) :
    outer <:+ after.frames ∨ after.frames = [] ∧
      ∃ operation, move = .perform operation ∧ (e.perform operation).2.1 = .collapsed := by
  cases step with
  | drift drifts => exact .inl (drifts.frames ▸ frames ▸ List.suffix_cons _ _)
  | act acted => exact (does_of_act? acted).frames frames

end stack

variable [Transport τ]

/-- The element that a node begins to dispatch, because it was read or because it was handed to the node. -/
def dispatched? (stage : Stage κ σ τ) : Option Bytes :=
  match stage.move with
  | .perform (.receive element) => some element
  | _ => element? stage

/-- The interest that a node begins to offer to its filters. -/
def incoming? (stage : Stage κ σ τ) : Option Interest :=
  (dispatched? stage).bind fun element =>
    match stage.before.node.format.decode element with
    | .ok (.interest interest) => some interest
    | _ => none

/-- The calls that are made by what a node does directly on top of other work, but not by what is begun in
turn on top of that. -/
def calledAbove (outer : List (Frame κ)) (stages : List (Stage κ σ τ)) : List (Call κ) :=
  called (NamedData.Stage.seen (stages.filter fun stage => stage.before.frames.length = outer.length + 1))

omit [Transport τ] in
theorem calledAbove_concat (outer : List (Frame κ)) (stages : List (Stage κ σ τ)) (stage : Stage κ σ τ) :
    calledAbove outer (stages ++ [stage]) = calledAbove outer stages ++
      if stage.before.frames.length = outer.length + 1 then called stage.events else [] := by
  rw [calledAbove, List.filter_append, NamedData.Stage.seen_append, called_append]
  split <;> simp_all [calledAbove, NamedData.Stage.seen]

variable [Scheduler σ] [Scheduler.Faithful σ] {start e : Engine κ σ τ} {past during : List (Stage κ σ τ)}
variable {stage arrival : Stage κ σ τ} {interest : Interest} {outer : List (Frame κ)}

/-- What a node begins to do with an interest is to offer it to the filters that select it at that moment. -/
theorem Step.offers {move : Move κ} {events : List (Event κ)} {after : Engine κ σ τ}
    (step : e.Step move events after) (incoming : incoming? ⟨e, move, events, after⟩ = some interest) :
    after.frames = .offering interest (e.node.filters.matching interest.name) :: e.frames := by
  obtain ⟨element, found, decoded⟩ := Option.bind_eq_some_iff.mp incoming
  split at decoded
  case h_2 => cases decoded
  next other decodes =>
  cases decoded
  change e.node.format.decode element = _ at decodes
  have dispatches : ∀ transport : τ, (dispatch { e with transport } element).1.frames =
      .offering interest (e.node.filters.matching interest.name) :: e.frames := by
    intro transport
    simp only [dispatch, decodes, push]
  cases move with
  | resume | drift => cases found
  | perform operation =>
    obtain ⟨rfl, -⟩ := step.perform_eq
    cases operation with
    | receive received =>
      cases found
      exact dispatches e.transport
    | request | callLater | processEvents | run | shutdown => cases found
  | advance =>
    obtain ⟨-, outer, transport, reading, received⟩ := element?_eq_some found
    cases step with
    | act acted =>
      change e.frames = _ at reading
      change Transport.receive e.transport = _ at received
      rw [act?, advance, reading] at acted
      simp only [received] at acted
      rw [← dispatches transport, reading, Option.some.inj acted]

/-- An interest that is being offered is taken to the next filter that is left; with none left, that is over. -/
theorem Step.offering {move : Move κ} {events : List (Event κ)} {after : Engine κ σ τ}
    {filters : List (FilterEntry κ)} (step : e.Step move events after)
    (frames : e.frames = .offering interest filters :: outer) :
    after.frames = e.frames ∧ events = [] ∨ filters = [] ∧ after.frames = outer ∧ events = [] ∨
      ∃ filter rest, filters = filter :: rest ∧ events = [.called (.interest filter interest)] ∧
        after.frames = .inside (.interest filter interest) :: .offering interest rest :: outer := by
  cases step with
  | drift drifts => exact .inl ⟨drifts.frames, rfl⟩
  | act acted =>
    obtain ⟨-, advanced⟩ := act?_of_work frames (by simp) acted
    cases filters with
    | nil =>
      simp only [advance, frames] at advanced
      cases advanced
      exact .inr (.inl ⟨rfl, rfl, rfl⟩)
    | cons filter rest =>
      simp only [advance, frames] at advanced
      cases advanced
      exact .inr (.inr ⟨filter, rest, rfl, rfl, rfl⟩)

/-- How far a node has come with offering an interest, on top of what was in progress before, when these filters
are left. -/
inductive Offering (interest : Interest) (outer : List (Frame κ)) (during : List (Stage κ σ τ))
    (e : Engine κ σ τ) : List (FilterEntry κ) → Prop
  /-- It is at it, under whatever the callbacks have begun. -/
  | under {rest : List (FilterEntry κ)} (frames : .offering interest rest :: outer <:+ e.frames) :
      Offering interest outer during e rest
  /-- It is back at what it was doing before. -/
  | done (frames : e.frames = outer) : Offering interest outer during e []
  /-- The last operation did not return, and all that was in progress is abandoned. -/
  | abandoned {rest : List (FilterEntry κ)} {last : Stage κ σ τ} {operation : Operation κ}
      (frames : e.frames = []) (ends : during.getLast? = some last) (moved : last.move = .perform operation)
      (collapsed : (last.before.perform operation).2.1 = .collapsed) :
      Offering interest outer during e rest

/-- A step takes the interest to the next filter, or does something else on top of that. -/
theorem Offering.step {filters : List (FilterEntry κ)}
    (offering : Offering interest outer during stage.before filters)
    (step : stage.before.Step stage.move stage.events stage.after)
    (busy : outer.length < stage.before.frames.length) :
    ∃ rest, Offering interest outer (during ++ [stage]) stage.after rest ∧
      filters.map (.interest · interest) =
        (if stage.before.frames.length = outer.length + 1 then called stage.events else []) ++
          rest.map (.interest · interest) := by
  cases offering with
  | done frames => exact absurd busy (by simp [frames])
  | abandoned frames => simp [frames] at busy
  | under frames =>
    obtain ⟨above, inner⟩ := frames
    cases above with
    | nil =>
      have alone : stage.before.frames.length = outer.length + 1 := by simp [← inner]
      rw [if_pos alone]
      rcases step.offering inner.symm with ⟨same, quiet⟩ | ⟨rfl, back, quiet⟩ | ⟨filter, rest, rfl, calls, inside⟩
      · exact ⟨filters, .under (same ▸ inner ▸ List.suffix_rfl), by simp [quiet]⟩
      · exact ⟨[], .done back, by simp [quiet]⟩
      · refine ⟨rest, .under (inside ▸ List.suffix_cons _ _), ?_⟩
        rw [calls]
        rfl
    | cons frame above =>
      have nested : stage.before.frames.length ≠ outer.length + 1 := by
        rw [← inner]
        simp +arith
      rw [if_neg nested]
      refine ⟨filters, ?_, rfl⟩
      rcases step.frames inner.symm with kept | ⟨none, operation, moved, collapsed⟩
      · exact .under ((List.suffix_append _ _).trans kept)
      · exact .abandoned none List.getLast?_concat moved collapsed

omit [Scheduler.Faithful σ] in
/-- Left alone, a node calls the filters that are left, and is back at what it was doing before. -/
theorem goes_offering (answer : Call κ → CallbackResult) (interest : Interest) (rest : List (FilterEntry κ))
    (frames : e.frames = .offering interest rest :: outer) :
    ∃ stages after, Goes answer outer e stages after ∧ after.frames = outer ∧
      calledAbove outer stages = rest.map (.interest · interest) := by
  obtain ⟨node, transport, host, under⟩ := e
  cases frames
  induction rest with
  | nil =>
    refine ⟨_, _, .advance (by simp) rfl (.stop _), rfl, ?_⟩
    simp [calledAbove, NamedData.Stage.seen]
  | cons filter rest ih =>
    obtain ⟨stages, after, goes, back, calls⟩ := ih
    refine ⟨_, after, .advance (by simp) rfl (.resume (by simp +arith [push]) rfl goes), back, ?_⟩
    rw [List.map_cons, ← calls]
    simp [calledAbove, NamedData.Stage.seen, push, called, Event.call?]

/-- **An interest is offered to the filters that the table held when it arrived,** those whose prefix is a prefix
of its name, each once and in the order they were set. Whatever the callbacks do in the meantime, and whatever
that leads to, the filters called so far and those that are left make up that list. When the offering is over
none is left, unless an operation did not return; and whenever it is the innermost work, the filters that are
left are what it calls next. -/
theorem interests_are_offered_to_the_filters_of_their_arrival
    (run : start.Run (past ++ arrival :: during) e) (incoming : incoming? arrival = some interest)
    (busy : ∀ stage ∈ during, arrival.before.frames.length < stage.before.frames.length) :
    ∃ rest, Offering interest arrival.before.frames during e rest ∧
      (arrival.before.node.filters.entries.filter fun f =>
          f.filter.root.components <+: interest.name.components).map (.interest · interest) =
        calledAbove arrival.before.frames during ++ rest.map (.interest · interest) ∧
      (e.frames = .offering interest rest :: arrival.before.frames → ∀ answer, ∃ stages after,
        Goes answer arrival.before.frames e stages after ∧ after.frames = arrival.before.frames ∧
          calledAbove arrival.before.frames stages = rest.map (.interest · interest)) := by
  suffices offered : ∃ rest, Offering interest arrival.before.frames during e rest ∧
      (arrival.before.node.filters.matching interest.name).map (.interest · interest) =
        calledAbove arrival.before.frames during ++ rest.map (.interest · interest) by
    obtain ⟨rest, offering, all⟩ := offered
    rw [FilterTable.matching_eq] at all
    exact ⟨rest, offering, all, fun frames answer => goes_offering answer interest rest frames⟩
  revert busy
  rw [List.append_cons] at run
  apply run.since
  · intro mid begun _
    obtain ⟨-, follows, rfl⟩ := begun.of_concat
    exact ⟨_, .under (follows.1.offers incoming ▸ List.suffix_rfl), rfl⟩
  · intro during stage _ follows reached busy
    obtain ⟨rest, offering, all⟩ := reached fun other member => busy other (List.mem_append_left _ member)
    obtain ⟨left, offering, next⟩ :=
      offering.step follows.1 (busy stage (List.mem_append_right _ (List.mem_singleton_self stage)))
    exact ⟨left, offering, by rw [all, next, calledAbove_concat, List.append_assoc]⟩

/-- A node with two filters that select every interest, to which every element is the same interest. -/
def visited : Engine Unit DelayedCalls Sink where
  node := { untouched.node with
    format := {
      encode := fun _ => .ok []
      decode := fun _ => .ok (.interest { name := ⟨[]⟩ }) }
    filters := ⟨[⟨⟨1⟩, ⟨⟨[]⟩⟩, ()⟩, ⟨⟨2⟩, ⟨⟨[]⟩⟩, ()⟩]⟩ }
  transport := {}
  host := untouched.host

/-- The first callback removes the other filter, sets a third one and hands the node an element, which is
offered to the first and the third; then the second is called, and shuts the node down. -/
def visit : List (Move Unit) :=
  [.advance, .perform (.request (.unsetFilter ⟨2⟩)), .perform (.request (.setFilter ⟨3⟩ ⟨⟨[]⟩⟩ ())),
    .perform (.receive []), .advance, .resume (.ok ()), .advance, .resume (.error (.message "failed")), .advance,
    .resume (.ok ()), .advance, .perform .shutdown, .resume (.ok ()), .advance]

theorem removed_filter_is_called_and_new_one_is_not :
    ∃ arrival during e, visited.stages (.perform (.receive []) :: visit) = arrival :: during ∧
      visited.Run ([] ++ arrival :: during) e ∧ incoming? arrival = some { name := ⟨[]⟩ } ∧
      (∀ stage ∈ during, arrival.before.frames.length < stage.before.frames.length) ∧
      (called (Stage.seen during)).length = 4 ∧ (calledAbove [] during).length = 2 ∧
      Offering { name := ⟨[]⟩ } [] during e [] := by
  have own : ∀ call, Move.perform (.run call) ∉ .perform (.receive []) :: visit := by simp [visit]
  have begins : visited.Run [] visited := .start
  obtain ⟨e, run⟩ := run_stages begins own
  have busy : ∀ stage ∈ (visited.perform (.receive [])).1.stages visit, 0 < stage.before.frames.length := by
    decide
  obtain ⟨rest, offering, all, -⟩ :=
    interests_are_offered_to_the_filters_of_their_arrival run rfl busy
  have none : rest = [] := by
    have counted := congrArg List.length all
    rw [List.length_append, List.length_map, List.length_map] at counted
    change 2 = 2 + rest.length at counted
    exact List.eq_nil_of_length_eq_zero (by omega)
  exact ⟨_, _, e, rfl, run, rfl, busy, rfl, rfl, none ▸ offering⟩

end Engine

end NamedData
