import Mathlib.Logic.Function.Basic
import NamedData.Proofs.Loop.Custody
import NamedData.Proofs.Loop.Refinement

/-!
The event loops of one process.

All of them draw identifiers from one counter, at any time and on any thread: a face draws one before it
queues a request that adds something, a callback before it adds something to its node directly, and a node
for the filter of a registration. Whoever has drawn an identifier uses it once. So no two things have the
same, as long as the counter does not come round, and a removal takes away nothing but what was added under
its identifier (`identifiers_are_not_shared`).
-/
namespace NamedData

/-- The identifier that a move brings along for something that is to be added. -/
def LoopMove.creates? {κ : Type} : LoopMove κ → Option EntryId
  | .queue command => command.request?.bind Request.creates?
  | .perform operation => operation.request?.bind Request.creates?
  | _ => none

/-- Event loops with their faces, and the counter they share. A loop that is made late does nothing
before. -/
structure Process (ι κ τ : Type) where
  loops : ι → LoopSystem κ τ
  nextId : EntryId := .first
  /-- The identifiers that have been drawn and not yet been used. -/
  unused : List EntryId := []

namespace Handling

variable {κ : Type} (asked : Option (Request κ))

@[simp] theorem request?_queue : (asked.elim rest queue).request? = asked := by cases asked <;> rfl

@[simp] theorem request?_take : (asked.elim rest take).request? = none := by cases asked <;> rfl

@[simp] theorem request?_perform : (asked.elim rest perform).request? = asked := by
  cases asked <;> rfl

end Handling

/-- A request that comes in brings its identifier along. -/
theorem LoopSystem.creates?_of_handling {κ τ : Type} {stage : Stage κ τ} {request : Request κ}
    (asks : (handling stage).request? = some request) : stage.move.creates? = request.creates? := by
  obtain ⟨before, move, events, after⟩ := stage
  cases move with
  | queue command =>
    simp only [handling, queued?, Handling.request?_queue] at asks
    obtain ⟨other, queued, asked⟩ := Option.bind_eq_some_iff.mp asks
    split at queued
    · cases queued
      rw [LoopMove.creates?, asked, Option.bind_some]
    · cases queued
  | perform operation =>
    simp only [handling, Handling.request?_perform] at asks
    rw [LoopMove.creates?, asks, Option.bind_some]
  | turn pick => simp only [handling, Handling.request?_take, reduceCtorEq] at asks
  | announce =>
    simp only [handling, queued?, Handling.request?_queue] at asks
    obtain ⟨other, queued, asked⟩ := Option.bind_eq_some_iff.mp asks
    split at queued <;> cases queued
    cases asked
  | lower | leave | begin | advance | resume | pause | destroy | drift => cases asks

namespace Process

/-- What can happen in a process. -/
inductive Move (ι κ : Type) where
  /-- A face or a callback draws an identifier. -/
  | draw
  /-- Something happens to one of the loops. -/
  | loop (index : ι) (move : LoopMove κ)

/-- The identifier that a move brings along for something that is to be added. -/
def Move.creates? {ι κ : Type} : Move ι κ → Option EntryId
  | .draw => none
  | .loop _ move => move.creates?

variable {ι κ τ : Type}

/-- One of the loops, with the counter as it stands. -/
def loop (p : Process ι κ τ) (i : ι) : LoopSystem κ τ :=
  let engine := (p.loops i).loop.engine
  (p.loops i).withEngine { engine with host := { engine.host with nextId := p.nextId } }

variable [DecidableEq ι] [Transport τ]

/-- One step of a process. Something is added only under an identifier that was drawn for it, and the
counter does not move by itself. -/
inductive Step (p : Process ι κ τ) : Move ι κ → List (Event κ) → Process ι κ τ → Prop where
  | draw :
      Step p .draw [] { p with nextId := p.nextId.succ, unused := p.nextId :: p.unused }
  | loop {i : ι} {move : LoopMove κ} {events : List (Event κ)} {after : LoopSystem κ τ}
      (step : (p.loop i).Step move events after)
      (still : move = .drift → after.loop.engine.host.nextId = p.nextId)
      (drawn : ∀ id, move.creates? = some id → id ∈ p.unused) :
      Step p (.loop i move) events
        { loops := Function.update p.loops i after
          nextId := after.loop.engine.host.nextId
          unused := p.unused.filter fun id => move.creates? ≠ some id }

/-- A stage of a run. -/
abbrev Stage (ι κ τ : Type) := NamedData.Stage (Process ι κ τ) (Move ι κ) (Event κ)

/-- The runs of a process. -/
abbrev Run (start : Process ι κ τ) (stages : List (Stage ι κ τ)) (p : Process ι κ τ) : Prop :=
  NamedData.Run (fun _ stage => stage.before.Step stage.move stage.events stage.after) start stages p

omit [DecidableEq ι] in
/-- A process in which nothing has happened yet. -/
structure Begins (p : Process ι κ τ) : Prop where
  opened : ∀ i, ∃ config format transport host,
    LoopSystem.open? config format transport host = some (p.loops i)
  counter : p.nextId = .first
  unused : p.unused = []

/-! ## Where identifiers come from and go to -/

section history

omit [DecidableEq ι] [Transport τ]

/-- Something is asked to be added. -/
structure Creation (ι κ : Type) where
  loop : ι
  id : EntryId
  request : Request κ

/-- What a stage of a process is for one of its loops. -/
def loopStage? (stage : Stage ι κ τ) : Option (ι × LoopSystem.Stage κ τ) :=
  match stage.move with
  | .draw => none
  | .loop i move => some (i, ⟨stage.before.loop i, move, stage.events, stage.after.loop i⟩)

/-- What is done about a request in a stage, and at which loop. -/
def handled? (stage : Stage ι κ τ) : Option (ι × Handling κ) :=
  (loopStage? stage).map fun staged => (staged.1, LoopSystem.handling staged.2)

/-- The creation that a request is. -/
def creation? (i : ι) (request : Request κ) : Option (Creation ι κ) :=
  request.creates?.map fun id => ⟨i, id, request⟩

/-- What a face or a callback asks to be added. -/
def created? (stage : Stage ι κ τ) : Option (Creation ι κ) :=
  (handled? stage).bind fun handled => handled.2.request?.bind (creation? handled.1)

/-- What a face asks to be added and returns the identifier of. -/
def returned? (stage : Stage ι κ τ) : Option (Creation ι κ) :=
  (handled? stage).bind fun handled =>
    match handled.2 with
    | .queue request => creation? handled.1 request
    | _ => none

/-- What faces and callbacks have asked to be added, in order. -/
def created (stages : List (Stage ι κ τ)) : List (Creation ι κ) := stages.filterMap created?

/-- What faces have returned the identifiers of, in order. -/
def returned (stages : List (Stage ι κ τ)) : List (Creation ι κ) := stages.filterMap returned?

/-- The request that a node carries out in a stage, and of which loop. -/
def asked? (stage : Stage ι κ τ) : Option (ι × Request κ) :=
  (handled? stage).bind fun handled => handled.2.asked?.map fun request => (handled.1, request)

/-- Whether an identifier is drawn in a stage. -/
def draws (stage : Stage ι κ τ) : Bool := decide (stage.after.nextId ≠ stage.before.nextId)

/-- The identifier that a node draws for the filter of a registration. -/
def installed? (stage : Stage ι κ τ) : Option (ι × EntryId) :=
  match stage.move with
  | .draw => none
  | .loop i _ => if draws stage then some (i, stage.before.nextId) else none

/-- The identifiers that nodes have drawn for filters of registrations, in order. -/
def installed (stages : List (Stage ι κ τ)) : List (ι × EntryId) := stages.filterMap installed?

/-- How often an identifier is kept for use or has been used. -/
def tally (stages : List (Stage ι κ τ)) (p : Process ι κ τ) (id : EntryId) : Nat :=
  p.unused.count id + ((created stages).map (·.id)).count id + ((installed stages).map (·.2)).count id

variable {p : Process ι κ τ} {stages past : List (Stage ι κ τ)} {stage : Stage ι κ τ} {i : ι}

theorem mem_created {creation : Creation ι κ} :
    creation ∈ created stages ↔ ∃ stage ∈ stages, created? stage = some creation :=
  List.mem_filterMap

/-- A face that returns an identifier has asked for something. -/
theorem created_of_returned {creation : Creation ι κ} (member : creation ∈ returned stages) :
    creation ∈ created stages := by
  obtain ⟨stage, listed, returns⟩ := List.mem_filterMap.mp member
  refine List.mem_filterMap.mpr ⟨stage, listed, ?_⟩
  rw [returned?] at returns
  rw [created?]
  obtain ⟨⟨i, handling⟩, handled, asks⟩ := Option.bind_eq_some_iff.mp returns
  rw [handled]
  cases handling with
  | queue request => exact asks
  | take | perform | rest => cases asks

theorem created_concat (stages : List (Stage ι κ τ)) (stage : Stage ι κ τ) :
    created (stages ++ [stage]) = created stages ++ (created? stage).toList := by
  rw [created, created, List.filterMap_append]
  cases added : created? stage <;> simp [added]

theorem installed_concat (stages : List (Stage ι κ τ)) (stage : Stage ι κ τ) :
    installed (stages ++ [stage]) = installed stages ++ (installed? stage).toList := by
  rw [installed, installed, List.filterMap_append]
  cases added : installed? stage <;> simp [added]

/-- A request that was made at a loop. -/
def Made (stages : List (Stage ι κ τ)) (i : ι) (request : Request κ) : Prop :=
  ∃ creation ∈ created stages, creation.loop = i ∧ creation.request = request

/-- An identifier that a loop drew for the filter of a registration. -/
def Drew (stages : List (Stage ι κ τ)) (i : ι) (id : EntryId) : Prop := (i, id) ∈ installed stages

theorem Made.append {request : Request κ} (made : Made past i request) (more : List (Stage ι κ τ)) :
    Made (past ++ more) i request := by
  obtain ⟨creation, member, same⟩ := made
  rw [Made, created, List.filterMap_append]
  exact ⟨creation, List.mem_append_left _ member, same⟩

theorem Drew.append {id : EntryId} (drew : Drew past i id) (more : List (Stage ι κ τ)) :
    Drew (past ++ more) i id := by
  rw [Drew, installed, List.filterMap_append]
  exact List.mem_append_left _ drew

/-- A creation brings along the identifier of its request. -/
theorem of_created? {creation : Creation ι κ} (creates : created? stage = some creation) :
    creation.request.creates? = some creation.id ∧ stage.move.creates? = some creation.id := by
  obtain ⟨before, move, events, after⟩ := stage
  cases move with
  | draw => cases creates
  | loop i move =>
    simp only [created?, handled?, loopStage?, Option.map_some, Option.bind_some] at creates
    obtain ⟨request, asks, named⟩ := Option.bind_eq_some_iff.mp creates
    obtain ⟨id, under, rfl⟩ := Option.map_eq_some_iff.mp named
    exact ⟨under, (LoopSystem.creates?_of_handling asks).trans under⟩

theorem count_created? (stage : Stage ι κ τ) (id : EntryId) :
    ((created? stage).toList.map (·.id)).count id ≤ if stage.move.creates? = some id then 1 else 0 := by
  cases creates : created? stage with
  | none => simp
  | some creation =>
    rw [(of_created? creates).2]
    by_cases same : creation.id = id <;> simp [same]

theorem count_installed? {move : LoopMove κ} (moved : stage.move = .loop i move) (id : EntryId) :
    ((installed? stage).toList.map (·.2)).count id =
      if draws stage ∧ stage.before.nextId = id then 1 else 0 := by
  simp only [installed?, moved]
  split
  · next drawn => by_cases same : stage.before.nextId = id <;> simp [drawn, same]
  · next still => simp [still]

theorem creates_of_mem {creation : Creation ι κ} (member : creation ∈ created stages) :
    creation.request.creates? = some creation.id := by
  obtain ⟨stage, -, creates⟩ := mem_created.mp member
  exact (of_created? creates).1

/-- The identifiers of a process, as they have been drawn and used so far. -/
structure Sound (stages : List (Stage ι κ τ)) (p : Process ι κ τ) : Prop where
  counted : p.nextId.rank = stages.countP draws
  /-- Only identifiers that have been drawn are kept for use or have been used, -/
  drawn : ∀ id, 0 < tally stages p id → id.rank < p.nextId.rank
  /-- and no identifier is used twice. -/
  once : ∀ id, tally stages p id ≤ 1
  stems : ∀ i, (p.loops i).custody.Stems (Made stages i) (Drew stages i)
  single : ∀ i id, (p.loops i).custody.ids.count id ≤ 1

/-- What is in custody is neither kept for use, nor is it to be drawn. -/
theorem Sound.of_mem {id : EntryId} (sound : Sound stages p)
    (member : id ∈ (p.loops i).custody.ids) : id ∉ p.unused ∧ id ≠ p.nextId := by
  have used : 0 < ((created stages).map (·.id)).count id + ((installed stages).map (·.2)).count id := by
    rcases (sound.stems i).of_mem member with ⟨request, ⟨creation, listed, -, rfl⟩, creates⟩ | drew
    · have same := Option.some.inj ((creates_of_mem listed).symm.trans creates)
      have counted : 0 < ((created stages).map (·.id)).count id :=
        List.count_pos_iff.mpr (List.mem_map.mpr ⟨creation, listed, same⟩)
      omega
    · have counted : 0 < ((installed stages).map (·.2)).count id :=
        List.count_pos_iff.mpr (List.mem_map.mpr ⟨(i, id), drew, rfl⟩)
      omega
  have once := sound.once id
  have drawn := sound.drawn id
  simp only [tally] at once drawn
  constructor
  · intro kept
    have waiting := List.count_pos_iff.mpr kept
    omega
  · rintro rfl
    exact Nat.lt_irrefl _ (drawn (by omega))

end history

/-! ## What a step does to the identifiers -/

omit [DecidableEq ι] [Transport τ] in
private theorem count_toList (named : Option EntryId) (id : EntryId) :
    named.toList.count id = if named = some id then 1 else 0 := by
  cases named with
  | none => rfl
  | some other => by_cases same : other = id <;> simp [same]

omit [DecidableEq ι] [Transport τ] in
/-- The counter is no matter to what is in custody. -/
theorem stems_loop {p : Process ι κ τ} {i : ι} {made : Request κ → Prop} {drawn : EntryId → Prop}
    (stems : (p.loops i).custody.Stems made drawn) : (p.loop i).custody.Stems made drawn :=
  ⟨stems.waiting, stems.held.pending, stems.held.filters, stems.held.registrations,
    stems.held.related⟩

variable {start p after : Process ι κ τ} {stages past : List (Stage ι κ τ)} {stage : Stage ι κ τ}

/-- In a step an identifier may be drawn, and one that was drawn may be used. -/
theorem Step.tally (step : stage.before.Step stage.move stage.events stage.after) (id : EntryId) :
    tally (past ++ [stage]) stage.after id ≤
      tally past stage.before id + if draws stage ∧ stage.before.nextId = id then 1 else 0 := by
  have created := count_created? stage id
  simp only [Process.tally, created_concat, installed_concat, List.map_append, List.count_append]
  obtain ⟨before, move, events, after⟩ := stage
  change before.Step move events after at step
  cases step with
  | draw =>
    have drawn : draws ⟨before, .draw, [], { before with
        nextId := before.nextId.succ, unused := before.nextId :: before.unused }⟩ = true :=
      decide_eq_true (EntryId.succ_ne _)
    simp only [Move.creates?, reduceCtorEq, if_false] at created
    simp only [drawn, installed?, List.count_cons, beq_iff_eq, true_and, Option.toList_none,
      List.map_nil, List.count_nil]
    omega
  | @loop i move events after step still drawn =>
    rw [count_installed? rfl]
    have used : (before.unused.filter fun id => move.creates? ≠ some id).count id +
        (if move.creates? = some id then 1 else 0) ≤ before.unused.count id := by
      split
      · next uses =>
        have waiting := List.count_pos_iff.mpr (drawn id uses)
        have gone : (before.unused.filter fun id => move.creates? ≠ some id).count id = 0 :=
          List.count_eq_zero_of_not_mem (by simp [uses])
        omega
      · exact (List.filter_sublist.count_le id)
    change _ ≤ if move.creates? = some id then 1 else 0 at created
    simp only at used ⊢
    omega

/-- A stage in which something happens to one loop. -/
structure Serves (stage : Stage ι κ τ) (i : ι) (handling : Handling κ) : Prop where
  handled : handled? stage = some (i, handling)
  custody : (stage.before.loop i).custody.Step handling (stage.after.loops i).custody
  others : ∀ j, j ≠ i → stage.after.loops j = stage.before.loops j
  counter : stage.after.nextId = (stage.after.loops i).custody.held.nextId
  installed : draws stage = true → installed? stage = some (i, stage.before.nextId)
  drawn : ∀ request id, handling.request? = some request → request.creates? = some id →
    id ∈ stage.before.unused

/-- In a step an identifier is drawn ahead of its use, or something happens to one loop. -/
theorem Step.serves (step : stage.before.Step stage.move stage.events stage.after) :
    (handled? stage = none ∧ stage.after.loops = stage.before.loops ∧
      stage.after.nextId = stage.before.nextId.succ) ∨ ∃ i handling, Serves stage i handling := by
  obtain ⟨before, move, events, after⟩ := stage
  change before.Step move events after at step
  cases step with
  | draw => exact .inl ⟨rfl, rfl, rfl⟩
  | @loop i move events after step still drawn =>
    right
    refine ⟨i, LoopSystem.handling ⟨before.loop i, move, events, after⟩, rfl, ?_, ?_, ?_, ?_, ?_⟩
    · have custody := @LoopSystem.Step.custody _ _ _ ⟨before.loop i, move, events, after⟩ step still
      simpa using custody
    · intro j other
      exact Function.update_of_ne other _ _
    · simp [LoopSystem.custody, Engine.holdings]
    · intro draws
      simp only [installed?, if_pos draws]
    · intro request id asks creates
      exact drawn id ((LoopSystem.creates?_of_handling asks).trans creates)

section serves

omit [DecidableEq ι] [Transport τ]

variable {i : ι} {handling : Handling κ} (serves : Serves stage i handling)

include serves

/-- A loop that something happens to knows where the counter stands. -/
theorem Serves.loop_after : (stage.after.loop i).custody = (stage.after.loops i).custody := by
  simp only [loop, LoopSystem.custody, LoopSystem.withEngine, Engine.holdings, serves.counter]

/-- What is asked to be added counts as made. -/
theorem Serves.made {request : Request κ} {id : EntryId} (asks : handling.request? = some request)
    (creates : request.creates? = some id) : Made (past ++ [stage]) i request := by
  have added : created? stage = some ⟨i, id, request⟩ := by
    simp [created?, serves.handled, asks, creation?, creates]
  exact ⟨_, mem_created.mpr ⟨stage, by simp, added⟩, rfl, rfl⟩

/-- An identifier that is drawn by a node counts as drawn. -/
theorem Serves.drew
    (moves : (stage.after.loops i).custody.held.nextId ≠ (stage.before.loop i).custody.held.nextId) :
    Drew (past ++ [stage]) i (stage.before.loop i).custody.held.nextId := by
  have drawn : draws stage = true := decide_eq_true (serves.counter ▸ moves)
  rw [Drew, installed_concat, serves.installed drawn]
  exact List.mem_append_right _ List.mem_cons_self

end serves

theorem Step.counter (step : stage.before.Step stage.move stage.events stage.after) :
    stage.after.nextId = stage.before.nextId ∨ stage.after.nextId = stage.before.nextId.succ := by
  rcases step.serves with ⟨-, -, succ⟩ | ⟨i, handling, serves⟩
  · exact .inr succ
  · rw [serves.counter]
    exact serves.custody.nextId

omit [DecidableEq ι] [Transport τ] in
theorem countP_draws_concat (stages : List (Stage ι κ τ)) (stage : Stage ι κ τ) :
    (stages ++ [stage]).countP draws = stages.countP draws + if draws stage then 1 else 0 := by
  rw [List.countP_append, List.countP_singleton]

/-- The counter stands where as many identifiers have been drawn. -/
theorem Step.rank (step : stage.before.Step stage.move stage.events stage.after)
    (counted : stage.before.nextId.rank = past.countP draws)
    (room : (past ++ [stage]).countP draws < UInt64.size) :
    stage.after.nextId.rank = (past ++ [stage]).countP draws := by
  rw [countP_draws_concat] at room ⊢
  rcases step.counter with same | succ
  · have still : draws stage = false := decide_eq_false (not_not.mpr same)
    simp [still, same, counted]
  · have drawn : draws stage = true := decide_eq_true (succ ▸ EntryId.succ_ne _)
    rw [drawn, if_pos rfl] at room ⊢
    rw [succ, EntryId.rank_succ (by omega), counted]

namespace Sound

omit [DecidableEq ι] [Transport τ] in
/-- A loop that something happens to has nothing in custody twice. -/
theorem single_of_serves {i : ι} {handling : Handling κ} (sound : Sound past stage.before)
    (serves : Serves stage i handling) (id : EntryId) :
    (stage.after.loops i).custody.ids.count id ≤ 1 := by
  have count := serves.custody.count id
  have same : (stage.before.loop i).custody.ids = (stage.before.loops i).custody.ids := rfl
  have single := sound.single i id
  have absent : id ∉ (stage.before.loops i).custody.ids →
      (stage.before.loops i).custody.ids.count id = 0 := List.count_eq_zero_of_not_mem
  have known : id ∈ (stage.before.loops i).custody.ids →
      id ∉ stage.before.unused ∧ id ≠ stage.before.nextId := sound.of_mem
  have drawn : ((stage.before.loop i).custody.held.drawn (stage.after.loops i).custody.held).count id ≤
      if stage.before.nextId = id then 1 else 0 := Holdings.count_drawn ..
  rw [same, count_toList] at count
  by_cases uses : handling.request?.bind Request.creates? = some id
  · -- The identifier was kept for this use, so it is nowhere else and is not drawn now.
    obtain ⟨request, asks, creates⟩ := Option.bind_eq_some_iff.mp uses
    have kept := serves.drawn request id asks creates
    have waiting := List.count_pos_iff.mpr kept
    have earlier : stage.before.nextId ≠ id := by
      rintro rfl
      refine Nat.lt_irrefl _ (sound.drawn stage.before.nextId ?_)
      simp only [tally]
      omega
    rw [if_neg earlier] at drawn
    rw [if_pos uses, absent fun member => (known member).1 kept] at count
    omega
  · rw [if_neg uses] at count
    by_cases next : stage.before.nextId = id
    · have none := absent fun member => (known member).2 next.symm
      rw [if_pos next] at drawn
      omega
    · rw [if_neg next] at drawn
      omega

/-- Every step keeps to the use of identifiers, as long as there are any. -/
theorem step (sound : Sound past stage.before)
    (step : stage.before.Step stage.move stage.events stage.after)
    (room : (past ++ [stage]).countP draws < UInt64.size) : Sound (past ++ [stage]) stage.after := by
  have counted := step.rank sound.counted room
  have grows : stage.after.nextId.rank = stage.before.nextId.rank + if draws stage then 1 else 0 := by
    rw [counted, countP_draws_concat, sound.counted]
  constructor
  case counted => exact counted
  case drawn =>
    intro id used
    have before := sound.drawn id
    have tally : tally (past ++ [stage]) stage.after id ≤ _ := step.tally id
    by_cases new : draws stage ∧ stage.before.nextId = id
    · obtain ⟨drawn, rfl⟩ := new
      rw [drawn] at grows
      simp only [if_true] at grows
      omega
    · rw [if_neg new] at tally
      have := before (by omega)
      omega
  case once =>
    intro id
    have before := sound.drawn id
    have once := sound.once id
    have tally : tally (past ++ [stage]) stage.after id ≤ _ := step.tally id
    by_cases new : draws stage ∧ stage.before.nextId = id
    · obtain ⟨drawn, rfl⟩ := new
      rw [if_pos ⟨drawn, rfl⟩] at tally
      omega
    · rw [if_neg new] at tally
      omega
  case stems =>
    intro j
    have kept := (sound.stems j).imp (fun _ made => made.append [stage])
      fun _ drew => drew.append [stage]
    rcases step.serves with ⟨-, loops, -⟩ | ⟨i, handling, serves⟩
    · exact loops ▸ kept
    · by_cases here : j = i
      · subst here
        exact (stems_loop kept).step serves.custody (fun _ _ => serves.made) serves.drew
      · exact serves.others j here ▸ kept
  case single =>
    intro j id
    rcases step.serves with ⟨-, loops, -⟩ | ⟨i, handling, serves⟩
    · exact loops ▸ sound.single j id
    · by_cases here : j = i
      · subst here
        exact sound.single_of_serves serves id
      · exact serves.others j here ▸ sound.single j id

section unique

omit [DecidableEq ι] [Transport τ]

variable {creation other : Creation ι κ} {i j : ι} {id : EntryId}

/-- Nothing is used twice among the identifiers of creations and of filters of registrations. -/
theorem nodup (sound : Sound stages p) :
    ((created stages).map (·.id) ++ (installed stages).map (·.2)).Nodup := by
  refine List.nodup_iff_count_le_one.mpr fun id => ?_
  have once := sound.once id
  simp only [tally] at once
  rw [List.count_append]
  omega

/-- No two creations share an identifier. -/
theorem unique (sound : Sound stages p) (member : creation ∈ created stages)
    (listed : other ∈ created stages) (same : creation.id = other.id) : creation = other :=
  List.inj_on_of_nodup_map (List.nodup_append.mp sound.nodup).1 member listed same

/-- No two loops have drawn one identifier. -/
theorem drew_unique (sound : Sound stages p) (drew : Drew stages i id) (again : Drew stages j id) :
    i = j :=
  congrArg Prod.fst
    (List.inj_on_of_nodup_map (List.nodup_append.mp sound.nodup).2.1 drew again rfl)

/-- No creation has an identifier that was drawn for a filter of a registration. -/
theorem not_drew (sound : Sound stages p) (member : creation ∈ created stages) :
    ¬ Drew stages i creation.id := by
  intro drew
  have apart := (List.nodup_append.mp sound.nodup).2.2
  exact apart _ (List.mem_map_of_mem member) _ (List.mem_map_of_mem drew) rfl

/-- A request that was made under the identifier of a creation is that of the creation. -/
theorem eq_of_made {request : Request κ} (sound : Sound stages p) (member : creation ∈ created stages)
    (made : Made stages i request) (creates : request.creates? = some creation.id) :
    request = creation.request ∧ i = creation.loop := by
  obtain ⟨other, listed, rfl, rfl⟩ := made
  have same := Option.some.inj ((creates_of_mem listed).symm.trans creates)
  rw [sound.unique listed member same]
  exact ⟨rfl, rfl⟩

/-- No two loops have one identifier in custody. -/
theorem loop_unique (sound : Sound stages p) (member : id ∈ (p.loops i).custody.ids)
    (again : id ∈ (p.loops j).custody.ids) : i = j := by
  rcases (sound.stems i).of_mem member with ⟨request, made, creates⟩ | drew
  · obtain ⟨creation, listed, rfl, rfl⟩ := made
    obtain rfl := Option.some.inj ((creates_of_mem listed).symm.trans creates)
    rcases (sound.stems j).of_mem again with ⟨request, made, creates⟩ | drew
    · exact (sound.eq_of_made listed made creates).2.symm
    · exact absurd drew (sound.not_drew listed)
  · rcases (sound.stems j).of_mem again with ⟨request, ⟨creation, listed, -, rfl⟩, creates⟩ | drew'
    · obtain rfl := Option.some.inj ((creates_of_mem listed).symm.trans creates)
      exact absurd drew (sound.not_drew listed)
    · exact sound.drew_unique drew drew'

end unique

omit [DecidableEq ι] [Transport τ] in
/-- At first no identifier is in use. -/
theorem of_begins (begins : p.Begins) : Sound [] p := by
  have unused : ∀ id, tally [] p id = 0 := by
    intro id
    rw [tally, begins.unused]
    rfl
  have empty : ∀ i, (p.loops i).custody.waiting = [] ∧ (p.loops i).custody.held.pending = [] ∧
      (p.loops i).custody.held.filters = [] ∧ (p.loops i).custody.held.registrations = [] := by
    intro i
    obtain ⟨config, format, transport, host, opened⟩ := begins.opened i
    obtain ⟨deadline, same⟩ := LoopSystem.eq_of_open? opened
    rw [same]
    exact ⟨rfl, rfl, rfl, rfl⟩
  constructor
  case counted => rw [begins.counter]; rfl
  case drawn => intro id used; rw [unused] at used; cases used
  case once => intro id; rw [unused]; exact Nat.zero_le 1
  case stems =>
    intro i
    obtain ⟨waiting, pending, filters, registrations⟩ := empty i
    refine ⟨?_, ⟨?_, ?_, ?_, ?_⟩⟩ <;> simp [waiting, pending, filters, registrations]
  case single =>
    intro i id
    obtain ⟨waiting, pending, filters, registrations⟩ := empty i
    simp [Custody.ids, Holdings.ids, waiting, pending, filters, registrations]

end Sound

/-- Every run keeps to the use of identifiers, as long as there are any. -/
theorem Run.sound (begins : start.Begins) (run : start.Run stages p)
    (few : stages.countP draws < UInt64.size) : Sound stages p := by
  revert few
  apply run.invariant
  · exact fun _ => .of_begins begins
  · intro past stage upTo step sound few
    have fewer := few
    rw [countP_draws_concat] at fewer
    exact (sound (by omega)).step step few

/-- What sharing one counter comes to. -/
structure Unshared (stages : List (Stage ι κ τ)) (p : Process ι κ τ) : Prop where
  /-- Of the requests that wait to add something, and of what is held, no two have one identifier: not in
  one loop, -/
  once : ∀ i, (p.loops i).custody.ids.Nodup
  /-- and not in two. -/
  apart : ∀ i j, i ≠ j → (p.loops i).custody.ids.Disjoint (p.loops j).custody.ids
  /-- The identifier of a filter that was installed along with a registration is at no time returned to
  anybody. -/
  related : ∀ stage ∈ stages, ∀ i, ∀ r ∈ (stage.after.loops i).loop.engine.node.registrations.entries,
    ∀ id, r.filterId = some id → ∀ creation ∈ returned stages, creation.id ≠ id
  /-- A removal by an identifier that was returned takes away what was added under it, if that is there, and
  leaves everything else as it is: what is held here, what waits to be added here, and all other loops. -/
  removes : ∀ past stage future i request creation, stages = past ++ stage :: future →
    asked? stage = some (i, request) → creation ∈ returned stages →
    request.removes? = some creation.id →
    ((stage.after.loop i).custody.held = (stage.before.loop i).custody.held ∨
      i = creation.loop ∧
        (stage.before.loop i).custody.held.Loses creation.request (stage.after.loop i).custody.held) ∧
    (stage.after.loop i).custody.waiting.filterMap Request.creates? =
      (stage.before.loop i).custody.waiting.filterMap Request.creates? ∧
    ∀ j, j ≠ i → stage.after.loops j = stage.before.loops j

/-- A removal takes away what its identifier was returned for, if anything. -/
theorem Run.removes {future : List (Stage ι κ τ)} {i : ι} {request : Request κ} {creation : Creation ι κ}
    (begins : start.Begins) (run : start.Run (past ++ stage :: future) p)
    (few : (past ++ stage :: future).countP draws < UInt64.size)
    (asked : asked? stage = some (i, request))
    (member : creation ∈ created (past ++ stage :: future))
    (removes : request.removes? = some creation.id) :
    ((stage.after.loop i).custody.held = (stage.before.loop i).custody.held ∨
      i = creation.loop ∧
        (stage.before.loop i).custody.held.Loses creation.request (stage.after.loop i).custody.held) ∧
    (stage.after.loop i).custody.waiting.filterMap Request.creates? =
      (stage.before.loop i).custody.waiting.filterMap Request.creates? ∧
    ∀ j, j ≠ i → stage.after.loops j = stage.before.loops j := by
  obtain ⟨upTo, step⟩ := run.at_stage
  have whole := Run.sound begins run few
  have sound := Run.sound begins upTo (by rw [List.countP_append] at few; omega)
  obtain ⟨⟨i, handling⟩, handled, found⟩ := Option.bind_eq_some_iff.mp asked
  obtain ⟨_, asks, same⟩ := Option.map_eq_some_iff.mp found
  cases same
  rcases step.serves with ⟨none, -⟩ | ⟨_, _, serves⟩
  · rw [none] at handled
    cases handled
  · cases handled.symm.trans serves.handled
    have distinct : (stage.before.loop i).custody.held.ids.Nodup :=
      (List.nodup_append.mp (List.nodup_iff_count_le_one.mpr (sound.single i))).2.1
    have unique : ∀ other, Made past i other → other.creates? = some creation.id →
        other = creation.request :=
      fun other made creates => (whole.eq_of_made member (made.append _) creates).1
    have issued : ¬ Drew past i creation.id := fun drew => whole.not_drew member (drew.append _)
    obtain ⟨change, waiting⟩ := serves.custody.of_asked asks
    rw [serves.loop_after]
    refine ⟨?_, waiting (Request.not_creates removes), serves.others⟩
    refine ((stems_loop (sound.stems i)).held.loses distinct change removes unique issued).imp_right ?_
    rintro ⟨made, loses⟩
    exact ⟨(whole.eq_of_made member (made.append _) (creates_of_mem member)).2, loses⟩

/-- **Identifiers are not shared.** As long as fewer are drawn than the counter has, no two things in a
process have one identifier, whatever its faces, loops and callbacks do; and a removal takes away nothing
but what its identifier was returned for. -/
theorem identifiers_are_not_shared (begins : start.Begins) (run : start.Run stages p)
    (few : stages.countP draws < UInt64.size) : Unshared stages p := by
  have sound := Run.sound begins run few
  constructor
  case once => exact fun i => List.nodup_iff_count_le_one.mpr (sound.single i)
  case apart => exact fun i j different id member again => different (sound.loop_unique member again)
  case related =>
    intro stage member i r listed id own creation returns same
    obtain ⟨past, future, rfl⟩ := List.append_of_mem member
    have through := run.through
    have upTo := Run.sound begins through (by
      rw [List.append_cons, List.countP_append] at few
      omega)
    have drew := (upTo.stems i).held.related r listed id own
    have later := drew.append future
    rw [List.append_assoc] at later
    exact sound.not_drew (created_of_returned returns) (same ▸ later)
  case removes =>
    rintro past stage future i request creation rfl asked returns removes
    exact Run.removes begins run few asked (created_of_returned returns) removes

/-- A run goes on with any step that can be made. -/
theorem Run.extend {move : Move ι κ} {events : List (Event κ)} (run : start.Run stages p)
    (step : p.Step move events after) : start.Run (stages ++ [⟨p, move, events, after⟩]) after :=
  .step run step

/-- Two loops of which nothing has been asked yet. -/
def twoLoops : Process Bool Unit Sink where
  loops _ := LoopSystem.atRest

/-- A prefix is registered at one loop and an interest is queued at the other. When the registration is
removed, its filter goes with it, and the interest goes on waiting. -/
theorem removed_at_one_of_two :
    ∃ (stages : List (Stage Bool Unit Sink)) (p : Process Bool Unit Sink),
      twoLoops.Begins ∧ twoLoops.Run stages p ∧ stages.countP draws = 3 ∧ Unshared stages p ∧
      (returned stages).map (·.id) = [.nth 0, .nth 2] ∧ installed stages = [(true, .nth 1)] ∧
      (p.loops true).custody.ids = [] ∧ (p.loops false).custody.ids = [.nth 2] := by
  have begins : twoLoops.Begins :=
    ⟨fun _ => ⟨{}, Engine.untouched.node.format, {}, Engine.untouched.host, rfl⟩, rfl, rfl⟩
  have nothing : twoLoops.Run [] twoLoops := .start
  have drawn := nothing.extend .draw
  have queued := drawn.extend <| show Step _ (.loop true (.queue (.request
    (.register (.nth 0) ⟨[]⟩ (some ()) () {})))) _ _ from
    .loop (.queue (by simp) rfl) (by rintro ⟨⟩) (by decide)
  have running := queued.extend <| show Step _ (.loop true .begin) _ _ from
    .loop (.begin rfl rfl) (by rintro ⟨⟩) (by rintro _ ⟨⟩)
  have registered := running.extend <| show Step _ (.loop true (.turn _)) _ _ from
    .loop (.turn rfl rfl lawfulPick_takeFirst) (by rintro ⟨⟩) (by rintro _ ⟨⟩)
  have again := registered.extend .draw
  have asked := again.extend <| show Step _ (.loop false (.queue (.request
    (.express (.nth 2) { name := ⟨[]⟩ } () none)))) _ _ from
    .loop (.queue (by simp) rfl) (by rintro ⟨⟩) (by decide)
  have removing := asked.extend <| show Step _ (.loop true (.queue (.request
    (.removeRegistered (.nth 0))))) _ _ from
    .loop (.queue (by simp) rfl) (by rintro ⟨⟩) (by rintro _ ⟨⟩)
  have run := removing.extend <| show Step _ (.loop true (.turn _)) _ _ from
    .loop (.turn rfl rfl lawfulPick_takeFirst) (by rintro ⟨⟩) (by rintro _ ⟨⟩)
  have few : 3 < UInt64.size := by decide
  exact ⟨_, _, begins, run, rfl, identifiers_are_not_shared begins run few, rfl, rfl, rfl, rfl⟩

end Process

end NamedData
