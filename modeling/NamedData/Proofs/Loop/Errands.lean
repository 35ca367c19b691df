import Mathlib.Algebra.Order.Group.Multiset
import Mathlib.Data.List.Forall2
import Mathlib.Data.List.Induction
import Mathlib.Tactic.Abel
import NamedData.Loop.Basic

/-!
Errands: what a loop is to do once, some time after it was asked to.

An errand goes through up to three places. A callback that a face wants called later waits in the queue of
commands; what a node arms is on its way from the node to the loop; and from the moment the loop knows of
an errand it has a timer. Whatever happens to these places, every errand is in one of them or has been run,
and none is run early (`Backlog.Kept.step`).
-/
namespace NamedData

/-- Something that is to be done once, a delay after it was asked for. -/
structure Errand (κ : Type) where
  task : Task κ
  since : Instant
  delay : Duration

/-- The first moment, in nanoseconds, at which an errand may be run. -/
def Errand.due {κ : Type} (e : Errand κ) : Nat := e.since.nanos + e.delay.toNanos

/-- The places that errands go through, oldest first. -/
structure Backlog (κ : Type) where
  /-- Callbacks that faces have queued. -/
  waiting : List (Duration × κ)
  /-- Calls on their way from the node. -/
  boxed : List (Duration × NodeCall κ)
  /-- Timers that do not belong to a service. -/
  timers : List (Timer κ)
  now : Instant
  /-- Whether the loop is gone, or its clock has overflowed. -/
  dead : Bool

namespace Backlog

variable {κ : Type}

/-- What can happen to a backlog, with the errands that are given and those that are run. -/
inductive Step (b : Backlog κ) : List (Errand κ) → List (Task κ × Instant) → Backlog κ → Prop where
  | hand (delay : Duration) (callback : κ) :
      Step b [⟨.callback callback, b.now, delay⟩] []
        { b with waiting := b.waiting ++ [(delay, callback)] }
  | post (delay : Duration) (call : NodeCall κ) :
      Step b [⟨.node call, b.now, delay⟩] [] { b with boxed := b.boxed ++ [(delay, call)] }
  | armCall {delay : Duration} {call : NodeCall κ} {rest : List (Duration × NodeCall κ)}
      {deadline : Instant} (first : b.boxed = (delay, call) :: rest)
      (shown : b.now.add? delay = some deadline) :
      Step b [] [] { b with boxed := rest, timers := b.timers ++ [⟨deadline, .node call⟩] }
  | armCallback {delay : Duration} {callback : κ} {rest : List (Duration × κ)} {deadline : Instant}
      (first : b.waiting = (delay, callback) :: rest) (shown : b.now.add? delay = some deadline) :
      Step b [] [] { b with waiting := rest, timers := b.timers ++ [⟨deadline, .callback callback⟩] }
  | fire {timer : Timer κ} {rest : List (Timer κ)} (perm : (timer :: rest).Perm b.timers)
      (due : timer.deadline ≤ b.now) : Step b [] [(timer.task, b.now)] { b with timers := rest }
  | shuffle {timers : List (Timer κ)} (perm : timers.Perm b.timers) : Step b [] [] { b with timers }
  | wait {now : Instant} (later : b.now ≤ now) : Step b [] [] { b with now }
  /-- A loop that goes may take with it what waits. -/
  | lose (count : Nat) : Step b [] [] { b with waiting := b.waiting.drop count, dead := true }

/-- Some steps, one after the other. -/
inductive Steps (b : Backlog κ) : List (Errand κ) → List (Task κ × Instant) → Backlog κ → Prop where
  | refl : Steps b [] [] b
  | step {mid after : Backlog κ} {given new : List (Errand κ)} {runs fired : List (Task κ × Instant)}
      (steps : Steps b given runs mid) (step : mid.Step new fired after) :
      Steps b (given ++ new) (runs ++ fired) after

/-- Whose errands are where: all that were given, sorted by what has become of them. -/
structure Accounts (b : Backlog κ) (given : List (Errand κ)) (runs : List (Task κ × Instant))
    (waiting boxed armed finished lost : List (Errand κ)) : Prop where
  /-- Every errand is in one place. -/
  all : given.Perm (waiting ++ boxed ++ armed ++ finished ++ lost)
  waits : waiting.map (fun e => (e.delay, e.task)) = b.waiting.map fun w => (w.1, .callback w.2)
  travels : boxed.map (fun e => (e.delay, e.task)) = b.boxed.map fun w => (w.1, .node w.2)
  /-- No timer goes off before its errand is due, -/
  timed : List.Forall₂ (fun (t : Timer κ) e => t.task = e.task ∧ e.due ≤ t.deadline.nanos) b.timers
    armed
  /-- and no errand was run before. -/
  ran : List.Forall₂ (fun (run : Task κ × Instant) e => run.1 = e.task ∧ e.due ≤ run.2.nanos) runs
    finished
  past : ∀ e ∈ waiting ++ boxed, e.since ≤ b.now
  /-- None is lost unless the loop is. -/
  safe : b.dead = false → lost = []

/-- Every errand that was given is in one place or has been run, and none early. -/
def Kept (b : Backlog κ) (given : List (Errand κ)) (runs : List (Task κ × Instant)) : Prop :=
  ∃ waiting boxed armed finished lost, b.Accounts given runs waiting boxed armed finished lost

variable {b mid after : Backlog κ} {given new : List (Errand κ)}
variable {runs fired : List (Task κ × Instant)}

/-- A timer that is armed for an errand now does not go off before the errand is due. -/
theorem due_le_of_add? {e : Errand κ} {now deadline : Instant} (since : e.since ≤ now)
    (shown : now.add? e.delay = some deadline) : e.due ≤ deadline.nanos := by
  rw [Instant.nanos_of_add? shown, Errand.due]
  exact Nat.add_le_add_right since _

/-! ## Where an errand goes in a step -/

section accounts

variable {waiting boxed armed finished lost : List (Errand κ)}

theorem all_iff : given.Perm (waiting ++ boxed ++ armed ++ finished ++ lost) ↔
    (given : Multiset (Errand κ)) = waiting + boxed + armed + finished + lost := by
  simp only [Multiset.coe_add, Multiset.coe_eq_coe]

/-- An errand that is given waits, or is on its way. -/
theorem Accounts.give {left right : List (Errand κ)} {e : Errand κ}
    (accounts : b.Accounts given runs waiting boxed armed finished lost)
    (last : (left ++ right).Perm (e :: (waiting ++ boxed)))
    (waits : left.map (fun e => (e.delay, e.task)) = mid.waiting.map fun w => (w.1, .callback w.2))
    (travels : right.map (fun e => (e.delay, e.task)) = mid.boxed.map fun w => (w.1, .node w.2))
    (timers : mid.timers = b.timers) (now : mid.now = b.now) (dead : mid.dead = b.dead)
    (since : e.since = b.now) :
    mid.Accounts (given ++ [e]) runs left right armed finished lost where
  all := by
    have all := all_iff.mp accounts.all
    have moved := Multiset.coe_eq_coe.mpr last
    rw [all_iff]
    simp only [← Multiset.coe_add, ← Multiset.cons_coe, ← Multiset.singleton_add] at moved ⊢
    rw [all, moved, Multiset.coe_nil]
    abel
  waits := waits
  travels := travels
  timed := by
    rw [timers]
    exact accounts.timed
  ran := accounts.ran
  past other member := by
    rw [now]
    rcases List.mem_cons.mp (last.subset member) with rfl | old
    · exact Nat.le_of_eq (congrArg Instant.nanos since)
    · exact accounts.past other old
  safe := by
    rw [dead]
    exact accounts.safe

/-- An errand that has waited, or was on its way, gets a timer. -/
theorem Accounts.arm {left right : List (Errand κ)} {e : Errand κ} {deadline : Instant}
    (accounts : b.Accounts given runs waiting boxed armed finished lost)
    (first : (waiting ++ boxed).Perm (e :: (left ++ right)))
    (waits : left.map (fun e => (e.delay, e.task)) = mid.waiting.map fun w => (w.1, .callback w.2))
    (travels : right.map (fun e => (e.delay, e.task)) = mid.boxed.map fun w => (w.1, .node w.2))
    (timers : mid.timers = b.timers ++ [⟨deadline, e.task⟩]) (now : mid.now = b.now)
    (dead : mid.dead = b.dead) (shown : b.now.add? e.delay = some deadline) :
    mid.Accounts given runs left right (armed ++ [e]) finished lost where
  all := by
    have all := all_iff.mp accounts.all
    have moved := Multiset.coe_eq_coe.mpr first
    rw [all_iff]
    simp only [← Multiset.coe_add, ← Multiset.cons_coe, ← Multiset.singleton_add] at moved ⊢
    rw [all, moved]
    abel
  waits := waits
  travels := travels
  timed := by
    have since : e.since ≤ b.now := accounts.past e (first.symm.subset List.mem_cons_self)
    rw [timers]
    exact List.rel_append accounts.timed (.cons ⟨rfl, due_le_of_add? since shown⟩ .nil)
  ran := accounts.ran
  past other member := by
    rw [now]
    exact accounts.past other (first.symm.subset (List.mem_cons_of_mem _ member))
  safe := by
    rw [dead]
    exact accounts.safe

/-- A timer that goes off runs the errand it was armed for. -/
theorem Accounts.fire {timer : Timer κ} {rest : List (Timer κ)}
    (accounts : b.Accounts given runs waiting boxed armed finished lost)
    (perm : (timer :: rest).Perm b.timers) (due : timer.deadline ≤ b.now) :
    ∃ armed finished, Accounts { b with timers := rest } given (runs ++ [(timer.task, b.now)])
      waiting boxed armed finished lost := by
  obtain ⟨sorted, timed, order⟩ := List.perm_comp_forall₂ perm accounts.timed
  cases timed with
  | @cons _ e _ others early timed =>
    refine ⟨others, finished ++ [e], ?_, accounts.waits, accounts.travels, timed, ?_, accounts.past,
      accounts.safe⟩
    · have all := all_iff.mp accounts.all
      have moved := Multiset.coe_eq_coe.mpr order
      rw [all_iff]
      simp only [← Multiset.coe_add, ← Multiset.cons_coe, ← Multiset.singleton_add] at moved ⊢
      rw [all, ← moved]
      abel
    · exact List.rel_append accounts.ran (.cons ⟨early.1, early.2.trans due⟩ .nil)

/-- In whatever order the timers are kept. -/
theorem Accounts.shuffle {timers : List (Timer κ)}
    (accounts : b.Accounts given runs waiting boxed armed finished lost)
    (perm : timers.Perm b.timers) :
    ∃ armed, Accounts { b with timers } given runs waiting boxed armed finished lost := by
  obtain ⟨sorted, timed, order⟩ := List.perm_comp_forall₂ perm accounts.timed
  refine ⟨sorted, ?_, accounts.waits, accounts.travels, timed, accounts.ran, accounts.past,
    accounts.safe⟩
  have all := all_iff.mp accounts.all
  rw [all_iff, Multiset.coe_eq_coe.mpr order]
  exact all

theorem Accounts.lose (accounts : b.Accounts given runs waiting boxed armed finished lost)
    (count : Nat) :
    Accounts { b with waiting := b.waiting.drop count, dead := true } given runs
      (waiting.drop count) boxed armed finished (lost ++ waiting.take count) where
  all := by
    have all := all_iff.mp accounts.all
    have parts : (waiting : Multiset (Errand κ)) = waiting.take count + waiting.drop count := by
      rw [Multiset.coe_add, List.take_append_drop]
    rw [all_iff]
    simp only [← Multiset.coe_add]
    rw [all, parts]
    abel
  waits := by simp [accounts.waits, List.map_drop]
  travels := accounts.travels
  timed := accounts.timed
  ran := accounts.ran
  past e member := by
    apply accounts.past e
    rcases List.mem_append.mp member with waits | travels
    · exact List.mem_append_left _ (List.mem_of_mem_drop waits)
    · exact List.mem_append_right _ travels
  safe alive := by cases alive

/-- What was run are the errands that are finished. -/
theorem Accounts.tasks (accounts : b.Accounts given runs waiting boxed armed finished lost) :
    runs.map (·.1) = finished.map (·.task) := by
  rw [← List.forall₂_eq_eq_eq, List.forall₂_map_left_iff, List.forall₂_map_right_iff]
  exact accounts.ran.imp fun _ _ => And.left

/-- When nothing is left in any place, every errand that was given and not lost has been run. -/
theorem Accounts.perm_of_empty (accounts : b.Accounts given runs waiting boxed armed finished [])
    (nothing : b.waiting = [] ∧ b.boxed = [] ∧ b.timers = []) :
    (given.map (·.task)).Perm (runs.map (·.1)) := by
  have waits := accounts.waits
  have travels := accounts.travels
  have timed := accounts.timed
  simp only [nothing, List.map_nil, List.map_eq_nil_iff, List.forall₂_nil_left_iff] at waits travels timed
  have all := accounts.all
  rw [waits, travels, timed, List.append_nil] at all
  rw [accounts.tasks]
  exact all.map _

end accounts

/-- Nothing has been given yet. -/
theorem Kept.start (waiting : b.waiting = []) (boxed : b.boxed = []) (timers : b.timers = []) :
    b.Kept [] [] := by
  refine ⟨[], [], [], [], [], .nil, ?_, ?_, ?_, .nil, List.forall_mem_nil _, fun _ => rfl⟩
  · rw [waiting]
    rfl
  · rw [boxed]
    rfl
  · rw [timers]
    exact .nil

/-- Every step keeps all errands. -/
theorem Kept.step (kept : b.Kept given runs) (step : b.Step new fired after) :
    after.Kept (given ++ new) (runs ++ fired) := by
  obtain ⟨waiting, boxed, armed, finished, lost, accounts⟩ := kept
  cases step with
  | hand delay callback =>
    have last : ∀ e, (waiting ++ [e] ++ boxed).Perm (e :: (waiting ++ boxed)) := by
      intro e
      rw [List.append_assoc]
      exact List.perm_middle
    rw [List.append_nil]
    refine ⟨_, _, _, _, _, accounts.give (last _) ?_ accounts.travels rfl rfl rfl rfl⟩
    simp [accounts.waits]
  | post delay call =>
    have last : ∀ e, (waiting ++ (boxed ++ [e])).Perm (e :: (waiting ++ boxed)) := by
      intro e
      rw [← List.append_assoc]
      exact List.perm_append_singleton _ _
    rw [List.append_nil]
    refine ⟨_, _, _, _, _, accounts.give (last _) accounts.waits ?_ rfl rfl rfl rfl⟩
    simp [accounts.travels]
  | armCall first shown =>
    have travels := accounts.travels
    rw [first] at travels
    obtain ⟨e, others, rfl, same, left⟩ := List.map_eq_cons_iff.mp travels
    obtain ⟨rfl, task⟩ := Prod.mk.inj same
    rw [List.append_nil, List.append_nil]
    refine ⟨_, _, _, _, _, accounts.arm List.perm_middle accounts.waits left ?_ rfl rfl shown⟩
    rw [task]
  | armCallback first shown =>
    have waits := accounts.waits
    rw [first] at waits
    obtain ⟨e, others, rfl, same, left⟩ := List.map_eq_cons_iff.mp waits
    obtain ⟨rfl, task⟩ := Prod.mk.inj same
    rw [List.append_nil, List.append_nil]
    refine ⟨_, _, _, _, _, accounts.arm (.refl _) left accounts.travels ?_ rfl rfl shown⟩
    rw [task]
  | fire perm due =>
    obtain ⟨armed, finished, accounts⟩ := accounts.fire perm due
    rw [List.append_nil]
    exact ⟨_, _, _, _, _, accounts⟩
  | shuffle perm =>
    obtain ⟨armed, accounts⟩ := accounts.shuffle perm
    rw [List.append_nil, List.append_nil]
    exact ⟨_, _, _, _, _, accounts⟩
  | wait later =>
    rw [List.append_nil, List.append_nil]
    exact ⟨_, _, _, _, _, accounts.all, accounts.waits, accounts.travels, accounts.timed, accounts.ran,
      fun e member => Nat.le_trans (accounts.past e member) later, accounts.safe⟩
  | lose count =>
    rw [List.append_nil, List.append_nil]
    exact ⟨_, _, _, _, _, accounts.lose count⟩

/-- So do any number of steps. -/
theorem Kept.steps (kept : b.Kept given runs) (steps : b.Steps new fired after) :
    after.Kept (given ++ new) (runs ++ fired) := by
  induction steps with
  | refl =>
    rw [List.append_nil, List.append_nil]
    exact kept
  | step _ step ih =>
    rw [← List.append_assoc, ← List.append_assoc]
    exact ih.step step

/-- What is run is an errand that was given, and it is due by then. -/
theorem Kept.of_run {run : Task κ × Instant} (kept : b.Kept given runs) (ran : run ∈ runs) :
    ∃ e ∈ given, run.1 = e.task ∧ e.due ≤ run.2.nanos := by
  obtain ⟨waiting, boxed, armed, finished, lost, accounts⟩ := kept
  obtain ⟨place, short, rfl⟩ := List.mem_iff_getElem.mp ran
  obtain ⟨same, each⟩ := List.forall₂_iff_get.mp accounts.ran
  have done : place < finished.length := same ▸ short
  have among : finished.get ⟨place, done⟩ ∈ given := by
    refine accounts.all.symm.subset (List.mem_append_left _ (List.mem_append_right _ ?_))
    exact List.get_mem finished ⟨place, done⟩
  exact ⟨_, among, each place short done⟩

/-- No errand is run more often than it was given. -/
theorem Kept.once (kept : b.Kept given runs) :
    (runs.map (·.1)).Subperm (given.map (·.task)) := by
  obtain ⟨waiting, boxed, armed, finished, lost, accounts⟩ := kept
  have among : finished.Sublist (waiting ++ boxed ++ armed ++ finished ++ lost) :=
    (List.sublist_append_right _ _).trans (List.sublist_append_left _ _)
  rw [accounts.tasks]
  exact (among.map _).subperm.trans (accounts.all.symm.map _).subperm

/-- Time does not go back. -/
theorem Step.now_le (step : b.Step new fired after) : b.now ≤ after.now := by
  cases step with
  | wait later => exact later
  | hand | post | armCall | armCallback | fire | shuffle | lose => exact Nat.le_refl _

/-- A loop that is gone takes the steps of any other. -/
theorem Step.doomed (step : b.Step new fired after) :
    Step { b with dead := true } new fired { after with dead := true } := by
  cases step with
  | hand delay callback => exact .hand delay callback
  | post delay call => exact .post delay call
  | armCall first shown => exact .armCall first shown
  | armCallback first shown => exact .armCallback first shown
  | fire perm due => exact .fire perm due
  | shuffle perm => exact .shuffle perm
  | wait later => exact .wait later
  | lose count => exact .lose count

/-! ## What can be made of single steps -/

namespace Steps

theorem single (step : b.Step given runs after) : b.Steps given runs after := by
  have steps := Steps.refl.step step
  rwa [List.nil_append, List.nil_append] at steps

theorem trans (first : b.Steps given runs mid) (second : mid.Steps new fired after) :
    b.Steps (given ++ new) (runs ++ fired) after := by
  induction second with
  | refl =>
    rw [List.append_nil, List.append_nil]
    exact first
  | step _ step ih =>
    rw [← List.append_assoc, ← List.append_assoc]
    exact ih.step step

/-- A node passes on some calls. -/
theorem post (b : Backlog κ) (calls : List (Duration × NodeCall κ)) :
    b.Steps (calls.map fun w => ⟨.node w.2, b.now, w.1⟩) [] { b with boxed := b.boxed ++ calls } := by
  induction calls using List.reverseRecOn with
  | nil =>
    rw [List.append_nil]
    exact .refl
  | append_singleton calls call ih =>
    rw [List.map_append, ← List.append_assoc]
    exact ih.step (.post call.1 call.2)

/-- A loop may go without taking anything with it. -/
theorem doom {dead : Bool} (steps : b.Steps given runs after)
    (still : after.dead = true → dead = true) : b.Steps given runs { after with dead } := by
  cases dead with
  | true =>
    have gone := steps.trans (.single (.lose 0))
    rwa [List.append_nil, List.append_nil] at gone
  | false =>
    have alive : after.dead = false := by simpa using still
    rwa [← alive]

theorem now_le (steps : b.Steps given runs after) : b.now ≤ after.now := by
  induction steps with
  | refl => exact Nat.le_refl _
  | step _ step ih => exact Nat.le_trans ih step.now_le

theorem doomed (steps : b.Steps given runs after) :
    Steps { b with dead := true } given runs { after with dead := true } := by
  induction steps with
  | refl => exact .refl
  | step _ step ih => exact ih.step step.doomed

end Steps

end Backlog

end NamedData
