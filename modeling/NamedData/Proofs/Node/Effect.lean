import NamedData.Proofs.Node.Acting
import NamedData.Proofs.Node.Ledger
import NamedData.Proofs.Table.Removal

/-!
What a node does to its ledger and to the armed calls.

Whatever a node does, its ledger moves, and no timeout goes off that was not armed when the entry was
made (`Engine.Step.effect`).
-/
namespace NamedData

/-- The call that a move gives a node to be run. -/
def Move.given? {κ : Type} : Move κ → Option (NodeCall κ)
  | .perform (.run call) => some call
  | _ => none

theorem Move.given?_eq_some {κ : Type} {move : Move κ} {call : NodeCall κ}
    (given : move.given? = some call) : move = .perform (.run call) := by
  rw [given?.eq_def] at given
  split at given
  · cases given
    rfl
  · cases given

namespace Engine

variable {κ τ : Type} {σ : Type → Type}

/-- The ledger of a node. -/
def ledger (e : Engine κ σ τ) : Ledger κ where
  waiting := e.node.pending.entries
  delivering := e.frames.flatMap Frame.deliveries
  issued := e.host.marks.next

section taking

variable {e : Engine κ σ τ} {move : Move κ} {call : NodeCall κ} {entry : PendingInterest κ}
variable {left : List (Frame κ)}

theorem Brings.makes?_eq_none [Transport τ] {element : Bytes} {transport : τ}
    (brings : e.Brings element move transport) : e.makes? move = none := by
  cases brings <;> rfl

theorem Brings.given?_eq_none [Transport τ] {element : Bytes} {transport : τ}
    (brings : e.Brings element move transport) : move.given? = none := by
  cases brings <;> rfl

theorem Takes.makes?_eq_none (takes : e.Takes call move left) : e.makes? move = none := by
  cases takes <;> rfl

/-- Taking a call to run it leaves the batches of deliveries alone. -/
theorem Takes.deliveries (takes : e.Takes call move left) :
    left.flatMap Frame.deliveries = e.frames.flatMap Frame.deliveries := by
  cases takes with
  | given => rfl
  | due frames =>
    rw [frames]
    rfl

/-- Calls that are left were there before. -/
theorem Takes.calls (takes : e.Takes call move left) :
    left.flatMap Frame.calls ⊆ e.frames.flatMap Frame.calls := by
  cases takes with
  | given => exact List.Subset.refl _
  | due frames =>
    rw [frames]
    exact List.subset_cons_self _ _

/-- A timeout that is run resolves its entry, if that still waits. -/
theorem Takes.expires (takes : e.Takes (.timeout entry) move left)
    (waits : (e.node.pending.removeEntry e.host.marks entry.handle).1 = true) :
    Ledger.Step e.ledger none (entry.onTimeout.map (.timeout entry)).toList
      ⟨(e.node.pending.removeEntry e.host.marks entry.handle).2.1.entries, left.flatMap Frame.deliveries,
        (e.node.pending.removeEntry e.host.marks entry.handle).2.2.next⟩ := by
  obtain ⟨held, removed⟩ := PendingTable.removeEntry_of_true waits
  rw [removed, takes.deliveries, Marks.next_remove]
  exact .expire entry (PendingTable.holds_iff.mp held)

/-- If nobody is to be told, the entry is forgotten, and if it does not wait any more, nothing happens. -/
theorem Takes.lapses (takes : e.Takes (.timeout entry) move left)
    (untold : (e.node.pending.removeEntry e.host.marks entry.handle).1 = true → entry.onTimeout = none) :
    Ledger.Step e.ledger none []
      ⟨(e.node.pending.removeEntry e.host.marks entry.handle).2.1.entries, left.flatMap Frame.deliveries,
        (e.node.pending.removeEntry e.host.marks entry.handle).2.2.next⟩ := by
  cases waits : (e.node.pending.removeEntry e.host.marks entry.handle).1 with
  | false =>
    rw [PendingTable.removeEntry_of_false waits, takes.deliveries]
    exact .rest (List.Sublist.refl _) (Nat.le_refl _)
  | true =>
    have moved := takes.expires waits
    rwa [untold waits] at moved

end taking

section expressing

variable {e : Engine κ σ τ} {id : EntryId} {interest : Interest} {onData : κ} {onTimeout : Option κ}

/-- No entry is made for an interest that cannot be sent. -/
theorem expressed?_of_error {error : FaceError}
    (refused : e.encode (.interest (e.completion interest)) = .error error) :
    e.expressed? id interest onData onTimeout = none := by
  simp only [expressed?, completed_eq, refused]

theorem expressed?_of_ok {element : Bytes}
    (encoded : e.encode (.interest (e.completion interest)) = .ok element) :
    e.expressed? id interest onData onTimeout = some (e.entryFor id interest onData onTimeout) := by
  simp only [expressed?, completed_eq, encoded, hostAsking_marks, entryFor]

end expressing

variable [Scheduler σ] [Scheduler.Faithful σ]

/-- A call that may still run: the scheduler has it, or it is being run. -/
def Armed (e : Engine κ σ τ) (call : NodeCall κ) : Prop :=
  Scheduler.Faithful.Holds e.node.scheduler call ∨ call ∈ e.frames.flatMap Frame.calls

/-- What a node does in a step, with the entry that is made and the call that is given to it to be
run. -/
structure Effect (e : Engine κ σ τ) (made : Option (PendingInterest κ)) (given : Option (NodeCall κ))
    (events : List (Event κ)) (after : Engine κ σ τ) : Prop where
  moved : Ledger.Step e.ledger made (resolutions events) after.ledger
  /-- Calls may run later only if they were armed. -/
  armed : ∀ call, after.Armed call → e.Armed call ∨ ∃ delay, .armed delay call ∈ events
  /-- A timeout is armed when its entry is made. -/
  arms : ∀ delay entry, .armed delay (.timeout entry) ∈ events → made = some entry
  /-- An entry times out only when its timeout was armed, or is given to be run. -/
  expires : ∀ entry callback, .called (.timeout entry callback) ∈ events →
    e.Armed (.timeout entry) ∨ given = some (.timeout entry)

/-- A call that is run was to be run, or is given to the node for that. -/
theorem Takes.armed {e : Engine κ σ τ} {move : Move κ} {call : NodeCall κ} {left : List (Frame κ)}
    (takes : e.Takes call move left) : e.Armed call ∨ move.given? = some call := by
  cases takes with
  | given => exact .inr rfl
  | due frames =>
    refine .inl (.inr ?_)
    rw [frames]
    exact List.mem_cons_self

variable [Transport τ] {e after : Engine κ σ τ} {move : Move κ} {events : List (Event κ)}

omit [Scheduler.Faithful σ] in
/-- Whatever a node does moves its ledger. -/
theorem Does.moved (does : e.Does move events after) :
    Ledger.Step e.ledger (e.makes? move) (resolutions events) after.ledger := by
  cases does with
  | unsent refused =>
    rw [makes?, expressed?_of_error refused]
    exact .rest (List.Sublist.refl _) (Nat.le_refl _)
  | overrun encoded =>
    rw [makes?, expressed?_of_ok encoded]
    change Ledger.Step e.ledger _ [] ⟨_, [], e.host.marks.issue.next⟩
    rw [Marks.next_issue]
    exact .make rfl (List.nil_sublist _)
  | express encoded =>
    rw [makes?, expressed?_of_ok encoded]
    change Ledger.Step e.ledger _ [] ⟨_, e.ledger.delivering, e.host.marks.issue.next⟩
    rw [Marks.next_issue]
    exact .make rfl (List.Sublist.refl _)
  | @removePending id =>
    rw [resolutions_logged]
    change Ledger.Step e.ledger none [] ⟨_, _, (e.host.marks.removeAll _).next⟩
    rw [Marks.next_removeAll]
    exact .withdraw fun entry => entry.id == id
  | shutdown =>
    have cleared : e.node.pending.entries.filter (fun _ => !true) = [] := by simp
    change Ledger.Step e.ledger none [] ⟨[], _, (e.host.marks.removeAll _).next⟩
    rw [Marks.next_removeAll, ← cleared]
    exact .withdraw fun _ => true
  | stuck => exact .rest (List.nil_sublist _) (Nat.le_refl _)
  | undecodable brings | interest brings =>
    rw [brings.makes?_eq_none]
    exact .rest (List.Sublist.refl _) (Nat.le_refl _)
  | @data _ _ _ data brings =>
    rw [brings.makes?_eq_none, PendingTable.extractMatching_eq]
    change Ledger.Step e.ledger none [] ⟨_, _, (e.host.marks.removeAll _).next⟩
    rw [Marks.next_removeAll]
    exact .extract data
  | delayed takes =>
    rw [takes.makes?_eq_none]
    exact .rest (takes.deliveries ▸ List.Sublist.refl _) (Nat.le_refl _)
  | expire takes waits given =>
    have moved := takes.expires waits
    rw [given] at moved
    rw [takes.makes?_eq_none]
    exact moved
  | lapse takes untold =>
    rw [takes.makes?_eq_none]
    exact takes.lapses untold
  | drained frames | unreadable frames | offer frames =>
    obtain ⟨node, transport, host, under⟩ := e
    cases frames
    exact .rest (List.Sublist.refl _) (Nat.le_refl _)
  | deliver frames =>
    obtain ⟨node, transport, host, under⟩ := e
    cases frames
    exact .deliver _ _
  | finish frames =>
    obtain ⟨node, transport, host, under⟩ := e
    cases frames
    exact .rest (List.sublist_append_right _ _) (Nat.le_refl _)
  | resume frames =>
    obtain ⟨node, transport, host, under⟩ := e
    cases frames
    rw [resolutions_logged]
    exact .rest (List.Sublist.refl _) (Nat.le_refl _)
  | removeRegistered | unsetFilter =>
    rw [resolutions_logged]
    exact .rest (List.Sublist.refl _) (Nat.le_refl _)
  | _ => exact .rest (List.Sublist.refl _) (Nat.le_refl _)

/-- Calls may run later only if they were armed. -/
theorem Does.armed (does : e.Does move events after) {call : NodeCall κ} (armed : after.Armed call) :
    e.Armed call ∨ ∃ delay, .armed delay call ∈ events := by
  cases does with
  | overrun | stuck =>
    rcases armed with held | running
    · exact .inl (.inl held)
    · cases running
  | express _ arms | arm arms =>
    rcases armed with held | running
    · rcases Scheduler.Faithful.of_callLater arms held with rfl | before
      · exact .inr ⟨_, List.mem_cons_self⟩
      · exact .inl (.inl before)
    · exact .inl (.inr running)
  | shutdown => exact .inl (armed.imp_left Scheduler.Faithful.of_clear)
  | drained frames | unreadable frames =>
    obtain ⟨node, transport, host, under⟩ := e
    cases frames
    rcases armed with held | running
    · exact .inl (.inl (Scheduler.Faithful.of_takeDue (.inr held)))
    · rcases List.mem_append.mp running with due | left
      · exact .inl (.inl (Scheduler.Faithful.of_takeDue (.inl due)))
      · exact .inl (.inr left)
  | delayed takes | expire takes | lapse takes => exact .inl (armed.imp_right (takes.calls ·))
  | offer frames | deliver frames | resume frames =>
    obtain ⟨node, transport, host, under⟩ := e
    cases frames
    exact .inl armed
  | finish frames =>
    obtain ⟨node, transport, host, under⟩ := e
    cases frames
    exact .inl (armed.imp_right (List.mem_append_right _ ·))
  | _ => exact .inl armed

omit [Scheduler.Faithful σ] in
/-- A timeout is armed when its entry is made. -/
theorem Does.arms (does : e.Does move events after) {delay : Duration} {entry : PendingInterest κ}
    (member : .armed delay (.timeout entry) ∈ events) : e.makes? move = some entry := by
  cases does with
  | express encoded =>
    simp only [List.mem_cons, Event.armed.injEq, NodeCall.timeout.injEq, reduceCtorEq, List.not_mem_nil,
      or_false] at member
    rw [makes?, expressed?_of_ok encoded, member.2]
  | _ => simp at member

omit [Scheduler.Faithful σ] in
/-- A timeout is armed for the lifetime of its interest. -/
theorem Does.lifetime (does : e.Does move events after) {delay : Duration} {entry : PendingInterest κ}
    (member : .armed delay (.timeout entry) ∈ events) : entry.interest.lifetime = some delay := by
  cases does with
  | express encoded =>
    simp only [List.mem_cons, Event.armed.injEq, NodeCall.timeout.injEq, reduceCtorEq, List.not_mem_nil,
      or_false] at member
    rw [member.1, member.2]
    rfl
  | _ => simp at member

/-- An entry times out only when its timeout was armed, or is given to be run. -/
theorem Does.expires (does : e.Does move events after) {entry : PendingInterest κ} {callback : κ}
    (member : .called (.timeout entry callback) ∈ events) :
    e.Armed (.timeout entry) ∨ move.given? = some (.timeout entry) := by
  cases does with
  | expire takes =>
    simp only [List.mem_singleton, Event.called.injEq, Call.timeout.injEq] at member
    rw [member.1]
    exact takes.armed
  | _ => simp at member

/-- Every step of a node moves its ledger, and no timeout goes off that was not armed when the entry
was made. -/
theorem Step.effect (step : e.Step move events after) : e.Effect (e.makes? move) move.given? events after := by
  cases step with
  | act acted =>
    have does := does_of_act? acted
    exact ⟨does.moved, fun _ => does.armed, fun _ _ => does.arms, fun _ _ => does.expires⟩
  | drift drifts =>
    obtain ⟨frames, node, held, host⟩ := drifts
    constructor
    case moved =>
      rw [ledger, ledger, node, frames]
      exact .rest (List.Sublist.refl _) host.issued
    case armed =>
      intro call armed
      rw [Armed, frames] at armed
      exact .inl (armed.imp_left (held call))
    case arms => simp
    case expires => simp

/-- A call that may still run was armed at first or has been armed since. -/
theorem Run.armed {start e : Engine κ σ τ} {stages : List (Stage κ σ τ)} {call : NodeCall κ}
    (run : start.Run stages e) (armed : e.Armed call) :
    start.Armed call ∨ ∃ delay, .armed delay call ∈ NamedData.Stage.seen stages := by
  have all : ∀ call, e.Armed call →
      start.Armed call ∨ ∃ delay, .armed delay call ∈ NamedData.Stage.seen stages := by
    apply run.invariant
    · exact fun call held => .inl held
    · intro past stage _ follows before call held
      rw [NamedData.Stage.seen_concat]
      rcases follows.1.effect.armed call held with earlier | ⟨delay, now⟩
      · rcases before call earlier with first | ⟨delay, since⟩
        · exact .inl first
        · exact .inr ⟨delay, List.mem_append_left _ since⟩
      · exact .inr ⟨delay, List.mem_append_right _ now⟩
  exact all call armed

end Engine

end NamedData
