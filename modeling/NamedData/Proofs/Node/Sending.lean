import NamedData.Proofs.Node.Acting

/-!
What a node hands to its transport.

A step uses the transport at most once. Only three operations hand it anything, and each of them looks first at
how long that is (`Engine.Does.hands`), so nothing is handed over that is longer than the configuration of the
node allows (`Engine.Run.hands`).
-/
namespace NamedData

/-- The element that is handed to the transport. -/
def Event.handed? {κ : Type} : Event κ → Option Bytes
  | .sent element => some element
  | _ => none

/-- The elements that are handed to the transport, in order. -/
def handed {κ : Type} (events : List (Event κ)) : List Bytes := events.filterMap Event.handed?

@[simp] theorem handed_nil {κ : Type} : handed ([] : List (Event κ)) = [] := rfl

@[simp] theorem handed_logged {κ : Type} (notices : List Notice) :
    handed (notices.map (Event.logged (κ := κ))) = [] := by
  simp [handed, Event.handed?]

/-- What may be done with a transport in one step, and the elements that are handed to it then. -/
inductive Transport.Use {τ : Type} [Transport τ] (transport : τ) : List Bytes → τ → Prop
  | rest : Use transport [] transport
  | send (element : Bytes) : Use transport [element] (Transport.send transport element).2
  | receive : Use transport [] (Transport.receive transport).2
  | register (root : Name) (options : RegistrationOptions) :
      Use transport [] (Transport.register transport root options).2
  | close : Use transport [] (Transport.close transport)

theorem Transport.Use.of_received {τ : Type} [Transport τ] {transport after : τ}
    {arrival : Except TransportError (Option Bytes)}
    (received : Transport.receive transport = (arrival, after)) : Transport.Use transport [] after := by
  have use : Transport.Use transport [] (Transport.receive transport).2 := .receive
  rwa [received] at use

namespace Engine

variable {κ τ : Type} {σ : Type → Type}

/-- What is encoded for sending is not too long. -/
theorem short_of_encode {e : Engine κ σ τ} {packet : Packet} {element : Bytes}
    (encoded : e.encode packet = .ok element) : element.length ≤ e.node.config.maxPacketSize.toNat := by
  rw [encode] at encoded
  split at encoded
  · cases encoded
  · split at encoded
    · cases encoded
    · next fits =>
      cases encoded
      exact Nat.not_lt.mp fits

variable [Transport τ]

/-- The outcome of something a node did: the transport was used once or not at all, what was handed to it is not
too long, and the configuration is what it was. -/
structure Hands (e after : Engine κ σ τ) (events : List (Event κ)) : Prop where
  use : Transport.Use e.transport (handed events) after.transport
  short : ∀ element ∈ handed events, element.length ≤ e.node.config.maxPacketSize.toNat
  config : after.node.config = e.node.config

variable {e after : Engine κ σ τ} {events : List (Event κ)} {move : Move κ}

/-- Doing something that hands nothing to the transport. -/
theorem Hands.of_none (silent : handed events = []) (use : Transport.Use e.transport [] after.transport)
    (config : after.node.config = e.node.config) : e.Hands after events :=
  ⟨silent ▸ use, by simp [silent], config⟩

/-- Doing something that has nothing to do with the transport. -/
theorem Hands.still (silent : handed events = []) (transport : after.transport = e.transport)
    (config : after.node.config = e.node.config) : e.Hands after events :=
  .of_none silent (transport ▸ .rest) config

/-- An element that is dispatched was received, or has nothing to do with the transport. -/
theorem Brings.use {element : Bytes} {transport : τ} (brings : e.Brings element move transport) :
    Transport.Use e.transport [] transport := by
  cases brings with
  | receive => exact .rest
  | read _ received => exact .of_received received

variable [Scheduler σ]

/-- **A move of a node uses the transport at most once,** and hands it nothing that is too long. -/
theorem Does.hands (does : e.Does move events after) : e.Hands after events := by
  cases does with
  | @express _ _ _ _ element _ encoded | @put _ element encoded =>
    exact ⟨.send element, by simpa [handed, Event.handed?] using short_of_encode encoded, rfl⟩
  | @send element short => exact ⟨.send element, by simpa [handed, Event.handed?] using short, rfl⟩
  | @granted _ root _ _ options _ answered | @refused _ root _ _ options _ _ answered =>
    have use : Transport.Use e.transport [] (Transport.register e.transport root options).2 :=
      .register root options
    rw [answered] at use
    exact .of_none rfl use rfl
  | undecodable brings | interest brings | data brings => exact .of_none rfl brings.use rfl
  | drained _ received | unreadable _ received => exact .of_none rfl (.of_received received) rfl
  | shutdown => exact .of_none rfl .close rfl
  | resume | removePending | removeRegistered | unsetFilter => exact .still (handed_logged _) rfl rfl
  | _ => exact .still rfl rfl rfl

variable [Scheduler.Faithful σ] {start : Engine κ σ τ} {stages : List (Stage κ σ τ)}

theorem Step.config (step : e.Step move events after) : after.node.config = e.node.config := by
  cases step with
  | act acted => exact (does_of_act? acted).hands.config
  | drift drifts => rw [drifts.node]

theorem Run.config (run : start.Run stages e) : e.node.config = start.node.config := by
  apply run.invariant
  · rfl
  · intro past stage _ follows same
    exact follows.1.config.trans same

/-- **Over a whole run,** the transport is handed what the events say and nothing else by the node, and none of it
is longer than the configuration allows. -/
theorem Run.hands {stage : Stage κ σ τ} (run : start.Run stages e) (member : stage ∈ stages) :
    (stage.move = .drift ∨ Transport.Use stage.before.transport (handed stage.events) stage.after.transport) ∧
      ∀ element ∈ handed stage.events, element.length ≤ start.node.config.maxPacketSize.toNat := by
  obtain ⟨past, future, rfl⟩ := List.append_of_mem member
  obtain ⟨before, follows⟩ := run.at_stage
  obtain ⟨before, move, events, after⟩ := stage
  rw [← Run.config before]
  cases follows.1 with
  | act acted =>
    obtain ⟨use, short, -⟩ := (does_of_act? acted).hands
    exact ⟨.inr use, short⟩
  | drift => exact ⟨.inl rfl, by simp⟩

end Engine

end NamedData
