import NamedData.Proofs.Node.Resolution
import NamedData.Proofs.Node.Sending
import NamedData.Proofs.Packet.RoundTrip

/-!
Expressing an interest.

A node completes the interest, encodes it, and looks how long that is. Only then does it change anything: it
keeps the entry, arms its timeout and sends the element (`Engine.express_eq_sent`). What was refused before leaves
no trace but a nonce that was drawn (`Engine.express_eq_refused`); when the transport refuses, the entry stays and
so does its timeout.
-/
namespace NamedData

/-- A scheduler that arms every call whose deadline the clock can show. -/
class Scheduler.Willing (σ : Type → Type) [Scheduler σ] : Prop where
  arms {α : Type} (s : σ α) {now : Instant} {delay : Duration} (call : α) :
    (now.add? delay).isSome = true → ∃ after, Scheduler.callLater? s now delay call = some after

instance : Scheduler.Willing DelayedCalls where
  arms table now delay call shown := by
    obtain ⟨due, ends⟩ := Option.isSome_iff_exists.mp shown
    exact ⟨table.callAt due call, by simp [Scheduler.callLater?, DelayedCalls.callLater?, ends]⟩

instance : Scheduler.Willing Outbox where
  arms _ _ _ _ _ := ⟨_, rfl⟩

namespace Engine

variable {κ τ : Type} {σ : Type → Type}

section encode

variable {e : Engine κ σ τ} {packet : Packet} {element : Bytes} {cause : WireError}

theorem encode_of_error (failed : e.node.format.encode packet = .error cause) :
    e.encode packet = .error (.wire cause) := by
  simp only [encode, failed]

theorem encode_of_long (encoded : e.node.format.encode packet = .ok element)
    (long : e.node.config.maxPacketSize.toNat < element.length) :
    e.encode packet = .error (.packetTooLarge element.length e.node.config.maxPacketSize.toNat) := by
  simp only [encode, encoded, if_pos long]

theorem encode_of_short (encoded : e.node.format.encode packet = .ok element)
    (short : element.length ≤ e.node.config.maxPacketSize.toNat) : e.encode packet = .ok element := by
  simp only [encode, encoded, if_neg (Nat.not_lt.mpr short)]

end encode

variable [Transport τ] {e : Engine κ σ τ} {id : EntryId} {interest : Interest} {onData : κ}
variable {onTimeout : Option κ} {element : Bytes}

/-- Whether an element is sent is up to the transport. -/
theorem transmit_done_iff :
    (e.transmit element).2.1 = .done ↔ (Transport.send e.transport element).1 = .ok () := by
  rcases answered : Transport.send e.transport element with ⟨_ | _, _⟩ <;> simp [transmit, answered]

theorem transmit_failed {cause : TransportError}
    (refused : (Transport.send e.transport element).1 = .error cause) :
    (e.transmit element).2.1 = .failed (.transport cause) := by
  rcases answered : Transport.send e.transport element with ⟨_ | _, _⟩ <;> rw [answered] at refused
  · cases refused
    simp [transmit, answered]
  · cases refused

variable [Scheduler σ]

/-- An interest that cannot be encoded, or whose encoding is too long, is not expressed. -/
theorem express_eq_refused {error : FaceError}
    (refused : e.encode (.interest (e.completion interest)) = .error error) :
    e.express id interest onData onTimeout =
      ({ e with host := e.hostAsking interest }, .failed error, []) := by
  simp only [express, completed_eq, refused]

/-- An interest that can be sent is kept, its timeout is armed, and it is sent. -/
theorem express_eq_sent {scheduler : σ (NodeCall κ)}
    (encoded : e.encode (.interest (e.completion interest)) = .ok element)
    (armed : Scheduler.callLater? e.node.scheduler e.host.now (e.lifetimeOf interest)
      (.timeout (e.entryFor id interest onData onTimeout)) = some scheduler) :
    e.express id interest onData onTimeout =
      let sent := transmit { e with
        host := { e.hostAsking interest with marks := e.host.marks.issue }
        node := { e.node with
          pending := ⟨e.node.pending.entries ++ [e.entryFor id interest onData onTimeout]⟩
          scheduler } } element
      (sent.1, sent.2.1,
        .armed (e.lifetimeOf interest) (.timeout (e.entryFor id interest onData onTimeout)) ::
          sent.2.2) := by
  rw [entryFor] at armed
  simp only [express, completed_eq, encoded, PendingTable.add, hostAsking_marks, hostAsking_now, armed, entryFor]

/-- A request has failed without a trace in the tables, among the armed calls or at the transport. -/
structure Fails (e after : Engine κ σ τ) (result : Result) (seen : List (Event κ)) (error : FaceError) :
    Prop where
  node : after.node = e.node
  transport : after.transport = e.transport
  frames : after.frames = e.frames
  seen : seen = []
  result : result = .failed error

/-- An interest has got its entry and its timeout and was handed to the transport once, which decided how the
request ended. -/
structure Expresses (e : Engine κ σ τ) (entry : PendingInterest κ) (lifetime : Duration) (element : Bytes)
    (after : Engine κ σ τ) (result : Result) (seen : List (Event κ)) : Prop where
  pending : after.node.pending.entries = e.node.pending.entries ++ [entry]
  marks : after.host.marks = e.host.marks.issue
  armed : Scheduler.callLater? e.node.scheduler e.host.now lifetime (.timeout entry) =
    some after.node.scheduler
  transport : after.transport = (Transport.send e.transport element).2
  frames : after.frames = e.frames
  seen : seen = [.armed lifetime (.timeout entry), .sent element]
  done : result = .done ↔ (Transport.send e.transport element).1 = .ok ()
  failed : ∀ cause, (Transport.send e.transport element).1 = .error cause → result = .failed (.transport cause)

/-- A node that speaks JSON over one end of a link. -/
def speaking (limit : UInt64) (faults : Faults) : Engine Unit DelayedCalls LinkEnd where
  node := { untouched.node with config := { maxPacketSize := limit }, format := jsonFormat }
  transport := { faults }
  host := untouched.host

/-- An interest for anything, as it is sent, and the request for it. -/
def anything : Interest := { name := ⟨[]⟩, lifetime := some (.ofMillis 4000), nonce := some 0 }

def askAnything : Request Unit := .express .first { name := ⟨[]⟩ } () none

end Engine

end NamedData
