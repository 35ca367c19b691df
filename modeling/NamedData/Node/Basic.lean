import NamedData.Node.Call
import NamedData.Node.Scheduler
import NamedData.Table.Registrations
import NamedData.Packet.Basic
import NamedData.Face.Config

/-!
The state of a node, and what it shares with the rest of its host.
-/
namespace NamedData

/-- A node: the protocol tables, the armed work, the packet format and the tunables. -/
structure Node (κ : Type) (σ : Type → Type) where
  config : FaceConfig
  format : WireFormat
  scheduler : σ (NodeCall κ)
  pending : PendingTable κ := {}
  filters : FilterTable κ := {}
  registrations : RegistrationTable := {}

/-- What all nodes of one host share: the clock, the counter of identifiers, the source of nonces,
and the marks of the entries ever made. -/
structure Host where
  now : Instant
  nextId : EntryId := .first
  nonces : Nat → UInt32
  noncesDrawn : Nat := 0
  marks : Marks := {}

namespace Host

/-- `EntryId::next`: draw an identifier. -/
def drawId (p : Host) : EntryId × Host := (p.nextId, { p with nextId := p.nextId.succ })

/-- Draw a nonce. -/
def drawNonce (p : Host) : UInt32 × Host :=
  (p.nonces p.noncesDrawn, { p with noncesDrawn := p.noncesDrawn + 1 })

end Host

/-- What `Node::express_interest` sends an interest with: its own lifetime or the configured one, and
its own nonce or one drawn for it. -/
def Interest.completed (i : Interest) (config : FaceConfig) (p : Host) :
    Interest × Duration × Host :=
  let lifetime := i.lifetime.getD config.defaultLifetime
  match i.nonce with
  | some _ => ({ i with lifetime := some lifetime }, lifetime, p)
  | none =>
    let (nonce, p) := p.drawNonce
    ({ i with lifetime := some lifetime, nonce := some nonce }, lifetime, p)

end NamedData
