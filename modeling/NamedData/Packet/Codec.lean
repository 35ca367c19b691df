import NamedData.Json.Read
import NamedData.Json.Write
import NamedData.Interest.Filter
import NamedData.EntryId
import NamedData.Face.Config

/-!
The JSON form of names, interests, data and packets.

Writing is compact, with the fields in their order; octets are arrays of numbers, an absent value
is `null`, a span of time is an object of seconds and nanoseconds, and a packet is an object with
the packet's kind as its only key. Reading accepts the fields in any order and passes over unknown
ones, except in spans of time.
-/
namespace NamedData

open Json

/-! ## Writing -/

def Duration.toJson (d : Duration) : Bytes :=
  writeObject [writeMember "secs" (decimal d.secs.toNat),
    writeMember "nanos" (decimal d.nanos.toNat)]

def Component.toJson (c : Component) : Bytes := writeOctets c.octets

def Name.toJson (n : Name) : Bytes :=
  writeObject [writeMember "components" (writeArray (n.components.map Component.toJson))]

def InterestFilter.toJson (f : InterestFilter) : Bytes :=
  writeObject [writeMember "prefix" f.root.toJson]

def EntryId.toJson (id : EntryId) : Bytes := decimal id.value.toNat

def Interest.toJson (i : Interest) : Bytes :=
  writeObject [
    writeMember "name" i.name.toJson,
    writeMember "min_suffix_components" (writeOption (decimal ·.toNat) i.minSuffix),
    writeMember "max_suffix_components" (writeOption (decimal ·.toNat) i.maxSuffix),
    writeMember "exclude" (writeArray (i.exclude.map Component.toJson)),
    writeMember "child_selector" (writeOption (decimal ·.toNat) i.childSelector),
    writeMember "must_be_fresh" (writeBool i.mustBeFresh),
    writeMember "interest_lifetime" (writeOption Duration.toJson i.lifetime),
    writeMember "nonce" (writeOption (decimal ·.toNat) i.nonce)]

def Data.toJson (d : Data) : Bytes :=
  writeObject [
    writeMember "name" d.name.toJson,
    writeMember "content" (writeOctets d.content),
    writeMember "freshness_period" (writeOption Duration.toJson d.freshness)]

def Packet.toJson : Packet → Bytes
  | .interest i => writeObject [writeMember "Interest" i.toJson]
  | .data d => writeObject [writeMember "Data" d.toJson]

def FaceConfig.toJson (c : FaceConfig) : Bytes :=
  writeObject [
    writeMember "process_events_interval_ms" (decimal c.processEventsMillis.toNat),
    writeMember "stop_when_interval_ms" (decimal c.stopWhenMillis.toNat),
    writeMember "default_interest_lifetime_ms" (decimal c.interestLifetimeMillis.toNat),
    writeMember "max_ndn_packet_size" (decimal c.maxPacketSize.toNat)]

/-! ## Reading -/

namespace Json

def uint8 : Reader UInt8 := mapRead UInt8.ofNat (natural UInt8.size)

def uint32 : Reader UInt32 := mapRead UInt32.ofNat (natural UInt32.size)

def uint64 : Reader UInt64 := mapRead UInt64.ofNat (natural UInt64.size)

def octets : Reader Bytes := array uint8

def component : Reader Component := mapRead Component.mk octets

def entryId : Reader EntryId := mapRead EntryId.mk uint64

/-- The fields of a span of time met so far. -/
structure DurationSlots where
  secs : Option UInt64 := none
  nanos : Option UInt32 := none

/-- Seconds and nanoseconds make a span unless the carry overflows. -/
def spanOf (secs : UInt64) (nanos : UInt32) : Except Fault Duration :=
  required (Duration.ofParts? secs nanos)

def durationLayout : Layout DurationSlots Duration where
  blank := {}
  member key :=
    if key = ascii "secs".toList then
      some (slot (·.secs) (fun s v => { s with secs := some v }) uint64)
    else if key = ascii "nanos".toList then
      some (slot (·.nanos) (fun s v => { s with nanos := some v }) uint32)
    else none
  unknown := refuseMember
  complete s :=
    match required s.secs, required s.nanos with
    | .ok secs, .ok nanos => spanOf secs nanos
    | _, _ => .error .mismatched
  inOrder text :=
    match nextField true uint64 text with
    | .error fault => .error fault
    | .ok (secs, text) =>
      match nextField false uint32 text with
      | .error fault => .error fault
      | .ok (nanos, text) =>
        match spanOf secs nanos with
        | .error fault => .error fault
        | .ok d => .ok (d, text)

def duration : Reader Duration := record durationLayout

def nameLayout : Layout (Option (List Component)) Name where
  blank := none
  member key :=
    if key = ascii "components".toList then
      some (slot id (fun _ v => some v) (array component))
    else none
  unknown := skipMember
  complete s :=
    match required s with
    | .ok components => .ok ⟨components⟩
    | .error fault => .error fault
  inOrder := mapRead Name.mk (nextField true (array component))

def name : Reader Name := record nameLayout

def filterLayout : Layout (Option Name) InterestFilter where
  blank := none
  member key :=
    if key = ascii "prefix".toList then
      some (slot id (fun _ v => some v) name)
    else none
  unknown := skipMember
  complete s :=
    match required s with
    | .ok root => .ok ⟨root⟩
    | .error fault => .error fault
  inOrder := mapRead InterestFilter.mk (nextField true name)

def filter : Reader InterestFilter := record filterLayout

/-- The fields of an interest met so far. -/
structure InterestSlots where
  name : Option Name := none
  minSuffix : Option (Option UInt64) := none
  maxSuffix : Option (Option UInt64) := none
  exclude : Option (List Component) := none
  childSelector : Option (Option UInt8) := none
  mustBeFresh : Option Bool := none
  lifetime : Option (Option Duration) := none
  nonce : Option (Option UInt32) := none

def interestLayout : Layout InterestSlots Interest where
  blank := {}
  member key :=
    if key = ascii "name".toList then
      some (slot (·.name) (fun s v => { s with name := some v }) name)
    else if key = ascii "min_suffix_components".toList then
      some (slot (·.minSuffix) (fun s v => { s with minSuffix := some v }) (optional uint64))
    else if key = ascii "max_suffix_components".toList then
      some (slot (·.maxSuffix) (fun s v => { s with maxSuffix := some v }) (optional uint64))
    else if key = ascii "exclude".toList then
      some (slot (·.exclude) (fun s v => { s with exclude := some v }) (array component))
    else if key = ascii "child_selector".toList then
      some (slot (·.childSelector) (fun s v => { s with childSelector := some v }) (optional uint8))
    else if key = ascii "must_be_fresh".toList then
      some (slot (·.mustBeFresh) (fun s v => { s with mustBeFresh := some v }) bool)
    else if key = ascii "interest_lifetime".toList then
      some (slot (·.lifetime) (fun s v => { s with lifetime := some v }) (optional duration))
    else if key = ascii "nonce".toList then
      some (slot (·.nonce) (fun s v => { s with nonce := some v }) (optional uint32))
    else none
  unknown := skipMember
  complete s :=
    match required s.name, required s.exclude, required s.mustBeFresh with
    | .ok name, .ok exclude, .ok mustBeFresh =>
      .ok {
        name := name
        minSuffix := s.minSuffix.getD none
        maxSuffix := s.maxSuffix.getD none
        exclude := exclude
        childSelector := s.childSelector.getD none
        mustBeFresh := mustBeFresh
        lifetime := s.lifetime.getD none
        nonce := s.nonce.getD none }
    | _, _, _ => .error .mismatched
  inOrder text := do
    let (name, text) ← nextField true name text
    let (minSuffix, text) ← nextField false (optional uint64) text
    let (maxSuffix, text) ← nextField false (optional uint64) text
    let (exclude, text) ← nextField false (array component) text
    let (childSelector, text) ← nextField false (optional uint8) text
    let (mustBeFresh, text) ← nextField false bool text
    let (lifetime, text) ← nextField false (optional duration) text
    let (nonce, text) ← nextField false (optional uint32) text
    return ({ name, minSuffix, maxSuffix, exclude, childSelector, mustBeFresh, lifetime, nonce },
      text)

def interest : Reader Interest := record interestLayout

/-- The fields of data met so far. -/
structure DataSlots where
  name : Option Name := none
  content : Option Bytes := none
  freshness : Option (Option Duration) := none

def dataLayout : Layout DataSlots Data where
  blank := {}
  member key :=
    if key = ascii "name".toList then
      some (slot (·.name) (fun s v => { s with name := some v }) name)
    else if key = ascii "content".toList then
      some (slot (·.content) (fun s v => { s with content := some v }) octets)
    else if key = ascii "freshness_period".toList then
      some (slot (·.freshness) (fun s v => { s with freshness := some v }) (optional duration))
    else none
  unknown := skipMember
  complete s :=
    match required s.name, required s.content with
    | .ok name, .ok content => .ok { name, content, freshness := s.freshness.getD none }
    | _, _ => .error .mismatched
  inOrder text := do
    let (name, text) ← nextField true name text
    let (content, text) ← nextField false octets text
    let (freshness, text) ← nextField false (optional duration) text
    return ({ name, content, freshness }, text)

def data : Reader Data := record dataLayout

/-- The fields of a configuration met so far. -/
structure ConfigSlots where
  processEventsMillis : Option UInt64 := none
  stopWhenMillis : Option UInt64 := none
  interestLifetimeMillis : Option UInt64 := none
  maxPacketSize : Option UInt64 := none

/-- A configuration takes its default in every field that was not met. -/
def ConfigSlots.toConfig (s : ConfigSlots) : FaceConfig :=
  let standard : FaceConfig := {}
  { processEventsMillis := s.processEventsMillis.getD standard.processEventsMillis
    stopWhenMillis := s.stopWhenMillis.getD standard.stopWhenMillis
    interestLifetimeMillis := s.interestLifetimeMillis.getD standard.interestLifetimeMillis
    maxPacketSize := s.maxPacketSize.getD standard.maxPacketSize }

def configLayout : Layout ConfigSlots FaceConfig where
  blank := {}
  member key :=
    if key = ascii "process_events_interval_ms".toList then
      some (slot (·.processEventsMillis) (fun s v => { s with processEventsMillis := some v })
        uint64)
    else if key = ascii "stop_when_interval_ms".toList then
      some (slot (·.stopWhenMillis) (fun s v => { s with stopWhenMillis := some v }) uint64)
    else if key = ascii "default_interest_lifetime_ms".toList then
      some (slot (·.interestLifetimeMillis) (fun s v => { s with interestLifetimeMillis := some v })
        uint64)
    else if key = ascii "max_ndn_packet_size".toList then
      some (slot (·.maxPacketSize) (fun s v => { s with maxPacketSize := some v }) uint64)
    else none
  unknown := skipMember
  complete s := .ok s.toConfig
  inOrder text := do
    let (processEventsMillis, text) ← nextField? true uint64 text
    let (stopWhenMillis, text) ← nextField? processEventsMillis.isNone uint64 text
    let (interestLifetimeMillis, text) ← nextField? stopWhenMillis.isNone uint64 text
    let (maxPacketSize, text) ← nextField? interestLifetimeMillis.isNone uint64 text
    let slots : ConfigSlots :=
      { processEventsMillis, stopWhenMillis, interestLifetimeMillis, maxPacketSize }
    return (slots.toConfig, text)

def config : Reader FaceConfig := record configLayout

/-- A packet: an object whose only key is the packet's kind. A bare kind has no packet. -/
def packet : Reader Packet := fun text =>
  match skipBlanks text with
  | [] => .error .truncated
  | b :: rest =>
    if b = Sign.openBrace then
      match skipBlanks rest with
      | [] => .error .truncated
      | c :: tail =>
        if c = Sign.quote then
          match string tail with
          | .error fault => .error fault
          | .ok (kind, rest) =>
            let body : Option (Reader Packet) :=
              if kind = ascii "Interest".toList then some (mapRead .interest interest)
              else if kind = ascii "Data".toList then some (mapRead .data data)
              else none
            match body with
            | none => .error .mismatched
            | some body =>
              match colon rest with
              | .error fault => .error fault
              | .ok ((), rest) =>
                match body rest with
                | .error fault => .error fault
                | .ok (p, rest) =>
                  match closeObject rest with
                  | .error fault => .error fault
                  | .ok ((), rest) => .ok (p, rest)
        else .error (typeFault (c :: tail))
    else if b = Sign.quote then
      match string rest with
      | .error fault => .error fault
      | .ok _ => .error .mismatched
    else .error .malformed

end Json

/-- `JsonWireFormat`: the packet format used unless a node is given another. -/
def jsonFormat : WireFormat where
  encode p := .ok p.toJson
  decode element :=
    match Json.document Json.packet element with
    | .ok p => .ok p
    | .error fault => .error (.undecodable fault)

end NamedData
