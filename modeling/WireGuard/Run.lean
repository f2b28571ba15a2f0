import WireGuard.Library.Guarded
import WireGuard.Operations.ReceiveSpec
import WireGuard.Operations.Poll

/-!
# Runs of one tunnel and what they show

A run is any list of calls with any arguments. The events of a transition are
read off the call, what it returned and the states around it: the session and
counter of a transport datagram that was returned or accepted, the timestamp
inside an initiation that was emitted or answered, and each new session.
-/

set_option autoImplicit false

namespace WireGuard
open ByteString

inductive Op where
  | encapsulate (now : Now) (payload : Payload) (out : List UInt8) (rng : Entropy)
  | decapsulate (now : Now) (remote : List UInt8) (underLoad : Bool) (datagram out : List UInt8)
      (rng : Entropy)
  | poll (now : Now) (out : List UInt8) (rng : Entropy)
  | initiateHandshake (now : Now) (out : List UInt8) (rng : Entropy)
  | setMtu (mtu : Option NonZeroU16)
  | reset

/-- The datagram that a call hands in. -/
def Op.datagram? : Op → Option (List UInt8)
  | .decapsulate _ _ _ datagram _ _ => some datagram
  | _ => none

inductive Output where
  | encapsulated (result : Except Error Encapsulated)
  | decapsulated (result : Except Error Received)
  | polled (result : Except Error PollOutput)
  | initiated (result : Except Error (List UInt8))
  | none
  deriving DecidableEq

variable {P : Primitives}

def step (C : ChaChaImpl) (t : Tunnel P) : Op → Tunnel P × Output
  | .encapsulate now payload out rng =>
    let o := t.encapsulate C now payload out rng
    (o.tunnel,.encapsulated o.result)
  | .decapsulate now remote underLoad datagram out rng =>
    let o := t.decapsulate C now remote underLoad datagram out rng
    (o.tunnel,.decapsulated o.result)
  | .poll now out rng =>
    let o := t.poll C now out rng
    (o.tunnel,.polled o.result)
  | .initiateHandshake now out rng =>
    let o := t.initiateHandshake now out rng
    (o.tunnel,.initiated o.result)
  | .setMtu mtu => (t.setMtu mtu,.none)
  | .reset => (t.reset,.none)

abbrev Transition (P : Primitives) := Machine.Transition (Tunnel P) Op Output

/-- The transport datagram that a call returned. -/
def Output.transport? : Output → Option (List UInt8)
  | .encapsulated (.ok (.transport wire)) => some wire
  | .polled (.ok (.send wire .keepalive)) => some wire
  | .polled (.ok (.send wire .persistentKeepalive)) => some wire
  | _ => Option.none

/-- The handshake initiation that a call returned. -/
def Output.initiation? : Output → Option (List UInt8)
  | .encapsulated (.ok (.handshakeInitiation wire)) => some wire
  | .polled (.ok (.send wire .handshakeInitiation)) => some wire
  | .polled (.ok (.send wire .handshakeRetransmit)) => some wire
  | .initiated (.ok wire) => some wire
  | _ => Option.none

inductive Event where
  | created (tag : ℕ) (keys : SessionKeys) (time : Ticks)
  | sent (tag counter : ℕ) (time : Ticks)
  | accepted (tag counter : ℕ) (time : Ticks)
  | initiated (timestamp : Tai64N)
  | answered (timestamp : Tai64N)
  deriving DecidableEq

/-- The timestamp that the key schedule of the view opens. -/
def InitiationView.openTimestamp (P : Primitives) (K : HandshakeConstants) (v : InitiationView) :
    Option Tai64N :=
  (openArray P (m := 12) (v.timestampKey P K) zeroNonce (v.hashStatic P K).toList
    v.encryptedTimestamp).map Tai64N.mk

/-- An emitted initiation as its sender sees it, with the ephemeral secret kept. -/
def sentView (t : Tunnel P) (i : InFlightInitiation) (m : HandshakeInitiation) :
    InitiationView :=
  ⟨t.peerPublic,m.ephemeral,P.x25519 i.ephSecret t.peerPublic,t.precomputedSs,
    m.encryptedStatic,m.encryptedTimestamp⟩

def createdEvents : Option Session → List Event
  | some s => [.created s.tag s.keys s.created]
  | none => []

def sentEvents (x : Transition P) (wire : List UInt8) : List Event :=
  match parse wire, x.before.current with
  | .ok (.transportData m), some s => [.sent s.tag m.counter x.after.lastNow]
  | _, _ => []

def initiatedEvents (x : Transition P) (wire : List UInt8) : List Event :=
  match parse wire, x.after.inflight with
  | .ok (.handshakeInitiation m), some i =>
    match (sentView x.after i m).openTimestamp P x.after.constants with
    | some timestamp => [.initiated timestamp]
    | none => []
  | _, _ => []

def acceptedEvents (x : Transition P) (datagram : List UInt8) : List Event :=
  match parse datagram with
  | .ok (.transportData m) =>
    match (x.before.sessionWithIndex m.receiverIndex).bind x.before.slot with
    | some s => [.accepted s.tag m.counter x.after.lastNow]
    | none => []
  | _ => []

def answeredEvents (x : Transition P) (datagram wire : List UInt8) : List Event :=
  match parse wire, parse datagram with
  | .ok (.handshakeResponse _), .ok (.handshakeInitiation m) =>
    match consumeInitiation P x.before.constants x.before.localStatic x.before.localPublic
      x.before.peerPublic x.before.precomputedSs m with
    | .ok consumed => .answered consumed.timestamp :: createdEvents x.after.next
    | .error _ => []
  | _, _ => []

def receivedEvents (x : Transition P) (datagram : List UInt8) : Received → List Event
  | .handshakeComplete => createdEvents x.after.current
  | .reply wire => answeredEvents x datagram wire
  | .data _ => acceptedEvents x datagram
  | .keepalive => acceptedEvents x datagram
  | .cookieStored => []

def eventsOf (x : Transition P) : List Event :=
  match x.output.transport?, x.output.initiation? with
  | some wire, _ => sentEvents x wire
  | none, some wire => initiatedEvents x wire
  | none, none =>
    match x.input, x.output with
    | .decapsulate _ _ _ datagram _ _, .decapsulated (.ok r) => receivedEvents x datagram r
    | _, _ => []

/-- The run of the calls `ops` on a tunnel. -/
def run (C : ChaChaImpl) (t : Tunnel P) (ops : List Op) : List (Transition P) :=
  Machine.history (step C) t ops

def events (C : ChaChaImpl) (t : Tunnel P) (ops : List Op) : List Event :=
  (run C t ops).flatMap eventsOf

def specimenPayload : Payload := ⟨[7],by decide⟩

/-- A handshake that a peer answers, one payload out, one keepalive in and the
same keepalive again, all at the origin of time. -/
def specimenOps : List Op :=
  let now : Now := ⟨Ticks.zero,0,0⟩
  let out : List UInt8 := List.replicate 148 0
  [.initiateHandshake now out (List.replicate 2 (some (fun _ => 0))),
    .decapsulate now [] false (2::List.replicate 91 0) out [],
    .encapsulate now specimenPayload out [],
    .decapsulate now [] false (4::List.replicate 31 0) out [],
    .decapsulate now [] false (4::List.replicate 31 0) out []]

end WireGuard
