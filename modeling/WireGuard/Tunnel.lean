import WireGuard.Cookie
import WireGuard.Session
import WireGuard.Timers

/-!
# Tunnel state

What a tunnel is configured with never changes and is consistent from
construction on, so `Identity` carries the proofs. The rest of the state is
flat. `sessionsCreated` is a ghost counter that names sessions.
-/

set_option autoImplicit false

namespace WireGuard
open ByteString

structure NonZeroU16 where
  get : ℕ
  pos : 0 < get
  le : get ≤ 65535
  deriving DecidableEq, Repr

structure Config where
  localStatic : Bytes 32
  peerPublic : Bytes 32
  psk : Bytes 32
  persistentKeepalive : Option NonZeroU16
  mtu : Option NonZeroU16

structure Stats where
  txTransport : ℕ
  rxTransport : ℕ
  txBytes : ℕ
  rxBytes : ℕ
  txKeepalives : ℕ
  rxKeepalives : ℕ
  handshakesInitiated : ℕ
  handshakesResponded : ℕ
  handshakesCompleted : ℕ
  authFailures : ℕ
  mac1Failures : ℕ
  replaysDropped : ℕ
  cookiesReceived : ℕ
  cookiesSent : ℕ
  lastHandshakeAt : Option Ticks
  deriving DecidableEq, Repr

def Stats.default : Stats := ⟨0,0,0,0,0,0,0,0,0,0,0,0,0,0,none⟩

inductive Slot where
  | previous
  | current
  | next
  deriving DecidableEq, Repr

/-- A slice: its length fits the target's signed word. -/
abbrev Payload := {bytes : List UInt8 // bytes.length ≤ isizeMax}

def paddedLen (payloadLen : ℕ) (mtu : Option NonZeroU16) : ℕ :=
  let aligned :=
    if payloadLen+(paddingMultiple-1) ≤ u64Max then
      (payloadLen+(paddingMultiple-1))/paddingMultiple*paddingMultiple
    else u64Max/paddingMultiple*paddingMultiple
  match mtu with
  | some m =>
    if m.get < aligned then (if payloadLen < m.get then m.get else payloadLen) else aligned
  | none => aligned

def transportDatagramLen (payloadLen : ℕ) : ℕ :=
  satAdd (paddedLen payloadLen none) transportOverhead

theorem le_paddedLen (payloadLen : ℕ) (mtu : Option NonZeroU16) (h : payloadLen ≤ isizeMax) :
    payloadLen ≤ paddedLen payloadLen mtu := by
  have h1 : paddingMultiple = 16 := rfl
  have h2 : u64Max = 18446744073709551615 := rfl
  have h3 : isizeMax = 9223372036854775807 := rfl
  unfold paddedLen
  rw [h1,h2]
  rw [h3] at h
  cases mtu with
  | none => dsimp only; split_ifs <;> omega
  | some m => dsimp only; split_ifs <;> omega

theorem paddedLen_le (payloadLen : ℕ) (mtu : Option NonZeroU16) :
    paddedLen payloadLen mtu ≤ payloadLen+15 := by
  have h1 : paddingMultiple = 16 := rfl
  have h2 : u64Max = 18446744073709551615 := rfl
  unfold paddedLen
  rw [h1,h2]
  cases mtu with
  | none => dsimp only; split_ifs <;> omega
  | some m => dsimp only; split_ifs <;> omega

/-- The keys of a tunnel and what is computed from them once, at construction. -/
structure Identity (P : Primitives) where
  localStatic : Bytes 32
  localPublic : Bytes 32
  peerPublic : Bytes 32
  psk : Bytes 32
  constants : HandshakeConstants
  macKeys : MacKeys
  precomputedSs : Bytes 32
  localPublic_eq : localPublic = x25519Base P localStatic
  localPublic_ne : localPublic ≠ peerPublic
  constants_eq : constants = HandshakeConstants.new P
  macKeys_eq : macKeys = MacKeys.new P localPublic peerPublic
  precomputedSs_eq : sharedSecret P localStatic peerPublic = .ok precomputedSs

structure Tunnel (P : Primitives) extends Identity P where
  persistentKeepalive : Option NonZeroU16
  mtu : Option NonZeroU16
  inflight : Option InFlightInitiation
  lastInitMac1 : Option (Bytes 16)
  lastRespMac1 : Option (Bytes 16)
  cookie : Option LastCookie
  cookieJar : CookieJar
  greatestTimestamp : Option Tai64N
  lastSentTai64n : Option Tai64N
  previous : Option Session
  current : Option Session
  next : Option Session
  timers : Timers
  recvRekeyDone : Bool
  lastNow : Ticks
  stats : Stats
  sessionsCreated : ℕ

def withBackend (P : Primitives) (config : Config) : Except Error (Tunnel P) :=
  let localPublic := x25519Base P config.localStatic
  if h : ctEq localPublic.toList config.peerPublic.toList = true then .error .invalidPublicKey
  else
    match hs : sharedSecret P config.localStatic config.peerPublic with
    | .error e => .error e
    | .ok precomputedSs => .ok
      { localStatic := config.localStatic
        localPublic := localPublic
        peerPublic := config.peerPublic
        psk := config.psk
        constants := HandshakeConstants.new P
        macKeys := MacKeys.new P localPublic config.peerPublic
        precomputedSs := precomputedSs
        localPublic_eq := rfl
        localPublic_ne := fun he => h ((ctEq_bytes _ _).mpr he)
        constants_eq := rfl
        macKeys_eq := rfl
        precomputedSs_eq := hs
        persistentKeepalive := config.persistentKeepalive
        mtu := config.mtu
        inflight := none
        lastInitMac1 := none
        lastRespMac1 := none
        cookie := none
        cookieJar := CookieJar.new
        greatestTimestamp := none
        lastSentTai64n := none
        previous := none
        current := none
        next := none
        timers := Timers.default
        recvRekeyDone := false
        lastNow := Ticks.zero
        stats := Stats.default
        sessionsCreated := 0 }

namespace Tunnel

variable {P : Primitives}

structure Fresh (t : Tunnel P) : Prop where
  inflight : t.inflight = none
  greatestTimestamp : t.greatestTimestamp = none
  lastSentTai64n : t.lastSentTai64n = none
  previous : t.previous = none
  current : t.current = none
  next : t.next = none
  timers : t.timers = Timers.default
  lastNow : t.lastNow = Ticks.zero
  sessionsCreated : t.sessionsCreated = 0

structure Configured (t : Tunnel P) (config : Config) : Prop where
  localStatic : t.localStatic = config.localStatic
  peerPublic : t.peerPublic = config.peerPublic
  psk : t.psk = config.psk
  persistentKeepalive : t.persistentKeepalive = config.persistentKeepalive

end Tunnel

theorem withBackend_ok {P : Primitives} {config : Config} {t : Tunnel P}
    (h : withBackend P config = .ok t) : t.Fresh ∧ t.Configured config := by
  unfold withBackend at h
  dsimp only at h
  split at h
  · cases h
  split at h
  · cases h
  · obtain rfl := Except.ok.inj h
    exact ⟨⟨rfl,rfl,rfl,rfl,rfl,rfl,rfl,rfl,rfl⟩,⟨rfl,rfl,rfl,rfl⟩⟩

/-- The tunnel of a configuration that `withBackend` accepts. -/
def build (P : Primitives) (config : Config)
    (h : (withBackend P config).toOption.isSome = true) : Tunnel P :=
  (withBackend P config).toOption.get h

theorem withBackend_build {P : Primitives} {config : Config}
    (h : (withBackend P config).toOption.isSome = true) :
    withBackend P config = .ok (build P config h) := by
  unfold build
  generalize withBackend P config = r at h
  cases r with
  | error e => cases h
  | ok t => rfl

def specimenConfig (me peer : UInt8) (interval : Option NonZeroU16) : Config :=
  ⟨List.Vector.replicate 32 me,x25519Base specimen (List.Vector.replicate 32 peer),zeros 32,
    interval,none⟩

def specimenTunnel : Tunnel specimen :=
  build specimen (specimenConfig 1 2 none) (by decide +kernel)

namespace Tunnel

variable {P : Primitives}

def clampNow (t : Tunnel P) (now : Now) : Tunnel P × Now :=
  if now.ticks < t.lastNow then (t,{now with ticks := t.lastNow})
  else ({t with lastNow := now.ticks},now)

def newestSessionCreated (t : Tunnel P) : Option Ticks :=
  ([t.previous,t.current,t.next].filterMap (fun s => s.map Session.created)).max?

def discardAllSessions (t : Tunnel P) : Tunnel P :=
  {t with
    previous := none
    current := none
    next := none
    inflight := none
    cookie := none
    lastInitMac1 := none
    lastRespMac1 := none
    recvRekeyDone := false
    timers := {Timers.default with lastInitiationTx := t.timers.lastInitiationTx}}

def holds (s : Option Session) (index : UInt32) : Bool :=
  match s with
  | none => false
  | some s => s.keys.localIndex == index

def sessionWithIndex (t : Tunnel P) (index : UInt32) : Option Slot :=
  if holds t.next index then some .next
  else if holds t.current index then some .current
  else if holds t.previous index then some .previous
  else none

def slot (t : Tunnel P) : Slot → Option Session
  | .next => t.next
  | .current => t.current
  | .previous => t.previous

def setSlot (t : Tunnel P) (s : Session) : Slot → Tunnel P
  | .next => {t with next := some s}
  | .current => {t with current := some s}
  | .previous => {t with previous := some s}

def inflightHas (t : Tunnel P) (index : UInt32) : Bool :=
  match t.inflight with
  | none => false
  | some i => i.localIndex == index

def indexClash (t : Tunnel P) (index : UInt32) : Bool :=
  (t.sessionWithIndex index).isSome || t.inflightHas index

/-- The drawing loop of `freshIndex`, with the number of draws left. -/
def freshIndexLoop (t : Tunnel P) : ℕ → Entropy → Except Error UInt32 × Entropy
  | 0, rng => (.error .entropyFailure,rng)
  | n+1, rng =>
    match rng.fill 4 with
    | (none,rng) => (.error .entropyFailure,rng)
    | (some bytes,rng) =>
      if t.indexClash (leU32 bytes) then t.freshIndexLoop n rng else (.ok (leU32 bytes),rng)

def freshIndex (t : Tunnel P) (rng : Entropy) : Except Error UInt32 × Entropy :=
  t.freshIndexLoop 32 rng

/-- The index and the raw ephemeral secret of a new handshake message. -/
def drawHandshake (t : Tunnel P) (rng : Entropy) :
    Except Error (UInt32 × Bytes 32) × Entropy :=
  match t.freshIndex rng with
  | (.error e,rng) => (.error e,rng)
  | (.ok index,rng) =>
    match rng.gen32 with
    | (none,rng) => (.error .entropyFailure,rng)
    | (some eph,rng) => (.ok (index,eph),rng)

def currentUsable (t : Tunnel P) (now : Ticks) : Bool :=
  match t.current with
  | none => false
  | some s => s.usableForSend now

def isEstablished (t : Tunnel P) : Bool := t.currentUsable t.lastNow

def setMtu (t : Tunnel P) (mtu : Option NonZeroU16) : Tunnel P := {t with mtu := mtu}

def reset (t : Tunnel P) : Tunnel P := t.discardAllSessions

end Tunnel

end WireGuard
