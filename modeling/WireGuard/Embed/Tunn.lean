import WireGuard.Embed.Buffer
import WireGuard.Run

/-!
# The tunnel of the embedding crate

`Tunn` wraps a tunnel with a limiter for handshakes and a queue for packets that
no session can carry yet. A call takes the readings of its clock and the entropy
of its operating system as arguments. The limiter and the pool are shared with
other tunnels, which may change them between any two calls.
-/

set_option autoImplicit false

namespace WireGuard
open ByteString

def maxQueueDepth : ℕ := 256

structure RateLimiter where
  limit : ℕ
  count : ℕ
  lastResetNs : ℕ

namespace RateLimiter

def defaultLimit : ℕ := 10

def resetPeriod : ℕ := second

def new (limit : ℕ) : RateLimiter := ⟨limit,0,0⟩

/-- Count a handshake message; is the count past the limit? -/
def noteHandshake (r : RateLimiter) : Bool × RateLimiter :=
  (r.limit ≤ r.count,{r with count := (r.count+1)%2^64})

def maybeReset (r : RateLimiter) (nowNs : ℕ) : RateLimiter :=
  if resetPeriod ≤ nowNs-r.lastResetNs then {r with count := 0, lastResetNs := nowNs} else r

end RateLimiter

inductive SocketAddr where
  | v4 (ip : Bytes 4) (port : UInt16)
  | v6 (ip : Bytes 16) (port : UInt16) (flowinfo scopeId : UInt32)
  deriving DecidableEq

def SocketAddr.port : SocketAddr → UInt16
  | .v4 _ port => port
  | .v6 _ port _ _ => port

def SocketAddr.octets : SocketAddr → List UInt8
  | .v4 ip _ => ip.toList++List.replicate 12 0
  | .v6 ip _ _ _ => ip.toList

def encodeAddr (addr : SocketAddr) : List UInt8 :=
  addr.octets++[UInt8.ofNat (addr.port.toNat/256),UInt8.ofNat addr.port.toNat]

inductive TunnResult where
  | done
  | err (e : Error)
  | writeToNetwork (wire : List UInt8)
  | writeToTunnel (packet : List UInt8)
  deriving DecidableEq

structure Tunn (P : Primitives) where
  inner : Tunnel P
  rateLimiter : RateLimiter
  pool : SlabPool
  packetQueue : List PooledBuf
  queueDrainable : Bool

/-- What a call leaves and returns. `released` is no part of the crate: it records
the queued packet that the returned datagram was sealed from. -/
structure TunnOutcome (P : Primitives) where
  tunn : Tunn P
  dst : List UInt8
  result : TunnResult
  released : Option (List UInt8)

variable {P : Primitives}

namespace Tunn

def withPool (P : Primitives) (config : Config) (rateLimiter : Option RateLimiter)
    (pool : SlabPool) : Except Error (Tunn P) :=
  match withBackend P config with
  | .error e => .error e
  | .ok inner =>
    .ok ⟨inner,rateLimiter.getD (RateLimiter.new RateLimiter.defaultLimit),pool,[],false⟩

def new (P : Primitives) (config : Config) (rateLimiter : Option RateLimiter) :
    Except Error (Tunn P) :=
  withPool P config rateLimiter SlabPool.forWireguard

def setInner (t : Tunn P) (inner : Tunnel P) : Tunn P := {t with inner := inner}

def queuePacket (t : Tunn P) (packet : Payload) : Tunn P :=
  if packet.val = [] then t
  else if t.packetQueue.length < maxQueueDepth then
    let (buf,pool) := PooledBuf.copyFrom t.pool packet.val
    {t with packetQueue := t.packetQueue++[buf], pool := pool}
  else t

def encapsulate (C : ChaChaImpl) (t : Tunn P) (src : Payload) (dst : List UInt8) (now : Now)
    (rng : Entropy) : TunnOutcome P :=
  let o := t.inner.encapsulate C now src dst rng
  let t := t.setInner o.tunnel
  match o.result with
  | .ok (.transport wire) => ⟨t,o.out,.writeToNetwork wire,none⟩
  | .ok (.handshakeInitiation wire) => ⟨t.queuePacket src,o.out,.writeToNetwork wire,none⟩
  | .error .notEstablished => ⟨t.queuePacket src,o.out,.done,none⟩
  | .error e => ⟨t,o.out,.err e,none⟩

/-- A packet that could not be sent goes back to the front and ends the draining. -/
def requeue (t : Tunn P) (packet : PooledBuf) : Tunn P :=
  {t with packetQueue := packet::t.packetQueue, queueDrainable := false}

def drainQueueStep (C : ChaChaImpl) (t : Tunn P) (dst : List UInt8) (now : Now)
    (rng : Entropy) : TunnOutcome P :=
  if !t.queueDrainable then ⟨t,dst,.done,none⟩
  else
    match t.packetQueue with
    | [] => ⟨{t with queueDrainable := false},dst,.done,none⟩
    | packet::rest =>
      let o := t.inner.encapsulate C now packet.payload dst rng
      let t := {t with inner := o.tunnel, packetQueue := rest}
      match o.result with
      | .ok (.transport wire) =>
        ⟨{t with pool := t.pool.give packet.storage},o.out,.writeToNetwork wire,some packet.deref⟩
      | .ok (.handshakeInitiation wire) => ⟨t.requeue packet,o.out,.writeToNetwork wire,none⟩
      | .error e => ⟨t.requeue packet,o.out,.err e,none⟩

def noteKind (t : Tunn P) (datagram : List UInt8) : Bool × RateLimiter :=
  match peek datagram with
  | .ok (.handshakeInitiation _) => t.rateLimiter.noteHandshake
  | .ok (.handshakeResponse _ _) => t.rateLimiter.noteHandshake
  | _ => (false,t.rateLimiter)

def front (n : ℕ) (dst : List UInt8) : List UInt8 := if n ≤ dst.length then dst.take n else []

/-- What follows the completion of a handshake: the confirming keepalive, or a
first step of draining. -/
def completed (C : ChaChaImpl) (t : Tunn P) (dst : List UInt8) (now later : Now)
    (rng : Entropy) : TunnOutcome P :=
  let t := {t with queueDrainable := true}
  let p := t.inner.poll C now dst rng
  let t := t.setInner p.tunnel
  match p.result with
  | .ok (.send wire _) => ⟨t,p.out,.writeToNetwork (front wire.length p.out),none⟩
  | _ => t.drainQueueStep C p.out later p.rng

/-- The core's view of a datagram: where it came from and whether there is load. -/
def receive (C : ChaChaImpl) (t : Tunn P) (srcAddr : Option SocketAddr)
    (datagram dst : List UInt8) (now : Now) (rng : Entropy) : Outcome P Received :=
  t.inner.decapsulate C now ((srcAddr.map encodeAddr).getD [])
    ((t.noteKind datagram).1 && srcAddr.isSome) datagram dst rng

def decapsulate (C : ChaChaImpl) (t : Tunn P) (srcAddr : Option SocketAddr)
    (datagram dst : List UInt8) (now later : Now) (rng : Entropy) : TunnOutcome P :=
  if datagram = [] then t.drainQueueStep C dst later rng
  else
    let o := t.receive C srcAddr datagram dst now rng
    let t := {t with rateLimiter := (t.noteKind datagram).2, inner := o.tunnel}
    match o.result with
    | .ok (.data packet) =>
      ⟨t,o.out,.writeToTunnel (front ((ipPacketLen packet).getD packet.length) o.out),none⟩
    | .ok (.reply wire) => ⟨t,o.out,.writeToNetwork (front wire.length o.out),none⟩
    | .ok .handshakeComplete => t.completed C o.out now later o.rng
    | .ok .keepalive => ⟨t,o.out,.done,none⟩
    | .ok .cookieStored => ⟨t,o.out,.done,none⟩
    | .error e => ⟨t,o.out,.err e,none⟩

def clearQueue (t : Tunn P) : Tunn P :=
  {t with
    packetQueue := []
    pool := t.packetQueue.foldl (fun p b => p.give b.storage) t.pool}

def updateTimers (C : ChaChaImpl) (t : Tunn P) (dst : List UInt8) (limiterNs : ℕ) (now : Now)
    (rng : Entropy) : TunnOutcome P :=
  let o := t.inner.poll C now dst rng
  let t := {t with rateLimiter := t.rateLimiter.maybeReset limiterNs, inner := o.tunnel}
  match o.result with
  | .ok (.send wire _) => ⟨t,o.out,.writeToNetwork wire,none⟩
  | .ok .handshakeExpired => ⟨t.clearQueue,o.out,.err .notEstablished,none⟩
  | .ok .sessionsExpired => ⟨t,o.out,.err .expired,none⟩
  | .ok .idle => ⟨t,o.out,.done,none⟩
  | .error e => ⟨t,o.out,.err e,none⟩

def formatHandshakeInitiation (t : Tunn P) (dst : List UInt8) (now : Now)
    (rng : Entropy) : TunnOutcome P :=
  let o := t.inner.initiateHandshake now dst rng
  let t := t.setInner o.tunnel
  match o.result with
  | .ok wire => ⟨t,o.out,.writeToNetwork wire,none⟩
  | .error .handshakeRateLimited => ⟨t,o.out,.done,none⟩
  | .error e => ⟨t,o.out,.err e,none⟩

def isEstablished (t : Tunn P) : Bool := t.inner.isEstablished

def nextWake (t : Tunn P) : Option Ticks := t.inner.nextWake

end Tunn

inductive TunnOp where
  | encapsulate (src : Payload) (dst : List UInt8) (now : Now) (rng : Entropy)
  | decapsulate (srcAddr : Option SocketAddr) (datagram dst : List UInt8) (now later : Now)
      (rng : Entropy)
  | updateTimers (dst : List UInt8) (limiterNs : ℕ) (now : Now) (rng : Entropy)
  | formatHandshakeInitiation (dst : List UInt8) (now : Now) (rng : Entropy)
  | share (rateLimiter : RateLimiter) (free : List Payload)

namespace Tunn

/-- Other owners have used the limiter and the pool. -/
def shared (t : Tunn P) (rateLimiter : RateLimiter) (free : List Payload) : Tunn P :=
  {t with
    rateLimiter := rateLimiter
    pool := {t.pool with
      free := free.filter (fun b => b.val.length = t.pool.slabLen)
      free_length := by simp}}

def call (C : ChaChaImpl) (t : Tunn P) : TunnOp → TunnOutcome P
  | .encapsulate src dst now rng => t.encapsulate C src dst now rng
  | .decapsulate srcAddr datagram dst now later rng =>
    t.decapsulate C srcAddr datagram dst now later rng
  | .updateTimers dst limiterNs now rng => t.updateTimers C dst limiterNs now rng
  | .formatHandshakeInitiation dst now rng => t.formatHandshakeInitiation dst now rng
  | .share rateLimiter free => ⟨t.shared rateLimiter free,[],.done,none⟩

/-- The machine of the methods: the result of a call and what it released. -/
def step (C : ChaChaImpl) (t : Tunn P) (op : TunnOp) :
    Tunn P × TunnResult × Option (List UInt8) :=
  ((t.call C op).tunn,(t.call C op).result,(t.call C op).released)

/-! Every method moves the core by calls of its own methods. -/

section Core

variable {C : ChaChaImpl} {t : Tunn P} {dst : List UInt8} {now later : Now} {rng : Entropy}

theorem reachable_poll : Machine.Reachable (WireGuard.step C) t.inner
    (t.inner.poll C now dst rng).tunnel :=
  ⟨[.poll now dst rng],rfl⟩

theorem reachable_encapsulate {src : Payload} : Machine.Reachable (WireGuard.step C) t.inner
    (t.inner.encapsulate C now src dst rng).tunnel :=
  ⟨[.encapsulate now src dst rng],rfl⟩

theorem reachable_receive {srcAddr : Option SocketAddr} {datagram : List UInt8} :
    Machine.Reachable (WireGuard.step C) t.inner
      (t.receive C srcAddr datagram dst now rng).tunnel :=
  ⟨[.decapsulate now ((srcAddr.map encodeAddr).getD [])
    ((t.noteKind datagram).1 && srcAddr.isSome) datagram dst rng],rfl⟩

@[simp] theorem queuePacket_inner (t : Tunn P) (src : Payload) :
    (t.queuePacket src).inner = t.inner := by
  unfold queuePacket
  split
  · rfl
  · split <;> rfl

theorem drainQueueStep_reachable : Machine.Reachable (WireGuard.step C) t.inner
    (t.drainQueueStep C dst now rng).tunn.inner := by
  unfold drainQueueStep
  split
  · exact Machine.Reachable.refl _ _
  split
  · exact Machine.Reachable.refl _ _
  · dsimp only
    split <;> exact reachable_encapsulate

theorem completed_reachable : Machine.Reachable (WireGuard.step C) t.inner
    (t.completed C dst now later rng).tunn.inner := by
  unfold completed
  dsimp only
  split
  · exact reachable_poll
  · exact reachable_poll.trans drainQueueStep_reachable

theorem decapsulate_reachable {srcAddr : Option SocketAddr} {datagram : List UInt8} :
    Machine.Reachable (WireGuard.step C) t.inner
      (t.decapsulate C srcAddr datagram dst now later rng).tunn.inner := by
  unfold decapsulate
  dsimp only
  split
  · exact drainQueueStep_reachable
  split
  case h_3 => exact reachable_receive.trans completed_reachable
  all_goals exact reachable_receive

theorem call_reachable (op : TunnOp) :
    Machine.Reachable (WireGuard.step C) t.inner (t.call C op).tunn.inner := by
  cases op with
  | encapsulate src dst now rng =>
    unfold call encapsulate
    dsimp only
    split
    · exact reachable_encapsulate
    · rw [queuePacket_inner]
      exact reachable_encapsulate
    · rw [queuePacket_inner]
      exact reachable_encapsulate
    · exact reachable_encapsulate
  | decapsulate srcAddr datagram dst now later rng => exact decapsulate_reachable
  | updateTimers dst limiterNs now rng =>
    unfold call updateTimers
    dsimp only
    split <;> exact reachable_poll
  | formatHandshakeInitiation dst now rng =>
    unfold call formatHandshakeInitiation
    dsimp only
    split <;> exact ⟨[.initiateHandshake now dst rng],rfl⟩
  | share rateLimiter free => exact Machine.Reachable.refl _ _

end Core

end Tunn

end WireGuard
