import WireGuard.Embed.Tunn
import WireGuard.Acts

/-!
# The packet queue

Packets that no session can carry wait in order and leave in order. Whether they
leave at all hangs on a flag that only the completion of our own handshake sets
and that every failed step of draining clears.
-/

set_option autoImplicit false

namespace WireGuard
open ByteString Tunnel

variable {P : Primitives}

section Core

variable {C : ChaChaImpl} {t : Tunnel P} {now : Now} {payload : Payload} {out : List UInt8}
  {rng : Entropy}

variable (C payload out rng) in
theorem encapsulate_usable (hu : t.currentUsable (t.reading now).ticks = true) :
    ∃ s, t.current = some s ∧ t.encapsulate C now payload out rng =
      if out.length < paddedLen payload.val.length t.mtu+transportOverhead then
        ⟨t.observe now,out,rng,.error .bufferTooSmall⟩
      else ⟨(t.observe now).commitSeal (t.reading now).ticks (some payload.val.length),
        transportWire (P := P) C s (t.stage payload) ++
          out.drop (paddedLen payload.val.length t.mtu+transportOverhead),rng,
        .ok (.transport (transportWire (P := P) C s (t.stage payload)))⟩ := by
  obtain ⟨s,hc,hus⟩ := currentUsable_some hu
  refine ⟨s,hc,?_⟩
  unfold Tunnel.encapsulate encapsulateAt
  rw [clampNow_eq]
  have hu : (t.observe now).currentUsable (t.reading now).ticks = true := hu
  simp only [hu,Bool.not_true,Bool.false_eq_true,if_false]
  exact encapsulateSeal_eq C _ payload out rng hc (Session.usableForSend_iff.mp hus).2.1

theorem encapsulate_transport {wire : List UInt8}
    (h : (t.encapsulate C now payload out rng).result = .ok (.transport wire)) :
    t.currentUsable (t.reading now).ticks = true ∧
      ∃ s, t.current = some s ∧ wire = transportWire (P := P) C s (t.stage payload) := by
  cases hu : t.currentUsable (t.reading now).ticks with
  | true =>
    obtain ⟨s,hc,he⟩ := encapsulate_usable C payload out rng hu
    rw [he] at h
    split at h
    · cases h
    · exact ⟨rfl,s,hc,(Encapsulated.transport.inj (Except.ok.inj h)).symm⟩
  | false =>
    exfalso
    unfold Tunnel.encapsulate encapsulateAt at h
    rw [clampNow_eq] at h
    have hu : (t.observe now).currentUsable (t.reading now).ticks = false := hu
    simp only [hu,Bool.not_false,if_true] at h
    unfold encapsulateStart at h
    split at h
    · cases h
    split at h
    · cases h
    · unfold Outcome.emit at h
      split at h
      · cases h
      · split at h <;> cases h

theorem freshIndexLoop_congr {u : Tunnel P} (h : ∀ i, u.indexClash i = t.indexClash i) (n : ℕ)
    (rng : Entropy) : u.freshIndexLoop n rng = t.freshIndexLoop n rng := by
  induction n generalizing rng with
  | zero => rfl
  | succ n ih =>
    unfold freshIndexLoop
    split
    · rfl
    · rw [h,ih]

theorem drawHandshake_congr {u : Tunnel P} (h : ∀ i, u.indexClash i = t.indexClash i)
    (rng : Entropy) : u.drawHandshake rng = t.drawHandshake rng := by
  unfold drawHandshake freshIndex
  rw [freshIndexLoop_congr h]

def Tunnel.CanStart (t : Tunnel P) (out : List UInt8) (rng : Entropy) : Prop :=
  handshakeInitiationLen ≤ out.length ∧ ∃ index eph rest,
    t.drawHandshake rng = (.ok (index,eph),rest) ∧
      ctIsZero (P.x25519 (clampScalar eph) t.peerPublic).toList = false

def Tunnel.Startable (t : Tunnel P) (now : Now) (out : List UInt8) (rng : Entropy) : Prop :=
  t.inflight.isSome = true ∨ t.timers.initiationAllowed (t.reading now).ticks = false ∨
    t.CanStart out rng

theorem encapsulate_unusable (hu : t.currentUsable (t.reading now).ticks = false) :
    t.encapsulate C now payload out rng =
      (t.observe now).clearGaveUp.encapsulateStart (t.reading now) out rng := by
  unfold Tunnel.encapsulate encapsulateAt
  rw [clampNow_eq]
  have hu : (t.observe now).currentUsable (t.reading now).ticks = false := hu
  simp only [hu,Bool.not_false,if_true]

theorem encapsulateStart_eq {u : Tunnel P} (hi : u.inflight.isSome = false)
    (ha : u.timers.initiationAllowed now.ticks = true) : u.encapsulateStart now out rng =
      (u.restartAttempt.sendInitiation now out rng false).emit .handshakeInitiation := by
  unfold encapsulateStart
  simp only [hi,ha,Bool.not_true,Bool.false_eq_true,if_false]

variable (C payload out rng) in
theorem encapsulate_initiates_iff (hu : t.currentUsable (t.reading now).ticks = false)
    (hi : t.inflight.isSome = false)
    (ha : t.timers.initiationAllowed (t.reading now).ticks = true) :
    (∃ wire, (t.encapsulate C now payload out rng).result = .ok (.handshakeInitiation wire)) ↔
      t.CanStart out rng := by
  rw [encapsulate_unusable hu,encapsulateStart_eq (u := (t.observe now).clearGaveUp) hi ha,
    sendInitiation_eq,drawHandshake_congr (t := t)
      (u := (t.observe now).clearGaveUp.restartAttempt) (fun _ => rfl)]
  unfold CanStart
  rcases hd : t.drawHandshake rng with ⟨_ | ⟨index,eph⟩,rest⟩
  · simp [Outcome.emit]
  · have hp : (t.observe now).clearGaveUp.restartAttempt.peerPublic = t.peerPublic := rfl
    dsimp only
    rw [hp]
    by_cases hl : out.length < handshakeInitiationLen
    · simp [Outcome.emit,hl]
    · by_cases hz : ctIsZero (P.x25519 (clampScalar eph) t.peerPublic).toList = true
      · simp [Outcome.emit,hl,hz]
      · rw [if_neg hl,if_neg hz]
        simp only [Outcome.emit]
        rw [if_pos (by simp [handshakeInitiationLen])]
        exact ⟨fun _ => ⟨not_lt.mp hl,index,eph,rest,rfl,Bool.eq_false_iff.mpr hz⟩,
          fun _ => ⟨_,rfl⟩⟩

theorem encapsulate_waits (hu : t.currentUsable (t.reading now).ticks = false)
    (h : t.inflight.isSome = true ∨ t.timers.initiationAllowed (t.reading now).ticks = false) :
    (t.encapsulate C now payload out rng).result = .error .notEstablished := by
  rw [encapsulate_unusable hu]
  unfold encapsulateStart
  split
  · rfl
  rename_i hi
  split
  · rfl
  rename_i ha
  exact absurd (congrArg not (h.resolve_left hi)) ha

variable (C payload) in
theorem encapsulate_starts (hu : t.currentUsable (t.reading now).ticks = false)
    (hs : t.Startable now out rng) :
    (t.encapsulate C now payload out rng).result = .error .notEstablished ∨
      ∃ wire, (t.encapsulate C now payload out rng).result = .ok (.handshakeInitiation wire) := by
  by_cases hw : t.inflight.isSome = true ∨
      t.timers.initiationAllowed (t.reading now).ticks = false
  · exact Or.inl (encapsulate_waits hu hw)
  · have hi : t.inflight.isSome = false := by simpa using fun h => hw (Or.inl h)
    have ha : t.timers.initiationAllowed (t.reading now).ticks = true := by
      simpa using fun h => hw (Or.inr h)
    rcases hs with hs | hs | hs
    · exact absurd (Or.inl hs) hw
    · exact absurd (Or.inr hs) hw
    · exact Or.inr ((encapsulate_initiates_iff C payload out rng hu hi ha).mpr hs)

theorem Tunnel.commitSeal_mtu (t : Tunnel P) (now : Ticks) (n : Option ℕ) :
    (t.commitSeal now n).mtu = t.mtu := by
  rw [commitSeal_frame]

theorem Tunnel.stage_congr {t u : Tunnel P} (h : u.mtu = t.mtu) (payload : Payload) :
    u.stage payload = t.stage payload := by
  unfold Tunnel.stage
  rw [h]

end Core

/-- A call with an empty datagram, which asks for one queued packet. -/
structure DrainCall where
  srcAddr : Option SocketAddr
  dst : List UInt8
  now : Now
  later : Now
  rng : Entropy

namespace Tunn

variable (C : ChaChaImpl)

def drain (t : Tunn P) (c : DrainCall) : TunnOutcome P :=
  t.decapsulate C c.srcAddr [] c.dst c.now c.later c.rng

theorem drain_eq (t : Tunn P) (c : DrainCall) :
    t.drain C c = t.drainQueueStep C c.dst c.later c.rng := rfl

def drainRun (t : Tunn P) (calls : ℕ → DrainCall) : ℕ → Tunn P
  | 0 => t
  | n+1 => ((t.drainRun calls n).drain C (calls n)).tunn

/-- At each of the calls that the queued packets need, the core can seal. -/
def StaysUsable (t : Tunn P) (calls : ℕ → DrainCall) : Prop :=
  ∀ n < t.packetQueue.length, let u := (t.drainRun C calls n).inner
    u.currentUsable (u.reading (calls n).later).ticks = true

/-- One transport datagram for every queued packet in turn, then `done`, and
nothing is left. -/
structure ReleasesAll (t : Tunn P) (calls : ℕ → DrainCall) : Prop where
  sends : ∀ n packet, t.packetQueue[n]? = some packet →
    ∃ s, (t.drainRun C calls n).inner.current = some s ∧
      ((t.drainRun C calls n).drain C (calls n)).result =
        .writeToNetwork (transportWire (P := P) C s (t.inner.stage packet.payload))
  ends : ((t.drainRun C calls t.packetQueue.length).drain C (calls t.packetQueue.length)).result =
    .done
  empties : (t.drainRun C calls (t.packetQueue.length+1)).packetQueue = []

variable {C} {t : Tunn P}

theorem drain_sends {c : DrainCall} {packet : PooledBuf} {rest : List PooledBuf}
    (hd : t.queueDrainable = true) (hq : t.packetQueue = packet::rest)
    (hu : t.inner.currentUsable (t.inner.reading c.later).ticks = true)
    (hl : packet.deref.length+15+transportOverhead ≤ c.dst.length) :
    ∃ s, t.inner.current = some s ∧
      (t.drain C c).result =
        .writeToNetwork (transportWire (P := P) C s (t.inner.stage packet.payload)) ∧
      (t.drain C c).tunn.queueDrainable = true ∧ (t.drain C c).tunn.packetQueue = rest ∧
      (t.drain C c).tunn.inner.mtu = t.inner.mtu := by
  obtain ⟨s,hc,he⟩ := encapsulate_usable C packet.payload c.dst c.rng hu
  have hp := paddedLen_le packet.payload.val.length t.inner.mtu
  have hl : ¬c.dst.length < paddedLen packet.payload.val.length t.inner.mtu+transportOverhead :=
    not_lt.mpr ((Nat.add_le_add_right hp _).trans hl)
  rw [if_neg hl] at he
  refine ⟨s,hc,?_⟩
  rw [drain_eq]
  simp [drainQueueStep,hd,hq,he,Tunnel.commitSeal_mtu,observe]

theorem drainRun_keeps {calls : ℕ → DrainCall} (hd : t.queueDrainable = true)
    (hu : t.StaysUsable C calls)
    (hl : ∀ n, ∀ packet ∈ t.packetQueue, packet.deref.length+15+transportOverhead ≤
      (calls n).dst.length) (n : ℕ) (hn : n ≤ t.packetQueue.length) :
    (t.drainRun C calls n).queueDrainable = true ∧
      (t.drainRun C calls n).packetQueue = t.packetQueue.drop n ∧
      (t.drainRun C calls n).inner.mtu = t.inner.mtu := by
  induction n with
  | zero => exact ⟨hd,rfl,rfl⟩
  | succ n ih =>
    obtain ⟨hd,hq,hm⟩ := ih (by omega)
    rw [List.drop_eq_getElem_cons hn] at hq
    obtain ⟨s,-,-,h1,h2,h3⟩ := drain_sends (C := C) hd hq (hu n hn)
      (hl n _ (List.getElem_mem hn))
    exact ⟨h1,h2,h3.trans hm⟩

theorem ReleasesAll.drainable {calls : ℕ → DrainCall} (h : t.ReleasesAll C calls) :
    t.queueDrainable = true ∨ t.packetQueue = [] := by
  cases hq : t.packetQueue with
  | nil => exact Or.inr rfl
  | cons packet rest =>
    obtain ⟨s,-,hs⟩ := h.sends 0 packet (by rw [hq]; rfl)
    by_contra hd
    have hd : t.queueDrainable = false := by simpa using hd
    simp [drainRun,drain_eq,drainQueueStep,hd] at hs

/-- Only the flag decides whether an established session releases what waits. -/
theorem established_releases_iff {calls : ℕ → DrainCall} (hu : t.StaysUsable C calls)
    (hl : ∀ n, ∀ packet ∈ t.packetQueue, packet.deref.length+15+transportOverhead ≤
      (calls n).dst.length) :
    t.ReleasesAll C calls ↔ t.queueDrainable = true ∨ t.packetQueue = [] := by
  constructor
  · exact ReleasesAll.drainable
  · intro h
    cases hd : t.queueDrainable with
    | true =>
      have hk := drainRun_keeps hd hu hl
      refine ⟨?_,?_,?_⟩
      · intro n packet hp
        obtain ⟨hn,rfl⟩ := List.getElem?_eq_some_iff.mp hp
        obtain ⟨hd,hq,hm⟩ := hk n hn.le
        rw [List.drop_eq_getElem_cons hn] at hq
        obtain ⟨s,hc,hr,-⟩ := drain_sends (C := C) hd hq (hu n hn)
          (hl n _ (List.getElem_mem hn))
        refine ⟨s,hc,?_⟩
        rw [hr,Tunnel.stage_congr hm]
      · obtain ⟨hd,hq,-⟩ := hk _ le_rfl
        rw [List.drop_length] at hq
        simp [drain_eq,drainQueueStep,hd,hq]
      · obtain ⟨hd,hq,-⟩ := hk _ le_rfl
        rw [List.drop_length] at hq
        simp [drainRun,drain_eq,drainQueueStep,hd,hq]
    | false =>
      have hq := h.resolve_left (by simp [hd])
      refine ⟨?_,?_,?_⟩
      · intro n packet hp
        simp [hq] at hp
      · simp [hq,drainRun,drain_eq,drainQueueStep,hd]
      · simp [hq,drainRun,drain_eq,drainQueueStep,hd]

end Tunn

theorem withPool_eq {config : Config} {t : Tunnel P} (h : withBackend P config = .ok t)
    (pool : SlabPool) : Tunn.withPool P config none pool =
      .ok ⟨t,RateLimiter.new RateLimiter.defaultLimit,pool,[],false⟩ := by
  unfold Tunn.withPool
  rw [h]
  rfl

def specimenPool : SlabPool := SlabPool.new 256 4 (by decide)

def specimenTunn : Tunn specimen :=
  ⟨specimenTunnel,RateLimiter.new RateLimiter.defaultLimit,specimenPool,[],false⟩

theorem specimenTunn_built :
    Tunn.withPool specimen (specimenConfig 1 2 none) none specimenPool = .ok specimenTunn :=
  withPool_eq (withBackend_build (by decide +kernel)) specimenPool

def specimenSubmit (src : Payload) : TunnOp :=
  .encapsulate src (List.replicate 256 0) ⟨Ticks.zero,0,0⟩ (List.replicate 2 (some (fun _ => 0)))

def specimenArrival (datagram dst : List UInt8) : TunnOp :=
  .decapsulate none datagram dst ⟨Ticks.zero,0,0⟩ ⟨Ticks.zero,0,0⟩
    (List.replicate 2 (some (fun _ => 1)))

def specimenAsk : DrainCall :=
  ⟨none,List.replicate 256 0,⟨Ticks.zero,0,0⟩,⟨Ticks.zero,0,0⟩,[]⟩

/-- A packet waits and the peer answers our handshake. -/
def specimenAnswer : List TunnOp :=
  [specimenSubmit specimenPayload,
    specimenArrival (2::List.replicate 91 0) (List.replicate 256 0)]

/-- A packet waits, the peer starts a handshake of its own and confirms it. -/
def specimenPromotion : List TunnOp :=
  [specimenSubmit specimenPayload,
    specimenArrival ([1,0,0,0,9,0,0,0]++List.replicate 32 0++specimenTunnel.peerPublic.toList++
      List.replicate 76 0) (List.replicate 256 0),
    specimenArrival ([4,0,0,0,1,1,1,1]++List.replicate 24 0) (List.replicate 256 0)]

/-- The peer answers, but the first step of draining has no room to write. -/
def specimenStall : List TunnOp := specimenAnswer++[specimenArrival [] []]

theorem established_releases_specimen :
    let t := Machine.final (Tunn.step (scalar specimen)) specimenTunn specimenAnswer
    t.isEstablished = true ∧ t.packetQueue.length = 1 ∧
      (t.ReleasesAll (scalar specimen) (fun _ => specimenAsk) ↔
        t.queueDrainable = true ∨ t.packetQueue = []) :=
  ⟨by decide +kernel,by decide +kernel,Tunn.established_releases_iff
    (by unfold Tunn.StaysUsable; decide +kernel) (fun _ => by decide +kernel)⟩

/-- The session is established and lasts, the buffer is large and a packet waits,
yet the next call returns `done` and leaves it there. -/
theorem established_keeps_packet :
    Tunn.withPool specimen (specimenConfig 1 2 none) none specimenPool = .ok specimenTunn ∧
    ∀ ops ∈ [specimenPromotion,specimenStall],
      let t := Machine.final (Tunn.step (scalar specimen)) specimenTunn ops
      t.isEstablished = true ∧ t.StaysUsable (scalar specimen) (fun _ => specimenAsk) ∧
      (∀ packet ∈ t.packetQueue, packet.deref.length+15+transportOverhead ≤
        specimenAsk.dst.length) ∧
      t.packetQueue.map PooledBuf.deref = [[7]] ∧
      (t.drain (scalar specimen) specimenAsk).result = .done ∧
      ¬t.ReleasesAll (scalar specimen) (fun _ => specimenAsk) := by
  refine ⟨specimenTunn_built,fun ops hops => ?_⟩
  have h : ∀ ops ∈ [specimenPromotion,specimenStall],
      let t := Machine.final (Tunn.step (scalar specimen)) specimenTunn ops
      t.isEstablished = true ∧
      (∀ n < t.packetQueue.length,
        let u := (t.drainRun (scalar specimen) (fun _ => specimenAsk) n).inner
        u.currentUsable (u.reading specimenAsk.later).ticks = true) ∧
      (∀ packet ∈ t.packetQueue, packet.deref.length+15+transportOverhead ≤
        specimenAsk.dst.length) ∧
      t.packetQueue.map PooledBuf.deref = [[7]] ∧
      (t.drain (scalar specimen) specimenAsk).result = .done ∧ t.queueDrainable = false := by
    decide +kernel
  obtain ⟨h1,h2,h3,h4,h5,h6⟩ := h ops hops
  refine ⟨h1,h2,h3,h4,h5,fun hr => ?_⟩
  rcases hr.drainable with hd | hq
  · rw [h6] at hd
    cases hd
  · rw [hq] at h4
    cases h4

/-! The queue as a whole, over every call of the methods. -/

namespace Tunn

variable {C : ChaChaImpl} {t : Tunn P} {dst : List UInt8} {now later : Now} {rng : Entropy}

/-- The packets that wait, oldest first. -/
def waiting (t : Tunn P) : List (List UInt8) := t.packetQueue.map PooledBuf.deref

def Submits (t : Tunn P) (src : Payload) (now : Now) : Prop :=
  src.val ≠ [] ∧ t.inner.currentUsable (t.inner.reading now).ticks = false

instance (t : Tunn P) (src : Payload) (now : Now) : Decidable (t.Submits src now) :=
  inferInstanceAs (Decidable (_ ∧ _))

variable (C) in
/-- What a call releases, it returns sealed on a session that the core holds. -/
def Returns (t : Tunn P) (result : TunnResult) (packet : List UInt8) : Prop :=
  ∃ u s payload, Machine.Reachable (WireGuard.step C) t.inner u ∧ u.current = some s ∧
    payload.val = packet ∧
    result = .writeToNetwork (transportWire (P := P) C s (u.stage payload))

theorem queuePacket_waiting {src : Payload} (hn : src.val ≠ [])
    (hr : t.packetQueue.length < maxQueueDepth) (hf : src.val.length ≤ t.pool.slabLen) :
    (t.queuePacket src).waiting = t.waiting++[src.val] := by
  unfold queuePacket waiting
  rw [if_neg hn,if_pos hr]
  simp [PooledBuf.copyFrom_whole_iff.mpr hf]

theorem queuePacket_empty {src : Payload} (h : src.val = []) : t.queuePacket src = t := by
  unfold queuePacket
  rw [if_pos h]

theorem encapsulate_queues {src : Payload} (hs : t.Submits src now)
    (hr : t.packetQueue.length < maxQueueDepth) (hf : src.val.length ≤ t.pool.slabLen)
    (ha : t.inner.Startable now dst rng) :
    (t.encapsulate C src dst now rng).tunn.waiting = t.waiting++[src.val] := by
  have hq : ∀ i, ((t.setInner i).queuePacket src).waiting = t.waiting++[src.val] :=
    fun i => queuePacket_waiting (t := t.setInner i) hs.1 hr hf
  unfold encapsulate
  rcases encapsulate_starts C src hs.2 ha with he | ⟨wire,he⟩
  · simp only [he]
    exact hq _
  · simp only [he]
    exact hq _

theorem encapsulate_keeps {src : Payload} (hs : ¬t.Submits src now) :
    (t.encapsulate C src dst now rng).tunn.waiting = t.waiting := by
  by_cases hn : src.val = []
  · unfold encapsulate
    simp only [queuePacket_empty hn]
    split <;> rfl
  · have hu : t.inner.currentUsable (t.inner.reading now).ticks = true := by
      by_contra hu
      exact hs ⟨hn,by simpa using hu⟩
    obtain ⟨s,-,he⟩ := encapsulate_usable C src dst rng hu
    unfold encapsulate
    rw [he]
    split_ifs <;> rfl

theorem drainQueueStep_conveys :
    (t.drainQueueStep C dst now rng).released.toList++(t.drainQueueStep C dst now rng).tunn.waiting =
      t.waiting := by
  unfold drainQueueStep
  split
  · rfl
  split
  · rename_i hq
    simp [waiting,hq]
  · rename_i packet rest hq
    dsimp only
    split <;> simp [waiting,requeue,hq]

theorem drainQueueStep_returns {packet : List UInt8}
    (h : (t.drainQueueStep C dst now rng).released = some packet) :
    t.Returns C (t.drainQueueStep C dst now rng).result packet := by
  revert h
  unfold drainQueueStep
  split
  · intro h
    cases h
  split
  · intro h
    cases h
  · rename_i front rest hq
    dsimp only
    split
    · rename_i wire he
      intro h
      obtain ⟨-,s,hc,hw⟩ := encapsulate_transport he
      exact ⟨_,s,front.payload,Machine.Reachable.refl _ _,hc,Option.some.inj h,by rw [hw]⟩
    · intro h
      cases h
    · intro h
      cases h

theorem completed_conveys :
    (t.completed C dst now later rng).released.toList++
      (t.completed C dst now later rng).tunn.waiting = t.waiting := by
  unfold completed
  dsimp only
  split
  · rfl
  · exact drainQueueStep_conveys

theorem completed_returns {packet : List UInt8}
    (h : (t.completed C dst now later rng).released = some packet) :
    t.Returns C (t.completed C dst now later rng).result packet := by
  revert h
  unfold completed
  dsimp only
  split
  · intro h
    cases h
  · intro h
    obtain ⟨u,s,payload,hu,hr⟩ := drainQueueStep_returns h
    exact ⟨u,s,payload,reachable_poll.trans hu,hr⟩

variable {srcAddr : Option SocketAddr} {datagram : List UInt8}

theorem decapsulate_conveys :
    (t.decapsulate C srcAddr datagram dst now later rng).released.toList++
      (t.decapsulate C srcAddr datagram dst now later rng).tunn.waiting = t.waiting := by
  unfold decapsulate
  dsimp only
  split
  · exact drainQueueStep_conveys
  split
  case h_3 => exact completed_conveys
  all_goals rfl

theorem decapsulate_returns {packet : List UInt8}
    (h : (t.decapsulate C srcAddr datagram dst now later rng).released = some packet) :
    t.Returns C (t.decapsulate C srcAddr datagram dst now later rng).result packet := by
  revert h
  unfold decapsulate
  dsimp only
  split
  · exact drainQueueStep_returns
  split
  case h_3 =>
    intro h
    obtain ⟨u,s,payload,hu,hr⟩ := completed_returns h
    exact ⟨u,s,payload,reachable_receive.trans hu,hr⟩
  all_goals
    intro h
    cases h

theorem updateTimers_keeps {limiterNs : ℕ}
    (h : (t.inner.poll C now dst rng).result ≠ .ok .handshakeExpired) :
    (t.updateTimers C dst limiterNs now rng).tunn.waiting = t.waiting := by
  unfold updateTimers
  dsimp only
  split
  case h_2 he => exact absurd he h
  all_goals rfl

theorem formatHandshakeInitiation_keeps :
    (t.formatHandshakeInitiation dst now rng).tunn.waiting = t.waiting := by
  unfold formatHandshakeInitiation
  dsimp only
  split <;> rfl

theorem call_quiet {op : TunnOp} (h : ∀ srcAddr datagram dst now later rng,
    op ≠ .decapsulate srcAddr datagram dst now later rng) : (t.call C op).released = none := by
  cases op with
  | decapsulate srcAddr datagram dst now later rng => exact absurd rfl (h _ _ _ _ _ _)
  | encapsulate src dst now rng =>
    unfold call encapsulate
    dsimp only
    split <;> rfl
  | updateTimers dst limiterNs now rng =>
    unfold call updateTimers
    dsimp only
    split <;> rfl
  | formatHandshakeInitiation dst now rng =>
    unfold call formatHandshakeInitiation
    dsimp only
    split <;> rfl
  | share rateLimiter free => rfl

theorem call_returns {op : TunnOp} {packet : List UInt8}
    (h : (t.call C op).released = some packet) : t.Returns C (t.call C op).result packet := by
  by_cases hd : ∃ srcAddr datagram dst now later rng,
      op = .decapsulate srcAddr datagram dst now later rng
  · obtain ⟨srcAddr,datagram,dst,now,later,rng,rfl⟩ := hd
    exact decapsulate_returns h
  · push Not at hd
    rw [call_quiet hd] at h
    cases h

end Tunn

abbrev TunnTransition (P : Primitives) :=
  Machine.Transition (Tunn P) TunnOp (TunnResult × Option (List UInt8))

namespace TunnTransition

/-- The packet passed to `encapsulate` while no session was usable. -/
def submitted (x : TunnTransition P) : List (List UInt8) :=
  match x.input with
  | .encapsulate src _ now _ => if x.before.Submits src now then [src.val] else []
  | _ => []

def released (x : TunnTransition P) : List (List UInt8) := x.output.2.toList

/-- The queue has room for what is submitted. -/
def Room (x : TunnTransition P) : Prop :=
  ∀ src dst now rng, x.input = .encapsulate src dst now rng → x.before.Submits src now →
    x.before.packetQueue.length < maxQueueDepth

/-- The core does not report that a handshake has expired. -/
def Unexpired (C : ChaChaImpl) (x : TunnTransition P) : Prop :=
  ∀ dst limiterNs now rng, x.input = .updateTimers dst limiterNs now rng →
    (x.before.inner.poll C now dst rng).result ≠ .ok .handshakeExpired

/-- What is submitted fits a slab, and an initiation that is due can be built. -/
def Fits (x : TunnTransition P) : Prop :=
  ∀ src dst now rng, x.input = .encapsulate src dst now rng → x.before.Submits src now →
    src.val.length ≤ x.before.pool.slabLen ∧ x.before.inner.Startable now dst rng

variable {C : ChaChaImpl} {t : Tunn P} {op : TunnOp}

theorem conveys (hr : Room (Machine.advance (Tunn.step C) t op))
    (he : Unexpired C (Machine.advance (Tunn.step C) t op))
    (hf : Fits (Machine.advance (Tunn.step C) t op)) :
    released (Machine.advance (Tunn.step C) t op)++
        (Machine.advance (Tunn.step C) t op).after.waiting =
      (Machine.advance (Tunn.step C) t op).before.waiting++
        submitted (Machine.advance (Tunn.step C) t op) := by
  dsimp only [released,submitted,Machine.advance,Tunn.step]
  cases op with
  | encapsulate src dst now rng =>
    rw [Tunn.call_quiet (by simp)]
    dsimp only
    by_cases hs : t.Submits src now
    · rw [if_pos hs]
      obtain ⟨hl,ha⟩ := hf _ _ _ _ rfl hs
      exact Tunn.encapsulate_queues hs (hr _ _ _ _ rfl hs) hl ha
    · rw [if_neg hs,List.append_nil]
      exact Tunn.encapsulate_keeps hs
  | decapsulate srcAddr datagram dst now later rng =>
    exact Tunn.decapsulate_conveys.trans (List.append_nil _).symm
  | updateTimers dst limiterNs now rng =>
    rw [Tunn.call_quiet (by simp),List.append_nil]
    exact Tunn.updateTimers_keeps (he _ _ _ _ rfl)
  | formatHandshakeInitiation dst now rng =>
    rw [Tunn.call_quiet (by simp),List.append_nil]
    exact Tunn.formatHandshakeInitiation_keeps
  | share rateLimiter free =>
    rw [Tunn.call_quiet (by simp),List.append_nil]
    rfl

end TunnTransition

/-- In every run that submits only what fits, the packets come out whole, once and
in order, each as the transport datagram that its call returns. -/
theorem queue_is_fifo_if_fits (C : ChaChaImpl) (t : Tunn P) (ops : List TunnOp)
    (hr : ∀ x ∈ Machine.history (Tunn.step C) t ops, TunnTransition.Room x)
    (he : ∀ x ∈ Machine.history (Tunn.step C) t ops, TunnTransition.Unexpired C x)
    (hf : ∀ x ∈ Machine.history (Tunn.step C) t ops, TunnTransition.Fits x) :
    (Machine.history (Tunn.step C) t ops).flatMap TunnTransition.released++
        (Machine.final (Tunn.step C) t ops).waiting =
      t.waiting++(Machine.history (Tunn.step C) t ops).flatMap TunnTransition.submitted ∧
    ∀ x ∈ Machine.history (Tunn.step C) t ops, ∀ packet, x.output.2 = some packet →
      x.before.Returns C x.output.1 packet := by
  constructor
  · refine Machine.history_conveys _ Tunn.waiting _ _ t ops (fun x hx => ?_)
    obtain ⟨u,op,-,rfl⟩ := Machine.mem_history _ _ _ _ hx
    exact TunnTransition.conveys (hr _ hx) (he _ hx) (hf _ hx)
  · intro x hx packet hp
    obtain ⟨u,op,-,rfl⟩ := Machine.mem_history _ _ _ _ hx
    exact Tunn.call_returns hp

/-- Two packets wait until the peer answers, and leave. -/
def specimenRelease : List TunnOp :=
  [specimenSubmit specimenPayload,specimenSubmit ⟨[8,9],by decide⟩,
    specimenArrival (2::List.replicate 91 0) (List.replicate 256 0),
    specimenArrival [] (List.replicate 256 0),specimenArrival [] (List.replicate 256 0)]

theorem specimenTunn_startable :
    specimenTunn.inner.Startable ⟨Ticks.zero,0,0⟩ (List.replicate 256 0)
      (List.replicate 2 (some (fun _ => 0))) :=
  Or.inr (Or.inr ⟨by rw [List.length_replicate]; decide,_,_,_,rfl,by decide +kernel⟩)

theorem specimenArrival_fits (t : Tunn specimen) (datagram dst : List UInt8) :
    let x := Machine.advance (Tunn.step (scalar specimen)) t (specimenArrival datagram dst)
    TunnTransition.Room x ∧ TunnTransition.Unexpired (scalar specimen) x ∧
      TunnTransition.Fits x :=
  ⟨fun _ _ _ _ h => (by cases h),fun _ _ _ _ h => (by cases h),fun _ _ _ _ h => (by cases h)⟩

theorem specimenSubmit_fits {t : Tunn specimen} {src : Payload}
    (hr : t.packetQueue.length < maxQueueDepth) (hl : src.val.length ≤ t.pool.slabLen)
    (hs : t.inner.Startable ⟨Ticks.zero,0,0⟩ (List.replicate 256 0)
      (List.replicate 2 (some (fun _ => 0)))) :
    let x := Machine.advance (Tunn.step (scalar specimen)) t (specimenSubmit src)
    TunnTransition.Room x ∧ TunnTransition.Unexpired (scalar specimen) x ∧
      TunnTransition.Fits x := by
  refine ⟨fun _ _ _ _ h _ => ?_,fun _ _ _ _ h => (by cases h),fun _ _ _ _ h _ => ?_⟩
  · cases h
    exact hr
  · cases h
    exact ⟨hl,hs⟩

theorem specimenRelease_fits :
    ∀ x ∈ Machine.history (Tunn.step (scalar specimen)) specimenTunn specimenRelease,
      TunnTransition.Room x ∧ TunnTransition.Unexpired (scalar specimen) x ∧
        TunnTransition.Fits x := by
  refine List.forall_mem_cons.mpr ⟨?_,List.forall_mem_cons.mpr ⟨?_,List.forall_mem_cons.mpr ⟨?_,
    List.forall_mem_cons.mpr ⟨?_,List.forall_mem_cons.mpr ⟨?_,List.forall_mem_nil _⟩⟩⟩⟩⟩
  · exact specimenSubmit_fits (by decide) (by decide) specimenTunn_startable
  · exact specimenSubmit_fits (by decide +kernel) (by decide +kernel) (Or.inl (by decide +kernel))
  · exact specimenArrival_fits _ _ _
  · exact specimenArrival_fits _ _ _
  · exact specimenArrival_fits _ _ _

theorem queue_is_fifo_specimen :
    (Machine.history (Tunn.step (scalar specimen)) specimenTunn specimenRelease).flatMap
        TunnTransition.released = [[7],[8,9]] ∧
    (Machine.history (Tunn.step (scalar specimen)) specimenTunn specimenRelease).flatMap
        TunnTransition.released++
      (Machine.final (Tunn.step (scalar specimen)) specimenTunn specimenRelease).waiting =
    specimenTunn.waiting++(Machine.history (Tunn.step (scalar specimen)) specimenTunn
      specimenRelease).flatMap TunnTransition.submitted :=
  ⟨by decide +kernel,(queue_is_fifo_if_fits (scalar specimen) specimenTunn specimenRelease
    (fun x hx => (specimenRelease_fits x hx).1) (fun x hx => (specimenRelease_fits x hx).2.1)
    (fun x hx => (specimenRelease_fits x hx).2.2)).1⟩

def specimenDefault : Tunn specimen := {specimenTunn with pool := SlabPool.forWireguard}

def specimenLong : List TunnOp :=
  [specimenSubmit ⟨List.replicate 2049 7,by rw [List.length_replicate]; decide⟩,
    specimenArrival (2::List.replicate 91 0) (List.replicate 256 0),
    specimenArrival [] (List.replicate 2304 0)]

theorem specimenLong_released :
    (Machine.history (Tunn.step (scalar specimen)) specimenDefault specimenLong).flatMap
        TunnTransition.submitted = [List.replicate 2049 7] ∧
    (Machine.history (Tunn.step (scalar specimen)) specimenDefault specimenLong).flatMap
        TunnTransition.released = [List.replicate 2048 7] := by
  decide +kernel

/-- The packet leaves cut short by the slab that it waited in. -/
theorem queue_cuts_long_packet :
    Tunn.new specimen (specimenConfig 1 2 none) none = .ok specimenDefault ∧
    (∀ x ∈ Machine.history (Tunn.step (scalar specimen)) specimenDefault specimenLong,
      TunnTransition.Room x ∧ TunnTransition.Unexpired (scalar specimen) x) ∧
    (Machine.history (Tunn.step (scalar specimen)) specimenDefault specimenLong).flatMap
        TunnTransition.submitted = [List.replicate 2049 7] ∧
    (Machine.history (Tunn.step (scalar specimen)) specimenDefault specimenLong).flatMap
        TunnTransition.released = [List.replicate 2048 7] := by
  refine ⟨withPool_eq (withBackend_build (by decide +kernel)) _,?_,specimenLong_released⟩
  refine List.forall_mem_cons.mpr ⟨⟨fun _ _ _ _ h _ => ?_,fun _ _ _ _ h => (by cases h)⟩,
    List.forall_mem_cons.mpr ⟨?_,List.forall_mem_cons.mpr ⟨?_,List.forall_mem_nil _⟩⟩⟩
  · show specimenDefault.packetQueue.length < maxQueueDepth
    decide
  · exact ⟨(specimenArrival_fits _ _ _).1,(specimenArrival_fits _ _ _).2.1⟩
  · exact ⟨(specimenArrival_fits _ _ _).1,(specimenArrival_fits _ _ _).2.1⟩

end WireGuard
