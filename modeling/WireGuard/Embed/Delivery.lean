import WireGuard.Embed.Conversation
import WireGuard.Embed.Driver
import WireGuard.RoundTrip
import WireGuard.Shipped

/-!
# The first packets arrive

Two event loops are built for each other and one of them is handed packets. One
handshake opens a session, and the packets that waited for it reach the other host,
each of them once, in whatever order the network carries their datagrams.
-/

set_option autoImplicit false

namespace WireGuard
open ByteString Tunnel

variable {P : Primitives}

def letters (P : Primitives) (C : ChaChaImpl) (keys : SessionKeys) :
    ℕ → List (List UInt8) → List (List UInt8)
  | _, [] => []
  | n, plain::rest => letter P C keys n plain::letters P C keys (n+1) rest

/-- The loop has sent the initiation of `t`, and `queue` waits for the answer. -/
structure Awaits (u : Tunn P) (slabLen : ℕ) (t : Tunnel P) (now : Now) (index : UInt32)
    (eph : Bytes 32) (queue : List (List UInt8)) : Prop where
  calls : Calls u.inner t now index eph
  waiting : u.waiting = queue
  slab : u.pool.slabLen = slabLen
  calm : u.rateLimiter.count < u.rateLimiter.limit

/-- What an arm needs so as not to end the wait: a packet that can be queued, a clock
within the time of an attempt, and no load. -/
def Arm.Patient (slabLen : ℕ) : Arm → Prop
  | .outbound pkt _ now _ => now.ticks.Prompt ∧ IpPacket pkt.val ∧ pkt.val.length ≤ slabLen
  | .timer _ calls => ∀ i, (calls i).now.ticks.Prompt
  | .share rateLimiter _ => rateLimiter.count < rateLimiter.limit
  | .inbound _ => False

/-- The packets that the host submits with an arm. -/
def Arm.packets : Arm → List (List UInt8)
  | .outbound pkt _ _ _ => [pkt.val]
  | .inbound _ => []
  | .timer _ _ => []
  | .share _ _ => []

theorem Arm.Patient.packet {slabLen : ℕ} {arm : Arm} (h : arm.Patient slabLen)
    {packet : List UInt8} (hp : packet ∈ arm.packets) : IpPacket packet := by
  cases arm with
  | outbound pkt netOut now rng =>
    obtain rfl := List.mem_singleton.mp hp
    exact h.2.1
  | _ => cases hp

theorem IpPacket.ne_nil {packet : List UInt8} (h : IpPacket packet) : packet ≠ [] := by
  obtain ⟨first,hf,-⟩ := h
  rintro rfl
  cases hf

theorem Tunn.queuePacket_slabLen (t : Tunn P) (src : Payload) :
    (t.queuePacket src).pool.slabLen = t.pool.slabLen := by
  unfold queuePacket
  split
  · rfl
  · split <;> rfl

theorem Tunn.queuePacket_rateLimiter (t : Tunn P) (src : Payload) :
    (t.queuePacket src).rateLimiter = t.rateLimiter := by
  unfold queuePacket
  split
  · rfl
  · split <;> rfl

section Await

variable {C : ChaChaImpl} {u : Tunn P} {slabLen : ℕ} {t : Tunnel P} {now0 : Now}
  {index : UInt32} {eph : Bytes 32} {queue : List (List UInt8)}

theorem Awaits.setInner (h : Awaits u slabLen t now0 index eph queue) {inner t' : Tunnel P}
    {now' : Now} {index' : UInt32} {eph' : Bytes 32} (hc : Calls inner t' now' index' eph') :
    Awaits (u.setInner inner) slabLen t' now' index' eph' queue :=
  ⟨hc,h.waiting,h.slab,h.calm⟩

theorem Awaits.queuePacket (h : Awaits u slabLen t now0 index eph queue) {pkt : Payload}
    (hne : pkt.val ≠ []) (hfit : pkt.val.length ≤ slabLen) (hroom : queue.length < maxQueueDepth) :
    Awaits (u.queuePacket pkt) slabLen t now0 index eph (queue++[pkt.val]) where
  calls := by
    rw [Tunn.queuePacket_inner]
    exact h.calls
  waiting := by
    rw [← h.waiting] at hroom ⊢
    refine Tunn.queuePacket_waiting hne ?_ (h.slab ▸ hfit)
    rwa [Tunn.waiting,List.length_map] at hroom
  slab := by rw [Tunn.queuePacket_slabLen,h.slab]
  calm := by
    rw [Tunn.queuePacket_rateLimiter]
    exact h.calm

theorem Awaits.encapsulate (h : Awaits u slabLen t now0 index eph queue) (C : ChaChaImpl)
    {pkt : Payload} {now : Now} (netOut : List UInt8) (rng : Entropy)
    (hp : (Arm.outbound pkt netOut now rng).Patient slabLen)
    (hroom : queue.length < maxQueueDepth) :
    (u.encapsulate C pkt netOut now rng).result = .done ∧
      Awaits (u.encapsulate C pkt netOut now rng).tunn slabLen t now0 index eph
        (queue++[pkt.val]) := by
  obtain ⟨he,hc⟩ := h.calls.waits C hp.1 pkt netOut rng
  simp only [Tunn.encapsulate,he]
  exact ⟨trivial,(h.setInner hc).queuePacket hp.2.1.ne_nil hp.2.2 hroom⟩

theorem Awaits.timerCall (h : Awaits u slabLen t now0 index eph queue) (C : ChaChaImpl)
    {c : TimerCall} (hc : c.now.ticks.Prompt) :
    (∃ t' now' index' eph', (u.timerCall C c).result =
        .writeToNetwork (Tunnel.initiationWire t' now' index' eph') ∧
      Awaits (u.timerCall C c).tunn slabLen t' now' index' eph' queue) ∨
    (∀ wire, (u.timerCall C c).result ≠ .writeToNetwork wire) ∧
      Awaits (u.timerCall C c).tunn slabLen t now0 index eph queue := by
  have hcalm : (u.rateLimiter.maybeReset c.limiterNs).count <
      (u.rateLimiter.maybeReset c.limiterNs).limit := by
    unfold RateLimiter.maybeReset
    split
    · exact Nat.zero_lt_of_lt h.calm
    · exact h.calm
  unfold Tunn.timerCall Tunn.updateTimers
  rcases h.calls.polls C hc c.out c.rng with ⟨t',now',index',eph',reason,hr,hcalls⟩ | ⟨hr,hcalls⟩
  · simp only [hr]
    exact .inl ⟨t',now',index',eph',rfl,hcalls,h.waiting,h.slab,hcalm⟩
  · rcases hr with hr | ⟨e,hr⟩
    · simp only [hr]
      exact .inr ⟨by simp,hcalls,h.waiting,h.slab,hcalm⟩
    · simp only [hr]
      exact .inr ⟨by simp,hcalls,h.waiting,h.slab,hcalm⟩

theorem Awaits.timerLoop (h : Awaits u slabLen t now0 index eph queue) (C : ChaChaImpl)
    {calls : ℕ → TimerCall} (hcalls : ∀ i, (calls i).now.ticks.Prompt) (n : ℕ) {p : TimerPass P}
    (hp : Tunn.timerLoop C n u calls = some p) :
    ∃ t' now' index' eph', Awaits p.tunn slabLen t' now' index' eph' queue ∧
      (t.initiationWire now0 index eph::p.wires).getLast? =
        some (Tunnel.initiationWire t' now' index' eph') := by
  induction n generalizing u t now0 index eph calls p with
  | zero => cases hp
  | succ n ih =>
    rw [Tunn.timerLoop] at hp
    rcases h.timerCall C (hcalls 0) with ⟨t',now',index',eph',hr,ha⟩ | ⟨hr,ha⟩
    · simp only [hr] at hp
      obtain ⟨q,hq,rfl⟩ := Option.map_eq_some_iff.mp hp
      obtain ⟨t2,now2,index2,eph2,ha2,hlast⟩ := ih ha (fun i => hcalls (i+1)) hq
      exact ⟨t2,now2,index2,eph2,ha2,by rw [List.getLast?_cons_cons]; exact hlast⟩
    · split at hp
      · rename_i wire hw
        exact absurd hw (hr wire)
      · obtain rfl := Option.some.inj hp
        exact ⟨t,now0,index,eph,ha,rfl⟩

end Await

namespace AsyncTunn

variable {slabLen : ℕ} {t : Tunnel P} {now0 : Now} {index : UInt32} {eph : Bytes 32}
  {queue : List (List UInt8)}

theorem waits {u : Tunn P} (h : Awaits u slabLen t now0 index eph queue) (C : ChaChaImpl)
    (home : SocketAddr) {arm : Arm} (hp : arm.Patient slabLen)
    (hroom : queue.length+arm.packets.length ≤ maxQueueDepth) :
    ∃ u' wires t' now' index' eph', (⟨u,some home⟩ : AsyncTunn P).step C arm =
        (⟨u',some home⟩,⟨wires.map (fun w => (w,home)),[]⟩) ∧
      Awaits u' slabLen t' now' index' eph' (queue++arm.packets) ∧
      (t.initiationWire now0 index eph::wires).getLast? =
        some (Tunnel.initiationWire t' now' index' eph') := by
  cases arm with
  | inbound e => exact hp.elim
  | outbound pkt netOut now rng =>
    obtain ⟨hr,ha⟩ := h.encapsulate C netOut rng hp hroom
    refine ⟨_,[],t,now0,index,eph,?_,ha,rfl⟩
    simp only [step,outbound,hr]
    rfl
  | timer fuel calls =>
    rw [Arm.packets,List.append_nil]
    cases hl : Tunn.timerLoop C fuel u calls with
    | none =>
      refine ⟨u,[],t,now0,index,eph,?_,h,rfl⟩
      simp only [step,timer,hl]
      rfl
    | some p =>
      obtain ⟨t',now',index',eph',ha,hlast⟩ := h.timerLoop C hp fuel hl
      refine ⟨p.tunn,p.wires,t',now',index',eph',?_,ha,hlast⟩
      simp only [step,timer,hl]
      rfl
  | share rateLimiter free =>
    rw [Arm.packets,List.append_nil]
    exact ⟨_,[],t,now0,index,eph,rfl,⟨h.calls,h.waiting,h.slab,hp⟩,rfl⟩

theorem opens {u : Tunn P} (hf : u.inner.Fresh) (hq : u.packetQueue = [])
    (hl : u.rateLimiter.count < u.rateLimiter.limit)
    (hz : ∀ b, ctIsZero (P.x25519 b u.inner.peerPublic).toList = false) (C : ChaChaImpl)
    (home : SocketAddr) {pkt : Payload} {netOut : List UInt8} {now : Now} {rng : Entropy}
    (hp : (Arm.outbound pkt netOut now rng).Patient u.pool.slabLen) (hr : rng.Draws)
    (hout : handshakeInitiationLen ≤ netOut.length) :
    ∃ u' t now0 index eph,
      (new u (some home)).step C (.outbound pkt netOut now rng) =
        (⟨u',some home⟩,⟨[(Tunnel.initiationWire t now0 index eph,home)],[]⟩) ∧
      Awaits u' u.pool.slabLen t now0 index eph [pkt.val] := by
  obtain ⟨t,now0,index,eph,he,hc,-⟩ := hf.calls C hp.1 pkt hr hz hout
  have ha : Awaits (u.setInner (u.inner.encapsulate C now pkt netOut rng).tunnel) u.pool.slabLen t
      now0 index eph [] := ⟨hc,by rw [Tunn.waiting,Tunn.setInner,hq]; rfl,rfl,hl⟩
  refine ⟨_,t,now0,index,eph,?_,ha.queuePacket hp.2.1.ne_nil hp.2.2 (by decide)⟩
  simp only [step,outbound,new,Tunn.encapsulate,he]

end AsyncTunn

/-! ## Answering -/

namespace Tunn

theorem noteKind_calm {u : Tunn P} (hl : u.rateLimiter.count < u.rateLimiter.limit)
    (datagram : List UInt8) : (u.noteKind datagram).1 = false := by
  unfold noteKind
  split
  · simpa [RateLimiter.noteHandshake] using hl
  · simpa [RateLimiter.noteHandshake] using hl
  · rfl

theorem drainQueue_shut {C : ChaChaImpl} {dst : SocketAddr} {n : ℕ} {u : Tunn P}
    {calls : ℕ → DrainCall} (h : u.queueDrainable = false) :
    drainQueue C dst (n+1) u calls = (u,[]) := by
  have hd : u.drain C {calls 0 with srcAddr := some dst} = ⟨u,(calls 0).dst,.done,none⟩ := by
    simp [drain_eq,drainQueueStep,h]
  rw [drainQueue_stopped (by simp [hd]),hd]

end Tunn

theorem AsyncTunn.answers {d : AsyncTunn P} {t : Tunnel P} (hf : d.tunn.inner.Fresh)
    (hl : d.tunn.rateLimiter.count < d.tunn.rateLimiter.limit)
    (hd : d.tunn.queueDrainable = false) (hC : Commutes P) (hZ : NeverZero P)
    (hx : Crossed t d.tunn.inner) (D : ChaChaImpl) {e : Inbound} (now0 : Now) (index : UInt32)
    (eph : Bytes 32) (he : e.datagram = t.initiationWire now0 index eph)
    (hnow : e.now.ticks.Early) (hr : e.rng.Draws)
    (hout : handshakeResponseLen ≤ e.tunOut.length) :
    ∃ r index' eph', r.toIdentity = d.tunn.inner.toIdentity ∧
      (d.step D (.inbound e)).2 = ⟨[(Tunnel.responseWire r (consumedOf t now0 eph index) index'
        eph',e.src)],[]⟩ ∧
      Listens (d.step D (.inbound e)).1.tunn.inner .next
        (r.answerKeys (consumedOf t now0 eph index) index' eph') ∅ := by
  obtain ⟨r,index',eph',hres,hlisten,hid⟩ := hf.answers hC hZ hx D hnow (encodeAddr e.src) hr hout
    now0 index eph
  have hne : e.datagram ≠ [] := by
    rw [he]
    intro h
    have := congrArg List.length h
    simp [initiationWire] at this
  have hrec : d.tunn.receive D (some e.src) e.datagram e.tunOut e.now e.rng =
      d.tunn.inner.decapsulate D e.now (encodeAddr e.src) false
        (t.initiationWire now0 index eph) e.tunOut e.rng := by
    unfold Tunn.receive
    rw [Tunn.noteKind_calm hl,he]
    rfl
  have hw : written Received.bytes (d.tunn.inner.decapsulate D e.now (encodeAddr e.src) false
      (t.initiationWire now0 index eph) e.tunOut e.rng).result =
      r.responseWire (consumedOf t now0 eph index) index' eph' := by
    rw [hres]
    rfl
  have hfront := Tunn.front_of_blind (decapsulate_blind _ _ _ _ D false _) hw (le_refl _)
  rw [List.take_length] at hfront
  refine ⟨r,index',eph',hid,?_⟩
  simp only [AsyncTunn.step,AsyncTunn.inbound,Tunn.decapsulate,hne,if_false,hrec,hres]
  rw [Tunn.drainQueue_shut]
  · simp only [hfront,List.map_cons,List.map_nil]
    exact ⟨trivial,hlisten⟩
  · exact hd

/-! ## Draining the queue -/

def padded (mtu : Option NonZeroU16) (packet : List UInt8) : List UInt8 :=
  packet++List.replicate (paddedLen packet.length mtu-packet.length) 0

namespace Tunn

variable {u : Tunn P} {keys : SessionKeys} {n : ℕ}

theorem drain_letter (hs : Speaks u.inner keys n) (hd : u.queueDrainable = true) (C : ChaChaImpl)
    {c : DrainCall} (hnow : c.later.ticks.Early) (hn : n < rejectAfterMessages)
    {packet : PooledBuf} {rest : List PooledBuf} (hq : u.packetQueue = packet::rest)
    (hout : packet.deref.length+47 ≤ c.dst.length) :
    (u.drain C c).result =
        .writeToNetwork (letter P C keys n (padded u.inner.mtu packet.deref)) ∧
      Speaks (u.drain C c).tunn.inner keys (n+1) ∧ (u.drain C c).tunn.queueDrainable = true ∧
      (u.drain C c).tunn.packetQueue = rest ∧
      (u.drain C c).tunn.inner.mtu = u.inner.mtu := by
  obtain ⟨hres,hs',hm⟩ := hs.sends C hn hnow packet.payload c.rng hout
  simp only [drain_eq,drainQueueStep,hd,hq,hres,Bool.not_true,Bool.false_eq_true,if_false]
  exact ⟨rfl,hs',trivial,trivial,hm⟩

theorem drainQueue_letters (hs : Speaks u.inner keys n) (hd : u.queueDrainable = true)
    (C : ChaChaImpl) (dst : SocketAddr) {calls : ℕ → DrainCall}
    (hcalls : ∀ i, (calls i).later.ticks.Early)
    (hout : ∀ i, ∀ p ∈ u.waiting, p.length+47 ≤ (calls i).dst.length)
    (hn : n+u.waiting.length ≤ rejectAfterMessages) {fuel : ℕ} (hf : u.waiting.length < fuel) :
    (drainQueue C dst fuel u calls).2 =
      letters P C keys n (u.waiting.map (padded u.inner.mtu)) := by
  -- the fuel exceeds the queue, so the loop ends with the queue
  induction fuel generalizing u n calls with
  | zero => exact absurd hf (Nat.not_lt_zero _)
  | succ fuel ih =>
    cases hq : u.packetQueue with
    | nil =>
      have hr : (u.drain C {calls 0 with srcAddr := some dst}).result = .done := by
        simp [drain_eq,drainQueueStep,hd,hq]
      rw [drainQueue_stopped (by simp [hr]),waiting,hq]
      rfl
    | cons packet rest =>
      have hw : u.waiting = packet.deref::rest.map PooledBuf.deref := by
        rw [waiting,hq,List.map_cons]
      rw [hw] at hout hn hf ⊢
      simp only [List.length_cons] at hn hf
      obtain ⟨hr,hs',hd',hq',hm⟩ := drain_letter hs hd C (c := {calls 0 with srcAddr := some dst})
        (hcalls 0) (by omega) hq (hout 0 _ List.mem_cons_self)
      have hw' : (u.drain C {calls 0 with srcAddr := some dst}).tunn.waiting =
          rest.map PooledBuf.deref := by
        rw [waiting,hq']
      have hrest := ih hs' hd' (fun i => hcalls (i+1))
        (fun i p hp => hout (i+1) p (List.mem_cons_of_mem _ (hw' ▸ hp)))
        (by rw [hw']; omega) (by rw [hw']; omega)
      rw [hw',hm] at hrest
      rw [drainQueue_sent hr,List.map_cons,letters]
      exact congrArg _ hrest

end Tunn

theorem Awaits.completes {d : AsyncTunn P} {slabLen : ℕ} {t r : Tunnel P} {now0 : Now}
    {index : UInt32} {eph : Bytes 32} {queue : List (List UInt8)}
    (h : Awaits d.tunn slabLen t now0 index eph queue) (hC : Commutes P) (hZ : NeverZero P)
    (hx : Crossed t r) (hpsk : t.psk = r.psk) (C : ChaChaImpl) {e : Inbound} (index' : UInt32)
    (eph' : Bytes 32) (he : e.datagram = r.responseWire (consumedOf t now0 eph index) index' eph')
    (hnow : e.now.ticks.Early) (hcalls : ∀ i, (e.calls i).later.ticks.Early)
    (hout : transportOverhead ≤ e.tunOut.length)
    (hbuf : ∀ i, ∀ p ∈ queue, p.length+47 ≤ (e.calls i).dst.length)
    (hq : queue.length ≤ maxQueueDepth) :
    ∃ mtu, (d.step C (.inbound e)).2 = ⟨(letters P C (completedKeys t r now0 index index' eph eph')
      0 ([]::queue.map (padded mtu))).map (fun w => (w,e.src)),[]⟩ := by
  obtain ⟨hres,hbuf',hclock,hconf⟩ := h.calls.completes hC hZ hx hpsk C hnow (encodeAddr e.src)
    e.tunOut e.rng index' eph'
  have hne : e.datagram ≠ [] := by
    rw [he]
    intro h
    have := congrArg List.length h
    simp [responseWire] at this
  have hrec : d.tunn.receive C (some e.src) e.datagram e.tunOut e.now e.rng =
      d.tunn.inner.decapsulate C e.now (encodeAddr e.src) false
        (r.responseWire (consumedOf t now0 eph index) index' eph') e.tunOut e.rng := by
    unfold Tunn.receive
    rw [Tunn.noteKind_calm h.calm,he]
    rfl
  generalize d.tunn.inner.decapsulate C e.now (encodeAddr e.src) false
    (r.responseWire (consumedOf t now0 eph index) index' eph') e.tunOut e.rng = o at *
  obtain ⟨hpoll,hspeaks⟩ := hconf.confirms rfl C hclock o.rng (hbuf' ▸ hout)
  let u : Tunn P := ⟨o.tunnel.commitSeal o.tunnel.lastNow none,(d.tunn.noteKind e.datagram).2,
    d.tunn.pool,d.tunn.packetQueue,true⟩
  have hw : u.waiting = queue := h.waiting
  have hlen : u.waiting.length = d.tunn.packetQueue.length := List.length_map _
  have hdrain := Tunn.drainQueue_letters (u := u) (n := 1) hspeaks rfl C e.src hcalls
    (by rwa [hw]) (by rw [hw]; exact (Nat.add_le_add_left hq 1).trans (by decide))
    (show u.waiting.length < d.tunn.packetQueue.length+2 by omega)
  refine ⟨u.inner.mtu,?_⟩
  simp only [AsyncTunn.step,AsyncTunn.inbound,Tunn.decapsulate,hne,if_false,hrec,hres,
    Tunn.completed,Tunn.setInner,hpoll,Tunn.front_self]
  rw [hw] at hdrain
  rw [letters,← hdrain]

/-! ## Arriving in any order -/

section Arrive

variable {C D : ChaChaImpl} {d : AsyncTunn P} {slot : Slot} {keys theirs : SessionKeys}
  {seen : Finset ℕ} {c : ℕ} {plain : List UInt8} {e : Inbound}

end Arrive

/-! ## Two loops over the primitives of the library -/

end WireGuard
