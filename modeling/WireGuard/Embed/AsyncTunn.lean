import WireGuard.Embed.Queue
import WireGuard.Drain

/-!
# The event loop of the embedding crate

The loop owns a tunnel and the address of its peer. Each turn serves one arm: a
datagram of the socket, a packet of the host, or the timer. The scratch slabs, the
clock and the entropy of the calls come with the event. Sending never fails, and
the channel to the host is open.
-/

set_option autoImplicit false

namespace WireGuard
open ByteString

variable {P : Primitives}

structure AsyncTunn (P : Primitives) where
  tunn : Tunn P
  peerAddr : Option SocketAddr

/-- What a turn sends to the network and hands to the host. -/
structure Served where
  sent : List (List UInt8 × SocketAddr)
  delivered : List (List UInt8)

def Served.nothing : Served := ⟨[],[]⟩

namespace Tunn

/-- The loop of `drain_queue` with its datagrams. It ends at the first result that
is not a datagram for the network. -/
def drainQueue (C : ChaChaImpl) (dst : SocketAddr) :
    ℕ → Tunn P → (ℕ → DrainCall) → Tunn P × List (List UInt8)
  | 0, t, _ => (t,[])
  | n+1, t, calls =>
    let o := t.drain C {calls 0 with srcAddr := some dst}
    match o.result with
    | .writeToNetwork wire =>
      let (t,wires) := drainQueue C dst n o.tunn (fun i => calls (i+1))
      (t,wire::wires)
    | _ => (o.tunn,[])

end Tunn

structure TimerCall extends PollCall where
  limiterNs : ℕ

structure TimerPass (P : Primitives) where
  tunn : Tunn P
  wires : List (List UInt8)
  rest : ℕ → TimerCall

namespace Tunn

def timerCall (C : ChaChaImpl) (t : Tunn P) (c : TimerCall) : TunnOutcome P :=
  t.updateTimers C c.out c.limiterNs c.now c.rng

/-- The loop of the timer arm, or nothing if it takes more than `n` calls. -/
def timerLoop (C : ChaChaImpl) : ℕ → Tunn P → (ℕ → TimerCall) → Option (TimerPass P)
  | 0, _, _ => none
  | n+1, t, calls =>
    let o := t.timerCall C (calls 0)
    match o.result with
    | .writeToNetwork wire =>
      (timerLoop C n o.tunn (fun i => calls (i+1))).map (fun p => {p with wires := wire::p.wires})
    | _ => some ⟨o.tunn,[],fun i => calls (i+1)⟩

end Tunn

/-- A datagram from the socket with what the calls of its arm draw on. -/
structure Inbound where
  src : SocketAddr
  datagram : List UInt8
  tunOut : List UInt8
  now : Now
  later : Now
  rng : Entropy
  calls : ℕ → DrainCall

namespace AsyncTunn

def new (tunn : Tunn P) (peerAddr : Option SocketAddr) : AsyncTunn P := ⟨tunn,peerAddr⟩

def inbound (C : ChaChaImpl) (d : AsyncTunn P) (e : Inbound) : AsyncTunn P × Served :=
  let o := d.tunn.decapsulate C (some e.src) e.datagram e.tunOut e.now e.later e.rng
  match o.result with
  | .writeToTunnel packet =>
    (⟨{o.tunn with pool := o.tunn.pool.popped},some e.src⟩,⟨[],[packet]⟩)
  | .writeToNetwork wire =>
    let (t,wires) := o.tunn.drainQueue C e.src (o.tunn.packetQueue.length+2) e.calls
    (⟨t,some e.src⟩,⟨(wire::wires).map (fun w => (w,e.src)),[]⟩)
  | .done => (⟨o.tunn,d.peerAddr⟩,.nothing)
  | .err _ => (⟨o.tunn,d.peerAddr⟩,.nothing)

def outbound (C : ChaChaImpl) (d : AsyncTunn P) (pkt : Payload) (netOut : List UInt8) (now : Now)
    (rng : Entropy) : AsyncTunn P × Served :=
  let o := d.tunn.encapsulate C pkt netOut now rng
  match d.peerAddr with
  | none => (⟨o.tunn,none⟩,.nothing)
  | some dst =>
    match o.result with
    | .writeToNetwork wire => (⟨o.tunn,some dst⟩,⟨[(wire,dst)],[]⟩)
    | _ => (⟨o.tunn,some dst⟩,.nothing)

def timer (C : ChaChaImpl) (fuel : ℕ) (d : AsyncTunn P) (calls : ℕ → TimerCall) :
    Option (AsyncTunn P × Served × (ℕ → TimerCall)) :=
  match d.peerAddr with
  | none => some (d,.nothing,calls)
  | some dst => (d.tunn.timerLoop C fuel calls).map (fun p =>
      (⟨p.tunn,some dst⟩,⟨p.wires.map (fun w => (w,dst)),[]⟩,p.rest))

end AsyncTunn

/-- One arm of the loop, taken. Other owners of the limiter and the pool act in between. -/
inductive Arm where
  | inbound (e : Inbound)
  | outbound (pkt : Payload) (netOut : List UInt8) (now : Now) (rng : Entropy)
  | timer (fuel : ℕ) (calls : ℕ → TimerCall)
  | share (rateLimiter : RateLimiter) (free : List Payload)

namespace AsyncTunn

def step (C : ChaChaImpl) (d : AsyncTunn P) : Arm → AsyncTunn P × Served
  | .inbound e => d.inbound C e
  | .outbound pkt netOut now rng => d.outbound C pkt netOut now rng
  | .timer fuel calls => ((d.timer C fuel calls).map (fun r => (r.1,r.2.1))).getD (d,.nothing)
  | .share rateLimiter free => (⟨d.tunn.shared rateLimiter free,d.peerAddr⟩,.nothing)

/-- A state that the loop reaches from a tunnel that was built and then used by
its own methods. -/
def Arises (C : ChaChaImpl) (d : AsyncTunn P) : Prop :=
  ∃ config limiter pool t u addr, Tunn.withPool P config limiter pool = .ok t ∧
    Machine.Reachable (Tunn.step C) t u ∧ Machine.Reachable (step C) (new u addr) d

end AsyncTunn

namespace Tunn

variable {C : ChaChaImpl}

def drainBound (t : Tunn P) : ℕ := if t.queueDrainable then t.packetQueue.length+2 else 1

theorem drain_bound {t : Tunn P} {c : DrainCall} {wire : List UInt8}
    (h : (t.drain C c).result = .writeToNetwork wire) :
    (t.drain C c).tunn.drainBound < t.drainBound := by
  revert h
  rw [drain_eq]
  unfold drainQueueStep
  cases hd : t.queueDrainable with
  | false =>
    intro h
    cases h
  | true =>
    dsimp only
    cases hq : t.packetQueue with
    | nil =>
      intro h
      cases h
    | cons packet rest =>
      simp only [Bool.not_true,Bool.false_eq_true,if_false]
      split
      · simp [drainBound,hd,hq]
      · simp [drainBound,requeue,hd,hq]
      · intro h
        cases h

section Loop

variable {dst : SocketAddr} {n : ℕ} {t : Tunn P} {calls : ℕ → DrainCall}

theorem drainQueue_sent {wire : List UInt8}
    (h : (t.drain C {calls 0 with srcAddr := some dst}).result = .writeToNetwork wire) :
    drainQueue C dst (n+1) t calls =
      let r := drainQueue C dst n (t.drain C {calls 0 with srcAddr := some dst}).tunn
        (fun i => calls (i+1))
      (r.1,wire::r.2) := by
  rw [drainQueue]
  simp only [h]

theorem drainQueue_stopped
    (h : ∀ wire, (t.drain C {calls 0 with srcAddr := some dst}).result ≠ .writeToNetwork wire) :
    drainQueue C dst (n+1) t calls = ((t.drain C {calls 0 with srcAddr := some dst}).tunn,[]) := by
  rw [drainQueue]
  dsimp only
  split
  · rename_i hw
    exact absurd hw (h _)
  · rfl

end Loop

theorem drainQueue_bounded {dst : SocketAddr} (n : ℕ) {t : Tunn P} {calls : ℕ → DrainCall}
    (hn : t.drainBound ≤ n) :
    drainQueue C dst (n+1) t calls = drainQueue C dst n t calls := by
  induction n generalizing t calls with
  | zero =>
    unfold drainBound at hn
    split at hn <;> omega
  | succ n ih =>
    by_cases h : ∃ wire, (t.drain C {calls 0 with srcAddr := some dst}).result =
        .writeToNetwork wire
    · obtain ⟨wire,hw⟩ := h
      rw [drainQueue_sent hw,drainQueue_sent hw,
        ih (Nat.lt_succ_iff.mp ((drain_bound hw).trans_le hn))]
    · rw [drainQueue_stopped (not_exists.mp h),drainQueue_stopped (not_exists.mp h)]

theorem drainQueue_ends {dst : SocketAddr} (t : Tunn P) (calls : ℕ → DrainCall) (k : ℕ) :
    drainQueue C dst (t.packetQueue.length+2+k) t calls =
      drainQueue C dst (t.packetQueue.length+2) t calls := by
  induction k with
  | zero => rfl
  | succ k ih =>
    rw [← Nat.add_assoc,drainQueue_bounded _ ?_,ih]
    unfold drainBound
    split <;> omega

theorem drainQueue_reachable {dst : SocketAddr} (n : ℕ) {t : Tunn P} {calls : ℕ → DrainCall} :
    Machine.Reachable (WireGuard.step C) t.inner (drainQueue C dst n t calls).1.inner := by
  induction n generalizing t calls with
  | zero => exact Machine.Reachable.refl _ _
  | succ n ih =>
    by_cases h : ∃ wire, (t.drain C {calls 0 with srcAddr := some dst}).result =
        .writeToNetwork wire
    · obtain ⟨wire,hw⟩ := h
      rw [drainQueue_sent hw]
      exact decapsulate_reachable.trans ih
    · rw [drainQueue_stopped (not_exists.mp h)]
      exact decapsulate_reachable

theorem timerLoop_reachable (n : ℕ) {t : Tunn P} {calls : ℕ → TimerCall} {p : TimerPass P}
    (h : timerLoop C n t calls = some p) :
    Machine.Reachable (WireGuard.step C) t.inner p.tunn.inner := by
  induction n generalizing t calls p with
  | zero => cases h
  | succ n ih =>
    have hc : Machine.Reachable (WireGuard.step C) t.inner (t.timerCall C (calls 0)).tunn.inner :=
      call_reachable (.updateTimers _ _ _ _)
    rw [timerLoop] at h
    split at h
    · obtain ⟨q,hq,rfl⟩ := Option.map_eq_some_iff.mp h
      exact hc.trans (ih (p := q) hq)
    · obtain rfl := Option.some.inj h
      exact hc

end Tunn

namespace AsyncTunn

variable {C : ChaChaImpl}

theorem inbound_reachable (d : AsyncTunn P) (e : Inbound) :
    Machine.Reachable (WireGuard.step C) d.tunn.inner (d.inbound C e).1.tunn.inner := by
  unfold inbound
  dsimp only
  split
  · exact Tunn.decapsulate_reachable
  · exact Tunn.decapsulate_reachable.trans (Tunn.drainQueue_reachable _)
  · exact Tunn.decapsulate_reachable
  · exact Tunn.decapsulate_reachable

theorem outbound_tunn (d : AsyncTunn P) (pkt : Payload) (netOut : List UInt8) (now : Now)
    (rng : Entropy) :
    (d.outbound C pkt netOut now rng).1.tunn = (d.tunn.encapsulate C pkt netOut now rng).tunn := by
  unfold outbound
  dsimp only
  split
  · rfl
  · split <;> rfl

theorem timer_reachable {d : AsyncTunn P} {fuel : ℕ} {calls : ℕ → TimerCall}
    {r : AsyncTunn P × Served × (ℕ → TimerCall)} (h : d.timer C fuel calls = some r) :
    Machine.Reachable (WireGuard.step C) d.tunn.inner r.1.tunn.inner := by
  unfold timer at h
  split at h
  · obtain rfl := Option.some.inj h
    exact Machine.Reachable.refl _ _
  · obtain ⟨p,hp,rfl⟩ := Option.map_eq_some_iff.mp h
    exact Tunn.timerLoop_reachable fuel hp

theorem step_reachable (d : AsyncTunn P) (arm : Arm) :
    Machine.Reachable (WireGuard.step C) d.tunn.inner (d.step C arm).1.tunn.inner := by
  cases arm with
  | inbound e => exact inbound_reachable d e
  | outbound pkt netOut now rng =>
    unfold step
    dsimp only
    rw [outbound_tunn]
    exact Tunn.call_reachable (.encapsulate pkt netOut now rng)
  | timer fuel calls =>
    dsimp only [step]
    cases h : d.timer C fuel calls with
    | none => exact Machine.Reachable.refl _ _
    | some r => exact timer_reachable h
  | share rateLimiter free => exact Machine.Reachable.refl _ _

theorem Arises.core {d : AsyncTunn P} (h : d.Arises C) : ∃ config t,
    withBackend P config = .ok t ∧ Machine.Reachable (WireGuard.step C) t d.tunn.inner := by
  obtain ⟨config,limiter,pool,t,u,addr,ht,hu,hd⟩ := h
  have hb : withBackend P config = .ok t.inner := by
    unfold Tunn.withPool at ht
    split at ht
    · cases ht
    · rename_i inner hi
      obtain rfl := Except.ok.inj ht
      exact hi
  have hu : Machine.Reachable (WireGuard.step C) t.inner u.inner :=
    Machine.reachable_invariant (Tunn.step C) t
      (fun v => Machine.Reachable (WireGuard.step C) t.inner v.inner) (Machine.Reachable.refl _ _)
      (fun v op hv => hv.trans (Tunn.call_reachable op)) hu
  have hd : Machine.Reachable (WireGuard.step C) u.inner d.tunn.inner :=
    Machine.reachable_invariant (step C) (new u addr)
      (fun v => Machine.Reachable (WireGuard.step C) u.inner v.tunn.inner)
      (Machine.Reachable.refl _ _) (fun v arm hv => hv.trans (step_reachable v arm)) hd
  exact ⟨config,t.inner,hb,hu.trans hd⟩

end AsyncTunn

def specimenHome : SocketAddr := .v4 (zeros 4) 51820

/-- A loop whose tunnel has just completed a handshake, while a packet waits. -/
def specimenHeld : AsyncTunn specimen :=
  .new (Machine.final (Tunn.step (scalar specimen)) specimenTunn specimenAnswer) (some specimenHome)

theorem specimenHeld_arises : specimenHeld.Arises (scalar specimen) :=
  ⟨_,_,_,_,_,_,specimenTunn_built,⟨specimenAnswer,rfl⟩,Machine.Reachable.refl _ _⟩

end WireGuard
