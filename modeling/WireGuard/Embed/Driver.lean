import WireGuard.Buffers
import WireGuard.Embed.AsyncTunn
import WireGuard.Pair

/-!
# The event loop is a run of the core

Whatever arms the loop takes, its core has made calls of its own methods, and what
the loop sends and hands to the host is what these calls returned: byte for byte, in
order, and with nothing added.
-/

set_option autoImplicit false

namespace WireGuard
open ByteString Tunnel

variable {P : Primitives}

/-- The datagrams of a result for the network. -/
def Output.wires (o : Output) : List (List UInt8) := o.wire?.toList

/-- The packets of a result for the host, without their padding. -/
def Output.packets : Output → List (List UInt8)
  | .decapsulated (.ok (.data packet)) => [packet.take ((ipPacketLen packet).getD packet.length)]
  | _ => []

def TunnResult.wires : TunnResult → List (List UInt8)
  | .writeToNetwork wire => [wire]
  | _ => []

def TunnResult.packets : TunnResult → List (List UInt8)
  | .writeToTunnel packet => [packet]
  | _ => []

/-- Calls of the core lead from `a` to `b` and return these datagrams and packets. -/
def Yields (C : ChaChaImpl) (a b : Tunnel P) (wires packets : List (List UInt8)) : Prop :=
  ∃ os, Machine.Traces (step C) a os b ∧ os.flatMap Output.wires = wires ∧
    os.flatMap Output.packets = packets

namespace Yields

variable {C : ChaChaImpl} {a b c : Tunnel P} {wires wires' packets packets' : List (List UInt8)}

theorem refl (C : ChaChaImpl) (a : Tunnel P) : Yields C a a [] [] :=
  ⟨[],Machine.Traces.refl _ a,rfl,rfl⟩

theorem trans (h : Yields C a b wires packets) (h' : Yields C b c wires' packets') :
    Yields C a c (wires++wires') (packets++packets') := by
  obtain ⟨os,ht,rfl,rfl⟩ := h
  obtain ⟨os',ht',rfl,rfl⟩ := h'
  exact ⟨os++os',ht.trans ht',List.flatMap_append,List.flatMap_append⟩

theorem single {op : Op} (ho : (step C a op).2.wires = wires)
    (hp : (step C a op).2.packets = packets) : Yields C a (step C a op).1 wires packets :=
  ⟨[(step C a op).2],Machine.Traces.single _ a op,by simp [ho],by simp [hp]⟩

end Yields

/-- The method has made calls of the core and returns what they returned. -/
def TunnOutcome.Faithful (C : ChaChaImpl) (a : Tunnel P) (o : TunnOutcome P) : Prop :=
  Yields C a o.tunn.inner o.result.wires o.result.packets

theorem TunnOutcome.Faithful.after {C : ChaChaImpl} {a b : Tunnel P} {o : TunnOutcome P}
    (h : o.Faithful C b) (hs : Yields C a b [] []) : o.Faithful C a :=
  hs.trans h

theorem TunnOutcome.Faithful.quiet {C : ChaChaImpl} {a : Tunnel P} {o : TunnOutcome P}
    (h : o.Faithful C a) (hw : ∀ wire, o.result ≠ .writeToNetwork wire)
    (hp : o.result.packets = []) : Yields C a o.tunn.inner [] [] := by
  have hn : o.result.wires = [] := by
    unfold TunnResult.wires
    split
    · rename_i wire hr
      exact absurd hr (hw wire)
    · rfl
  rwa [Faithful,hn,hp] at h

theorem ipPacketLen_le {payload : List UInt8} {n : ℕ} (h : ipPacketLen payload = some n) :
    n ≤ payload.length := by
  have hcut : ∀ x : Option ℕ,
      (x.bind fun claimed => if claimed ≤ payload.length then some claimed else none) = some n →
        n ≤ payload.length := by
    intro x hx
    obtain ⟨claimed,-,hx⟩ := Option.bind_eq_some_iff.mp hx
    split at hx
    · obtain rfl := Option.some.inj hx
      assumption
    · cases hx
  unfold ipPacketLen at h
  obtain ⟨first,-,h⟩ := Option.bind_eq_some_iff.mp h
  split at h
  · obtain ⟨total,-,h⟩ := Option.bind_eq_some_iff.mp h
    split at h
    · exact hcut _ h
    · exact hcut _ h
  · split at h
    · split at h
      · exact hcut _ h
      · exact hcut _ h
    · exact hcut _ h

namespace Tunn

theorem front_append {n : ℕ} {w rest : List UInt8} (h : n ≤ w.length) :
    front n (w++rest) = w.take n := by
  unfold front
  rw [if_pos (h.trans (by simp)),List.take_append_of_le_length h]

theorem front_self {w rest : List UInt8} : front w.length (w++rest) = w := by
  rw [front_append (le_refl _),List.take_length]

theorem front_of_blind {α : Type} {bytes : α → List UInt8} {f : List UInt8 → Outcome P α}
    (hf : Blind bytes 0 f) {out w : List UInt8} (hw : written bytes (f out).result = w) {n : ℕ}
    (hn : n ≤ w.length) : front n (f out).out = w.take n := by
  rw [(hf.holds out (Nat.zero_le _)).2,hw]
  exact front_append hn

variable {C : ChaChaImpl} {u : Tunn P} {dst : List UInt8} {now later : Now} {rng : Entropy}

theorem yields_encapsulate (src : Payload) {wires : List (List UInt8)}
    (h : (WireGuard.step C u.inner (.encapsulate now src dst rng)).2.wires = wires) :
    Yields C u.inner (u.inner.encapsulate C now src dst rng).tunnel wires [] :=
  Yields.single h rfl

theorem yields_poll {wires : List (List UInt8)}
    (h : (WireGuard.step C u.inner (.poll now dst rng)).2.wires = wires) :
    Yields C u.inner (u.inner.poll C now dst rng).tunnel wires [] :=
  Yields.single h rfl

theorem encapsulate_faithful (src : Payload) :
    (u.encapsulate C src dst now rng).Faithful C u.inner := by
  unfold encapsulate
  dsimp only
  split <;> rename_i h <;> simp only [TunnOutcome.Faithful,queuePacket_inner] <;>
    refine yields_encapsulate src ?_ <;> simp only [WireGuard.step,h] <;> rfl

theorem encapsulate_packets (src : Payload) :
    (u.encapsulate C src dst now rng).result.packets = [] := by
  unfold encapsulate
  dsimp only
  split <;> rfl

theorem drainQueueStep_faithful : (u.drainQueueStep C dst now rng).Faithful C u.inner := by
  unfold drainQueueStep
  split
  · exact Yields.refl C _
  split
  · exact Yields.refl C _
  · rename_i packet rest _
    dsimp only
    split <;> rename_i h <;> refine yields_encapsulate packet.payload ?_ <;>
      simp only [WireGuard.step,h] <;> rfl

theorem drainQueueStep_packets : (u.drainQueueStep C dst now rng).result.packets = [] := by
  unfold drainQueueStep
  split
  · rfl
  split
  · rfl
  · dsimp only
    split <;> rfl

theorem completed_faithful : (u.completed C dst now later rng).Faithful C u.inner := by
  unfold completed
  dsimp only
  split
  · rename_i wire reason h
    refine yields_poll ?_
    have hw : written PollOutput.bytes (u.inner.poll C now dst rng).result = wire := by
      rw [h]
      rfl
    simp only [WireGuard.step,h,front_of_blind (poll_blind u.inner now rng C) hw (le_refl _),
      List.take_length]
    rfl
  · rename_i hn
    refine drainQueueStep_faithful.after (yields_poll ?_)
    cases hr : (u.inner.poll C now dst rng).result with
    | error e => simp only [WireGuard.step,hr]; rfl
    | ok o =>
      cases o with
      | send wire reason => exact absurd hr (hn wire reason)
      | _ => simp only [WireGuard.step,hr]; rfl

theorem decapsulate_faithful (srcAddr : Option SocketAddr) (datagram : List UInt8) :
    (u.decapsulate C srcAddr datagram dst now later rng).Faithful C u.inner := by
  unfold decapsulate
  split
  · exact drainQueueStep_faithful
  have hs : ∀ {wires packets : List (List UInt8)},
      (Output.decapsulated (u.receive C srcAddr datagram dst now rng).result).wires = wires →
      (Output.decapsulated (u.receive C srcAddr datagram dst now rng).result).packets = packets →
      Yields C u.inner (u.receive C srcAddr datagram dst now rng).tunnel wires packets :=
    fun hw hp => @Yields.single _ C u.inner _ _ (.decapsulate now
      ((srcAddr.map encodeAddr).getD []) ((u.noteKind datagram).1 && srcAddr.isSome) datagram dst
      rng) hw hp
  have hfront : ∀ {w : List UInt8} {n : ℕ},
      written Received.bytes (u.receive C srcAddr datagram dst now rng).result = w → n ≤ w.length →
      front n (u.receive C srcAddr datagram dst now rng).out = w.take n :=
    fun hw hn => front_of_blind (decapsulate_blind u.inner now _ rng C _ datagram) hw hn
  dsimp only
  split
  · rename_i packet h
    have hw : written Received.bytes (u.receive C srcAddr datagram dst now rng).result =
        packet := by
      rw [h]
      rfl
    have hn : (ipPacketLen packet).getD packet.length ≤ packet.length := by
      cases hl : ipPacketLen packet with
      | none => exact le_refl _
      | some n => exact ipPacketLen_le hl
    simp only [TunnOutcome.Faithful,hfront hw hn]
    refine hs ?_ ?_ <;> rw [h] <;> rfl
  · rename_i wire h
    have hw : written Received.bytes (u.receive C srcAddr datagram dst now rng).result = wire := by
      rw [h]
      rfl
    simp only [TunnOutcome.Faithful,hfront hw (le_refl _),List.take_length]
    refine hs ?_ ?_ <;> rw [h] <;> rfl
  · rename_i h
    refine completed_faithful.after (hs ?_ ?_) <;> rw [h] <;> rfl
  · rename_i h
    refine hs ?_ ?_ <;> rw [h] <;> rfl
  · rename_i h
    refine hs ?_ ?_ <;> rw [h] <;> rfl
  · rename_i h
    refine hs ?_ ?_ <;> rw [h] <;> rfl

theorem timerCall_faithful (c : TimerCall) : (u.timerCall C c).Faithful C u.inner := by
  unfold timerCall updateTimers
  dsimp only
  split <;> rename_i h <;> refine yields_poll ?_ <;> simp only [WireGuard.step,h] <;> rfl

theorem timerCall_packets (c : TimerCall) : (u.timerCall C c).result.packets = [] := by
  unfold timerCall updateTimers
  dsimp only
  split <;> rfl

theorem drainQueue_yields {peer : SocketAddr} (n : ℕ) {u : Tunn P} {calls : ℕ → DrainCall} :
    Yields C u.inner (drainQueue C peer n u calls).1.inner (drainQueue C peer n u calls).2 [] := by
  induction n generalizing u calls with
  | zero => exact Yields.refl C _
  | succ n ih =>
    have hd : (u.drain C {calls 0 with srcAddr := some peer}).Faithful C u.inner :=
      drainQueueStep_faithful
    unfold drainQueue
    dsimp only
    split
    · rename_i wire h
      simp only [TunnOutcome.Faithful,h] at hd
      exact hd.trans ih
    · rename_i h
      exact hd.quiet h drainQueueStep_packets

theorem timerLoop_yields (n : ℕ) {u : Tunn P} {calls : ℕ → TimerCall} {p : TimerPass P}
    (h : timerLoop C n u calls = some p) : Yields C u.inner p.tunn.inner p.wires [] := by
  induction n generalizing u calls p with
  | zero => cases h
  | succ n ih =>
    have hc : (u.timerCall C (calls 0)).Faithful C u.inner := timerCall_faithful _
    rw [timerLoop] at h
    split at h
    · rename_i wire hw
      simp only [TunnOutcome.Faithful,hw] at hc
      obtain ⟨q,hq,rfl⟩ := Option.map_eq_some_iff.mp h
      exact hc.trans (ih (p := q) hq)
    · rename_i hn
      obtain rfl := Option.some.inj h
      exact hc.quiet hn (timerCall_packets _)

end Tunn

namespace AsyncTunn

def sentBy (C : ChaChaImpl) (d : AsyncTunn P) (arms : List Arm) :
    List (List UInt8 × SocketAddr) :=
  (Machine.history (step C) d arms).flatMap (fun x => x.output.sent)

def handedBy (C : ChaChaImpl) (d : AsyncTunn P) (arms : List Arm) : List (List UInt8) :=
  (Machine.history (step C) d arms).flatMap (fun x => x.output.delivered)

theorem sentBy_cons (C : ChaChaImpl) (d : AsyncTunn P) (arm : Arm) (arms : List Arm) :
    d.sentBy C (arm::arms) = (d.step C arm).2.sent++(d.step C arm).1.sentBy C arms := by
  simp only [sentBy,Machine.history,List.flatMap_cons,Machine.advance]

theorem handedBy_cons (C : ChaChaImpl) (d : AsyncTunn P) (arm : Arm) (arms : List Arm) :
    d.handedBy C (arm::arms) = (d.step C arm).2.delivered++(d.step C arm).1.handedBy C arms := by
  simp only [handedBy,Machine.history,List.flatMap_cons,Machine.advance]

/-- The datagrams of the calls behind a turn are sent, and all of them if the address
of the peer is known. -/
structure Relays (d : AsyncTunn P) (sent : List (List UInt8 × SocketAddr))
    (wires : List (List UInt8)) : Prop where
  lossy : (sent.map Prod.fst).Sublist wires
  exact : d.peerAddr.isSome = true → sent.map Prod.fst = wires

theorem Relays.of_eq {d : AsyncTunn P} {sent : List (List UInt8 × SocketAddr)}
    {wires : List (List UInt8)} (h : sent.map Prod.fst = wires) : Relays d sent wires :=
  ⟨by rw [h],fun _ => h⟩

theorem map_fst_pair (wires : List (List UInt8)) (peer : SocketAddr) :
    (wires.map (fun w => (w,peer))).map Prod.fst = wires := by
  rw [List.map_map]
  exact List.map_id _

theorem inbound_yields (C : ChaChaImpl) (d : AsyncTunn P) (e : Inbound) :
    Yields C d.tunn.inner (d.inbound C e).1.tunn.inner ((d.inbound C e).2.sent.map Prod.fst)
      (d.inbound C e).2.delivered := by
  have hf : (d.tunn.decapsulate C (some e.src) e.datagram e.tunOut e.now e.later
      e.rng).Faithful C d.tunn.inner := Tunn.decapsulate_faithful _ _
  unfold inbound
  dsimp only
  split <;> rename_i h <;> simp only [TunnOutcome.Faithful,h] at hf
  · exact hf
  · rw [map_fst_pair]
    exact hf.trans (Tunn.drainQueue_yields _)
  · exact hf
  · exact hf

theorem outbound_eq (C : ChaChaImpl) (d : AsyncTunn P) (pkt : Payload) (netOut : List UInt8)
    (now : Now) (rng : Entropy) :
    let o := d.tunn.encapsulate C pkt netOut now rng
    d.outbound C pkt netOut now rng = (⟨o.tunn,d.peerAddr⟩,
      ⟨d.peerAddr.toList.flatMap (fun peer => o.result.wires.map (fun w => (w,peer))),[]⟩) := by
  unfold outbound
  cases hp : d.peerAddr with
  | none => rfl
  | some peer =>
    dsimp only
    cases (d.tunn.encapsulate C pkt netOut now rng).result <;> rfl

theorem step_yields (C : ChaChaImpl) (d : AsyncTunn P) (arm : Arm) :
    ∃ wires, Yields C d.tunn.inner (d.step C arm).1.tunn.inner wires (d.step C arm).2.delivered ∧
      Relays d (d.step C arm).2.sent wires := by
  cases arm with
  | inbound e => exact ⟨_,inbound_yields C d e,.of_eq rfl⟩
  | outbound pkt netOut now rng =>
    have hf : (d.tunn.encapsulate C pkt netOut now rng).Faithful C d.tunn.inner :=
      Tunn.encapsulate_faithful pkt
    rw [TunnOutcome.Faithful,Tunn.encapsulate_packets] at hf
    refine ⟨(d.tunn.encapsulate C pkt netOut now rng).result.wires,?_⟩
    simp only [step,outbound_eq]
    refine ⟨hf,?_⟩
    cases hp : d.peerAddr with
    | none => exact ⟨List.nil_sublist _,fun h => by simp [hp] at h⟩
    | some peer =>
      refine .of_eq ?_
      rw [Option.toList_some,List.flatMap_singleton]
      exact map_fst_pair _ peer
  | timer fuel calls =>
    dsimp only [step]
    unfold timer
    cases hp : d.peerAddr with
    | none => exact ⟨[],Yields.refl C _,.of_eq rfl⟩
    | some peer =>
      cases hl : d.tunn.timerLoop C fuel calls with
      | none => exact ⟨[],Yields.refl C _,.of_eq rfl⟩
      | some p => exact ⟨p.wires,Tunn.timerLoop_yields fuel hl,.of_eq (map_fst_pair _ peer)⟩
  | share rateLimiter free => exact ⟨[],Yields.refl C _,.of_eq rfl⟩

theorem step_peerAddr (C : ChaChaImpl) (d : AsyncTunn P) (arm : Arm)
    (h : d.peerAddr.isSome = true) : (d.step C arm).1.peerAddr.isSome = true := by
  cases arm with
  | inbound e =>
    dsimp only [step]
    unfold inbound
    dsimp only
    split
    · rfl
    · rfl
    · exact h
    · exact h
  | outbound pkt netOut now rng =>
    simp only [step,outbound_eq]
    exact h
  | timer fuel calls =>
    dsimp only [step]
    unfold timer
    cases hp : d.peerAddr with
    | none =>
      rw [hp] at h
      cases h
    | some peer =>
      cases hl : d.tunn.timerLoop C fuel calls with
      | none => exact h
      | some p => rfl
  | share rateLimiter free => exact h

theorem run_yields (C : ChaChaImpl) (d : AsyncTunn P) (arms : List Arm) :
    ∃ wires, Yields C d.tunn.inner (Machine.final (step C) d arms).tunn.inner wires
        (d.handedBy C arms) ∧ Relays d (d.sentBy C arms) wires := by
  induction arms generalizing d with
  | nil => exact ⟨[],Yields.refl C _,.of_eq rfl⟩
  | cons arm arms ih =>
    obtain ⟨wires,hy,hr⟩ := step_yields C d arm
    obtain ⟨wires',hy',hr'⟩ := ih (d.step C arm).1
    refine ⟨wires++wires',?_,?_,?_⟩
    · rw [handedBy_cons]
      exact hy.trans hy'
    · rw [sentBy_cons,List.map_append]
      exact hr.lossy.append hr'.lossy
    · intro hp
      rw [sentBy_cons,List.map_append,hr.exact hp,hr'.exact (step_peerAddr C d arm hp)]

/-- Every run of the loop is a run of its core. The packets for the host are those of
the core's calls, and the datagrams on the socket are those of the core's calls in their
order: all of them if the address of the peer is known from the start, and otherwise no
others. -/
theorem refines_core (C : ChaChaImpl) (d : AsyncTunn P) (arms : List Arm) :
    ∃ ops, let history := run C d.tunn.inner ops
      Machine.final (WireGuard.step C) d.tunn.inner ops =
        (Machine.final (step C) d arms).tunn.inner ∧
      d.handedBy C arms = history.flatMap (fun x => x.output.packets) ∧
      ((d.sentBy C arms).map Prod.fst).Sublist (history.flatMap (fun x => x.output.wires)) ∧
      (d.peerAddr.isSome = true →
        (d.sentBy C arms).map Prod.fst = history.flatMap (fun x => x.output.wires)) := by
  obtain ⟨_,⟨_,⟨ops,hf,rfl⟩,rfl,hp⟩,hr⟩ := run_yields C d arms
  rw [List.flatMap_map] at hr hp
  exact ⟨ops,hf,hp.symm,hr.lossy,hr.exact⟩

end AsyncTunn

end WireGuard
