import WireGuard.Acceptance
import WireGuard.Agreement
import WireGuard.Indices

/-!
# A payload and what arrives of it

What one end makes of a payload, the other end's session with the crossed keys
opens, whichever slot it is in and whichever backends the two ends use. What
arrives is the payload with its padding, and for an IP packet the header tells
where the padding begins.
-/

set_option autoImplicit false

namespace WireGuard
open ByteString Tunnel

variable {P : Primitives}

theorem encapsulate_sealed {C : ChaChaImpl} {t : Tunnel P} {now : Now} {payload : Payload}
    {out w : List UInt8} {rng : Entropy}
    (h : (t.encapsulate C now payload out rng).result = .ok (.transport w)) :
    ∃ s, t.current = some s ∧ s.sendCounter < rejectAfterMessages ∧
      w = transportWire (P := P) C s (t.stage payload) := by
  rw [encapsulate,clampNow_eq] at h
  unfold encapsulateAt at h
  split at h
  · unfold encapsulateStart at h
    split at h
    · cases h
    split at h
    · cases h
    · unfold Outcome.emit at h
      split at h
      · cases h
      · split at h <;> cases h
  · rename_i hu
    obtain ⟨s,hs,hus⟩ := currentUsable_some (by simpa using hu)
    have hlt := (Session.usableForSend_iff.mp hus).2.1
    rw [encapsulateSeal_eq C _ payload out rng hs hlt] at h
    split at h
    · cases h
    · cases h
      exact ⟨s,hs,hlt,rfl⟩

theorem Unambiguous.lookup {t : Tunnel P} (h : Unambiguous t) {a : Slot} {s : Session}
    (hs : t.slot a = some s) : t.sessionWithIndex s.keys.localIndex = some a := by
  have ha : holds (t.slot a) s.keys.localIndex = true := holds_iff.mpr ⟨s,hs,rfl⟩
  cases hb : t.sessionWithIndex s.keys.localIndex with
  | none => exact absurd ha (sessionWithIndex_none.mp hb a)
  | some b =>
    obtain ⟨s',hs',hx'⟩ := holds_iff.mp (sessionWithIndex_holds hb)
    rw [h.slots b a s' s hs' hs hx']

theorem decapsulate_delivers (C : ChaChaImpl) {t : Tunnel P} {now : Now}
    {datagram out : List UInt8} (remote : List UInt8) (underLoad : Bool) (rng : Entropy)
    {m : TransportData} {slot : Slot} {s : Session} {plain : List UInt8}
    (hm : parse datagram = .ok (.transportData m))
    (hx : t.sessionWithIndex m.receiverIndex = some slot) (hs : t.slot slot = some s)
    (hn : m.counter < rejectAfterMessages)
    (ha : s.age (t.observe now).lastNow < rejectAfterTime)
    (hk : s.replay.check m.counter = true)
    (ho : openBytes P C s.keys.recv (nonceFromCounter m.counter) [] m.ciphertext = some plain)
    (hout : plain.length ≤ out.length) :
    (t.decapsulate C now remote underLoad datagram out rng).result = .ok (delivered plain) := by
  have hx : (t.observe now).sessionWithIndex m.receiverIndex = some slot := hx
  have hs : (t.observe now).slot slot = some s := by cases slot <;> exact hs
  have hacc : (s.replay.accept m.counter).2 = true := by
    rw [ReplayWindow.accept_result,hk]
  have hopen := openWith_of_openBytes P ho hout
  have hr : (t.reading now).ticks = (t.observe now).lastNow := rfl
  rw [decapsulate,clampNow_eq]
  simp only [decapsulateAt,hm,handleTransport,hx,hs,hr,hk,hopen,hacc]
  rw [if_neg (by omega),if_neg (by omega)]
  unfold delivered
  cases plain with
  | nil => rfl
  | cons b bs => simp

theorem paddedLen_zero (mtu : Option NonZeroU16) : paddedLen 0 mtu = 0 := by
  cases mtu <;> rfl

theorem stage_eq_nil_iff (t : Tunnel P) (payload : Payload) :
    t.stage payload = [] ↔ payload.val = [] := by
  constructor
  · intro h
    exact (List.append_eq_nil_iff.mp h).1
  · intro h
    rw [← List.length_eq_zero_iff,stage_length,h]
    exact paddedLen_zero t.mtu

/-- An IP packet whose header fields give its length: the total length of IPv4, not
shorter than its own header, or the payload length of IPv6. -/
def IpPacket (packet : List UInt8) : Prop :=
  ∃ first, packet.head? = some first ∧
    (first >>> 4 = 4 ∧ 20 ≤ (first &&& 0x0f).toNat*4 ∧
        (first &&& 0x0f).toNat*4 ≤ packet.length ∧ be16At 2 packet = some packet.length ∨
      first >>> 4 = 6 ∧ ∃ n, be16At 4 packet = some n ∧ packet.length = n+40)

theorem be16At_append {i v : ℕ} {l : List UInt8} (h : be16At i l = some v) (z : List UInt8) :
    be16At i (l++z) = some v := by
  unfold be16At at h ⊢
  split at h
  · rename_i a b r hd
    have hle : i ≤ l.length := by
      by_contra hgt
      rw [List.drop_eq_nil_of_le (by omega)] at hd
      cases hd
    rw [List.drop_append_of_le_length hle,hd]
    exact h
  · cases h

theorem ipPacketLen_append {packet : List UInt8} (h : IpPacket packet) (z : List UInt8) :
    ipPacketLen (packet++z) = some packet.length := by
  obtain ⟨first,hf,h⟩ := h
  have hhead : (packet++z).head? = some first := by
    rw [List.head?_append,hf]
    rfl
  have hlen : packet.length ≤ (packet++z).length := by simp
  unfold ipPacketLen
  rw [hhead]
  rcases h with ⟨hv,h20,hle,hn⟩ | ⟨hv,n,hn,hlen'⟩
  · simp only [Option.bind_eq_bind,Option.bind_some,hv,if_true,be16At_append hn z,
      if_pos (And.intro h20 hle),if_pos hlen]
  · have h64 : (6 : UInt8) ≠ 4 := by decide
    have h40 : 40 ≤ (packet++z).length := by omega
    simp only [Option.bind_eq_bind,Option.bind_some,hv,h64,if_false,if_true,if_pos h40,
      be16At_append hn z,Option.map_some,← hlen',if_pos hlen]

/-- Whatever payload one end sends on its current session, the other end's crossed
session gives it back, with the padding that the sender's MTU asks for. -/
theorem transport_round_trip {C D : ChaChaImpl} (hC : C.Meets P) (hD : D.Meets P)
    {config : Config} {t b : Tunnel P} (ht : withBackend P config = .ok t)
    (hb : Machine.Reachable (step D) t b) {a : Tunnel P} {now : Now} {payload : Payload}
    {out w : List UInt8} {rng : Entropy}
    (hw : (a.encapsulate C now payload out rng).result = .ok (.transport w))
    {s s' : Session} {slot : Slot} (hs : a.current = some s) (hs' : b.slot slot = some s')
    (hcross : s.keys.Crossed s'.keys) {now' : Now}
    (hage : s'.age (b.observe now').lastNow < rejectAfterTime)
    (hfresh : s'.replay.check s.sendCounter = true) {out' : List UInt8}
    (hout : w.length-32 ≤ out'.length) (remote : List UInt8) (underLoad : Bool)
    (rng' : Entropy) :
    let result := (b.decapsulate D now' remote underLoad w out' rng').result
    (result = .ok .keepalive ↔ payload.val = []) ∧
    (payload.val ≠ [] → ∃ d n, result = .ok (.data d) ∧ d = payload.val++List.replicate n 0 ∧
      d.length = paddedLen payload.val.length a.mtu ∧
      (IpPacket payload.val → ipPacketLen d = some payload.val.length)) := by
  obtain ⟨s1,hs1,hlt,rfl⟩ := encapsulate_sealed hw
  obtain rfl := Option.some.inj (hs.symm.trans hs1)
  have hov : transportOverhead = 32 := rfl
  have hle : s.sendCounter ≤ u64Max := by
    unfold rejectAfterMessages at hlt
    omega
  have hindex : b.sessionWithIndex s.keys.peerIndex = some slot := by
    rw [hcross.2.2.2]
    exact (unambiguous_reachable ht hb).lookup hs'
  have hopen : openBytes P D s'.keys.recv (nonceFromCounter s.sendCounter) []
      (sealBytes P C s.keys.send (nonceFromCounter s.sendCounter) [] (a.stage payload)) =
      some (a.stage payload) := by
    rw [← hcross.1]
    exact openBytes_sealBytes P C D hC hD _ _ _ _
  have hroom : (a.stage payload).length ≤ out'.length := by
    rw [transportWire_length,hov,Nat.add_sub_cancel] at hout
    exact hout
  have hres := decapsulate_delivers D remote underLoad rng'
    (parse_transportWire (P := P) C s (a.stage payload) hle) hindex hs' hlt hage hfresh hopen hroom
  intro result
  have hresult : result = .ok (delivered (a.stage payload)) := hres
  rw [hresult]
  unfold delivered
  constructor
  · rw [← stage_eq_nil_iff a payload]
    split
    · rename_i hnil
      simp [hnil]
    · rename_i hnil
      simp [hnil]
  · intro hne
    rw [if_neg (fun h => hne ((stage_eq_nil_iff a payload).mp h))]
    exact ⟨_,_,rfl,rfl,stage_length a payload,fun hip => ipPacketLen_append hip _⟩

theorem transport?_encapsulated {r : Except Error Encapsulated} {w : List UInt8}
    (h : (Output.encapsulated r).transport? = some w) : r = .ok (.transport w) := by
  cases r with
  | error e => cases h
  | ok r =>
    cases r with
    | transport w' =>
      cases h
      rfl
    | handshakeInitiation w' => cases h

theorem specimenHandshake_slots :
    (specimenPeers.final specimenHandshake .a).current.isSome = true ∧
      (specimenPeers.final specimenHandshake .b).next.isSome = true := by
  decide +kernel

theorem specimenHandshake_crossed :
    let s := (specimenPeers.final specimenHandshake .a).current.get specimenHandshake_slots.1
    let s' := (specimenPeers.final specimenHandshake .b).next.get specimenHandshake_slots.2
    s.keys.Crossed s'.keys ∧ s'.replay.check s.sendCounter = true ∧
      s'.age Ticks.zero < rejectAfterTime := by
  unfold SessionKeys.Crossed
  decide +kernel

/-- The payload of the specimen over the two sessions that its handshake has left. -/
theorem transport_round_trip_specimen :
    let a := specimenPeers.final specimenHandshake .a
    let b := specimenPeers.final specimenHandshake .b
    let now : Now := ⟨Ticks.zero,0,0⟩
    let out : List UInt8 := List.replicate 148 0
    ∃ w d n, (a.encapsulate (scalar mixing) now specimenPayload out []).result =
        .ok (.transport w) ∧
      (b.decapsulate (scalar mixing) now [] false w out []).result = .ok (.data d) ∧
      d = specimenPayload.val++List.replicate n 0 := by
  intro a b now out
  obtain ⟨w,hw⟩ := Option.isSome_iff_exists.mp (show (Output.encapsulated (a.encapsulate
    (scalar mixing) now specimenPayload out []).result).transport?.isSome = true by decide +kernel)
  have hw := transport?_encapsulated hw
  obtain ⟨hcross,hfresh,hage⟩ := specimenHandshake_crossed
  have hlast : (b.observe now).lastNow = Ticks.zero := by decide +kernel
  have hout : w.length-32 ≤ out.length := by
    obtain ⟨s,_,_,rfl⟩ := encapsulate_sealed hw
    have hp := paddedLen_le specimenPayload.val.length a.mtu
    have hov : transportOverhead = 32 := rfl
    rw [transportWire_length,stage_length,hov,Nat.add_sub_cancel]
    exact hp.trans (by simp [specimenPayload,out])
  have hnext : b.slot .next = some (b.next.get specimenHandshake_slots.2) :=
    (Option.some_get specimenHandshake_slots.2).symm
  obtain ⟨d,n,hd,hz,_⟩ := (transport_round_trip (scalar_meets mixing) (scalar_meets mixing)
    (specimenPeers.built .b) ⟨_,(specimenPeers.side_run specimenHandshake .b).2⟩ hw
    (Option.some_get specimenHandshake_slots.1).symm hnext hcross (by rwa [hlast]) hfresh hout []
    false []).2 (by simp [specimenPayload])
  exact ⟨w,d,n,hw,hd,hz⟩

end WireGuard
