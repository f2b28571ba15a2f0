import Mathlib.Data.List.Pairwise
import WireGuard.Mirror
import WireGuard.Pair

/-!
# Where relayed handshake messages come from

A relaying network may delay, reorder, repeat and drop datagrams, also back to
their sender, but makes none of its own. Each initiation that an end answers is
then traced to the call that emitted it at the other end, and each initiation in
flight to the call that launched it.
-/

set_option autoImplicit false

namespace WireGuard
open ByteString Tunnel

variable {P : Primitives}

/-- Every datagram handed to an end was returned by a call of one of the ends
before. -/
def Relayed (h : List (Joint P)) : Prop :=
  Chronicle (fun before x => ∀ d ∈ x.input.2.datagram?,
    ∃ y ∈ before, y.output.wire? = some d) h

instance (h : List (Joint P)) : Decidable (Relayed h) :=
  inferInstanceAs (Decidable (Chronicle _ h))

/-- What is assumed of the cryptography: the exchange of secrets commutes, a
ciphertext only opens under the key, nonce and associated data it was sealed
with, and no two strings that the handshakes hash collide. -/
structure IdealCrypto (h : List (Joint P)) : Prop where
  commutes : Commutes P
  binding : ∀ x ∈ h, ∀ y ∈ h, ∀ c ∈ opensOf (Machine.own x), ∀ s ∈ sealsOf (Machine.own y),
    s.ciphertext = c.ciphertext → s = c
  digest : Set.InjOn P.digest {d | ∃ x ∈ h, d ∈ digestsOf (Machine.own x)}

theorem injOn_digests {h : List (Joint P)}
    (hd : (h.flatMap (fun x => digestsOf (Machine.own x))).Pairwise
      (fun a b => P.digest a = P.digest b → a = b)) :
    Set.InjOn P.digest {d | ∃ x ∈ h, d ∈ digestsOf (Machine.own x)} := by
  intro a ha b hb
  have : Std.Symm (fun a b => P.digest a = P.digest b → a = b) :=
    ⟨fun _ _ hab he => (hab he.symm).symm⟩
  exact hd.forall_of_forall (fun _ _ _ => rfl) (List.mem_flatMap.mpr ha)
    (List.mem_flatMap.mpr hb)

theorem wire?_cases {o : Output} {d : List UInt8} (h : o.wire? = some d) :
    o.transport? = some d ∨ o.initiation? = some d ∨ o = .decapsulated (.ok (.reply d)) := by
  cases o with
  | encapsulated r =>
    cases r with
    | error e => cases h
    | ok r =>
      cases r with
      | transport wire => exact Or.inl h
      | handshakeInitiation wire => exact Or.inr (Or.inl h)
  | decapsulated r =>
    cases r with
    | error e => cases h
    | ok r =>
      cases r with
      | reply wire =>
        rw [Option.some.inj h]
        exact Or.inr (Or.inr rfl)
      | _ => cases h
  | polled r =>
    cases r with
    | error e => cases h
    | ok r =>
      cases r with
      | send wire reason =>
        cases reason <;> first | exact Or.inl h | exact Or.inr (Or.inl h)
      | _ => cases h
  | initiated r =>
    cases r with
    | error e => cases h
    | ok wire => exact Or.inr (Or.inl h)
  | none => cases h

theorem step_reply (C : ChaChaImpl) (t : Tunnel P) (op : Op) (wire : List UInt8)
    (h : (step C t op).2 = .decapsulated (.ok (.reply wire))) :
    (∃ c, parse wire = .ok (.cookieReply c)) ∨ ∃ r, parse wire = .ok (.handshakeResponse r) := by
  cases op with
  | decapsulate now remote underLoad datagram out rng =>
    obtain ⟨o,hr,hs⟩ := step_receipt C t now remote datagram out underLoad rng
    have ho : o.result = .ok (.reply wire) := by
      rw [hs] at h
      exact Output.decapsulated.inj h
    cases hr with
    | cookieReply index mac1 reply r hr hk hout =>
      obtain rfl := Received.reply.inj (Except.ok.inj ho)
      exact Or.inl ⟨reply,parse_cookie_iff.mpr rfl⟩
    | answered m consumed index eph rest hm hmac hc hts hd =>
      obtain ⟨mac2,hp⟩ := parse_response_withMacs (t.observe now) (t.reading now).ticks
        (responderView P consumed (t.observe now).psk (clampScalar eph)) index consumed.peerIndex
      rw [← Received.reply.inj (Except.ok.inj ho)]
      exact Or.inr ⟨_,hp⟩
    | accepted m slot s plain hm hx hsl hcn hage hk hopen =>
      dsimp only [delivered] at ho
      split at ho <;> cases ho
    | _ => cases ho
  | _ => cases h

theorem step_wire (C : ChaChaImpl) (t : Tunnel P) (op : Op) (d : List UInt8)
    (h : (step C t op).2.wire? = some d) :
    (∀ m, parse d = .ok (.handshakeInitiation m) → (step C t op).2.initiation? = some d) ∧
    ∀ r, parse d = .ok (.handshakeResponse r) →
      (step C t op).2 = .decapsulated (.ok (.reply d)) := by
  rcases wire?_cases h with ht | hi | hr
  · obtain ⟨s,plain,hs,_⟩ := step_transport C t op d ht
    have hp := parse_transportWire (P := P) C s plain (sendCounter_le_max hs.counter)
    rw [← hs.wire] at hp
    constructor
    · intro m hm
      cases hp.symm.trans hm
    · intro r hr
      cases hp.symm.trans hr
  · obtain ⟨u,now,index,eph,jitter,hu⟩ := step_initiation C t op d hi
    obtain ⟨mac2,hp⟩ := parse_initiation_withMacs u u.lastNow (u.initiationView now eph) index
    rw [← hu.wire] at hp
    refine ⟨fun _ _ => hi,fun r hr => ?_⟩
    cases hp.symm.trans hr
  · refine ⟨fun m hm => ?_,fun _ _ => hr⟩
    rcases step_reply C t op d hr with ⟨c,hc⟩ | ⟨r,hr⟩
    · cases hc.symm.trans hm
    · cases hr.symm.trans hm

/-- The call at index `l` emitted `wire`, the initiation of the tunnel `u`. -/
structure Launched (h : List (Joint P)) (l : ℕ) (z : Joint P) (wire : List UInt8) (u : Tunnel P)
    (now : Now) (index : UInt32) (eph : Bytes 32) : Prop where
  entry : h[l]? = some z
  output : z.output.initiation? = some wire
  initiated : ∃ jitter, Initiated (Machine.own z) wire u now index eph jitter

structure Replied (h : List (Joint P)) (j : ℕ) (y : Joint P) (datagram wire : List UInt8)
    (u : Tunnel P) (m : HandshakeInitiation) (consumed : ConsumedInitiation) (index : UInt32)
    (eph : Bytes 32) : Prop where
  entry : h[j]? = some y
  output : y.output = .decapsulated (.ok (.reply wire))
  answered : ∃ now remote underLoad out rng,
    y.input.2 = .decapsulate now remote underLoad datagram out rng ∧
    Answered (Machine.own y) datagram wire rng u m consumed index eph

theorem path_identity {t t' : Tunnel P} {es : List Event} (h : Path t es t') :
    t'.toIdentity = t.toIdentity :=
  h.invariant (fun _ s => s.toIdentity = t.toIdentity)
    (fun _ s a hs _ => (apply_identity s a).trans hs) [] rfl

section Origins

variable {p : Peers P} {ops : List (Side × Op)}

theorem launched_of_initiation {l : ℕ} {z : Joint P} {wire : List UInt8}
    (hz : (p.run ops)[l]? = some z) (ho : z.output.initiation? = some wire) :
    ∃ u now index eph, Launched (p.run ops) l z wire u now index eph := by
  have ho' := ho
  rw [(p.step_at hz rfl).1] at ho'
  obtain ⟨u,now,index,eph,jitter,hi⟩ := step_initiation _ _ _ _ ho'
  change Initiated (Machine.advance (p.step _) _ _) _ _ _ _ _ _ at hi
  rw [← (p.at_index hz).2.2.2] at hi
  exact ⟨u,now,index,eph,hz,ho,jitter,hi⟩

theorem replied_of_response {j : ℕ} {y : Joint P} {wire : List UInt8} {r : HandshakeResponse}
    (hy : (p.run ops)[j]? = some y) (ho : y.output = .decapsulated (.ok (.reply wire)))
    (hw : parse wire = .ok (.handshakeResponse r)) :
    ∃ datagram u m consumed index eph,
      Replied (p.run ops) j y datagram wire u m consumed index eph := by
  have ho' := ho
  rw [(p.step_at hy rfl).1] at ho'
  obtain ⟨now,remote,underLoad,datagram,out,rng,u,m,consumed,index,eph,hop,ha⟩ :=
    step_answer _ _ _ _ r ho' hw
  change Answered (Machine.advance (p.step _) _ _) _ _ _ _ _ _ _ _ at ha
  rw [← (p.at_index hy).2.2.2] at ha
  exact ⟨datagram,u,m,consumed,index,eph,hy,ho,now,remote,underLoad,out,rng,hop,ha⟩

theorem relayed_at (hR : Relayed (p.run ops)) {i : ℕ} {x : Joint P} {d : List UInt8}
    (hx : (p.run ops)[i]? = some x) (hd : x.input.2.datagram? = some d) :
    ∃ j y, j < i ∧ (p.run ops)[j]? = some y ∧ y.output.wire? = some d := by
  obtain ⟨y,hy,hw⟩ := Chronicle.iff_getElem?.mp hR i x hx d hd
  obtain ⟨j,hj,hjy⟩ := mem_take_iff.mp hy
  exact ⟨j,y,hj,hjy,hw⟩

theorem crossed_peers {k k' : Side} {t r : Tunnel P} (hk : k = k'.other)
    (ht : t.toIdentity = (p.tunnel k).toIdentity) (hr : r.toIdentity = (p.tunnel k').toIdentity) :
    Crossed t r := by
  have h1 := p.peerPublic_eq k
  have h2 := p.peerPublic_eq k'
  rw [hk,Side.other_other] at h1
  constructor
  · rw [ht,hr,hk]
    exact h1
  · rw [ht,hr,hk]
    exact h2

namespace Launched

variable {l : ℕ} {z : Joint P} {wire : List UInt8} {u : Tunnel P} {now : Now} {index : UInt32}
  {eph : Bytes 32}

theorem identity (h : Launched (p.run ops) l z wire u now index eph) :
    u.toIdentity = (p.tunnel z.input.1).toIdentity := by
  obtain ⟨_,hi⟩ := h.initiated
  exact (path_identity hi.path).trans (p.before_identity h.entry _)

theorem inflight (h : Launched (p.run ops) l z wire u now index eph) :
    (z.after z.input.1).inflight = some (u.initiationState now index eph) := by
  obtain ⟨_,hi⟩ := h.initiated
  have ha : z.after z.input.1 = _ := hi.after
  rw [ha]
  rfl

theorem parsed (h : Launched (p.run ops) l z wire u now index eph) :
    ∃ mac1 mac2, parse wire =
      .ok (.handshakeInitiation ((u.initiationView now eph).message index mac1 mac2)) := by
  obtain ⟨_,hi⟩ := h.initiated
  obtain ⟨mac2,hp⟩ := parse_initiation_withMacs u u.lastNow (u.initiationView now eph) index
  rw [← hi.wire] at hp
  exact ⟨_,mac2,hp⟩

theorem sentViews (h : Launched (p.run ops) l z wire u now index eph) :
    sentViews (Machine.own z) = [u.initiationView now eph] := by
  obtain ⟨_,hi⟩ := h.initiated
  exact hi.sentViews h.output

theorem events (h : Launched (p.run ops) l z wire u now index eph) :
    eventsOf (Machine.own z) = [.initiated (u.nextTimestamp now)] := by
  obtain ⟨_,hi⟩ := h.initiated
  exact hi.events

theorem seal_mem (h : Launched (p.run ops) l z wire u now index eph) :
    (u.initiationView now eph).timestampCall P u.constants ∈ sealsOf (Machine.own z) := by
  simp only [sealsOf,h.sentViews,constants_unique (Machine.own z).after u,List.mem_append,
    List.flatMap_singleton]
  exact Or.inl (Or.inl (Or.inr (by simp [InitiationView.calls])))

theorem digest_mem (h : Launched (p.run ops) l z wire u now index eph) :
    ∀ d ∈ (u.initiationView now eph).digests P u.constants,
      ∃ x ∈ p.run ops, d ∈ digestsOf (Machine.own x) := by
  intro d hd
  refine ⟨z,List.mem_of_getElem? h.entry,?_⟩
  simp only [digestsOf,h.sentViews,constants_unique (Machine.own z).after u,List.mem_append,
    List.flatMap_singleton]
  exact Or.inl (Or.inl hd)

end Launched

namespace Replied

variable {j : ℕ} {y : Joint P} {datagram wire : List UInt8} {u : Tunnel P}
  {m : HandshakeInitiation} {consumed : ConsumedInitiation} {index : UInt32} {eph : Bytes 32}

theorem identity (h : Replied (p.run ops) j y datagram wire u m consumed index eph) :
    u.toIdentity = (p.tunnel y.input.1).toIdentity := by
  obtain ⟨_,_,_,_,_,_,ha⟩ := h.answered
  exact ha.identity.trans (p.before_identity h.entry _)

theorem views (h : Replied (p.run ops) j y datagram wire u m consumed index eph) :
    receivedViews (Machine.own y) =
        [receiverView P u.localStatic u.localPublic u.precomputedSs m] ∧
      answerViews (Machine.own y) = [responderView P consumed u.psk (clampScalar eph)] := by
  obtain ⟨_,_,_,_,_,hop,ha⟩ := h.answered
  exact ha.views hop h.output

theorem open_mem (h : Replied (p.run ops) j y datagram wire u m consumed index eph) :
    (receiverView P u.localStatic u.localPublic u.precomputedSs m).timestampCall P u.constants ∈
      opensOf (Machine.own y) := by
  simp only [opensOf,h.views.1,constants_unique (Machine.own y).before u,List.mem_append,
    List.flatMap_singleton]
  exact Or.inl (Or.inr (by simp [InitiationView.calls]))

theorem seal_mem (h : Replied (p.run ops) j y datagram wire u m consumed index eph) :
    (responderView P consumed u.psk (clampScalar eph)).call P ∈ sealsOf (Machine.own y) := by
  simp [sealsOf,h.views.2]

theorem digest_mem (h : Replied (p.run ops) j y datagram wire u m consumed index eph) :
    (∀ d ∈ (receiverView P u.localStatic u.localPublic u.precomputedSs m).digests P u.constants,
      ∃ x ∈ p.run ops, d ∈ digestsOf (Machine.own x)) ∧
    ∀ d ∈ (responderView P consumed u.psk (clampScalar eph)).digests P,
      ∃ x ∈ p.run ops, d ∈ digestsOf (Machine.own x) := by
  have hy := List.mem_of_getElem? h.entry
  simp only [digestsOf,List.mem_append,List.flatMap_append]
  constructor
  · intro d hd
    refine ⟨y,hy,Or.inl (Or.inr ?_)⟩
    rwa [h.views.1,constants_unique (Machine.own y).before u,List.flatMap_singleton]
  · intro d hd
    refine ⟨y,hy,Or.inr (Or.inl ?_)⟩
    rwa [h.views.2,List.flatMap_singleton]

/-- An answered initiation was emitted by the other end, and what was consumed is
what that end put into it. -/
theorem origin (hI : IdealCrypto (p.run ops)) (hR : Relayed (p.run ops))
    (h : Replied (p.run ops) j y datagram wire u m consumed index eph) :
    ∃ l z t now index' eph', l < j ∧ z.input.1 = y.input.1.other ∧
      Launched (p.run ops) l z datagram t now index' eph' ∧
      consumed = consumedOf t now eph' index' := by
  obtain ⟨_,_,_,_,_,hop,ha⟩ := h.answered
  obtain ⟨l,z,hl,hz,hw⟩ := relayed_at hR h.entry (by rw [hop]; rfl)
  have ho : z.output.initiation? = some datagram := by
    rw [(p.step_at hz rfl).1] at hw ⊢
    exact (step_wire _ _ _ _ hw).1 m ha.parsed
  obtain ⟨t,now,index',eph',hL⟩ := launched_of_initiation hz ho
  obtain ⟨mac1,mac2,hp⟩ := hL.parsed
  have hm := Packet.handshakeInitiation.inj (Except.ok.inj (ha.parsed.symm.trans hp))
  -- the timestamp opened under the associated data it was sealed with
  have hcall := hI.binding y (List.mem_of_getElem? h.entry) z (List.mem_of_getElem? hz) _
    h.open_mem _ hL.seal_mem (by rw [hm]; rfl)
  have hhash := toList_inj (AeadCall.mk.inj hcall).2.2.1
  rw [constants_unique u t] at hhash
  have hdig := h.digest_mem.1
  rw [constants_unique u t] at hdig
  obtain ⟨hresp,_⟩ := hashStatic_inj hI.digest hL.digest_mem hdig hhash
  have hside : z.input.1 = y.input.1.other := by
    rcases Side.eq_or_other y.input.1 z.input.1 with hk | hk
    · have hid : t.toIdentity = u.toIdentity := by rw [hL.identity,h.identity,hk]
      have : t.peerPublic = u.localPublic := hresp
      rw [← hid] at this
      exact absurd this.symm t.localPublic_ne
    · exact hk
  have hcross : Crossed t u := crossed_peers hside hL.identity h.identity
  refine ⟨l,z,t,now,index',eph',hl,hside,hL,?_⟩
  have hc := ha.enabled.2.1
  rw [hm] at hc
  have hz := ((consumeInitiation_ok P).mp hc).1
  rw [receiverView_message now eph' index' mac1 mac2 hI.commutes hcross] at hz
  rw [consumeInitiation_message now eph' index' mac1 mac2 hI.commutes hcross hz] at hc
  exact (Except.ok.inj hc).symm

end Replied

end Origins

end WireGuard
