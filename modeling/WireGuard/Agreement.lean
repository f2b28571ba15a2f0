import WireGuard.Relay

/-!
# Agreement on handshakes

An initiation in flight was launched by one call and has been in flight ever
since. A response that completes it was made by the other end for exactly this
initiation, and completing it takes it out of flight, so no two completions rest
on the same response.
-/

set_option autoImplicit false

namespace WireGuard
open ByteString Tunnel

variable {P : Primitives}

/-- The keys of the two ends of one session. -/
def SessionKeys.Crossed (a b : SessionKeys) : Prop :=
  a.send = b.recv ∧ a.recv = b.send ∧ a.localIndex = b.peerIndex ∧ a.peerIndex = b.localIndex

theorem apply_inflight {t : Tunnel P} {a : Act} {i : InFlightInitiation}
    (ha : ∀ now index eph jitter, a ≠ .initiate now index eph jitter)
    (h : (a.apply t).inflight = some i) : t.inflight = some i := by
  cases a with
  | initiate now index eph jitter => exact absurd rfl (ha now index eph jitter)
  | transmit payloadLen =>
    dsimp only [Act.apply] at h
    rwa [commitSeal_frame] at h
  | accept slot counter n =>
    dsimp only [Act.apply] at h
    split at h
    · unfold commitTransport noteReceived armRecvRekey promote at h
      cases slot <;> dsimp only [setSlot] at h <;> split_ifs at h <;>
        exact h
    · exact h
  | expireNext =>
    dsimp only [Act.apply] at h
    rwa [expireNext_frame] at h
  | complete m keys => cases h
  | discard => cases h
  | abandon => cases h
  | _ => exact h

theorem path_inflight {t t' : Tunnel P} {es : List Event} (h : Path t es t')
    (he : ∀ ts, .initiated ts ∉ es) {i : InFlightInitiation} (hi : t'.inflight = some i) :
    t.inflight = some i := by
  refine h.invariant (fun es s => (∀ ts, .initiated ts ∉ es) →
    s.inflight = some i → t.inflight = some i) ?_ [] (fun _ h => h) he hi
  intro es s a hs _ hn ha
  refine hs (fun ts hm => hn ts (List.mem_append_left _ hm)) (apply_inflight ?_ ha)
  rintro now index eph jitter rfl
  exact hn _ (List.mem_append_right _ (List.mem_singleton.mpr rfl))

theorem initiation?_of_event {x : Transition P} {ts : Tai64N} (h : .initiated ts ∈ eventsOf x) :
    ∃ wire, x.output.initiation? = some wire := by
  unfold eventsOf at h
  split at h
  · unfold sentEvents at h
    split at h <;> simp at h
  · rename_i wire _ hw
    exact ⟨wire,hw⟩
  · split at h
    · rename_i r _ _
      cases r <;> simp only [receivedEvents,acceptedEvents,answeredEvents] at h
      all_goals (repeat' split at h) <;> simp [createdEvents] at h
      all_goals (repeat' split at h) <;> simp at h
    · simp at h

theorem step_inflight (C : ChaChaImpl) (t : Tunnel P) (op : Op) (i : InFlightInitiation)
    (h : (step C t op).1.inflight = some i) :
    t.inflight = some i ∨ ∃ wire, (step C t op).2.initiation? = some wire := by
  by_cases he : ∃ ts, .initiated ts ∈ eventsOf (Machine.advance (step C) t op)
  · obtain ⟨ts,hts⟩ := he
    exact Or.inr (initiation?_of_event hts)
  · exact Or.inl (path_inflight (step_refines C t op) (not_exists.mp he) h)

/-- All that is assumed of the entropy, and only of an end whose timestamps are
exhausted: its initiations do not repeat an ephemeral key. -/
def FreshEphemerals (h : List (Joint P)) : Prop :=
  h.Pairwise (fun x y => x.input.1 = y.input.1 →
    (x.after x.input.1).lastSentTai64n = some Tai64N.allOnes →
    ∀ v ∈ sentViews (Machine.own x), ∀ w ∈ sentViews (Machine.own y),
      v.ephemeral ≠ w.ephemeral)

instance (h : List (Joint P)) : Decidable (FreshEphemerals h) :=
  inferInstanceAs (Decidable (h.Pairwise _))

section Launches

variable {p : Peers P} {ops : List (Side × Op)} {k : Side}

/-- What is in flight was launched by one call and has not left since. -/
theorem inflight_origin {i : ℕ} {x : Joint P} {inflight : InFlightInitiation}
    (hx : (p.run ops)[i]? = some x) (hi : (x.before k).inflight = some inflight) :
    ∃ l z wire u now index eph, l < i ∧ z.input.1 = k ∧
      Launched (p.run ops) l z wire u now index eph ∧
      inflight = u.initiationState now index eph ∧
      ∀ n y, l < n → n ≤ i → (p.run ops)[n]? = some y → (y.before k).inflight = some inflight := by
  have hlen : i ≤ ops.length := by
    have := (List.getElem?_eq_some_iff.mp hx).1
    rw [Peers.run,Machine.history_length] at this
    omega
  have hs : ∀ (s : Side → Tunnel P) op,
      ((Machine.product p.step s op).1 k).inflight = some inflight →
      (s k).inflight = some inflight ∨ op.1 = k ∧
        ∃ wire, (Machine.product p.step s op).2.initiation? = some wire ∧
          ((Machine.product p.step s op).1 k).inflight = some inflight := by
    intro s op hq
    by_cases hk : op.1 = k
    · subst hk
      have hs : (Machine.product p.step s op).1 op.1 = (p.step op.1 (s op.1) op.2).1 := by
        simp [Machine.product]
      rcases step_inflight (p.backend op.1) (s op.1) op.2 inflight (hs ▸ hq) with h | ⟨wire,h⟩
      · exact Or.inl h
      · exact Or.inr ⟨rfl,wire,h,hq⟩
    · rw [Machine.product_frame p.step s k op hk] at hq
      exact Or.inl hq
  rw [(p.at_index hx).1] at hi
  obtain ⟨l,z,hl,hz,⟨hk,wire,hw,ha⟩,hkeep⟩ := Machine.history_since
    (Machine.product p.step) p.tunnel ops (fun s => (s k).inflight = some inflight)
    (fun z => z.input.1 = k ∧ ∃ wire, z.output.initiation? = some wire ∧
      (z.after k).inflight = some inflight)
    (by rw [(withBackend_ok (p.built k)).1.inflight]; simp) hs i hlen hi
  obtain ⟨u,now,index,eph,hL⟩ := launched_of_initiation hz hw
  refine ⟨l,z,wire,u,now,index,eph,hl,hk,hL,?_,fun n y hn hni hy => ?_⟩
  · rw [← hk,hL.inflight] at ha
    exact (Option.some.inj ha).symm
  · rw [(p.at_index hy).1]
    exact hkeep n hn hni

theorem launched_not_lt (hF : FreshEphemerals (p.run ops)) {l l' : ℕ} {z z' : Joint P}
    {wire wire' : List UInt8} {u u' : Tunnel P} {now now' : Now} {index index' : UInt32}
    {eph eph' : Bytes 32} (h : Launched (p.run ops) l z wire u now index eph)
    (h' : Launched (p.run ops) l' z' wire' u' now' index' eph') (hk : z.input.1 = z'.input.1)
    (hv : u.initiationView now eph = u'.initiationView now' eph') : ¬l < l' := by
  intro hlt
  have hts : u.nextTimestamp now = u'.nextTimestamp now' := by
    have h1 := openTimestamp_eq (initiationView_sealed u now eph)
    have h2 := openTimestamp_eq (initiationView_sealed u' now' eph')
    rw [hv,constants_unique u u'] at h1
    exact Option.some.inj (h1.symm.trans h2)
  by_cases ho : u.nextTimestamp now = Tai64N.allOnes
  · have hp := List.pairwise_iff_getElem.mp hF l l'
      (List.getElem?_eq_some_iff.mp h.entry).1 (List.getElem?_eq_some_iff.mp h'.entry).1 hlt
    rw [(List.getElem?_eq_some_iff.mp h.entry).2,(List.getElem?_eq_some_iff.mp h'.entry).2] at hp
    obtain ⟨_,hi⟩ := h.initiated
    have hlast : (z.after z.input.1).lastSentTai64n = some Tai64N.allOnes := by
      have ha : z.after z.input.1 = _ := hi.after
      rw [ha,← ho]
      rfl
    exact hp hk hlast _ (by rw [h.sentViews]; exact List.mem_singleton.mpr rfl) _
      (by rw [h'.sentViews]; exact List.mem_singleton.mpr rfl) (by rw [hv])
  · have hd := p.judged_at (fun ops => (p.ratchets_final ops _).chronicle) h'.entry h'.events
    have hm : .initiated (u.nextTimestamp now) ∈
        sideEvents z'.input.1 ((p.run ops).take l') := by
      refine mem_sideEvents.mpr ⟨z,mem_take_iff.mpr ⟨l,hlt,h.entry⟩,hk,?_⟩
      rw [h.events]
      exact List.mem_singleton.mpr rfl
    have hlt := hd _ hm ho
    rw [hts,Tai64N.lt_iff] at hlt
    exact lt_irrefl _ hlt

/-- An initiation of one end is fixed by what it carries. -/
theorem launched_unique (hC : Commutes P) (hF : FreshEphemerals (p.run ops)) {l l' : ℕ}
    {z z' : Joint P} {wire wire' : List UInt8} {u u' : Tunnel P} {now now' : Now}
    {index index' : UInt32} {eph eph' : Bytes 32}
    (h : Launched (p.run ops) l z wire u now index eph)
    (h' : Launched (p.run ops) l' z' wire' u' now' index' eph') (hk : z.input.1 = z'.input.1)
    (he : (u.initiationView now eph).ephemeral = (u'.initiationView now' eph').ephemeral)
    (hs : (u.initiationView now eph).encryptedStatic =
      (u'.initiationView now' eph').encryptedStatic)
    (ht : (u.initiationView now eph).encryptedTimestamp =
      (u'.initiationView now' eph').encryptedTimestamp) : l = l' := by
  have hid : u'.toIdentity = (p.tunnel z.input.1).toIdentity := by rw [h'.identity,hk]
  have hc := crossed_peers (p := p) (Side.other_other z.input.1).symm h.identity rfl
  have hc' := crossed_peers (p := p) (Side.other_other z.input.1).symm hid rfl
  have hv : u.initiationView now eph = u'.initiationView now' eph' := by
    rw [← receiverView_message now eph index (zeros 16) (zeros 16) hC hc,
      ← receiverView_message now' eph' index' (zeros 16) (zeros 16) hC hc']
    simp only [receiverView,InitiationView.message,he,hs,ht]
  have h1 := launched_not_lt hF h h' hk hv
  have h2 := launched_not_lt hF h' h hk.symm hv.symm
  omega

theorem completion_view (hI : IdealCrypto (p.run ops)) {i j : ℕ} {x y : Joint P}
    {datagram datagram' remote out : List UInt8} {now : Now} {underLoad : Bool} {rng : Entropy}
    {u u' : Tunnel P} {m : HandshakeResponse} {m' : HandshakeInitiation}
    {inflight : InFlightInitiation} {keys : SessionKeys} {consumed : ConsumedInitiation}
    {index : UInt32} {eph : Bytes 32} (hx : (p.run ops)[i]? = some x)
    (hop : x.input.2 = .decapsulate now remote underLoad datagram out rng)
    (ho : x.output = .decapsulated (.ok .handshakeComplete))
    (hc : Completed (Machine.own x) datagram u m inflight keys)
    (hrep : Replied (p.run ops) j y datagram' datagram u' m' consumed index eph) :
    m.senderIndex = index ∧ m.receiverIndex = consumed.peerIndex ∧
      completionView P inflight (x.before x.input.1).localStatic (x.before x.input.1).psk m =
        responderView P consumed u'.psk (clampScalar eph) := by
  obtain ⟨_,_,_,_,_,_,ha⟩ := hrep.answered
  obtain ⟨mac2,hp⟩ := parse_response_withMacs u' u'.lastNow
    (responderView P consumed u'.psk (clampScalar eph)) index consumed.peerIndex
  have hw : datagram = u'.withMacs u'.lastNow
    ((responderView P consumed u'.psk (clampScalar eph)).alpha index consumed.peerIndex) := ha.wire
  rw [← hw] at hp
  have hviews : completionViews (Machine.own x) =
      [completionView P inflight (x.before x.input.1).localStatic (x.before x.input.1).psk m] :=
    hc.views hop ho
  have hmem := List.mem_of_getElem? hx
  have hm := Packet.handshakeResponse.inj (Except.ok.inj (hc.parsed.symm.trans hp))
  have hcall := hI.binding x hmem y (List.mem_of_getElem? hrep.entry)
    ((completionView P inflight (x.before x.input.1).localStatic (x.before x.input.1).psk m).call P)
    (by simp [opensOf,hviews]) _ hrep.seal_mem (by rw [hm]; rfl)
  have hdig : ∀ d ∈ (completionView P inflight (x.before x.input.1).localStatic
      (x.before x.input.1).psk m).digests P, ∃ x ∈ p.run ops, d ∈ digestsOf (Machine.own x) := by
    intro d hd
    refine ⟨x,hmem,?_⟩
    simp only [digestsOf,List.mem_append,List.flatMap_append]
    refine Or.inr (Or.inr ?_)
    rwa [hviews,List.flatMap_singleton]
  refine ⟨by rw [hm]; rfl,by rw [hm]; rfl,?_⟩
  exact (ResponseView.call_inj hI.digest hrep.digest_mem.2 hdig hcall).symm

theorem completion_launch (hI : IdealCrypto (p.run ops)) (hR : Relayed (p.run ops))
    (hF : FreshEphemerals (p.run ops)) {i j : ℕ} {x y : Joint P} {datagram datagram' : List UInt8}
    {u' : Tunnel P} {m' : HandshakeInitiation} {inflight : InFlightInitiation}
    {consumed : ConsumedInitiation} {index : UInt32} {eph : Bytes 32}
    (hx : (p.run ops)[i]? = some x) (hin : (x.before k).inflight = some inflight)
    (hrep : Replied (p.run ops) j y datagram' datagram u' m' consumed index eph)
    (hh : inflight.hash = consumed.hash) :
    y.input.1 = k.other ∧ ∃ l z, l < j ∧ z.input.1 = k ∧ (p.run ops)[l]? = some z ∧
      z.output.initiation? = some datagram' ∧ (z.after k).inflight = some inflight ∧
      ∀ n w, l < n → n ≤ i → (p.run ops)[n]? = some w →
        (w.before k).inflight = some inflight := by
  obtain ⟨l,z,wire,t,now,index1,eph1,_,hk,hL,hstate,hkeep⟩ := inflight_origin hx hin
  obtain ⟨l',z',t',now',index2,eph2,hl',hside,hL',hcons⟩ := hrep.origin hI hR
  have hdig := hL'.digest_mem
  rw [constants_unique t' t] at hdig
  have hhash : (t.initiationView now eph1).hash P t.constants =
      (t'.initiationView now' eph2).hash P t.constants := by
    rw [hstate,hcons,consumedOf,constants_unique t' t] at hh
    exact hh
  obtain ⟨hresp,he,hs,ht⟩ := initiationHash_inj hI.digest hL.digest_mem hdig hhash
  -- the responder named in the transcript is the peer of one and the other of the other
  have hother : y.input.1 = k.other := by
    rcases Side.eq_or_other k y.input.1 with hy | hy
    · have h1 : t.peerPublic = t'.peerPublic := hresp
      have h2 := p.peerPublic_eq y.input.1.other
      rw [hL.identity,hL'.identity,hk,hside,h2,Side.other_other,hy] at h1
      exact absurd h1.symm (p.tunnel k).localPublic_ne
    · exact hy
  have hk' : z.input.1 = z'.input.1 := by rw [hk,hside,hother,Side.other_other]
  obtain rfl := launched_unique hI.commutes hF hL hL' hk' he hs ht
  obtain rfl := Option.some.inj (hL.entry.symm.trans hL'.entry)
  refine ⟨hother,l,z,hl',hk,hL.entry,hL'.output,?_,hkeep⟩
  rw [← hk,hL.inflight,hstate]

/-- The response that completed a handshake came from the other end, which made
it for the initiation in flight. -/
structure Agreed (p : Peers P) (ops : List (Side × Op)) (k : Side) (i j l : ℕ) (x y z : Joint P)
    (wire : List UInt8) : Prop where
  launch : l < j ∧ (p.run ops)[l]? = some z ∧ z.input.1 = k ∧ z.output.initiation? = some wire
  answer : j < i ∧ (p.run ops)[j]? = some y ∧ y.input.1 = k.other ∧
    y.input.2.datagram? = some wire
  flight : (x.before k).inflight.isSome = true ∧ (z.after k).inflight = (x.before k).inflight ∧
    ∀ n w, l < n → n ≤ i → (p.run ops)[n]? = some w →
      (w.before k).inflight = (x.before k).inflight
  sessions : ∃ s r, (x.after k).current = some s ∧ (y.after k.other).next = some r ∧
    r = Session.new r.keys (y.after k.other).lastNow (y.before k.other).sessionsCreated ∧
    s.keys.isInitiator = true ∧ r.keys.isInitiator = false ∧ s.keys.Crossed r.keys
  psk : (y.before k.other).psk = (x.before k).psk
  landed : (x.after k).inflight = none

theorem agreed_of_completion (hI : IdealCrypto (p.run ops)) (hR : Relayed (p.run ops))
    (hF : FreshEphemerals (p.run ops)) {i : ℕ} {x : Joint P} (hx : (p.run ops)[i]? = some x)
    (hk : x.input.1 = k) (ho : x.output = .decapsulated (.ok .handshakeComplete)) :
    ∃ j l y z wire, Agreed p ops k i j l x y z wire := by
  subst hk
  have ho' := ho
  rw [(p.step_at hx rfl).1] at ho'
  obtain ⟨now,remote,underLoad,datagram,out,rng,u,m,inflight,keys,hop,hc⟩ :=
    step_complete _ _ _ ho'
  change Completed (Machine.advance (p.step _) _ _) _ _ _ _ _ at hc
  rw [← (p.at_index hx).2.2.2] at hc
  obtain ⟨j,y,hj,hy,hw⟩ := relayed_at hR hx (by rw [hop]; rfl)
  have hoy : y.output = .decapsulated (.ok (.reply datagram)) := by
    rw [(p.step_at hy rfl).1] at hw ⊢
    exact (step_wire _ _ _ _ hw).2 m hc.parsed
  obtain ⟨datagram',u',m',consumed,index,eph,hrep⟩ := replied_of_response hy hoy hc.parsed
  obtain ⟨hsender,hreceiver,hview⟩ := completion_view hI hx hop ho hc hrep
  have hin : (x.before x.input.1).inflight = some inflight := hc.inflight
  obtain ⟨hside,l,z,hl,hk,hz,hzo,hza,hkeep⟩ := completion_launch hI hR hF hx hin hrep
    (congrArg ResponseView.hash hview)
  obtain ⟨_,_,_,_,_,hopy,ha⟩ := hrep.answered
  obtain ⟨now',hu⟩ := hc.before
  obtain ⟨_,_,_,hkeys⟩ := (consumeResponse_ok P).mp hc.consumed
  have hu' : u.localStatic = (x.before x.input.1).localStatic ∧
      u.psk = (x.before x.input.1).psk := by
    rw [hu]
    exact ⟨rfl,rfl⟩
  rw [hu'.1,hu'.2,hview] at hkeys
  have hax : x.after x.input.1 = _ := hc.after
  have hay : y.after x.input.1.other = (Act.respond m' consumed index eph).apply u' := by
    rw [← hside]
    exact ha.after
  have hbefore : (y.before x.input.1.other).psk = u'.psk ∧
      (y.before x.input.1.other).sessionsCreated = u'.sessionsCreated := by
    obtain ⟨_,hb⟩ := ha.before
    rw [hb,← hside]
    exact ⟨rfl,rfl⟩
  refine ⟨j,l,y,z,datagram',⟨hl,hz,hk,hzo⟩,⟨hj,hy,hside,by rw [hopy]; rfl⟩,?_,?_,?_,?_⟩
  · rw [hin]
    exact ⟨rfl,hza,hkeep⟩
  · refine ⟨Session.new keys u.lastNow u.sessionsCreated,Session.new
      (u'.answerKeys consumed index eph) u'.lastNow u'.sessionsCreated,by rw [hax]; rfl,
      by rw [hay]; rfl,?_,by rw [hkeys]; rfl,rfl,?_⟩
    · rw [hay,hbefore.2]
      rfl
    · have hidx := hc.index
      rw [hreceiver] at hidx
      rw [hkeys,hsender]
      exact ⟨rfl,rfl,hidx,rfl⟩
  · rw [hbefore.1]
    exact (congrArg ResponseView.psk hview).symm
  · rw [hax]
    rfl

theorem launch_of_wire_unique (hC : Commutes P) (hF : FreshEphemerals (p.run ops)) {l l' : ℕ}
    {z z' : Joint P} {wire : List UInt8} (hz : (p.run ops)[l]? = some z)
    (hz' : (p.run ops)[l']? = some z') (ho : z.output.initiation? = some wire)
    (ho' : z'.output.initiation? = some wire) (hk : z.input.1 = z'.input.1) : l = l' := by
  obtain ⟨u,now,index,eph,hL⟩ := launched_of_initiation hz ho
  obtain ⟨u',now',index',eph',hL'⟩ := launched_of_initiation hz' ho'
  obtain ⟨_,_,hp⟩ := hL.parsed
  obtain ⟨_,_,hp'⟩ := hL'.parsed
  have hm := Packet.handshakeInitiation.inj (Except.ok.inj (hp.symm.trans hp'))
  obtain ⟨_,he,hs,ht,_⟩ := HandshakeInitiation.mk.inj hm
  exact launched_unique hC hF hL hL' hk he hs ht

theorem agreed_once (hC : Commutes P) (hF : FreshEphemerals (p.run ops)) {i i' j l l' : ℕ}
    {x x' y y' z z' : Joint P} {wire wire' : List UInt8} (hii : i < i')
    (hx : (p.run ops)[i]? = some x) (hx' : (p.run ops)[i']? = some x')
    (h : Agreed p ops k i j l x y z wire) (h' : Agreed p ops k i' j l' x' y' z' wire') : False := by
  obtain ⟨hl,hz,hzk,hzo⟩ := h.launch
  obtain ⟨_,hz',hzk',hzo'⟩ := h'.launch
  obtain ⟨hj,hy,_,hd⟩ := h.answer
  obtain ⟨_,hy',_,hd'⟩ := h'.answer
  obtain rfl := Option.some.inj (hy.symm.trans hy')
  obtain rfl := Option.some.inj (hd.symm.trans hd')
  obtain rfl := launch_of_wire_unique hC hF hz hz' hzo hzo' (hzk.trans hzk'.symm)
  -- right after the first completion nothing is in flight
  have hlen := (List.getElem?_eq_some_iff.mp hx').1
  obtain ⟨w,hw⟩ : ∃ w, (p.run ops)[i+1]? = some w := ⟨_,List.getElem?_eq_getElem (by omega)⟩
  have hnext : w.before k = x.after k := by
    rw [(p.at_index hw).1,(p.at_index hx).2.1]
  obtain ⟨hsome,_,hkeep⟩ := h'.flight
  rw [← hkeep (i+1) w (by omega) (by omega) hw,hnext,h.landed] at hsome
  cases hsome

end Launches

def completions (h : List (Joint P)) (k : Side) : Set ℕ :=
  {i | ∃ x, h[i]? = some x ∧ x.input.1 = k ∧ x.output = .decapsulated (.ok .handshakeComplete)}

/-- For any interleaving of the two ends' calls and any order in which their
datagrams are relayed, each completed handshake was answered before by the other
end, with a session that mirrors the completed one, in answer to the initiation
in flight and under the same pre-shared key. Different completions rest on
different sessions of the other end. -/
theorem handshake_agreement (p : Peers P) (ops : List (Side × Op))
    (hI : IdealCrypto (p.run ops)) (hR : Relayed (p.run ops)) (hF : FreshEphemerals (p.run ops))
    (k : Side) :
    ∃ f : ℕ → ℕ, Set.InjOn f (completions (p.run ops) k) ∧
      ∀ i x, (p.run ops)[i]? = some x → x.input.1 = k →
        x.output = .decapsulated (.ok .handshakeComplete) →
        ∃ l y z wire, Agreed p ops k i (f i) l x y z wire := by
  let R : ℕ → ℕ → Prop := fun i j =>
    ∃ l x y z wire, (p.run ops)[i]? = some x ∧ Agreed p ops k i j l x y z wire
  have hex : ∀ i ∈ completions (p.run ops) k, ∃ j, R i j := by
    rintro i ⟨x,hx,hk,ho⟩
    obtain ⟨j,l,y,z,wire,h⟩ := agreed_of_completion hI hR hF hx hk ho
    exact ⟨j,l,x,y,z,wire,hx,h⟩
  have honce : ∀ i i' j, i < i' → R i j → R i' j → False := by
    rintro i i' j hlt ⟨l,x,y,z,wire,hx,h⟩ ⟨l',x',y',z',wire',hx',h'⟩
    exact agreed_once hI.commutes hF hlt hx hx' h h'
  obtain ⟨f,hf,hall⟩ := exists_injOn hex honce
  refine ⟨f,hf,fun i x hx hk ho => ?_⟩
  obtain ⟨l,x',y,z,wire,hx',h⟩ := hall i ⟨x,hx,hk,ho⟩
  obtain rfl := Option.some.inj (hx.symm.trans hx')
  exact ⟨l,y,z,wire,h⟩

theorem specimenHandshake_ideal : IdealCrypto (specimenPeers.run specimenHandshake) :=
  ⟨commutes_mixing,by decide +kernel,injOn_digests (by decide +kernel)⟩

theorem specimenHandshake_relayed : Relayed (specimenPeers.run specimenHandshake) := by
  decide +kernel

theorem handshake_agreement_specimen :
    (specimenPeers.run specimenHandshake)[2]?.map (fun x => (x.input.1,x.output)) =
      some (.a,.decapsulated (.ok .handshakeComplete)) ∧
    ∃ f : ℕ → ℕ, Set.InjOn f (completions (specimenPeers.run specimenHandshake) .a) ∧
      f 2 < 2 := by
  have hd : (specimenPeers.run specimenHandshake)[2]?.map (fun x => (x.input.1,x.output)) =
      some (.a,.decapsulated (.ok .handshakeComplete)) := by decide +kernel
  obtain ⟨f,hf,hall⟩ := handshake_agreement specimenPeers specimenHandshake
    specimenHandshake_ideal specimenHandshake_relayed (by decide +kernel) .a
  obtain ⟨x,hx,he⟩ := Option.map_eq_some_iff.mp hd
  obtain ⟨_,_,_,_,h⟩ := hall 2 x hx (congrArg Prod.fst he) (congrArg Prod.snd he)
  exact ⟨hd,f,hf,h.answer.1⟩

end WireGuard
