import Mathlib.Data.Vector.Mem
import WireGuard.Acceptance
import WireGuard.Agreement

/-!
# No reachable state wedges the tunnel

The timestamps an end has answered are timestamps its peer has sent. So a new
initiation with a timestamp above everything sent is above everything answered,
whatever else the two ends hold, and the handshake it starts goes through.
-/

set_option autoImplicit false

namespace WireGuard
open ByteString Tunnel

variable {P : Primitives}

theorem reply_of_event {x : Transition P} {ts : Tai64N} (h : .answered ts ∈ eventsOf x) :
    ∃ wire r, x.output = .decapsulated (.ok (.reply wire)) ∧
      parse wire = .ok (.handshakeResponse r) := by
  unfold eventsOf at h
  split at h
  · unfold sentEvents at h
    split at h <;> simp at h
  · unfold initiatedEvents at h
    split at h
    · split at h <;> simp at h
    · simp at h
  · split at h
    · rename_i r _ ho
      cases r with
      | reply wire =>
        simp only [receivedEvents,answeredEvents] at h
        split at h
        · rename_i r _ hw _
          exact ⟨wire,r,ho,hw⟩
        · simp at h
      | handshakeComplete =>
        simp only [receivedEvents,createdEvents] at h
        split at h <;> simp at h
      | cookieStored => simp [receivedEvents] at h
      | _ =>
        simp only [receivedEvents,acceptedEvents] at h
        (repeat' split at h) <;> simp at h
    · simp at h

theorem greatest_le_lastSent {p : Peers P} {ops : List (Side × Op)}
    (hI : IdealCrypto (p.run ops)) (hR : Relayed (p.run ops)) (k : Side) {g : Tai64N}
    (hg : (p.final ops k.other).greatestTimestamp = some g) :
    ∃ last, (p.final ops k).lastSentTai64n = some last ∧ g ≤ last := by
  have hm := (p.ratchets_final ops k.other).greatest g hg
  obtain ⟨y,hy,hk,he⟩ := mem_sideEvents.mp hm
  obtain ⟨j,hj⟩ := List.mem_iff_getElem?.mp hy
  obtain ⟨wire,r,ho,hw⟩ := reply_of_event he
  obtain ⟨datagram,u,m,consumed,index,eph,hrep⟩ := replied_of_response hj ho hw
  obtain ⟨l,z,t,now,index',eph',_,hside,hL,hcons⟩ := hrep.origin hI hR
  obtain ⟨_,_,_,_,_,_,ha⟩ := hrep.answered
  rw [ha.events] at he
  have hgt : g = t.nextTimestamp now := by
    simp only [Act.events,List.mem_cons,List.not_mem_nil,or_false,Event.answered.injEq,
      reduceCtorEq] at he
    rw [he,hcons]
    rfl
  refine (p.ratchets_final ops k).initiated g (mem_sideEvents.mpr
    ⟨z,List.mem_of_getElem? hL.entry,?_,?_⟩)
  · rw [hside,hk,Side.other_other]
  · rw [hL.events,hgt]
    exact List.mem_singleton.mpr rfl

/-- The exchange of secrets between honest keys never gives zero. -/
def NeverZero (P : Primitives) : Prop :=
  ∀ a b, ctIsZero (P.x25519 a (x25519Base P b)).toList = false

theorem NeverZero.local (hZ : NeverZero P) (secret : Bytes 32) (t : Tunnel P) :
    ctIsZero (P.x25519 secret t.localPublic).toList = false := by
  rw [t.localPublic_eq]
  exact hZ _ _

theorem NeverZero.peer (hZ : NeverZero P) (secret : Bytes 32) {t r : Tunnel P}
    (h : Crossed t r) : ctIsZero (P.x25519 secret t.peerPublic).toList = false := by
  rw [h.peer]
  exact hZ.local secret r

section Legs

variable {t r : Tunnel P} (now0 : Now) (index : UInt32) (eph : Bytes 32)

def completedKeys (t r : Tunnel P) (now0 : Now) (index index' : UInt32) (eph eph' : Bytes 32) :
    SessionKeys :=
  let v := responderView P (consumedOf t now0 eph index) r.psk (clampScalar eph')
  ⟨v.initiatorKey P,v.responderKey P,index,index',true⟩

theorem peer_answers (C : ChaChaImpl) (hC : Commutes P) (hZ : NeverZero P) (h : Crossed t r)
    {now : Now} {out : List UInt8} (remote : List UInt8) {rng : Entropy} {index' : UInt32}
    {eph' : Bytes 32} (hclock : now.ticks ≤ r.lastNow)
    (hts : r.timestampSeen (t.nextTimestamp now0) = false)
    (hd : (r.drawHandshake rng).1 = .ok (index',eph'))
    (hout : handshakeResponseLen ≤ out.length) :
    ∃ m, step C r (.decapsulate now remote false
        (t.withMacs t.lastNow ((t.initiationView now0 eph).alpha index)) out rng) =
      ((Act.respond m (consumedOf t now0 eph index) index' eph').apply r,
        .decapsulated (.ok (.reply (r.withMacs r.lastNow
          (r.answerAlpha (consumedOf t now0 eph index) index' eph'))))) := by
  obtain ⟨mac2,hp⟩ := parse_initiation_withMacs t t.lastNow (t.initiationView now0 eph) index
  exact ⟨_,step_answers C remote hclock hp (h.mac1 _)
    (consumeInitiation_message now0 eph index _ mac2 hC h (hZ.peer _ h)) hts (Prod.ext hd rfl) hout
    (hZ _ _) (hZ.local _ t)⟩

theorem initiator_completes (C : ChaChaImpl) (hC : Commutes P) (hZ : NeverZero P)
    (h : Crossed t r) {a : Tunnel P} (ha : a.toIdentity = t.toIdentity)
    (hi : a.inflight = some (t.initiationState now0 index eph)) (hpsk : t.psk = r.psk)
    {now : Now} (remote out : List UInt8) (rng : Entropy) (index' : UInt32) (eph' : Bytes 32)
    (hclock : now.ticks ≤ a.lastNow) :
    ∃ m, step C a (.decapsulate now remote false (r.withMacs r.lastNow
        (r.answerAlpha (consumedOf t now0 eph index) index' eph')) out rng) =
      ((Act.complete m (completedKeys t r now0 index index' eph eph')).apply a,
        .decapsulated (.ok .handshakeComplete)) := by
  obtain ⟨mac2,hp⟩ := parse_response_withMacs r r.lastNow
    (responderView P (consumedOf t now0 eph index) r.psk (clampScalar eph')) index' index
  have hback : Crossed r a := h.symm.of_identity rfl ha
  refine ⟨_,step_completes C remote out rng hclock hp (hback.mac1 _) hi rfl ?_⟩
  rw [consumeResponse_ok]
  have hv := completionView_message (t := t) now0 eph index
    (mac P r.macKeys.mac1Send.toList [(responderView P (consumedOf t now0 eph index) r.psk
      (clampScalar eph')).alpha index' index]) mac2 hC r.psk eph' index' index
  have hstatic : a.localStatic = t.localStatic := by rw [ha]
  have hsecret : a.psk = r.psk := by rw [ha,hpsk]
  rw [hstatic,hsecret]
  dsimp only
  rw [hv]
  exact ⟨hZ _ _,hZ.local _ t,ResponseView.opens_of_sealed (responderView_sealed P _ _ _),rfl⟩

theorem accept_promotes {s : Session} (hs : t.next = some s) (hc : s.confirmed = false)
    (counter n : ℕ) :
    ((Act.accept .next counter n).apply t).current =
      some {s with replay := (s.replay.accept counter).1, confirmed := true} := by
  simp only [Act.apply,slot,hs]
  refine Eq.trans (slot_armRecvRekey _ t.lastNow .current) ?_
  simp [hc,setSlot,promote,slot]

theorem Session.new_age (keys : SessionKeys) (now : Ticks) (tag : ℕ) :
    (Session.new keys now tag).age now < rejectAfterTime := by
  simp only [Session.age,Session.new,Ticks.since,Nat.sub_self]
  decide

theorem new_check_zero : ReplayWindow.new.check 0 = true := by
  rw [ReplayWindow.check_iff ReplayWindow.tracks_new]
  refine ⟨by decide,by simp,by simp⟩

/-- A payload goes through on the two sessions that a handshake has left. -/
theorem payload_goes_through {C D : ChaChaImpl} (hC : C.Meets P) (hD : D.Meets P)
    {a b : Tunnel P} {keys keys' : SessionKeys} {tag tag' : ℕ} (payload : Payload)
    (hp : payload.val ≠ []) (ha : a.current = some (Session.new keys a.lastNow tag))
    (hb : b.next = some (Session.new keys' b.lastNow tag')) (hcross : keys.Crossed keys')
    (hi : keys.isInitiator = true) (hi' : keys'.isInitiator = false) {now now' : Now}
    {out out' : List UInt8} (remote : List UInt8) (rng rng' : Entropy)
    (hnow : now.ticks ≤ a.lastNow) (hnow' : now'.ticks ≤ b.lastNow)
    (hout : payload.val.length+47 ≤ out.length) (hout' : payload.val.length+15 ≤ out'.length) :
    ∃ data a' b' s s', step C a (.encapsulate now payload out rng) =
        (a',.encapsulated (.ok (.transport data))) ∧
      step D b (.decapsulate now' remote false data out' rng') =
        (b',.decapsulated (.ok (.data (a.stage payload)))) ∧
      a'.current = some s ∧ b'.current = some s' ∧ s.keys = keys ∧ s'.keys = keys' := by
  have hzero : 0 < rejectAfterMessages := by decide
  have hu : (Session.new keys a.lastNow tag).usableForSend a.lastNow = true := by
    rw [Session.usableForSend_iff]
    exact ⟨hi,hzero,Session.new_age ..⟩
  have hparse := parse_transportWire (P := P) C (Session.new keys a.lastNow tag)
    (a.stage payload) (Nat.zero_le _)
  have hindex : b.sessionWithIndex keys.peerIndex = some .next := by
    simp [sessionWithIndex,holds,hb,Session.new,hcross.2.2.2]
  have hopen : openBytes P D keys'.recv (nonceFromCounter 0) []
      (sealBytes P C keys.send (nonceFromCounter 0) [] (a.stage payload)) =
      some (a.stage payload) := by
    rw [← hcross.1]
    exact openBytes_sealBytes P C D hC hD _ _ _ _
  have hne : a.stage payload ≠ [] := by simp [stage,hp]
  have hlen : (a.stage payload).length ≤ out'.length := by
    have := paddedLen_le payload.val.length a.mtu
    rw [stage_length]
    omega
  have hcurrent : ((Act.transmit (some payload.val.length)).apply a).current =
      some {Session.new keys a.lastNow tag with sendCounter := 1} :=
    (slot_commitSeal _ _ _ .current).trans (by simp [takeCounter,slot,ha,Session.new])
  exact ⟨_,_,_,_,_,step_sends C payload rng hnow ha hu hout,
    step_delivers D remote rng' hnow' hparse hindex hb hzero (Session.new_age ..) new_check_zero
      hopen hlen hne,hcurrent,accept_promotes hb hi' _ _,rfl,rfl⟩

end Legs

/-- What a caller supplies to one call. -/
structure Turn where
  now : Now
  remote : List UInt8
  out : List UInt8
  rng : Entropy

/-- From every joint state that relayed datagrams can lead to, an initiation with
a timestamp above the last one sent goes through: the peer answers, the handshake
completes, a payload is delivered, and the two ends hold mirrored sessions. Each
end first reads any clock, which then stands still. -/
theorem handshake_recovers (p : Peers P) (ops : List (Side × Op)) (hI : IdealCrypto (p.run ops))
    (hR : Relayed (p.run ops)) (hZ : NeverZero P) (k : Side)
    (hpsk : (p.config k).psk = (p.config k.other).psk) (payload : Payload)
    (hp : payload.val ≠ []) (c1 c2 c3 c4 c5 : Turn) {a1 : Tunnel P} {wire : List UInt8}
    (hsent : step (p.backend k) (p.final ops k) (.initiateHandshake c1.now c1.out c1.rng) =
      (a1,.initiated (.ok wire)))
    (hnew : ∀ last ts, (p.final ops k).lastSentTai64n = some last →
      a1.lastSentTai64n = some ts → last < ts)
    (hclock : c3.now.ticks ≤ a1.lastNow ∧ c4.now.ticks ≤ a1.lastNow)
    (hclock' : c5.now.ticks ≤ max (p.final ops k.other).lastNow c2.now.ticks)
    (hrng : ∃ draw, ((p.final ops k.other).drawHandshake c2.rng).1 = .ok draw)
    (hbuf : handshakeResponseLen ≤ c2.out.length ∧ payload.val.length+47 ≤ c4.out.length ∧
      payload.val.length+15 ≤ c5.out.length) :
    ∃ b1 reply a2 a3 data b2 a b,
      step (p.backend k.other) (p.final ops k.other)
          (.decapsulate c2.now c2.remote false wire c2.out c2.rng) =
        (b1,.decapsulated (.ok (.reply reply))) ∧
      step (p.backend k) a1 (.decapsulate c3.now c3.remote false reply c3.out c3.rng) =
        (a2,.decapsulated (.ok .handshakeComplete)) ∧
      step (p.backend k) a2 (.encapsulate c4.now payload c4.out c4.rng) =
        (a3,.encapsulated (.ok (.transport data))) ∧
      step (p.backend k.other) b1 (.decapsulate c5.now c5.remote false data c5.out c5.rng) =
        (b2,.decapsulated (.ok (.data (a2.stage payload)))) ∧
      a3.current = some a ∧ b2.current = some b ∧ a.keys.Crossed b.keys := by
  obtain ⟨t,now,index,eph,jitter,hinit⟩ := step_initiation (p.backend k) (p.final ops k)
    (.initiateHandshake c1.now c1.out c1.rng) wire (by rw [hsent]; rfl)
  have hidt : t.toIdentity = (p.tunnel k).toIdentity :=
    (path_identity hinit.path).trans (p.final_identity ops k)
  let r := (p.final ops k.other).observe c2.now
  have hidr : r.toIdentity = (p.tunnel k.other).toIdentity := p.final_identity ops k.other
  have hcross : Crossed t r := crossed_peers (Side.other_other k).symm hidt hidr
  have ha1 : a1 = (Act.initiate now index eph jitter).apply t := by
    have ha : (step (p.backend k) (p.final ops k)
      (.initiateHandshake c1.now c1.out c1.rng)).1 = _ := hinit.after
    rwa [hsent] at ha
  -- the ratchets: everything answered is below the new timestamp
  have hseen : r.timestampSeen (t.nextTimestamp now) = false := by
    unfold timestampSeen
    split
    · rfl
    · rename_i g hg
      obtain ⟨last,hlast,hle⟩ := greatest_le_lastSent hI hR k hg
      have hlt := hnew last (t.nextTimestamp now) hlast (by rw [ha1]; rfl)
      rw [Tai64N.le_iff] at hle
      rw [Tai64N.lt_iff] at hlt
      rw [decide_eq_false_iff_not,Tai64N.le_iff]
      omega
  have hsecret : t.psk = r.psk := by
    rw [hidt,hidr]
    rw [(withBackend_ok (p.built k)).2.psk,(withBackend_ok (p.built k.other)).2.psk]
    exact hpsk
  obtain ⟨⟨index',eph'⟩,hdraw⟩ := hrng
  obtain ⟨m,hb1⟩ := peer_answers now index eph (p.backend k.other) hI.commutes hZ hcross
    c2.remote (le_max_right _ _) hseen hdraw hbuf.1
  obtain ⟨m',ha2⟩ := initiator_completes now index eph (p.backend k) hI.commutes hZ hcross
    (a := a1) (by rw [ha1]; rfl) (by rw [ha1]; rfl) hsecret c3.remote c3.out c3.rng index' eph'
    hclock.1
  obtain ⟨data,a3,b2,a,b,ha3,hb2,ha,hb,hka,hkb⟩ := payload_goes_through (p.meets k)
    (p.meets k.other) payload hp
    (a := (Act.complete m' (completedKeys t r now index index' eph eph')).apply a1)
    (b := (Act.respond m (consumedOf t now eph index) index' eph').apply r)
    rfl rfl ⟨rfl,rfl,rfl,rfl⟩ rfl rfl c5.remote c4.rng c5.rng hclock.2 hclock' hbuf.2.1 hbuf.2.2
  refine ⟨_,_,_,a3,data,b2,a,b,?_,ha2,ha3,hb2,ha,hb,?_⟩
  · rw [step_decapsulate_observe,← hb1,← hinit.wire]
  · rw [hka,hkb]
    exact ⟨rfl,rfl,rfl,rfl⟩

theorem neverZero_mixing : NeverZero mixing := by
  intro a b
  refine Bool.eq_false_iff.mpr fun h => ?_
  have hm := (ctIsZero_iff _).mp h _
    (List.Vector.get_mem (1 : Fin 32) (mixing.x25519 a (x25519Base mixing b)))
  simp [mixing,specimen] at hm

def specimenRetry : Tunnel mixing × Output :=
  step (scalar mixing) (specimenPeers.final specimenHandshake .a) (.initiateHandshake
    specimenSecond (List.replicate 148 0) (List.replicate 2 (some (fun _ => 8))))

theorem handshake_recovers_specimen :
    ∃ wire, specimenRetry.2 = .initiated (.ok wire) ∧
    ∃ b reply, step (scalar mixing) (specimenPeers.final specimenHandshake .b) (.decapsulate
        ⟨Ticks.zero,0,0⟩ [] false wire (List.replicate 148 0)
        (List.replicate 2 (some (fun _ => 9)))) =
      (b,.decapsulated (.ok (.reply reply))) := by
  let turn (now : Now) (n : UInt8) : Turn :=
    ⟨now,[],List.replicate 148 0,List.replicate 2 (some (fun _ => n))⟩
  let origin : Turn := turn ⟨Ticks.zero,0,0⟩ 9
  have hw : specimenRetry.2 = .initiated (.ok (specimenRetry.2.initiation?.getD [])) := by
    decide +kernel
  have hs : specimenRetry =
      (specimenRetry.1,.initiated (.ok (specimenRetry.2.initiation?.getD []))) := by
    rw [← hw]
  have hn : ∀ last ∈ (specimenPeers.final specimenHandshake .a).lastSentTai64n,
      ∀ ts ∈ specimenRetry.1.lastSentTai64n, last < ts := by decide +kernel
  obtain ⟨b1,reply,_,_,_,_,_,_,hb,_⟩ := handshake_recovers specimenPeers specimenHandshake
    specimenHandshake_ideal specimenHandshake_relayed neverZero_mixing .a rfl specimenPayload
    (by decide) (turn specimenSecond 8) origin origin origin origin hs
    (fun last ts hl ht => hn last hl ts ht)
    ⟨by decide +kernel,by decide +kernel⟩ (by decide +kernel)
    ⟨(0x09090909,List.Vector.replicate 32 9),by decide +kernel⟩
    ⟨by decide +kernel,by decide +kernel,by decide +kernel⟩
  exact ⟨_,hw,b1,reply,hb⟩

end WireGuard
