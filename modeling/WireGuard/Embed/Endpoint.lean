import WireGuard.Embed.AsyncTunn
import WireGuard.Gate

/-!
# When the endpoint moves

The loop takes every datagram for the network and every packet for the host as a
sign that what it received was authentic. Two results are not: a cookie, which
answers anyone who knows our public key, and a queued packet, which an empty
datagram asks for.
-/

set_option autoImplicit false

namespace WireGuard
open ByteString Tunnel

variable {P : Primitives}

def CookieJar.CanMint (jar : CookieJar) (now : Ticks) (rng : Entropy) : Prop :=
  (jar.primed = true ∧ now.since jar.rotatedAt < cookieLifetime) ∨
    ∃ fresh rest, rng.gen32 = (some fresh,rest) ∧
      (jar.primed = true ∨ ∃ seed rest', rest.fill 24 = (some seed,rest'))

theorem drawNonceSeed_ok_iff {jar : CookieJar} {rng : Entropy} :
    (∃ seed rest, jar.drawNonceSeed rng = (.ok seed,rest)) ↔
      jar.primed = true ∨ ∃ seed rest, rng.fill 24 = (some seed,rest) := by
  unfold CookieJar.drawNonceSeed
  cases jar.primed with
  | true => simp
  | false =>
    rcases rng.fill 24 with ⟨_ | seed,rest⟩
    · simp
    · simp

theorem canMint_iff {jar : CookieJar} {now : Ticks} {rng : Entropy} :
    jar.CanMint now rng ↔ ∃ jar' rest, jar.rotateIfNeeded now rng = (.ok jar',rest) := by
  unfold CookieJar.CanMint CookieJar.rotateIfNeeded
  by_cases hy : jar.primed = true ∧ now.since jar.rotatedAt < cookieLifetime
  · rw [if_neg (by simp [hy.1,hy.2])]
    exact ⟨fun _ => ⟨_,_,rfl⟩,fun _ => Or.inl hy⟩
  · have hr : (!jar.primed || decide (cookieLifetime ≤ now.since jar.rotatedAt)) = true := by
      cases hp : jar.primed with
      | false => rfl
      | true => simpa [hp] using hy
    rw [if_pos hr]
    rcases rng.gen32 with ⟨_ | fresh,rest⟩
    · simp [hy]
    · have hs := @drawNonceSeed_ok_iff jar rest
      constructor
      · rintro (h | ⟨fresh',rest',he,hd⟩)
        · exact absurd h hy
        · cases he
          obtain ⟨seed,rest',hd⟩ := hs.mpr hd
          simp only [hd]
          exact ⟨_,_,rfl⟩
      · rintro ⟨jar',rest',h⟩
        refine Or.inr ⟨fresh,rest,rfl,hs.mp ?_⟩
        dsimp only at h
        split at h
        · cases h
        · rename_i seed rest'' hd
          exact ⟨seed,rest'',hd⟩

theorem replyCookie_iff {t : Tunnel P} {now : Now} {remote : List UInt8} {index : UInt32}
    {mac1 : Bytes 16} {out : List UInt8} {rng : Entropy} :
    IsCookieReply (t.replyCookie now remote index mac1 out rng).result ↔
      cookieReplyLen ≤ out.length ∧ t.cookieJar.CanMint now.ticks rng := by
  rw [canMint_iff]
  constructor
  · rintro ⟨wire,m,h,-⟩
    unfold replyCookie at h
    dsimp only at h
    split at h
    · cases h
    · rename_i n hn
      obtain ⟨-,-,-,-,jar',rest,hr,-⟩ := buildCookieReply_ok hn
      refine ⟨not_lt.mp fun hl => ?_,jar',rest,hr⟩
      simp [buildCookieReply,hl] at hn
  · rintro ⟨hl,jar',rest,hr⟩
    have hm : t.cookieJar.mint P now.ticks rng remote =
        (.ok (jar',mac P jar'.secret.toList [remote]),rest) := by
      unfold CookieJar.mint
      rw [hr]
    have hn : (buildCookieReply P t.macKeys t.cookieJar now.ticks rng index mac1 remote out).result =
        .ok cookieReplyLen := by
      rw [buildCookieReply_minted P (not_lt.mpr hl) hm]
    exact replyCookie_built hn

/-- The datagram is a handshake message that passes for anything but its second
mac. -/
def Tunnel.Challenges (t : Tunnel P) (remote datagram : List UInt8) : Prop :=
  (∃ m, parse datagram = .ok (.handshakeInitiation m) ∧
    verifyMac1 P t.macKeys m.alpha m.mac1 = true ∧
    t.cookieJar.verifyMac2 P remote m.beta m.mac2 = false) ∨
  ∃ m, parse datagram = .ok (.handshakeResponse m) ∧
    verifyMac1 P t.macKeys m.alpha m.mac1 = true ∧ (t.pendingFor m.receiverIndex).isSome = true ∧
    t.cookieJar.verifyMac2 P remote m.beta m.mac2 = false

section Core

variable {t : Tunnel P} {now : Now} {remote : List UInt8} {underLoad : Bool} {out : List UInt8}
  {rng : Entropy}

theorem receiveInitiation_cookie_iff {m : HandshakeInitiation} :
    IsCookieReply (t.receiveInitiation now remote underLoad m out rng).result ↔
      (underLoad = true ∧ verifyMac1 P t.macKeys m.alpha m.mac1 = true ∧
        t.cookieJar.verifyMac2 P remote m.beta m.mac2 = false) ∧
      cookieReplyLen ≤ out.length ∧ t.cookieJar.CanMint now.ticks rng := by
  by_cases h1 : verifyMac1 P t.macKeys m.alpha m.mac1 = true
  · cases h2 : underLoad && !t.cookieJar.verifyMac2 P remote m.beta m.mac2 with
    | true =>
      have hb : underLoad = true ∧ t.cookieJar.verifyMac2 P remote m.beta m.mac2 = false := by
        simpa using h2
      unfold receiveInitiation
      simp only [h1,h2,Bool.not_true,Bool.false_eq_true,if_false,if_true]
      rw [replyCookie_iff]
      exact ⟨fun h => ⟨⟨hb.1,trivial,hb.2⟩,h⟩,fun h => h.2⟩
    | false =>
      constructor
      · rintro ⟨wire,c,h,hp⟩
        exact absurd hp ((receiveInitiation_honoured now remote underLoad out rng h1 h2).2 wire c h)
      · rintro ⟨⟨hu,-,hv⟩,-⟩
        simp [hu,hv] at h2
  · unfold receiveInitiation
    simp only [h1,Bool.not_false,if_true]
    exact ⟨fun h => absurd h (not_isCookieReply_error _),fun h => absurd h.1.2.1 (by simp)⟩

theorem receiveResponse_cookie_iff {m : HandshakeResponse} :
    IsCookieReply (t.receiveResponse now remote underLoad m out rng).result ↔
      (underLoad = true ∧ verifyMac1 P t.macKeys m.alpha m.mac1 = true ∧
        (t.pendingFor m.receiverIndex).isSome = true ∧
        t.cookieJar.verifyMac2 P remote m.beta m.mac2 = false) ∧
      cookieReplyLen ≤ out.length ∧ t.cookieJar.CanMint now.ticks rng := by
  unfold receiveResponse
  by_cases h1 : verifyMac1 P t.macKeys m.alpha m.mac1 = true
  · simp only [h1,Bool.not_true,Bool.false_eq_true,if_false]
    cases hi : t.pendingFor m.receiverIndex with
    | none =>
      simp only [Option.isSome_none,Bool.false_eq_true,false_and,and_false,iff_false]
      exact not_isCookieReply_error _
    | some inflight =>
      cases h2 : underLoad && !t.cookieJar.verifyMac2 P remote m.beta m.mac2 with
      | true =>
        have hb : underLoad = true ∧ t.cookieJar.verifyMac2 P remote m.beta m.mac2 = false := by
          simpa using h2
        simp only [if_true]
        rw [replyCookie_iff]
        exact ⟨fun h => ⟨⟨hb.1,trivial,rfl,hb.2⟩,h⟩,fun h => h.2⟩
      | false =>
        simp only [Bool.false_eq_true,if_false]
        constructor
        · rintro ⟨wire,c,h,-⟩
          split at h <;> cases h
        · rintro ⟨⟨hu,-,-,hv⟩,-⟩
          simp [hu,hv] at h2
  · simp only [h1,Bool.not_false,if_true]
    exact ⟨fun h => absurd h (not_isCookieReply_error _),fun h => absurd h.1.2.1 (by simp)⟩

theorem decapsulate_cookie_iff {C : ChaChaImpl} {datagram : List UInt8} :
    IsCookieReply (t.decapsulate C now remote underLoad datagram out rng).result ↔
      underLoad = true ∧ t.Challenges remote datagram ∧ cookieReplyLen ≤ out.length ∧
        t.cookieJar.CanMint (t.reading now).ticks rng := by
  unfold decapsulate decapsulateAt Challenges
  rw [clampNow_eq]
  cases hp : parse datagram with
  | error e =>
    simp only [reduceCtorEq,false_and,exists_false,or_self,and_false,iff_false]
    exact not_isCookieReply_error e
  | ok p =>
    cases p with
    | handshakeInitiation m =>
      rw [receiveInitiation_cookie_iff]
      simp only [Except.ok.injEq,Packet.handshakeInitiation.injEq,reduceCtorEq,false_and,
        exists_false,or_false,exists_eq_left']
      exact and_assoc
    | handshakeResponse m =>
      rw [receiveResponse_cookie_iff]
      simp only [Except.ok.injEq,Packet.handshakeResponse.injEq,reduceCtorEq,false_and,
        exists_false,false_or,exists_eq_left']
      exact and_assoc
    | cookieReply m =>
      simp only [Except.ok.injEq,reduceCtorEq,false_and,exists_false,or_self,and_false,iff_false]
      exact receiveCookieReply_quiet _ _ m out rng
    | transportData m =>
      simp only [Except.ok.injEq,reduceCtorEq,false_and,exists_false,or_self,and_false,iff_false]
      exact handleTransport_quiet C _ _ m out rng

theorem decapsulate_reply {C : ChaChaImpl} {datagram wire : List UInt8}
    (h : (t.decapsulate C now remote underLoad datagram out rng).result = .ok (.reply wire)) :
    (∃ r, parse wire = .ok (.handshakeResponse r)) ∨ ∃ c, parse wire = .ok (.cookieReply c) := by
  have hr := decapsulateAt_receipt C (t.observe now) (t.reading now) remote datagram out underLoad
    rng
  unfold decapsulate at h
  rw [clampNow_eq] at h
  dsimp only at h
  generalize (t.observe now).decapsulateAt C (t.reading now) remote underLoad datagram out rng = o
    at h hr
  cases hr with
  | rejected t' rest e ht => cases h
  | cookieReply index mac1 reply r hr hn ho =>
    obtain rfl := Received.reply.inj (Except.ok.inj h)
    exact Or.inr ⟨reply,parse_cookie_iff.mpr rfl⟩
  | answered m consumed index eph rest hm hmac hc hts hd =>
    obtain ⟨mac2,hp⟩ := parse_response_withMacs (t.observe now) (t.reading now).ticks
      (responderView P consumed (t.observe now).psk (clampScalar eph)) index consumed.peerIndex
    obtain rfl := Received.reply.inj (Except.ok.inj h)
    exact Or.inl ⟨_,hp⟩
  | completed m inflight keys hm hmac hi hx hk => cases h
  | stored cookie => cases h
  | accepted m slot s plain hm hx hs hn ha hk ho =>
    unfold delivered at h
    dsimp only at h
    split at h <;> cases h

def Tunnel.Sends (t : Tunnel P) (now : Now) (payload : Payload) (out : List UInt8)
    (rng : Entropy) : Prop :=
  (t.currentUsable (t.reading now).ticks = true ∧
    paddedLen payload.val.length t.mtu+transportOverhead ≤ out.length) ∨
  t.currentUsable (t.reading now).ticks = false ∧ t.inflight.isSome = false ∧
    t.timers.initiationAllowed (t.reading now).ticks = true ∧ t.CanStart out rng

theorem encapsulate_ok_iff {C : ChaChaImpl} {payload : Payload} :
    (∃ e, (t.encapsulate C now payload out rng).result = .ok e) ↔ t.Sends now payload out rng := by
  unfold Tunnel.Sends
  cases hu : t.currentUsable (t.reading now).ticks with
  | true =>
    obtain ⟨s,-,he⟩ := encapsulate_usable C payload out rng hu
    rw [he]
    by_cases hl : out.length < paddedLen payload.val.length t.mtu+transportOverhead
    · simp [hl]
    · simp [hl,not_lt.mp hl]
  | false =>
    simp only [Bool.false_eq_true,false_and,true_and,false_or]
    by_cases hw : t.inflight.isSome = true ∨
        t.timers.initiationAllowed (t.reading now).ticks = false
    · rw [encapsulate_waits hu hw]
      rcases hw with hw | hw <;> simp [hw]
    · have hi : t.inflight.isSome = false := by simpa using fun h => hw (Or.inl h)
      have ha : t.timers.initiationAllowed (t.reading now).ticks = true := by
        simpa using fun h => hw (Or.inr h)
      have hs := encapsulate_initiates_iff C payload out rng hu hi ha
      rw [← hs]
      refine ⟨fun ⟨e,he⟩ => ⟨hi,ha,?_⟩,fun ⟨_,_,wire,he⟩ => ⟨_,he⟩⟩
      cases e with
      | handshakeInitiation wire => exact ⟨wire,he⟩
      | transport wire =>
        have := (encapsulate_transport he).1
        rw [hu] at this
        cases this

end Core

def TunnResult.writes : TunnResult → Bool
  | .writeToNetwork _ => true
  | .writeToTunnel _ => true
  | _ => false

namespace Tunn

theorem drainQueueStep_ne_tunnel {C : ChaChaImpl} {t : Tunn P} {dst : List UInt8} {now : Now}
    {rng : Entropy} (packet : List UInt8) :
    (t.drainQueueStep C dst now rng).result ≠ .writeToTunnel packet := by
  unfold drainQueueStep
  split
  · simp
  split
  · simp
  · dsimp only
    split <;> simp

theorem drainQueueStep_sends_iff {C : ChaChaImpl} {t : Tunn P} {dst : List UInt8} {now : Now}
    {rng : Entropy} :
    (∃ wire, (t.drainQueueStep C dst now rng).result = .writeToNetwork wire) ↔
      t.queueDrainable = true ∧ ∃ packet rest, t.packetQueue = packet::rest ∧
        t.inner.Sends now packet.payload dst rng := by
  unfold drainQueueStep
  cases t.queueDrainable with
  | false => simp
  | true =>
    cases t.packetQueue with
    | nil => simp
    | cons packet rest =>
      have hq : (∃ p r, packet::rest = p::r ∧ t.inner.Sends now p.payload dst rng) ↔
          t.inner.Sends now packet.payload dst rng := by
        refine ⟨?_,fun h => ⟨packet,rest,rfl,h⟩⟩
        rintro ⟨p,r,h,hs⟩
        cases h
        exact hs
      rw [hq,← encapsulate_ok_iff (C := C)]
      simp only [Bool.not_true,Bool.false_eq_true,if_false,true_and]
      split
      · rename_i wire he
        exact ⟨fun _ => ⟨_,he⟩,fun _ => ⟨wire,rfl⟩⟩
      · rename_i wire he
        exact ⟨fun _ => ⟨_,he⟩,fun _ => ⟨wire,rfl⟩⟩
      · rename_i e he
        simp [he]

theorem noteKind_challenges {t : Tunn P} {remote datagram : List UInt8}
    (h : t.inner.Challenges remote datagram) :
    (t.noteKind datagram).1 = decide (t.rateLimiter.limit ≤ t.rateLimiter.count) := by
  rcases h with ⟨m,hm,-⟩ | ⟨m,hm,-⟩
  · simp [noteKind,peek,hm,Except.map,Packet.kind,RateLimiter.noteHandshake]
  · simp [noteKind,peek,hm,Except.map,Packet.kind,RateLimiter.noteHandshake]

end Tunn

namespace AsyncTunn

variable {C : ChaChaImpl} {d : AsyncTunn P} {e : Inbound}

/-- The core accepted data or a keepalive, answered an initiation with a response,
or completed a handshake. -/
def Authenticated (C : ChaChaImpl) (d : AsyncTunn P) (e : Inbound) : Prop :=
  e.datagram ≠ [] ∧
    let r := (d.tunn.receive C (some e.src) e.datagram e.tunOut e.now e.rng).result
    (∃ packet, r = .ok (.data packet)) ∨ r = .ok .keepalive ∨
      (∃ wire m, r = .ok (.reply wire) ∧ parse wire = .ok (.handshakeResponse m)) ∨
      r = .ok .handshakeComplete

/-- An empty datagram that makes a queued packet leave. -/
def DrainSends (d : AsyncTunn P) (e : Inbound) : Prop :=
  e.datagram = [] ∧ d.tunn.queueDrainable = true ∧ ∃ packet rest,
    d.tunn.packetQueue = packet::rest ∧ d.tunn.inner.Sends e.later packet.payload e.tunOut e.rng

/-- Past the limit, a handshake message without a valid second mac. -/
def CookieAnswered (d : AsyncTunn P) (e : Inbound) : Prop :=
  d.tunn.rateLimiter.limit ≤ d.tunn.rateLimiter.count ∧
    d.tunn.inner.Challenges (encodeAddr e.src) e.datagram ∧ cookieReplyLen ≤ e.tunOut.length ∧
    d.tunn.inner.cookieJar.CanMint (d.tunn.inner.reading e.now).ticks e.rng

theorem cookieAnswered_iff : d.CookieAnswered e ↔
    IsCookieReply (d.tunn.receive C (some e.src) e.datagram e.tunOut e.now e.rng).result := by
  unfold Tunn.receive
  rw [decapsulate_cookie_iff]
  unfold CookieAnswered
  simp only [Option.map_some,Option.getD_some,Option.isSome_some,Bool.and_true]
  constructor
  · rintro ⟨hl,hc,h⟩
    exact ⟨by rw [Tunn.noteKind_challenges hc]; exact decide_eq_true hl,hc,h⟩
  · rintro ⟨hl,hc,h⟩
    rw [Tunn.noteKind_challenges hc] at hl
    exact ⟨of_decide_eq_true hl,hc,h⟩

theorem inbound_peerAddr : (d.inbound C e).1.peerAddr =
    if (d.tunn.decapsulate C (some e.src) e.datagram e.tunOut e.now e.later e.rng).result.writes
    then some e.src else d.peerAddr := by
  unfold inbound
  dsimp only
  split <;> simp [*,TunnResult.writes]

theorem moves_iff : (d.inbound C e).1.peerAddr ≠ d.peerAddr ↔
    (d.tunn.decapsulate C (some e.src) e.datagram e.tunOut e.now e.later e.rng).result.writes =
      true ∧ d.peerAddr ≠ some e.src := by
  rw [inbound_peerAddr]
  split
  · rename_i h
    simp [h,eq_comm]
  · rename_i h
    simp [h]

theorem writes_authenticated (hn : e.datagram ≠ [])
    (hw : (d.tunn.decapsulate C (some e.src) e.datagram e.tunOut e.now e.later
      e.rng).result.writes = true) : d.Authenticated C e ∨ d.CookieAnswered e := by
  unfold Tunn.decapsulate at hw
  rw [if_neg hn] at hw
  dsimp only at hw
  unfold Authenticated
  cases hr : (d.tunn.receive C (some e.src) e.datagram e.tunOut e.now e.rng).result with
  | error err =>
    rw [hr] at hw
    cases hw
  | ok received =>
    cases received with
    | data packet => exact Or.inl ⟨hn,Or.inl ⟨packet,rfl⟩⟩
    | keepalive => exact Or.inl ⟨hn,Or.inr (Or.inl rfl)⟩
    | handshakeComplete => exact Or.inl ⟨hn,Or.inr (Or.inr (Or.inr rfl))⟩
    | cookieStored =>
      rw [hr] at hw
      cases hw
    | reply wire =>
      rcases decapsulate_reply hr with ⟨m,hm⟩ | ⟨c,hc⟩
      · exact Or.inl ⟨hn,Or.inr (Or.inr (Or.inl ⟨wire,m,rfl,hm⟩))⟩
      · exact Or.inr (cookieAnswered_iff.mpr ⟨wire,c,hr,hc⟩)

theorem cookieAnswered_writes (h : d.CookieAnswered e) :
    (d.tunn.decapsulate C (some e.src) e.datagram e.tunOut e.now e.later e.rng).result.writes =
      true ∧ ¬d.Authenticated C e := by
  have hn : e.datagram ≠ [] := by
    intro hd
    rcases h.2.1 with ⟨m,hm,-⟩ | ⟨m,hm,-⟩
    · rw [hd] at hm
      cases hm
    · rw [hd] at hm
      cases hm
  obtain ⟨wire,c,hr,hc⟩ := (cookieAnswered_iff (C := C)).mp h
  constructor
  · unfold Tunn.decapsulate
    rw [if_neg hn]
    dsimp only
    rw [hr]
    rfl
  · unfold Authenticated
    rw [hr]
    rintro ⟨-,⟨packet,hp⟩ | hp | ⟨w,m,hp,hm⟩ | hp⟩
    · cases hp
    · cases hp
    · obtain rfl := Received.reply.inj (Except.ok.inj hp)
      cases hm.symm.trans hc
    · cases hp

theorem drainSends_iff (hd : e.datagram = []) : d.DrainSends e ↔
    (d.tunn.decapsulate C (some e.src) e.datagram e.tunOut e.now e.later e.rng).result.writes =
      true := by
  unfold DrainSends Tunn.decapsulate
  rw [if_pos hd,← Tunn.drainQueueStep_sends_iff (C := C)]
  refine ⟨fun ⟨_,wire,hw⟩ => by rw [hw]; rfl,fun hw => ⟨hd,?_⟩⟩
  cases hr : (d.tunn.drainQueueStep C e.tunOut e.later e.rng).result with
  | writeToNetwork wire => exact ⟨wire,rfl⟩
  | writeToTunnel packet => exact absurd hr (Tunn.drainQueueStep_ne_tunnel packet)
  | done =>
    rw [hr] at hw
    cases hw
  | err er =>
    rw [hr] at hw
    cases hw

/-- The endpoint moves only on what the core authenticated, except when a new
source is answered with a cookie or makes a queued packet leave. -/
theorem endpoint_moves_iff (C : ChaChaImpl) (d : AsyncTunn P) (e : Inbound) :
    ((d.inbound C e).1.peerAddr ≠ d.peerAddr → d.Authenticated C e) ↔
      (d.CookieAnswered e ∨ d.DrainSends e → d.peerAddr = some e.src) := by
  rw [moves_iff]
  constructor
  · intro h hs
    by_contra hp
    rcases hs with hc | hs
    · obtain ⟨hw,ha⟩ := cookieAnswered_writes (C := C) hc
      exact ha (h ⟨hw,hp⟩)
    · exact (h ⟨(drainSends_iff hs.1).mp hs,hp⟩).1 hs.1
  · rintro h ⟨hw,hp⟩
    by_cases hd : e.datagram = []
    · exact absurd (h (Or.inr ((drainSends_iff hd).mpr hw))) hp
    · rcases writes_authenticated hd hw with ha | hc
      · exact ha
      · exact absurd (h (Or.inl hc)) hp

end AsyncTunn

def specimenStranger : SocketAddr := .v4 (zeros 4) 7

def specimenProbe (datagram : List UInt8) : Inbound :=
  ⟨specimenStranger,datagram,List.replicate 256 0,⟨Ticks.zero,0,0⟩,⟨Ticks.zero,0,0⟩,
    List.replicate 2 (some (fun _ => 1)),fun _ => specimenAsk⟩

def specimenStarted : AsyncTunn specimen :=
  .new (Machine.final (Tunn.step (scalar specimen)) specimenTunn [specimenSubmit specimenPayload])
    (some specimenHome)

/-- The response comes from a new address, and the endpoint follows. -/
theorem endpoint_moves_specimen :
    let e := specimenProbe (2::List.replicate 91 0)
    ((specimenStarted.inbound (scalar specimen) e).1.peerAddr = some specimenStranger ∧
      specimenStarted.peerAddr = some specimenHome) ∧
      ((specimenStarted.inbound (scalar specimen) e).1.peerAddr ≠ specimenStarted.peerAddr →
        specimenStarted.Authenticated (scalar specimen) e) := by
  intro e
  refine ⟨by decide +kernel,(AsyncTunn.endpoint_moves_iff (scalar specimen) specimenStarted e).mpr ?_⟩
  rintro (hc | hd)
  · exact absurd hc.1 (by decide +kernel)
  · cases hd.1

/-- Ten initiations with a wrong first mac use up the limit. -/
def specimenFlood : List Arm :=
  List.replicate 10 (.inbound (specimenProbe (1::List.replicate 115 0++List.replicate 32 1)))

def specimenUnproven : Inbound := specimenProbe (1::List.replicate 147 0)

def specimenFlooded : AsyncTunn specimen :=
  Machine.final (AsyncTunn.step (scalar specimen)) (.new specimenTunn (some specimenHome))
    specimenFlood

theorem specimenFlooded_arises : specimenFlooded.Arises (scalar specimen) :=
  ⟨_,_,_,_,_,_,specimenTunn_built,Machine.Reachable.refl _ _,specimenFlood,rfl⟩

theorem peek_cookie {wire : List UInt8} {index : UInt32} (h : peek wire = .ok (.cookieReply index)) :
    ∃ c, parse wire = .ok (.cookieReply c) := by
  unfold peek at h
  cases hp : parse wire with
  | error e =>
    rw [hp] at h
    cases h
  | ok p =>
    rw [hp] at h
    cases p with
    | cookieReply c => exact ⟨c,rfl⟩
    | handshakeInitiation m => cases h
    | handshakeResponse m => cases h
    | transportData m => cases h

theorem specimenFlooded_cookie :
    let o := specimenFlooded.tunn.receive (scalar specimen) (some specimenStranger)
      specimenUnproven.datagram specimenUnproven.tunOut specimenUnproven.now specimenUnproven.rng
    o.result = .ok (.reply (o.out.take 64)) ∧
      peek (o.out.take 64) = .ok (.cookieReply 0) := by
  decide +kernel

/-- A stranger takes the endpoint over with an initiation that is answered with a
cookie, or with an empty datagram while a packet waits to leave. -/
theorem stranger_moves_endpoint :
    (specimenFlooded.Arises (scalar specimen) ∧ specimenFlooded.peerAddr = some specimenHome ∧
      (specimenFlooded.inbound (scalar specimen) specimenUnproven).1.peerAddr =
        some specimenStranger ∧
      IsCookieReply (specimenFlooded.tunn.receive (scalar specimen) (some specimenStranger)
        specimenUnproven.datagram specimenUnproven.tunOut specimenUnproven.now
        specimenUnproven.rng).result ∧
      ¬specimenFlooded.Authenticated (scalar specimen) specimenUnproven) ∧
    specimenHeld.Arises (scalar specimen) ∧ specimenHeld.peerAddr = some specimenHome ∧
      (specimenHeld.inbound (scalar specimen) (specimenProbe [])).1.peerAddr =
        some specimenStranger ∧
      ¬specimenHeld.Authenticated (scalar specimen) (specimenProbe []) := by
  obtain ⟨hr,hk⟩ := specimenFlooded_cookie
  obtain ⟨c,hc⟩ := peek_cookie hk
  have hi : IsCookieReply (specimenFlooded.tunn.receive (scalar specimen) (some specimenStranger)
      specimenUnproven.datagram specimenUnproven.tunOut specimenUnproven.now
      specimenUnproven.rng).result := ⟨_,c,hr,hc⟩
  refine ⟨⟨specimenFlooded_arises,by decide +kernel,by decide +kernel,hi,?_⟩,specimenHeld_arises,
    by decide +kernel,by decide +kernel,fun h => h.1 rfl⟩
  exact (AsyncTunn.cookieAnswered_writes (AsyncTunn.cookieAnswered_iff.mpr hi)).2

end WireGuard
