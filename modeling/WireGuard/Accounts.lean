import WireGuard.Buffers
import WireGuard.Deeds
import WireGuard.Embed.Conversation
import WireGuard.Exits
import WireGuard.Shipped
import WireGuard.Spacing
import WireGuard.Wire

/-!
# The statistics

A counter of `Stats` is a sum over the results of a run, up to saturation: it counts
what callers were handed and what was accepted or refused, and nothing else moves it.
Each commit of the tunnel posts its entries; the branches of the calls then post what
their results say.
-/

set_option autoImplicit false

namespace WireGuard
open ByteString

inductive Counter where
  | txTransport
  | rxTransport
  | txBytes
  | rxBytes
  | txKeepalives
  | rxKeepalives
  | handshakesInitiated
  | handshakesResponded
  | handshakesCompleted
  | authFailures
  | mac1Failures
  | replaysDropped
  | cookiesReceived
  | cookiesSent
  deriving DecidableEq

def Stats.get (s : Stats) : Counter → ℕ
  | .txTransport => s.txTransport
  | .rxTransport => s.rxTransport
  | .txBytes => s.txBytes
  | .rxBytes => s.rxBytes
  | .txKeepalives => s.txKeepalives
  | .rxKeepalives => s.rxKeepalives
  | .handshakesInitiated => s.handshakesInitiated
  | .handshakesResponded => s.handshakesResponded
  | .handshakesCompleted => s.handshakesCompleted
  | .authFailures => s.authFailures
  | .mac1Failures => s.mac1Failures
  | .replaysDropped => s.replaysDropped
  | .cookiesReceived => s.cookiesReceived
  | .cookiesSent => s.cookiesSent

/-! ## What a result says -/

abbrev Entries := Counter → ℕ

def Counter.once (c : Counter) : Entries := fun d => if d = c then 1 else 0

def Entries.sealed (n : ℕ) : Entries
  | .txTransport => 1
  | .txBytes => n
  | .txKeepalives => if n = 0 then 1 else 0
  | _ => 0

def Entries.opened (n : ℕ) : Entries
  | .rxTransport => 1
  | .rxBytes => n
  | .rxKeepalives => if n = 0 then 1 else 0
  | _ => 0

def Error.entries : Error → Entries
  | .invalidMac1 => Counter.once .mac1Failures
  | .replay => Counter.once .replaysDropped
  | .authFailure => Counter.once .authFailures
  | .unknownPeer => Counter.once .authFailures
  | .invalidCookie => Counter.once .authFailures
  | .invalidPublicKey => Counter.once .authFailures
  | _ => 0

def replyEntries (wire : List UInt8) : Entries :=
  match parse wire with
  | .ok (.handshakeResponse _) => Counter.once .handshakesResponded
  | .ok (.cookieReply _) => Counter.once .cookiesSent
  | _ => 0

def Received.entries : Except Error Received → Entries
  | .ok (.data packet) => .opened packet.length
  | .ok .keepalive => .opened 0
  | .ok (.reply wire) => replyEntries wire
  | .ok .handshakeComplete => 0
  | .ok .cookieStored => Counter.once .cookiesReceived
  | .error e => e.entries

def Encapsulated.entries (n : ℕ) : Except Error Encapsulated → Entries
  | .ok (.transport _) => .sealed n
  | .ok (.handshakeInitiation _) => Counter.once .handshakesInitiated
  | .error _ => 0

def PollOutput.entries : Except Error PollOutput → Entries
  | .ok (.send _ .handshakeInitiation) => Counter.once .handshakesInitiated
  | .ok (.send _ .handshakeRetransmit) => Counter.once .handshakesInitiated
  | .ok (.send _ .keepalive) => .sealed 0
  | .ok (.send _ .persistentKeepalive) => .sealed 0
  | _ => 0

def initiatedEntries : Except Error (List UInt8) → Entries
  | .ok _ => Counter.once .handshakesInitiated
  | .error _ => 0

def Output.entries (n : ℕ) : Output → Entries
  | .encapsulated r => Encapsulated.entries n r
  | .decapsulated r => Received.entries r
  | .polled r => PollOutput.entries r
  | .initiated r => initiatedEntries r
  | .none => 0

variable {P : Primitives}

/-- The datagram completed a handshake: as a response, or as the first message on a session
that waited for it. -/
def completes (before after : Tunnel P) : Except Error Received → Bool
  | .ok .handshakeComplete => true
  | .ok (.data _) => before.next.isSome && after.next.isNone
  | .ok .keepalive => before.next.isSome && after.next.isNone
  | _ => false

def completedAt (x : Transition P) : Option Ticks :=
  match x.output with
  | .decapsulated r => if completes x.before x.after r then some x.after.lastNow else none
  | _ => none

def completion (time : Option Ticks) : Entries :=
  match time with
  | some _ => Counter.once .handshakesCompleted
  | none => 0

def gain (x : Transition P) (c : Counter) : ℕ :=
  x.output.entries (x.input.payloadLen.getD 0) c+completion (completedAt x) c

/-! ## Posting -/

/-- `s'` is `s` with the entries posted and the time of a completion noted. -/
structure Posts (s s' : Stats) (entries : Entries) (time : Option Ticks) : Prop where
  counters : ∀ c, s.get c ≤ u64Max → s'.get c = min (s.get c+(entries c+completion time c)) u64Max
  latest : s'.lastHandshakeAt = time.or s.lastHandshakeAt

theorem Posts.nothing (s : Stats) : Posts s s 0 none where
  counters c h := by simp [completion,h]
  latest := rfl

theorem Posts.once {s s' : Stats} (c : Counter)
    (hc : ∀ d, s'.get d = if d = c then satAdd (s.get d) 1 else s.get d)
    (hl : s'.lastHandshakeAt = s.lastHandshakeAt) : Posts s s' (Counter.once c) none where
  counters d h := by
    rw [hc]
    unfold Counter.once completion
    split
    · rfl
    · exact (min_eq_left h).symm
  latest := hl

theorem Posts.after {s s' s'' : Stats} {entries : Entries} {time : Option Ticks}
    (h : Posts s s' 0 time) (h' : Posts s' s'' entries none) : Posts s s'' entries time where
  counters c hc := by
    have hm := h.counters c hc
    rw [h'.counters c (hm ▸ Nat.min_le_right _ _),hm]
    simp only [completion,Pi.zero_apply]
    omega
  latest := h'.latest.trans h.latest

def ZeroByPoint (P : Primitives) : Prop :=
  ∀ a b u : Bytes 32, ctIsZero (P.x25519 a u).toList = ctIsZero (P.x25519 b u).toList

namespace Tunnel

/-! ## The commits -/

section Commits

variable (t : Tunnel P) (now : Ticks)

theorem countMac1Failure_posts :
    Posts t.stats t.countMac1Failure.stats (Counter.once .mac1Failures) none :=
  .once _ (fun d => by cases d <;> rfl) rfl

theorem countAuthFailure_posts :
    Posts t.stats t.countAuthFailure.stats (Counter.once .authFailures) none :=
  .once _ (fun d => by cases d <;> rfl) rfl

theorem countReplay_posts :
    Posts t.stats t.countReplay.stats (Counter.once .replaysDropped) none :=
  .once _ (fun d => by cases d <;> rfl) rfl

theorem countCookieSent_posts (jar : CookieJar) :
    Posts t.stats (t.setJar jar).countCookieSent.stats (Counter.once .cookiesSent) none :=
  .once _ (fun d => by cases d <;> rfl) rfl

theorem storeCookie_posts (cookie : LastCookie) :
    Posts t.stats (t.storeCookie cookie).stats (Counter.once .cookiesReceived) none :=
  .once _ (fun d => by cases d <;> rfl) rfl

theorem commitInitiation_posts (timestamp : Tai64N) (mac1 : Bytes 16)
    (inflight : InFlightInitiation) (jitter : ℕ) :
    Posts t.stats (t.commitInitiation now timestamp mac1 inflight jitter).stats
      (Counter.once .handshakesInitiated) none :=
  .once _ (fun d => by cases d <;> rfl) rfl

theorem commitResponse_posts (mac1 : Bytes 16) (timestamp : Tai64N) (keys : SessionKeys) :
    Posts t.stats (t.commitResponse now mac1 timestamp keys).stats
      (Counter.once .handshakesResponded) none :=
  .once _ (fun d => by cases d <;> rfl) rfl

theorem commitCompletion_posts (keys : SessionKeys) :
    Posts t.stats (t.commitCompletion now keys).stats 0 (some now) := by
  refine ⟨fun c h => ?_,rfl⟩
  cases c <;> simp_all [Stats.get,commitCompletion,Counter.once,completion,satAdd]

theorem promote_posts : Posts t.stats (t.promote now).stats 0 (some now) := by
  refine ⟨fun c h => ?_,rfl⟩
  cases c <;> simp_all [Stats.get,promote,Counter.once,completion,satAdd]

theorem noteReceived_posts (n : ℕ) :
    Posts t.stats (t.noteReceived now n).stats (.opened n) none := by
  refine ⟨fun c h => ?_,rfl⟩
  cases c <;> simp_all [Stats.get,noteReceived,Entries.opened,completion,satAdd]
  split <;> simp_all

theorem commitSeal_posts (payloadLen : Option ℕ) :
    Posts t.stats (t.commitSeal now payloadLen).stats (.sealed (payloadLen.getD 0)) none := by
  have harm : ∀ u : Tunnel P, (u.armSendRekey now).stats = u.stats := by
    intro u
    unfold armSendRekey
    split <;> rfl
  unfold commitSeal
  cases payloadLen with
  | none =>
    rw [harm]
    refine ⟨fun c h => ?_,rfl⟩
    cases c <;> simp_all [Stats.get,takeCounter,noteKeepaliveSent,Entries.sealed,completion,satAdd]
  | some n =>
    rw [harm]
    refine ⟨fun c h => ?_,rfl⟩
    cases c <;> simp_all [Stats.get,takeCounter,noteTransportSent,Entries.sealed,completion,satAdd]
    split <;> simp_all

theorem commitTransport_promotes {t : Tunnel P} {slot : Slot} {s : Session}
    (hs : t.slot slot = some s) (replay : ReplayWindow) (n : ℕ) :
    (t.next.isSome && (t.commitTransport now slot s replay n).next.isNone) =
      (!s.confirmed && slot == .next) := by
  have hnext : ∀ u : Tunnel P, ((u.armRecvRekey now).noteReceived now n).next = u.next := by
    intro u
    unfold armRecvRekey
    split <;> rfl
  unfold commitTransport
  dsimp only
  rw [hnext]
  cases slot with
  | next =>
    have hs : t.next = some s := hs
    cases hc : s.confirmed <;> simp [hs,promote,setSlot]
  | current =>
    have he : (Slot.current == Slot.next) = false := rfl
    cases hn : t.next <;> simp [he,hn,setSlot]
  | previous =>
    have he : (Slot.previous == Slot.next) = false := rfl
    cases hn : t.next <;> simp [he,hn,setSlot]

theorem commitTransport_posts {t : Tunnel P} {slot : Slot} {s : Session}
    (hs : t.slot slot = some s) (replay : ReplayWindow) (n : ℕ) :
    Posts t.stats (t.commitTransport now slot s replay n).stats (.opened n)
      (if t.next.isSome && (t.commitTransport now slot s replay n).next.isNone then some now
        else none) := by
  have harm : ∀ u : Tunnel P, Posts u.stats ((u.armRecvRekey now).noteReceived now n).stats
      (.opened n) none := by
    intro u
    have hu : (u.armRecvRekey now).stats = u.stats := by
      unfold armRecvRekey
      split <;> rfl
    exact hu ▸ noteReceived_posts (u.armRecvRekey now) now n
  rw [commitTransport_promotes now hs]
  have hset : ∀ s', (t.setSlot s' slot).stats = t.stats := fun s' => by cases slot <;> rfl
  unfold commitTransport
  dsimp only
  cases !s.confirmed && slot == .next with
  | true => exact (hset _ ▸ promote_posts _ now).after (harm _)
  | false => exact hset _ ▸ harm _

end Commits

/-! ## Sending -/

section Send

variable {α : Type} (C : ChaChaImpl) (t : Tunnel P) (now : Now) (out : List UInt8) (rng : Entropy)

theorem sendInitiation_posts {entries : Except Error α → Entries} {f : List UInt8 → α}
    (he : ∀ e, entries (.error e) = 0)
    (hf : ∀ w, entries (.ok (f w)) = Counter.once .handshakesInitiated) (timerDriven : Bool) :
    let o := (t.sendInitiation now out rng timerDriven).emit f
    Posts t.stats o.tunnel.stats (entries o.result) none := by
  have hkeep : ∀ e, Posts t.stats t.stats (entries (.error e)) none := by
    intro e
    rw [he]
    exact .nothing _
  rw [sendInitiation_eq]
  rcases t.drawHandshake rng with ⟨e | ⟨index,eph⟩,rest⟩
  · exact hkeep e
  dsimp only
  split
  · exact hkeep _
  split
  · exact hkeep _
  rw [emit_front (by simp [withMacs,handshakeInitiationLen])]
  dsimp only
  rw [hf]
  exact commitInitiation_posts ..

theorem keepalive_posts (hu : t.currentUsable now.ticks = true) {reason : SendReason}
    (hr : ∀ w, PollOutput.entries (.ok (.send w reason)) = .sealed 0) :
    let o := (t.sendKeepalive C now out rng).sendAs reason
    Posts t.stats o.tunnel.stats (PollOutput.entries o.result) none := by
  obtain ⟨s,hc,hs⟩ := currentUsable_some hu
  rw [sendKeepalive_eq C now out rng hc (Session.usableForSend_iff.mp hs).2.1]
  split
  · exact .nothing _
  · dsimp only [Outcome.sendAs,Except.map]
    rw [hr]
    exact commitSeal_posts t now.ticks none

theorem encapsulate_posts (payload : Payload) :
    let o := t.encapsulate C now payload out rng
    Posts t.stats o.tunnel.stats (Encapsulated.entries payload.val.length o.result) none := by
  unfold encapsulate encapsulateAt
  rw [clampNow_eq]
  dsimp only
  cases hu : (t.observe now).currentUsable (t.reading now).ticks with
  | true =>
    obtain ⟨s,hc,hs⟩ := currentUsable_some hu
    have he := encapsulateSeal_eq C (t.reading now) payload out rng hc
      (Session.usableForSend_iff.mp hs).2.1
    simp only [Bool.not_true,Bool.false_eq_true,if_false]
    rw [he]
    split
    · exact .nothing _
    · exact commitSeal_posts (t.observe now) _ (some payload.val.length)
  | false =>
    simp only [Bool.not_false,if_true]
    unfold encapsulateStart
    split
    · exact .nothing _
    split
    · exact .nothing _
    · exact sendInitiation_posts (t.observe now).clearGaveUp.restartAttempt _ out rng
        (fun _ => rfl) (fun _ => rfl) false

theorem initiateHandshake_posts :
    let o := t.initiateHandshake now out rng
    Posts t.stats o.tunnel.stats (initiatedEntries o.result) none := by
  unfold initiateHandshake initiateHandshakeAt
  rw [clampNow_eq]
  dsimp only
  split
  · exact .nothing _
  · exact sendInitiation_posts (t.observe now).clearGaveUp.restartAttempt _ out rng
      (fun _ => rfl) (fun _ => rfl) false

end Send

/-! ## Polling -/

def FlowPosts (s : Stats) : Flow P → Prop
  | .next t => t.stats = s
  | .done o => Posts s o.tunnel.stats (PollOutput.entries o.result) none

theorem FlowPosts.andThen {s : Stats} {f : Flow P} {k : Tunnel P → Flow P} (hf : FlowPosts s f)
    (hk : ∀ t : Tunnel P, FlowPosts t.stats (k t)) : FlowPosts s (f.andThen k) := by
  cases f with
  | done o => exact hf
  | next t =>
    have hf : t.stats = s := hf
    exact hf ▸ hk t

theorem keepalive_flowPosts (C : ChaChaImpl) (t u : Tunnel P) (now : Now) (out : List UInt8)
    (rng : Entropy) (hu : u.stats = t.stats) :
    FlowPosts t.stats (if t.currentUsable now.ticks then
      .done ((t.sendKeepalive C now out rng).sendAs .keepalive) else .next u) := by
  split
  · rename_i h
    exact keepalive_posts C t now out rng h (fun _ => rfl)
  · exact hu

theorem pollTimers_posts (C : ChaChaImpl) (t : Tunnel P) (now : Now) (out : List UInt8)
    (rng : Entropy) : FlowPosts t.stats (t.pollTimers C now out rng) := by
  have hinit : ∀ (t : Tunnel P) (reason : SendReason),
      (∀ w, PollOutput.entries (.ok (.send w reason)) = Counter.once .handshakesInitiated) →
      FlowPosts t.stats (.done ((t.sendInitiation now out rng true).emit
        (fun w => .send w reason))) :=
    fun t reason hr => sendInitiation_posts t now out rng (fun _ => rfl) hr true
  have hexpire : (t.expireNext now.ticks).stats = t.stats := by rw [expireNext_frame]
  unfold pollTimers
  refine FlowPosts.andThen hexpire fun t => FlowPosts.andThen ?_ fun t => FlowPosts.andThen ?_
    fun t => FlowPosts.andThen ?_ fun t => FlowPosts.andThen ?_ fun t => FlowPosts.andThen ?_
    fun t => ?_
  · unfold pollDiscard
    split
    · rfl
    split
    · exact Posts.nothing _
    · rfl
  · unfold pollRetransmit
    split
    · split
      · exact Posts.nothing _
      · exact hinit t _ (fun _ => rfl)
    · rfl
  · unfold pollRekey
    split
    · split
      · rfl
      split
      · exact hinit t.restartAttempt _ (fun _ => rfl)
      · rfl
    · rfl
  · unfold pollDeadPeer
    split
    · exact hinit t.restartAttempt _ (fun _ => rfl)
    · rfl
  · unfold pollConfirm
    split
    · exact keepalive_flowPosts C t t.dropConfirm now out rng rfl
    · rfl
  · unfold pollPassive
    split
    · exact keepalive_flowPosts C t t.disarmPassive now out rng rfl
    · rfl

theorem pollPersistent_posts (C : ChaChaImpl) (t : Tunnel P) (now : Now) (out : List UInt8)
    (rng : Entropy) :
    let o := t.pollPersistent C now out rng
    Posts t.stats o.tunnel.stats (PollOutput.entries o.result) none := by
  unfold pollPersistent
  split
  · exact .nothing _
  split
  · rename_i hu
    split
    · exact keepalive_posts C t now out rng hu (fun _ => rfl)
    · exact .nothing _
  split
  · exact sendInitiation_posts t.clearGaveUp.restartAttempt now out rng (fun _ => rfl)
      (fun _ => rfl) true
  · exact .nothing _

theorem poll_posts (C : ChaChaImpl) (t : Tunnel P) (now : Now) (out : List UInt8)
    (rng : Entropy) :
    let o := t.poll C now out rng
    Posts t.stats o.tunnel.stats (PollOutput.entries o.result) none := by
  have h := pollTimers_posts C (t.observe now) (t.reading now) out rng
  unfold poll pollAt
  rw [clampNow_eq]
  dsimp only
  split
  · rename_i o ho
    rw [ho] at h
    exact h
  · rename_i u hu
    rw [hu] at h
    have h : u.stats = t.stats := h
    exact h ▸ pollPersistent_posts C u (t.reading now) out rng

/-! ## Receiving -/

def Booked (t : Tunnel P) (now : Ticks) (o : Outcome P Received) : Prop :=
  Posts t.stats o.tunnel.stats (Received.entries o.result)
    (if completes t o.tunnel o.result then some now else none)

theorem Booked.refused {t u : Tunnel P} {now : Ticks} {out : List UInt8} {rng : Entropy} {e : Error}
    (h : Posts t.stats u.stats e.entries none) : Booked t now ⟨u,out,rng,.error e⟩ := h

section Receive

variable (C : ChaChaImpl) (t : Tunnel P) (now : Now) (remote : List UInt8) (out : List UInt8)
  (rng : Entropy)

theorem replyCookie_booked (index : UInt32) (mac1 : Bytes 16) :
    Booked t now.ticks (t.replyCookie now remote index mac1 out rng) := by
  unfold replyCookie
  dsimp only
  split
  · rename_i e he
    refine .refused ?_
    rcases buildCookieReply_reported he with rfl | rfl <;> exact .nothing _
  · rename_i n hn
    obtain ⟨rfl,reply,_,ho,_⟩ := buildCookieReply_ok hn
    have hreply : replyEntries reply.encode = Counter.once .cookiesSent := by
      unfold replyEntries
      rw [parse_cookie_iff.mpr rfl]
    rw [ho,emit_front reply.encode_length]
    unfold Booked
    dsimp only [Received.entries]
    rw [hreply]
    exact countCookieSent_posts t _

theorem sharedSecret_entries {secret peer : Bytes 32} {e : Error}
    (h : sharedSecret P secret peer = .error e) : e.entries = Counter.once .authFailures := by
  rw [sharedSecret_eq] at h
  split at h
  · cases h
    rfl
  · cases h

theorem consumeInitiation_entries {K : HandshakeConstants} {localStatic localPublic : Bytes 32}
    {peerPublic ss : Bytes 32} {m : HandshakeInitiation} {e : Error}
    (h : consumeInitiation P K localStatic localPublic peerPublic ss m = .error e) :
    e.entries = Counter.once .authFailures := by
  unfold consumeInitiation at h
  dsimp only [bind,Except.bind] at h
  split at h
  · rename_i he
    cases h
    exact sharedSecret_entries he
  split at h
  · cases h
    rfl
  split at h
  · cases h
    rfl
  split at h
  · cases h
    rfl
  · cases h

theorem consumeResponse_entries {inflight : InFlightInitiation} {localStatic psk : Bytes 32}
    {m : HandshakeResponse} {e : Error}
    (h : consumeResponse P inflight localStatic psk m = .error e) :
    e.entries = Counter.once .authFailures := by
  unfold consumeResponse at h
  dsimp only [bind,Except.bind] at h
  split at h
  · rename_i he
    cases h
    exact sharedSecret_entries he
  split at h
  · rename_i he
    cases h
    exact sharedSecret_entries he
  split at h
  · cases h
    rfl
  · cases h

theorem receiveResponse_booked (underLoad : Bool) (m : HandshakeResponse) :
    Booked t now.ticks (t.receiveResponse now remote underLoad m out rng) := by
  unfold receiveResponse
  split
  · exact countMac1Failure_posts t
  split
  · exact Posts.nothing _
  split
  · exact replyCookie_booked t now remote out rng _ _
  split
  · rename_i e he
    exact .refused (consumeResponse_entries he ▸ countAuthFailure_posts t)
  · exact commitCompletion_posts t now.ticks _

theorem receiveCookieReply_booked (m : CookieReply) :
    Booked t now.ticks (t.receiveCookieReply now m out rng) := by
  unfold receiveCookieReply
  split
  · exact Posts.nothing _
  split
  · exact storeCookie_posts t _
  split
  · exact Posts.nothing _
  · exact countAuthFailure_posts t

theorem delivered_entries (plain : List UInt8) :
    Received.entries (.ok (delivered plain)) = .opened plain.length := by
  unfold delivered
  split
  · rename_i h
    rw [h]
    rfl
  · rfl

theorem completes_delivered (before after : Tunnel P) (plain : List UInt8) :
    completes before after (.ok (delivered plain)) =
      (before.next.isSome && after.next.isNone) := by
  unfold delivered
  split <;> rfl

theorem handleTransport_booked (m : TransportData) :
    Booked t now.ticks (t.handleTransport C now m out rng) := by
  cases hx : t.sessionWithIndex m.receiverIndex with
  | none => simpa only [handleTransport,hx] using Booked.refused (.nothing _)
  | some slot =>
    by_cases hn : rejectAfterMessages ≤ m.counter
    · simpa only [handleTransport,hx,hn,if_true] using Booked.refused (.nothing _)
    cases hs : t.slot slot with
    | none => simpa only [handleTransport,hx,hn,if_false,hs] using Booked.refused (.nothing _)
    | some s =>
      by_cases ha : rejectAfterTime ≤ s.age now.ticks
      · simpa only [handleTransport,hx,hn,if_false,hs,ha,if_true] using Booked.refused (.nothing _)
      cases hk : s.replay.check m.counter with
      | false =>
        simpa only [handleTransport,hx,hn,if_false,hs,ha,hk,Bool.not_false,if_true] using
          Booked.refused (countReplay_posts t)
      | true =>
        rw [handleTransport_opening now rng C hx hs (not_le.mp hn) (not_le.mp ha) hk]
        split
        · exact countAuthFailure_posts t
        split
        · exact Posts.nothing _
        split
        · exact countAuthFailure_posts t
        · unfold Booked
          dsimp only
          rw [delivered_entries,completes_delivered]
          exact commitTransport_posts now.ticks hs _ _

variable {t}

theorem answerInitiation_booked (hz : ZeroByPoint P) {m : HandshakeInitiation}
    {consumed : ConsumedInitiation}
    (hc : consumeInitiation P t.constants t.localStatic t.localPublic t.peerPublic
      t.precomputedSs m = .ok consumed) :
    Booked t now.ticks (t.answerInitiation now consumed out rng) := by
  obtain ⟨hes,_,hcons⟩ := (consumeInitiation_ok P).mp hc
  have hss : ctIsZero (P.x25519 t.localStatic t.peerPublic).toList = false := by
    have h := t.precomputedSs_eq
    rw [sharedSecret_eq] at h
    split at h
    · cases h
    · rename_i h0
      exact Bool.eq_false_iff.mpr h0
  rw [answerInitiation_eq]
  rcases hd : t.drawHandshake rng with ⟨e | ⟨index,eph⟩,rest⟩
  · rw [drawHandshake_error hd]
    exact Posts.nothing _
  dsimp only
  have hee : ctIsZero (responderView P consumed t.psk (clampScalar eph)).ee.toList = false := by
    rw [hcons]
    exact (hz _ _ _).trans hes
  have hse : ctIsZero (responderView P consumed t.psk (clampScalar eph)).se.toList = false := by
    rw [hcons]
    exact (hz _ _ _).trans hss
  obtain ⟨mac2,hp⟩ := parse_response_withMacs t now.ticks
    (responderView P consumed t.psk (clampScalar eph)) index consumed.peerIndex
  split
  · exact Posts.nothing _
  rw [if_neg (by simp [hee]),if_neg (by simp [hse])]
  unfold Booked
  dsimp only [Received.entries,replyEntries]
  rw [hp]
  exact commitResponse_posts t now.ticks _ _ _

theorem receiveInitiation_booked (hz : ZeroByPoint P) (underLoad : Bool)
    (m : HandshakeInitiation) :
    Booked t now.ticks (t.receiveInitiation now remote underLoad m out rng) := by
  unfold receiveInitiation
  split
  · exact countMac1Failure_posts t
  split
  · exact replyCookie_booked t now remote out rng _ _
  split
  · rename_i e he
    exact .refused (consumeInitiation_entries he ▸ countAuthFailure_posts t)
  · rename_i hc
    split
    · exact Posts.nothing _
    · exact answerInitiation_booked now out rng hz hc

theorem parse_entries {datagram : List UInt8} {e : Error} (h : parse datagram = .error e) :
    e.entries = 0 := by
  by_cases hw : WellFormed datagram
  · obtain ⟨p,hp⟩ := parse_of_wellFormed hw
    rw [hp] at h
    cases h
  · rw [parse_of_not_wellFormed hw] at h
    cases h
    rfl

theorem decapsulateAt_booked (hz : ZeroByPoint P) (underLoad : Bool) (datagram : List UInt8) :
    Booked t now.ticks (t.decapsulateAt C now remote underLoad datagram out rng) := by
  unfold decapsulateAt
  split
  · rename_i e he
    exact .refused (parse_entries he ▸ Posts.nothing _)
  · exact receiveInitiation_booked now remote out rng hz underLoad _
  · exact receiveResponse_booked t now remote out rng underLoad _
  · exact receiveCookieReply_booked t now out rng _
  · exact handleTransport_booked C t now out rng _

end Receive

end Tunnel

/-! ## Runs -/

open Machine

theorem step_posts (hz : ZeroByPoint P) (C : ChaChaImpl) (t : Tunnel P) (op : Op) :
    let x := advance (step C) t op
    Posts t.stats x.after.stats (x.output.entries (x.input.payloadLen.getD 0))
      (completedAt x) := by
  cases op with
  | encapsulate now payload out rng => exact t.encapsulate_posts C now out rng payload
  | decapsulate now remote underLoad datagram out rng =>
    have hb := (t.observe now).decapsulateAt_booked C (t.reading now) remote out rng hz underLoad
      datagram
    have hl := receipt_lastNow ((t.observe now).decapsulateAt_receipt C (t.reading now) remote
      datagram out underLoad rng)
    unfold Tunnel.Booked at hb
    rw [t.reading_ticks now,← hl] at hb
    simp only [advance,step,Tunnel.decapsulate,Tunnel.clampNow_eq]
    exact hb
  | poll now out rng => exact t.poll_posts C now out rng
  | initiateHandshake now out rng => exact t.initiateHandshake_posts now out rng
  | setMtu mtu => exact .nothing _
  | reset => exact .nothing _

theorem shipped_zeroByPoint : ZeroByPoint shipped := by
  have hz : ∀ secret u : Bytes 32, ctIsZero (shipped.x25519 secret u).toList =
      decide (X25519.coordinate u ∈ X25519.lowOrderCoordinates) := by
    intro secret u
    have hs : sharedSecret shipped secret u = _ := X25519.sharedSecret_eq shipped secret u
    unfold sharedSecret at hs
    split at hs <;> split at hs <;> simp_all
  intro a b u
  rw [hz,hz]

theorem withBackend_stats {config : Config} {t : Tunnel P} (h : withBackend P config = .ok t) :
    t.stats = Stats.default := by
  unfold withBackend at h
  dsimp only at h
  split at h
  · cases h
  split at h
  · cases h
  · obtain rfl := Except.ok.inj h
    rfl

/-- After any run the counters hold what the results of its calls add up to, as far as they
can count, and the time of the last handshake is that of the last call that completed one. -/
theorem stats_exact (arch : Arch) {config : Config} {t : Tunnel shipped}
    (h : withBackend shipped config = .ok t) (ops : List Op) :
    let u := final (step (Backend arch)) t ops
    let calls := history (step (Backend arch)) t ops
    (∀ c, u.stats.get c = min (calls.map (gain · c)).sum u64Max) ∧
      u.stats.lastHandshakeAt = (calls.filterMap completedAt).getLast? := by
  have h0 : t.stats = Stats.default := withBackend_stats h
  have hstep := step_posts shipped_zeroByPoint (Backend arch)
  refine ⟨fun c => ?_,?_⟩
  · have hc : t.stats.get c = 0 := by
      rw [h0]
      cases c <;> rfl
    have hr := history_saturates (step (Backend arch)) (fun t => t.stats.get c) (gain · c) u64Max t
      ops (hc ▸ Nat.zero_le _) (fun t op ht => (hstep t op).counters c ht)
    simpa only [hc,Nat.zero_add] using hr
  · have hr := history_latest (step (Backend arch)) (fun t => t.stats.lastHandshakeAt) completedAt
      t ops (fun t op => (hstep t op).latest)
    simpa only [h0,Stats.default,Option.or_none] using hr

def Counter.ofHandshake : Counter → Bool
  | .handshakesInitiated | .handshakesCompleted | .txTransport | .txKeepalives => true
  | _ => false

theorem handshake_gains {C : ChaChaImpl} {t t' t'' : Tunnel P} {one two three : Op}
    {w w' : List UInt8} (h1 : step C t one = (t',.encapsulated (.ok (.handshakeInitiation w))))
    (h2 : step C t' two = (t'',.decapsulated (.ok .handshakeComplete)))
    (h3 : (step C t'' three).2 = .polled (.ok (.send w' .keepalive))) :
    (∀ c, ((history (step C) t [one,two,three]).map (gain · c)).sum = c.ofHandshake.toNat) ∧
      (history (step C) t [one,two,three]).filterMap completedAt = [t''.lastNow] := by
  simp only [history,advance,List.map_cons,List.map_nil,List.filterMap_cons,List.filterMap_nil,
    gain,completedAt,h1,h2,h3,completes]
  refine ⟨fun c => ?_,rfl⟩
  cases c <;> rfl

theorem handshake_steps {a b : Tunnel P} (ha : a.Fresh) (hb : b.Fresh) (hC : Commutes P)
    (hZ : NeverZero P) (hx : Crossed a b) (hpsk : a.psk = b.psk) (C : ChaChaImpl) {now : Now}
    (hnow : now.ticks.Prompt) (payload : Payload) {out : List UInt8} {rng : Entropy}
    (hr : rng.Draws) (hout : handshakeInitiationLen ≤ out.length) :
    ∃ response t' t'' w w',
      step C a (.encapsulate now payload out rng) =
        (t',.encapsulated (.ok (.handshakeInitiation w))) ∧
      step C t' (.decapsulate now [] false response out []) =
        (t'',.decapsulated (.ok .handshakeComplete)) ∧
      (step C t'' (.poll now out [])).2 = .polled (.ok (.send w' .keepalive)) := by
  obtain ⟨t,now0,index,eph,hcall,hcalls,hid⟩ := ha.calls C hnow payload hr (hZ.peer · hx) hout
  have hxt : Crossed t b := hx.of_identity hid rfl
  obtain ⟨r,index',eph',-,-,hidr⟩ := hb.answers hC hZ hxt C hnow.early [] hr
    (hout.trans' (by decide)) now0 index eph
  have hxr : Crossed t r := hx.of_identity hid hidr
  obtain ⟨hdone,-,hlate,hconfirming⟩ := hcalls.completes hC hZ hxr (by rw [hid,hidr,hpsk]) C
    hnow.early [] out [] index' eph'
  obtain ⟨hpoll,-⟩ := hconfirming.confirms rfl C hlate [] (hout.trans' (by decide))
  exact ⟨r.responseWire (consumedOf t now0 eph index) index' eph',_,_,_,_,
    Prod.ext rfl (congrArg Output.encapsulated hcall),
    Prod.ext rfl (congrArg Output.decapsulated hdone),
    congrArg (fun o : Outcome P PollOutput => Output.polled o.result) hpoll⟩

/-- A payload starts a handshake at 0 s, the peer answers it and a poll confirms it. -/
theorem stats_exact_specimen :
    ∃ (t : Tunnel shipped) (response : List UInt8), withBackend shipped (specimenEnd 1 2) = .ok t ∧
      let now : Now := ⟨Ticks.zero,0,0⟩
      let out : List UInt8 := List.replicate 148 0
      let u := final (step (Backend .x8664)) t
        [.encapsulate now specimenPayload out (List.replicate 2 (some (fun _ => 0))),
          .decapsulate now [] false response out [],.poll now out []]
      (∀ c, u.stats.get c = c.ofHandshake.toNat) ∧ u.stats.lastHandshakeAt = some Ticks.zero := by
  obtain ⟨a,ha⟩ := withBackend_generated (specimenEnd 1 2) _ (specimenEnd_peer 1 2)
    (specimenEnd_peer 2 1 ▸ specimenEnd_distinct.symm)
  obtain ⟨b,hb⟩ := withBackend_generated (specimenEnd 2 1) _ (specimenEnd_peer 2 1)
    (specimenEnd_peer 1 2 ▸ specimenEnd_distinct)
  obtain ⟨hfa,hca⟩ := withBackend_ok ha
  obtain ⟨hfb,hcb⟩ := withBackend_ok hb
  let now : Now := ⟨Ticks.zero,0,0⟩
  let out : List UInt8 := List.replicate 148 0
  let rng : Entropy := List.replicate 2 (some (fun _ => 0))
  have hpsk : a.psk = b.psk := by
    have hnone : ∀ me peer, (specimenEnd me peer).psk = zeros 32 := fun _ _ => rfl
    rw [hca.psk,hcb.psk,hnone,hnone]
  obtain ⟨response,t',t'',_,_,h1,h2,h3⟩ := handshake_steps hfa hfb shipped_commutes
    shipped_neverZero (crossed_configured hca hcb (specimenEnd_peer 1 2) (specimenEnd_peer 2 1))
    hpsk (Backend .x8664) (show now.ticks.Prompt by decide) specimenPayload
    (show rng.Draws from ⟨_,_,[],rfl⟩)
    (show handshakeInitiationLen ≤ out.length from List.length_replicate.ge)
  obtain ⟨hgain,htimes⟩ := handshake_gains h1 h2 h3
  have hnow : t''.lastNow = Ticks.zero := by
    have hone : t'.lastNow = max a.lastNow Ticks.zero := by
      have h := (step_deed (Backend .x8664) a (.encapsulate now specimenPayload out rng)).lastNow
      rwa [h1] at h
    have htwo : t''.lastNow = max t'.lastNow Ticks.zero := by
      have h := (step_deed (Backend .x8664) t' (.decapsulate now [] false response out [])).lastNow
      rwa [h2] at h
    rw [htwo,hone,hfa.lastNow,max_self,max_self]
  obtain ⟨hcount,hlast⟩ := stats_exact .x8664 ha [.encapsulate now specimenPayload out rng,
    .decapsulate now [] false response out [],.poll now out []]
  refine ⟨a,response,ha,fun c => ?_,?_⟩
  · rw [hcount c,hgain c]
    cases c <;> rfl
  · rw [hlast,htimes,hnow]
    rfl

end WireGuard
