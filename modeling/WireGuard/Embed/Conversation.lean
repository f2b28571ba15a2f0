import Mathlib.Data.Finset.Insert
import WireGuard.Buffers
import WireGuard.Embed.Queue
import WireGuard.Past
import WireGuard.PollBlocks
import WireGuard.Recovery

/-!
# A conversation on one session

One end seals payload after payload, the other takes the messages in the order in
which they were sealed. Between two messages each end keeps one number: how many
have gone by.
-/

set_option autoImplicit false

namespace WireGuard
open ByteString Tunnel

variable {P : Primitives}

/-- A clock at which no session can be too old. -/
def Ticks.Early (now : Ticks) : Prop := now.nanos < rejectAfterTime

instance (now : Ticks) : Decidable now.Early := inferInstanceAs (Decidable (_ < _))

theorem Ticks.Early.max {a b : Ticks} (ha : a.Early) (hb : b.Early) : (max a b).Early := by
  rcases max_choice a b with h | h
  · rwa [h]
  · rwa [h]

theorem Ticks.Early.age {now : Ticks} (h : now.Early) (s : Session) :
    s.age now < rejectAfterTime :=
  (Nat.sub_le _ _).trans_lt h

/-- A clock at which no attempt can have lasted too long. -/
def Ticks.Prompt (now : Ticks) : Prop := now.nanos < rekeyAttemptTime

instance (now : Ticks) : Decidable now.Prompt := inferInstanceAs (Decidable (_ < _))

theorem Ticks.Prompt.early {now : Ticks} (h : now.Prompt) : now.Early :=
  h.trans (by decide)

theorem Ticks.Prompt.max {a b : Ticks} (ha : a.Prompt) (hb : b.Prompt) : (max a b).Prompt := by
  rcases max_choice a b with h | h
  · rwa [h]
  · rwa [h]

/-! ## The sender -/

/-- The current session holds `keys` and has sealed `n` messages. -/
structure Speaks (t : Tunnel P) (keys : SessionKeys) (n : ℕ) : Prop where
  early : t.lastNow.Early
  session : ∃ s, t.current = some s ∧ s.keys = keys ∧ s.confirmed = true ∧ s.sendCounter = n

namespace Speaks

variable {t : Tunnel P} {keys : SessionKeys} {n : ℕ}

theorem usable (h : Speaks t keys n) (hn : n < rejectAfterMessages) {now : Ticks}
    (hnow : now.Early) : t.currentUsable now = true := by
  obtain ⟨s,hc,rfl,hs,rfl⟩ := h.session
  simp only [currentUsable,hc]
  exact Session.usableForSend_iff.mpr ⟨hs,hn,hnow.age s⟩

theorem commitSeal (h : Speaks t keys n) (now : Ticks) (payloadLen : Option ℕ) :
    Speaks (t.commitSeal now payloadLen) keys (n+1) := by
  obtain ⟨s,hc,hk,hs,rfl⟩ := h.session
  refine ⟨?_,{s with sendCounter := s.sendCounter+1},?_,hk,hs,rfl⟩
  · rw [commitSeal_frame]
    exact h.early
  · refine (slot_commitSeal t now payloadLen .current).trans ?_
    rw [takeCounter_eq hc]
    rfl

theorem sends (h : Speaks t keys n) (C : ChaChaImpl) (hn : n < rejectAfterMessages) {now : Now}
    (hnow : now.ticks.Early) (payload : Payload) {out : List UInt8} (rng : Entropy)
    (hout : payload.val.length+47 ≤ out.length) :
    (t.encapsulate C now payload out rng).result =
        .ok (.transport (letter P C keys n (t.stage payload))) ∧
      Speaks (t.encapsulate C now payload out rng).tunnel keys (n+1) ∧
      (t.encapsulate C now payload out rng).tunnel.mtu = t.mtu := by
  have hlate : (t.reading now).ticks.Early := h.early.max hnow
  obtain ⟨s,hc,he⟩ := encapsulate_usable C payload out rng (h.usable hn hlate)
  have hp := paddedLen_le payload.val.length t.mtu
  have hov : transportOverhead = 32 := rfl
  rw [if_neg (by omega)] at he
  obtain ⟨s',hc',rfl,hs,rfl⟩ := h.session
  obtain rfl := Option.some.inj (hc.symm.trans hc')
  have ho : Speaks (t.observe now) s.keys s.sendCounter := ⟨hlate,s,hc,rfl,hs,rfl⟩
  rw [he]
  dsimp only
  exact ⟨rfl,ho.commitSeal _ _,commitSeal_mtu _ _ _⟩

end Speaks

/-! ## The receiver -/

/-- The only session is in `slot`, holds `keys` and has accepted the messages in `seen`,
which a window spans. In the place of an answered handshake it is still unconfirmed. -/
structure Listens (t : Tunnel P) (slot : Slot) (keys : SessionKeys) (seen : Finset ℕ) : Prop where
  early : t.lastNow.Early
  front : slot ≠ .previous
  alone : ∀ k, k ≠ slot → t.slot k = none
  near : ∀ c ∈ seen, c < windowBits
  session : ∃ s, t.slot slot = some s ∧ s.keys = keys ∧ s.replay.Tracks seen ∧
    (slot = .next → s.confirmed = false)

theorem windowBits_le : windowBits ≤ rejectAfterMessages := by decide

namespace Listens

variable {t : Tunnel P} {slot : Slot} {keys : SessionKeys} {seen : Finset ℕ} {c : ℕ}

theorem observe (h : Listens t slot keys seen) {now : Now} (hnow : now.ticks.Early) :
    Listens (t.observe now) slot keys seen :=
  ⟨h.early.max hnow,h.front,h.alone,h.near,h.session⟩

theorem check_iff (h : Listens t slot keys seen) {r : ReplayWindow} (hr : r.Tracks seen)
    (hc : c < windowBits) : r.check c = true ↔ c ∉ seen := by
  rw [ReplayWindow.check_iff hr]
  constructor
  · exact fun ha hm => ha.2.1 hm
  · intro hn
    exact ⟨hc.trans_le windowBits_le,hn,fun g hg => (h.near g hg).trans_le (Nat.le_add_left _ _)⟩

theorem commitTransport (h : Listens t slot keys seen) (hc : c < windowBits) (hn : c ∉ seen)
    {s : Session} (hs : t.slot slot = some s) (now : Ticks) (len : ℕ) :
    Listens (t.commitTransport now slot s (s.replay.accept c).1 len) .current keys
      (insert c seen) := by
  obtain ⟨s',hs',hk,hr,hnext⟩ := h.session
  obtain rfl := Option.some.inj (hs.symm.trans hs')
  have ha := h.alone
  have htracks := ReplayWindow.tracks_accept hr ((h.check_iff hr hc).mpr hn)
  rw [← Finset.coe_insert] at htracks
  refine ⟨?_,by decide,?_,?_,?_⟩
  · rw [commitTransport_lastNow]
    exact h.early
  · intro k hk
    rw [slot_commitTransport]
    cases slot with
    | next =>
      simp only [Session.promotedBy,hnext rfl]
      cases k with
      | next => rfl
      | previous => exact ha .current (by decide)
      | current => exact absurd rfl hk
    | current =>
      simp only [Session.promotedBy,Bool.and_eq_true,beq_iff_eq,reduceCtorEq,and_false,if_false]
      rw [slot_setSlot_ne t _ hk]
      exact ha k hk
    | previous => exact absurd rfl h.front
  · intro d hd
    rcases Finset.mem_insert.mp hd with rfl | hd
    · exact hc
    · exact h.near d hd
  · refine ⟨{s with replay := (s.replay.accept c).1, confirmed := true},?_,hk,htracks,by simp⟩
    rw [slot_commitTransport]
    cases slot with
    | next => simp [Session.promotedBy,hnext rfl,promote,Tunnel.slot,setSlot]
    | current => simp [Session.promotedBy,Tunnel.slot,setSlot]
    | previous => exact absurd rfl h.front

section Receive

variable {C D : ChaChaImpl} {theirs : SessionKeys} {now : Now} {remote : List UInt8}
  {underLoad : Bool} {plain out : List UInt8} {rng : Entropy}

end Receive

end Listens

/-! ## The handshake that opens it -/

def Tunnel.initiationWire (t : Tunnel P) (now : Now) (index : UInt32) (eph : Bytes 32) :
    List UInt8 :=
  t.withMacs t.lastNow ((t.initiationView now eph).alpha index)

def Tunnel.responseWire (r : Tunnel P) (consumed : ConsumedInitiation) (index : UInt32)
    (eph : Bytes 32) : List UInt8 :=
  r.withMacs r.lastNow (r.answerAlpha consumed index eph)

/-- The source of entropy gives two draws. -/
def Entropy.Draws (rng : Entropy) : Prop := ∃ f g rest, rng = some f::some g::rest

theorem Tunnel.Fresh.draws {t : Tunnel P} (h : t.Fresh) {rng : Entropy} (hr : rng.Draws) :
    ∃ index eph rest, t.drawHandshake rng = (.ok (index,eph),rest) := by
  obtain ⟨f,g,rest,rfl⟩ := hr
  have hclash : ∀ i, t.indexClash i = false := by
    intro i
    simp [indexClash,sessionWithIndex,inflightHas,holds,h.next,h.current,h.previous,h.inflight]
  simp [drawHandshake,freshIndex,freshIndexLoop,Entropy.fill,Entropy.gen32,hclash]

/-- Nothing has happened but that the initiation of `t` is under way. -/
structure Calls (a t : Tunnel P) (now : Now) (index : UInt32) (eph : Bytes 32) : Prop where
  prompt : a.lastNow.Prompt
  identity : a.toIdentity = t.toIdentity
  inflight : a.inflight = some (t.initiationState now index eph)
  slots : ∀ k, a.slot k = none
  quiet : a.timers.lastDataTx = none

theorem Tunnel.Fresh.calls {a : Tunnel P} (h : a.Fresh) (C : ChaChaImpl) {now : Now}
    (hnow : now.ticks.Prompt) (payload : Payload) {out : List UInt8} {rng : Entropy}
    (hr : rng.Draws) (hz : ∀ b, ctIsZero (P.x25519 b a.peerPublic).toList = false)
    (hout : handshakeInitiationLen ≤ out.length) :
    ∃ t now0 index eph,
      (a.encapsulate C now payload out rng).result =
        .ok (.handshakeInitiation (t.initiationWire now0 index eph)) ∧
      Calls (a.encapsulate C now payload out rng).tunnel t now0 index eph ∧
      t.toIdentity = a.toIdentity := by
  obtain ⟨index,eph,rest,hd⟩ := h.draws hr
  let t := (a.observe now).clearGaveUp.restartAttempt
  have hdraw : t.drawHandshake rng = (.ok (index,eph),rest) := by
    rw [drawHandshake_congr (t := a) (u := t) (fun _ => rfl),hd]
  have hu : a.currentUsable (a.reading now).ticks = false := by
    simp only [currentUsable,h.current]
  have hallowed : (a.observe now).clearGaveUp.timers.initiationAllowed (a.reading now).ticks =
      true := by
    have hl : (a.observe now).clearGaveUp.timers.lastInitiationTx = none :=
      congrArg Timers.lastInitiationTx h.timers
    simp only [Timers.initiationAllowed,hl]
  have hsome : (a.observe now).clearGaveUp.inflight.isSome = false :=
    congrArg Option.isSome h.inflight
  have he : a.encapsulate C now payload out rng = _ := encapsulate_unusable hu
  rw [encapsulateStart_eq hsome hallowed,sendInitiation_eq,hdraw] at he
  dsimp only at he
  rw [if_neg (not_lt.mpr hout),if_neg (by rw [Bool.not_eq_true]; exact hz _)] at he
  rw [he,emit_front]
  · refine ⟨t,a.reading now,index,eph,rfl,⟨?_,rfl,rfl,?_,?_⟩,rfl⟩
    · exact (show a.lastNow.Prompt by rw [h.lastNow]; decide).max hnow
    · intro k
      cases k with
      | next => exact h.next
      | current => exact h.current
      | previous => exact h.previous
    · exact congrArg Timers.lastDataTx h.timers
  · simp [handshakeInitiationLen]

theorem Calls.waits {a t : Tunnel P} {now0 : Now} {index : UInt32} {eph : Bytes 32}
    (h : Calls a t now0 index eph) (C : ChaChaImpl) {now : Now} (hnow : now.ticks.Prompt)
    (payload : Payload) (out : List UInt8) (rng : Entropy) :
    (a.encapsulate C now payload out rng).result = .error .notEstablished ∧
      Calls (a.encapsulate C now payload out rng).tunnel t now0 index eph := by
  have hu : a.currentUsable (a.reading now).ticks = false := by
    have hc : a.current = none := h.slots .current
    simp only [currentUsable,hc]
  have hsome : (a.observe now).clearGaveUp.inflight.isSome = true :=
    congrArg Option.isSome h.inflight
  have he : a.encapsulate C now payload out rng = _ := encapsulate_unusable hu
  unfold encapsulateStart at he
  rw [if_pos hsome] at he
  rw [he]
  exact ⟨rfl,h.prompt.max hnow,h.identity,h.inflight,h.slots,h.quiet⟩

section Retry

variable {a t : Tunnel P} {now0 : Now} {index : UInt32} {eph : Bytes 32} {now : Now}

theorem Calls.observe (h : Calls a t now0 index eph) (hnow : now.ticks.Prompt) :
    Calls (a.observe now) t now0 index eph :=
  ⟨h.prompt.max hnow,h.identity,h.inflight,h.slots,h.quiet⟩

theorem Calls.retries (h : Calls a t now0 index eph) (hnow : now.ticks = a.lastNow)
    (out : List UInt8) (rng : Entropy) (f : List UInt8 → PollOutput) :
    let o := (a.sendInitiation now out rng true).emit f
    (∃ t' now' index' eph', o.result = .ok (f (Tunnel.initiationWire t' now' index' eph')) ∧
      Calls o.tunnel t' now' index' eph') ∨
    (∃ e, o.result = .error e) ∧ Calls o.tunnel t now0 index eph := by
  intro o
  have ho : o = (a.sendInitiation now out rng true).emit f := rfl
  rw [sendInitiation_eq] at ho
  rcases hd : a.drawHandshake rng with ⟨e | ⟨index',eph'⟩,rest⟩
  · rw [hd] at ho
    rw [ho]
    exact .inr ⟨⟨e,rfl⟩,h⟩
  · rw [hd] at ho
    dsimp only at ho
    split at ho
    · rw [ho]
      exact .inr ⟨⟨_,rfl⟩,h⟩
    split at ho
    · rw [ho]
      exact .inr ⟨⟨_,rfl⟩,h⟩
    · rw [emit_front (by simp [handshakeInitiationLen])] at ho
      rw [ho]
      refine .inl ⟨a,now,index',eph',?_,h.prompt,rfl,rfl,h.slots,h.quiet⟩
      rw [hnow]
      rfl

theorem Calls.unusable (h : Calls a t now0 index eph) (now : Ticks) :
    a.currentUsable now = false := by
  have hc : a.current = none := h.slots .current
  simp only [currentUsable,hc]

theorem Calls.pending (h : Calls a t now0 index eph) : a.inflight ≠ none := by
  rw [h.inflight]
  exact Option.some_ne_none _

theorem Calls.newest (h : Calls a t now0 index eph) : a.newestSessionCreated = none := by
  have hn : a.next = none := h.slots .next
  have hc : a.current = none := h.slots .current
  have hp : a.previous = none := h.slots .previous
  simp [newestSessionCreated,hn,hc,hp]

theorem Calls.expireNext (h : Calls a t now0 index eph) (now : Ticks) :
    a.expireNext now = a := by
  have hn : a.next = none := h.slots .next
  simp only [Tunnel.expireNext,hn]

theorem Calls.settle (h : Calls a t now0 index eph) (now : Ticks) :
    Calls (a.settle now) t now0 index eph := by
  rw [settle_eq,h.expireNext]
  exact ⟨h.prompt,h.identity,h.inflight,fun k => Eq.trans (by cases k <;> rfl) (h.slots k),h.quiet⟩

theorem Calls.pollPersistent (h : Calls a t now0 index eph) (C : ChaChaImpl) (now : Now)
    (out : List UInt8) (rng : Entropy) :
    a.pollPersistent C now out rng = ⟨a,out,rng,.ok .idle⟩ := by
  have hi : a.inflight.isNone = false := by
    rw [h.inflight]
    rfl
  unfold Tunnel.pollPersistent
  split
  · rfl
  · simp only [h.unusable,hi,Bool.false_and,Bool.false_eq_true,if_false]

theorem Calls.polls (h : Calls a t now0 index eph) (C : ChaChaImpl)
    (hnow : now.ticks.Prompt) (out : List UInt8) (rng : Entropy) :
    let o := a.poll C now out rng
    (∃ t' now' index' eph' reason,
      o.result = .ok (.send (Tunnel.initiationWire t' now' index' eph') reason) ∧
      Calls o.tunnel t' now' index' eph') ∨
    (o.result = .ok .idle ∨ ∃ e, o.result = .error e) ∧ Calls o.tunnel t now0 index eph := by
  have ho := h.observe hnow
  intro o
  have hoe : o = (a.observe now).pollAt C (a.reading now) out rng := by
    unfold o poll
    rw [clampNow_eq]
  unfold pollAt at hoe
  cases hd : (a.observe now).retransmitDue (a.reading now).ticks with
  | true =>
    have hex : (a.observe now).timers.attemptExhausted (a.reading now).ticks = false := by
      unfold Timers.attemptExhausted
      split
      · rfl
      · refine decide_eq_false fun hle => ?_
        exact absurd (hle.trans (Nat.sub_le _ _)) (not_le.mpr ho.prompt)
    have hdiscard : (a.observe now).pollDiscard (a.reading now) out rng =
        .next (a.observe now) :=
      pollDiscard_next.mpr ⟨rfl,by simp [ho.newest]⟩
    have htimers : (a.observe now).pollTimers C (a.reading now) out rng =
        .done (((a.observe now).sendInitiation (a.reading now) out rng true).emit
          (fun w => .send w .handshakeRetransmit)) := by
      unfold pollTimers
      simp only [Flow.andThen,ho.expireNext,hdiscard,pollRetransmit,hd,hex,if_true,
        Bool.false_eq_true,if_false]
    rw [htimers] at hoe
    rcases ho.retries (show (a.reading now).ticks = _ from rfl) out rng
      (fun w => .send w .handshakeRetransmit) with ⟨t',now',index',eph',hr,hc⟩ | ⟨hr,hc⟩
    · rw [hoe]
      exact .inl ⟨t',now',index',eph',_,hr,hc⟩
    · rw [hoe]
      exact .inr ⟨.inr hr,hc⟩
  | false =>
    have hpassed : (a.observe now).Passed (a.reading now).ticks :=
      ⟨by simp [ho.expireNext,ho.newest],hd,fun _ hi => absurd hi ho.pending,
        fun hi => absurd hi ho.pending,fun _ => ho.unusable _,fun _ => ho.unusable _⟩
    rw [pollTimers_next.mpr ⟨rfl,hpassed⟩] at hoe
    dsimp only at hoe
    rw [(ho.settle _).pollPersistent] at hoe
    rw [hoe]
    exact .inr ⟨.inl rfl,ho.settle _⟩

end Retry

theorem Tunnel.Fresh.answers {b t : Tunnel P} (h : b.Fresh) (hC : Commutes P) (hZ : NeverZero P)
    (hx : Crossed t b) (D : ChaChaImpl) {now : Now} (hnow : now.ticks.Early)
    {out : List UInt8} (remote : List UInt8) {rng : Entropy} (hr : rng.Draws)
    (hout : handshakeResponseLen ≤ out.length) (now0 : Now) (index : UInt32) (eph : Bytes 32) :
    let o := b.decapsulate D now remote false (t.initiationWire now0 index eph) out rng
    ∃ r index' eph',
      o.result = .ok (.reply (Tunnel.responseWire r (consumedOf t now0 eph index) index' eph')) ∧
      Listens o.tunnel .next (r.answerKeys (consumedOf t now0 eph index) index' eph') ∅ ∧
      r.toIdentity = b.toIdentity := by
  intro o
  let r := b.observe now
  obtain ⟨index',eph',rest,hd⟩ := h.draws hr
  have hdraw : (r.drawHandshake rng).1 = .ok (index',eph') := by
    rw [drawHandshake_congr (t := b) (u := r) (fun _ => rfl),hd]
  have hseen : r.timestampSeen (t.nextTimestamp now0) = false := by
    have hg : r.greatestTimestamp = none := h.greatestTimestamp
    simp only [timestampSeen,hg]
  obtain ⟨m,hstep⟩ := peer_answers now0 index eph D hC hZ (r := r) ⟨hx.peer,hx.back⟩ remote
    (le_max_right _ _) hseen hdraw hout
  rw [← step_decapsulate_observe] at hstep
  have ht : o.tunnel = (Act.respond m (consumedOf t now0 eph index) index' eph').apply r :=
    congrArg Prod.fst hstep
  refine ⟨r,index',eph',Output.decapsulated.inj (congrArg Prod.snd hstep),?_,rfl⟩
  rw [ht]
  refine ⟨?_,by decide,?_,by simp,_,rfl,rfl,?_,fun _ => rfl⟩
  · exact (show b.lastNow.Early by rw [h.lastNow]; decide).max hnow
  · intro k hk
    cases k with
    | next => exact absurd rfl hk
    | current => exact h.current
    | previous => exact h.previous
  · rw [Finset.coe_empty]
    exact ReplayWindow.tracks_new

/-- A handshake has just been completed, and its confirmation is due. -/
structure Confirming (t : Tunnel P) (keys : SessionKeys) : Prop where
  early : t.lastNow.Early
  session : ∃ tag, t.current = some (Session.new keys t.lastNow tag)
  next : t.next = none
  previous : t.previous = none
  inflight : t.inflight = none
  quiet : t.timers.lastDataTx = none
  rekey : t.timers.rekeyDue = false
  confirm : t.timers.confirmKeepaliveDue = true

theorem Calls.completes {a t r : Tunnel P} {now0 : Now} {index : UInt32} {eph : Bytes 32}
    (h : Calls a t now0 index eph) (hC : Commutes P) (hZ : NeverZero P) (hx : Crossed t r)
    (hpsk : t.psk = r.psk) (C : ChaChaImpl) {now : Now} (hnow : now.ticks.Early)
    (remote out : List UInt8) (rng : Entropy) (index' : UInt32) (eph' : Bytes 32) :
    let o := a.decapsulate C now remote false
      (r.responseWire (consumedOf t now0 eph index) index' eph') out rng
    o.result = .ok .handshakeComplete ∧ o.out = out ∧ now.ticks ≤ o.tunnel.lastNow ∧
      Confirming o.tunnel (completedKeys t r now0 index index' eph eph') := by
  obtain ⟨m,hstep⟩ := initiator_completes now0 index eph C hC hZ hx (a := a.observe now)
    h.identity h.inflight hpsk remote out rng index' eph' (le_max_right _ _)
  rw [← step_decapsulate_observe] at hstep
  intro o
  have hr : o.result = .ok .handshakeComplete :=
    Output.decapsulated.inj (congrArg Prod.snd hstep)
  have ht : o.tunnel = (Act.complete m (completedKeys t r now0 index index' eph eph')).apply
      (a.observe now) := congrArg Prod.fst hstep
  have hout : o.out = written Received.bytes o.result++
      out.drop (written Received.bytes o.result).length :=
    ((decapsulate_blind a now remote rng C false _).holds out (Nat.zero_le _)).2
  refine ⟨hr,?_,?_,?_⟩
  · rw [hout,hr]
    rfl
  · rw [ht]
    exact le_max_right _ _
  · rw [ht]
    exact ⟨h.prompt.early.max hnow,⟨_,rfl⟩,h.slots .next,h.slots .current,rfl,h.quiet,rfl,rfl⟩

theorem Confirming.confirms {t : Tunnel P} {keys : SessionKeys} (h : Confirming t keys)
    (hi : keys.isInitiator = true) (C : ChaChaImpl) {now : Now} (hnow : now.ticks ≤ t.lastNow)
    {out : List UInt8} (rng : Entropy) (hout : transportOverhead ≤ out.length) :
    t.poll C now out rng = ⟨t.commitSeal t.lastNow none,
        letter P C keys 0 []++out.drop transportOverhead,rng,
        .ok (.send (letter P C keys 0 []) .keepalive)⟩ ∧
      Speaks (t.commitSeal t.lastNow none) keys 1 := by
  obtain ⟨tag,hc⟩ := h.session
  have hs : Speaks t keys 0 := ⟨h.early,_,hc,rfl,hi,rfl⟩
  have hpos : 0 < rejectAfterMessages := by decide
  have hread : (t.reading now).ticks = t.lastNow := reading_of_le hnow
  have hu : t.currentUsable (t.reading now).ticks = true := by
    rw [hread]
    exact hs.usable hpos h.early
  have hnewest : ∀ c, t.newestSessionCreated = some c →
      (t.reading now).ticks.since c < sessionDiscardTime := by
    intro c hn
    simp only [newestSessionCreated,h.next,h.previous,hc,Session.new] at hn
    obtain rfl := Option.some.inj (show some t.lastNow = some c by simpa using hn)
    rw [hread,Ticks.since,Nat.sub_self]
    decide
  -- every block in front of the confirmation is passed and leaves the tunnel as it is
  have hexpire : t.expireNext (t.reading now).ticks = t := by
    simp only [expireNext,h.next]
  have hdiscard : t.pollDiscard (t.reading now) out rng = .next t :=
    pollDiscard_next.mpr ⟨rfl,hnewest⟩
  have hretransmit : t.pollRetransmit (t.reading now) out rng = .next t :=
    pollRetransmit_next.mpr ⟨rfl,by simp [retransmitDue,h.inflight]⟩
  have hrekey : t.pollRekey (t.reading now) out rng = .next t :=
    pollRekey_next.mpr ⟨eq_afterRekey (by simp [h.rekey]),fun hd => by simp [h.rekey] at hd⟩
  have hdead : t.pollDeadPeer (t.reading now) out rng = .next t :=
    pollDeadPeer_next.mpr ⟨rfl,fun _ hd => by simp [Timers.deadPeerDue,h.quiet] at hd⟩
  have hkeep := sendKeepalive_eq C (t.reading now) out rng hc hpos
  rw [if_neg (not_lt.mpr hout),hread] at hkeep
  refine ⟨?_,hs.commitSeal _ _⟩
  unfold poll pollAt pollTimers
  rw [clampNow_eq,observe_of_le hnow]
  simp only [Flow.andThen,hexpire,hdiscard,hretransmit,hrekey,hdead,pollConfirm,h.confirm,hu,
    if_true,hkeep]
  rfl

end WireGuard
