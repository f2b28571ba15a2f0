import WireGuard.Deadlines

/-!
# How old the keys of an idle tunnel can be

A poll wipes the sessions when the newest of all three is old enough, and an
unconfirmed next session counts among them. A peer that keeps starting
handshakes can therefore keep the keys of `current` and `previous` alive. They
are wiped in time as long as no initiation is answered too late.
-/

set_option autoImplicit false

namespace WireGuard
open ByteString Tunnel

variable {P : Primitives}

/-- When the younger of the current and the previous session was created. -/
def Tunnel.newestConfirmed (t : Tunnel P) : Option Ticks :=
  ([t.previous,t.current].filterMap (fun s => s.map Session.created)).max?

def answersInitiation (x : Transition P) : Bool :=
  match x.output with
  | .decapsulated (.ok (.reply wire)) =>
    match parse wire with
    | .ok (.handshakeResponse _) => true
    | _ => false
  | _ => false

/-- How much younger than `current` and `previous` the next session may be. -/
def shelterTime : ℕ := sessionDiscardTime-rejectAfterTime

/-- The next session is not much younger than the others. -/
def Sheltered (t : Tunnel P) : Prop :=
  ∀ n c, t.next = some n → t.newestConfirmed = some c → n.created.since c ≤ shelterTime

theorem newestConfirmed_congr {t t' : Tunnel P}
    (hp : t'.previous.map Session.created = t.previous.map Session.created)
    (hc : t'.current.map Session.created = t.current.map Session.created) :
    t'.newestConfirmed = t.newestConfirmed := by
  unfold newestConfirmed
  simp only [List.filterMap_cons,List.filterMap_nil,hp,hc]

theorem Sheltered.frame {t t' : Tunnel P} (h : Sheltered t)
    (hp : t'.previous.map Session.created = t.previous.map Session.created)
    (hc : t'.current.map Session.created = t.current.map Session.created)
    (hn : ∀ n', t'.next = some n' → ∃ n, t.next = some n ∧ n'.created = n.created) :
    Sheltered t' := by
  intro n' c hn' hc'
  obtain ⟨n,hnext,he⟩ := hn n' hn'
  rw [newestConfirmed_congr hp hc] at hc'
  rw [he]
  exact h n c hnext hc'

theorem Sheltered.tidied {t u : Tunnel P} (h : Sheltered t) (hu : Tidied t u) : Sheltered u := by
  refine h.frame (by rw [hu.previous]) (by rw [hu.current]) fun n hn => ⟨n,?_,rfl⟩
  rcases hu.next with he | ⟨he,_⟩
  · rw [← he]
    exact hn
  · rw [he] at hn
    cases hn

theorem Sheltered.seen {t : Tunnel P} (h : Sheltered t) (op : Op) : Sheltered (t.seen op) := by
  rw [t.seen_frame op]
  exact h

theorem created_le_newest {t : Tunnel P} {s : Session} {c : Ticks} (hs : t.current = some s)
    (hc : t.newestConfirmed = some c) : s.created ≤ c := by
  refine (List.max?_eq_some_iff.mp hc).2 s.created ?_
  simp [hs]

theorem Sheltered.complete {t : Tunnel P} (hp : Past t) (keys : SessionKeys) :
    Sheltered (t.commitCompletion t.lastNow keys) := by
  intro n c hn hc
  have hle : t.lastNow ≤ c := created_le_newest (t := t.commitCompletion t.lastNow keys) rfl hc
  have hold : n.created ≤ t.lastNow := hp.created .next n hn
  rw [Ticks.le_iff] at hle hold
  unfold Ticks.since
  omega

theorem Sheltered.accept {t : Tunnel P} (h : Sheltered t) {slot : Slot} {s : Session}
    (hs : t.slot slot = some s) (now : Ticks) (replay : ReplayWindow) (n : ℕ) :
    Sheltered (t.commitTransport now slot s replay n) := by
  have hslot := slot_commitTransport t now slot s replay n
  dsimp only at hslot
  cases hprom : s.promotedBy slot with
  | true =>
    rw [hprom] at hslot
    intro m c hm
    rw [show (t.commitTransport now slot s replay n).next = none from hslot .next] at hm
    cases hm
  | false =>
    rw [hprom] at hslot
    have hmap : ∀ a, ((t.commitTransport now slot s replay n).slot a).map Session.created =
        (t.slot a).map Session.created := by
      intro a
      rw [hslot a]
      by_cases ha : a = slot
      · subst ha
        simp [hs]
      · simp [slot_setSlot_ne t _ ha]
    refine h.frame (hmap .previous) (hmap .current) fun m hm => ?_
    have hnext : (t.commitTransport now slot s replay n).next.map Session.created =
      t.next.map Session.created := hmap .next
    rw [hm] at hnext
    obtain ⟨n',hn',he⟩ := Option.map_eq_some_iff.mp hnext.symm
    exact ⟨n',hn',he.symm⟩

theorem sheltered_step (C : ChaChaImpl) {t : Tunnel P} (h : Sheltered t) (hp : Past t) (op : Op)
    (hcond : answersInitiation (Machine.advance (step C) t op) = true →
      ∀ c, t.newestConfirmed = some c → (step C t op).1.lastNow.since c ≤ shelterTime) :
    Sheltered (step C t op).1 := by
  have hd := step_deed C t op
  have hs := h.seen op
  have hout : (Machine.advance (step C) t op).output = (step C t op).2 := rfl
  generalize (step C t op).1 = t' at hd hcond
  generalize (step C t op).2 = o at hd hout
  cases hd with
  | rested hu ho hop => exact hs.tidied hu
  | launched now index eph jitter hu ha h0 hw =>
    exact (hs.tidied hu).frame rfl rfl fun n hn => ⟨n,hn,rfl⟩
  | @posted _ u s plain hu hsu hc hw =>
    refine (hs.tidied hu).frame ?_ ?_ fun n hn => ⟨n,?_,rfl⟩
    · exact congrArg _ (slot_commitSeal u u.lastNow op.payloadLen .previous)
    · refine (congrArg _ (slot_commitSeal u u.lastNow op.payloadLen .current)).trans ?_
      simp [slot,takeCounter,Function.comp_def]
    · exact (slot_commitSeal u u.lastNow op.payloadLen .next).symm.trans hn
  | discarded hu ho =>
    intro n c hn
    cases hn
  | abandoned hu hr => exact (hs.tidied hu).frame rfl rfl fun n hn => ⟨n,hn,rfl⟩
  | received now remote underLoad datagram out rng hop hr hok =>
    have hs : Sheltered (t.observe now) := h
    cases hr with
    | rejected t' rest e ht =>
      obtain ⟨y,hy⟩ := hok
      cases hy
    | cookieReply index mac1 reply r hr hn ho => exact hs
    | stored cookie => exact hs
    | completed m inflight keys hm hmac hi hx hk => exact Sheltered.complete (hp.observe now) keys
    | accepted m slot s plain hm hx hsl hn ha hk ho => exact hs.accept hsl _ _ _
    | answered m consumed index eph rest hm hmac hc hts hdr =>
      obtain ⟨mac2,hparse⟩ := parse_response_withMacs (t.observe now) (t.reading now).ticks
        (responderView P consumed (t.observe now).psk (clampScalar eph)) index consumed.peerIndex
      have hans : answersInitiation (Machine.advance (step C) t op) = true := by
        unfold answersInitiation
        rw [hout]
        simp only [hparse]
      intro n c hn hcn
      obtain rfl := Option.some.inj hn
      exact hcond hans c hcn

theorem young_of_settled {t : Tunnel P} {now c : Ticks} (hs : t.Settled now) (h : Sheltered t)
    (hc : t.newestConfirmed = some c) : now.since c < sessionDiscardTime := by
  cases hn : t.next with
  | none =>
    refine hs.discard c (Eq.trans ?_ hc)
    unfold newestSessionCreated newestConfirmed
    rw [hn]
    simp only [List.filterMap_cons,List.filterMap_nil,Option.map_none]
  | some n =>
    have hage : now.nanos-n.created.nanos < rejectAfterTime := hs.next n hn
    have hsh : n.created.nanos-c.nanos ≤ shelterTime := h n c hn hc
    have hsum : shelterTime+rejectAfterTime = sessionDiscardTime := by decide
    unfold Ticks.since
    omega

/-- In a run that answers initiations only while the younger of the current and
the previous session is at most `shelterTime` old, an idle poll leaves none of
their keys beyond the discard time. -/
theorem idle_leaves_no_old_keys (C : ChaChaImpl) {config : Config} {t : Tunnel P}
    (ht : withBackend P config = .ok t) (ops : List Op)
    (hcond : ∀ x ∈ run C t ops, answersInitiation x = true →
      ∀ c, x.before.newestConfirmed = some c → x.after.lastNow.since c ≤ shelterTime)
    (now : Now) (out : List UInt8) (rng : Entropy) :
    let u := Machine.final (step C) t ops
    (u.poll C now out rng).result = .ok .idle →
    ∀ c, (u.poll C now out rng).tunnel.newestConfirmed = some c →
      (u.observe now).lastNow.since c < sessionDiscardTime := by
  intro u hidle c hc
  have hinv := Machine.history_invariant (step C) t
    (fun h v => Past v ∧ ((∀ x ∈ h, answersInitiation x = true →
      ∀ c, x.before.newestConfirmed = some c → x.after.lastNow.since c ≤ shelterTime) →
      Sheltered v)) ?_ ?_ ops
  · obtain ⟨htun,hpass,_⟩ := (poll_polled C u now out rng).of_idle hidle
    have hsh : Sheltered (u.observe now) := hinv.2 hcond
    rw [htun] at hc
    exact young_of_settled (settle_settled hpass) (hsh.tidied (tidied_settle hpass)) hc
  · refine ⟨past_reachable (C := C) ht ⟨[],rfl⟩,fun _ n c hn => ?_⟩
    rw [(withBackend_ok ht).1.next] at hn
    cases hn
  · rintro h v op ⟨hp,hs⟩
    refine ⟨past_step hp op,fun hall => ?_⟩
    refine sheltered_step C (hs fun x hx => hall x (List.mem_append_left _ hx)) hp op ?_
    exact hall (Machine.advance (step C) v op) (by simp)

/-- An initiation of the peer of the specimen: nothing in the suite conceals what
is sealed, so the peer's key and the timestamp stand in the clear. -/
def specimenInitiation : List UInt8 :=
  [1,0,0,0] ++ List.replicate 36 9 ++ specimenTunnel.peerPublic.toList ++ List.replicate 16 0 ++
    List.replicate 12 1 ++ List.replicate 48 0

/-- A session at 0 s, and an initiation of the peer that arrives at the given
second and is answered. -/
def specimenRefresh (seconds : ℕ) (h : seconds*second ≤ u64Max) : List Op :=
  specimenOps.take 2 ++ [.decapsulate ⟨⟨seconds*second,h⟩,0,0⟩ [] false specimenInitiation
    (List.replicate 148 0) (List.replicate 2 (some (fun _ => 3)))]

theorem idle_leaves_no_old_keys_specimen :
    let u := Machine.final (step (scalar specimen)) specimenTunnel (specimenRefresh 300 (by decide))
    let now : Now := ⟨⟨400*second,by decide⟩,0,0⟩
    (u.poll (scalar specimen) now [] []).result = .ok .idle ∧
      (u.poll (scalar specimen) now [] []).tunnel.next.isSome = true ∧
    ∀ c, (u.poll (scalar specimen) now [] []).tunnel.newestConfirmed = some c →
      (u.observe now).lastNow.since c < sessionDiscardTime :=
  ⟨by decide +kernel,by decide +kernel,idle_leaves_no_old_keys (scalar specimen)
    (withBackend_build (by decide +kernel)) (specimenRefresh 300 (by decide)) (by decide +kernel)
    ⟨⟨400*second,by decide⟩,0,0⟩ [] [] (by decide +kernel)⟩

/-- An initiation that is answered at 400 s keeps the session of 0 s past its
time: a poll at 570 s is idle and the session is still there. -/
theorem late_initiation_shelters_old_keys :
    let u := Machine.final (step (scalar specimen)) specimenTunnel (specimenRefresh 400 (by decide))
    let now : Now := ⟨⟨570*second,by decide⟩,0,0⟩
    (u.poll (scalar specimen) now [] []).result = .ok .idle ∧
      (u.poll (scalar specimen) now [] []).tunnel.newestConfirmed = some Ticks.zero ∧
      sessionDiscardTime ≤ (u.observe now).lastNow.since Ticks.zero := by
  refine ⟨by decide +kernel,by decide +kernel,by decide +kernel⟩

end WireGuard
