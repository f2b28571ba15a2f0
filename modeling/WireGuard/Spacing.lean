import WireGuard.Deeds
import WireGuard.Wake

/-!
# How far apart initiations are

Initiations come from six places, and only some of them ask the pacing rule.
The stamp `lastInitiationTx` is moved by nothing but an initiation, whichever
place it comes from, and it survives resets and discards. Retransmissions are
covered by the deadline that was set together with the stamp.
-/

set_option autoImplicit false

namespace WireGuard
open ByteString Tunnel

variable {P : Primitives}

/-- The effective instant at which a call returned an initiation. -/
def initiationTime (x : Transition P) : Option Ticks :=
  x.output.initiation?.map (fun _ => x.after.lastNow)

theorem uneventful_initiation? {o : Output} (h : o.uneventful = true) : o.initiation? = none := by
  cases o with
  | encapsulated r => cases r <;> first | rfl | cases h
  | decapsulated r => rfl
  | polled r =>
    cases r with
    | error e => rfl
    | ok r => cases r <;> first | rfl | cases h
  | initiated r => cases r <;> first | rfl | cases h
  | none => rfl

theorem receipt_lastNow {C : ChaChaImpl} {t : Tunnel P} {now : Now}
    {remote datagram out : List UInt8} {rng : Entropy} {r : Outcome P Received}
    (h : Receipt C t now remote datagram out rng r) : r.tunnel.lastNow = t.lastNow := by
  cases h with
  | rejected t' rest e ht => rcases ht with rfl | rfl | rfl | rfl <;> rfl
  | accepted m slot s plain hm hx hs hn ha hk ho => exact commitTransport_lastNow _ _ _ _ _ _
  | _ => rfl

theorem Deed.lastNow {C : ChaChaImpl} {t t' : Tunnel P} {op : Op} {o : Output}
    (h : Deed C t op o t') : t'.lastNow = (t.seen op).lastNow := by
  cases h with
  | rested hu ho hop => exact hu.lastNow
  | launched now index eph jitter hu ha h0 hw => exact hu.lastNow
  | posted s plain hu hs hc hw => exact (commitSeal_lastNow _ _ _).trans hu.lastNow
  | discarded hu ho => exact hu.lastNow
  | abandoned hu hr => exact hu.lastNow
  | received now remote underLoad datagram out rng hop hr hok =>
    subst hop
    exact receipt_lastNow hr

theorem receipt_lastInitiationTx {C : ChaChaImpl} {t : Tunnel P} {now : Now}
    {remote datagram out : List UInt8} {rng : Entropy} {r : Outcome P Received}
    (h : Receipt C t now remote datagram out rng r) :
    r.tunnel.timers.lastInitiationTx = t.timers.lastInitiationTx := by
  cases h with
  | rejected t' rest e ht => rcases ht with rfl | rfl | rfl | rfl <;> rfl
  | accepted m slot s plain hm hx hs hn ha hk ho =>
    obtain ⟨b,hb⟩ := commitTransport_noted t now.ticks slot s (s.replay.accept m.counter).1
      plain.length
    dsimp only
    rw [hb]
    unfold Timers.noteAccepted
    split <;> rfl
  | _ => rfl

theorem deed_lastInitiationTx {C : ChaChaImpl} {t t' : Tunnel P} {op : Op} {o : Output}
    (h : Deed C t op o t') :
    o.initiation? = none ∧ t'.timers.lastInitiationTx = t.timers.lastInitiationTx ∨
    t'.timers.lastInitiationTx = some t'.lastNow ∧
      (t.timers.initiationAllowed t'.lastNow = true ∨ t.retransmitDue t'.lastNow = true) := by
  have hseen : (t.seen op).timers = t.timers ∧ (t.seen op).inflight = t.inflight := by
    rw [t.seen_frame op]
    exact ⟨rfl,rfl⟩
  cases h with
  | rested hu ho hop =>
    refine Or.inl ⟨uneventful_initiation? ho,?_⟩
    rw [hu.lastInitiationTx,hseen.1]
  | @launched _ u now index eph jitter hu ha h0 hw =>
    refine Or.inr ⟨rfl,?_⟩
    have hr : t.retransmitDue u.lastNow = (t.seen op).retransmitDue u.lastNow := by
      unfold retransmitDue
      rw [hseen.1,hseen.2]
    have hp := ha.2.2
    rw [hu.initiationAllowed,hu.retransmitDue,hseen.1,← hr] at hp
    exact hp
  | @posted _ u s plain hu hs hc hw =>
    refine Or.inl ⟨initiation?_of_transport? hw,?_⟩
    exact (commitSeal_timers u u.lastNow op.payloadLen).1.trans
      (hu.lastInitiationTx.trans (by rw [hseen.1]))
  | discarded hu ho =>
    refine Or.inl ⟨?_,hu.lastInitiationTx.trans (by rw [hseen.1])⟩
    rcases ho with ⟨_,rfl⟩ | rfl <;> rfl
  | abandoned hu hr => exact Or.inl ⟨rfl,hu.lastInitiationTx.trans (by rw [hseen.1])⟩
  | received now remote underLoad datagram out rng hop hr hok =>
    exact Or.inl ⟨rfl,(receipt_lastInitiationTx hr).trans rfl⟩

theorem addNanos_le_of_retransmitDue {t : Tunnel P} {now l : Ticks} (hp : Paced t)
    (h : t.retransmitDue now = true) (hl : t.timers.lastInitiationTx = some l) :
    l.addNanos rekeyTimeout ≤ now := by
  simp only [retransmitDue,Bool.and_eq_true] at h
  obtain ⟨l',r,hl',hr,hle⟩ := hp.pending h.1
  obtain rfl := Option.some.inj (hl'.symm.trans hl)
  simp only [hr,decide_eq_true_eq] at h
  exact hle.trans h.2

theorem stamp_old {t : Tunnel P} {now l : Ticks} (hp : Paced t) (hn : now.nanos < u64Max)
    (h : t.timers.initiationAllowed now = true ∨ t.retransmitDue now = true)
    (hl : t.timers.lastInitiationTx = some l) : l.nanos+rekeyTimeout ≤ now.nanos := by
  rw [← Ticks.addNanos_le_iff hn]
  rcases h with h | h
  · have hle := Timers.pacingAt_le h
    unfold Timers.pacingAt at hle
    rwa [hl] at hle
  · exact addNanos_le_of_retransmitDue hp h hl

/-- The initiations of a history are spaced, and the stamp is not older than
any of them. -/
def Spaced (h : List (Transition P)) (t : Tunnel P) : Prop :=
  (h.filterMap initiationTime).Pairwise (fun a b => a.nanos+rekeyTimeout ≤ b.nanos) ∧
  ∀ a ∈ h.filterMap initiationTime, ∃ l, t.timers.lastInitiationTx = some l ∧ a ≤ l

theorem spaced_step {C : ChaChaImpl} {h : List (Transition P)} {t : Tunnel P} (hs : Spaced h t)
    (hp : Paced t) (op : Op) (hb : (step C t op).1.lastNow.nanos < u64Max) :
    Spaced (h++[Machine.advance (step C) t op]) (step C t op).1 := by
  have hd := deed_lastInitiationTx (step_deed C t op)
  have htime : [Machine.advance (step C) t op].filterMap initiationTime =
      ((step C t op).2.initiation?.map (fun _ => (step C t op).1.lastNow)).toList := by
    simp only [List.filterMap_cons,List.filterMap_nil,initiationTime,Machine.advance]
    cases (step C t op).2.initiation? <;> rfl
  unfold Spaced
  rw [List.filterMap_append,htime]
  rcases hd with ⟨hnone,hkeep⟩ | ⟨hstamp,hallowed⟩
  · rw [hnone,hkeep,Option.map_none,Option.toList_none,List.append_nil]
    exact hs
  have hold : ∀ a ∈ h.filterMap initiationTime,
      a.nanos+rekeyTimeout ≤ (step C t op).1.lastNow.nanos := by
    intro a ha
    obtain ⟨l,hl,hal⟩ := hs.2 a ha
    have := stamp_old hp hb hallowed hl
    rw [Ticks.le_iff] at hal
    omega
  cases (step C t op).2.initiation? with
  | none =>
    refine ⟨by simpa using hs.1,fun a ha => ⟨_,hstamp,?_⟩⟩
    have := hold a (by simpa using ha)
    rw [Ticks.le_iff]
    omega
  | some wire =>
    refine ⟨List.pairwise_append.mpr ⟨hs.1,List.pairwise_singleton _ _,fun a ha b hb => ?_⟩,
      fun a ha => ⟨_,hstamp,?_⟩⟩
    · obtain rfl := List.mem_singleton.mp hb
      exact hold a ha
    · rcases List.mem_append.mp ha with ha | ha
      · have := hold a ha
        rw [Ticks.le_iff]
        omega
      · exact (List.mem_singleton.mp ha).le

/-- Any two initiations of a run are at least one pacing interval apart. -/
theorem initiations_spaced (C : ChaChaImpl) {config : Config} {t : Tunnel P}
    (ht : withBackend P config = .ok t) (ops : List Op)
    (hb : ∀ x ∈ run C t ops, x.after.lastNow.nanos+6*second < u64Max) :
    ((run C t ops).filterMap initiationTime).Pairwise
      (fun a b => a.nanos+rekeyTimeout ≤ b.nanos) := by
  have hinv := Machine.history_invariant (step C) t
    (fun h u => Paced u ∧ ((∀ x ∈ h, x.after.lastNow.nanos+6*second < u64Max) → Spaced h u))
    ⟨paced_reachable (C := C) ht ⟨[],rfl⟩,fun _ => ⟨List.Pairwise.nil,nofun⟩⟩ ?_ ops
  · exact (hinv.2 hb).1
  · rintro h u op ⟨hp,hs⟩
    refine ⟨(step_refines C).step_invariant Paced paced_act hp op,fun hb => ?_⟩
    have hlast := hb (Machine.advance (step C) u op) (by simp)
    refine spaced_step (hs fun x hx => hb x (List.mem_append_left _ hx)) hp op ?_
    exact lt_of_le_of_lt (Nat.le_add_right _ _) hlast

/-- An initiation, a forced one a second later that is refused, and a poll
behind the retransmission deadline. -/
def specimenAttempts : List Op :=
  let out : List UInt8 := List.replicate 148 0
  [.initiateHandshake ⟨Ticks.zero,0,0⟩ out (List.replicate 2 (some (fun _ => 0))),
    .initiateHandshake (specimenLater 1 (by decide)) out (List.replicate 2 (some (fun _ => 1))),
    .poll (specimenLater 6 (by decide)) out (List.replicate 3 (some (fun _ => 1)))]

theorem initiations_spaced_specimen :
    let times := (run (scalar specimen) specimenTunnel specimenAttempts).filterMap initiationTime
    times.length = 2 ∧ times.Pairwise (fun a b => a.nanos+rekeyTimeout ≤ b.nanos) :=
  ⟨by decide +kernel,initiations_spaced (scalar specimen) (withBackend_build (by decide +kernel))
    specimenAttempts (by decide +kernel)⟩

end WireGuard
