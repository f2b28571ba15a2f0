import WireGuard.Buffers
import WireGuard.Discard

/-!
# Which session is current

Completing a handshake makes a session of this instant the current one. A
message on the next session promotes it whatever its age, so an initiation that
was answered before our own handshake completed can still take over afterwards.
These are the only calls after which the current session is an older one.
-/

set_option autoImplicit false

namespace WireGuard
open ByteString Tunnel

variable {P : Primitives}

theorem current_commitTransport (t : Tunnel P) (now : Ticks) (slot : Slot) (s : Session)
    (replay : ReplayWindow) (n : ℕ) :
    (t.commitTransport now slot s replay n).current =
      if s.promotedBy slot then some {s with replay := replay, confirmed := true}
      else (t.setSlot {s with replay := replay, confirmed := true} slot).current := by
  have h := slot_commitTransport t now slot s replay n .current
  dsimp only at h
  change (t.commitTransport now slot s replay n).slot .current = _
  rw [h]
  by_cases hp : s.promotedBy slot = true
  · have hslot : slot = .next := by simpa using (Bool.and_eq_true_iff.mp hp).2
    rw [if_pos hp,if_pos hp,hslot]
    rfl
  · rw [if_neg hp,if_neg hp]
    rfl

theorem created_setSlot {t : Tunnel P} {slot : Slot} {s : Session} (hs : t.slot slot = some s)
    (replay : ReplayWindow) :
    (t.setSlot {s with replay := replay, confirmed := true} slot).current.map Session.created =
      t.current.map Session.created := by
  cases slot with
  | current =>
    rw [show t.current = some s from hs]
    rfl
  | previous => rfl
  | next => rfl

theorem created_commitSeal (t : Tunnel P) (now : Ticks) (payloadLen : Option ℕ) :
    (t.commitSeal now payloadLen).current.map Session.created =
      t.current.map Session.created := by
  have h := slot_commitSeal t now payloadLen .current
  change (t.commitSeal now payloadLen).current = t.takeCounter.current at h
  rw [h,takeCounter]
  cases t.current <;> rfl

theorem promoted_accepted {x : Transition P} {now : Now} {remote datagram out : List UInt8}
    {underLoad : Bool} {rng : Entropy} {m : TransportData} {slot : Slot} {s : Session}
    {plain : List UInt8} (hi : x.input = .decapsulate now remote underLoad datagram out rng)
    (ho : x.output = .decapsulated (.ok (delivered plain)))
    (hm : parse datagram = .ok (.transportData m))
    (hx : x.before.sessionWithIndex m.receiverIndex = some slot)
    (hs : x.before.slot slot = some s) : promoted x = s.promotedBy slot := by
  have hh : heardAny x = true := by
    rw [heardAny,ho,plaintext?_delivered]
    rfl
  unfold promoted Session.promotedBy
  rw [hh,hi,Bool.true_and]
  simp only [hm,hx]
  cases slot with
  | next =>
    rw [show x.before.next = some s from hs]
    simp
  | current => exact (Bool.and_false _).symm
  | previous => exact (Bool.and_false _).symm

theorem promoted_of_silent {x : Transition P} (h : x.output.plaintext? = none) :
    promoted x = false := by
  rw [promoted,heardAny,h]
  rfl

def Steady (t t' : Tunnel P) : Prop :=
  t'.current.map Session.created = t.current.map Session.created ∨ t'.current = none ∨
    t'.current.map Session.created = some t'.lastNow

theorem deed_current {C : ChaChaImpl} {t t' : Tunnel P} {op : Op} {o : Output}
    (h : Deed C t op o t') :
    promoted ⟨t,op,o,t'⟩ = false ∧ Steady t t' ∨
    promoted ⟨t,op,o,t'⟩ = true ∧ ∃ n, t.next = some n ∧
      t'.current.map Session.created = some n.created := by
  have hseen : (t.seen op).current = t.current := by rw [t.seen_frame op]
  cases h with
  | rested hu ho hop =>
    refine Or.inl ⟨promoted_of_silent (uneventful_plaintext? ho),Or.inl ?_⟩
    rw [hu.current,hseen]
  | @launched _ u now index eph jitter hu ha h0 hw =>
    refine Or.inl ⟨promoted_of_silent (plaintext?_of_initiation? hw),Or.inl ?_⟩
    change u.current.map _ = _
    rw [hu.current,hseen]
  | @posted _ u s plain hu hs hc hw =>
    refine Or.inl ⟨promoted_of_silent (plaintext?_of_transport? hw),Or.inl ?_⟩
    exact (created_commitSeal u u.lastNow op.payloadLen).trans (by rw [hu.current,hseen])
  | discarded hu ho =>
    refine Or.inl ⟨promoted_of_silent ?_,Or.inr (Or.inl rfl)⟩
    rcases ho with ⟨_,rfl⟩ | rfl <;> rfl
  | @abandoned u hu hr =>
    refine Or.inl ⟨promoted_of_silent rfl,Or.inl ?_⟩
    change u.current.map _ = _
    rw [hu.current,hseen]
  | received now remote underLoad datagram out rng hop hr hok =>
    cases hr with
    | rejected u rest e hu =>
      obtain ⟨x,hx⟩ := hok
      cases hx
    | completed m i keys hm hmac hi hx hk =>
      exact Or.inl ⟨promoted_of_silent rfl,Or.inr (Or.inr rfl)⟩
    | accepted m slot s plain hm hx hs hn ha hk ho =>
      have hp : ∀ u, promoted ⟨t,op,.decapsulated (.ok (delivered plain)),u⟩ =
          s.promotedBy slot := by
        intro u
        exact promoted_accepted hop rfl hm hx (by cases slot <;> exact hs)
      have hc := current_commitTransport (t.observe now) (t.reading now).ticks slot s
        (s.replay.accept m.counter).1 plain.length
      by_cases hq : s.promotedBy slot = true
      · have hslot : slot = .next := by simpa using (Bool.and_eq_true_iff.mp hq).2
        subst hslot
        refine Or.inr ⟨(hp _).trans hq,s,hs,?_⟩
        dsimp only
        rw [hc,if_pos hq]
        rfl
      · refine Or.inl ⟨(hp _).trans (Bool.eq_false_iff.mpr hq),Or.inl ?_⟩
        dsimp only
        rw [hc,if_neg hq]
        exact created_setSlot hs _
    | _ => exact Or.inl ⟨promoted_of_silent rfl,Or.inl rfl⟩

/-! ## The tests of the call -/

/-- The tests that a transport message for the session has to pass at `now`, with `room` bytes
for its plaintext. -/
def Session.admits (P : Primitives) (C : ChaChaImpl) (s : Session) (now : Ticks)
    (m : TransportData) (room : ℕ) : Bool :=
  decide (m.counter < rejectAfterMessages) && decide (s.age now < rejectAfterTime) &&
    s.replay.check m.counter && decide (m.ciphertext.length ≤ room+16) &&
    (openBytes P C s.keys.recv (nonceFromCounter m.counter) [] m.ciphertext).isSome

/-- The call hands over a message that the next session, not yet confirmed, admits. -/
def promotes (C : ChaChaImpl) (t : Tunnel P) : Op → Bool
  | .decapsulate now _ _ datagram out _ =>
    match parse datagram with
    | .ok (.transportData m) =>
      t.sessionWithIndex m.receiverIndex == some .next && t.next.any (fun n => !n.confirmed &&
        n.admits P C (t.reading now).ticks m out.length)
    | _ => false
  | _ => false

/-- A message for a session that the tunnel holds is accepted exactly if the session admits it. -/
theorem handleTransport_admits (C : ChaChaImpl) (t : Tunnel P) (now : Now) (out : List UInt8)
    (rng : Entropy) {m : TransportData} {slot : Slot} {s : Session}
    (hx : t.sessionWithIndex m.receiverIndex = some slot) (hs : t.slot slot = some s) :
    (Output.decapsulated (t.handleTransport C now m out rng).result).plaintext?.isSome =
      s.admits P C now.ticks m out.length := by
  unfold Session.admits
  by_cases hn : m.counter < rejectAfterMessages
  swap
  · simp only [handleTransport,hx,if_pos (not_lt.mp hn),hn,decide_false,Bool.false_and]
    rfl
  by_cases ha : s.age now.ticks < rejectAfterTime
  swap
  · simp only [handleTransport,hx,hs,if_neg (not_le.mpr hn),if_pos (not_lt.mp ha),ha,decide_false,
      Bool.and_false,Bool.false_and]
    rfl
  cases hk : s.replay.check m.counter with
  | false =>
    simp only [handleTransport,hx,hs,hk,if_neg (not_le.mpr hn),if_neg (not_le.mpr ha),
      Bool.not_false,if_true,Bool.and_false,Bool.false_and]
    rfl
  | true =>
    rw [handleTransport_opening now rng C hx hs hn ha hk out]
    simp only [hn,ha,decide_true,Bool.true_and]
    by_cases h16 : m.ciphertext.length < 16
    · have ho : openBytes P C s.keys.recv (nonceFromCounter m.counter) [] m.ciphertext = none := by
        rw [openBytes,if_pos h16]
      rw [if_pos h16,ho]
      simp [Output.plaintext?]
    · rw [if_neg h16]
      by_cases hl : out.length < m.ciphertext.length-16
      · rw [if_pos hl,decide_eq_false (by omega),Bool.false_and]
        rfl
      · rw [if_neg hl,decide_eq_true (by omega),Bool.true_and]
        cases ho : openBytes P C s.keys.recv (nonceFromCounter m.counter) [] m.ciphertext with
        | none => rfl
        | some plain =>
          show (Output.decapsulated (.ok (delivered plain))).plaintext?.isSome = true
          rw [plaintext?_delivered]
          rfl

theorem promoted_eq (C : ChaChaImpl) (t : Tunnel P) (op : Op) :
    promoted (Machine.advance (step C) t op) = promotes C t op := by
  cases op with
  | decapsulate now remote underLoad datagram out rng =>
    unfold promoted promotes Machine.advance
    dsimp only
    rcases hm : parse datagram with e | p
    · exact Bool.and_false _
    cases p with
    | transportData m =>
      dsimp only
      cases hx : t.sessionWithIndex m.receiverIndex == some .next with
      | false => simp
      | true =>
        cases hn : t.next with
        | none => simp
        | some n =>
          have hstep : (step C t (.decapsulate now remote underLoad datagram out rng)).2 =
              .decapsulated
                ((t.observe now).handleTransport C (t.reading now) m out rng).result := by
            simp only [step,decapsulate,clampNow_eq,decapsulateAt,hm]
          have hadm := handleTransport_admits C (t.observe now) (t.reading now) out rng
            (show (t.observe now).sessionWithIndex m.receiverIndex = some .next from
              beq_iff_eq.mp hx) (show (t.observe now).slot .next = some n from hn)
          rw [heardAny,hstep,hadm]
          simp [Bool.and_comm]
    | _ => exact Bool.and_false _
  | _ => rfl

/-- The current session is not older after a call than before it, except exactly where the call
hands over a message that promotes a next session older than the current one. -/
theorem current_kept_or_newer_iff (C : ChaChaImpl) {config : Config} {t u : Tunnel P}
    (ht : withBackend P config = .ok t) (hu : Machine.Reachable (step C) t u) (op : Op)
    {s s' : Session} (hs : u.current = some s) (hs' : (step C u op).1.current = some s') :
    s.created ≤ s'.created ↔
      ¬(promotes C u op = true ∧ ∃ n, u.next = some n ∧ n.created < s.created) := by
  have hp := past_reachable ht hu
  have hd := step_deed C u op
  rw [← promoted_eq]
  rcases deed_current hd with ⟨hq,h⟩ | ⟨hq,n,hn,h⟩
  · change promoted (Machine.advance (step C) u op) = false at hq
    simp only [hq,Bool.false_eq_true,false_and,not_false_eq_true,iff_true]
    rcases h with h | h | h
    · rw [hs,hs'] at h
      exact (Option.some.inj h).symm.le
    · rw [hs'] at h
      cases h
    · rw [hs'] at h
      rw [Option.some.inj h,hd.lastNow]
      exact (hp.created .current s hs).trans (u.le_seen op)
  · change promoted (Machine.advance (step C) u op) = true at hq
    rw [hs'] at h
    rw [Option.some.inj h,hq,← not_lt]
    refine not_congr ⟨fun hlt => ⟨rfl,n,hn,hlt⟩,?_⟩
    rintro ⟨_,n',hn',hlt⟩
    rwa [Option.some.inj (hn.symm.trans hn')]

theorem one_second_le_max : 1*second ≤ u64Max := by decide

/-- Our initiation at 0 s, the peer's at 1 s and its response to ours at 2 s. -/
def specimenOverlap : List Op :=
  let out : List UInt8 := List.replicate 148 0
  specimenOps.take 1 ++
    [.decapsulate (specimenLater 1 one_second_le_max) [] false specimenInitiation out
      (List.replicate 2 (some (fun _ => 3))),
    .decapsulate (specimenLater 2 (by decide)) [] false (2::List.replicate 91 0) out []]

def specimenKeepalive (index : UInt8) : Op :=
  .decapsulate (specimenLater 3 (by decide)) [] false
    ([4,0,0,0] ++ List.replicate 4 index ++ List.replicate 24 0) (List.replicate 148 0) []

theorem current_kept_specimen :
    let u := Machine.final (step (scalar specimen)) specimenTunnel specimenOverlap
    ∃ s s', u.current = some s ∧
      (step (scalar specimen) u (specimenKeepalive 0)).1.current = some s' ∧
      s.created ≤ s'.created := by
  intro u
  obtain ⟨s,hs⟩ := Option.isSome_iff_exists.mp (show u.current.isSome = true by decide +kernel)
  obtain ⟨s',hs'⟩ := Option.isSome_iff_exists.mp
    (show (step (scalar specimen) u (specimenKeepalive 0)).1.current.isSome = true by
      decide +kernel)
  refine ⟨s,s',hs,hs',(current_kept_or_newer_iff (scalar specimen)
    (withBackend_build (by decide +kernel)) ⟨specimenOverlap,rfl⟩ _ hs hs').mpr fun h => ?_⟩
  exact absurd h.1 (by decide +kernel)

/-- The first message on the session that was answered at 1 s displaces the one
that was established at 2 s. -/
theorem late_first_message_rolls_back :
    let u := Machine.final (step (scalar specimen)) specimenTunnel specimenOverlap
    let v := step (scalar specimen) u (specimenKeepalive 3)
    v.2 = .decapsulated (.ok .keepalive) ∧
      u.current.map Session.created = some (specimenLater 2 (by decide)).ticks ∧
      v.1.current.map Session.created = some (specimenLater 1 (by decide)).ticks := by
  refine ⟨by decide +kernel,by decide +kernel,by decide +kernel⟩

end WireGuard
