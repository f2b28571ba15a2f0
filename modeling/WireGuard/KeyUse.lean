import WireGuard.Ledger
import WireGuard.Traffic

/-!
# How the keys of a session are used

Read off the ledger of a run: a counter is sealed under at most once and
accepted at most once, only within the life of its session, and a session that
answered a handshake is silent until its peer has spoken.
-/

set_option autoImplicit false

namespace WireGuard
open ByteString Tunnel

variable {P : Primitives}

def Event.createdTag? : Event → Option ℕ
  | .created tag _ _ => some tag
  | _ => none

def Event.sentPair? : Event → Option (ℕ × ℕ)
  | .sent tag counter _ => some (tag,counter)
  | _ => none

def Event.acceptedPair? : Event → Option (ℕ × ℕ)
  | .accepted tag counter _ => some (tag,counter)
  | _ => none

theorem ledger_run (C : ChaChaImpl) {config : Config} {t : Tunnel P}
    (ht : withBackend P config = .ok t) (ops : List Op) :
    Ledger (events C t ops) (Machine.final (step C) t ops) := by
  have hf := (withBackend_ok ht).1
  exact (step_refines C).history_invariant Ledger ledger_act
    (ledger_nil t hf.previous hf.current hf.next) ops

theorem createdTags_nodup {es : List Event} (h : Chronicle Justified es) :
    (es.filterMap Event.createdTag?).Nodup := by
  refine List.pairwise_filterMap.mpr (h.pairwise fun before e he d hd tag ht tag' ht' => ?_)
  cases d <;> cases ht
  cases e <;> cases ht'
  rintro rfl
  exact he _ _ hd

theorem sentPairs_increase {es : List Event} (h : Chronicle Justified es) :
    (es.filterMap Event.sentPair?).Pairwise (fun a b => a.1 = b.1 → a.2 < b.2) := by
  refine List.pairwise_filterMap.mpr (h.pairwise fun before e he d hd p hp q hq => ?_)
  cases d <;> cases hp
  cases e <;> cases hq
  rintro ⟨⟩
  exact he.1 _ _ hd

theorem acceptedPairs_nodup {es : List Event} (h : Chronicle Justified es) :
    (es.filterMap Event.acceptedPair?).Nodup := by
  refine List.pairwise_filterMap.mpr (h.pairwise fun before e he d hd p hp q hq => ?_)
  cases d <;> cases hp
  cases e <;> cases hq
  rintro ⟨⟩
  exact he.1 ⟨_,hd⟩

theorem nodup_of_increase {l : List (ℕ × ℕ)}
    (h : l.Pairwise (fun a b => a.1 = b.1 → a.2 < b.2)) : l.Nodup := by
  refine h.imp fun {a b} hab he => ?_
  rw [he] at hab
  exact absurd (hab rfl) (lt_irrefl _)

theorem eventsOf_unsent {x : Transition P} (h : x.output.transport? = none) :
    (eventsOf x).filterMap Event.sentPair? = [] := by
  have hcreated : ∀ s, (createdEvents s).filterMap Event.sentPair? = [] := by
    intro s
    cases s <;> rfl
  unfold eventsOf
  rw [h]
  split
  · rename_i he
    cases he
  · unfold initiatedEvents
    split
    · split <;> rfl
    · rfl
  · split
    · rename_i r _ _
      cases r with
      | handshakeComplete => exact hcreated _
      | reply wire =>
        unfold receivedEvents answeredEvents
        dsimp only
        split
        · split
          · rw [List.filterMap_cons]
            exact hcreated _
          · rfl
        · rfl
      | cookieStored => rfl
      | _ =>
        unfold receivedEvents acceptedEvents
        dsimp only
        split
        · split <;> rfl
        · rfl
    · rfl

/-- Message number `n` of the end that holds `keys`. -/
def letter (P : Primitives) (C : ChaChaImpl) (keys : SessionKeys) (n : ℕ)
    (plain : List UInt8) : List UInt8 :=
  (TransportData.mk keys.peerIndex n
    (sealBytes P C keys.send (nonceFromCounter n) [] plain)).encode

/-- The datagram was sealed by the session `l.1` under the counter `l.2`. -/
def SealedBy (P : Primitives) (C : ChaChaImpl) (es : List Event) (wire : List UInt8)
    (l : ℕ × ℕ) : Prop :=
  ∃ keys time plain, .created l.1 keys time ∈ es ∧ wire = letter P C keys l.2 plain

theorem SealedBy.mono {C : ChaChaImpl} {es es' : List Event} {wire : List UInt8} {l : ℕ × ℕ}
    (h : SealedBy P C es wire l) : SealedBy P C (es++es') wire l := by
  obtain ⟨keys,time,plain,hm,hw⟩ := h
  exact ⟨keys,time,plain,List.mem_append_left _ hm,hw⟩

theorem run_sealed (C : ChaChaImpl) {config : Config} {t : Tunnel P}
    (ht : withBackend P config = .ok t) (ops : List Op) :
    List.Forall₂ (SealedBy P C (events C t ops))
      ((run C t ops).filterMap (fun x => x.output.transport?))
      ((events C t ops).filterMap Event.sentPair?) := by
  induction ops using List.reverseRecOn with
  | nil => exact List.Forall₂.nil
  | append_singleton ops op ih =>
    have hrun : run C t (ops++[op]) = run C t ops++
        [Machine.advance (step C) (Machine.final (step C) t ops) op] := by
      simp only [run,Machine.history_append]
      rfl
    have hev : events C t (ops++[op]) = events C t ops++
        eventsOf (Machine.advance (step C) (Machine.final (step C) t ops) op) := by
      simp only [events,hrun,List.flatMap_append,List.flatMap_singleton]
    rw [hev,hrun,List.filterMap_append,List.filterMap_append]
    refine List.rel_append (ih.imp fun _ _ h => h.mono) ?_
    cases hw : (step C (Machine.final (step C) t ops) op).2.transport? with
    | none =>
      have hx : (Machine.advance (step C) (Machine.final (step C) t ops) op).output.transport? =
          none := hw
      rw [eventsOf_unsent hx]
      simp [hx]
    | some wire =>
      obtain ⟨s,plain,hs,-⟩ := step_transport C _ op wire hw
      have hx : (Machine.advance (step C) (Machine.final (step C) t ops) op).output.transport? =
          some wire := hw
      rw [hs.events]
      simp only [List.filterMap_cons,hx,List.filterMap_nil,Event.sentPair?]
      refine List.Forall₂.cons ⟨s.keys,s.created,plain,?_,hs.wire⟩ List.Forall₂.nil
      exact List.mem_append_left _ ((ledger_run C ht ops).known .current s hs.current).created

/-- Every transport datagram a run returns was sealed by the session that was current, under
its sending key and the nonce of the counter it carries, and is a `sent` event. In the order of
emission the datagrams are those of the events' sessions and counters. Tags are never reused,
the counters of a session increase below the limit, and at its clamped emission time the session
is young and confirmed. -/
theorem transport_key_use (C : ChaChaImpl) {config : Config} {t : Tunnel P}
    (ht : withBackend P config = .ok t) (ops : List Op) :
    (∀ x ∈ run C t ops, ∀ wire, x.output.transport? = some wire →
      ∃ s m plain, x.before.current = some s ∧ parse wire = .ok (.transportData m) ∧
        wire = letter P C s.keys m.counter plain ∧
        eventsOf x = [.sent s.tag m.counter x.after.lastNow]) ∧
    List.Forall₂ (SealedBy P C (events C t ops))
      ((run C t ops).filterMap (fun x => x.output.transport?))
      ((events C t ops).filterMap Event.sentPair?) ∧
    ((events C t ops).filterMap Event.createdTag?).Nodup ∧
    ((events C t ops).filterMap Event.sentPair?).Nodup ∧
    ((events C t ops).filterMap Event.sentPair?).Pairwise (fun a b => a.1 = b.1 → a.2 < b.2) ∧
    ∀ before tag counter time after,
      events C t ops = before++.sent tag counter time::after →
      counter < rejectAfterMessages ∧ ∃ keys born, .created tag keys born ∈ before ∧
        time.since born < rejectAfterTime ∧
        (keys.isInitiator = true ∨ ∃ c at', .accepted tag c at' ∈ before) := by
  have hc := (ledger_run C ht ops).chronicle
  have hi := sentPairs_increase hc
  refine ⟨fun x hx wire hw => ?_,run_sealed C ht ops,createdTags_nodup hc,nodup_of_increase hi,hi,
    fun before tag counter time after he => (hc before _ after he).2⟩
  obtain ⟨u,op,_,rfl⟩ := Machine.mem_history _ _ _ _ hx
  obtain ⟨s,plain,hs,_⟩ := step_transport C u op wire hw
  have hp := parse_transportWire (P := P) C s plain (sendCounter_le_max hs.counter)
  refine ⟨s,_,plain,hs.current,hs.wire ▸ hp,?_,hs.events⟩
  exact hs.wire

/-- The first payload of the specimen is sealed under counter zero of its session. -/
theorem transport_key_use_specimen :
    .sent 0 0 Ticks.zero ∈ events (scalar specimen) specimenTunnel specimenOps ∧
    ((events (scalar specimen) specimenTunnel specimenOps).filterMap Event.sentPair?).Nodup ∧
    List.Forall₂ (SealedBy specimen (scalar specimen)
        (events (scalar specimen) specimenTunnel specimenOps))
      ((run (scalar specimen) specimenTunnel specimenOps).filterMap
        (fun x => x.output.transport?))
      ((events (scalar specimen) specimenTunnel specimenOps).filterMap Event.sentPair?) := by
  have ht : withBackend specimen (specimenConfig 1 2 none) = .ok specimenTunnel :=
    withBackend_build (by decide +kernel)
  obtain ⟨_,hsealed,_,hnodup,_⟩ := transport_key_use (scalar specimen) ht specimenOps
  exact ⟨by decide +kernel,hnodup,hsealed⟩

/-- Every transport datagram a run accepts is the `accepted` event of the
session that opened it. No counter of a session is accepted twice, and the age
of the session is counted from its creation wherever it has moved since. -/
theorem transport_accepted_once (C : ChaChaImpl) {config : Config} {t : Tunnel P}
    (ht : withBackend P config = .ok t) (ops : List Op) :
    (∀ x ∈ run C t ops, ∀ plain, x.output.plaintext? = some plain →
      ∃ now remote underLoad datagram out rng m s,
        x.input = .decapsulate now remote underLoad datagram out rng ∧
        parse datagram = .ok (.transportData m) ∧
        (x.before.sessionWithIndex m.receiverIndex).bind x.before.slot = some s ∧
        eventsOf x = [.accepted s.tag m.counter x.after.lastNow]) ∧
    ((events C t ops).filterMap Event.createdTag?).Nodup ∧
    ((events C t ops).filterMap Event.acceptedPair?).Nodup ∧
    ∀ before tag counter time after,
      events C t ops = before++.accepted tag counter time::after →
      counter < rejectAfterMessages ∧ ∃ keys born, .created tag keys born ∈ before ∧
        time.since born < rejectAfterTime := by
  have hc := (ledger_run C ht ops).chronicle
  refine ⟨fun x hx plain hp => ?_,createdTags_nodup hc,acceptedPairs_nodup hc,
    fun before tag counter time after he => (hc before _ after he).2⟩
  obtain ⟨u,op,_,rfl⟩ := Machine.mem_history _ _ _ _ hx
  obtain ⟨now,remote,underLoad,datagram,out,rng,m,s,rfl,hm,ha⟩ := step_plaintext C u op plain hp
  obtain ⟨slot,hx,hs⟩ := ha.held
  refine ⟨now,remote,underLoad,datagram,out,rng,m,s,rfl,hm,?_,ha.events⟩
  rw [hx]
  exact hs

theorem transport_accepted_once_specimen :
    .accepted 0 0 Ticks.zero ∈ events (scalar specimen) specimenTunnel specimenOps ∧
    ((events (scalar specimen) specimenTunnel specimenOps).filterMap Event.acceptedPair?).Nodup :=
  ⟨by decide +kernel,(transport_accepted_once (scalar specimen)
    (withBackend_build (by decide +kernel)) specimenOps).2.2.1⟩

end WireGuard
