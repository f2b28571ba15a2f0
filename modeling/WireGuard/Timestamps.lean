import WireGuard.Library.Chronicle
import WireGuard.Traffic

/-!
# The two timestamp ratchets

`lastSentTai64n` bounds every timestamp the tunnel has put into an initiation
and `greatestTimestamp` every one it has answered. Both survive whatever
discards sessions, so the bounds hold over whole runs and each new timestamp
lies above all earlier ones, until the outbound ratchet is saturated.
-/

set_option autoImplicit false

namespace WireGuard
open ByteString Tunnel

variable {P : Primitives}

theorem le_nextTimestamp {t : Tunnel P} {last : Tai64N} (now : Now)
    (h : t.lastSentTai64n = some last) : last ≤ t.nextTimestamp now := by
  simp only [nextTimestamp,h]
  split
  · by_cases ho : last = Tai64N.allOnes
    · rw [ho,Tai64N.tick_allOnes]
      exact Tai64N.le_allOnes _
    · have := Tai64N.lt_iff.mp (Tai64N.lt_tick last ho)
      rw [Tai64N.le_iff]
      omega
  · rename_i hn
    rw [Tai64N.le_iff] at hn ⊢
    omega

theorem lt_nextTimestamp {t : Tunnel P} {last ts : Tai64N} (now : Now)
    (h : t.lastSentTai64n = some last) (hl : ts ≤ last) (ht : ts ≠ Tai64N.allOnes) :
    ts < t.nextTimestamp now := by
  by_cases ho : last = Tai64N.allOnes
  · have hn := Tai64N.le_iff.mp (le_nextTimestamp now h)
    have := ts.value_lt_of_ne ht
    rw [ho,Tai64N.allOnes_value] at hn
    rw [Tai64N.lt_iff]
    omega
  · rw [Tai64N.le_iff] at hl
    simp only [nextTimestamp,h]
    split
    · have := Tai64N.lt_iff.mp (Tai64N.lt_tick last ho)
      rw [Tai64N.lt_iff]
      omega
    · rename_i hn
      rw [Tai64N.le_iff] at hn
      rw [Tai64N.lt_iff]
      omega

def Dated (before : List Event) : Event → Prop
  | .initiated ts => ∀ ts', .initiated ts' ∈ before → ts' ≠ Tai64N.allOnes → ts' < ts
  | .answered ts => ∀ ts', .answered ts' ∈ before → ts' < ts
  | _ => True

structure Ratchets (es : List Event) (t : Tunnel P) : Prop where
  chronicle : Chronicle Dated es
  initiated : ∀ ts, .initiated ts ∈ es → ∃ last, t.lastSentTai64n = some last ∧ ts ≤ last
  answered : ∀ ts, .answered ts ∈ es → ∃ g, t.greatestTimestamp = some g ∧ ts ≤ g
  greatest : ∀ g, t.greatestTimestamp = some g → .answered g ∈ es

def Event.undated : Event → Bool
  | .initiated _ => false
  | .answered _ => false
  | _ => true

theorem Ratchets.frame {es : List Event} {t t' : Tunnel P} (h : Ratchets es t)
    (hs : t'.lastSentTai64n = t.lastSentTai64n)
    (hg : t'.greatestTimestamp = t.greatestTimestamp) : Ratchets es t' where
  chronicle := h.chronicle
  initiated := by rw [hs]; exact h.initiated
  answered := by rw [hg]; exact h.answered
  greatest := by rw [hg]; exact h.greatest

theorem Ratchets.undated {es fs : List Event} {t : Tunnel P} (h : Ratchets es t)
    (hf : ∀ e ∈ fs, e.undated = true) : Ratchets (es++fs) t := by
  induction fs generalizing es with
  | nil => simpa using h
  | cons e fs ih =>
    have he := hf e (by simp)
    have hc : Ratchets (es++[e]) t := by
      refine ⟨h.chronicle.concat ?_,fun ts hm => ?_,fun ts hm => ?_,fun g hg => ?_⟩
      · cases e <;> trivial
      · rcases List.mem_append.mp hm with hm | hm
        · exact h.initiated ts hm
        · rw [← List.mem_singleton.mp hm] at he
          cases he
      · rcases List.mem_append.mp hm with hm | hm
        · exact h.answered ts hm
        · rw [← List.mem_singleton.mp hm] at he
          cases he
      · exact List.mem_append_left _ (h.greatest g hg)
    simpa using ih hc fun d hd => hf d (by simp [hd])

theorem Ratchets.initiate {es : List Event} {t : Tunnel P} (h : Ratchets es t) (now : Now)
    (index : UInt32) (eph : Bytes 32) (jitter : ℕ) :
    Ratchets (es++[.initiated (t.nextTimestamp now)])
      ((Act.initiate now index eph jitter).apply t) := by
  refine ⟨h.chronicle.concat fun ts hm ht => ?_,fun ts hm => ?_,fun ts hm => ?_,fun g hg => ?_⟩
  · obtain ⟨last,hl,hle⟩ := h.initiated ts hm
    exact lt_nextTimestamp now hl hle ht
  · refine ⟨t.nextTimestamp now,rfl,?_⟩
    rcases List.mem_append.mp hm with hm | hm
    · obtain ⟨last,hl,hle⟩ := h.initiated ts hm
      have hn := le_nextTimestamp now hl
      rw [Tai64N.le_iff] at hle hn ⊢
      omega
    · obtain rfl := Event.initiated.inj (List.mem_singleton.mp hm)
      exact Tai64N.le_iff.mpr le_rfl
  · rcases List.mem_append.mp hm with hm | hm
    · exact h.answered ts hm
    · cases List.mem_singleton.mp hm
  · exact List.mem_append_left _ (h.greatest g hg)

theorem Ratchets.respond {es : List Event} {t : Tunnel P} (h : Ratchets es t)
    (m : HandshakeInitiation) (consumed : ConsumedInitiation) (index : UInt32) (eph : Bytes 32)
    (hn : t.timestampSeen consumed.timestamp = false) :
    Ratchets (es++[.answered consumed.timestamp])
      ((Act.respond m consumed index eph).apply t) := by
  have hnew : ∀ ts, .answered ts ∈ es → ts < consumed.timestamp := by
    intro ts hm
    obtain ⟨g,hg,hle⟩ := h.answered ts hm
    simp only [timestampSeen,hg,decide_eq_false_iff_not] at hn
    rw [Tai64N.le_iff] at hle hn
    rw [Tai64N.lt_iff]
    omega
  refine ⟨h.chronicle.concat hnew,fun ts hm => ?_,fun ts hm => ?_,fun g hg => ?_⟩
  · rcases List.mem_append.mp hm with hm | hm
    · exact h.initiated ts hm
    · cases List.mem_singleton.mp hm
  · refine ⟨consumed.timestamp,rfl,?_⟩
    rcases List.mem_append.mp hm with hm | hm
    · have := hnew ts hm
      rw [Tai64N.lt_iff] at this
      rw [Tai64N.le_iff]
      omega
    · obtain rfl := Event.answered.inj (List.mem_singleton.mp hm)
      exact Tai64N.le_iff.mpr le_rfl
  · obtain rfl := Option.some.inj hg
    exact List.mem_append_right _ (List.mem_singleton.mpr rfl)

theorem ratchets_act (es : List Event) (t : Tunnel P) (a : Act) (h : Ratchets es t)
    (ha : a.enabled t) : Ratchets (es++a.events t) (a.apply t) := by
  cases a with
  | initiate now index eph jitter => exact h.initiate now index eph jitter
  | respond m consumed index eph =>
    have hf : ∀ e ∈ [Event.created t.sessionsCreated (t.answerKeys consumed index eph) t.lastNow],
        e.undated = true := by simp [Event.undated]
    have hr := (h.respond m consumed index eph ha.2.2.1).undated hf
    simpa [Act.events] using hr
  | _ =>
    refine (h.undated ?_).frame (apply_lastSentTai64n t _ (by intros; simp))
      (apply_greatestTimestamp t _ (by intros; simp))
    dsimp only [Act.events]
    try split
    all_goals simp [Event.undated]

theorem ratchets_run (C : ChaChaImpl) {config : Config} {t : Tunnel P}
    (ht : withBackend P config = .ok t) (ops : List Op) :
    Ratchets (events C t ops) (Machine.final (step C) t ops) := by
  have hf := (withBackend_ok ht).1
  refine (step_refines C).history_invariant Ratchets ratchets_act ?_ ops
  exact ⟨Chronicle.nil,by simp,by simp,by simp [hf.greatestTimestamp]⟩

def Event.initiated? : Event → Option Tai64N
  | .initiated ts => some ts
  | _ => none

def Event.answered? : Event → Option Tai64N
  | .answered ts => some ts
  | _ => none

theorem initiated_increase {es : List Event} (h : Chronicle Dated es) :
    (es.filterMap Event.initiated?).Pairwise (fun a b => a ≠ Tai64N.allOnes → a < b) := by
  refine List.pairwise_filterMap.mpr (h.pairwise fun before e he d hd a ha b hb => ?_)
  cases d <;> cases ha
  cases e <;> cases hb
  exact he _ hd

theorem answered_increase {es : List Event} (h : Chronicle Dated es) :
    es.Pairwise (fun d e => ∀ a, d.answered? = some a → ∀ b, e.answered? = some b → a < b) := by
  refine h.pairwise fun before e he d hd a ha b hb => ?_
  cases d <;> cases ha
  cases e <;> cases hb
  exact he _ hd

/-- The initiation that a call answered with a handshake response. -/
def answeredInitiation? (x : Transition P) : Option HandshakeInitiation :=
  match x.input, x.output with
  | .decapsulate _ _ _ datagram _ _, .decapsulated (.ok (.reply wire)) =>
    match parse wire, parse datagram with
    | .ok (.handshakeResponse _), .ok (.handshakeInitiation m) => some m
    | _, _ => none
  | _, _ => none

theorem step_answeredInitiation (C : ChaChaImpl) (t : Tunnel P) (op : Op)
    (m : HandshakeInitiation)
    (h : answeredInitiation? (Machine.advance (step C) t op) = some m) :
    ∃ consumed, consumeInitiation P t.constants t.localStatic t.localPublic t.peerPublic
        t.precomputedSs m = .ok consumed ∧
      .answered consumed.timestamp ∈ eventsOf (Machine.advance (step C) t op) := by
  unfold answeredInitiation? at h
  split at h
  · rename_i now remote underLoad datagram out rng wire hi ho
    split at h
    · rename_i r m' hw hd
      obtain rfl := Option.some.inj h
      obtain ⟨_,_,_,_,_,_,u,m,consumed,index,eph,hop,ha⟩ := step_answer C t op wire r ho hw
      obtain ⟨_,rfl⟩ := ha.before
      have hin : op = _ := hi
      rw [hin] at hop
      cases hop
      obtain rfl : m = m' := by
        have := ha.parsed.symm.trans hd
        cases this
        rfl
      refine ⟨consumed,ha.enabled.2.1,?_⟩
      rw [ha.events]
      exact List.mem_cons_self
    · cases h
  · cases h

theorem consumeInitiation_timestamp {K : HandshakeConstants}
    {localStatic localPublic peerPublic ss : Bytes 32} {m m' : HandshakeInitiation}
    {c c' : ConsumedInitiation}
    (h : consumeInitiation P K localStatic localPublic peerPublic ss m = .ok c)
    (h' : consumeInitiation P K localStatic localPublic peerPublic ss m' = .ok c')
    (he : (m.ephemeral,m.encryptedStatic,m.encryptedTimestamp) =
      (m'.ephemeral,m'.encryptedStatic,m'.encryptedTimestamp)) : c.timestamp = c'.timestamp := by
  have ho := ((consumeInitiation_ok P).mp h).2.1.timestamp
  have ho' := ((consumeInitiation_ok P).mp h').2.1.timestamp
  obtain ⟨h1,h2,h3⟩ := Prod.mk.inj he |>.imp_right Prod.mk.inj
  have hv : receiverView P localStatic localPublic ss m =
      receiverView P localStatic localPublic ss m' := by
    simp only [receiverView,h1,h2,h3]
  rw [hv,ho'] at ho
  exact (congrArg Tai64N.mk (Option.some.inj ho)).symm

theorem reachable_identity {C : ChaChaImpl} {t u : Tunnel P}
    (h : Machine.Reachable (step C) t u) : u.toIdentity = t.toIdentity :=
  (step_refines C).reachable_invariant (fun u => u.toIdentity = t.toIdentity)
    (fun s a hs _ => (apply_identity s a).trans hs) rfl h

/-- The timestamps of a run increase in both directions: those inside the
initiations it emits until the ratchet saturates, and those of the initiations
it answers always, so that no initiation is answered twice whatever MACs it
carries. -/
theorem handshake_timestamps_increase (C : ChaChaImpl) {config : Config} {t : Tunnel P}
    (ht : withBackend P config = .ok t) (ops : List Op) :
    (∀ x ∈ run C t ops, ∀ wire, x.output.initiation? = some wire →
      ∃ m i ts, parse wire = .ok (.handshakeInitiation m) ∧ x.after.inflight = some i ∧
        (sentView x.after i m).openTimestamp P x.after.constants = some ts ∧
        eventsOf x = [.initiated ts]) ∧
    ((events C t ops).filterMap Event.initiated?).Pairwise
      (fun a b => a ≠ Tai64N.allOnes → a < b) ∧
    (∀ x ∈ run C t ops, ∀ m, answeredInitiation? x = some m →
      ∃ consumed, consumeInitiation P x.before.constants x.before.localStatic
          x.before.localPublic x.before.peerPublic x.before.precomputedSs m = .ok consumed ∧
        .answered consumed.timestamp ∈ eventsOf x) ∧
    ((events C t ops).filterMap Event.answered?).Pairwise (fun a b => a < b) ∧
    ((run C t ops).filterMap answeredInitiation?).Pairwise (fun m m' =>
      (m.ephemeral,m.encryptedStatic,m.encryptedTimestamp) ≠
        (m'.ephemeral,m'.encryptedStatic,m'.encryptedTimestamp)) := by
  have hc := (ratchets_run C ht ops).chronicle
  have hans := answered_increase hc
  have hm : ∀ x ∈ run C t ops, ∀ m, answeredInitiation? x = some m →
      ∃ consumed, consumeInitiation P x.before.constants x.before.localStatic
          x.before.localPublic x.before.peerPublic x.before.precomputedSs m = .ok consumed ∧
        .answered consumed.timestamp ∈ eventsOf x := by
    intro x hx m hm
    obtain ⟨u,op,_,rfl⟩ := Machine.mem_history _ _ _ _ hx
    exact step_answeredInitiation C u op m hm
  refine ⟨fun x hx wire hw => ?_,initiated_increase hc,hm,List.pairwise_filterMap.mpr hans,?_⟩
  · obtain ⟨u,op,_,rfl⟩ := Machine.mem_history _ _ _ _ hx
    obtain ⟨v,now,index,eph,jitter,hi⟩ := step_initiation C u op wire hw
    obtain ⟨mac2,hp⟩ := parse_initiation_withMacs v v.lastNow (v.initiationView now eph) index
    rw [← hi.wire] at hp
    refine ⟨_,v.initiationState now index eph,v.nextTimestamp now,hp,?_,?_,hi.events⟩
    · rw [hi.after]
      rfl
    · rw [hi.after]
      exact openTimestamp_eq (initiationView_sealed v now eph)
  · refine List.pairwise_filterMap.mpr ((List.pairwise_flatMap.mp hans).2.imp_of_mem ?_)
    intro x y hx hy hxy m hmx m' hmy he
    obtain ⟨consumed,hcx,hex⟩ := hm x hx m hmx
    obtain ⟨consumed',hcy,hey⟩ := hm y hy m' hmy
    obtain ⟨u,op,hu,rfl⟩ := Machine.mem_history _ _ _ _ hx
    obtain ⟨w,op',hw,rfl⟩ := Machine.mem_history _ _ _ _ hy
    have hid : u.toIdentity = w.toIdentity :=
      (reachable_identity hu).trans (reachable_identity hw).symm
    have hcx' : consumeInitiation P w.constants w.localStatic w.localPublic w.peerPublic
        w.precomputedSs m = .ok consumed := by
      rw [← hid]
      exact hcx
    have hlt := hxy _ hex _ hey _ rfl _ rfl
    rw [consumeInitiation_timestamp hcx' hcy he,Tai64N.lt_iff] at hlt
    exact lt_irrefl _ hlt

def specimenSecond : Now := ⟨⟨rekeyTimeout,by decide⟩,0,0⟩

/-- Two initiations under a frozen wall clock, and an initiation of the peer that
arrives twice. -/
def specimenHandshakes : List Op :=
  let out : List UInt8 := List.replicate 148 0
  let rng : Entropy := List.replicate 2 (some (fun i => UInt8.ofNat i))
  let datagram : List UInt8 := [1,0,0,0,9,0,0,0]++List.replicate 32 0++
    specimenTunnel.peerPublic.toList++List.replicate 76 0
  [.initiateHandshake ⟨Ticks.zero,0,0⟩ out rng,
    .initiateHandshake specimenSecond out (List.replicate 2 (some (fun _ => 0))),
    .decapsulate ⟨Ticks.zero,0,0⟩ [] false datagram out (List.replicate 2 (some (fun _ => 1))),
    .decapsulate ⟨Ticks.zero,0,0⟩ [] false datagram out (List.replicate 2 (some (fun _ => 2)))]

theorem handshake_timestamps_increase_specimen :
    ((events (scalar specimen) specimenTunnel specimenHandshakes).filterMap
      Event.initiated?).length = 2 ∧
    ((run (scalar specimen) specimenTunnel specimenHandshakes).filterMap
      answeredInitiation?).length = 1 ∧
    ((events (scalar specimen) specimenTunnel specimenHandshakes).filterMap
      Event.initiated?).Pairwise (fun a b => a ≠ Tai64N.allOnes → a < b) :=
  ⟨by decide +kernel,by decide +kernel,(handshake_timestamps_increase (scalar specimen)
    (withBackend_build (by decide +kernel)) specimenHandshakes).2.1⟩

end WireGuard
