import WireGuard.Library.Stamp
import WireGuard.Spacing

/-!
# Dead peers and passive keepalives over runs

The timers keep the latest instant of each kind of traffic only. `Stamped` says
which calls move which of them. From it follows, for whole runs, exactly when
an unanswered message is noticed in time although there was more traffic, and
when a completed handshake settles what was unanswered before.
-/

set_option autoImplicit false

namespace WireGuard
open ByteString Tunnel

variable {P : Primitives}

def Op.isReset : Op → Bool
  | .reset => true
  | _ => false

/-- A transport message was sent. -/
def sentAny (x : Transition P) : Bool := x.output.transport?.isSome

/-- A non-empty payload was sealed. -/
def sentData (x : Transition P) : Bool := sentAny x && x.input.payloadLen.getD 0 != 0

/-- A transport message was accepted. -/
def heardAny (x : Transition P) : Bool := x.output.plaintext?.isSome

/-- A transport message with data was accepted. -/
def heardData (x : Transition P) : Bool := x.output.plaintext?.any (fun plain => plain != [])

/-- All sessions were dropped, by the caller or by `poll`. -/
def wiped (x : Transition P) : Bool :=
  x.input.isReset || x.output == .polled (.ok .sessionsExpired)

def Timers.stamps (tm : Timers) : Option Ticks × Option Ticks × Option Ticks × Option Ticks :=
  (tm.lastDataTx,tm.lastAnyTx,tm.lastAnyRx,tm.lastDataRx)

/-- What a call that does not wipe the sessions does to the stamps of traffic. -/
structure Stamped (x : Transition P) : Prop where
  dataTx : x.after.timers.lastDataTx =
    if sentData x then some x.after.lastNow else x.before.timers.lastDataTx
  anyTx : x.after.timers.lastAnyTx =
    if sentAny x then some x.after.lastNow else x.before.timers.lastAnyTx
  anyRx : x.after.timers.lastAnyRx =
    if heardAny x then some x.after.lastNow else x.before.timers.lastAnyRx
  dataRx : x.after.timers.lastDataRx =
      (if heardData x then some x.after.lastNow else x.before.timers.lastDataRx) ∨
    x.after.timers.lastDataRx = none ∧ x.after.currentUsable x.after.lastNow = false

theorem uneventful_transport? {o : Output} (h : o.uneventful = true) : o.transport? = none := by
  cases o with
  | encapsulated r => cases r <;> first | rfl | cases h
  | decapsulated r => rfl
  | polled r =>
    cases r with
    | error e => rfl
    | ok r => cases r <;> first | rfl | cases h
  | initiated r => rfl
  | none => rfl

theorem uneventful_plaintext? {o : Output} (h : o.uneventful = true) : o.plaintext? = none := by
  cases o with
  | decapsulated r => cases r <;> first | rfl | cases h
  | _ => rfl

theorem plaintext?_of_transport? {o : Output} {wire : List UInt8} (h : o.transport? = some wire) :
    o.plaintext? = none := by
  cases o with
  | decapsulated r => cases h
  | _ => rfl

theorem plaintext?_of_initiation? {o : Output} {wire : List UInt8}
    (h : o.initiation? = some wire) : o.plaintext? = none := by
  cases o with
  | decapsulated r => cases h
  | _ => rfl

theorem stamped_still {x : Transition P} {u : Tunnel P} (hu : Tidied (x.before.seen x.input) u)
    (htm : x.after.timers.stamps = u.timers.stamps)
    (hc : u.timers.lastDataRx = x.before.timers.lastDataRx ∨ x.after.current = u.current)
    (hl : x.after.lastNow = u.lastNow) (hs : x.output.transport? = none)
    (hh : x.output.plaintext? = none) : Stamped x := by
  have hseen := x.before.seen_frame x.input
  have hst : sentAny x = false := by rw [sentAny,hs]; rfl
  have hsd : sentData x = false := by rw [sentData,hst]; rfl
  have hha : heardAny x = false := by rw [heardAny,hh]; rfl
  have hhd : heardData x = false := by rw [heardData,hh]; rfl
  simp only [Timers.stamps,Prod.mk.injEq] at htm
  obtain ⟨h1,h2,h3,h4⟩ := htm
  refine ⟨?_,?_,?_,?_⟩
  · rw [hsd,h1,hu.lastDataTx,hseen]
    rfl
  · rw [hst,h2,hu.lastAnyTx,hseen]
    rfl
  · rw [hha,h3,hu.lastAnyRx,hseen]
    rfl
  · rw [hhd,h4]
    rcases hc with hc | hc
    · exact Or.inl hc
    rcases hu.passive with hp | ⟨hp,hus⟩
    · refine Or.inl ?_
      rw [hp,hseen]
      rfl
    · refine Or.inr ⟨hp,?_⟩
      unfold Tunnel.currentUsable at hus ⊢
      rw [hc,hl,hu.current,hu.lastNow]
      exact hus

theorem stamped_posted {x : Transition P} {u : Tunnel P} (hu : Tidied (x.before.seen x.input) u)
    (hc : u.currentUsable u.lastNow = true)
    (ha : x.after = (Act.transmit x.input.payloadLen).apply u) {wire : List UInt8}
    (hw : x.output.transport? = some wire) : Stamped x := by
  have hseen := x.before.seen_frame x.input
  have hst : sentAny x = true := by rw [sentAny,hw]; rfl
  have hh := plaintext?_of_transport? hw
  have hha : heardAny x = false := by rw [heardAny,hh]; rfl
  have hhd : heardData x = false := by rw [heardData,hh]; rfl
  obtain ⟨r,hr⟩ := commitSeal_noted u u.lastNow x.input.payloadLen
  have htm : x.after.timers = {u.timers.noteSealed u.lastNow x.input.payloadLen with
      rekeyDue := r} := by
    rw [ha]
    exact hr
  have hl : x.after.lastNow = u.lastNow := by
    rw [ha]
    exact commitSeal_lastNow _ _ _
  have hrx : u.timers.lastDataRx = x.before.timers.lastDataRx := by
    rcases hu.passive with hp | ⟨_,hus⟩
    · rw [hp,hseen]
    · rw [hu.currentUsable,hu.lastNow,hus] at hc
      cases hc
  have hkeep : x.after.timers.lastAnyRx = u.timers.lastAnyRx ∧
      x.after.timers.lastDataRx = u.timers.lastDataRx ∧
      x.after.timers.lastAnyTx = some u.lastNow := by
    rw [htm]
    unfold Timers.noteSealed
    split <;> exact ⟨rfl,rfl,rfl⟩
  refine ⟨?_,?_,?_,Or.inl ?_⟩
  · rw [sentData,hst,Bool.true_and,htm,hl]
    unfold Timers.noteSealed
    by_cases hp : x.input.payloadLen.getD 0 = 0
    · rw [if_pos hp,if_neg (by simp [hp])]
      exact hu.lastDataTx.trans (by rw [hseen])
    · rw [if_neg hp,if_pos (by simp [hp])]
      rfl
  · rw [hst,hkeep.2.2,hl]
    rfl
  · rw [hha,hkeep.1,hu.lastAnyRx,hseen]
    rfl
  · rw [hhd,hkeep.2.1,hrx]
    rfl

theorem stamped_accepted {x : Transition P} {u : Tunnel P} {slot : Slot} {s : Session}
    {replay : ReplayWindow} {plain : List UInt8}
    (hu : u = x.before.seen x.input)
    (ha : x.after = u.commitTransport u.lastNow slot s replay plain.length)
    (ho : x.output = .decapsulated (.ok (delivered plain))) : Stamped x := by
  have hseen : u.timers = x.before.timers := by
    rw [hu,x.before.seen_frame x.input]
  have hpl : x.output.plaintext? = some plain := by
    rw [ho]
    exact plaintext?_delivered plain
  have hst : sentAny x = false := by rw [sentAny,ho]; rfl
  have hsd : sentData x = false := by rw [sentData,hst]; rfl
  have hha : heardAny x = true := by rw [heardAny,hpl]; rfl
  have hhd : heardData x = (plain != []) := by rw [heardData,hpl]; rfl
  obtain ⟨r,hr⟩ := commitTransport_noted u u.lastNow slot s replay plain.length
  have htm : x.after.timers = {u.timers.noteAccepted u.lastNow (s.promotedBy slot) plain.length with
      rekeyDue := r} := by
    rw [ha]
    exact hr
  have hl : x.after.lastNow = u.lastNow := by
    rw [ha]
    exact commitTransport_lastNow _ _ _ _ _ _
  have hkeep : x.after.timers.lastDataTx = u.timers.lastDataTx ∧
      x.after.timers.lastAnyTx = u.timers.lastAnyTx ∧
      x.after.timers.lastAnyRx = some u.lastNow ∧ x.after.timers.lastDataRx =
        if (plain.length == 0) = true then u.timers.lastDataRx else some u.lastNow := by
    rw [htm]
    unfold Timers.noteAccepted
    split <;> exact ⟨rfl,rfl,rfl,rfl⟩
  obtain ⟨h1,h2,h3,h4⟩ := hkeep
  refine ⟨?_,?_,?_,Or.inl ?_⟩
  · rw [hsd,h1,hseen]
    rfl
  · rw [hst,h2,hseen]
    rfl
  · rw [hha,h3,hl]
    rfl
  · rw [hhd,h4,hseen,hl]
    cases plain <;> rfl

theorem stamped_step (C : ChaChaImpl) (t : Tunnel P) (op : Op)
    (hw : wiped (Machine.advance (step C) t op) = false) :
    Stamped (Machine.advance (step C) t op) := by
  let x := Machine.advance (step C) t op
  have hd : Deed C t op x.output x.after := step_deed C t op
  generalize ho : x.output = o at hd
  generalize ha : x.after = t' at hd
  cases hd with
  | rested hu hq hop =>
    have hq : x.output.uneventful = true := by rw [ho]; exact hq
    exact stamped_still hu (by rw [ha]) (Or.inr (by rw [ha]))
      (by rw [ha]) (uneventful_transport? hq) (uneventful_plaintext? hq)
  | launched now index eph jitter hu he h0 hi =>
    rw [← ho] at h0 hi
    exact stamped_still hu (by rw [ha]; rfl) (Or.inr (by rw [ha]; rfl)) (by rw [ha]; rfl) h0
      (plaintext?_of_initiation? hi)
  | posted s plain hu hs hc hi =>
    rw [← ho] at hi
    exact stamped_posted hu hc ha hi
  | discarded hu hdis =>
    exfalso
    rw [← ho] at hdis
    have : wiped x = true := by
      rcases hdis with ⟨hr,_⟩ | hp
      · show (op.isReset || _) = true
        rw [hr]
        rfl
      · rw [wiped,hp]
        simp
    rw [this] at hw
    cases hw
  | abandoned hu hr =>
    exact stamped_still hu (by rw [ha]; rfl) (Or.inr (by rw [ha]; rfl)) (by rw [ha]; rfl)
      (by rw [ho]; rfl) (by rw [ho]; rfl)
  | received now remote underLoad datagram out rng hop hr hok =>
    have hseen : t.observe now = x.before.seen x.input := by
      show _ = t.seen op
      rw [hop]
      rfl
    cases hr with
    | rejected t' rest e ht =>
      obtain ⟨y,hy⟩ := hok
      cases hy
    | accepted m slot s plain hm hx hs hn hage hk hopen => exact stamped_accepted hseen ha ho
    | _ =>
      exact stamped_still (u := t.observe now) (hseen ▸ .refl _) (by rw [ha]; rfl) (Or.inl rfl)
        (by rw [ha]; rfl) (by rw [ho]; rfl) (by rw [ho]; rfl)

theorem uneventful_ne_expired {o : Output} (h : o.uneventful = true) :
    o ≠ .polled (.ok .sessionsExpired) := by
  rintro rfl
  cases h

theorem wiped_step (C : ChaChaImpl) (t : Tunnel P) (op : Op)
    (hw : wiped (Machine.advance (step C) t op) = true) :
    (step C t op).1.timers.stamps = (none,none,none,none) ∧
      (step C t op).2.transport? = none ∧ (step C t op).2.plaintext? = none ∧
      (step C t op).2 ≠ .decapsulated (.ok .handshakeComplete) := by
  have hw' : op = .reset ∨ (step C t op).2 = .polled (.ok .sessionsExpired) := by
    simp only [wiped,Machine.advance,Bool.or_eq_true,beq_iff_eq] at hw
    refine hw.imp_left fun hr => ?_
    cases op <;> first | rfl | cases hr
  rcases hw' with rfl | he
  · exact ⟨rfl,rfl,rfl,by simp [step]⟩
  have hd := step_deed C t op
  rw [he] at hd ⊢
  refine ⟨?_,rfl,rfl,by simp⟩
  generalize (step C t op).1 = t' at hd
  cases hd with
  | rested hu ho hop => exact absurd rfl (uneventful_ne_expired ho)
  | launched now index eph jitter hu ha h0 hi => cases hi
  | posted s plain hu hs hc hi => cases hi
  | discarded hu ho => rfl

theorem step_clock (C : ChaChaImpl) (t : Tunnel P) (op : Op) :
    t.lastNow ≤ (step C t op).1.lastNow := by
  rw [(step_deed C t op).lastNow]
  exact t.le_seen op

theorem stamped_run {C : ChaChaImpl} {t : Tunnel P} {ops : List Op} {x : Transition P}
    (hx : x ∈ run C t ops) (hw : wiped x = false) : Stamped x := by
  obtain ⟨s,op,_,rfl⟩ := Machine.mem_history _ _ _ _ hx
  exact stamped_step C s op hw

def overdue (stamp : Ticks) (other : Option Ticks) (limit : ℕ) (now : Ticks) : Bool :=
  other.all (fun b => b < stamp) && decide (limit ≤ now.since stamp)

theorem overdue_from_iff {first stamp : Ticks} {other : Option Ticks} {limit : ℕ}
    (hp : 0 < limit) (hle : first ≤ stamp) (ho : ∀ b, other = some b → b ≤ first) :
    (∀ now : Ticks, first.nanos+limit ≤ now.nanos → overdue stamp other limit now = true) ↔
      u64Max < first.nanos+limit ∨ stamp = first ∧ other ≠ some first := by
  rw [Ticks.le_iff] at hle
  constructor
  · intro h
    by_cases hmax : u64Max < first.nanos+limit
    · exact Or.inl hmax
    have hat := h ⟨first.nanos+limit,not_lt.mp hmax⟩ le_rfl
    rw [overdue,Bool.and_eq_true] at hat
    have hat' : limit ≤ first.nanos+limit-stamp.nanos := of_decide_eq_true hat.2
    have hs : stamp = first := Ticks.nanos_injective (by omega)
    refine Or.inr ⟨hs,fun hf => ?_⟩
    rw [hf,hs] at hat
    exact absurd (of_decide_eq_true hat.1) (lt_irrefl first)
  · rintro (hmax | ⟨rfl,hne⟩) now hnow
    · have := now.nanos_le
      omega
    · unfold overdue
      rw [Bool.and_eq_true,decide_eq_true_eq,Ticks.since]
      refine ⟨?_,by omega⟩
      cases hb : other with
      | none => rfl
      | some b =>
        have hbl := ho b hb
        exact decide_eq_true (lt_of_le_of_ne hbl fun he => hne (by rw [hb,he]))

/-- A message is stamped at the start of a run that leaves its answers alone. -/
theorem overdue_run_iff {C : ChaChaImpl} {v : Tunnel P} {ops : List Op} (limit : ℕ)
    (stamp other : Tunnel P → Option Ticks) (mark : Transition P → Bool) (hp : 0 < limit)
    (h0 : stamp v = some v.lastNow) (hb : ∀ b, other v = some b → b ≤ v.lastNow)
    (hs : ∀ y ∈ run C v ops,
      stamp y.after = if mark y then some y.after.lastNow else stamp y.before)
    (ho : ∀ y ∈ run C v ops, other y.after = other y.before) :
    ∃ latest, stamp (Machine.final (step C) v ops) = some latest ∧
      ((∀ now : Ticks, v.lastNow.nanos+limit ≤ now.nanos →
          overdue latest (other (Machine.final (step C) v ops)) limit now = true) ↔
        u64Max < v.lastNow.nanos+limit ∨
        (∀ y ∈ run C v ops, mark y = true → y.after.lastNow = v.lastNow) ∧
          other v ≠ some v.lastNow) := by
  obtain ⟨latest,hlast,hle,hiff⟩ := Machine.stamp_latest Tunnel.lastNow (step_clock C) hs h0
  have hkept : other (Machine.final (step C) v ops) = other v := Machine.final_kept other ho
  refine ⟨latest,hlast,?_⟩
  rw [hkept,overdue_from_iff hp hle hb,hiff]
  rfl

theorem deadPeerDue_eq {tm : Timers} {tx : Ticks} (htx : tm.lastDataTx = some tx)
    (hg : tm.gaveUp = false) (now : Ticks) :
    tm.deadPeerDue now = overdue tx tm.lastAnyRx deadPeerTimeout now := by
  unfold Timers.deadPeerDue Timers.unansweredTx overdue
  rw [hg,htx]
  cases tm.lastAnyRx <;> rfl

theorem passiveKeepaliveDue_eq {tm : Timers} {rx : Ticks} (hrx : tm.lastDataRx = some rx)
    (now : Ticks) :
    tm.passiveKeepaliveDue now = overdue rx tm.lastAnyTx keepaliveTimeout now := by
  unfold Timers.passiveKeepaliveDue Timers.unansweredRx overdue
  rw [hrx]
  cases tm.lastAnyTx <;> rfl

theorem not_wiped_of_sent {C : ChaChaImpl} {t : Tunnel P} {op : Op}
    (h : sentAny (Machine.advance (step C) t op) = true) :
    wiped (Machine.advance (step C) t op) = false := by
  by_contra hw
  have ht := (wiped_step C t op (by simpa using hw)).2.1
  rw [sentAny] at h
  exact absurd (h.symm.trans (congrArg Option.isSome ht)) (by simp)

theorem not_heard_of_sent {x : Transition P} (h : sentAny x = true) : heardAny x = false := by
  unfold sentAny at h
  obtain ⟨w,hw⟩ := Option.isSome_iff_exists.mp h
  rw [heardAny,plaintext?_of_transport? hw]
  rfl

/-- After a payload has gone out and nothing was heard since, the peer counts as
dead in time exactly if every later payload went out at the same instant and
nothing was heard at that instant before. -/
theorem dead_peer_noticed_iff (C : ChaChaImpl) {config : Config} {t : Tunnel P}
    (ht : withBackend P config = .ok t) (before : List Op) (op : Op) (after : List Op) :
    let x := Machine.advance (step C) (Machine.final (step C) t before) op
    let h := run C x.after after
    let u := Machine.final (step C) x.after after
    sentData x = true →
    (∀ y ∈ h, heardAny y = false ∧ y.output ≠ .decapsulated (.ok .handshakeComplete) ∧
      wiped y = false) →
    u.timers.gaveUp = false →
    ((∀ now : Ticks, x.after.lastNow.nanos+deadPeerTimeout ≤ now.nanos →
        u.timers.deadPeerDue now = true) ↔
      u64Max < x.after.lastNow.nanos+deadPeerTimeout ∨
      (∀ y ∈ h, sentData y = true → y.after.lastNow = x.after.lastNow) ∧
        x.before.timers.lastAnyRx ≠ some x.after.lastNow) := by
  intro x h u hsent hquiet hgave
  have hany : sentAny x = true := (Bool.and_eq_true_iff.mp hsent).1
  have hx : Stamped x := stamped_step C _ op (not_wiped_of_sent hany)
  have hpast : Past x.after := past_step (past_reachable ht ⟨before,rfl⟩) op
  have hrx : x.after.timers.lastAnyRx = x.before.timers.lastAnyRx := by
    have hr := hx.anyRx
    rwa [not_heard_of_sent hany] at hr
  have hstamped : ∀ y ∈ h, Stamped y := fun y hy => stamped_run hy (hquiet y hy).2.2
  obtain ⟨tx,hlast,hiff⟩ := overdue_run_iff deadPeerTimeout
    (fun v => v.timers.lastDataTx) (fun v => v.timers.lastAnyRx) sentData (by decide)
    (hx.dataTx.trans (if_pos hsent)) hpast.timers.anyRx (fun y hy => (hstamped y hy).dataTx)
    fun y hy => by
      have hr := (hstamped y hy).anyRx
      rwa [(hquiet y hy).1] at hr
  rw [← hrx,← hiff]
  have hdue : ∀ now, u.timers.deadPeerDue now = overdue tx u.timers.lastAnyRx deadPeerTimeout now :=
    deadPeerDue_eq hlast hgave
  simp only [hdue]
  rfl

/-- A payload at 0 s after a handshake at 0 s, and one more at 10 s. -/
def specimenSends : List Op × Op × List Op :=
  let out : List UInt8 := List.replicate 148 0
  (specimenOps.take 2,.encapsulate ⟨Ticks.zero,0,0⟩ specimenPayload out [],
    [.encapsulate ⟨⟨10*second,by decide⟩,0,0⟩ specimenPayload out []])

theorem dead_peer_noticed_specimen :
    let x := Machine.advance (step (scalar specimen))
      (Machine.final (step (scalar specimen)) specimenTunnel specimenSends.1) specimenSends.2.1
    let u := Machine.final (step (scalar specimen)) x.after []
    ∀ now : Ticks, x.after.lastNow.nanos+deadPeerTimeout ≤ now.nanos →
      u.timers.deadPeerDue now = true :=
  (dead_peer_noticed_iff (scalar specimen) (t := specimenTunnel)
    (withBackend_build (by decide +kernel)) specimenSends.1 specimenSends.2.1 []
    (by decide +kernel) (fun y hy => absurd hy List.not_mem_nil) (by decide +kernel)).mpr
    (Or.inr ⟨fun y hy => absurd hy List.not_mem_nil,by decide +kernel⟩)

/-- The second payload puts the detection off: nothing was heard for 15 s after
the first one, and no handshake is due. -/
theorem further_send_postpones_detection :
    let x := Machine.advance (step (scalar specimen))
      (Machine.final (step (scalar specimen)) specimenTunnel specimenSends.1) specimenSends.2.1
    let h := run (scalar specimen) x.after specimenSends.2.2
    let u := Machine.final (step (scalar specimen)) x.after specimenSends.2.2
    sentData x = true ∧ x.after.lastNow = Ticks.zero ∧
    (∀ y ∈ h, heardAny y = false ∧ y.output ≠ .decapsulated (.ok .handshakeComplete) ∧
      wiped y = false) ∧
    u.timers.gaveUp = false ∧
    u.timers.deadPeerDue ⟨deadPeerTimeout,by decide⟩ = false := by
  refine ⟨by decide +kernel,by decide +kernel,by decide +kernel,by decide +kernel,
    by decide +kernel⟩

def Timers.Answered (tm : Timers) : Prop :=
  ∀ tx, tm.lastDataTx = some tx → tm.unansweredTx tx = false

theorem deadPeerDue_of_answered {tm : Timers} (h : tm.Answered) (now : Ticks) :
    tm.deadPeerDue now = false := by
  unfold Timers.deadPeerDue
  split
  · rfl
  · split
    · rfl
    · rename_i tx htx
      rw [h tx htx,Bool.false_and]

theorem answered_of_heard {C : ChaChaImpl} {t : Tunnel P} (hp : Past t) (op : Op)
    (h : heardAny (Machine.advance (step C) t op) = true ∨
      wiped (Machine.advance (step C) t op) = true) : (step C t op).1.timers.Answered := by
  intro tx htx
  cases hw : wiped (Machine.advance (step C) t op) with
  | true =>
    have hst := (wiped_step C t op hw).1
    simp only [Timers.stamps,Prod.mk.injEq] at hst
    rw [hst.1] at htx
    cases htx
  | false =>
    have hh : heardAny (Machine.advance (step C) t op) = true := by simpa [hw] using h
    have hs := stamped_step C t op hw
    have hrx : (step C t op).1.timers.lastAnyRx = some (step C t op).1.lastNow :=
      hs.anyRx.trans (if_pos hh)
    have hle : tx ≤ (step C t op).1.lastNow :=
      (past_step (C := C) hp op).timers.dataTx tx htx
    unfold Timers.unansweredTx
    rw [hrx]
    exact decide_eq_false (not_lt.mpr hle)

theorem answered_step {C : ChaChaImpl} {t : Tunnel P} (hp : Past t) (op : Op)
    (hn : sentData (Machine.advance (step C) t op) = false) (h : t.timers.Answered) :
    (step C t op).1.timers.Answered := by
  by_cases hh : heardAny (Machine.advance (step C) t op) = true ∨
      wiped (Machine.advance (step C) t op) = true
  · exact answered_of_heard hp op hh
  rw [not_or,Bool.not_eq_true,Bool.not_eq_true] at hh
  have hs := stamped_step C t op hh.2
  have htx := hs.dataTx
  have hrx := hs.anyRx
  rw [hn] at htx
  rw [hh.1] at hrx
  intro tx heq
  unfold Timers.unansweredTx
  rw [show (step C t op).1.timers.lastAnyRx = t.timers.lastAnyRx from hrx]
  exact h tx (htx.symm.trans heq)

theorem answered_run {C : ChaChaImpl} {t : Tunnel P} (hp : Past t) (ops : List Op)
    (hn : ∀ y ∈ run C t ops, sentData y = false)
    (h : t.timers.Answered ∨ ∃ y ∈ run C t ops, heardAny y = true ∨ wiped y = true) :
    (Machine.final (step C) t ops).timers.Answered := by
  have hinv := Machine.history_invariant (step C) t
    (fun l u => Past u ∧ ((∀ y ∈ l, sentData y = false) →
      (t.timers.Answered ∨ ∃ y ∈ l, heardAny y = true ∨ wiped y = true) → u.timers.Answered))
    ⟨hp,fun _ h => h.elim id (fun ⟨y,hy,_⟩ => by cases hy)⟩ ?_ ops
  · exact hinv.2 hn h
  rintro l u op ⟨hpu,hold⟩
  refine ⟨past_step hpu op,fun hn h => ?_⟩
  have hlast := hn (Machine.advance (step C) u op) (by simp)
  have hbefore : ∀ y ∈ l, sentData y = false := fun y hy => hn y (List.mem_append_left _ hy)
  rcases h with h | ⟨y,hy,h⟩
  · exact answered_step hpu op hlast (hold hbefore (Or.inl h))
  · rcases List.mem_append.mp hy with hy | hy
    · exact answered_step hpu op hlast (hold hbefore (Or.inr ⟨y,hy,h⟩))
    · rw [List.mem_singleton.mp hy] at h
      exact answered_of_heard hpu op h

/-- An accepted message has promoted the next session. -/
def promoted (x : Transition P) : Bool :=
  heardAny x &&
    match x.input with
    | .decapsulate _ _ _ datagram _ _ =>
      match parse datagram with
      | .ok (.transportData m) =>
        x.before.sessionWithIndex m.receiverIndex == some .next &&
          x.before.next.any (fun s => !s.confirmed)
      | _ => false
    | _ => false

theorem deadPeerDue_never_iff {tm : Timers} (hg : tm.gaveUp = false) :
    (∀ now, tm.deadPeerDue now = false) ↔ ∀ tx, tm.lastDataTx = some tx →
      tm.unansweredTx tx = false ∨ u64Max < tx.nanos+deadPeerTimeout := by
  constructor
  · intro h tx htx
    by_cases hmax : u64Max < tx.nanos+deadPeerTimeout
    · exact Or.inr hmax
    have hat := h ⟨tx.nanos+deadPeerTimeout,not_lt.mp hmax⟩
    unfold Timers.deadPeerDue at hat
    rw [hg,htx] at hat
    have hage : decide (deadPeerTimeout ≤
        Ticks.since ⟨tx.nanos+deadPeerTimeout,not_lt.mp hmax⟩ tx) = true := by
      simp [Ticks.since]
    simp only [Bool.false_eq_true,if_false,hage,Bool.and_true] at hat
    exact Or.inl hat
  · intro h now
    cases htx : tm.lastDataTx with
    | none =>
      unfold Timers.deadPeerDue
      rw [hg,htx]
      rfl
    | some tx =>
      unfold Timers.deadPeerDue
      rw [hg,htx]
      rcases h tx htx with hu | hmax
      · simp [hu]
      · have hlt : ¬deadPeerTimeout ≤ now.since tx := by
          have hm := now.nanos_le
          have hp : 0 < deadPeerTimeout := by decide
          unfold Ticks.since
          omega
        simp [hlt]

theorem deadPeerDue_of_gaveUp {tm : Timers} (h : tm.gaveUp = true) (now : Ticks) :
    tm.deadPeerDue now = false := by
  unfold Timers.deadPeerDue
  rw [if_pos h]

theorem stamps_kept {C : ChaChaImpl} {t : Tunnel P} {ops : List Op}
    (h : ∀ y ∈ run C t ops, sentData y = false ∧ heardAny y = false ∧ wiped y = false) :
    (Machine.final (step C) t ops).timers.lastDataTx = t.timers.lastDataTx ∧
      (Machine.final (step C) t ops).timers.lastAnyRx = t.timers.lastAnyRx := by
  constructor
  · refine Machine.final_kept (fun v : Tunnel P => v.timers.lastDataTx) fun y hy => ?_
    obtain ⟨hs,_,hw⟩ := h y hy
    have htx := (stamped_run hy hw).dataTx
    rwa [hs] at htx
  · refine Machine.final_kept (fun v : Tunnel P => v.timers.lastAnyRx) fun y hy => ?_
    obtain ⟨_,hh,hw⟩ := h y hy
    have hrx := (stamped_run hy hw).anyRx
    rwa [hh] at hrx

theorem completed_still {C : ChaChaImpl} {t : Tunnel P} {op : Op}
    (h : (step C t op).2 = .decapsulated (.ok .handshakeComplete)) :
    sentData (Machine.advance (step C) t op) = false ∧
      heardAny (Machine.advance (step C) t op) = false ∧
      wiped (Machine.advance (step C) t op) = false := by
  refine ⟨?_,?_,?_⟩
  · rw [sentData,sentAny,show (Machine.advance (step C) t op).output = _ from h]
    rfl
  · rw [heardAny,show (Machine.advance (step C) t op).output = _ from h]
    rfl
  · by_contra hw
    exact (wiped_step C t op (by simpa using hw)).2.2.2 h

/-- A completed handshake settles dead-peer detection exactly if it completed by
a message of the peer, the peer was heard or the sessions were wiped since, the
tunnel has given up, or nothing was unanswered when it completed. -/
theorem completion_settles_iff (C : ChaChaImpl) {config : Config} {t : Tunnel P}
    (ht : withBackend P config = .ok t) (before : List Op) (op : Op) (after : List Op) :
    let x := Machine.advance (step C) (Machine.final (step C) t before) op
    let h := run C x.after after
    let u := Machine.final (step C) x.after after
    (x.output = .decapsulated (.ok .handshakeComplete) ∨ promoted x = true) →
    (∀ y ∈ h, sentData y = false) →
    ((∀ now, u.timers.deadPeerDue now = false) ↔
      promoted x = true ∨ (∃ y ∈ h, heardAny y = true ∨ wiped y = true) ∨
      u.timers.gaveUp = true ∨
      ∀ tx, x.before.timers.lastDataTx = some tx →
        x.before.timers.unansweredTx tx = false ∨ u64Max < tx.nanos+deadPeerTimeout) := by
  intro x h u hdone hquiet
  have hpast : Past x.before := past_reachable ht ⟨before,rfl⟩
  have hpast' : Past x.after := past_step hpast op
  by_cases hprom : promoted x = true
  · have hans : x.after.timers.Answered :=
      answered_of_heard hpast op (Or.inl (Bool.and_eq_true_iff.mp hprom).1)
    exact iff_of_true (deadPeerDue_of_answered (answered_run hpast' after hquiet (Or.inl hans)))
      (Or.inl hprom)
  by_cases hheard : ∃ y ∈ h, heardAny y = true ∨ wiped y = true
  · have hans := answered_run hpast' after hquiet (Or.inr hheard)
    exact iff_of_true (deadPeerDue_of_answered hans) (Or.inr (Or.inl hheard))
  by_cases hgave : u.timers.gaveUp = true
  · exact iff_of_true (deadPeerDue_of_gaveUp hgave) (Or.inr (Or.inr (Or.inl hgave)))
  -- What is left: a response has completed the handshake and nothing moves the stamps after it.
  have hstill : ∀ y ∈ run C x.before (op::after),
      sentData y = false ∧ heardAny y = false ∧ wiped y = false := by
    intro y hy
    rcases List.mem_cons.mp hy with rfl | hy
    · exact completed_still (hdone.resolve_right hprom)
    · rw [← Bool.not_eq_true (heardAny y),← Bool.not_eq_true (wiped y)]
      exact ⟨hquiet y hy,not_or.mp fun ha => hheard ⟨y,hy,ha⟩⟩
  obtain ⟨htx,hrx⟩ : u.timers.lastDataTx = x.before.timers.lastDataTx ∧
    u.timers.lastAnyRx = x.before.timers.lastAnyRx := stamps_kept hstill
  have hun : ∀ tx, u.timers.unansweredTx tx = x.before.timers.unansweredTx tx := by
    intro tx
    unfold Timers.unansweredTx
    rw [hrx]
  rw [deadPeerDue_never_iff (Bool.eq_false_iff.mpr hgave),htx]
  simp only [hun]
  constructor
  · exact fun hall => Or.inr (Or.inr (Or.inr hall))
  · exact fun hall => ((hall.resolve_left hprom).resolve_left hheard).resolve_left hgave

theorem completion_settles_specimen :
    let x := Machine.advance (step (scalar specimen))
      (Machine.final (step (scalar specimen)) specimenTunnel (specimenOps.take 1))
      (specimenOps.get ⟨1,by decide⟩)
    let u := Machine.final (step (scalar specimen)) x.after []
    x.output = .decapsulated (.ok .handshakeComplete) ∧ ∀ now, u.timers.deadPeerDue now = false :=
  ⟨by decide +kernel,(completion_settles_iff (scalar specimen) (t := specimenTunnel)
    (withBackend_build (by decide +kernel)) (specimenOps.take 1) (specimenOps.get ⟨1,by decide⟩) []
    (Or.inl (by decide +kernel)) (fun y hy => absurd hy List.not_mem_nil)).mpr
    (Or.inr (Or.inr (Or.inr (by decide +kernel))))⟩

/-- A handshake and a payload at 0 s, the poll that notices the silence at 15 s,
and the response to its initiation at 16 s. -/
def specimenLoss : List Op × Op :=
  let out : List UInt8 := List.replicate 148 0
  (specimenOps.take 3 ++
      [.poll ⟨⟨15*second,by decide⟩,0,0⟩ out (List.replicate 3 (some (fun _ => 1)))],
    .decapsulate ⟨⟨16*second,by decide⟩,0,0⟩ [] false
      ([2,0,0,0,0,0,0,0,1,1,1,1] ++ List.replicate 80 0) out [])

/-- The peer has just answered the handshake and nothing was sent since, but it
still counts as dead because of the payload that was lost before. -/
theorem completion_leaves_peer_dead :
    let x := Machine.advance (step (scalar specimen))
      (Machine.final (step (scalar specimen)) specimenTunnel specimenLoss.1) specimenLoss.2
    x.output = .decapsulated (.ok .handshakeComplete) ∧
      x.after.timers.deadPeerDue x.after.lastNow = true := by
  refine ⟨by decide +kernel,by decide +kernel⟩

theorem heardAny_of_data {x : Transition P} (h : heardData x = true) : heardAny x = true := by
  unfold heardData at h
  unfold heardAny
  cases hp : x.output.plaintext? with
  | none =>
    rw [hp] at h
    cases h
  | some plain => rfl

theorem not_sent_of_heard {x : Transition P} (h : heardAny x = true) : sentAny x = false := by
  by_contra hs
  rw [not_heard_of_sent (by simpa using hs)] at h
  cases h

theorem not_wiped_of_heard {C : ChaChaImpl} {t : Tunnel P} {op : Op}
    (h : heardAny (Machine.advance (step C) t op) = true) :
    wiped (Machine.advance (step C) t op) = false := by
  by_contra hw
  have hp := (wiped_step C t op (by simpa using hw)).2.2.1
  rw [heardAny] at h
  exact absurd (h.symm.trans (congrArg Option.isSome hp)) (by simp)

/-- After data was accepted and nothing was sent since, a passive keepalive is
due in time exactly if all later data came at the same instant and nothing was
sent at that instant before. -/
theorem passive_keepalive_noticed_iff (C : ChaChaImpl) {config : Config} {t : Tunnel P}
    (ht : withBackend P config = .ok t) (before : List Op) (op : Op) (after : List Op) :
    let x := Machine.advance (step C) (Machine.final (step C) t before) op
    let h := run C x.after after
    let u := Machine.final (step C) x.after after
    heardData x = true →
    (∀ y ∈ h, sentAny y = false ∧ wiped y = false) →
    (∀ y ∈ x::h, y.after.currentUsable y.after.lastNow = true) →
    ((∀ now : Ticks, x.after.lastNow.nanos+keepaliveTimeout ≤ now.nanos →
        u.timers.passiveKeepaliveDue now = true) ↔
      u64Max < x.after.lastNow.nanos+keepaliveTimeout ∨
      (∀ y ∈ h, heardData y = true → y.after.lastNow = x.after.lastNow) ∧
        x.before.timers.lastAnyTx ≠ some x.after.lastNow) := by
  intro x h u hheard hquiet husable
  have hany : heardAny x = true := heardAny_of_data hheard
  have hx : Stamped x := stamped_step C _ op (not_wiped_of_heard hany)
  have hpast : Past x.after := past_step (past_reachable ht ⟨before,rfl⟩) op
  have htx : x.after.timers.lastAnyTx = x.before.timers.lastAnyTx := by
    have hs := hx.anyTx
    rwa [not_sent_of_heard hany] at hs
  have hstamped : ∀ y ∈ h, Stamped y := fun y hy => stamped_run hy (hquiet y hy).2
  -- A usable session never has its passive keepalive disarmed.
  have hdata : ∀ y ∈ x::h, Stamped y → y.after.timers.lastDataRx =
      if heardData y then some y.after.lastNow else y.before.timers.lastDataRx := by
    intro y hy hs
    rcases hs.dataRx with hd | ⟨_,hn⟩
    · exact hd
    · rw [husable y hy] at hn
      cases hn
  obtain ⟨rx,hlast,hiff⟩ := overdue_run_iff keepaliveTimeout
    (fun v => v.timers.lastDataRx) (fun v => v.timers.lastAnyTx) heardData (by decide)
    ((hdata x (List.mem_cons_self ..) hx).trans (if_pos hheard)) hpast.timers.anyTx
    (fun y hy => hdata y (List.mem_cons_of_mem _ hy) (hstamped y hy))
    fun y hy => by
      have hs := (hstamped y hy).anyTx
      rwa [(hquiet y hy).1] at hs
  rw [← htx,← hiff]
  have hdue : ∀ now, u.timers.passiveKeepaliveDue now =
      overdue rx u.timers.lastAnyTx keepaliveTimeout now := passiveKeepaliveDue_eq hlast
  simp only [hdue]
  rfl

/-- Data at 0 s on a fresh session, and more data at 5 s. -/
def specimenInbound : Op × List Op :=
  let out : List UInt8 := List.replicate 148 0
  (.decapsulate ⟨Ticks.zero,0,0⟩ [] false (4::List.replicate 47 0) out [],
    [.decapsulate ⟨⟨5*second,by decide⟩,0,0⟩ [] false
      ([4,0,0,0,0,0,0,0,1] ++ List.replicate 39 0) out []])

theorem passive_keepalive_noticed_specimen :
    let x := Machine.advance (step (scalar specimen))
      (Machine.final (step (scalar specimen)) specimenTunnel (specimenOps.take 2)) specimenInbound.1
    let u := Machine.final (step (scalar specimen)) x.after []
    ∀ now : Ticks, x.after.lastNow.nanos+keepaliveTimeout ≤ now.nanos →
      u.timers.passiveKeepaliveDue now = true :=
  (passive_keepalive_noticed_iff (scalar specimen) (t := specimenTunnel)
    (withBackend_build (by decide +kernel)) (specimenOps.take 2) specimenInbound.1 []
    (by decide +kernel) (fun y hy => absurd hy List.not_mem_nil) (by decide +kernel)).mpr
    (Or.inr ⟨fun y hy => absurd hy List.not_mem_nil,by decide +kernel⟩)

/-- The second message puts the keepalive off: data came in at 0 s, nothing was
sent for 10 s, and no keepalive is due. -/
theorem further_data_postpones_keepalive :
    let x := Machine.advance (step (scalar specimen))
      (Machine.final (step (scalar specimen)) specimenTunnel (specimenOps.take 2)) specimenInbound.1
    let h := run (scalar specimen) x.after specimenInbound.2
    let u := Machine.final (step (scalar specimen)) x.after specimenInbound.2
    heardData x = true ∧ x.after.lastNow = Ticks.zero ∧
    (∀ y ∈ h, sentAny y = false ∧ wiped y = false) ∧
    (∀ y ∈ x::h, y.after.currentUsable y.after.lastNow = true) ∧
    u.timers.passiveKeepaliveDue ⟨keepaliveTimeout,by decide⟩ = false := by
  refine ⟨by decide +kernel,by decide +kernel,by decide +kernel,by decide +kernel,
    by decide +kernel⟩

end WireGuard
