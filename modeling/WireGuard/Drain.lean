import WireGuard.Past
import WireGuard.Polling

/-!
# Draining a poll

Each action of a poll can arm another one: a keepalive asks for a rekey, an
abandoned or discarded handshake makes room for a new one. `pending` counts the
actions that are still possible at one instant. Every poll that is not idle
lowers it, so a caller that polls until nothing is left soon comes to an end.
-/

set_option autoImplicit false

namespace WireGuard
open ByteString Tunnel

variable {P : Primitives}

structure PollCall where
  now : Now
  out : List UInt8
  rng : Entropy

def drained (C : ChaChaImpl) (t : Tunnel P) (calls : ℕ → PollCall) : ℕ → Tunnel P
  | 0 => t
  | n+1 =>
    let u := drained C t calls n
    (u.poll C (calls n).now (calls n).out (calls n).rng).tunnel

def drainResult (C : ChaChaImpl) (t : Tunnel P) (calls : ℕ → PollCall) (n : ℕ) :
    Except Error PollOutput :=
  ((drained C t calls n).poll C (calls n).now (calls n).out (calls n).rng).result

namespace Tunnel

/-- The entropy of a call gives an unused index and then an ephemeral secret
with a usable shared secret. -/
def Supplied (t : Tunnel P) (rng : Entropy) : Prop :=
  ∃ bytes rest eph rest', rng.fill 4 = (some bytes,rest) ∧ t.indexClash (leU32 bytes) = false ∧
    rest.gen32 = (some eph,rest') ∧
      ctIsZero (P.x25519 (clampScalar eph) t.peerPublic).toList = false

instance (t : Tunnel P) : Decidable t.DiscardDue :=
  decidable_of_iff ((t.expireNext t.lastNow).newestSessionCreated.any
    (fun c => sessionDiscardTime ≤ t.lastNow.since c) = true)
    (by simp [DiscardDue,Option.any_eq_true])

def hopeless (t : Tunnel P) : Bool :=
  t.retransmitDue t.lastNow && t.timers.attemptExhausted t.lastNow

def mayInitiate (t : Tunnel P) : Bool :=
  t.retransmitDue t.lastNow || (t.inflight.isNone && t.timers.initiationAllowed t.lastNow)

def mayKeep (t : Tunnel P) : Bool :=
  t.currentUsable t.lastNow &&
    (t.timers.confirmKeepaliveDue || t.timers.lastAnyTx != some t.lastNow)

/-- A bound on the actions that polls can still take at the present instant. -/
def pending (t : Tunnel P) : ℕ :=
  if t.DiscardDue then 2 else t.hopeless.toNat+t.mayInitiate.toNat+t.mayKeep.toNat

theorem pending_le (t : Tunnel P) : t.pending ≤ 3 := by
  have h1 := t.hopeless.toNat_le
  have h2 := t.mayInitiate.toNat_le
  have h3 := t.mayKeep.toNat_le
  unfold pending
  split <;> omega

theorem expireNext_next (t : Tunnel P) (now : Ticks) :
    (t.expireNext now).next = t.next.filter (fun s => s.age now < rejectAfterTime) := by
  unfold expireNext
  cases h : t.next with
  | none => simp [h]
  | some s =>
    by_cases ha : rejectAfterTime ≤ s.age now
    · simp [ha,Option.filter]
    · simp [ha,h,Option.filter,not_le.mp ha]

theorem discardDue_congr {t t' : Tunnel P} (hl : t'.lastNow = t.lastNow)
    (hp : t'.previous = t.previous)
    (hc : t'.current.map Session.created = t.current.map Session.created)
    (hn : (t'.expireNext t'.lastNow).next = (t.expireNext t.lastNow).next) :
    t'.DiscardDue ↔ t.DiscardDue := by
  have hnew : (t'.expireNext t'.lastNow).newestSessionCreated =
      (t.expireNext t.lastNow).newestSessionCreated := by
    unfold newestSessionCreated
    rw [hn,expireNext_frame t',expireNext_frame t,hp]
    simp only [List.filterMap_cons,hc]
  unfold DiscardDue
  rw [hnew,hl]

theorem discardDue_frame {t t' : Tunnel P} (hl : t'.lastNow = t.lastNow)
    (hp : t'.previous = t.previous)
    (hc : t'.current.map Session.created = t.current.map Session.created)
    (hn : t'.next = t.next) (hd : ¬t.DiscardDue) : ¬t'.DiscardDue := by
  rwa [discardDue_congr hl hp hc]
  rw [expireNext_next,expireNext_next,hn,hl]

end Tunnel

theorem Tidied.expireNext_next {t u : Tunnel P} (h : Tidied t u) :
    (u.expireNext u.lastNow).next = (t.expireNext t.lastNow).next := by
  rw [Tunnel.expireNext_next,Tunnel.expireNext_next,h.lastNow]
  rcases h.next with hn | ⟨hn,s,hs,ha⟩
  · rw [hn]
  · rw [hn,hs]
    simp [Option.filter,ha]

theorem Tidied.discardDue {t u : Tunnel P} (h : Tidied t u) : u.DiscardDue ↔ t.DiscardDue :=
  discardDue_congr h.lastNow h.previous (by rw [h.current]) h.expireNext_next

theorem Tidied.indexClash {t u : Tunnel P} (h : Tidied t u) {index : UInt32}
    (hc : t.indexClash index = false) : u.indexClash index = false := by
  unfold Tunnel.indexClash sessionWithIndex inflightHas at hc ⊢
  rw [h.current,h.previous,h.inflight]
  rcases h.next with hn | ⟨hn,_⟩
  · rwa [hn]
  · rw [hn]
    simp only [Bool.or_eq_false_iff] at hc ⊢
    refine ⟨?_,hc.2⟩
    have hc := hc.1
    split at hc
    · cases hc
    · simpa [holds] using hc

theorem Tidied.mayKeep {t u : Tunnel P} (h : Tidied t u) : u.mayKeep.toNat ≤ t.mayKeep.toNat := by
  refine Bool.toNat_le_toNat fun hk => ?_
  unfold Tunnel.mayKeep at hk ⊢
  rw [h.currentUsable,h.lastNow,h.lastAnyTx,Bool.and_eq_true,Bool.or_eq_true] at hk
  rw [Bool.and_eq_true,Bool.or_eq_true]
  exact ⟨hk.1,hk.2.imp h.confirm id⟩

theorem Tidied.peerPublic {t u : Tunnel P} (h : Tidied t u) : u.peerPublic = t.peerPublic := by
  show u.core.peerPublic = t.core.peerPublic
  rw [h.core]

theorem Tunnel.Supplied.draw {t u : Tunnel P} {rng : Entropy} (h : t.Supplied rng)
    (hu : Tidied t u) : ∃ index eph rest, u.drawHandshake rng = (.ok (index,eph),rest) ∧
      ¬ctIsZero (P.x25519 (clampScalar eph) u.peerPublic).toList = true := by
  obtain ⟨bytes,rest,eph,rest',hb,hc,he,hz⟩ := h
  have hf : u.freshIndex rng = (.ok (leU32 bytes),rest) := by
    unfold freshIndex freshIndexLoop
    simp only [hb,hu.indexClash hc,Bool.false_eq_true,if_false]
  refine ⟨leU32 bytes,eph,rest',?_,by rw [hu.peerPublic,hz]; exact Bool.false_ne_true⟩
  unfold drawHandshake
  simp only [hf,he]

theorem sendInitiation_supplied {t u : Tunnel P} {now : Now} {out : List UInt8} {rng : Entropy}
    (f : List UInt8 → PollOutput) (hu : Tidied t u) (hs : t.Supplied rng)
    (hlen : handshakeInitiationLen ≤ out.length) (hn : now.ticks = u.lastNow) :
    ∃ index eph jitter wire,
      ((u.sendInitiation now out rng true).emit f).tunnel =
        (Act.initiate now index eph jitter).apply u ∧
      ((u.sendInitiation now out rng true).emit f).result = .ok (f wire) := by
  obtain ⟨index,eph,rest,hd,hz⟩ := hs.draw hu
  refine ⟨index,eph,(drawJitter true rest).1,
    u.withMacs u.lastNow ((u.initiationView now eph).alpha index),?_⟩
  rw [sendInitiation_eq,hd]
  dsimp only
  rw [if_neg (not_lt.mpr hlen),if_neg hz]
  simp only [Outcome.emit]
  rw [if_pos (by simp [handshakeInitiationLen]),
    List.take_left' (by simp [handshakeInitiationLen]),hn]
  exact ⟨rfl,rfl⟩

section Progress

variable {C : ChaChaImpl} {t u : Tunnel P}

theorem pending_of_young (hd : ¬t.DiscardDue) :
    t.pending = t.hopeless.toNat+t.mayInitiate.toNat+t.mayKeep.toNat := if_neg hd

theorem pending_discard (hd : t.DiscardDue) : u.discardAllSessions.pending < t.pending := by
  have hy : ¬u.discardAllSessions.DiscardDue := by
    rintro ⟨c,hc,_⟩
    cases hc
  have hi := u.discardAllSessions.mayInitiate.toNat_le
  rw [pending_of_young hy,pending,if_pos hd]
  have h1 : u.discardAllSessions.hopeless = false := rfl
  have h2 : u.discardAllSessions.mayKeep = false := rfl
  rw [h1,h2]
  simp only [Bool.toNat_false]
  omega

theorem pending_abandon (hu : Tidied t u) (hd : ¬t.DiscardDue)
    (hr : t.retransmitDue t.lastNow = true) (he : t.timers.attemptExhausted t.lastNow = true) :
    u.abandon.pending < t.pending := by
  have hy : ¬u.abandon.DiscardDue :=
    discardDue_frame (t := u) rfl rfl rfl rfl (mt hu.discardDue.mp hd)
  have h1 : u.abandon.hopeless = false := rfl
  have h2 := u.abandon.mayInitiate.toNat_le
  have h3 : u.abandon.mayKeep.toNat ≤ t.mayKeep.toNat := hu.mayKeep
  have h4 : t.hopeless = true := by simp [hopeless,hr,he]
  have h5 : t.mayInitiate = true := by simp [mayInitiate,hr]
  rw [pending_of_young hy,pending_of_young hd,h1,h4,h5]
  simp only [Bool.toNat_false,Bool.toNat_true]
  omega

theorem mayInitiate_of_prompted (hp : t.Prompted) : t.mayInitiate = true := by
  rcases hp with ⟨hr,_⟩ | ⟨hi,ha,_⟩
  · simp [mayInitiate,hr]
  · simp [mayInitiate,hi,ha]

theorem pending_initiate (hu : Tidied t u) (hd : ¬t.DiscardDue) (hp : t.Prompted) (now : Now)
    (index : UInt32) (eph : Bytes 32) (jitter : ℕ) (ho : t.lastNow.nanos+6*second ≤ u64Max) :
    ((Act.initiate now index eph jitter).apply u).pending < t.pending := by
  let v := (Act.initiate now index eph jitter).apply u
  have hy : ¬v.DiscardDue := discardDue_frame (t := u) rfl rfl rfl rfl (mt hu.discardDue.mp hd)
  have hr : v.retransmitDue v.lastNow = false := by
    have hlt : ¬(u.lastNow.addNanos rekeyTimeout).addNanos (min jitter rekeyTimeoutJitterMax) ≤
        u.lastNow := by
      have hs : rekeyTimeout = 5*second ∧ 0 < second := by decide
      rw [hu.lastNow,Ticks.le_iff]
      simp only [Ticks.addNanos_nanos]
      omega
    show (true && decide (_ ≤ u.lastNow)) = false
    rw [Bool.true_and]
    exact decide_eq_false hlt
  have h1 : v.hopeless = false := by simp [hopeless,hr]
  have h2 : v.mayInitiate = false := by
    simp only [mayInitiate,hr,Bool.false_or]
    rfl
  have h3 : v.mayKeep.toNat ≤ t.mayKeep.toNat := hu.mayKeep
  rw [pending_of_young hy,pending_of_young hd,h1,h2,mayInitiate_of_prompted hp]
  simp only [Bool.toNat_false,Bool.toNat_true]
  omega

theorem mayKeep_of_owing (hx : Past t) (hc : t.currentUsable t.lastNow = true) (ho : t.Owing) :
    t.mayKeep = true := by
  unfold mayKeep
  rw [hc,Bool.true_and,Bool.or_eq_true,bne_iff_ne]
  rcases ho with ho | ho | ⟨interval,_,ho⟩
  · exact Or.inl ho
  · refine Or.inr fun htx => ?_
    unfold Timers.passiveKeepaliveDue Timers.unansweredRx at ho
    rw [htx] at ho
    split at ho
    · cases ho
    rename_i rx hrx
    simp only [Bool.and_eq_true,decide_eq_true_eq] at ho
    exact absurd ho.1 (not_lt.mpr (hx.timers.dataRx rx hrx))
  · refine Or.inr fun htx => ?_
    have hb : t.keepaliveBase = t.lastNow := by
      unfold keepaliveBase
      rw [htx]
    have hp := intervalNs_pos interval
    rw [hb] at ho
    unfold Ticks.since at ho
    omega

theorem pending_keep (hu : Tidied t u) (hx : Past t) (hd : ¬t.DiscardDue)
    (hr : t.retransmitDue t.lastNow = false) (hc : t.currentUsable t.lastNow = true)
    (ho : t.Owing) : (u.commitSeal u.lastNow none).pending < t.pending := by
  let v := u.commitSeal u.lastNow none
  have hf : v = _ := commitSeal_frame u u.lastNow none
  obtain ⟨r,htm⟩ := commitSeal_noted u u.lastNow none
  have htm : v.timers = {u.timers.noteKeepaliveTx u.lastNow with rekeyDue := r} := htm
  have hl : v.lastNow = u.lastNow := commitSeal_lastNow _ _ _
  have hin : v.inflight = u.inflight := by rw [hf]
  have hrd : v.retransmitDue v.lastNow = false := by
    rw [← hr,← hu.retransmitDue,← hu.lastNow,hl]
    unfold retransmitDue
    rw [hin,htm]
    rfl
  have hy : ¬v.DiscardDue := by
    refine discardDue_frame (t := u) hl (by rw [hf]) ?_ (by rw [hf]) (mt hu.discardDue.mp hd)
    have hcur : v.current = u.takeCounter.current := slot_commitSeal u u.lastNow none .current
    rw [hcur]
    simp [takeCounter,Function.comp_def]
  have h1 : v.hopeless = false := by simp [hopeless,hrd]
  have h2 : v.mayInitiate.toNat ≤ t.mayInitiate.toNat := by
    refine Bool.toNat_le_toNat fun hm => ?_
    have ha : v.timers.initiationAllowed v.lastNow = t.timers.initiationAllowed t.lastNow := by
      rw [← hu.initiationAllowed,← hu.lastNow,hl,htm]
      rfl
    unfold mayInitiate at hm ⊢
    rwa [hrd,← hr,hin,hu.inflight,ha] at hm
  have h3 : v.mayKeep = false := by
    unfold mayKeep
    rw [htm,hl]
    simp [Timers.noteKeepaliveTx]
  rw [pending_of_young hy,pending_of_young hd,h1,h3,mayKeep_of_owing hx hc ho]
  simp only [Bool.toNat_false,Bool.toNat_true]
  omega

/-- A poll with entropy and a large buffer is idle, or acts and leaves less to
do. -/
theorem poll_progress (C : ChaChaImpl) (t : Tunnel P) (c : PollCall)
    (hx : Past (t.observe c.now)) (ho : (t.observe c.now).lastNow.nanos+6*second ≤ u64Max)
    (hlen : handshakeInitiationLen ≤ c.out.length) (hs : (t.observe c.now).Supplied c.rng) :
    (t.poll C c.now c.out c.rng).result = .ok .idle ∨
    ∃ o, (t.poll C c.now c.out c.rng).result = .ok o ∧ o ≠ .idle ∧
      (t.poll C c.now c.out c.rng).tunnel.lastNow = (t.observe c.now).lastNow ∧
      (t.poll C c.now c.out c.rng).tunnel.pending < (t.observe c.now).pending := by
  have hp := poll_polled C t c.now c.out c.rng
  generalize t.poll C c.now c.out c.rng = r at hp
  cases hp with
  | discarded u hu hd =>
    exact Or.inr ⟨_,rfl,nofun,hu.lastNow,pending_discard hd⟩
  | abandoned u hu hd hr he =>
    exact Or.inr ⟨_,rfl,nofun,hu.lastNow,pending_abandon hu hd hr he⟩
  | initiated u reason hu hd hl =>
    obtain ⟨index,eph,jitter,wire,htun,hres⟩ := sendInitiation_supplied
      (fun w => .send w reason) hu hs hlen
      (show (t.reading c.now).ticks = u.lastNow from hu.lastNow.symm)
    rw [htun,hres]
    exact Or.inr ⟨_,rfl,nofun,hu.lastNow,pending_initiate hu hd hl.prompted _ index eph jitter ho⟩
  | kept u reason hu hd ht hc howe =>
    replace hu := hu.tidied
    have hcu : u.currentUsable u.lastNow = true := by
      rw [hu.currentUsable,hu.lastNow]
      exact hc
    obtain hb | ⟨s,hcur,_,hk⟩ :=
      sendKeepalive_cases C u (t.reading c.now) c.out c.rng hu.lastNow.symm hcu
    · exfalso
      obtain ⟨s,hcur,hus⟩ := currentUsable_some hcu
      have hov : transportOverhead ≤ handshakeInitiationLen := by decide
      rw [sendKeepalive_eq C _ _ _ hcur (Session.usableForSend_iff.mp hus).2.1,
        if_neg (by omega)] at hb
      cases congrArg Outcome.result hb
    · rw [hk]
      exact Or.inr ⟨_,rfl,nofun,(commitSeal_lastNow _ _ _).trans hu.lastNow,
        pending_keep hu hx hd ht hc howe.owing⟩
  | idle hp hi => exact Or.inl rfl

end Progress

theorem drained_succ (C : ChaChaImpl) (t : Tunnel P) (calls : ℕ → PollCall) (n : ℕ) :
    drained C t calls (n+1) =
      drained C (drained C t calls 1) (fun i => calls (i+1)) n := by
  induction n with
  | zero => rfl
  | succ n ih =>
    rw [drained,ih]
    rfl

theorem drainResult_succ (C : ChaChaImpl) (t : Tunnel P) (calls : ℕ → PollCall) (n : ℕ) :
    drainResult C t calls (n+1) =
      drainResult C (drained C t calls 1) (fun i => calls (i+1)) n := by
  unfold drainResult
  rw [drained_succ]

theorem observe_eq {t : Tunnel P} {now : Now} (h : (t.observe now).lastNow = t.lastNow) :
    t.observe now = t := by
  show {t with lastNow := (t.observe now).lastNow} = t
  rw [h]

theorem past_step {C : ChaChaImpl} {t : Tunnel P} (h : Past t) (op : Op) :
    Past (step C t op).1 :=
  (step_refines C).step_invariant Past past_act h op

theorem drain_within (C : ChaChaImpl) (now : Ticks) (ho : now.nanos+6*second ≤ u64Max)
    (t : Tunnel P) (calls : ℕ → PollCall) (hx : Past t)
    (hnow : ∀ n ≤ (t.observe (calls 0).now).pending,
      ((drained C t calls n).observe (calls n).now).lastNow = now)
    (hlen : ∀ n ≤ (t.observe (calls 0).now).pending,
      handshakeInitiationLen ≤ (calls n).out.length)
    (hs : ∀ n ≤ (t.observe (calls 0).now).pending,
      (drained C t calls n).Supplied (calls n).rng) :
    ∃ n ≤ (t.observe (calls 0).now).pending, drainResult C t calls n = .ok .idle ∧
      ∀ m < n, ∃ o, drainResult C t calls m = .ok o ∧ o ≠ .idle := by
  induction hk : (t.observe (calls 0).now).pending using Nat.strong_induction_on
    generalizing t calls with
  | _ k ih =>
    rw [hk] at hnow hlen hs
    have h0 : (t.observe (calls 0).now).lastNow = now := hnow 0 (Nat.zero_le k)
    rcases poll_progress C t (calls 0) (hx.observe _) (by rw [h0]; exact ho)
      (hlen 0 (Nat.zero_le k)) (hs 0 (Nat.zero_le k)) with hidle | ⟨o,hres,hne,hl,hlt⟩
    · exact ⟨0,Nat.zero_le k,hidle,fun m hm => absurd hm (Nat.not_lt_zero m)⟩
    have hl : (drained C t calls 1).lastNow = now := hl.trans h0
    have hstay : (drained C t calls 1).observe (calls 1).now = drained C t calls 1 :=
      observe_eq ((hnow 1 (by omega)).trans hl.symm)
    have hless : ((drained C t calls 1).observe (calls 1).now).pending < k := by
      rw [hstay,← hk]
      exact hlt
    obtain ⟨n,hn,hidle,hbefore⟩ := ih _ hless (drained C t calls 1) (fun i => calls (i+1))
      (past_step (C := C) hx (.poll (calls 0).now (calls 0).out (calls 0).rng))
      (fun n hn => by rw [← drained_succ]; exact hnow (n+1) (lt_of_le_of_lt hn hless))
      (fun n hn => hlen (n+1) (lt_of_le_of_lt hn hless))
      (fun n hn => by rw [← drained_succ]; exact hs (n+1) (lt_of_le_of_lt hn hless)) rfl
    refine ⟨n+1,lt_of_le_of_lt hn hless,by rw [drainResult_succ]; exact hidle,fun m hm => ?_⟩
    cases m with
    | zero => exact ⟨o,hres,hne⟩
    | succ m =>
      rw [drainResult_succ]
      exact hbefore m (by omega)

/-- A caller that polls again and again at one instant sees at most three
results before `idle`. -/
theorem drain_terminates (C : ChaChaImpl) {config : Config} {t u : Tunnel P}
    (ht : withBackend P config = .ok t) (hu : Machine.Reachable (step C) t u) (now : Ticks)
    (ho : now.nanos+6*second ≤ u64Max) (calls : ℕ → PollCall)
    (hnow : ∀ n ≤ 3, ((drained C u calls n).observe (calls n).now).lastNow = now)
    (hlen : ∀ n ≤ 3, handshakeInitiationLen ≤ (calls n).out.length)
    (hs : ∀ n ≤ 3, (drained C u calls n).Supplied (calls n).rng) :
    ∃ n ≤ 3, drainResult C u calls n = .ok .idle ∧
      ∀ m < n, ∃ o, drainResult C u calls m = .ok o ∧ o ≠ .idle := by
  have hle := pending_le (u.observe (calls 0).now)
  obtain ⟨n,hn,hidle,hbefore⟩ := drain_within C now ho u calls (past_reachable ht hu)
    (fun n hn => hnow n (hn.trans hle)) (fun n hn => hlen n (hn.trans hle))
    (fun n hn => hs n (hn.trans hle))
  exact ⟨n,hn.trans hle,hidle,hbefore⟩

/-- A completed handshake that was never polled, and an attempt at a new one a
minute later that nobody answers. -/
def specimenNeglect : List Op :=
  specimenOps.take 2 ++ [.initiateHandshake ⟨⟨60*second,by decide⟩,0,0⟩ (List.replicate 148 0)
    (List.replicate 2 (some (fun _ => 1)))]

def specimenDrain (n : ℕ) : PollCall :=
  ⟨⟨⟨150*second,by decide⟩,0,0⟩,List.replicate 148 0,
    List.replicate 2 (some (fun _ => UInt8.ofNat (n+2)))⟩

theorem specimenDrain_supplied (t : Tunnel specimen) (n : ℕ)
    (h : t.indexClash (leU32 (List.Vector.ofFn (fun _ => UInt8.ofNat (n+2)))) = false)
    (hz : ctIsZero (specimen.x25519 (clampScalar (List.Vector.ofFn
      (fun _ => UInt8.ofNat (n+2)))) t.peerPublic).toList = false) :
    t.Supplied (specimenDrain n).rng :=
  ⟨_,_,_,_,rfl,h,rfl,hz⟩

/-- All three results before `idle` do occur: the attempt is abandoned, the
keepalive that confirms the session is sent, and it asks for a rekey. -/
theorem drain_terminates_specimen :
    let u := Machine.final (step (scalar specimen)) specimenTunnel specimenNeglect
    (drainResult (scalar specimen) u specimenDrain 0 = .ok .handshakeExpired ∧
      drainResult (scalar specimen) u specimenDrain 2 ≠ .ok .idle) ∧
    ∃ n ≤ 3, drainResult (scalar specimen) u specimenDrain n = .ok .idle ∧
      ∀ m < n, ∃ o, drainResult (scalar specimen) u specimenDrain m = .ok o ∧ o ≠ .idle := by
  intro u
  refine ⟨⟨by decide +kernel,by decide +kernel⟩,?_⟩
  refine drain_terminates (scalar specimen) (withBackend_build (by decide +kernel))
    ⟨specimenNeglect,rfl⟩ ⟨150*second,by decide⟩ (by decide) specimenDrain ?_ ?_ fun n hn => ?_
  · decide +kernel
  · exact fun n _ => by simp [specimenDrain,handshakeInitiationLen]
  · refine specimenDrain_supplied _ n ?_ ?_
    · revert n
      decide +kernel
    · revert n
      decide +kernel

end WireGuard
