import Mathlib.Algebra.BigOperators.Group.List.Basic
import WireGuard.Deadlines

/-!
# Keepalives are paid for

A tunnel owes at most one keepalive that confirms a handshake and one that
answers data. Whatever it sends settles both debts, since nothing it remembers to
have received is later than its clock. New debts come from completed handshakes
and received data alone, so keepalives cannot feed on one another.
-/

set_option autoImplicit false

namespace WireGuard
open ByteString Tunnel

variable {P : Primitives}

/-- A poll has returned a keepalive that is not a persistent one. -/
def keptAlive (x : Transition P) : Bool :=
  match x.output with
  | .polled (.ok (.send _ .keepalive)) => true
  | _ => false

def gotData (x : Transition P) : Bool :=
  match x.output with
  | .decapsulated (.ok (.data _)) => true
  | _ => false

def gotComplete (x : Transition P) : Bool :=
  match x.output with
  | .decapsulated (.ok .handshakeComplete) => true
  | _ => false

/-- The keepalives that are owed. -/
def Timers.debt (tm : Timers) : ℕ :=
  tm.confirmKeepaliveDue.toNat+tm.passiveKeepaliveAt.isSome.toNat

theorem Timers.debt_le (tm : Timers) : tm.debt ≤ 2 :=
  Nat.add_le_add (Bool.toNat_le _) (Bool.toNat_le _)

theorem toNat_le_of_imp {a b : Bool} (h : a = true → b = true) : a.toNat ≤ b.toNat := by
  cases a with
  | false => exact Nat.zero_le _
  | true => rw [h rfl]

theorem Timers.debt_mono {tm tm' : Timers}
    (hc : tm'.confirmKeepaliveDue = true → tm.confirmKeepaliveDue = true)
    (hrx : tm'.lastDataRx = tm.lastDataRx ∨ tm'.lastDataRx = none)
    (htx : tm'.lastAnyTx = tm.lastAnyTx) : tm'.debt ≤ tm.debt := by
  refine Nat.add_le_add (toNat_le_of_imp hc) (toNat_le_of_imp ?_)
  unfold passiveKeepaliveAt unansweredRx
  rw [htx]
  rcases hrx with hrx | hrx
  · rw [hrx]
    exact id
  · rw [hrx]
    exact fun h => by cases h

theorem Tidied.debt_le {t u : Tunnel P} (h : Tidied t u) : u.timers.debt ≤ t.timers.debt :=
  Timers.debt_mono h.confirm (h.passive.imp_right And.left) h.lastAnyTx

theorem debt_commitSeal {t : Tunnel P} (hp : t.timers.Past t.lastNow) (payloadLen : Option ℕ) :
    (t.commitSeal t.lastNow payloadLen).timers.debt = 0 := by
  obtain ⟨r,hr⟩ := commitSeal_noted t t.lastNow payloadLen
  have h : (t.commitSeal t.lastNow payloadLen).timers.confirmKeepaliveDue = false ∧
      (t.commitSeal t.lastNow payloadLen).timers.lastDataRx = t.timers.lastDataRx ∧
      (t.commitSeal t.lastNow payloadLen).timers.lastAnyTx = some t.lastNow := by
    rw [hr]
    unfold Timers.noteSealed
    split <;> exact ⟨rfl,rfl,rfl⟩
  obtain ⟨hc,hrx,htx⟩ := h
  unfold Timers.debt Timers.passiveKeepaliveAt Timers.unansweredRx
  rw [hc,hrx,htx]
  cases hd : t.timers.lastDataRx with
  | none => rfl
  | some rx =>
    have hle := not_lt.mpr (hp.dataRx rx hd)
    simp [hle]

theorem debt_commitTransport (t : Tunnel P) (now : Ticks) (slot : Slot) (s : Session)
    (replay : ReplayWindow) (n : ℕ) :
    (t.commitTransport now slot s replay n).timers.debt ≤ t.timers.debt+(n != 0).toNat := by
  obtain ⟨r,hr⟩ := commitTransport_noted t now slot s replay n
  have h : (t.commitTransport now slot s replay n).timers.confirmKeepaliveDue =
        t.timers.confirmKeepaliveDue ∧
      (t.commitTransport now slot s replay n).timers.lastAnyTx = t.timers.lastAnyTx ∧
      (t.commitTransport now slot s replay n).timers.lastDataRx =
        if (n == 0) = true then t.timers.lastDataRx else some now := by
    rw [hr]
    unfold Timers.noteAccepted
    split <;> exact ⟨rfl,rfl,rfl⟩
  obtain ⟨hc,htx,hrx⟩ := h
  by_cases hn : n = 0
  · refine le_trans (Timers.debt_mono (fun h => hc ▸ h) (Or.inl ?_) htx) (Nat.le_add_right _ _)
    rw [hrx,if_pos (by simpa using hn)]
  · have hone : (n != 0).toNat = 1 := by simp [hn]
    unfold Timers.debt
    rw [hc,hone,Nat.add_assoc]
    refine Nat.add_le_add_left ((Bool.toNat_le _).trans (Nat.le_add_left _ _)) _

theorem debt_commitCompletion (t : Tunnel P) (now : Ticks) (keys : SessionKeys) :
    (t.commitCompletion now keys).timers.debt ≤ t.timers.debt+1 := by
  change 1+t.timers.passiveKeepaliveAt.isSome.toNat ≤ _
  unfold Timers.debt
  omega

theorem debt_receipt {C : ChaChaImpl} {t : Tunnel P} {now : Now}
    {remote datagram out : List UInt8} {rng : Entropy} {r : Outcome P Received}
    (h : Receipt C t now remote datagram out rng r) {x : Transition P}
    (hx : x.output = .decapsulated r.result) :
    r.tunnel.timers.debt ≤ t.timers.debt+((gotData x).toNat+(gotComplete x).toNat) := by
  cases h with
  | rejected t' rest e ht =>
    rcases ht with rfl | rfl | rfl | rfl <;> exact Nat.le_add_right _ _
  | completed m i keys hm hmac hi hx' hk =>
    have hgot : gotComplete x = true := by rw [gotComplete,hx]
    rw [hgot]
    exact (debt_commitCompletion t now.ticks keys).trans
      (Nat.add_le_add_left (Nat.le_add_left _ _) _)
  | accepted m slot s plain hm hx' hs hn ha hk ho =>
    have hgot : gotData x = (plain.length != 0) := by
      rw [gotData,hx]
      cases plain <;> rfl
    rw [hgot]
    exact (debt_commitTransport t now.ticks slot s _ plain.length).trans
      (Nat.add_le_add_left (Nat.le_add_right _ _) _)
  | _ => exact Nat.le_add_right _ _

theorem Tidied.past {t u : Tunnel P} (h : Tidied t u) (hp : t.timers.Past t.lastNow) :
    u.timers.Past u.lastNow where
  dataTx := by
    rw [h.lastDataTx,h.lastNow]
    exact hp.dataTx
  dataRx := by
    rw [h.lastNow]
    rcases h.passive with hr | ⟨hr,_⟩
    · rw [hr]
      exact hp.dataRx
    · rw [hr]
      exact fun x hx => by cases hx
  anyTx := by
    rw [h.lastAnyTx,h.lastNow]
    exact hp.anyTx
  anyRx := by
    rw [h.lastAnyRx,h.lastNow]
    exact hp.anyRx

theorem Past.seen {t : Tunnel P} (h : Past t) (op : Op) :
    (t.seen op).timers.Past (t.seen op).lastNow := by
  cases op with
  | setMtu mtu => exact h.timers
  | reset => exact h.timers
  | _ => exact (h.observe _).timers

theorem debt_deed {C : ChaChaImpl} {x : Transition P} (hp : Past x.before)
    (h : Deed C x.before x.input x.output x.after) :
    x.after.timers.debt ≤ x.before.timers.debt+((gotData x).toNat+(gotComplete x).toNat) := by
  have hseen : (x.before.seen x.input).timers = x.before.timers := by
    rw [x.before.seen_frame x.input]
  obtain ⟨t,op,o,t'⟩ := x
  dsimp only at h hseen hp ⊢
  cases h with
  | rested hu ho hop => exact (hseen ▸ hu.debt_le).trans (Nat.le_add_right _ _)
  | launched now index eph jitter hu ha h0 hw =>
    exact (hseen ▸ hu.debt_le).trans (Nat.le_add_right _ _)
  | posted s plain hu hs hc hw =>
    exact (debt_commitSeal (hu.past (hp.seen op)) op.payloadLen).trans_le (Nat.zero_le _)
  | discarded hu ho => exact Nat.zero_le _
  | abandoned hu hr => exact (hseen ▸ hu.debt_le).trans (Nat.le_add_right _ _)
  | received now remote underLoad datagram out rng hop hr hok =>
    exact debt_receipt hr rfl

theorem debt_of_sent {C : ChaChaImpl} {t t' : Tunnel P} {op : Op} {o : Output} (hp : Past t)
    (h : Deed C t op o t') {wire : List UInt8} (hw : o.transport? = some wire) :
    t'.timers.debt = 0 := by
  cases h with
  | rested hu ho hop =>
    rw [uneventful_transport? ho] at hw
    cases hw
  | launched now index eph jitter hu ha h0 hi =>
    rw [h0] at hw
    cases hw
  | posted s plain hu hs hc hw => exact debt_commitSeal (hu.past (hp.seen op)) op.payloadLen
  | discarded hu ho => rfl
  | abandoned hu hr => cases hw
  | received now remote underLoad datagram out rng hop hr hok => cases hw

theorem keptAlive_output {x : Transition P} (h : keptAlive x = true) :
    ∃ wire, x.output = .polled (.ok (.send wire .keepalive)) := by
  unfold keptAlive at h
  split at h
  · rename_i wire ho
    exact ⟨wire,ho⟩
  · cases h

theorem debt_of_passiveKeepaliveDue {tm : Timers} {now : Ticks}
    (h : tm.passiveKeepaliveDue now = true) : 1 ≤ tm.debt := by
  obtain ⟨w,hw,_⟩ := Timers.passiveKeepaliveAt_le h
  unfold Timers.debt
  rw [hw]
  exact Nat.le_add_left _ _

theorem debt_of_keptAlive {C : ChaChaImpl} {t : Tunnel P} {op : Op}
    (h : keptAlive (Machine.advance (step C) t op) = true) : 1 ≤ t.timers.debt := by
  obtain ⟨wire,ho⟩ := keptAlive_output h
  change (step C t op).2 = _ at ho
  cases op with
  | poll now out rng =>
    have hr : (t.poll C now out rng).result = .ok (.send wire .keepalive) := Output.polled.inj ho
    rcases (poll_polled C t now out rng).of_keepalive hr with hc | hp
    · change t.timers.confirmKeepaliveDue = true at hc
      unfold Timers.debt
      rw [hc]
      exact Nat.le_add_right _ _
    · exact debt_of_passiveKeepaliveDue hp
  | _ => cases ho

/-- Every keepalive is paid for out of the debts. -/
theorem keepalive_paid {C : ChaChaImpl} {t : Tunnel P} (hp : Past t) (op : Op) :
    let x := Machine.advance (step C) t op
    (keptAlive x).toNat+x.after.timers.debt ≤
      x.before.timers.debt+((gotData x).toNat+(gotComplete x).toNat) := by
  intro x
  have hd : Deed C x.before x.input x.output x.after := step_deed C t op
  cases hk : keptAlive x with
  | false =>
    rw [Bool.toNat_false,Nat.zero_add]
    exact debt_deed hp hd
  | true =>
    obtain ⟨wire,ho⟩ := keptAlive_output hk
    have hw : x.output.transport? = some wire := by
      rw [ho]
      rfl
    rw [debt_of_sent hp hd hw]
    exact (debt_of_keptAlive hk).trans (Nat.le_add_right _ _)

theorem sum_toNat_eq_countP {α : Type*} (p : α → Bool) (l : List α) :
    (l.map (fun x => (p x).toNat)).sum = l.countP p := by
  induction l with
  | nil => rfl
  | cons x l ih =>
    rw [List.map_cons,List.sum_cons,ih,List.countP_cons]
    cases p x <;> simp [Nat.add_comm]

theorem keepalives_paid {C : ChaChaImpl} {t : Tunnel P} (hp : Past t) (ops : List Op) :
    (run C t ops).countP keptAlive ≤
      t.timers.debt+((run C t ops).countP gotData+(run C t ops).countP gotComplete) := by
  have hb := Machine.history_budget (step C) (fun u => u.timers.debt)
    (fun x => (keptAlive x).toNat) (fun x => (gotData x).toNat+(gotComplete x).toNat) t ops ?_
  · rw [List.sum_map_add,sum_toNat_eq_countP,sum_toNat_eq_countP,sum_toNat_eq_countP] at hb
    exact (Nat.le_add_right _ _).trans hb
  · intro x hx
    obtain ⟨u,op,hu,rfl⟩ := Machine.mem_history (step C) t ops x hx
    exact keepalive_paid
      (Machine.reachable_invariant (step C) t Past hp (fun v i hv => past_step hv i) hu) op

/-- At no point of a run were there more keepalives than data and completed
handshakes before; and once no more of these come, at most two keepalives follow. -/
theorem keepalives_answer_data (C : ChaChaImpl) {config : Config} {t : Tunnel P}
    (ht : withBackend P config = .ok t) (ops : List Op) :
    (run C t ops).countP keptAlive ≤
        (run C t ops).countP gotData+(run C t ops).countP gotComplete ∧
      ∀ more, (∀ x ∈ run C (Machine.final (step C) t ops) more,
          gotData x = false ∧ gotComplete x = false) →
        (run C (Machine.final (step C) t ops) more).countP keptAlive ≤ 2 := by
  constructor
  · have hb := keepalives_paid (C := C) (past_reachable (C := C) ht ⟨[],rfl⟩) ops
    have hzero : t.timers.debt = 0 := by
      rw [(withBackend_ok ht).1.timers]
      rfl
    rwa [Machine.final,hzero,Nat.zero_add] at hb
  · intro more hquiet
    have hb := keepalives_paid (C := C) (past_reachable (C := C) ht ⟨ops,rfl⟩) more
    have hdebt := (Machine.final (step C) t ops).timers.debt_le
    have hdata : (run C (Machine.final (step C) t ops) more).countP gotData = 0 :=
      List.countP_eq_zero.mpr fun x hx => by simp [(hquiet x hx).1]
    have hdone : (run C (Machine.final (step C) t ops) more).countP gotComplete = 0 :=
      List.countP_eq_zero.mpr fun x hx => by simp [(hquiet x hx).2]
    omega

def specimenConfirm : List Op :=
  specimenOps.take 2 ++ List.replicate 3 (.poll ⟨Ticks.zero,0,0⟩ (List.replicate 148 0) [])

theorem keepalives_answer_data_specimen :
    (run (scalar specimen) specimenTunnel specimenConfirm).countP keptAlive = 1 ∧
      (run (scalar specimen) specimenTunnel specimenConfirm).countP keptAlive ≤
        (run (scalar specimen) specimenTunnel specimenConfirm).countP gotData+
          (run (scalar specimen) specimenTunnel specimenConfirm).countP gotComplete :=
  ⟨by decide +kernel,(keepalives_answer_data (scalar specimen)
    (withBackend_build (by decide +kernel)) specimenConfirm).1⟩

end WireGuard
