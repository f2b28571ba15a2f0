import WireGuard.Drain
import WireGuard.Traffic

/-!
# What a call has done

Every call, whichever operation it is, leaves the tunnel as it was up to some
tidying, or does exactly one thing more: it sends an initiation or a transport
message, wipes the sessions, gives an attempt up or takes in a datagram. What
the call returned tells which.
-/

set_option autoImplicit false

namespace WireGuard
open ByteString Tunnel

variable {P : Primitives}

def Tunnel.seen (t : Tunnel P) : Op → Tunnel P
  | .encapsulate now _ _ _ => t.observe now
  | .decapsulate now _ _ _ _ _ => t.observe now
  | .poll now _ _ => t.observe now
  | .initiateHandshake now _ _ => t.observe now
  | .setMtu _ => t
  | .reset => t

/-- The length of what a call is to seal; only `encapsulate` has a payload. -/
def Op.payloadLen : Op → Option ℕ
  | .encapsulate _ payload _ _ => some payload.val.length
  | _ => none

def Output.uneventful : Output → Bool
  | .encapsulated (.error _) => true
  | .decapsulated (.error _) => true
  | .polled (.error _) => true
  | .polled (.ok .idle) => true
  | .initiated (.error _) => true
  | .none => true
  | _ => false

theorem Tunnel.seen_frame (t : Tunnel P) (op : Op) :
    t.seen op = {t with lastNow := (t.seen op).lastNow} := by
  cases op <;> rfl

theorem Tunnel.le_seen (t : Tunnel P) (op : Op) : t.lastNow ≤ (t.seen op).lastNow := by
  cases op with
  | setMtu mtu => exact le_rfl
  | reset => exact le_rfl
  | _ => exact le_max_left _ _

inductive Deed (C : ChaChaImpl) (t : Tunnel P) (op : Op) : Output → Tunnel P → Prop
  | rested {o : Output} {u : Tunnel P} (hu : Tidied (t.seen op) u) (ho : o.uneventful = true)
      (hop : op ≠ .reset) : Deed C t op o u
  | launched {o : Output} {u : Tunnel P} (now : Now) (index : UInt32) (eph : Bytes 32)
      (jitter : ℕ) (hu : Tidied (t.seen op) u)
      (ha : (Act.initiate now index eph jitter).enabled u) (h0 : o.transport? = none)
      (hw : o.initiation? = some (u.withMacs u.lastNow ((u.initiationView now eph).alpha index))) :
      Deed C t op o ((Act.initiate now index eph jitter).apply u)
  | posted {o : Output} {u : Tunnel P} (s : Session) (plain : List UInt8)
      (hu : Tidied (t.seen op) u) (hs : u.current = some s)
      (hc : u.currentUsable u.lastNow = true)
      (hw : o.transport? = some (transportWire (P := P) C s plain)) :
      Deed C t op o ((Act.transmit op.payloadLen).apply u)
  | discarded {o : Output} {u : Tunnel P} (hu : Tidied (t.seen op) u)
      (ho : op = .reset ∧ o = .none ∨ o = .polled (.ok .sessionsExpired)) :
      Deed C t op o u.discardAllSessions
  | abandoned {u : Tunnel P} (hu : Tidied (t.seen op) u)
      (hr : u.retransmitDue u.lastNow = true) :
      Deed C t op (.polled (.ok .handshakeExpired)) u.abandon
  | received {r : Outcome P Received} (now : Now) (remote : List UInt8) (underLoad : Bool)
      (datagram out : List UInt8) (rng : Entropy)
      (hop : op = .decapsulate now remote underLoad datagram out rng)
      (hr : Receipt C (t.observe now) (t.reading now) remote datagram out rng r)
      (hok : ∃ x, r.result = .ok x) : Deed C t op (.decapsulated r.result) r.tunnel

theorem deed_initiation {α : Type} (C : ChaChaImpl) {t u : Tunnel P} {op : Op} {now : Now}
    {out : List UInt8} {rng : Entropy} {timerDriven : Bool} (f : List UInt8 → α)
    (g : Except Error α → Output) (hu : Tidied (t.seen op) u) (hn : now.ticks = u.lastNow)
    (hp : u.timers.initiationAllowed u.lastNow = true ∨ u.retransmitDue u.lastNow = true)
    (hop : op ≠ .reset) (hq : ∀ e, (g (.error e)).uneventful = true)
    (hg : ∀ w, (g (.ok (f w))).transport? = none ∧ (g (.ok (f w))).initiation? = some w) :
    Deed C t op (g ((u.sendInitiation now out rng timerDriven).emit f).result)
      ((u.sendInitiation now out rng timerDriven).emit f).tunnel := by
  obtain ⟨rest,e,h⟩ | ⟨index,eph,jitter,rest,hf,h⟩ :=
    sendInitiation_emit u now out rng timerDriven f hn
  · rw [h]
    exact .rested hu (hq e) hop
  · rw [h]
    exact .launched now index eph jitter hu ⟨hn,hf,hp⟩ (hg _).1 (hg _).2

theorem deed_encapsulate (C : ChaChaImpl) (t : Tunnel P) (now : Now) (payload : Payload)
    (out : List UInt8) (rng : Entropy) :
    Deed C t (.encapsulate now payload out rng)
      (step C t (.encapsulate now payload out rng)).2
      (step C t (.encapsulate now payload out rng)).1 := by
  have hseen : Tidied (t.seen (.encapsulate now payload out rng)) (t.observe now) := .refl _
  have hn : (t.reading now).ticks = (t.observe now).lastNow := rfl
  rw [step,encapsulate,clampNow_eq]
  dsimp only
  generalize t.observe now = v at hseen hn
  generalize t.reading now = now' at hn
  unfold encapsulateAt
  rw [hn]
  cases hu : v.currentUsable v.lastNow with
  | true =>
    obtain ⟨s,hs,hus⟩ := currentUsable_some hu
    simp only [Bool.not_true,Bool.false_eq_true,if_false]
    rw [encapsulateSeal_eq C _ payload out rng hs (Session.usableForSend_iff.mp hus).2.1,hn]
    split
    · exact .rested hseen rfl (by simp)
    · exact .posted s _ hseen hs hu rfl
  | false =>
    have hclear := hseen.trans (tidied_clearGaveUp v)
    simp only [Bool.not_false,if_true]
    unfold encapsulateStart
    rw [hn]
    split
    · exact .rested (hclear.trans (tidied_touchAttempt _ _)) rfl (by simp)
    split
    · exact .rested hclear rfl (by simp)
    · rename_i hp
      have hp : v.clearGaveUp.timers.initiationAllowed v.lastNow = true := by simpa using hp
      exact deed_initiation C Encapsulated.handshakeInitiation .encapsulated
        (hclear.trans (tidied_restartAttempt _)) hn (Or.inl hp) (by simp) (fun _ => rfl)
        fun _ => ⟨rfl,rfl⟩

theorem deed_initiate (C : ChaChaImpl) (t : Tunnel P) (now : Now) (out : List UInt8)
    (rng : Entropy) :
    Deed C t (.initiateHandshake now out rng) (step C t (.initiateHandshake now out rng)).2
      (step C t (.initiateHandshake now out rng)).1 := by
  have hseen : Tidied (t.seen (.initiateHandshake now out rng)) (t.observe now) := .refl _
  have hn : (t.reading now).ticks = (t.observe now).lastNow := rfl
  rw [step,initiateHandshake,clampNow_eq]
  dsimp only
  generalize t.observe now = v at hseen hn
  generalize t.reading now = now' at hn
  unfold initiateHandshakeAt
  rw [hn]
  split
  · exact .rested hseen rfl (by simp)
  · rename_i hp
    have hp : v.timers.initiationAllowed v.lastNow = true := by simpa using hp
    exact deed_initiation C id .initiated
      ((hseen.trans (tidied_clearGaveUp v)).trans (tidied_restartAttempt _)) hn (Or.inl hp)
      (by simp) (fun _ => rfl) fun _ => ⟨rfl,rfl⟩

theorem Tunnel.Prompted.paced {t u : Tunnel P} (h : t.Prompted) (hu : Tidied t u) :
    u.timers.initiationAllowed u.lastNow = true ∨ u.retransmitDue u.lastNow = true := by
  rw [hu.initiationAllowed,hu.retransmitDue,hu.lastNow]
  rcases h with ⟨hr,_⟩ | ⟨_,ha,_⟩
  · exact Or.inr hr
  · exact Or.inl ha

theorem deed_poll (C : ChaChaImpl) (t : Tunnel P) (now : Now) (out : List UInt8)
    (rng : Entropy) :
    Deed C t (.poll now out rng) (step C t (.poll now out rng)).2
      (step C t (.poll now out rng)).1 := by
  have hp := poll_polled C t now out rng
  rw [step]
  dsimp only
  generalize t.poll C now out rng = r at hp
  cases hp with
  | discarded u hu hd => exact .discarded hu (Or.inr rfl)
  | abandoned u hu hd hr he =>
    refine .abandoned hu ?_
    rwa [hu.retransmitDue,hu.lastNow]
  | initiated u reason hu hd hl =>
    refine deed_initiation C _ .polled hu hu.lastNow.symm (hl.prompted.paced hu) (by simp)
      (fun _ => rfl) ?_
    cases hl <;> exact fun _ => ⟨rfl,rfl⟩
  | kept u reason hu hd ht hc howe =>
    replace hu := hu.tidied
    have hcu : u.currentUsable u.lastNow = true := by
      rw [hu.currentUsable,hu.lastNow]
      exact hc
    obtain h | ⟨s,hs,_,h⟩ := sendKeepalive_cases C u (t.reading now) out rng hu.lastNow.symm hcu
    · rw [h]
      exact .rested hu rfl (by simp)
    · rw [h]
      refine .posted s [] hu hs hcu ?_
      cases howe <;> rfl
  | idle hp hi =>
    exact .rested (tidied_settle hp) rfl (by simp)

theorem tidied_count {t : Tunnel P} {s : Stats} : Tidied t {t with stats := s} :=
  ⟨rfl,rfl,Or.inl rfl,id,id,id,Or.inl rfl⟩

/-- Every call has done one of the listed things. -/
theorem step_deed (C : ChaChaImpl) (t : Tunnel P) (op : Op) :
    Deed C t op (step C t op).2 (step C t op).1 := by
  cases op with
  | encapsulate now payload out rng => exact deed_encapsulate C t now payload out rng
  | poll now out rng => exact deed_poll C t now out rng
  | initiateHandshake now out rng => exact deed_initiate C t now out rng
  | setMtu mtu => exact .rested ⟨rfl,rfl,Or.inl rfl,id,id,id,Or.inl rfl⟩ rfl (by simp)
  | reset => exact .discarded (.refl t) (Or.inl ⟨rfl,rfl⟩)
  | decapsulate now remote underLoad datagram out rng =>
    obtain ⟨r,hr,hs⟩ := step_receipt C t now remote datagram out underLoad rng
    rw [hs]
    cases hres : r.result with
    | ok x =>
      rw [← hres]
      exact .received now remote underLoad datagram out rng rfl hr ⟨x,hres⟩
    | error e =>
      refine .rested ?_ rfl (by simp)
      cases hr with
      | rejected t' rest e ht =>
        rcases ht with rfl | rfl | rfl | rfl
        · exact .refl _
        · exact tidied_count
        · exact tidied_count
        · exact tidied_count
      | _ => cases hres

end WireGuard
