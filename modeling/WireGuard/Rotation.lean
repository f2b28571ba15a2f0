import WireGuard.Rollback

/-!
# The rotation of keys

The three slots of a tunnel as a machine of their own: a session enters as the
current or as the next one, the next one moves up when its first message arrives,
and what was current becomes the previous one. Every call refines one turn of this
machine, after the next session may have expired. Sessions are confirmed in the
slots that send and receive, and unconfirmed and untouched in the next slot.
-/

set_option autoImplicit false

namespace WireGuard
open ByteString Tunnel

variable {P : Primitives}

structure Slots where
  previous : Option Session
  current : Option Session
  next : Option Session
  deriving DecidableEq

def Tunnel.slots (t : Tunnel P) : Slots := ⟨t.previous,t.current,t.next⟩

namespace Session

def sent (s : Session) : Session := {s with sendCounter := s.sendCounter+1}

def heard (counter : ℕ) (s : Session) : Session :=
  {s with replay := (s.replay.accept counter).1}

def confirm (s : Session) : Session := {s with confirmed := true}

end Session

inductive Rotation where
  | complete (keys : SessionKeys) (created : Ticks) (tag : ℕ)
  | answer (keys : SessionKeys) (created : Ticks) (tag : ℕ)
  | promote (counter : ℕ)
  | discard
  | send
  | hearCurrent (counter : ℕ)
  | hearPrevious (counter : ℕ)

def Rotation.apply (a : Slots) : Rotation → Slots
  | complete keys created tag => ⟨a.current,some (Session.new keys created tag),a.next⟩
  | answer keys created tag => ⟨a.previous,a.current,some (Session.new keys created tag)⟩
  | promote counter => ⟨a.current,a.next.map (fun s => (s.heard counter).confirm),none⟩
  | discard => ⟨none,none,none⟩
  | send => ⟨a.previous,a.current.map Session.sent,a.next⟩
  | hearCurrent counter => ⟨a.previous,a.current.map (Session.heard counter),a.next⟩
  | hearPrevious counter => ⟨a.previous.map (Session.heard counter),a.current,a.next⟩

def Rotation.hear (counter : ℕ) : Slot → Rotation
  | .next => promote counter
  | .current => hearCurrent counter
  | .previous => hearPrevious counter

/-- The call is handed a transport message that names the session in `slot`, and the
message is fresh and authentic. -/
def Hears (C : ChaChaImpl) (t : Tunnel P) (op : Op) (o : Output) (slot : Slot)
    (counter : ℕ) : Prop :=
  ∃ datagram m s plain, op.datagram? = some datagram ∧ parse datagram = .ok (.transportData m) ∧
    t.sessionWithIndex m.receiverIndex = some slot ∧ t.slot slot = some s ∧
    m.counter = counter ∧ s.replay.check counter = true ∧
    openBytes P C s.keys.recv (nonceFromCounter counter) [] m.ciphertext = some plain ∧
    o = .decapsulated (.ok (delivered plain))

/-- What the call was given and what it returned when it took the turn. -/
def Rotation.Caused (C : ChaChaImpl) (t : Tunnel P) (op : Op) (o : Output) : Rotation → Prop
  | complete keys created _ => ∃ datagram m, op.datagram? = some datagram ∧
      parse datagram = .ok (.handshakeResponse m) ∧ o = .decapsulated (.ok .handshakeComplete) ∧
      keys.isInitiator = true ∧ created = (t.seen op).lastNow
  | answer keys created _ => ∃ datagram m wire, op.datagram? = some datagram ∧
      parse datagram = .ok (.handshakeInitiation m) ∧ o = .decapsulated (.ok (.reply wire)) ∧
      keys.isInitiator = false ∧ created = (t.seen op).lastNow
  | promote counter => Hears C t op o .next counter
  | discard => op = .reset ∨ o = .polled (.ok .sessionsExpired)
  | send => o.transport?.isSome = true ∧ t.currentUsable (t.seen op).lastNow = true
  | hearCurrent counter => Hears C t op o .current counter
  | hearPrevious counter => Hears C t op o .previous counter

def Expires (now : Ticks) (a b : Slots) : Prop :=
  ∃ s, a.next = some s ∧ rejectAfterTime ≤ s.age now ∧ b = {a with next := none}

def Op.polls : Op → Bool
  | .poll _ _ _ => true
  | _ => false

/-- What a call does to the slots: a `poll` may drop an expired next session, and then
at most one turn is taken. -/
def Rotates (C : ChaChaImpl) (t : Tunnel P) (op : Op) (o : Output) (a c : Slots) : Prop :=
  ∃ b, (b = a ∨ op.polls = true ∧ Expires (t.seen op).lastNow a b) ∧
    (c = b ∨ ∃ x : Rotation, x.Caused C t op o ∧ c = x.apply b)

structure Slots.Placed (a : Slots) : Prop where
  previous : ∀ s, a.previous = some s → s.confirmed = true
  current : ∀ s, a.current = some s → s.confirmed = true
  next : ∀ s, a.next = some s →
    s.confirmed = false ∧ s.keys.isInitiator = false ∧ s.replay = ReplayWindow.new

/-! ## The machine keeps its sessions in place -/

theorem placed_empty : Slots.Placed ⟨none,none,none⟩ :=
  ⟨by simp,by simp,by simp⟩

theorem Slots.Placed.expires {now : Ticks} {a b : Slots} (h : a.Placed) (he : Expires now a b) :
    b.Placed := by
  obtain ⟨_,_,_,rfl⟩ := he
  exact ⟨h.previous,h.current,fun s hs => by cases hs⟩

theorem confirmed_map {a : Option Session} {f : Session → Session}
    (hf : ∀ s, (f s).confirmed = s.confirmed) (h : ∀ s, a = some s → s.confirmed = true) :
    ∀ s, a.map f = some s → s.confirmed = true := by
  intro s hs
  obtain ⟨r,hr,rfl⟩ := Option.map_eq_some_iff.mp hs
  rw [hf,h r hr]

theorem Slots.Placed.turn {C : ChaChaImpl} {t : Tunnel P} {op : Op} {o : Output} {a : Slots}
    (h : a.Placed) (x : Rotation) (hx : x.Caused C t op o) : (x.apply a).Placed := by
  cases x with
  | complete keys created tag =>
    obtain ⟨_,_,_,_,_,hk,_⟩ := hx
    refine ⟨h.current,fun s hs => ?_,h.next⟩
    obtain rfl := Option.some.inj hs
    exact hk
  | answer keys created tag =>
    obtain ⟨_,_,_,_,_,_,hk,_⟩ := hx
    refine ⟨h.previous,h.current,fun s hs => ?_⟩
    obtain rfl := Option.some.inj hs
    exact ⟨hk,hk,rfl⟩
  | promote counter =>
    refine ⟨h.current,fun s hs => ?_,fun s hs => by cases hs⟩
    obtain ⟨_,_,rfl⟩ := Option.map_eq_some_iff.mp hs
    rfl
  | discard => exact placed_empty
  | send => exact ⟨h.previous,confirmed_map (fun _ => rfl) h.current,h.next⟩
  | hearCurrent counter => exact ⟨h.previous,confirmed_map (fun _ => rfl) h.current,h.next⟩
  | hearPrevious counter => exact ⟨confirmed_map (fun _ => rfl) h.previous,h.current,h.next⟩

theorem Rotates.placed {C : ChaChaImpl} {t : Tunnel P} {op : Op} {o : Output} {a c : Slots}
    (h : Rotates C t op o a c) (ha : a.Placed) : c.Placed := by
  obtain ⟨b,hb,hc⟩ := h
  have hb : b.Placed := by
    rcases hb with rfl | ⟨_,he⟩
    · exact ha
    · exact ha.expires he
  rcases hc with rfl | ⟨x,hx,rfl⟩
  · exact hb
  · exact hb.turn x hx

/-! ## Every call refines it -/

theorem slots_ext {t u : Tunnel P} (h : ∀ a, t.slot a = u.slot a) : t.slots = u.slots := by
  have hp : t.previous = u.previous := h .previous
  have hc : t.current = u.current := h .current
  have hn : t.next = u.next := h .next
  rw [Tunnel.slots,Tunnel.slots,hp,hc,hn]

theorem Tidied.slots {t u : Tunnel P} (h : Tidied t u) :
    u.slots = t.slots ∨ Expires t.lastNow t.slots u.slots := by
  have he : u.slots = {t.slots with next := u.next} := by
    rw [Tunnel.slots,h.previous,h.current]
    rfl
  rcases h.next with hn | ⟨hn,s,hs,ha⟩
  · rw [he,hn]
    exact Or.inl rfl
  · exact Or.inr ⟨s,hs,ha,by rw [he,hn]⟩

theorem commitSeal_slots (t : Tunnel P) (now : Ticks) (payloadLen : Option ℕ) :
    (t.commitSeal now payloadLen).slots = Rotation.send.apply t.slots :=
  (slots_ext (slot_commitSeal t now payloadLen)).trans rfl

theorem heard_confirmed {s : Session} (h : s.confirmed = true) (counter : ℕ) :
    {s with replay := (s.replay.accept counter).1, confirmed := true} = s.heard counter := by
  rw [Session.heard,← h]

theorem commitTransport_slots {t : Tunnel P} (h : t.slots.Placed) {slot : Slot} {s : Session}
    (hs : t.slot slot = some s) (now : Ticks) (counter n : ℕ) :
    (t.commitTransport now slot s (s.replay.accept counter).1 n).slots =
      (Rotation.hear counter slot).apply t.slots := by
  have hc := slot_commitTransport t now slot s (s.replay.accept counter).1 n
  dsimp only at hc
  cases slot with
  | next =>
    have hn : t.next = some s := hs
    have hp : s.promotedBy .next = true := by
      rw [Session.promotedBy,(h.next s hs).1]
      rfl
    rw [hp] at hc
    refine (slots_ext hc).trans ?_
    simp only [Rotation.hear,Rotation.apply,Tunnel.slots,hn]
    rfl
  | current =>
    have hn : t.current = some s := hs
    have hp : s.promotedBy .current = false := Bool.and_false _
    rw [hp,heard_confirmed (h.current s hs)] at hc
    refine (slots_ext hc).trans ?_
    simp only [Rotation.hear,Rotation.apply,Tunnel.slots,hn]
    rfl
  | previous =>
    have hn : t.previous = some s := hs
    have hp : s.promotedBy .previous = false := Bool.and_false _
    rw [hp,heard_confirmed (h.previous s hs)] at hc
    refine (slots_ext hc).trans ?_
    simp only [Rotation.hear,Rotation.apply,Tunnel.slots,hn]
    rfl

theorem hear_caused {C : ChaChaImpl} {t : Tunnel P} {op : Op} {o : Output} {slot : Slot}
    {counter : ℕ} (h : Hears C t op o slot counter) :
    (Rotation.hear counter slot).Caused C t op o := by
  cases slot <;> exact h

theorem rotates_kept {C : ChaChaImpl} {t : Tunnel P} {op : Op} {o : Output} {a c : Slots}
    (h : c = a) :
    Rotates C t op o a c :=
  ⟨a,Or.inl rfl,Or.inl h⟩

theorem rotates_turn {C : ChaChaImpl} {t : Tunnel P} {op : Op} {o : Output} {a c : Slots}
    (x : Rotation) (hx : x.Caused C t op o) (h : c = x.apply a) : Rotates C t op o a c :=
  ⟨a,Or.inl rfl,Or.inr ⟨x,hx,h⟩⟩

theorem receipt_rotates {C : ChaChaImpl} {t : Tunnel P} (h : t.slots.Placed) {now : Now}
    {remote datagram out : List UInt8} {underLoad : Bool} {rng : Entropy} {r : Outcome P Received}
    (hr : Receipt C (t.observe now) (t.reading now) remote datagram out rng r) :
    Rotates C t (.decapsulate now remote underLoad datagram out rng) (.decapsulated r.result)
      t.slots r.tunnel.slots := by
  cases hr with
  | rejected t' rest e ht =>
    rcases ht with rfl | rfl | rfl | rfl <;> exact rotates_kept rfl
  | cookieReply index mac1 reply r hr hn ho => exact rotates_kept rfl
  | stored cookie => exact rotates_kept rfl
  | answered m consumed index eph rest hm hmac hc hts hd =>
    exact rotates_turn (.answer _ _ _) ⟨datagram,m,_,rfl,hm,rfl,rfl,t.reading_ticks now⟩ rfl
  | completed m inflight keys hm hmac hi hx hk =>
    have hinit : keys.isInitiator = true := by
      rw [(consumeResponse_ok P).mp hk |>.2.2.2]
    exact rotates_turn (.complete _ _ _) ⟨datagram,m,rfl,hm,rfl,hinit,t.reading_ticks now⟩ rfl
  | accepted m slot s plain hm hx hs hn ha hk ho =>
    refine rotates_turn (Rotation.hear m.counter slot) (hear_caused ?_)
      (commitTransport_slots (t := t.observe now) h hs _ m.counter _)
    exact ⟨datagram,m,s,plain,rfl,hm,hx,hs,rfl,hk,ho,rfl⟩

theorem sendInitiation_next {α : Type} (t : Tunnel P) (now : Now) (out : List UInt8)
    (rng : Entropy) (f : List UInt8 → α) (hn : now.ticks = t.lastNow) :
    ((t.sendInitiation now out rng false).emit f).tunnel.next = t.next := by
  obtain ⟨_,_,h⟩ | ⟨_,_,_,_,_,h⟩ := sendInitiation_emit t now out rng false f hn
  · rw [h]
  · rw [h]
    rfl

theorem encapsulate_next (C : ChaChaImpl) (t : Tunnel P) (now : Now) (payload : Payload)
    (out : List UInt8) (rng : Entropy) : (t.encapsulate C now payload out rng).tunnel.next =
      t.next := by
  have hn : (t.reading now).ticks = (t.observe now).lastNow := rfl
  have hv : (t.observe now).next = t.next := rfl
  unfold encapsulate
  rw [clampNow_eq,← hv]
  dsimp only
  generalize t.observe now = v at hn
  unfold encapsulateAt
  split
  · unfold encapsulateStart
    split
    · rfl
    split
    · rfl
    · exact sendInitiation_next v.clearGaveUp.restartAttempt _ out rng _ hn
  · rename_i hus
    obtain ⟨s,hc,hs⟩ := currentUsable_some (by simpa using hus)
    rw [encapsulateSeal_eq C _ payload out rng hc (Session.usableForSend_iff.mp hs).2.1]
    split
    · rfl
    · exact congrArg Slots.next (commitSeal_slots v _ _)

theorem initiateHandshake_next (t : Tunnel P) (now : Now) (out : List UInt8) (rng : Entropy) :
    (t.initiateHandshake now out rng).tunnel.next = t.next := by
  have hn : (t.reading now).ticks = (t.observe now).lastNow := rfl
  have hv : (t.observe now).next = t.next := rfl
  unfold initiateHandshake
  rw [clampNow_eq,← hv]
  dsimp only
  generalize t.observe now = v at hn
  unfold initiateHandshakeAt
  split
  · rfl
  · exact sendInitiation_next v.clearGaveUp.restartAttempt _ out rng _ hn

theorem step_next (C : ChaChaImpl) (t : Tunnel P) (op : Op) (hd : op.datagram? = none)
    (hr : op ≠ .reset) : op.polls = true ∨ (step C t op).1.next = t.next := by
  cases op with
  | encapsulate now payload out rng => exact Or.inr (encapsulate_next C t now payload out rng)
  | initiateHandshake now out rng => exact Or.inr (initiateHandshake_next t now out rng)
  | setMtu mtu => exact Or.inr rfl
  | poll now out rng => exact Or.inl rfl
  | reset => exact absurd rfl hr
  | decapsulate now remote underLoad datagram out rng => cases hd

theorem Tidied.rotates {t u : Tunnel P} {op : Op} (h : Tidied (t.seen op) u)
    (hn : op.polls = true ∨ u.next = t.next) :
    u.slots = t.slots ∨ op.polls = true ∧ Expires (t.seen op).lastNow t.slots u.slots := by
  have hseen : (t.seen op).slots = t.slots := by
    rw [t.seen_frame]
    rfl
  have hs := h.slots
  rw [hseen] at hs
  rcases hs with hs | he
  · exact Or.inl hs
  rcases hn with hp | hn
  · exact Or.inr ⟨hp,he⟩
  · obtain ⟨s,ha,_,hb⟩ := he
    have hnone : u.next = none := congrArg Slots.next hb
    have hsome : t.next = some s := ha
    rw [hn,hsome] at hnone
    cases hnone

theorem deed_rotates {C : ChaChaImpl} {t t' : Tunnel P} {op : Op} {o : Output}
    (h : Deed C t op o t') (hd : op.datagram? = none) (hn : op.polls = true ∨ t'.next = t.next) :
    Rotates C t op o t.slots t'.slots := by
  cases h with
  | rested hu ho hop => exact ⟨_,hu.rotates hn,Or.inl rfl⟩
  | launched now index eph jitter hu ha h0 hw => exact ⟨_,hu.rotates hn,Or.inl rfl⟩
  | @posted o u s plain hu hs hc hw =>
    have hslots := commitSeal_slots u u.lastNow op.payloadLen
    have hnext : op.polls = true ∨ u.next = t.next :=
      hn.imp_right fun h => (congrArg Slots.next hslots).symm.trans h
    have husable : t.currentUsable (t.seen op).lastNow = true := by
      rw [hu.currentUsable,hu.lastNow] at hc
      rw [t.seen_frame] at hc ⊢
      exact hc
    exact ⟨_,hu.rotates hnext,Or.inr ⟨.send,⟨by rw [hw]; rfl,husable⟩,hslots⟩⟩
  | discarded hu ho => exact rotates_turn .discard (ho.imp_left And.left) rfl
  | abandoned hu hr => exact ⟨_,hu.rotates hn,Or.inl rfl⟩
  | received now remote underLoad datagram out rng hop hr hok =>
    rw [hop] at hd
    cases hd

theorem step_rotates (C : ChaChaImpl) {t : Tunnel P} (h : t.slots.Placed) (op : Op) :
    Rotates C t op (step C t op).2 t.slots (step C t op).1.slots := by
  by_cases hr : op = .reset
  · subst hr
    exact rotates_turn .discard (Or.inl rfl) rfl
  cases hd : op.datagram? with
  | none => exact deed_rotates (step_deed C t op) hd (step_next C t op hd hr)
  | some datagram =>
    cases op with
    | decapsulate now remote underLoad d out rng =>
      obtain ⟨r,hrec,hs⟩ := step_receipt C t now remote d out underLoad rng
      rw [hs]
      exact receipt_rotates h hrec
    | _ => cases hd

theorem withBackend_slots {config : Config} {t : Tunnel P} (h : withBackend P config = .ok t) :
    t.slots = ⟨none,none,none⟩ := by
  unfold withBackend at h
  dsimp only at h
  split at h
  · cases h
  split at h
  · cases h
  · obtain rfl := Except.ok.inj h
    rfl

theorem slots_placed (C : ChaChaImpl) {config : Config} {t u : Tunnel P}
    (h : withBackend P config = .ok t) (hu : Machine.Reachable (step C) t u) : u.slots.Placed := by
  refine Machine.reachable_invariant (step C) t (fun u => u.slots.Placed) ?_
    (fun u op ih => (step_rotates C ih op).placed ih) hu
  rw [withBackend_slots h]
  exact placed_empty

/-- In every reachable state the sessions are in place, and every call takes at most one
turn of the rotation, behind an expiry of the next session that only `poll` performs. -/
theorem slots_follow_rotation (C : ChaChaImpl) {config : Config} {t u : Tunnel P}
    (h : withBackend P config = .ok t) (hu : Machine.Reachable (step C) t u) :
    ((∀ s, u.previous = some s → s.confirmed = true) ∧
      (∀ s, u.current = some s → s.confirmed = true) ∧
      ∀ s, u.next = some s → s.confirmed = false ∧ s.keys.isInitiator = false ∧
        s.replay = ReplayWindow.new) ∧
    ∀ op, Rotates C u op (step C u op).2 u.slots (step C u op).1.slots := by
  have hp := slots_placed C h hu
  exact ⟨⟨hp.previous,hp.current,hp.next⟩,step_rotates C hp⟩

/-- A session waits in the next slot, and its first message promotes it. -/
theorem slots_follow_rotation_specimen :
    let u := Machine.final (step (scalar specimen)) specimenTunnel specimenOverlap
    let v := step (scalar specimen) u (specimenKeepalive 3)
    u.next.map Session.confirmed = some false ∧ v.1.next = none ∧
      Rotates (scalar specimen) u (specimenKeepalive 3) v.2 u.slots v.1.slots := by
  intro u v
  have hb : withBackend specimen (specimenConfig 1 2 none) = .ok specimenTunnel :=
    withBackend_build (by decide +kernel)
  have h := slots_follow_rotation (scalar specimen) hb (u := u) ⟨specimenOverlap,rfl⟩
  obtain ⟨s,hs⟩ := Option.isSome_iff_exists.mp (show u.next.isSome = true by decide +kernel)
  refine ⟨?_,by decide +kernel,h.2 _⟩
  rw [hs,Option.map_some,(h.1.2.2 s hs).1]

end WireGuard
