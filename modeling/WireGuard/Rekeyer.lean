import WireGuard.Agreement
import WireGuard.Indices
import WireGuard.Integrity
import WireGuard.Pacing

/-!
# Who starts the next handshake

Only the initiator of a session replaces it in time, so a pair of ends needs one
whose current session is its own. Two handshakes that cross can leave each end
with the session that the other one started. That is all that can go wrong: an
end must not confirm a session while the other end has yet to confirm one on
which it has spoken.
-/

set_option autoImplicit false

namespace WireGuard
open ByteString Tunnel

variable {P : Primitives}

def Tunnel.keysIn (t : Tunnel P) (a : Slot) : Option SessionKeys := (t.slot a).map Session.keys

/-- The datagram of a call is a transport message for the next session. -/
def Op.forNext (t : Tunnel P) (op : Op) : Bool :=
  match op.datagram?.map parse with
  | some (.ok (.transportData m)) => holds t.next m.receiverIndex
  | _ => false

inductive Rolled (t : Tunnel P) (op : Op) : Output → Tunnel P → Prop
  | kept {o : Output} {t' : Tunnel P}
      (hc : t'.keysIn .current = t.keysIn .current ∨ t'.keysIn .current = none)
      (hn : t'.keysIn .next = t.keysIn .next ∨ t'.keysIn .next = none) : Rolled t op o t'
  | answered {o : Output} {t' : Tunnel P} (keys : SessionKeys)
      (hc : t'.keysIn .current = t.keysIn .current)
      (hn : t'.next = some (Session.new keys t'.lastNow t.sessionsCreated))
      (ho : o.transport? = none) : Rolled t op o t'
  | completed {o : Output} {t' : Tunnel P} (keys : SessionKeys)
      (hc : t'.keysIn .current = some keys) (hi : keys.isInitiator = true)
      (hn : t'.keysIn .next = t.keysIn .next) (ho : o.transport? = none) : Rolled t op o t'
  | promoted {o : Output} {t' : Tunnel P} (plain : List UInt8)
      (hc : t'.keysIn .current = t.keysIn .next) (hn : t'.keysIn .next = none)
      (hop : op.forNext t = true) (ho : o.plaintext? = some plain)
      (ht : o.transport? = none) : Rolled t op o t'

section Steps

variable {C : ChaChaImpl} {t t' u : Tunnel P} {op : Op} {o : Output}

theorem Tidied.keysIn_next (h : Tidied t u) :
    u.keysIn .next = t.keysIn .next ∨ u.keysIn .next = none := by
  rcases h.next with hn | ⟨hn,_⟩
  · exact Or.inl (congrArg (Option.map Session.keys) hn)
  · exact Or.inr (congrArg (Option.map Session.keys) hn)

theorem Tidied.keysIn_current (h : Tidied t u) : u.keysIn .current = t.keysIn .current :=
  congrArg (Option.map Session.keys) h.current

theorem keysIn_commitSeal (u : Tunnel P) (now : Ticks) (payloadLen : Option ℕ) (a : Slot) :
    (u.commitSeal now payloadLen).keysIn a = u.keysIn a := by
  unfold keysIn
  rw [slot_commitSeal]
  cases a with
  | current => simp [slot,takeCounter,Function.comp_def]
  | previous => rfl
  | next => rfl

theorem rolled_accepted {slot : Slot} {s : Session} (hs : t.slot slot = some s) (now : Ticks)
    (replay : ReplayWindow) (n : ℕ) :
    (∀ a, (t.commitTransport now slot s replay n).keysIn a = t.keysIn a) ∨
    slot = .next ∧ (t.commitTransport now slot s replay n).keysIn .current = t.keysIn .next ∧
      (t.commitTransport now slot s replay n).keysIn .next = none := by
  have hslot := slot_commitTransport t now slot s replay n
  dsimp only at hslot
  have hset : ∀ a, ((t.setSlot {s with replay := replay, confirmed := true} slot).slot a).map
      Session.keys = (t.slot a).map Session.keys := by
    intro a
    by_cases ha : a = slot
    · subst ha
      simp [hs]
    · rw [slot_setSlot_ne t _ ha]
  cases hprom : s.promotedBy slot with
  | true =>
    rw [hprom] at hslot
    refine Or.inr ⟨?_,?_,?_⟩
    · unfold Session.promotedBy at hprom
      simp only [Bool.and_eq_true,beq_iff_eq] at hprom
      exact hprom.2
    · exact (congrArg (Option.map Session.keys) (hslot .current)).trans (hset .next)
    · exact congrArg (Option.map Session.keys) (hslot .next)
  | false =>
    rw [hprom] at hslot
    exact Or.inl fun a => (congrArg (Option.map Session.keys) (hslot a)).trans (hset a)

theorem deed_rolled (h : Deed C t op o t') : Rolled t op o t' := by
  have hseen : ∀ a, (t.seen op).keysIn a = t.keysIn a := by
    intro a
    rw [t.seen_frame]
    cases a <;> rfl
  have htidy : ∀ {u}, Tidied (t.seen op) u → u.keysIn .current = t.keysIn .current ∧
      (u.keysIn .next = t.keysIn .next ∨ u.keysIn .next = none) := by
    intro u hu
    rw [← hseen,← hseen]
    exact ⟨hu.keysIn_current,hu.keysIn_next⟩
  cases h with
  | rested hu ho hop => exact .kept (Or.inl (htidy hu).1) (htidy hu).2
  | launched now index eph jitter hu ha h0 hw => exact .kept (Or.inl (htidy hu).1) (htidy hu).2
  | @posted _ u s plain hu hs hc hw =>
    have hk := keysIn_commitSeal u u.lastNow op.payloadLen
    exact .kept (Or.inl ((hk .current).trans (htidy hu).1))
      ((htidy hu).2.imp (hk .next).trans (hk .next).trans)
  | discarded hu ho => exact .kept (Or.inr rfl) (Or.inr rfl)
  | abandoned hu hr => exact .kept (Or.inl (htidy hu).1) (htidy hu).2
  | received now remote underLoad datagram out rng hop hr hok =>
    subst hop
    cases hr with
    | rejected t' rest e ht =>
      obtain ⟨x,hx⟩ := hok
      cases hx
    | cookieReply index mac1 reply r hr hn hout => exact .kept (Or.inl rfl) (Or.inl rfl)
    | answered m consumed index eph rest hm hmac hc hts hd => exact .answered _ rfl rfl rfl
    | completed m inflight keys hm hmac hi hx hk =>
      obtain ⟨_,_,_,hkeys⟩ := (consumeResponse_ok P).mp hk
      exact .completed keys rfl (by rw [hkeys]) rfl rfl
    | stored cookie => exact .kept (Or.inl rfl) (Or.inl rfl)
    | accepted m slot s plain hm hx hs hn ha hk ho =>
      rcases rolled_accepted hs (t.reading now).ticks (s.replay.accept m.counter).1
        plain.length with hsame | ⟨rfl,hcur,hnext⟩
      · exact .kept (Or.inl (hsame .current)) (Or.inl (hsame .next))
      · refine .promoted plain hcur hnext ?_ (plaintext?_delivered plain) rfl
        simp only [Op.forNext,Op.datagram?,Option.map_some,hm]
        exact sessionWithIndex_holds hx

end Steps

/-- The keys under which one end has sent transport messages. -/
def spokenKeys (k : Side) (h : List (Joint P)) : List (Bytes 32) :=
  h.filterMap (fun y => if y.input.1 = k ∧ y.output.transport?.isSome = true then
    ((y.before k).keysIn .current).map SessionKeys.send else none)

/-- A transport message for the next session does not reach an end that has spoken
on a session which the other end has yet to confirm. -/
def Uncrossed (h : List (Joint P)) : Prop :=
  Chronicle (fun before x => x.input.2.forNext (x.before x.input.1) = true →
    ∀ keys ∈ (x.before x.input.1.other).keysIn .next,
      keys.recv ∉ spokenKeys x.input.1 before) h

instance (h : List (Joint P)) : Decidable (Uncrossed h) :=
  inferInstanceAs (Decidable (Chronicle _ h))

/-- An end that has answered a handshake does not send under a key that the other end receives
under in a handshake which it has answered itself. -/
def DistinctAnswers (h : List (Joint P)) : Prop :=
  ∀ k, ∀ a ∈ createdKeys k h, ∀ b ∈ createdKeys k.other h,
    a.2.isInitiator = false → b.2.isInitiator = false → a.2.send ≠ b.2.recv

instance (h : List (Joint P)) : Decidable (DistinctAnswers h) :=
  inferInstanceAs (Decidable (∀ k, ∀ a ∈ createdKeys k h, ∀ b ∈ createdKeys k.other h,
    a.2.isInitiator = false → b.2.isInitiator = false → a.2.send ≠ b.2.recv))

theorem completion_of_event {x : Transition P} {tag : ℕ} {keys : SessionKeys} {born : Ticks}
    (h : .created tag keys born ∈ eventsOf x) (hi : keys.isInitiator = true)
    (hn : ∀ s, x.after.next = some s → s.keys.isInitiator = false) :
    x.output = .decapsulated (.ok .handshakeComplete) ∧
      x.after.keysIn .current = some keys := by
  unfold eventsOf at h
  split at h
  · unfold sentEvents at h
    split at h <;> simp at h
  · unfold initiatedEvents at h
    split at h
    · split at h <;> simp at h
    · simp at h
  · split at h
    · rename_i r _ ho
      cases r with
      | reply wire =>
        simp only [receivedEvents,answeredEvents] at h
        (repeat' split at h) <;> try simp at h
        unfold createdEvents at h
        split at h
        · rename_i s hs
          obtain ⟨_,rfl,_⟩ := Event.created.inj (List.mem_singleton.mp h)
          rw [hn s hs] at hi
          cases hi
        · cases h
      | handshakeComplete =>
        simp only [receivedEvents,createdEvents] at h
        split at h
        · rename_i s hs
          obtain ⟨_,rfl,_⟩ := Event.created.inj (List.mem_singleton.mp h)
          exact ⟨ho,congrArg (Option.map Session.keys) hs⟩
        · cases h
      | cookieStored => simp [receivedEvents] at h
      | _ =>
        simp only [receivedEvents,acceptedEvents] at h
        (repeat' split at h) <;> simp at h
    · simp at h

section Runs

variable {p : Peers P} {ops : List (Side × Op)} {k : Side} {n : ℕ} {x : Joint P}

theorem next_responder (ops : List (Side × Op)) (k : Side) {s : Session}
    (hs : (p.final ops k).next = some s) : s.keys.isInitiator = false :=
  (paced_reachable (C := p.backend k) (p.built k)
    ⟨Machine.inputsOf k ops,(p.side_run ops k).2⟩).next s hs

theorem mem_spokenKeys {h : List (Joint P)} {key : Bytes 32} :
    key ∈ spokenKeys k h ↔ ∃ y ∈ h, y.input.1 = k ∧ y.output.transport?.isSome = true ∧
      ∃ r, (y.before k).current = some r ∧ r.keys.send = key := by
  simp only [spokenKeys,List.mem_filterMap,Option.ite_none_right_eq_some,keysIn,
    Option.map_map,Option.map_eq_some_iff,Function.comp_apply,slot,and_assoc]

theorem known_after (hx : (p.run ops)[n]? = some x) (k : Side) {s : Session}
    (hs : (x.after k).next = some s) : Known (sideEvents k ((p.run ops).take (n+1))) s := by
  have ht : (p.run ops).take (n+1) = p.run (ops.take (n+1)) := Machine.history_take ..
  rw [(p.at_index hx).2.1] at hs
  rw [ht]
  exact (p.ledger_final (ops.take (n+1)) k).known .next s hs

theorem spoken_counterpart (hI : IdealCrypto (p.run ops)) (hR : Relayed (p.run ops))
    (hF : FreshEphemerals (p.run ops)) (hO : DistinctAnswers (p.run ops)) {s : Session}
    (hs : (s.tag,s.keys) ∈ createdKeys k (p.run ops)) (hi : s.keys.isInitiator = false)
    (hm : s.keys.recv ∈ spokenKeys k.other ((p.run ops).take n)) :
    ∃ r : Session, .created r.tag r.keys r.created ∈ sideEvents k ((p.run ops).take n) ∧
      r.keys.recv = s.keys.recv := by
  obtain ⟨y,hy,hyk,_,r,hr,hkey⟩ := mem_spokenKeys.mp hm
  obtain ⟨j,hj,hjy⟩ := mem_take_iff.mp hy
  have hrk := (p.ledger_at hjy k.other).known .current r hr
  -- The other end initiated the session and completed it.
  have hri : r.keys.isInitiator = true := by
    by_contra hne
    exact hO k.other _ (createdKeys_of_known hrk) (s.tag,s.keys) (by rwa [Side.other_other])
      (by simpa using hne) hi hkey
  obtain ⟨x,hx,hk,he⟩ := mem_sideEvents.mp hrk.created
  obtain ⟨i,hi,hx⟩ := mem_take_iff.mp hx
  obtain ⟨ho,hcur⟩ := completion_of_event he hri fun s' hs' => by
    have ha : (x.after x.input.1).next = some s' := hs'
    rw [(p.at_index hx).2.1] at ha
    exact next_responder _ _ ha
  obtain ⟨j₀,_,y₀,_,_,hag⟩ := agreed_of_completion hI hR hF hx hk ho
  obtain ⟨s₀,r₀,hs₀,hr₀,_,_,_,hcross⟩ := hag.sessions
  obtain ⟨hj₀,hy₀,_,_⟩ := hag.answer
  rw [Side.other_other] at hr₀
  have hkeys : s₀.keys = r.keys := by
    have hcur : (x.after x.input.1).keysIn .current = some r.keys := hcur
    rw [hk] at hcur
    exact Option.some.inj ((congrArg (Option.map Session.keys) hs₀).symm.trans hcur)
  obtain ⟨w,hw,hwk,hwe⟩ := mem_sideEvents.mp (known_after hy₀ k hr₀).created
  obtain ⟨m,hmj,hmw⟩ := mem_take_iff.mp hw
  refine ⟨r₀,mem_sideEvents.mpr ⟨w,mem_take_iff.mpr ⟨m,by omega,hmw⟩,hwk,hwe⟩,?_⟩
  rw [← hkey,← hkeys]
  exact hcross.1.symm

theorem fresh_unspoken (hI : IdealCrypto (p.run ops)) (hR : Relayed (p.run ops))
    (hF : FreshEphemerals (p.run ops)) (hK : DistinctKeys (p.run ops))
    (hO : DistinctAnswers (p.run ops)) (hx : (p.run ops)[n]? = some x) {s : Session}
    (hs : (x.after k).next = some s) (htag : s.tag = (x.before k).sessionsCreated) :
    s.keys.recv ∉ spokenKeys k.other ((p.run ops).take n) := by
  intro hm
  have hsc := createdKeys_of_known (known_after hx k hs)
  have hsi : s.keys.isInitiator = false := by
    rw [(p.at_index hx).2.1] at hs
    exact next_responder _ k hs
  obtain ⟨r,hr,hrecv⟩ := spoken_counterpart hI hR hF hO hsc hsi hm
  obtain ⟨w,hw,hwk,hwe⟩ := mem_sideEvents.mp hr
  have hrc : (r.tag,r.keys) ∈ createdKeys k (p.run ops) :=
    List.mem_filterMap.mpr ⟨_,mem_sideEvents.mpr ⟨w,List.mem_of_mem_take hw,hwk,hwe⟩,rfl⟩
  have hsame : r.tag = s.tag := (hK k _ hrc _ hsc).1 hrecv
  have hlt := (p.ledger_at hx k).bounded _ hr _ rfl
  rw [hsame,htag] at hlt
  exact lt_irrefl _ hlt

theorem heard_spoken (hA : IdealAead (p.run ops)) (hK : DistinctKeys (p.run ops))
    {plain : List UInt8} (hx : (p.run ops)[n]? = some x)
    (hop : x.input.2.forNext (x.before x.input.1) = true)
    (ho : x.output.plaintext? = some plain) {s : Session}
    (hs : (x.before x.input.1).next = some s) :
    s.keys.recv ∈ spokenKeys x.input.1.other ((p.run ops).take n) := by
  obtain ⟨now,remote,underLoad,datagram,out,rng,m,s',hin,hm,hacc⟩ := accepted_at hx ho
  obtain ⟨j,y,r,hj,hy,_,hc⟩ := carried_of_opened hA hK hx hin hm hacc
  have hheld : s' = s := by
    obtain ⟨slot,hslot,hs'⟩ := hacc.held
    simp only [Op.forNext,hin,Op.datagram?,Option.map_some,hm] at hop
    have hnext : (x.before x.input.1).sessionWithIndex m.receiverIndex = some .next := by
      unfold sessionWithIndex
      rw [if_pos hop]
    obtain rfl := Option.some.inj (hslot.symm.trans hnext)
    exact Option.some.inj (hs'.symm.trans hs)
  obtain ⟨wire,hw,hsent⟩ := hc.sent
  refine mem_spokenKeys.mpr ⟨y,mem_take_iff.mpr ⟨j,hj,hy⟩,hc.side,?_,r,?_,?_⟩
  · rw [hw]
    rfl
  · rw [← hc.side]
    exact hsent.current
  · rw [← hc.key,hheld]

end Runs

def Tunnel.answers (t : Tunnel P) : Bool := (t.keysIn .current).any (fun keys => !keys.isInitiator)

theorem answers_iff {t : Tunnel P} :
    t.answers = true ↔ ∃ s, t.current = some s ∧ s.keys.isInitiator = false := by
  simp [answers,keysIn,slot,Option.any_eq_true]

theorem answers_mono {t t' : Tunnel P}
    (h : t'.keysIn .current = t.keysIn .current ∨ t'.keysIn .current = none)
    (ha : t'.answers = true) : t.answers = true := by
  unfold answers at ha ⊢
  rcases h with h | h
  · rwa [h] at ha
  · rw [h] at ha
    cases ha

/-- Where the current session of an end is not its own, the other end's is, and no
session on which this end has spoken waits there for confirmation. -/
def Led (h : List (Joint P)) (t : Side → Tunnel P) : Prop :=
  ∀ k, (t k).answers = true → (t k.other).answers = false ∧
    ∀ keys ∈ (t k.other).keysIn .next, keys.recv ∉ spokenKeys k h

section Leading

variable {p : Peers P} {ops : List (Side × Op)} {n : ℕ} {x : Joint P}

theorem spokenKeys_concat (k : Side) (h : List (Joint P)) (x : Joint P) :
    spokenKeys k (h++[x]) = spokenKeys k h++spokenKeys k [x] :=
  List.filterMap_append

theorem spokenKeys_quiet {k : Side} {x : Joint P} (h : x.output.transport? = none) :
    spokenKeys k [x] = [] := by
  simp [spokenKeys,h]

theorem spokenKeys_other (x : Joint P) : spokenKeys x.input.1.other [x] = [] := by
  have hne : x.input.1 ≠ x.input.1.other := by cases x.input.1 <;> nofun
  simp [spokenKeys,hne]

theorem answers_spoken (hO : DistinctAnswers (p.run ops)) (hx : (p.run ops)[n]? = some x)
    (ha : (x.before x.input.1).answers = true) {keys : SessionKeys}
    (hk : keys ∈ (x.before x.input.1.other).keysIn .next) :
    keys.recv ∉ spokenKeys x.input.1 [x] := by
  intro hm
  obtain ⟨y,hy,_,_,r,hr,hkey⟩ := mem_spokenKeys.mp hm
  obtain rfl := List.mem_singleton.mp hy
  obtain ⟨r',hr',hresp⟩ := answers_iff.mp ha
  obtain rfl := Option.some.inj (hr.symm.trans hr')
  obtain ⟨s,hs,rfl⟩ := Option.map_eq_some_iff.mp hk
  have hs : (y.before y.input.1.other).next = some s := hs
  have hsc := createdKeys_of_known ((p.ledger_at hx y.input.1.other).known .next s hs)
  rw [(p.at_index hx).1] at hs
  exact hO y.input.1 _
    (createdKeys_of_known ((p.ledger_at hx y.input.1).known .current r hr)) _ hsc hresp
    (next_responder _ _ hs) hkey

theorem Led.promoted (hA : IdealAead (p.run ops)) (hK : DistinctKeys (p.run ops))
    (hx : (p.run ops)[n]? = some x) (h : Led ((p.run ops).take n) x.before)
    {plain : List UInt8} (hop : x.input.2.forNext (x.before x.input.1) = true)
    (ho : x.output.plaintext? = some plain) :
    (x.before x.input.1.other).answers = false := by
  by_contra hans
  have hnext := (h x.input.1.other (by simpa using hans)).2
  rw [Side.other_other] at hnext
  cases hs : (x.before x.input.1).next with
  | none =>
    unfold Op.forNext at hop
    split at hop
    · rw [hs] at hop
      cases hop
    · cases hop
  | some s =>
    exact hnext s.keys (by simp [keysIn,slot,hs]) (heard_spoken hA hK hx hop ho hs)

theorem led_step (hI : IdealCrypto (p.run ops)) (hA : IdealAead (p.run ops))
    (hR : Relayed (p.run ops)) (hF : FreshEphemerals (p.run ops)) (hK : DistinctKeys (p.run ops))
    (hO : DistinctAnswers (p.run ops)) (hU : Uncrossed (p.run ops))
    (hx : (p.run ops)[n]? = some x) (h : Led ((p.run ops).take n) x.before) :
    Led ((p.run ops).take (n+1)) x.after := by
  have hback := h x.input.1.other
  rw [Side.other_other] at hback
  -- One goal for the end that made the call, one for the end that did not.
  suffices hown : ((x.after x.input.1).answers = true →
      (x.before x.input.1.other).answers = false ∧
      ∀ keys ∈ (x.before x.input.1.other).keysIn .next,
        keys.recv ∉ spokenKeys x.input.1 ((p.run ops).take n++[x])) ∧
      ((x.before x.input.1.other).answers = true → (x.after x.input.1).answers = false ∧
      ∀ keys ∈ (x.after x.input.1).keysIn .next,
        keys.recv ∉ spokenKeys x.input.1.other ((p.run ops).take n)) by
    rw [p.take_succ hx]
    intro k
    rcases Side.eq_or_other x.input.1 k with rfl | rfl
    · rw [p.other_at hx]
      exact hown.1
    · rw [Side.other_other,p.other_at hx,spokenKeys_concat,spokenKeys_other,List.append_nil]
      exact hown.2
  have hquiet : x.output.transport? = none → ∀ keys : SessionKeys,
      keys.recv ∉ spokenKeys x.input.1 ((p.run ops).take n) →
      keys.recv ∉ spokenKeys x.input.1 ((p.run ops).take n++[x]) := by
    intro ht keys hk
    rwa [spokenKeys_concat,spokenKeys_quiet ht,List.append_nil]
  have hr := deed_rolled (p.deed_at hx rfl)
  generalize hafter : x.after x.input.1 = t' at hr
  generalize hout : x.output = o at hr hquiet
  cases hr with
  | kept hc hn =>
    refine ⟨fun ha => ?_,fun ha => ⟨?_,fun keys hk => ?_⟩⟩
    · have hold := answers_mono hc ha
      refine ⟨(h _ hold).1,fun keys hk => ?_⟩
      rw [spokenKeys_concat,List.mem_append,not_or]
      exact ⟨(h _ hold).2 keys hk,answers_spoken hO hx hold hk⟩
    · by_contra hans
      have hold := answers_mono hc (by simpa using hans)
      rw [(hback ha).1] at hold
      cases hold
    · rcases hn with hn | hn
      · exact (hback ha).2 keys (hn ▸ hk)
      · rw [hn] at hk
        cases hk
  | answered keys hc hn ho =>
    refine ⟨fun ha => ?_,fun ha => ⟨?_,fun keys' hk => ?_⟩⟩
    · have hold := answers_mono (Or.inl hc) ha
      exact ⟨(h _ hold).1,fun keys hk => hquiet ho keys ((h _ hold).2 keys hk)⟩
    · have hsame : t'.answers = (x.before x.input.1).answers := by
        unfold answers
        rw [hc]
      rw [hsame]
      exact (hback ha).1
    · obtain ⟨s,hs,rfl⟩ := Option.map_eq_some_iff.mp hk
      obtain rfl := Option.some.inj (hn.symm.trans hs)
      exact fresh_unspoken hI hR hF hK hO hx (k := x.input.1) (by rw [hafter,hn]) rfl
  | completed keys hc hi hn ho =>
    have hans : t'.answers = false := by simp [answers,hc,hi]
    refine ⟨fun ha => ?_,fun ha => ⟨hans,fun keys' hk => (hback ha).2 keys' (hn ▸ hk)⟩⟩
    rw [hans] at ha
    cases ha
  | promoted plain hc hn hop ho ht =>
    have hother := h.promoted hA hK hx hop (hout ▸ ho)
    refine ⟨fun _ => ⟨hother,fun keys hk => hquiet ht keys ?_⟩,fun ha => ?_⟩
    · exact Chronicle.iff_getElem?.mp hU n x hx hop keys hk
    · rw [hother] at ha
      cases ha

theorem led_run (hI : IdealCrypto (p.run ops)) (hA : IdealAead (p.run ops))
    (hR : Relayed (p.run ops)) (hF : FreshEphemerals (p.run ops)) (hK : DistinctKeys (p.run ops))
    (hO : DistinctAnswers (p.run ops)) (hU : Uncrossed (p.run ops)) (n : ℕ)
    (hn : n ≤ ops.length) : Led ((p.run ops).take n) (p.final (ops.take n)) := by
  induction n with
  | zero =>
    intro k ha
    obtain ⟨s,hs,_⟩ := answers_iff.mp ha
    rw [List.take_zero,show p.final [] k = p.tunnel k from rfl,
      (withBackend_ok (p.built k)).1.current] at hs
    cases hs
  | succ n ih =>
    have hlt : n < (p.run ops).length := by
      rw [Peers.run,Machine.history_length]
      exact hn
    have hx : (p.run ops)[n]? = some (p.run ops)[n] := List.getElem?_eq_getElem hlt
    obtain ⟨hb,ha,_⟩ := p.at_index hx
    rw [← ha]
    refine led_step hI hA hR hF hK hO hU hx ?_
    rw [hb]
    exact ih (by omega)

end Leading

/-- In every run without crossed confirmations, in every state of it, one of two
established ends holds a session of its own. -/
theorem rekeyer_present (p : Peers P) (ops : List (Side × Op)) (hI : IdealCrypto (p.run ops))
    (hA : IdealAead (p.run ops)) (hR : Relayed (p.run ops)) (hF : FreshEphemerals (p.run ops))
    (hK : DistinctKeys (p.run ops)) (hO : DistinctAnswers (p.run ops)) (hU : Uncrossed (p.run ops))
    (n : ℕ) (he : ∀ k, (p.final (ops.take n) k).isEstablished = true) :
    ∃ k s, (p.final (ops.take n) k).current = some s ∧ s.keys.isInitiator = true := by
  have hled := led_run hI hA hR hF hK hO hU (min n ops.length) (Nat.min_le_right _ _)
  rw [← List.take_eq_take_min] at hled
  obtain ⟨s,hs,_⟩ := currentUsable_some (he .a)
  obtain ⟨r,hr,_⟩ := currentUsable_some (he .b)
  cases hi : s.keys.isInitiator with
  | true => exact ⟨.a,s,hs,hi⟩
  | false =>
    refine ⟨.b,r,hr,?_⟩
    have hb : (p.final (ops.take n) .b).answers = false :=
      (hled .a (answers_iff.mpr ⟨s,hs,hi⟩)).1
    simpa [answers,keysIn,slot,hr] using hb

def specimenHand (ops : List (Side × Op)) (n : ℕ) (k : Side) : List (Side × Op) :=
  let wire := ((specimenPeers.run ops)[n]?.bind (fun x => x.output.wire?)).getD []
  ops++[(k,.decapsulate ⟨Ticks.zero,0,0⟩ [] false wire (List.replicate 148 0)
    (List.replicate 2 (some (fun i => UInt8.ofNat (8*n+i)))))]

/-- Both ends initiate at once. Each handshake is answered, completed and confirmed,
and after that neither end has anything left to do. -/
def specimenCrossing : List (Side × Op) :=
  let now : Now := ⟨Ticks.zero,0,0⟩
  let out : List UInt8 := List.replicate 148 0
  let rng (n : ℕ) : Entropy := List.replicate 2 (some (fun i => UInt8.ofNat (n+i)))
  let polls : List (Side × Op) := [(.a,.poll now out (rng 7)),(.b,.poll now out (rng 9))]
  let initiated := [(.a,.initiateHandshake now out (rng 3)),
    (.b,.initiateHandshake now out (rng 5))]
  let answered := specimenHand (specimenHand initiated 0 .b) 1 .a
  let completed := specimenHand (specimenHand answered 2 .a) 3 .b
  specimenHand (specimenHand (completed++polls) 6 .b) 7 .a++polls

-- One proof, so that the exchange is evaluated once.
theorem specimenExchange_facts : Relayed (specimenPeers.run specimenExchange) ∧
    FreshEphemerals (specimenPeers.run specimenExchange) ∧
    DistinctAnswers (specimenPeers.run specimenExchange) ∧
    Uncrossed (specimenPeers.run specimenExchange) ∧
    ∀ k, (specimenPeers.final specimenExchange k).isEstablished = true := by
  decide +kernel

theorem rekeyer_present_specimen :
    (∀ k, (specimenPeers.final specimenExchange k).isEstablished = true) ∧
    ∃ k s, (specimenPeers.final specimenExchange k).current = some s ∧
      s.keys.isInitiator = true := by
  obtain ⟨hrelayed,hfresh,hanswers,huncrossed,he⟩ := specimenExchange_facts
  have hlen : specimenExchange.length = 5 := by decide +kernel
  have hp := rekeyer_present specimenPeers specimenExchange
    ⟨commutes_mixing,by decide +kernel,injOn_digests (by decide +kernel)⟩ specimenExchange_aead
    hrelayed hfresh specimenExchange_keys hanswers huncrossed 5
  rw [List.take_of_length_le (by rw [hlen])] at hp
  exact ⟨he,hp he⟩

/-- Every datagram of the crossing is delivered once, both polls are idle and both
ends are established, but neither end holds a session of its own. -/
theorem crossing_leaves_no_rekeyer : Relayed (specimenPeers.run specimenCrossing) ∧
    ((specimenPeers.run specimenCrossing).filterMap (fun x => x.output.wire?)).Perm
      ((specimenPeers.run specimenCrossing).filterMap (fun x => x.input.2.datagram?)) ∧
    ((specimenPeers.run specimenCrossing).drop 10).map (fun x => (x.input.1,x.output)) =
      [(.a,.polled (.ok .idle)),(.b,.polled (.ok .idle))] ∧
    ∀ k, (specimenPeers.final specimenCrossing k).isEstablished = true ∧
      (specimenPeers.final specimenCrossing k).current.map (fun s => s.keys.isInitiator) =
        some false := by
  decide +kernel

end WireGuard
