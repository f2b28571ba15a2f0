import WireGuard.Library.Chronicle
import WireGuard.Refinement

/-!
# The ledger of sessions

`Ledger` relates the events of a run to the sessions a tunnel holds: every live
session was created under its tag, its send counter is above every counter it
has used, its replay window is the set of counters it has accepted, and no two
slots hold the same session. Every action keeps the ledger, and the events it
adds are justified by the ones before.
-/

set_option autoImplicit false

namespace WireGuard
open Tunnel

variable {P : Primitives}

def acceptedBy (es : List Event) (tag : ℕ) : Set ℕ := {c | ∃ time, .accepted tag c time ∈ es}

/-- What must have happened before an event. -/
def Justified (before : List Event) : Event → Prop
  | .created tag _ _ => ∀ keys time, .created tag keys time ∉ before
  | .sent tag counter time =>
    (∀ c at', .sent tag c at' ∈ before → c < counter) ∧ counter < rejectAfterMessages ∧
      ∃ keys born, .created tag keys born ∈ before ∧ time.since born < rejectAfterTime ∧
        (keys.isInitiator = true ∨ (acceptedBy before tag).Nonempty)
  | .accepted tag counter time =>
    counter ∉ acceptedBy before tag ∧ counter < rejectAfterMessages ∧
      ∃ keys born, .created tag keys born ∈ before ∧ time.since born < rejectAfterTime
  | .initiated _ => True
  | .answered _ => True

/-- What the events say about a session that the tunnel holds. -/
structure Known (es : List Event) (s : Session) : Prop where
  created : .created s.tag s.keys s.created ∈ es
  sent : ∀ c time, .sent s.tag c time ∈ es → c < s.sendCounter
  accepted : s.replay.Tracks (acceptedBy es s.tag)
  confirmed : s.confirmed = true →
    s.keys.isInitiator = true ∨ (acceptedBy es s.tag).Nonempty

def Event.tag? : Event → Option ℕ
  | .created tag _ _ => some tag
  | .sent tag _ _ => some tag
  | .accepted tag _ _ => some tag
  | .initiated _ => none
  | .answered _ => none

structure Ledger (es : List Event) (t : Tunnel P) : Prop where
  chronicle : Chronicle Justified es
  known : ∀ a s, t.slot a = some s → Known es s
  distinct : ∀ a b s s', t.slot a = some s → t.slot b = some s' → s.tag = s'.tag → a = b
  bounded : ∀ e ∈ es, ∀ tag, e.tag? = some tag → tag < t.sessionsCreated

theorem mem_acceptedBy_append {es : List Event} {e : Event} {tag c : ℕ}
    (h : ∀ time, e ≠ .accepted tag c time) :
    c ∈ acceptedBy (es++[e]) tag ↔ c ∈ acceptedBy es tag := by
  simp only [acceptedBy,Set.mem_ofPred_eq,List.mem_append,List.mem_singleton]
  constructor
  · rintro ⟨time,hm | he⟩
    · exact ⟨time,hm⟩
    · exact absurd he.symm (h time)
  · rintro ⟨time,hm⟩
    exact ⟨time,Or.inl hm⟩

theorem acceptedBy_append_other {es : List Event} {e : Event} {tag : ℕ}
    (h : ∀ c time, e ≠ .accepted tag c time) : acceptedBy (es++[e]) tag = acceptedBy es tag :=
  Set.ext fun c => mem_acceptedBy_append (h c)

theorem Known.append_other {es : List Event} {s : Session} {e : Event} (h : Known es s)
    (he : e.tag? ≠ some s.tag) : Known (es++[e]) s := by
  have ha : acceptedBy (es++[e]) s.tag = acceptedBy es s.tag :=
    acceptedBy_append_other fun c time hc => he (by rw [hc]; rfl)
  refine ⟨List.mem_append_left _ h.created,fun c time hm => ?_,?_,?_⟩
  · rcases List.mem_append.mp hm with hm | hm
    · exact h.sent c time hm
    · exact absurd (by rw [← List.mem_singleton.mp hm]; rfl) he
  · rw [ha]
    exact h.accepted
  · rw [ha]
    exact h.confirmed

theorem Ledger.move {es : List Event} {t t' : Tunnel P} (h : Ledger es t) (f : Slot → Slot)
    (hf : ∀ a b, f a = f b → a = b) (hs : ∀ a s, t'.slot a = some s → t.slot (f a) = some s)
    (hn : t'.sessionsCreated = t.sessionsCreated) : Ledger es t' where
  chronicle := h.chronicle
  known a s ha := h.known (f a) s (hs a s ha)
  distinct a b s s' ha hb ht := hf a b (h.distinct _ _ s s' (hs a s ha) (hs b s' hb) ht)
  bounded := by
    rw [hn]
    exact h.bounded

theorem Ledger.frame {es : List Event} {t t' : Tunnel P} (h : Ledger es t)
    (hs : ∀ a, t'.slot a = t.slot a) (hn : t'.sessionsCreated = t.sessionsCreated) :
    Ledger es t' :=
  h.move id (fun _ _ h => h) (fun a _ ha => (hs a).symm.trans ha) hn

theorem Ledger.untagged {es : List Event} {t : Tunnel P} {e : Event} (h : Ledger es t)
    (he : e.tag? = none) (hj : Justified es e) : Ledger (es++[e]) t where
  chronicle := h.chronicle.concat hj
  known a s ha := (h.known a s ha).append_other (by simp [he])
  distinct := h.distinct
  bounded := by
    intro d hd tag ht
    rcases List.mem_append.mp hd with hd | hd
    · exact h.bounded d hd tag ht
    · rw [List.mem_singleton.mp hd,he] at ht
      cases ht

theorem Ledger.install {es : List Event} {t t' : Tunnel P} (h : Ledger es t) (a : Slot)
    (keys : SessionKeys) (born : Ticks)
    (ha : t'.slot a = some (Session.new keys born t.sessionsCreated))
    (hs : ∀ b, b ≠ a → t'.slot b = t.slot b)
    (hn : t'.sessionsCreated = t.sessionsCreated+1) :
    Ledger (es++[.created t.sessionsCreated keys born]) t' := by
  have hold : ∀ b s, b ≠ a → t'.slot b = some s → t.slot b = some s ∧
      s.tag < t.sessionsCreated := by
    intro b s hb hs'
    rw [hs b hb] at hs'
    exact ⟨hs',h.bounded _ (h.known b s hs').created _ rfl⟩
  have hempty : acceptedBy (es++[.created t.sessionsCreated keys born]) t.sessionsCreated = ∅ := by
    ext c
    simp only [acceptedBy,Set.mem_ofPred_eq,Set.mem_empty_iff_false,iff_false]
    rintro ⟨time,hm⟩
    rcases List.mem_append.mp hm with hm | hm
    · exact absurd (h.bounded _ hm _ rfl) (lt_irrefl _)
    · simp at hm
  refine ⟨h.chronicle.concat ?_,fun b s hb => ?_,fun b c s s' hb hc ht => ?_,fun e he tag ht => ?_⟩
  · intro keys' time hm
    exact absurd (h.bounded _ hm _ rfl) (lt_irrefl _)
  · by_cases hba : b = a
    · subst hba
      obtain rfl := Option.some.inj (ha.symm.trans hb)
      refine ⟨by simp [Session.new],fun c time hm => ?_,?_,fun hc => Or.inl hc⟩
      · rcases List.mem_append.mp hm with hm | hm
        · exact absurd (h.bounded _ hm _ rfl) (lt_irrefl _)
        · simp at hm
      · change ReplayWindow.new.Tracks _
        rw [show (Session.new keys born t.sessionsCreated).tag = t.sessionsCreated from rfl,hempty]
        exact ReplayWindow.tracks_new
    · obtain ⟨hs',hlt⟩ := hold b s hba hb
      refine (h.known b s hs').append_other ?_
      intro he
      have := Option.some.inj he
      omega
  · have hnew : ∀ d s, t'.slot d = some s → s.tag = t.sessionsCreated → d = a := by
      intro d s hd htag
      by_contra hne
      have := (hold d s hne hd).2
      omega
    by_cases hba : b = a
    · subst hba
      obtain rfl := Option.some.inj (ha.symm.trans hb)
      exact (hnew c s' hc ht.symm).symm
    · by_cases hca : c = a
      · subst hca
        obtain rfl := Option.some.inj (ha.symm.trans hc)
        exact hnew b s hb ht
      · exact h.distinct b c s s' (hold b s hba hb).1 (hold c s' hca hc).1 ht
  · rw [hn]
    rcases List.mem_append.mp he with he | he
    · have := h.bounded e he tag ht
      omega
    · rw [List.mem_singleton.mp he] at ht
      have := Option.some.inj ht
      omega

theorem Ledger.update {es : List Event} {t t' : Tunnel P} {a : Slot} {e : Event} (h : Ledger es t)
    (s s' : Session) (ha : t.slot a = some s) (ha' : t'.slot a = some s')
    (hs : ∀ b, b ≠ a → t'.slot b = t.slot b) (hn : t'.sessionsCreated = t.sessionsCreated)
    (htag : s'.tag = s.tag) (he : e.tag? = some s.tag) (hj : Justified es e)
    (hk : Known (es++[e]) s') : Ledger (es++[e]) t' := by
  have hold : ∀ b r, b ≠ a → t'.slot b = some r → t.slot b = some r := by
    intro b r hb hr
    rwa [hs b hb] at hr
  have hother : ∀ b r, b ≠ a → t.slot b = some r → r.tag ≠ s.tag :=
    fun b r hb hr ht => hb (h.distinct b a r s hr ha ht)
  refine ⟨h.chronicle.concat hj,fun b r hb => ?_,fun b c r r' hb hc ht => ?_,fun d hd tag ht => ?_⟩
  · by_cases hba : b = a
    · subst hba
      obtain rfl := Option.some.inj (ha'.symm.trans hb)
      exact hk
    · have hr := hold b r hba hb
      refine (h.known b r hr).append_other ?_
      rw [he]
      exact fun heq => hother b r hba hr (Option.some.inj heq).symm
  · by_cases hba : b = a
    · subst hba
      by_cases hca : c = b
      · exact hca.symm
      · obtain rfl := Option.some.inj (ha'.symm.trans hb)
        exact absurd (ht.symm.trans htag) (hother c r' hca (hold c r' hca hc))
    · by_cases hca : c = a
      · subst hca
        obtain rfl := Option.some.inj (ha'.symm.trans hc)
        exact absurd (ht.trans htag) (hother b r hba (hold b r hba hb))
      · exact h.distinct b c r r' (hold b r hba hb) (hold c r' hca hc) ht
  · rw [hn]
    rcases List.mem_append.mp hd with hd | hd
    · exact h.bounded d hd tag ht
    · rw [List.mem_singleton.mp hd,he] at ht
      rw [← Option.some.inj ht]
      exact h.bounded _ (h.known a s ha).created _ rfl

@[simp] theorem slot_setSlot (t : Tunnel P) (s : Session) (a : Slot) :
    (t.setSlot s a).slot a = some s := by cases a <;> rfl

theorem slot_setSlot_ne (t : Tunnel P) (s : Session) {a b : Slot} (h : b ≠ a) :
    (t.setSlot s a).slot b = t.slot b := by cases a <;> cases b <;> first | rfl | exact absurd rfl h

@[simp] theorem sessionsCreated_setSlot (t : Tunnel P) (s : Session) (a : Slot) :
    (t.setSlot s a).sessionsCreated = t.sessionsCreated := by cases a <;> rfl

theorem slot_armSendRekey (t : Tunnel P) (now : Ticks) (a : Slot) :
    (t.armSendRekey now).slot a = t.slot a := by
  unfold armSendRekey
  split
  · cases a <;> rfl
  · rfl

theorem sessionsCreated_armSendRekey (t : Tunnel P) (now : Ticks) :
    (t.armSendRekey now).sessionsCreated = t.sessionsCreated := by
  unfold armSendRekey
  split <;> rfl

theorem slot_commitSeal (t : Tunnel P) (now : Ticks) (payloadLen : Option ℕ) (a : Slot) :
    (t.commitSeal now payloadLen).slot a = t.takeCounter.slot a := by
  cases payloadLen <;> exact (slot_armSendRekey _ _ a).trans (by cases a <;> rfl)

theorem sessionsCreated_commitSeal (t : Tunnel P) (now : Ticks) (payloadLen : Option ℕ) :
    (t.commitSeal now payloadLen).sessionsCreated = t.sessionsCreated := by
  cases payloadLen <;> exact sessionsCreated_armSendRekey _ _

theorem slot_armRecvRekey (t : Tunnel P) (now : Ticks) (a : Slot) :
    (t.armRecvRekey now).slot a = t.slot a := by
  unfold armRecvRekey
  split
  · cases a <;> rfl
  · rfl

theorem sessionsCreated_armRecvRekey (t : Tunnel P) (now : Ticks) :
    (t.armRecvRekey now).sessionsCreated = t.sessionsCreated := by
  unfold armRecvRekey
  split <;> rfl

theorem Ledger.transmit {es : List Event} {t : Tunnel P} (h : Ledger es t)
    (payloadLen : Option ℕ) (hu : t.currentUsable t.lastNow = true) :
    Ledger (es++(Act.transmit payloadLen).events t) ((Act.transmit payloadLen).apply t) := by
  obtain ⟨s,hs,hus⟩ := currentUsable_some hu
  obtain ⟨hconf,hlt,hage⟩ := Session.usableForSend_iff.mp hus
  have hk := h.known .current s hs
  simp only [Act.events,hs]
  refine h.update (a := .current) s {s with sendCounter := s.sendCounter+1} hs ?_
    (fun b hb => ?_) (sessionsCreated_commitSeal _ _ _) rfl rfl ?_ ?_
  · exact (slot_commitSeal _ _ _ _).trans (by simp [takeCounter,slot,hs])
  · refine (slot_commitSeal _ _ _ _).trans ?_
    cases b with
    | current => exact absurd rfl hb
    | previous => rfl
    | next => rfl
  · exact ⟨hk.sent,hlt,s.keys,s.created,hk.created,hage,hk.confirmed hconf⟩
  · have ha : acceptedBy (es++[.sent s.tag s.sendCounter t.lastNow]) s.tag =
        acceptedBy es s.tag := acceptedBy_append_other (by simp)
    refine ⟨List.mem_append_left _ hk.created,fun c time hm => ?_,?_,?_⟩
    · rcases List.mem_append.mp hm with hm | hm
      · exact Nat.lt_succ_of_lt (hk.sent c time hm)
      · simp only [List.mem_singleton,Event.sent.injEq] at hm
        dsimp only
        omega
    · change s.replay.Tracks _
      rw [ha]
      exact hk.accepted
    · change s.confirmed = true → s.keys.isInitiator = true ∨ _
      rw [ha]
      exact hk.confirmed

def promoteFrom : Slot → Slot
  | .previous => .current
  | .current => .next
  | .next => .previous

theorem promoteFrom_inj (a b : Slot) (h : promoteFrom a = promoteFrom b) : a = b := by
  cases a <;> cases b <;> first | rfl | cases h

theorem Ledger.promote {es : List Event} {t : Tunnel P} (h : Ledger es t) (now : Ticks) :
    Ledger es (t.promote now) := by
  refine h.move promoteFrom promoteFrom_inj (fun a s ha => ?_) rfl
  cases a with
  | previous => exact ha
  | current => exact ha
  | next => cases ha

theorem Ledger.accept {es : List Event} {t : Tunnel P} (h : Ledger es t) (a : Slot)
    (counter n : ℕ) (he : (Act.accept a counter n).enabled t) :
    Ledger (es++(Act.accept a counter n).events t) ((Act.accept a counter n).apply t) := by
  obtain ⟨s,hs,hlt,hage,hcheck⟩ := he
  have hk := h.known a s hs
  simp only [Act.events,Act.apply,hs]
  have hnew : acceptedBy (es++[.accepted s.tag counter t.lastNow]) s.tag =
      insert counter (acceptedBy es s.tag) := by
    ext c
    simp only [acceptedBy,Set.mem_ofPred_eq,List.mem_append,List.mem_singleton,
      Event.accepted.injEq,Set.mem_insert_iff]
    constructor
    · rintro ⟨time,hm | ⟨_,hc,_⟩⟩
      · exact Or.inr ⟨time,hm⟩
      · exact Or.inl hc
    · rintro (hc | ⟨time,hm⟩)
      · exact ⟨t.lastNow,Or.inr ⟨trivial,hc,rfl⟩⟩
      · exact ⟨time,Or.inl hm⟩
  have hu : Ledger (es++[.accepted s.tag counter t.lastNow])
      (t.setSlot {s with replay := (s.replay.accept counter).1, confirmed := true} a) := by
    refine h.update s _ hs (slot_setSlot _ _ _) (fun b hb => slot_setSlot_ne _ _ hb)
      (sessionsCreated_setSlot _ _ _) rfl rfl ?_ ?_
    · exact ⟨((ReplayWindow.check_iff hk.accepted counter).mp hcheck).2.1,hlt,s.keys,s.created,
        hk.created,hage⟩
    · refine ⟨List.mem_append_left _ hk.created,fun c time hm => ?_,?_,fun _ => ?_⟩
      · rcases List.mem_append.mp hm with hm | hm
        · exact hk.sent c time hm
        · simp at hm
      · change (s.replay.accept counter).1.Tracks (acceptedBy _ s.tag)
        rw [hnew]
        exact ReplayWindow.tracks_accept hk.accepted hcheck
      · refine Or.inr ⟨counter,?_⟩
        change counter ∈ acceptedBy _ s.tag
        rw [hnew]
        exact Set.mem_insert _ _
  have hp : ∀ u, u = t.setSlot {s with replay := (s.replay.accept counter).1, confirmed := true} a →
      Ledger (es++[.accepted s.tag counter t.lastNow])
        (if (!s.confirmed && a == Slot.next) = true then u.promote t.lastNow else u) := by
    rintro u rfl
    split
    · exact hu.promote _
    · exact hu
  refine (hp _ rfl).frame (fun b => ?_) (sessionsCreated_armRecvRekey _ _)
  exact Eq.trans (by cases b <;> rfl) (slot_armRecvRekey _ _ b)

/-- Every action keeps the ledger. -/
theorem ledger_act (es : List Event) (t : Tunnel P) (a : Act) (h : Ledger es t)
    (ha : a.enabled t) : Ledger (es++a.events t) (a.apply t) := by
  have hframe : ∀ t' : Tunnel P, t'.previous = t.previous → t'.current = t.current →
      t'.next = t.next → t'.sessionsCreated = t.sessionsCreated → Ledger (es++[]) t' := by
    intro t' hp hc hx hn
    rw [List.append_nil]
    exact h.frame (fun a => by cases a <;> assumption) hn
  cases a with
  | initiate now index eph jitter =>
    refine (h.untagged (e := .initiated (t.nextTimestamp now)) rfl trivial).frame ?_ rfl
    intro a
    cases a <;> rfl
  | respond m consumed index eph =>
    have h1 := h.untagged (e := .answered consumed.timestamp) rfl trivial
    have h2 : Ledger _ ((Act.respond m consumed index eph).apply t) :=
      h1.install .next (t.answerKeys consumed index eph) t.lastNow rfl
        (fun b hb => by cases b <;> first | rfl | exact absurd rfl hb) rfl
    simpa [Act.events] using h2
  | complete m keys =>
    have h1 : Ledger es {t with previous := t.current, current := none} := by
      refine h.move (fun | .previous => .current | .current => .previous | .next => .next)
        (fun a b hab => by cases a <;> cases b <;> first | rfl | cases hab) (fun a s ha => ?_) rfl
      cases a with
      | previous => exact ha
      | current => cases ha
      | next => exact ha
    exact h1.install .current keys t.lastNow rfl
      (fun b hb => by cases b <;> first | rfl | exact absurd rfl hb) rfl
  | transmit payloadLen => exact h.transmit payloadLen ha
  | accept slot counter n => exact h.accept slot counter n ha
  | expireNext =>
    simp only [Act.events,Act.apply,List.append_nil]
    unfold expireNext
    split
    · exact h
    split
    · refine h.move id (fun _ _ h => h) (fun a s ha => ?_) rfl
      cases a with
      | next => cases ha
      | previous => exact ha
      | current => exact ha
    · exact h
  | discard =>
    simp only [Act.events,Act.apply,List.append_nil]
    refine h.move id (fun _ _ h => h) (fun a s ha => ?_) rfl
    cases a <;> cases ha
  | _ => exact hframe _ rfl rfl rfl rfl

theorem ledger_nil (t : Tunnel P) (hp : t.previous = none) (hc : t.current = none)
    (hx : t.next = none) : Ledger [] t where
  chronicle := Chronicle.nil
  known a s ha := by cases a <;> simp_all [slot]
  distinct a b s s' ha := by cases a <;> simp_all [slot]
  bounded := by simp

end WireGuard
