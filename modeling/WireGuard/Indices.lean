import WireGuard.Past

/-!
# Live indices

An index is checked for freshness when it is drawn and never again, while
commits move it between the pending handshake and the three session slots. Each
commit moves indices to new holders, drops them or brings in a fresh one, so no
two holders ever share an index and a received index names at most one of them.
-/

set_option autoImplicit false

namespace WireGuard
open ByteString Tunnel

variable {P : Primitives}

/-- The local indices of the sessions and of the pending handshake. -/
def Tunnel.liveIndices (t : Tunnel P) : List UInt32 :=
  [t.previous,t.current,t.next].filterMap (fun s => s.map (fun s => s.keys.localIndex)) ++
    (t.inflight.map InFlightInitiation.localIndex).toList

structure Unambiguous (t : Tunnel P) : Prop where
  slots : ∀ a b s s', t.slot a = some s → t.slot b = some s' →
    s.keys.localIndex = s'.keys.localIndex → a = b
  inflight : ∀ i, t.inflight = some i → ∀ a s, t.slot a = some s →
    s.keys.localIndex ≠ i.localIndex

theorem Unambiguous.move {t t' : Tunnel P} (h : Unambiguous t) (f : Slot → Slot)
    (hf : ∀ a b, f a = f b → a = b)
    (hs : ∀ a s', t'.slot a = some s' → ∃ s, t.slot (f a) = some s ∧
      s'.keys.localIndex = s.keys.localIndex)
    (hi : ∀ i, t'.inflight = some i → t.inflight = some i) : Unambiguous t' where
  slots a b s s' ha hb he := by
    obtain ⟨r,hr,hk⟩ := hs a s ha
    obtain ⟨r',hr',hk'⟩ := hs b s' hb
    exact hf a b (h.slots _ _ r r' hr hr' (by rw [← hk,he,hk']))
  inflight i hi' a s ha := by
    obtain ⟨r,hr,hk⟩ := hs a s ha
    rw [hk]
    exact h.inflight i (hi i hi') _ r hr

theorem Unambiguous.frame {t t' : Tunnel P} (h : Unambiguous t)
    (hs : ∀ a s, t'.slot a = some s → t.slot a = some s)
    (hi : ∀ i, t'.inflight = some i → t.inflight = some i) : Unambiguous t' :=
  h.move id (fun _ _ h => h) (fun a s ha => ⟨s,hs a s ha,rfl⟩) hi

theorem holds_iff {o : Option Session} {index : UInt32} :
    holds o index = true ↔ ∃ s, o = some s ∧ s.keys.localIndex = index := by
  cases o with
  | none => simp [holds]
  | some s => simp [holds]

theorem sessionWithIndex_holds {t : Tunnel P} {index : UInt32} {a : Slot}
    (h : t.sessionWithIndex index = some a) : holds (t.slot a) index = true := by
  unfold sessionWithIndex at h
  split_ifs at h with hn hc hp
  all_goals
    obtain rfl := Option.some.inj h
    assumption

theorem sessionWithIndex_none {t : Tunnel P} {index : UInt32} :
    t.sessionWithIndex index = none ↔ ∀ a, ¬holds (t.slot a) index = true := by
  constructor
  · intro h a
    unfold sessionWithIndex at h
    split_ifs at h with hn hc hp
    cases a <;> assumption
  · intro h
    rw [Option.eq_none_iff_forall_ne_some]
    exact fun a ha => h a (sessionWithIndex_holds ha)

theorem indexClash_free {t : Tunnel P} {index : UInt32} (h : t.indexClash index = false) :
    (∀ a s, t.slot a = some s → s.keys.localIndex ≠ index) ∧
      ∀ i, t.inflight = some i → i.localIndex ≠ index := by
  unfold indexClash at h
  rw [Bool.or_eq_false_iff,Option.isSome_eq_false_iff,Option.isNone_iff_eq_none,
    sessionWithIndex_none] at h
  refine ⟨fun a s ha he => h.1 a (holds_iff.mpr ⟨s,ha,he⟩),fun i hi he => ?_⟩
  have hn := h.2
  simp [inflightHas,hi,he] at hn

theorem Unambiguous.promote {t : Tunnel P} (h : Unambiguous t) (now : Ticks) :
    Unambiguous (t.promote now) := by
  refine h.move promoteFrom promoteFrom_inj (fun a s ha => ⟨s,?_,rfl⟩) (fun i hi => by cases hi)
  cases a with
  | previous => exact ha
  | current => exact ha
  | next => cases ha

theorem Unambiguous.accept {t : Tunnel P} (h : Unambiguous t) {a : Slot} {s : Session}
    (hs : t.slot a = some s) (now : Ticks) (replay : ReplayWindow) (n : ℕ) :
    Unambiguous (t.commitTransport now a s replay n) := by
  have hset : Unambiguous (t.setSlot {s with replay := replay, confirmed := true} a) := by
    refine h.move id (fun _ _ h => h) (fun b s' hb => ?_) (fun i hi => by cases a <;> exact hi)
    by_cases hba : b = a
    · subst hba
      rw [slot_setSlot] at hb
      obtain rfl := Option.some.inj hb
      exact ⟨s,hs,rfl⟩
    · rw [slot_setSlot_ne t _ hba] at hb
      exact ⟨s',hb,rfl⟩
  have hin : ∀ u : Tunnel P, ((u.armRecvRekey now).noteReceived now n).inflight = u.inflight := by
    intro u
    unfold armRecvRekey
    split <;> rfl
  unfold commitTransport
  dsimp only
  refine Unambiguous.frame (t := if _ then _ else _) ?_
    (fun b r hb => ?_) (fun i hi => (hin _).symm.trans hi)
  · split
    · exact hset.promote now
    · exact hset
  · exact (Eq.trans (by cases b <;> rfl) (slot_armRecvRekey _ now b)).symm.trans hb

theorem Unambiguous.initiate {t : Tunnel P} (h : Unambiguous t) (now : Now) {index : UInt32}
    (eph : Bytes 32) (jitter : ℕ) (hc : t.indexClash index = false) :
    Unambiguous ((Act.initiate now index eph jitter).apply t) where
  slots a b s s' ha hb := h.slots a b s s' (by cases a <;> exact ha) (by cases b <;> exact hb)
  inflight i hi a s ha := by
    obtain rfl := Option.some.inj hi
    exact (indexClash_free hc).1 a s (by cases a <;> exact ha)

theorem Unambiguous.respond {t : Tunnel P} (h : Unambiguous t) (m : HandshakeInitiation)
    (consumed : ConsumedInitiation) {index : UInt32} (eph : Bytes 32)
    (hc : t.indexClash index = false) :
    Unambiguous ((Act.respond m consumed index eph).apply t) := by
  obtain ⟨hs,hi⟩ := indexClash_free hc
  have hslot : ∀ a s, ((Act.respond m consumed index eph).apply t).slot a = some s →
      a ≠ .next ∧ t.slot a = some s ∨ a = .next ∧ s.keys.localIndex = index := by
    intro a s ha
    cases a with
    | previous => exact Or.inl ⟨nofun,ha⟩
    | current => exact Or.inl ⟨nofun,ha⟩
    | next =>
      obtain rfl := Option.some.inj ha
      exact Or.inr ⟨rfl,rfl⟩
  constructor
  · intro a b s s' ha hb he
    rcases hslot a s ha with ⟨_,ha⟩ | ⟨rfl,hx⟩
    · rcases hslot b s' hb with ⟨_,hb⟩ | ⟨_,hb⟩
      · exact h.slots a b s s' ha hb he
      · exact absurd (he.trans hb) (hs a s ha)
    · rcases hslot b s' hb with ⟨_,hb⟩ | ⟨rfl,_⟩
      · exact absurd (he.symm.trans hx) (hs b s' hb)
      · rfl
  · intro i hi' a s ha
    rcases hslot a s ha with ⟨_,ha⟩ | ⟨_,ha⟩
    · exact h.inflight i hi' a s ha
    · rw [ha]
      exact (hi i hi').symm

theorem Unambiguous.complete {t : Tunnel P} (h : Unambiguous t) (m : HandshakeResponse)
    {keys : SessionKeys} {i : InFlightInitiation} (hi : t.inflight = some i)
    (hk : keys.localIndex = i.localIndex) :
    Unambiguous ((Act.complete m keys).apply t) := by
  have hslot : ∀ a s, ((Act.complete m keys).apply t).slot a = some s →
      (∃ b, t.slot b = some s ∧ (a = .previous ∧ b = .current ∨ a = .next ∧ b = .next)) ∨
        a = .current ∧ s.keys.localIndex = i.localIndex := by
    intro a s ha
    cases a with
    | previous => exact Or.inl ⟨.current,ha,Or.inl ⟨rfl,rfl⟩⟩
    | current =>
      obtain rfl := Option.some.inj ha
      exact Or.inr ⟨rfl,hk⟩
    | next => exact Or.inl ⟨.next,ha,Or.inr ⟨rfl,rfl⟩⟩
  refine ⟨fun a b s s' ha hb he => ?_,fun j hj => by cases hj⟩
  rcases hslot a s ha with ⟨c,hc,hac⟩ | ⟨rfl,hx⟩
  · rcases hslot b s' hb with ⟨d,hd,hbd⟩ | ⟨_,hb⟩
    · have hcd := h.slots c d s s' hc hd he
      rcases hac with ⟨rfl,rfl⟩ | ⟨rfl,rfl⟩ <;> rcases hbd with ⟨rfl,rfl⟩ | ⟨rfl,rfl⟩ <;>
        first | rfl | cases hcd
    · exact absurd (he.trans hb) (h.inflight i hi c s hc)
  · rcases hslot b s' hb with ⟨d,hd,_⟩ | ⟨rfl,_⟩
    · exact absurd (he.symm.trans hx) (h.inflight i hi d s' hd)
    · rfl

theorem unambiguous_act (t : Tunnel P) (a : Act) (h : Unambiguous t) (ha : a.enabled t) :
    Unambiguous (a.apply t) := by
  cases a with
  | initiate now index eph jitter => exact h.initiate now eph jitter ha.2.1
  | respond m consumed index eph => exact h.respond m consumed eph ha.2.2.2
  | complete m keys =>
    obtain ⟨i,hi,_,hk⟩ := ha
    exact h.complete m hi (by rw [((consumeResponse_ok P).mp hk).2.2.2])
  | transmit payloadLen =>
    refine h.move id (fun _ _ h => h) (fun b s' hb => ?_) fun i hi => ?_
    · dsimp only [Act.apply] at hb
      rw [slot_commitSeal] at hb
      cases b with
      | current =>
        obtain ⟨s,hs,rfl⟩ := Option.map_eq_some_iff.mp hb
        exact ⟨s,hs,rfl⟩
      | _ => exact ⟨s',hb,rfl⟩
    · dsimp only [Act.apply] at hi
      rwa [commitSeal_frame] at hi
  | accept slot counter n =>
    obtain ⟨s,hs,_⟩ := ha
    simp only [Act.apply,hs]
    exact h.accept hs t.lastNow _ n
  | expireNext =>
    dsimp only [Act.apply]
    refine h.frame (fun b s hb => ?_) fun i hi => by rwa [expireNext_frame] at hi
    unfold Tunnel.expireNext at hb
    split at hb
    · exact hb
    · split at hb
      · cases b <;> first | exact hb | cases hb
      · exact hb
  | discard => exact h.frame (fun b s hb => by cases b <;> cases hb) fun i hi => by cases hi
  | abandon => exact h.frame (fun b s hb => by cases b <;> exact hb) fun i hi => by cases hi
  | _ => exact h.frame (fun b s hb => by cases b <;> exact hb) fun i hi => hi

theorem unambiguous_reachable {C : ChaChaImpl} {config : Config} {t u : Tunnel P}
    (ht : withBackend P config = .ok t) (hu : Machine.Reachable (step C) t u) :
    Unambiguous u := by
  have hf := (withBackend_ok ht).1
  have hnone : ∀ a, t.slot a = none := by
    intro a
    cases a with
    | previous => exact hf.previous
    | current => exact hf.current
    | next => exact hf.next
  refine (step_refines C).reachable_invariant Unambiguous unambiguous_act ⟨?_,?_⟩ hu
  · intro a b s s' ha
    rw [hnone a] at ha
    cases ha
  · intro i hi
    rw [hf.inflight] at hi
    cases hi

theorem Unambiguous.nodup {t : Tunnel P} (h : Unambiguous t) : t.liveIndices.Nodup := by
  have hs : ∀ a b : Slot, a ≠ b → ∀ s s', t.slot a = some s → t.slot b = some s' →
      s.keys.localIndex ≠ s'.keys.localIndex :=
    fun a b hab s s' ha hb he => hab (h.slots a b s s' ha hb he)
  have hpc := hs .previous .current nofun
  have hpn := hs .previous .next nofun
  have hcn := hs .current .next nofun
  have hip := fun i hi => h.inflight i hi .previous
  have hic := fun i hi => h.inflight i hi .current
  have hin := fun i hi => h.inflight i hi .next
  simp only [slot] at hpc hpn hcn hip hic hin
  unfold liveIndices
  generalize t.previous = p at hpc hpn hip
  generalize t.current = c at hpc hcn hic
  generalize t.next = n at hpn hcn hin
  generalize t.inflight = i at hip hic hin
  cases p <;> cases c <;> cases n <;> cases i <;> simp_all

/-- No two of the sessions and the pending handshake have the same index, so a
received index is looked up without ambiguity. -/
theorem live_indices_unambiguous (C : ChaChaImpl) {config : Config} {t u : Tunnel P}
    (ht : withBackend P config = .ok t) (hu : Machine.Reachable (step C) t u) :
    u.liveIndices.Nodup ∧
    (∀ index a, u.sessionWithIndex index = some a ↔ holds (u.slot a) index = true) ∧
    ∀ i, u.inflight = some i → u.sessionWithIndex i.localIndex = none := by
  have h := unambiguous_reachable ht hu
  refine ⟨h.nodup,fun index a => ⟨sessionWithIndex_holds,fun ha => ?_⟩,fun i hi => ?_⟩
  · obtain ⟨s,hs,hx⟩ := holds_iff.mp ha
    cases hb : u.sessionWithIndex index with
    | none => exact absurd ha (sessionWithIndex_none.mp hb a)
    | some b =>
      obtain ⟨s',hs',hx'⟩ := holds_iff.mp (sessionWithIndex_holds hb)
      rw [h.slots b a s' s hs' hs (hx'.trans hx.symm)]
  · refine sessionWithIndex_none.mpr fun a ha => ?_
    obtain ⟨s,hs,hx⟩ := holds_iff.mp ha
    exact h.inflight i hi a s hs hx

/-- A completed handshake, and a minute later an initiation whose entropy first
repeats the index of the session. -/
def specimenRepeat : List Op :=
  specimenOps.take 2 ++ [.initiateHandshake ⟨⟨30*second,by decide⟩,0,0⟩ (List.replicate 148 0)
    (some (fun _ => 0)::List.replicate 2 (some (fun _ => 1)))]

theorem live_indices_unambiguous_specimen :
    let u := Machine.final (step (scalar specimen)) specimenTunnel specimenRepeat
    u.liveIndices = [0,0x01010101] ∧ u.liveIndices.Nodup :=
  ⟨by decide +kernel,(live_indices_unambiguous (scalar specimen)
    (withBackend_build (by decide +kernel)) ⟨specimenRepeat,rfl⟩).1⟩

end WireGuard
