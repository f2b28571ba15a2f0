import WireGuard.Pair

/-!
# What arrives was sent

The network may deliver anything in any order. If a ciphertext only opens after
one of the two ends has sealed it, and sessions do not share keys, then every
payload that one end hands out was given to the other end's `encapsulate`
before, each time by another call.
-/

set_option autoImplicit false

namespace WireGuard
open ByteString Tunnel

variable {P : Primitives}

/-- Whatever opens has been sealed by one of the ends before, under the same key,
nonce and associated data. -/
def IdealAead (h : List (Joint P)) : Prop :=
  Chronicle (fun before x => ∀ c ∈ opensOf (Machine.own x),
    ∃ y ∈ before, c ∈ sealsOf (Machine.own y)) h

instance (h : List (Joint P)) : Decidable (IdealAead h) :=
  inferInstanceAs (Decidable (Chronicle _ h))

def Event.createdKeys? : Event → Option (ℕ × SessionKeys)
  | .created tag keys _ => some (tag,keys)
  | _ => none

/-- The keys of the sessions that one end has created, with their tags. -/
def createdKeys (k : Side) (h : List (Joint P)) : List (ℕ × SessionKeys) :=
  (sideEvents k h).filterMap Event.createdKeys?

/-- Distinct handshakes have distinct keys, and so have the two directions of the
handshakes of one end. -/
def DistinctKeys (h : List (Joint P)) : Prop :=
  ∀ k, ∀ a ∈ createdKeys k h, ∀ b ∈ createdKeys k h,
    (a.2.recv = b.2.recv → a.1 = b.1) ∧ a.2.send ≠ b.2.recv

instance (h : List (Joint P)) : Decidable (DistinctKeys h) :=
  inferInstanceAs (Decidable (∀ k, ∀ a ∈ createdKeys k h, ∀ b ∈ createdKeys k h,
    (a.2.recv = b.2.recv → a.1 = b.1) ∧ a.2.send ≠ b.2.recv))

theorem createdKeys_of_known {k : Side} {h : List (Joint P)} {n : ℕ} {s : Session}
    (hs : Known (sideEvents k (h.take n)) s) : (s.tag,s.keys) ∈ createdKeys k h := by
  obtain ⟨x,hx,hk,he⟩ := mem_sideEvents.mp hs.created
  exact List.mem_filterMap.mpr
    ⟨_,mem_sideEvents.mpr ⟨x,List.mem_of_mem_take hx,hk,he⟩,rfl⟩

/-- The datagram sealed at `y` by session `r` is the one that session `s` opened
at `x`, under `counter`. -/
structure Carried (p : Peers P) (x y : Joint P) (s r : Session) (counter : ℕ)
    (plain : List UInt8) : Prop where
  output : x.output = .decapsulated (.ok (delivered plain))
  accepted : eventsOf (Machine.own x) =
    [.accepted s.tag counter (x.after x.input.1).lastNow]
  bounded : counter < rejectAfterMessages
  side : y.input.1 = x.input.1.other
  key : s.keys.recv = r.keys.send
  nonce : nonceFromCounter counter = nonceFromCounter r.sendCounter
  sent : ∃ wire, y.output.transport? = some wire ∧
    Sent (p.backend y.input.1) (Machine.own y) wire r plain
  call : (∃ now payload out rng, y.input.2 = .encapsulate now payload out rng ∧
      plain = (y.before y.input.1).stage payload) ∨ plain = []

section Delivery

variable {p : Peers P} {ops : List (Side × Op)}

theorem accepted_at {i : ℕ} {x : Joint P} {plain : List UInt8} (hx : (p.run ops)[i]? = some x)
    (ho : x.output.plaintext? = some plain) :
    ∃ now remote underLoad datagram out rng m s,
      x.input.2 = .decapsulate now remote underLoad datagram out rng ∧
      parse datagram = .ok (.transportData m) ∧
      Accepted (p.backend x.input.1) (Machine.own x) m s plain := by
  have hown := (p.at_index hx).2.2.2
  rw [(p.step_at hx rfl).1] at ho
  obtain ⟨now,remote,underLoad,datagram,out,rng,m,s,hop,hm,hacc⟩ := step_plaintext _ _ _ _ ho
  change Accepted _ (Machine.advance (p.step _) _ _) m s plain at hacc
  rw [← hown] at hacc
  exact ⟨now,remote,underLoad,datagram,out,rng,m,s,hop,hm,hacc⟩

/-- What a session opens was sealed by the other end before. -/
theorem carried_of_opened (hA : IdealAead (p.run ops)) (hK : DistinctKeys (p.run ops))
    {i : ℕ} {x : Joint P} {now : Now} {remote datagram out plain : List UInt8} {underLoad : Bool}
    {rng : Entropy} {m : TransportData} {s : Session} (hx : (p.run ops)[i]? = some x)
    (hop : x.input.2 = .decapsulate now remote underLoad datagram out rng)
    (hm : parse datagram = .ok (.transportData m))
    (hacc : Accepted (p.backend x.input.1) (Machine.own x) m s plain) :
    ∃ j y r, j < i ∧ (p.run ops)[j]? = some y ∧
      (s.tag,s.keys) ∈ createdKeys x.input.1 (p.run ops) ∧ Carried p x y s r m.counter plain := by
  obtain ⟨y,hy,hsealed⟩ := Chronicle.iff_getElem?.mp hA i x hx _ (hacc.open_mem hop hm)
  obtain ⟨j,hj,hjy⟩ := mem_take_iff.mp hy
  have howny := (p.at_index hjy).2.2.2
  have htr := transport_of_seal hsealed rfl
  rw [howny] at htr
  obtain ⟨wire,r,plain',hw,hsent,hc,hcall⟩ := step_transportSeal htr
  change Sent _ (Machine.advance (p.step _) _ _) wire r plain' at hsent
  rw [← howny] at hsent
  obtain ⟨hkey,hnonce,_,hct⟩ := AeadCall.mk.inj hc
  -- the plaintext is what was sealed, whichever backends the two ends use
  have hplain : plain' = plain := by
    have hopen := hacc.opens
    rw [hct,hkey,hnonce,openBytes_sealBytes P _ _ (p.meets _) (p.meets _)] at hopen
    exact Option.some.inj hopen
  subst hplain
  obtain ⟨slot,_,hslot⟩ := hacc.held
  have hs := createdKeys_of_known ((p.ledger_at hx x.input.1).known slot s hslot)
  have hr := createdKeys_of_known ((p.ledger_at hjy y.input.1).known .current r hsent.current)
  refine ⟨j,y,r,hj,hjy,hs,hacc.output,hacc.events,hacc.counter,?_,hkey,hnonce,
    ⟨wire,?_,hsent⟩,hcall.imp id And.right⟩
  · rcases Side.eq_or_other x.input.1 y.input.1 with hk | hk
    · rw [hk] at hr
      exact absurd hkey.symm (hK _ _ hr _ hs).2
    · exact hk
  · rw [(p.step_at hjy rfl).1]
    exact hw

theorem carried_of_accepted (hA : IdealAead (p.run ops)) (hK : DistinctKeys (p.run ops))
    {i : ℕ} {x : Joint P} {plain : List UInt8} (hx : (p.run ops)[i]? = some x)
    (ho : x.output.plaintext? = some plain) :
    ∃ j y s r counter, j < i ∧ (p.run ops)[j]? = some y ∧
      (s.tag,s.keys) ∈ createdKeys x.input.1 (p.run ops) ∧ Carried p x y s r counter plain := by
  obtain ⟨_,_,_,_,_,_,m,s,hop,hm,hacc⟩ := accepted_at hx ho
  obtain ⟨j,y,r,h⟩ := carried_of_opened hA hK hx hop hm hacc
  exact ⟨j,y,s,r,m.counter,h⟩

theorem carried_once (hK : DistinctKeys (p.run ops)) {i i' : ℕ} {x x' y : Joint P}
    {s s' r r' : Session} {c c' : ℕ} {plain plain' : List UInt8} (hii : i < i')
    (hx : (p.run ops)[i]? = some x) (hx' : (p.run ops)[i']? = some x')
    (hk : x.input.1 = x'.input.1) (hs : (s.tag,s.keys) ∈ createdKeys x.input.1 (p.run ops))
    (hs' : (s'.tag,s'.keys) ∈ createdKeys x'.input.1 (p.run ops))
    (h : Carried p x y s r c plain) (h' : Carried p x' y s' r' c' plain') : False := by
  obtain ⟨_,_,hsent⟩ := h.sent
  obtain ⟨_,_,hsent'⟩ := h'.sent
  obtain rfl := Option.some.inj (hsent.current.symm.trans hsent'.current)
  rw [← hk] at hs'
  have htag : s.tag = s'.tag := (hK _ _ hs _ hs').1 (h.key.trans h'.key.symm)
  have hmax : rejectAfterMessages < u64Max := by decide
  have hc : c = c' := by
    have hb := h.bounded
    have hb' := h'.bounded
    exact nonceFromCounter_inj (by omega) (by omega) (h.nonce.trans h'.nonce.symm)
  have hj := p.judged_at (fun ops => (p.ledger_final ops _).chronicle) hx' h'.accepted
  refine hj.1 ⟨(x.after x.input.1).lastNow,?_⟩
  rw [← htag,← hc]
  refine mem_sideEvents.mpr ⟨x,mem_take_iff.mpr ⟨i,hii,hx⟩,hk,?_⟩
  rw [h.accepted]
  exact List.mem_singleton.mpr rfl

theorem Carried.encapsulated {i : ℕ} {x y : Joint P} {s r : Session} {c : ℕ}
    {plain : List UInt8} (h : Carried p x y s r c plain) (hy : (p.run ops)[i]? = some y)
    (hp : plain ≠ []) :
    ∃ now payload out rng wire, y.input = (x.input.1.other,.encapsulate now payload out rng) ∧
      y.output = .encapsulated (.ok (.transport wire)) ∧
      plain = (y.before x.input.1.other).stage payload := by
  obtain ⟨now,payload,out,rng,hop,hplain⟩ := h.call.resolve_right hp
  obtain ⟨wire,hw,_⟩ := h.sent
  have hout : y.output = (step (p.backend y.input.1) (y.before y.input.1) y.input.2).2 :=
    congrArg Machine.Transition.output (p.at_index hy).2.2.2
  rw [hop] at hout
  refine ⟨now,payload,out,rng,wire,Prod.ext h.side hop,?_,h.side ▸ hplain⟩
  rw [hout] at hw ⊢
  unfold step at hw ⊢
  dsimp only at hw ⊢
  cases hr : (Tunnel.encapsulate (p.backend y.input.1) (y.before y.input.1) now payload out
      rng).result with
  | error e => simp [hr,Output.transport?] at hw
  | ok r =>
    cases r with
    | transport w =>
      rw [hr] at hw
      rw [Option.some.inj hw]
    | handshakeInitiation w => simp [hr,Output.transport?] at hw

end Delivery

def deliveries (h : List (Joint P)) (k : Side) : Set ℕ :=
  {i | ∃ x plain, h[i]? = some x ∧ x.input.1 = k ∧ x.output = .decapsulated (.ok (.data plain))}

def Traced (p : Peers P) (ops : List (Side × Op)) (k : Side) (i j : ℕ) : Prop :=
  ∃ x y s r counter plain, (p.run ops)[i]? = some x ∧ x.input.1 = k ∧ j < i ∧
    (p.run ops)[j]? = some y ∧ (s.tag,s.keys) ∈ createdKeys x.input.1 (p.run ops) ∧
    Carried p x y s r counter plain

theorem traced_once {p : Peers P} {ops : List (Side × Op)} (hK : DistinctKeys (p.run ops))
    {k : Side} {i i' j : ℕ} (hlt : i < i') (h : Traced p ops k i j)
    (h' : Traced p ops k i' j) : False := by
  obtain ⟨x,y,s,r,c,plain,hx,hk,_,hy,hs,hc⟩ := h
  obtain ⟨x',y',s',r',c',plain',hx',hk',_,hy',hs',hc'⟩ := h'
  obtain rfl := Option.some.inj (hy.symm.trans hy')
  exact carried_once hK hlt hx hx' (hk.trans hk'.symm) hs hs' hc hc'

/-- For any interleaving of the two ends' calls and any datagrams, there is an
injective map from the payloads that one end hands out to earlier calls of the
other end's `encapsulate`, and what is handed out is that call's payload, padded
with zeros for the MTU in force at the call. -/
theorem delivered_data_was_sent (p : Peers P) (ops : List (Side × Op))
    (hA : IdealAead (p.run ops)) (hK : DistinctKeys (p.run ops)) (k : Side) :
    ∃ f : ℕ → ℕ, Set.InjOn f (deliveries (p.run ops) k) ∧
      ∀ i x plain, (p.run ops)[i]? = some x → x.input.1 = k →
        x.output = .decapsulated (.ok (.data plain)) →
        f i < i ∧ ∃ y now payload out rng wire, (p.run ops)[f i]? = some y ∧
          y.input = (k.other,.encapsulate now payload out rng) ∧
          y.output = .encapsulated (.ok (.transport wire)) ∧
          plain = payload.val++List.replicate
            (paddedLen payload.val.length (y.before k.other).mtu-payload.val.length) 0 ∧
          plain.length = paddedLen payload.val.length (y.before k.other).mtu := by
  have hex : ∀ i ∈ deliveries (p.run ops) k, ∃ j, Traced p ops k i j := by
    rintro i ⟨x,plain,hx,hk,ho⟩
    obtain ⟨j,y,s,r,counter,hj,hy,hs,hc⟩ :=
      carried_of_accepted hA hK hx (show x.output.plaintext? = some plain by rw [ho]; rfl)
    exact ⟨j,x,y,s,r,counter,plain,hx,hk,hj,hy,hs,hc⟩
  obtain ⟨f,hf,hall⟩ := exists_injOn hex (fun i i' j hlt => traced_once hK hlt)
  refine ⟨f,hf,fun i x plain hx hk ho => ?_⟩
  obtain ⟨x',y,s,r,c,plain',hx',_,hj,hy,_,hc⟩ := hall i ⟨x,plain,hx,hk,ho⟩
  obtain rfl := Option.some.inj (hx.symm.trans hx')
  have hd : delivered plain' = .data plain :=
    Except.ok.inj (Output.decapsulated.inj (hc.output.symm.trans ho))
  unfold delivered at hd
  split at hd
  · cases hd
  rename_i hne
  obtain rfl := Received.data.inj hd
  obtain ⟨now,payload,out,rng,wire,hin,hout,hplain⟩ := hc.encapsulated hy hne
  rw [hk] at hin hplain
  refine ⟨hj,y,now,payload,out,rng,wire,hy,hin,hout,hplain,?_⟩
  rw [hplain]
  exact stage_length _ _

theorem specimenExchange_aead : IdealAead (specimenPeers.run specimenExchange) := by
  decide +kernel

theorem specimenExchange_keys : DistinctKeys (specimenPeers.run specimenExchange) := by
  decide +kernel

/-- The payload of the exchange arrives, and the map sends its arrival to an
earlier call. -/
theorem delivered_data_was_sent_specimen :
    (specimenPeers.run specimenExchange)[4]?.map (fun x => (x.input.1,x.output)) =
      some (.b,.decapsulated (.ok (.data (7::List.replicate 15 0)))) ∧
    ∃ f : ℕ → ℕ, Set.InjOn f (deliveries (specimenPeers.run specimenExchange) .b) ∧ f 4 < 4 := by
  have hd : (specimenPeers.run specimenExchange)[4]?.map (fun x => (x.input.1,x.output)) =
      some (.b,.decapsulated (.ok (.data (7::List.replicate 15 0)))) := by decide +kernel
  obtain ⟨f,hf,hall⟩ := delivered_data_was_sent specimenPeers specimenExchange
    specimenExchange_aead specimenExchange_keys .b
  obtain ⟨x,hx,he⟩ := Option.map_eq_some_iff.mp hd
  exact ⟨hd,f,hf,(hall 4 x _ hx (congrArg Prod.fst he) (congrArg Prod.snd he)).1⟩

end WireGuard
