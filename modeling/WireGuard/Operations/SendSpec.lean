import WireGuard.Operations.Send

/-!
# What the sending operations compute

Each sending path in closed form: which draws it makes, which checks can stop
it, and what it then commits and writes. The internal-error exits of the
source do not appear because no input reaches them.
-/

set_option autoImplicit false

namespace WireGuard
open ByteString

variable {P : Primitives}

namespace Tunnel

/-- The tunnel behind the clock of a call, and the reading it works with. -/
def observe (t : Tunnel P) (now : Now) : Tunnel P := {t with lastNow := max t.lastNow now.ticks}

def reading (t : Tunnel P) (now : Now) : Now := {now with ticks := max t.lastNow now.ticks}

theorem reading_ticks (t : Tunnel P) (now : Now) :
    (t.reading now).ticks = (t.observe now).lastNow := rfl

theorem clampNow_eq (t : Tunnel P) (now : Now) :
    t.clampNow now = (t.observe now,t.reading now) := by
  unfold clampNow observe reading
  split
  · rename_i h
    rw [max_eq_left (le_of_lt h)]
  · rename_i h
    rw [max_eq_right (not_lt.mp h)]

theorem freshIndexLoop_fresh (t : Tunnel P) (n : ℕ) (rng rest : Entropy) (index : UInt32)
    (h : t.freshIndexLoop n rng = (.ok index,rest)) : t.indexClash index = false := by
  induction n generalizing rng with
  | zero => simp [freshIndexLoop] at h
  | succ n ih =>
    unfold freshIndexLoop at h
    split at h
    · simp at h
    · split at h
      · exact ih _ h
      · rename_i hc
        simp only [Prod.mk.injEq,Except.ok.injEq] at h
        rw [← h.1]
        exact Bool.eq_false_iff.mpr hc

theorem drawHandshake_fresh {t : Tunnel P} {rng rest : Entropy} {index : UInt32}
    {eph : Bytes 32} (h : t.drawHandshake rng = (.ok (index,eph),rest)) :
    t.indexClash index = false := by
  unfold drawHandshake at h
  split at h
  · simp at h
  · rename_i hf
    split at h
    · simp at h
    · simp only [Prod.mk.injEq,Except.ok.injEq] at h
      rw [← h.1.1]
      exact freshIndexLoop_fresh t 32 _ _ _ hf

theorem freshIndexLoop_error {t : Tunnel P} {n : ℕ} {rng rest : Entropy} {e : Error}
    (h : t.freshIndexLoop n rng = (.error e,rest)) : e = .entropyFailure := by
  induction n generalizing rng with
  | zero =>
    simp only [freshIndexLoop,Prod.mk.injEq,Except.error.injEq] at h
    exact h.1.symm
  | succ n ih =>
    unfold freshIndexLoop at h
    split at h
    · simp only [Prod.mk.injEq,Except.error.injEq] at h
      exact h.1.symm
    · split at h
      · exact ih h
      · simp at h

theorem drawHandshake_error {t : Tunnel P} {rng rest : Entropy} {e : Error}
    (h : t.drawHandshake rng = (.error e,rest)) : e = .entropyFailure := by
  unfold drawHandshake at h
  split at h
  · rename_i hf
    simp only [Prod.mk.injEq,Except.error.injEq] at h
    rw [← h.1]
    exact freshIndexLoop_error hf
  · split at h
    · simp only [Prod.mk.injEq,Except.error.injEq] at h
      exact h.1.symm
    · simp at h

def initiationView (t : Tunnel P) (now : Now) (eph : Bytes 32) : InitiationView :=
  initiatorView P t.constants t.localPublic t.peerPublic t.precomputedSs (clampScalar eph)
    (t.nextTimestamp now)

def initiationState (t : Tunnel P) (now : Now) (index : UInt32) (eph : Bytes 32) :
    InFlightInitiation :=
  ⟨index,clampScalar eph,(t.initiationView now eph).chain P t.constants,
    (t.initiationView now eph).hash P t.constants⟩

def withMacs (t : Tunnel P) (now : Ticks) (alpha : List UInt8) : List UInt8 :=
  let mac1 := mac P t.macKeys.mac1Send.toList [alpha]
  alpha ++ mac1.toList ++ (mac2Of P t.cookie now (alpha++mac1.toList)).toList

@[simp] theorem withMacs_length (t : Tunnel P) (now : Ticks) (alpha : List UInt8) :
    (t.withMacs now alpha).length = alpha.length+32 := by
  simp [withMacs]

theorem parse_initiation_withMacs (t : Tunnel P) (now : Ticks) (v : InitiationView)
    (sender : UInt32) : ∃ mac2, parse (t.withMacs now (v.alpha sender)) =
      .ok (.handshakeInitiation (v.message sender
        (mac P t.macKeys.mac1Send.toList [v.alpha sender]) mac2)) :=
  ⟨_,parse_initiation_alpha v sender _ _⟩

theorem parse_response_withMacs (t : Tunnel P) (now : Ticks) (v : ResponseView)
    (sender receiver : UInt32) : ∃ mac2, parse (t.withMacs now (v.alpha sender receiver)) =
      .ok (.handshakeResponse (v.message sender receiver
        (mac P t.macKeys.mac1Send.toList [v.alpha sender receiver]) mac2)) :=
  ⟨_,parse_response_alpha v sender receiver _ _⟩

theorem sendInitiation_eq (t : Tunnel P) (now : Now) (out : List UInt8) (rng : Entropy)
    (timerDriven : Bool) :
    t.sendInitiation now out rng timerDriven =
      match t.drawHandshake rng with
      | (.error e,rng) => ⟨t,out,rng,.error e⟩
      | (.ok (index,eph),rng) =>
        let j := drawJitter timerDriven rng
        let alpha := (t.initiationView now eph).alpha index
        if out.length < handshakeInitiationLen then ⟨t,out,j.2,.error .bufferTooSmall⟩
        else if ctIsZero (P.x25519 (clampScalar eph) t.peerPublic).toList then
          ⟨t,out,j.2,.error .invalidPublicKey⟩
        else ⟨t.commitInitiation now.ticks (t.nextTimestamp now)
            (mac P t.macKeys.mac1Send.toList [alpha]) (t.initiationState now index eph) j.1,
          t.withMacs now.ticks alpha ++ out.drop handshakeInitiationLen,j.2,
          .ok handshakeInitiationLen⟩ := by
  unfold sendInitiation
  rcases t.drawHandshake rng with ⟨_ | ⟨index,eph⟩,rest⟩
  · rfl
  · dsimp only
    rw [createInitiation_eq]
    by_cases hlen : out.length < handshakeInitiationLen
    · simp only [if_pos hlen]
    · rw [if_neg hlen,if_neg hlen]
      by_cases hz : ctIsZero (P.x25519 (clampScalar eph) t.peerPublic).toList = true
      · simp only [if_pos hz]
      · rw [if_neg hz,if_neg hz]
        simp only [initiationView,initiationState,withMacs]
        obtain ⟨hl,hr,hm⟩ := applyMacs_front P t.macKeys t.cookie now.ticks
          ((initiatorView P t.constants t.localPublic t.peerPublic t.precomputedSs
            (clampScalar eph) (t.nextTimestamp now)).alpha index)
          (out.drop handshakeInitiationLen) handshakeInitiationLen
          (by simp [handshakeInitiationLen]) (Or.inl rfl)
        rw [if_neg hl,hm]
        simp only [hr]

/-- The transport datagram that session `s` makes of `plain` with its next counter. -/
def transportWire (C : ChaChaImpl) (s : Session) (plain : List UInt8) : List UInt8 :=
  (TransportData.mk s.keys.peerIndex s.sendCounter
    (sealBytes P C s.keys.send (nonceFromCounter s.sendCounter) [] plain)).encode

theorem transportWire_length (C : ChaChaImpl) (s : Session) (plain : List UInt8) :
    (transportWire (P := P) C s plain).length = plain.length+transportOverhead := by
  simp [transportWire,TransportData.encode,header,transportOverhead]
  omega

theorem parse_transportWire (C : ChaChaImpl) (s : Session) (plain : List UInt8)
    (hs : s.sendCounter ≤ u64Max) :
    parse (transportWire (P := P) C s plain) = .ok (.transportData
      ⟨s.keys.peerIndex,s.sendCounter,
        sealBytes P C s.keys.send (nonceFromCounter s.sendCounter) [] plain⟩) :=
  parse_transport_iff.mpr ⟨rfl,by simp,hs⟩

def takeCounter (t : Tunnel P) : Tunnel P :=
  {t with current := t.current.map (fun s => {s with sendCounter := s.sendCounter+1})}

/-- What sealing commits: `none` is a keepalive of `poll`, `some n` a payload of
`n` bytes. -/
def commitSeal (t : Tunnel P) (now : Ticks) (payloadLen : Option ℕ) : Tunnel P :=
  match payloadLen with
  | none => (t.takeCounter.noteKeepaliveSent now).armSendRekey now
  | some n => (t.takeCounter.noteTransportSent now n).armSendRekey now

def transportHeader (s : Session) : List UInt8 :=
  header 4 ++ (u32Le s.keys.peerIndex).toList ++ toLe 8 s.sendCounter

theorem transportHeader_length (s : Session) : (transportHeader s).length = 16 := by
  simp [transportHeader,header]

theorem transportWire_eq (C : ChaChaImpl) (s : Session) (plain : List UInt8) :
    transportWire (P := P) C s plain = transportHeader s ++
      sealBytes P C s.keys.send (nonceFromCounter s.sendCounter) [] plain := by
  simp [transportWire,TransportData.encode,transportHeader]

theorem takeCounter_eq {t : Tunnel P} {s : Session} (hc : t.current = some s) :
    t.takeCounter = {t with current := some {s with sendCounter := s.sendCounter+1}} := by
  simp [takeCounter,hc]

theorem sendKeepalive_eq (C : ChaChaImpl) {t : Tunnel P} {s : Session} (now : Now)
    (out : List UInt8) (rng : Entropy) (hc : t.current = some s)
    (hs : s.sendCounter < rejectAfterMessages) :
    t.sendKeepalive C now out rng =
      if out.length < transportOverhead then ⟨t,out,rng,.error .bufferTooSmall⟩
      else ⟨t.commitSeal now.ticks none,
        transportWire (P := P) C s [] ++ out.drop transportOverhead,rng,
        .ok (transportWire (P := P) C s [])⟩ := by
  unfold sendKeepalive
  split
  · rfl
  · rename_i hlen
    have hh := transportHeader_length s
    have ht : (transportHeader s ++ out.drop 16).take 16 = transportHeader s :=
      List.take_left' hh
    have hd : (transportHeader s ++ out.drop 16).drop 16 = out.drop 16 := List.drop_left' hh
    have hb : transportOverhead = 32 := rfl
    have hw : writeTransportHeader out s.keys.peerIndex s.sendCounter =
        .ok (transportHeader s ++ out.drop 16) := by
      rw [writeTransportHeader_eq _ _ _ (not_lt.mp hlen),transportHeader]
    have he := sealInPlaceWith_eq P C s.keys.send (nonceFromCounter s.sendCounter) [] 0
      (out.drop 16) (by simp; omega)
    have hl := transportWire_length (P := P) C s []
    have hout : transportHeader s ++ (sealBytes P C s.keys.send (nonceFromCounter s.sendCounter) []
        ((out.drop 16).take 0) ++ (out.drop 16).drop (0+16)) =
        transportWire (P := P) C s [] ++ out.drop transportOverhead := by
      rw [transportWire_eq,List.drop_drop,List.append_assoc]
      rfl
    simp only [hc,Session.nextCounter_usable hs,hw,ht,hd,he,hout]
    rw [if_neg (by simp [hh]),if_neg (by simp [noteKeepaliveSent]),if_pos (by simp [hl]),
      List.take_left' (by simpa using hl),commitSeal,takeCounter_eq hc]

/-- The plaintext that `encapsulate` seals for a payload. -/
def stage (t : Tunnel P) (payload : Payload) : List UInt8 :=
  payload.val ++ List.replicate (paddedLen payload.val.length t.mtu-payload.val.length) 0

theorem stage_length (t : Tunnel P) (payload : Payload) :
    (t.stage payload).length = paddedLen payload.val.length t.mtu := by
  have := le_paddedLen payload.val.length t.mtu payload.property
  simp [stage]
  omega

theorem encapsulateSeal_eq (C : ChaChaImpl) {t : Tunnel P} {s : Session} (now : Now)
    (payload : Payload) (out : List UInt8) (rng : Entropy) (hc : t.current = some s)
    (hs : s.sendCounter < rejectAfterMessages) :
    let total := paddedLen payload.val.length t.mtu+transportOverhead
    t.encapsulateSeal C now payload out rng =
      if out.length < total then ⟨t,out,rng,.error .bufferTooSmall⟩
      else ⟨t.commitSeal now.ticks (some payload.val.length),
        transportWire (P := P) C s (t.stage payload) ++ out.drop total,rng,
        .ok (.transport (transportWire (P := P) C s (t.stage payload)))⟩ := by
  intro total
  have hp := le_paddedLen payload.val.length t.mtu payload.property
  have hq := paddedLen_le payload.val.length t.mtu
  have hi : isizeMax = 9223372036854775807 := rfl
  have hu : u64Max = 18446744073709551615 := rfl
  have hb : transportOverhead = 32 := rfl
  have hpl := payload.property
  have hsat : satAdd (paddedLen payload.val.length t.mtu) transportOverhead = total := by
    unfold satAdd
    omega
  have hsat2 : satAdd 16 (paddedLen payload.val.length t.mtu) =
      16+paddedLen payload.val.length t.mtu := by
    unfold satAdd
    omega
  have hsat3 : satAdd (paddedLen payload.val.length t.mtu+16) 16 = total := by
    unfold satAdd
    omega
  unfold encapsulateSeal
  dsimp only
  rw [hsat]
  split
  · rfl
  · rename_i hlen
    let padded := paddedLen payload.val.length t.mtu
    have hh := transportHeader_length s
    have ht : (transportHeader s ++ out.drop 16).take 16 = transportHeader s :=
      List.take_left' hh
    have hw : writeTransportHeader out s.keys.peerIndex s.sendCounter =
        .ok (transportHeader s ++ out.drop 16) := by
      rw [writeTransportHeader_eq _ _ _ (by omega),transportHeader]
    have hlen16 : ¬(transportHeader s ++ out.drop 16).length < 16+padded := by
      simp only [List.length_append,hh,List.length_drop]
      omega
    have hbuf : transportHeader s ++ payload.val ++ List.replicate (padded-payload.val.length) 0 ++
        (transportHeader s ++ out.drop 16).drop (16+padded) =
        transportHeader s ++ (t.stage payload ++ out.drop (16+padded)) := by
      rw [← List.drop_drop,List.drop_left' hh,List.drop_drop]
      simp [stage,padded]
    have hst := t.stage_length payload
    have he := sealInPlaceWith_eq P C s.keys.send (nonceFromCounter s.sendCounter) [] padded
      (t.stage payload ++ out.drop (16+padded)) (by simp [hst]; omega)
    have hl := transportWire_length (P := P) C s (t.stage payload)
    have htake : (t.stage payload ++ out.drop (16+padded)).take padded = t.stage payload :=
      List.take_left' hst
    have hdrop : (t.stage payload ++ out.drop (16+padded)).drop (padded+16) = out.drop total := by
      rw [← List.drop_drop,List.drop_left' hst,List.drop_drop]
      congr 1
      omega
    rw [htake,hdrop] at he
    simp only [hc,Session.nextCounter_usable hs,hw,hsat2]
    rw [if_neg hlen16,if_neg (by omega),ht]
    simp only [padded] at hbuf he
    simp only [hbuf,List.drop_left' hh,List.take_left' hh,he,hsat3]
    rw [if_neg (by simp [hh]),if_neg (by simp),if_neg (by simp [noteTransportSent]),
      ← List.append_assoc,← transportWire_eq]
    rw [if_pos (by simp [hl,hst,total]),List.take_left' (by rw [hl,hst]),commitSeal,
      takeCounter_eq hc]

end Tunnel
end WireGuard
