import WireGuard.Indices
import WireGuard.Polling

/-!
# The defensive exits

The source answers a violated internal assumption with its `internal` error and
a spent session with `expired`. Each function is shown not to end in the exits
that its own checks exclude; the four calls of a tunnel then never take one.
-/

set_option autoImplicit false

namespace WireGuard
open ByteString

/-- `r` is no error of the list. -/
def Avoids {α : Type} (bad : List Error) (r : Except Error α) : Prop :=
  ∀ e, r = .error e → e ∉ bad

section Avoiding

variable {α β : Type} {bad : List Error}

theorem avoids_ok (a : α) : Avoids bad (.ok a) := by
  intro e h
  cases h

theorem avoids_error {e : Error} (h : e ∉ bad) : Avoids bad (.error e : Except Error α) := by
  rintro e' he
  cases he
  exact h

theorem avoids_mono {bad' : List Error} {r : Except Error α} (hb : bad' ⊆ bad)
    (h : Avoids bad r) : Avoids bad' r :=
  fun e he hm => h e he (hb hm)

theorem avoids_bind {x : Except Error α} {f : α → Except Error β} (hx : Avoids bad x)
    (hf : ∀ a, x = .ok a → Avoids bad (f a)) : Avoids bad (x >>= f) := by
  cases x with
  | error e => exact avoids_error (hx e rfl)
  | ok a => exact hf a rfl

end Avoiding

theorem getTo_avoids (n : ℕ) (l : List UInt8) : Avoids [.internal,.invalidMac1] (getTo n l) := by
  unfold getTo
  split
  · exact avoids_ok _
  · exact avoids_error (by decide)

section Fields

variable {β : Type} {n : ℕ} {l : List UInt8}

theorem avoids_take {f : Bytes n × List UInt8 → Except Error β}
    (hf : ∀ a r, l.length = n+r.length → Avoids [.internal,.invalidMac1] (f (a,r))) :
    Avoids [.internal,.invalidMac1] (take n l >>= f) := by
  refine avoids_bind ?_ fun ⟨a,r⟩ h => hf a r ?_
  · unfold take
    split
    · exact avoids_ok _
    · exact avoids_error (by decide)
  · rw [take_ok.mp h]
    simp

theorem avoids_getFrom {f : List UInt8 → Except Error β}
    (hf : ∀ r, l.length = n+r.length → Avoids [.internal,.invalidMac1] (f r)) :
    Avoids [.internal,.invalidMac1] (getFrom n l >>= f) := by
  refine avoids_bind ?_ fun r h => hf r ?_
  · unfold getFrom
    split
    · exact avoids_ok _
    · exact avoids_error (by decide)
  · obtain ⟨hn,rfl⟩ := getFrom_ok.mp h
    simp
    omega

end Fields

theorem parseInitiation_avoids (datagram : List UInt8) :
    Avoids [.internal,.invalidMac1] (parseInitiation datagram) := by
  unfold parseInitiation
  split
  · exact avoids_error (by decide)
  rename_i hl
  refine avoids_bind (getTo_avoids _ _) fun alpha _ => ?_
  refine avoids_bind (getTo_avoids _ _) fun beta _ => ?_
  refine avoids_getFrom fun rest h0 => ?_
  refine avoids_take fun sender r1 h1 => ?_
  refine avoids_take fun ephemeral r2 h2 => ?_
  refine avoids_take fun encryptedStatic r3 h3 => ?_
  refine avoids_take fun encryptedTimestamp r4 h4 => ?_
  refine avoids_take fun mac1 r5 h5 => ?_
  refine avoids_take fun mac2 r6 h6 => ?_
  have hn : handshakeInitiationLen = 148 := rfl
  have hr : r6 = [] := List.length_eq_zero_iff.mp (by omega)
  simp only [hr]
  exact avoids_ok _

theorem parseResponse_avoids (datagram : List UInt8) :
    Avoids [.internal,.invalidMac1] (parseResponse datagram) := by
  unfold parseResponse
  split
  · exact avoids_error (by decide)
  rename_i hl
  refine avoids_bind (getTo_avoids _ _) fun alpha _ => ?_
  refine avoids_bind (getTo_avoids _ _) fun beta _ => ?_
  refine avoids_getFrom fun rest h0 => ?_
  refine avoids_take fun sender r1 h1 => ?_
  refine avoids_take fun receiver r2 h2 => ?_
  refine avoids_take fun ephemeral r3 h3 => ?_
  refine avoids_take fun encryptedNothing r4 h4 => ?_
  refine avoids_take fun mac1 r5 h5 => ?_
  refine avoids_take fun mac2 r6 h6 => ?_
  have hn : handshakeResponseLen = 92 := rfl
  have hr : r6 = [] := List.length_eq_zero_iff.mp (by omega)
  simp only [hr]
  exact avoids_ok _

theorem parseCookieReply_avoids (datagram : List UInt8) :
    Avoids [.internal,.invalidMac1] (parseCookieReply datagram) := by
  unfold parseCookieReply
  split
  · exact avoids_error (by decide)
  rename_i hl
  refine avoids_getFrom fun rest h0 => ?_
  refine avoids_take fun receiver r1 h1 => ?_
  refine avoids_take fun nonce r2 h2 => ?_
  refine avoids_take fun encryptedCookie r3 h3 => ?_
  have hn : cookieReplyLen = 64 := rfl
  have hr : r3 = [] := List.length_eq_zero_iff.mp (by omega)
  simp only [hr]
  exact avoids_ok _

theorem parseTransport_avoids (datagram : List UInt8) :
    Avoids [.internal,.invalidMac1] (parseTransport datagram) := by
  unfold parseTransport
  split
  · exact avoids_error (by decide)
  refine avoids_getFrom fun rest _ => ?_
  refine avoids_take fun receiver r1 _ => ?_
  refine avoids_take fun counter ciphertext _ => ?_
  exact avoids_ok _

theorem parse_avoids (datagram : List UInt8) :
    Avoids [.internal,.invalidMac1] (parse datagram) := by
  refine avoids_take fun typeWord r _ => ?_
  dsimp only
  split
  · exact parseInitiation_avoids datagram
  split
  · exact parseResponse_avoids datagram
  split
  · exact parseCookieReply_avoids datagram
  split
  · exact parseTransport_avoids datagram
  · exact avoids_error (by decide)

variable {P : Primitives}

theorem sharedSecret_avoids (secret peer : Bytes 32) :
    Avoids [.internal,.invalidMac1] (sharedSecret P secret peer) := by
  rw [sharedSecret_eq]
  split
  · exact avoids_error (by decide)
  · exact avoids_ok _

theorem consumeInitiation_avoids (K : HandshakeConstants) (localStatic localPublic : Bytes 32)
    (peerPublic ss : Bytes 32) (m : HandshakeInitiation) :
    Avoids [.internal,.invalidMac1]
      (consumeInitiation P K localStatic localPublic peerPublic ss m) := by
  refine avoids_bind (sharedSecret_avoids _ _) fun es _ => ?_
  dsimp only
  split
  · exact avoids_error (by decide)
  split
  · exact avoids_error (by decide)
  split
  · exact avoids_error (by decide)
  · exact avoids_ok _

theorem consumeResponse_avoids (inflight : InFlightInitiation) (localStatic psk : Bytes 32)
    (m : HandshakeResponse) :
    Avoids [.internal,.invalidMac1] (consumeResponse P inflight localStatic psk m) := by
  refine avoids_bind (sharedSecret_avoids _ _) fun ee _ => ?_
  refine avoids_bind (sharedSecret_avoids _ _) fun se _ => ?_
  dsimp only
  split
  · exact avoids_error (by decide)
  · exact avoids_ok _

theorem openWith_avoids (C : ChaChaImpl) (key : Bytes 32) (nonce : Bytes 12)
    (aad c out : List UInt8) :
    Avoids [.internal,.invalidMac1] (openWith P C key nonce aad c out).1 := by
  rw [openWith_eq]
  split
  · exact avoids_error (by decide)
  split
  · exact avoids_error (by decide)
  split
  · exact avoids_ok _
  · exact avoids_error (by decide)

theorem drawNonceSeed_error {jar : CookieJar} {rng rest : Entropy} {e : Error}
    (h : jar.drawNonceSeed rng = (.error e,rest)) : e = .entropyFailure := by
  unfold CookieJar.drawNonceSeed at h
  split at h
  · cases h
  split at h
  · cases h
    rfl
  · cases h

theorem mint_error {jar : CookieJar} {now : Ticks} {rng rest : Entropy} {remote : List UInt8}
    {e : Error} (h : jar.mint P now rng remote = (.error e,rest)) : e = .entropyFailure := by
  unfold CookieJar.mint at h
  split at h
  · rename_i e' rest' hr
    cases h
    unfold CookieJar.rotateIfNeeded at hr
    split at hr
    · split at hr
      · cases hr
        rfl
      split at hr
      · rename_i hd
        cases hr
        exact drawNonceSeed_error hd
      · cases hr
    · cases hr
  · cases h

theorem buildCookieReply_reported {keys : MacKeys} {jar : CookieJar} {now : Ticks} {rng : Entropy}
    {peer : UInt32} {mac1 : Bytes 16} {remote out : List UInt8} {e : Error}
    (h : (buildCookieReply P keys jar now rng peer mac1 remote out).result = .error e) :
    e = .bufferTooSmall ∨ e = .entropyFailure := by
  by_cases hlen : out.length < cookieReplyLen
  · simp only [buildCookieReply,hlen,if_true,Except.error.injEq] at h
    exact Or.inl h.symm
  cases hm : jar.mint P now rng remote with
  | mk r rest =>
    cases r with
    | error e' =>
      simp only [buildCookieReply,hlen,if_false,hm,Except.error.injEq] at h
      rw [← h]
      exact Or.inr (mint_error hm)
    | ok minted =>
      rw [buildCookieReply_minted P hlen hm] at h
      cases h

namespace Tunnel

theorem replyCookie_avoids (t : Tunnel P) (now : Now) (remote : List UInt8) (index : UInt32)
    (mac1 : Bytes 16) (out : List UInt8) (rng : Entropy) :
    Avoids [.internal] (t.replyCookie now remote index mac1 out rng).result := by
  unfold replyCookie
  dsimp only
  split
  · rename_i e he
    rcases buildCookieReply_reported he with rfl | rfl
    · exact avoids_error (by decide)
    · exact avoids_error (by decide)
  · rename_i n hn
    obtain ⟨rfl,reply,_,ho,_⟩ := buildCookieReply_ok hn
    simp only [Outcome.emit]
    rw [ho,if_pos (by simp [reply.encode_length])]
    exact avoids_ok _

theorem answerInitiation_avoids (t : Tunnel P) (now : Now) (consumed : ConsumedInitiation)
    (out : List UInt8) (rng : Entropy) :
    Avoids [.internal] (t.answerInitiation now consumed out rng).result := by
  rw [answerInitiation_eq]
  split
  · rename_i hd
    rw [drawHandshake_error hd]
    exact avoids_error (by decide)
  dsimp only
  split
  · exact avoids_error (by decide)
  split
  · exact avoids_error (by decide)
  split
  · exact avoids_error (by decide)
  · exact avoids_ok _

theorem receiveInitiation_avoids (t : Tunnel P) (now : Now) (remote : List UInt8)
    (underLoad : Bool) (m : HandshakeInitiation) (out : List UInt8) (rng : Entropy) :
    Avoids [.internal] (t.receiveInitiation now remote underLoad m out rng).result := by
  unfold receiveInitiation
  split
  · exact avoids_error (by decide)
  split
  · exact t.replyCookie_avoids now remote _ _ out rng
  split
  · rename_i e he
    exact avoids_mono (by decide) (avoids_error (consumeInitiation_avoids _ _ _ _ _ m e he))
  split
  · exact avoids_error (by decide)
  · exact t.answerInitiation_avoids now _ out rng

theorem receiveResponse_avoids (t : Tunnel P) (now : Now) (remote : List UInt8)
    (underLoad : Bool) (m : HandshakeResponse) (out : List UInt8) (rng : Entropy) :
    Avoids [.internal] (t.receiveResponse now remote underLoad m out rng).result := by
  unfold receiveResponse
  split
  · exact avoids_error (by decide)
  split
  · exact avoids_error (by decide)
  split
  · exact t.replyCookie_avoids now remote _ _ out rng
  split
  · rename_i e he
    exact avoids_mono (by decide) (avoids_error (consumeResponse_avoids _ _ _ m e he))
  · exact avoids_ok _

theorem receiveCookieReply_avoids (t : Tunnel P) (now : Now) (m : CookieReply)
    (out : List UInt8) (rng : Entropy) :
    Avoids [.internal,.invalidMac1] (t.receiveCookieReply now m out rng).result := by
  unfold receiveCookieReply
  split
  · exact avoids_error (by decide)
  split
  · exact avoids_ok _
  split
  · exact avoids_error (by decide)
  · exact avoids_error (by decide)

theorem handleTransport_avoids (C : ChaChaImpl) (t : Tunnel P) (now : Now) (m : TransportData)
    (out : List UInt8) (rng : Entropy) :
    Avoids [.internal,.invalidMac1] (t.handleTransport C now m out rng).result := by
  unfold handleTransport
  split
  · exact avoids_error (by decide)
  rename_i slot hx
  split
  · exact avoids_error (by decide)
  split
  · rename_i hs
    obtain ⟨s,hs',_⟩ := holds_iff.mp (sessionWithIndex_holds hx)
    cases hs.symm.trans hs'
  rename_i s hs
  split
  · exact avoids_error (by decide)
  split
  · exact avoids_error (by decide)
  rename_i hk
  split
  · exact avoids_error (by decide)
  · rename_i e _ _ he
    exact avoids_error (openWith_avoids C _ _ _ _ _ e (congrArg Prod.fst he))
  rename_i n out' ho
  obtain ⟨plain,_,rfl,rfl,_⟩ := openWith_ok P ho
  dsimp only
  rw [ReplayWindow.accept_result,if_neg hk]
  split
  · exact avoids_ok _
  · rw [if_pos (by simp)]
    exact avoids_ok _

theorem decapsulateAt_avoids (C : ChaChaImpl) (t : Tunnel P) (now : Now) (remote : List UInt8)
    (underLoad : Bool) (datagram out : List UInt8) (rng : Entropy) :
    Avoids [.internal] (t.decapsulateAt C now remote underLoad datagram out rng).result := by
  unfold decapsulateAt
  split
  · rename_i e he
    exact avoids_mono (by decide) (avoids_error (parse_avoids datagram e he))
  · exact t.receiveInitiation_avoids now remote underLoad _ out rng
  · exact t.receiveResponse_avoids now remote underLoad _ out rng
  · exact avoids_mono (by decide) (t.receiveCookieReply_avoids now _ out rng)
  · exact avoids_mono (by decide) (t.handleTransport_avoids C now _ out rng)

theorem sendInitiation_avoids {α : Type} (t : Tunnel P) (now : Now) (out : List UInt8)
    (rng : Entropy) (timerDriven : Bool) (f : List UInt8 → α) :
    Avoids [.internal,.expired] ((t.sendInitiation now out rng timerDriven).emit f).result := by
  rw [sendInitiation_eq]
  split
  · rename_i hd
    rw [drawHandshake_error hd]
    exact avoids_error (by decide)
  dsimp only
  split
  · exact avoids_error (by decide)
  split
  · exact avoids_error (by decide)
  · simp only [Outcome.emit]
    rw [if_pos (by simp [handshakeInitiationLen])]
    exact avoids_ok _

theorem sendKeepalive_avoids (C : ChaChaImpl) {t : Tunnel P} {now : Ticks} (reading : Now)
    (out : List UInt8) (rng : Entropy) (reason : SendReason) (h : t.currentUsable now = true) :
    Avoids [.internal,.expired] ((t.sendKeepalive C reading out rng).sendAs reason).result := by
  obtain ⟨s,hc,hu⟩ := currentUsable_some h
  rw [sendKeepalive_eq C reading out rng hc (Session.usableForSend_iff.mp hu).2.1]
  split
  · exact avoids_error (by decide)
  · exact avoids_ok _

theorem encapsulateAt_avoids (C : ChaChaImpl) (t : Tunnel P) (now : Now) (payload : Payload)
    (out : List UInt8) (rng : Entropy) :
    Avoids [.internal,.expired] (t.encapsulateAt C now payload out rng).result := by
  unfold encapsulateAt
  split
  · unfold encapsulateStart
    split
    · exact avoids_error (by decide)
    split
    · exact avoids_error (by decide)
    · exact sendInitiation_avoids _ now out rng false _
  · rename_i hu
    obtain ⟨s,hc,hus⟩ := currentUsable_some (by simpa using hu)
    rw [encapsulateSeal_eq C now payload out rng hc (Session.usableForSend_iff.mp hus).2.1]
    split
    · exact avoids_error (by decide)
    · exact avoids_ok _

theorem polled_avoids {C : ChaChaImpl} {t : Tunnel P} {now : Now} {out : List UInt8}
    {rng : Entropy} {o : Outcome P PollOutput} (h : Polled C t now out rng o) :
    Avoids [.internal,.expired] o.result := by
  cases h with
  | discarded u hu hd => exact avoids_ok _
  | abandoned u hu hd hr he => exact avoids_ok _
  | initiated u reason hu hd hl => exact sendInitiation_avoids u now out rng true _
  | kept u reason hu hd ht hc ho =>
    exact sendKeepalive_avoids C now out rng reason ((hu.tidied.currentUsable _).trans hc)
  | idle hp hi => exact avoids_ok _

/-- No call of a tunnel, in whatever state and with whatever arguments, takes a
defensive exit, and neither sending payloads nor polling meets a spent session. -/
theorem calls_avoid_internal (C : ChaChaImpl) (t : Tunnel P) (now : Now) (out : List UInt8)
    (rng : Entropy) :
    (∀ payload, Avoids [.internal,.expired] (t.encapsulate C now payload out rng).result) ∧
    (∀ remote underLoad datagram,
      Avoids [.internal] (t.decapsulate C now remote underLoad datagram out rng).result) ∧
    Avoids [.internal,.expired] (t.poll C now out rng).result ∧
    Avoids [.internal] (t.initiateHandshake now out rng).result := by
  refine ⟨fun payload => ?_,fun remote underLoad datagram => ?_,?_,?_⟩
  · exact encapsulateAt_avoids C _ _ payload out rng
  · exact decapsulateAt_avoids C _ _ remote underLoad datagram out rng
  · exact polled_avoids (poll_polled C t now out rng)
  · unfold initiateHandshake initiateHandshakeAt
    split
    · exact avoids_error (by decide)
    · exact avoids_mono (by decide) (sendInitiation_avoids _ _ out rng false id)

end Tunnel

end WireGuard
