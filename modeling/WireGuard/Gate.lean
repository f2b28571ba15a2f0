import WireGuard.CookieDance
import WireGuard.Exits

/-!
# The cookie gate of an interface

An interface with many peers decides about load once, in front of the tunnels,
with a jar of its own. Its gate makes the decisions of the gate inside
`decapsulate`, so that an initiation it passes may be handed to a tunnel as if
there were no load.
-/

set_option autoImplicit false

namespace WireGuard
open ByteString Tunnel

/-- The checker of the interface with public key `localPublic`. -/
structure CookieChecker (P : Primitives) (localPublic : Bytes 32) where
  keys : MacKeys
  jar : CookieJar
  keys_eq : keys = MacKeys.new P localPublic localPublic

inductive HandshakeGate where
  | drop
  | cookieReply (n : ℕ)
  | pass
  deriving DecidableEq

structure GateOutcome (P : Primitives) (localPublic : Bytes 32) where
  checker : CookieChecker P localPublic
  out : List UInt8
  rng : Entropy
  result : Except Error HandshakeGate

namespace CookieChecker

variable {P : Primitives} {localPublic : Bytes 32}

def new (P : Primitives) (localPublic : Bytes 32) : CookieChecker P localPublic :=
  ⟨MacKeys.new P localPublic localPublic,CookieJar.new,rfl⟩

def setJar (c : CookieChecker P localPublic) (jar : CookieJar) : CookieChecker P localPublic :=
  {c with jar := jar}

def answer (c : CookieChecker P localPublic) (now : Now) (remote : List UInt8)
    (senderIndex : UInt32) (mac1 : Bytes 16) (out : List UInt8) (rng : Entropy) :
    GateOutcome P localPublic :=
  let r := buildCookieReply P c.keys c.jar now.ticks rng senderIndex mac1 remote out
  ⟨c.setJar r.jar,r.out,r.rng,r.result.map .cookieReply⟩

def gate (c : CookieChecker P localPublic) (now : Now) (remote : List UInt8) (underLoad : Bool)
    (datagram out : List UInt8) (rng : Entropy) : GateOutcome P localPublic :=
  match parse datagram with
  | .ok (.handshakeInitiation m) =>
    if !verifyMac1 P c.keys m.alpha m.mac1 then ⟨c,out,rng,.ok .drop⟩
    else if underLoad && !c.jar.verifyMac2 P remote m.beta m.mac2 then
      c.answer now remote m.senderIndex m.mac1 out rng
    else ⟨c,out,rng,.ok .pass⟩
  | _ => ⟨c,out,rng,.ok .pass⟩

end CookieChecker

variable {P : Primitives}

theorem buildCookieReply_congr {keys keys' : MacKeys} (h : keys.cookieSend = keys'.cookieSend)
    (jar : CookieJar) (now : Ticks) (rng : Entropy) (peer : UInt32) (mac1 : Bytes 16)
    (remote out : List UInt8) :
    buildCookieReply P keys jar now rng peer mac1 remote out =
      buildCookieReply P keys' jar now rng peer mac1 remote out := by
  unfold buildCookieReply
  rw [h]

section Keys

variable {t : Tunnel P} (c : CookieChecker P t.localPublic)

theorem checker_mac1Recv : c.keys.mac1Recv = t.macKeys.mac1Recv := by
  rw [c.keys_eq,t.macKeys_eq]
  rfl

theorem checker_cookieSend : c.keys.cookieSend = t.macKeys.cookieSend := by
  rw [c.keys_eq,t.macKeys_eq]
  rfl

theorem checker_verifyMac1 (alpha : List UInt8) (mac1 : Bytes 16) :
    verifyMac1 P c.keys alpha mac1 = verifyMac1 P t.macKeys alpha mac1 := by
  unfold verifyMac1
  rw [checker_mac1Recv]

end Keys

def IsCookieReply (r : Except Error Received) : Prop :=
  ∃ wire m, r = .ok (.reply wire) ∧ parse wire = .ok (.cookieReply m)

theorem not_isCookieReply_error (e : Error) : ¬IsCookieReply (.error e) := by
  rintro ⟨wire,m,h,-⟩
  cases h

/-- The gate outcome `g` of checker `c` corresponds to what `decapsulate` does
under load, `d`, and without load, `d'`. -/
structure GateAgrees {k : Bytes 32} (c : CookieChecker P k) (out : List UInt8) (rng : Entropy)
    (g : GateOutcome P k) (d d' : Outcome P Received) : Prop where
  dropped : g.result = .ok .drop ↔ d.result = .error .invalidMac1
  replied : (∃ n, g.result = .ok (.cookieReply n)) ↔ IsCookieReply d.result
  sent : ∀ n, g.result = .ok (.cookieReply n) → d.result = .ok (.reply (g.out.take n)) ∧
    d.out = g.out ∧ d.rng = g.rng ∧ d.tunnel.cookieJar = g.checker.jar
  failed : ∀ e, g.result = .error e → (e = .bufferTooSmall ∨ e = .entropyFailure) ∧
    d.result = .error e ∧ d.out = g.out ∧ d.rng = g.rng ∧ d.tunnel.cookieJar = g.checker.jar
  passed : g.result = .ok .pass → g = ⟨c,out,rng,.ok .pass⟩ ∧ d = d'

section Agreeing

variable {k : Bytes 32} {c : CookieChecker P k} {out : List UInt8} {rng : Entropy}
  {d d' : Outcome P Received}

theorem agrees_pass (hd : d = d') (hm : d.result ≠ .error .invalidMac1)
    (hr : ¬IsCookieReply d.result) : GateAgrees c out rng ⟨c,out,rng,.ok .pass⟩ d d' := by
  refine ⟨⟨fun h => ?_,fun h => absurd h hm⟩,⟨fun ⟨n,h⟩ => ?_,fun h => absurd h hr⟩,fun n h => ?_,
    fun e h => ?_,fun _ => ⟨rfl,hd⟩⟩
  all_goals cases h

theorem agrees_drop (hd : d.result = .error .invalidMac1) :
    GateAgrees c out rng ⟨c,out,rng,.ok .drop⟩ d d' := by
  refine ⟨⟨fun _ => hd,fun _ => rfl⟩,⟨fun ⟨n,h⟩ => ?_,fun ⟨w,m,h,_⟩ => ?_⟩,fun n h => ?_,
    fun e h => ?_,fun h => ?_⟩
  · cases h
  · cases hd.symm.trans h
  all_goals cases h

end Agreeing

theorem receiveCookieReply_quiet (t : Tunnel P) (now : Now) (m : CookieReply) (out : List UInt8)
    (rng : Entropy) : ¬IsCookieReply (t.receiveCookieReply now m out rng).result := by
  rintro ⟨wire,r,h,_⟩
  unfold receiveCookieReply at h
  split at h
  · cases h
  split at h
  · cases h
  split at h <;> cases h

theorem handleTransport_quiet (C : ChaChaImpl) (t : Tunnel P) (now : Now) (m : TransportData)
    (out : List UInt8) (rng : Entropy) :
    ¬IsCookieReply (t.handleTransport C now m out rng).result := by
  rintro ⟨wire,r,h,_⟩
  unfold handleTransport at h
  split at h
  · cases h
  split at h
  · cases h
  split at h
  · cases h
  split at h
  · cases h
  split at h
  · cases h
  split at h
  · cases h
  · cases h
  dsimp only at h
  split at h
  · cases h
  split at h
  · cases h
  split at h <;> cases h

theorem replyCookie_built {t : Tunnel P} {now : Now} {remote : List UInt8} {index : UInt32}
    {mac1 : Bytes 16} {out : List UInt8} {rng : Entropy} {n : ℕ}
    (h : (buildCookieReply P t.macKeys t.cookieJar now.ticks rng index mac1 remote out).result =
      .ok n) : IsCookieReply (t.replyCookie now remote index mac1 out rng).result := by
  obtain ⟨rfl,reply,-,ho,-⟩ := buildCookieReply_ok h
  have hlen := reply.encode_length
  refine ⟨reply.encode,reply,?_,parse_cookie_iff.mpr rfl⟩
  unfold replyCookie
  dsimp only
  rw [h]
  simp only [Outcome.emit]
  rw [ho,if_pos (by simp [hlen]),List.take_left' hlen]

theorem agrees_reply {t : Tunnel P} {c : CookieChecker P t.localPublic} (hj : c.jar = t.cookieJar)
    (now : Now) (remote : List UInt8) (index : UInt32) (mac1 : Bytes 16) (out : List UInt8)
    (rng : Entropy) (d' : Outcome P Received) :
    GateAgrees c out rng (c.answer now remote index mac1 out rng)
      (t.replyCookie now remote index mac1 out rng) d' := by
  unfold CookieChecker.answer replyCookie
  rw [buildCookieReply_congr (checker_cookieSend c),hj]
  generalize hr : buildCookieReply P t.macKeys t.cookieJar now.ticks rng index mac1 remote out = r
  dsimp only
  cases hres : r.result with
  | error e =>
    have he := buildCookieReply_reported (hr ▸ hres)
    refine ⟨⟨fun h => ?_,fun h => ?_⟩,⟨fun ⟨n,h⟩ => ?_,fun ⟨w,m,h,_⟩ => ?_⟩,fun n h => ?_,
      fun e' h => ?_,fun h => ?_⟩
    · cases h
    · rcases he with rfl | rfl <;> cases h
    · cases h
    · cases h
    · cases h
    · cases h
      exact ⟨he,rfl,rfl,rfl,rfl⟩
    · cases h
  | ok n =>
    obtain ⟨rfl,reply,_,ho,_⟩ := buildCookieReply_ok (hr ▸ hres)
    rw [hr] at ho
    have hl : cookieReplyLen ≤ r.out.length := by simp [ho,reply.encode_length]
    have ht : r.out.take cookieReplyLen = reply.encode := by
      rw [ho,List.take_left' reply.encode_length]
    simp only [Outcome.emit,if_pos hl,ht]
    refine ⟨⟨fun h => ?_,fun h => ?_⟩,⟨fun _ => ?_,fun _ => ⟨_,rfl⟩⟩,fun n h => ?_,
      fun e' h => ?_,fun h => ?_⟩
    · cases h
    · cases h
    · exact ⟨reply.encode,reply,rfl,parse_cookie_iff.mpr rfl⟩
    · cases h
      exact ⟨by rw [ht],rfl,rfl,rfl⟩
    · cases h
    · cases h

theorem reading_eq {t : Tunnel P} {now : Now} (h : t.lastNow ≤ now.ticks) :
    t.reading now = now := by
  unfold reading
  rw [max_eq_right h]

theorem gate_other {k : Bytes 32} (c : CookieChecker P k) (now : Now)
    (remote datagram out : List UInt8) (underLoad : Bool) (rng : Entropy)
    (h : ∀ m, parse datagram ≠ .ok (.handshakeInitiation m)) :
    c.gate now remote underLoad datagram out rng = ⟨c,out,rng,.ok .pass⟩ := by
  unfold CookieChecker.gate
  split
  · rename_i m hm
    exact absurd hm (h m)
  · rfl

theorem gate_agrees_initiation (C : ChaChaImpl) {t : Tunnel P} {c : CookieChecker P t.localPublic}
    (now : Now) (remote : List UInt8) {datagram : List UInt8} (out : List UInt8) (rng : Entropy)
    {m : HandshakeInitiation} (hj : c.jar = t.cookieJar)
    (hm : parse datagram = .ok (.handshakeInitiation m)) :
    GateAgrees c out rng (c.gate now remote true datagram out rng)
      (t.decapsulateAt C now remote true datagram out rng)
      (t.decapsulateAt C now remote false datagram out rng) := by
  simp only [CookieChecker.gate,decapsulateAt,receiveInitiation,hm,hj,checker_verifyMac1 c]
  by_cases h1 : verifyMac1 P t.macKeys m.alpha m.mac1 = true
  · by_cases h2 : t.cookieJar.verifyMac2 P remote m.beta m.mac2 = true
    · obtain ⟨hr,hc⟩ := receiveInitiation_honoured now remote true out rng h1 (by simp [h2])
      simp only [receiveInitiation] at hr hc
      simp only [h1,h2,Bool.not_true,Bool.and_false,Bool.false_eq_true,if_false] at hr hc ⊢
      exact agrees_pass rfl hr fun ⟨w,r,h,hw⟩ => hc w r h hw
    · simp only [h1,h2,Bool.not_true,Bool.not_false,Bool.and_true,Bool.false_eq_true,if_false,
        if_true]
      exact agrees_reply hj now remote m.senderIndex m.mac1 out rng _
  · simp only [h1,Bool.not_false,if_true]
    exact agrees_drop rfl

/-- The gate of the interface decides as the gate of the tunnel: on equal jars,
for anything but a handshake response and a clock that has not gone back. -/
theorem gate_agrees_decapsulate (C : ChaChaImpl) (t : Tunnel P)
    (c : CookieChecker P t.localPublic) (now : Now) (remote datagram out : List UInt8)
    (rng : Entropy) (hj : c.jar = t.cookieJar) (hn : t.lastNow ≤ now.ticks)
    (hd : ∀ m, parse datagram ≠ .ok (.handshakeResponse m)) :
    GateAgrees c out rng (c.gate now remote true datagram out rng)
      (t.decapsulate C now remote true datagram out rng)
      (t.decapsulate C now remote false datagram out rng) := by
  unfold decapsulate
  rw [clampNow_eq,reading_eq hn]
  cases hm : parse datagram with
  | error e =>
    rw [gate_other c now remote datagram out true rng (by simp [hm])]
    simp only [decapsulateAt,hm]
    refine agrees_pass rfl (fun h => ?_) (not_isCookieReply_error e)
    exact parse_avoids datagram e hm (by rw [Except.error.inj h]; simp)
  | ok p =>
    cases p with
    | handshakeInitiation m =>
      exact gate_agrees_initiation C (t := t.observe now) now remote out rng hj hm
    | handshakeResponse m => exact absurd hm (hd m)
    | cookieReply m =>
      rw [gate_other c now remote datagram out true rng (by simp [hm])]
      simp only [decapsulateAt,hm]
      refine agrees_pass rfl (fun h => ?_) (receiveCookieReply_quiet _ now m out rng)
      exact receiveCookieReply_avoids _ now m out rng _ h (by simp)
    | transportData m =>
      rw [gate_other c now remote datagram out true rng (by simp [hm])]
      simp only [decapsulateAt,hm]
      refine agrees_pass rfl (fun h => ?_) (handleTransport_quiet C _ now m out rng)
      exact handleTransport_avoids C _ now m out rng _ h (by simp)

/-- An initiation with two zero macs meets a fresh jar under load. -/
theorem gate_agrees_specimen :
    let t := specimenTunnel
    let c := CookieChecker.new specimen t.localPublic
    let now : Now := ⟨Ticks.zero,0,0⟩
    let datagram : List UInt8 := 1::List.replicate 147 0
    let out : List UInt8 := List.replicate 64 0
    let rng : Entropy := List.replicate 2 (some (fun _ => 1))
    (c.gate now [] true datagram out rng).result = .ok (.cookieReply 64) ∧
      GateAgrees c out rng (c.gate now [] true datagram out rng)
        (t.decapsulate (scalar specimen) now [] true datagram out rng)
        (t.decapsulate (scalar specimen) now [] false datagram out rng) := by
  intro t c now datagram out rng
  refine ⟨by decide +kernel,gate_agrees_decapsulate (scalar specimen) t c now [] datagram out rng rfl
    (Ticks.zero_le _) fun m hm => ?_⟩
  have hh := congrArg List.head? (parse_response_iff.mp hm).1
  simp [datagram,HandshakeResponse.encode,header] at hh

end WireGuard
