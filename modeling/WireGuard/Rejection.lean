import WireGuard.Operations.ReceiveSpec

/-!
# Rejected datagrams

What a datagram that is not accepted can change: the clock, the failure
counters, and for a cookie reply the jar. All of it is read off `Receipt`.
-/

set_option autoImplicit false

namespace WireGuard
namespace Tunnel

variable {P : Primitives}

/-- `t'` is `t` up to the clock and the counters of failures. -/
def SameUpToFailures (t t' : Tunnel P) : Prop :=
  t' = {t with
    lastNow := t'.lastNow
    stats := {t.stats with
      mac1Failures := t'.stats.mac1Failures
      authFailures := t'.stats.authFailures
      replaysDropped := t'.stats.replaysDropped}}

/-- `t'` is `t` up to the clock, the statistics and the cookie jar. -/
def SameUpToJar (t t' : Tunnel P) : Prop :=
  t' = {t with lastNow := t'.lastNow, stats := t'.stats, cookieJar := t'.cookieJar}

/-- The fields that only transport traffic and our own handshakes may touch. -/
def SameTraffic (t t' : Tunnel P) : Prop :=
  t'.previous = t.previous ∧ t'.current = t.current ∧ t'.inflight = t.inflight ∧
    t'.timers = t.timers

theorem sameUpToFailures_of_rejected {t t' : Tunnel P} (now : Now)
    (h : Rejected (t.observe now) t') : SameUpToFailures t t' := by
  rcases h with rfl | rfl | rfl | rfl <;> rfl

theorem receipt_error {C : ChaChaImpl} {t : Tunnel P} {now : Now}
    {remote datagram out : List UInt8} {rng : Entropy} {o : Outcome P Received} {e : Error}
    (h : Receipt C t now remote datagram out rng o) (he : o.result = .error e) :
    o.out = out ∧ Rejected t o.tunnel := by
  cases h with
  | rejected t' rest e' ht => exact ⟨rfl,ht⟩
  | _ => cases he

theorem receipt_cookieReply {C : ChaChaImpl} {t : Tunnel P} {now : Now}
    {remote datagram out wire : List UInt8} {rng : Entropy} {o : Outcome P Received}
    {m : CookieReply} (h : Receipt C t now remote datagram out rng o)
    (ho : o.result = .ok (.reply wire)) (hm : parse wire = .ok (.cookieReply m)) :
    ∃ jar, o.tunnel = (t.setJar jar).countCookieSent := by
  cases h with
  | cookieReply index mac1 reply r => exact ⟨r.jar,rfl⟩
  | answered m' consumed index eph rest =>
    obtain ⟨mac2,hp⟩ := parse_response_withMacs t now.ticks
      (responderView P consumed t.psk (clampScalar eph)) index consumed.peerIndex
    obtain rfl := Received.reply.inj (Except.ok.inj ho)
    rw [hp] at hm
    cases hm
  | accepted m' slot s plain =>
    dsimp only [delivered] at ho
    split at ho <;> cases ho
  | _ => cases ho

theorem receipt_sameTraffic {C : ChaChaImpl} {t : Tunnel P} {now : Now}
    {remote datagram out : List UInt8} {rng : Entropy} {o : Outcome P Received}
    (h : Receipt C t now remote datagram out rng o)
    (ho : (∃ wire, o.result = .ok (.reply wire)) ∨ o.result = .ok .cookieStored) :
    SameTraffic t o.tunnel := by
  cases h with
  | rejected t' rest e => rcases ho with ⟨_,ho⟩ | ho <;> cases ho
  | completed m inflight keys => rcases ho with ⟨_,ho⟩ | ho <;> cases ho
  | accepted m slot s plain =>
    dsimp only [delivered] at ho
    split at ho <;> rcases ho with ⟨_,ho⟩ | ho <;> cases ho
  | _ => exact ⟨rfl,rfl,rfl,rfl⟩

/-- A rejected datagram leaves the buffer and the tunnel as they were, up to the
clock and the failure counters; a cookie reply changes besides these only the
jar and the statistics; no reply and no stored cookie touches the established
sessions, the pending handshake or the timers. -/
theorem decapsulate_frame (C : ChaChaImpl) (t : Tunnel P) (now : Now)
    (remote datagram out : List UInt8) (underLoad : Bool) (rng : Entropy) :
    let o := t.decapsulate C now remote underLoad datagram out rng
    (∀ e, o.result = .error e → o.out = out ∧ SameUpToFailures t o.tunnel) ∧
    (∀ wire m, o.result = .ok (.reply wire) → parse wire = .ok (.cookieReply m) →
      SameUpToJar t o.tunnel) ∧
    ((∃ wire, o.result = .ok (.reply wire)) ∨ o.result = .ok .cookieStored →
      SameTraffic t o.tunnel) := by
  intro o
  have hr := decapsulateAt_receipt C (t.clampNow now).1 (t.clampNow now).2 remote datagram out
    underLoad rng
  change Receipt C _ _ _ _ _ _ o at hr
  rw [clampNow_eq] at hr
  refine ⟨fun e he => ?_,fun wire m hw hm => ?_,fun ho => ?_⟩
  · obtain ⟨hout,ht⟩ := receipt_error hr he
    exact ⟨hout,sameUpToFailures_of_rejected _ ht⟩
  · obtain ⟨jar,hj⟩ := receipt_cookieReply hr hw hm
    rw [hj]
    rfl
  · have h := receipt_sameTraffic hr ho
    exact h

end Tunnel
end WireGuard
