import WireGuard.Gate
import WireGuard.Timestamps

/-!
# The age of an accepted cookie

A jar draws a secret only when it mints a cookie, and looks at the age of a
secret only then. What it accepts is keyed by one of its two latest draws, and
without mints these may be of any age. A tunnel and the checker of an interface
are two machines around the same jar.
-/

set_option autoImplicit false

namespace WireGuard
open ByteString Tunnel

namespace CookieJar

/-- The secret and the instant of a rotation, which sets the stamp and primes. -/
def drew (before after : CookieJar) : Option (Bytes 32 × Ticks) :=
  if after.primed = before.primed ∧ after.rotatedAt = before.rotatedAt then none
  else some (after.secret,after.rotatedAt)

/-- One use of a jar: nothing, or a cookie minted and sealed. -/
def Used (jar jar' : CookieJar) : Prop :=
  jar' = jar ∨ ∃ now rng rest rotated,
    jar.rotateIfNeeded now rng = (.ok rotated,rest) ∧ jar' = rotated.nextNonce.1

/-- The secrets that a jar holds are its latest draws. -/
structure Holds (draws : List (Bytes 32 × Ticks)) (jar : CookieJar) : Prop where
  empty : jar.primed = false → draws = []
  current : jar.primed = true → ∃ old, draws = old++[(jar.secret,jar.rotatedAt)] ∧
    (jar.hasPrevious = true → ∃ older drawn, old = older++[(jar.previous,drawn)])

variable {jar jar' : CookieJar} {draws : List (Bytes 32 × Ticks)} {now : Ticks}

theorem holds_new : Holds [] new :=
  ⟨fun _ => rfl,fun h => by cases h⟩

theorem drew_self (jar : CookieJar) : jar.drew jar = none := by
  simp [drew]

theorem Holds.rotated {rng rest : Entropy} (h : Holds draws jar)
    (hr : jar.rotateIfNeeded now rng = (.ok jar',rest)) :
    Holds (draws++(jar.drew jar').toList) jar' := by
  unfold rotateIfNeeded at hr
  split at hr
  · rename_i hdue
    split at hr
    · cases hr
    rename_i fresh _ _
    split at hr
    · cases hr
    rename_i seed _ _
    cases hr
    have hd : jar.drew (jar.rotate now fresh seed) = some (fresh,now) := by
      have hne : ¬((jar.rotate now fresh seed).primed = jar.primed ∧
          (jar.rotate now fresh seed).rotatedAt = jar.rotatedAt) := by
        rintro ⟨hp,hat⟩
        have hp : jar.primed = true := hp.symm
        have hat : now = jar.rotatedAt := hat
        have hl : cookieLifetime ≤ now.since jar.rotatedAt := by simpa [hp] using hdue
        rw [hat,Ticks.since,Nat.sub_self] at hl
        exact absurd hl (by decide)
      rw [drew,if_neg hne]
      rfl
    rw [hd]
    refine ⟨(fun hp => by cases hp),fun _ => ⟨draws,rfl,fun hp => ?_⟩⟩
    obtain ⟨old,he,_⟩ := h.current hp
    exact ⟨old,jar.rotatedAt,he⟩
  · cases hr
    rw [drew_self]
    simpa using h

theorem Holds.used (h : Holds draws jar) (hu : jar.Used jar') :
    Holds (draws++(jar.drew jar').toList) jar' := by
  rcases hu with rfl | ⟨now,rng,rest,rotated,hr,rfl⟩
  · rw [drew_self]
    simpa using h
  · have hk := h.rotated hr
    exact ⟨hk.empty,hk.current⟩

/-- The two latest draws lie less than two lifetimes back. -/
def Recent (draws : List (Bytes 32 × Ticks)) (now : Ticks) : Prop :=
  ∀ d ∈ draws.reverse.take 2, now.nanos < d.2.nanos+2*cookieLifetime

/-- `mac2` is keyed by the cookie for `remote` under a secret drawn less than two
lifetimes back. -/
def KeyedRecently (P : Primitives) (draws : List (Bytes 32 × Ticks)) (now : Ticks)
    (remote beta : List UInt8) (mac2 : Bytes 16) : Prop :=
  ∃ d ∈ draws, now.nanos < d.2.nanos+2*cookieLifetime ∧
    mac2 = mac P (mac P d.1.toList [remote]).toList [beta]

variable {P : Primitives}

theorem Holds.keyedRecently {remote beta : List UInt8} {mac2 : Bytes 16} (h : Holds draws jar)
    (hv : jar.verifyMac2 P remote beta mac2 = true) (hr : Recent draws now) :
    KeyedRecently P draws now remote beta mac2 := by
  unfold verifyMac2 at hv
  split at hv
  · cases hv
  rename_i hp
  obtain ⟨old,hd,hprev⟩ := h.current (by simpa using hp)
  rw [Bool.or_eq_true,Bool.and_eq_true,ctEq_bytes,ctEq_bytes] at hv
  rcases hv with hc | ⟨hc,hhas⟩
  · refine ⟨(jar.secret,jar.rotatedAt),by simp [hd],hr _ (by simp [hd]),hc.symm⟩
  · obtain ⟨older,drawn,ho⟩ := hprev hhas
    refine ⟨(jar.previous,drawn),by simp [hd,ho],hr _ (by simp [hd,ho]),hc.symm⟩

end CookieJar

/-- The draws of the jar inside a machine along a history. -/
def drawsOf {σ ι ο : Type} (jar : σ → CookieJar) (h : List (Machine.Transition σ ι ο)) :
    List (Bytes 32 × Ticks) :=
  h.filterMap (fun x => (jar x.before).drew (jar x.after))

theorem holds_history {σ ι ο : Type} {step : σ → ι → σ × ο} {jar : σ → CookieJar} {s : σ}
    (h0 : jar s = CookieJar.new) (hs : ∀ t i, (jar t).Used (jar (step t i).1)) (is : List ι) :
    CookieJar.Holds (drawsOf jar (Machine.history step s is)) (jar (Machine.final step s is)) := by
  refine Machine.history_invariant step s
    (fun h t => CookieJar.Holds (drawsOf jar h) (jar t)) ?_ (fun h t i ih => ?_) is
  · rw [h0]
    exact CookieJar.holds_new
  · have hk := ih.used (hs t i)
    unfold drawsOf at hk ⊢
    rw [List.filterMap_append]
    have he : List.filterMap (fun x => (jar x.before).drew (jar x.after))
        [Machine.advance step t i] = ((jar t).drew (jar (step t i).1)).toList := by
      cases hd : (jar t).drew (jar (step t i).1) with
      | none => simp [Machine.advance,hd]
      | some d => simp [Machine.advance,hd]
    rwa [he]

variable {P : Primitives}

theorem buildCookieReply_used (keys : MacKeys) (jar : CookieJar) (now : Ticks) (rng : Entropy)
    (peer : UInt32) (mac1 : Bytes 16) (remote out : List UInt8) :
    jar.Used (buildCookieReply P keys jar now rng peer mac1 remote out).jar := by
  cases hr : (buildCookieReply P keys jar now rng peer mac1 remote out).result with
  | error e => exact Or.inl (buildCookieReply_error P hr).1
  | ok n =>
    obtain ⟨_,_,_,_,rotated,rest,hrot,hjar,_⟩ := buildCookieReply_ok hr
    exact Or.inr ⟨now,rng,rest,rotated,hrot,hjar⟩

theorem step_used (C : ChaChaImpl) (t : Tunnel P) (op : Op) :
    t.cookieJar.Used (step C t op).1.cookieJar := by
  rcases deed_cookies (step_deed C t op) with ⟨hsame,_⟩ | ⟨_,remote,out,rng,index,mac1,n,_,hjar⟩
  · exact Or.inl hsame
  · rw [hjar]
    exact buildCookieReply_used _ _ _ _ _ _ _ _

structure GateCall where
  now : Now
  remote : List UInt8
  underLoad : Bool
  datagram : List UInt8
  out : List UInt8
  rng : Entropy

namespace CookieChecker

variable {k : Bytes 32}

def step (c : CookieChecker P k) (i : GateCall) : CookieChecker P k × Except Error HandshakeGate :=
  let g := c.gate i.now i.remote i.underLoad i.datagram i.out i.rng
  (g.checker,g.result)

theorem gate_used (c : CookieChecker P k) (now : Now) (remote datagram out : List UInt8)
    (underLoad : Bool) (rng : Entropy) :
    c.jar.Used (c.gate now remote underLoad datagram out rng).checker.jar := by
  unfold gate
  split
  · split
    · exact Or.inl rfl
    split
    · exact buildCookieReply_used _ _ _ _ _ _ _ _
    · exact Or.inl rfl
  · exact Or.inl rfl

theorem gate_pass {c : CookieChecker P k} {now : Now} {remote datagram out : List UInt8}
    {rng : Entropy} {m : HandshakeInitiation} (hm : parse datagram = .ok (.handshakeInitiation m))
    (h : (c.gate now remote true datagram out rng).result = .ok .pass) :
    c.jar.verifyMac2 P remote m.beta m.mac2 = true := by
  unfold gate at h
  rw [hm] at h
  dsimp only at h
  split at h
  · cases h
  split at h
  · unfold answer at h
    dsimp only at h
    cases hr : (buildCookieReply P c.keys c.jar now.ticks rng m.senderIndex m.mac1 remote
        out).result with
    | error e =>
      rw [hr] at h
      cases h
    | ok n =>
      rw [hr] at h
      cases h
  · rename_i hv
    simpa using hv

theorem gate_of_macs {c : CookieChecker P k} {now : Now} {remote datagram out : List UInt8}
    {underLoad : Bool} {rng : Entropy} {m : HandshakeInitiation}
    (hm : parse datagram = .ok (.handshakeInitiation m))
    (h1 : verifyMac1 P c.keys m.alpha m.mac1 = true)
    (h2 : c.jar.verifyMac2 P remote m.beta m.mac2 = true) :
    (c.gate now remote underLoad datagram out rng).result = .ok .pass := by
  simp [gate,hm,h1,h2]

end CookieChecker

/-- The call hands the tunnel an initiation under load, and what it returns is not what the gate
returns: neither the refusal of the first mac, nor a cookie reply, nor the error of a cookie reply
that cannot be built. -/
def LetPast (x : Transition P) (remote : List UInt8) (m : HandshakeInitiation) : Prop :=
  ∃ now datagram out rng, x.input = .decapsulate now remote true datagram out rng ∧
    parse datagram = .ok (.handshakeInitiation m) ∧
    ∃ result, x.output = .decapsulated result ∧ result ≠ .error .invalidMac1 ∧
      ¬IsCookieReply result ∧
      ∀ e, (buildCookieReply P x.before.macKeys x.before.cookieJar (x.before.reading now).ticks rng
        m.senderIndex m.mac1 remote out).result = .error e → result ≠ .error e

theorem replyCookie_result (t : Tunnel P) (now : Now) (remote : List UInt8) (index : UInt32)
    (mac1 : Bytes 16) (out : List UInt8) (rng : Entropy) :
    IsCookieReply (t.replyCookie now remote index mac1 out rng).result ∨
    ∃ e, (buildCookieReply P t.macKeys t.cookieJar now.ticks rng index mac1 remote out).result =
        .error e ∧
      (t.replyCookie now remote index mac1 out rng).result = .error e := by
  cases hres : (buildCookieReply P t.macKeys t.cookieJar now.ticks rng index mac1 remote
      out).result with
  | error e =>
    refine Or.inr ⟨e,rfl,?_⟩
    simp only [replyCookie,hres]
  | ok n => exact Or.inl (replyCookie_built hres)

theorem receiveInitiation_mac2 {t : Tunnel P} {now : Now} {remote out : List UInt8} {rng : Entropy}
    {m : HandshakeInitiation} {result : Except Error Received}
    (hr : (t.receiveInitiation now remote true m out rng).result = result)
    (h1 : result ≠ .error .invalidMac1) (h2 : ¬IsCookieReply result)
    (h3 : ∀ e, (buildCookieReply P t.macKeys t.cookieJar now.ticks rng m.senderIndex m.mac1 remote
      out).result = .error e → result ≠ .error e) :
    t.cookieJar.verifyMac2 P remote m.beta m.mac2 = true := by
  by_contra hv
  unfold receiveInitiation at hr
  by_cases hv1 : verifyMac1 P t.macKeys m.alpha m.mac1 = true
  · -- without the second mac the call is a cookie reply
    rw [if_neg (by simpa using hv1),if_pos (by simpa using hv)] at hr
    rcases replyCookie_result t now remote m.senderIndex m.mac1 out rng with hc | ⟨e,he,hc⟩
    · exact h2 (hr ▸ hc)
    · exact h3 e he (hr.symm.trans hc)
  · rw [if_pos (by simpa using hv1)] at hr
    exact h1 hr.symm

theorem letPast_mac2 {C : ChaChaImpl} {t : Tunnel P} {op : Op} {remote : List UInt8}
    {m : HandshakeInitiation} (h : LetPast (Machine.advance (step C) t op) remote m) :
    t.cookieJar.verifyMac2 P remote m.beta m.mac2 = true := by
  obtain ⟨now,datagram,out,rng,hi,hm,result,ho,h1,h2,h3⟩ := h
  obtain rfl : op = .decapsulate now remote true datagram out rng := hi
  have hstep : (step C t (.decapsulate now remote true datagram out rng)).2 =
      .decapsulated result := ho
  simp only [step,decapsulate,clampNow_eq,decapsulateAt,hm] at hstep
  exact receiveInitiation_mac2 (t := t.observe now) (Output.decapsulated.inj hstep) h1 h2 h3

theorem letPast_of_answered {x : Transition P} {now : Now} {remote datagram out : List UInt8}
    {rng : Entropy} {m : HandshakeInitiation}
    (hi : x.input = .decapsulate now remote true datagram out rng)
    (ha : answeredInitiation? x = some m) : LetPast x remote m := by
  unfold answeredInitiation? at ha
  rw [hi] at ha
  split at ha
  · rename_i now' remote' underLoad' datagram' out' rng' wire hin ho
    cases hin
    split at ha
    · rename_i r m' hw hd
      obtain rfl := Option.some.inj ha
      refine ⟨now,datagram,out,rng,hi,hd,_,ho,by simp,?_,by simp⟩
      rintro ⟨wire',c,he,hp⟩
      cases he
      cases hw.symm.trans hp
    · cases ha
  · cases ha

theorem withBackend_jar {config : Config} {t : Tunnel P} (h : withBackend P config = .ok t) :
    t.cookieJar = CookieJar.new := by
  unfold withBackend at h
  dsimp only at h
  split at h
  · cases h
  split at h
  · cases h
  · obtain rfl := Except.ok.inj h
    rfl

theorem holds_before {σ ι ο : Type} {step : σ → ι → σ × ο} (jar : σ → CookieJar) {s : σ}
    (h0 : jar s = CookieJar.new) (hs : ∀ t i, (jar t).Used (jar (step t i).1)) (is : List ι)
    {n : ℕ} {x : Machine.Transition σ ι ο} (hx : (Machine.history step s is)[n]? = some x) :
    CookieJar.Holds (drawsOf jar ((Machine.history step s is).take n)) (jar x.before) := by
  rw [(Machine.history_at hx).1,Machine.history_take]
  exact holds_history h0 hs (is.take n)

/-- In every run of a tunnel, and of a checker, an initiation that is let past the
gate under load is keyed by a secret drawn less than two lifetimes back, if the
two latest draws of the jar lie that close. -/
theorem cookies_expire_if_recent (P : Primitives) :
    (∀ (C : ChaChaImpl) (config : Config) (t : Tunnel P) (ops : List Op) (n : ℕ)
      (x : Transition P) (remote : List UInt8) (m : HandshakeInitiation),
      withBackend P config = .ok t → (run C t ops)[n]? = some x → LetPast x remote m →
      let draws := drawsOf Tunnel.cookieJar ((run C t ops).take n)
      CookieJar.Recent draws x.after.lastNow →
      CookieJar.KeyedRecently P draws x.after.lastNow remote m.beta m.mac2) ∧
    ∀ (localPublic : Bytes 32) (calls : List GateCall) (n : ℕ)
      (x : Machine.Transition (CookieChecker P localPublic) GateCall (Except Error HandshakeGate))
      (m : HandshakeInitiation),
      let history := Machine.history CookieChecker.step (CookieChecker.new P localPublic) calls
      history[n]? = some x → x.input.underLoad = true →
      parse x.input.datagram = .ok (.handshakeInitiation m) → x.output = .ok .pass →
      let draws := drawsOf CookieChecker.jar (history.take n)
      CookieJar.Recent draws x.input.now.ticks →
      CookieJar.KeyedRecently P draws x.input.now.ticks x.input.remote m.beta m.mac2 := by
  refine ⟨?_,?_⟩
  · intro C config t ops n x remote m ht hx hp draws hr
    have hk := holds_before _ (withBackend_jar ht) (step_used C) ops hx
    have he := (Machine.history_at hx).1
    rw [show x.before = _ from congrArg Machine.Transition.before he] at hk
    rw [he] at hp
    exact hk.keyedRecently (letPast_mac2 hp) hr
  · intro localPublic calls n x m history hx hl hm hp draws hr
    have hk := holds_before CookieChecker.jar (s := CookieChecker.new P localPublic) rfl
      (fun c i => c.gate_used i.now i.remote i.datagram i.out i.underLoad i.rng) calls hx
    rw [(Machine.history_at hx).1] at hp
    have hp : (x.before.gate x.input.now x.input.remote x.input.underLoad x.input.datagram
        x.input.out x.input.rng).result = .ok .pass := by
      rw [(Machine.history_at hx).1]
      exact hp
    rw [hl] at hp
    exact hk.keyedRecently (CookieChecker.gate_pass hm hp) hr

def macsRight (P : Primitives) (keys : MacKeys) (jar : CookieJar) (remote datagram : List UInt8) :
    Bool :=
  match parse datagram with
  | .ok (.handshakeInitiation m) =>
    verifyMac1 P keys m.alpha m.mac1 && jar.verifyMac2 P remote m.beta m.mac2
  | _ => false

theorem macsRight_iff {keys : MacKeys} {jar : CookieJar} {remote datagram : List UInt8} :
    macsRight P keys jar remote datagram = true ↔ ∃ m,
      parse datagram = .ok (.handshakeInitiation m) ∧
      verifyMac1 P keys m.alpha m.mac1 = true ∧ jar.verifyMac2 P remote m.beta m.mac2 = true := by
  unfold macsRight
  split
  · rename_i m hm
    rw [Bool.and_eq_true]
    constructor
    · exact fun h => ⟨m,hm,h⟩
    · rintro ⟨m',he,h⟩
      rw [hm] at he
      cases he
      exact h
  · rename_i hn
    constructor
    · intro h
      cases h
    · rintro ⟨m,he,_⟩
      exact absurd he (hn m)

def specimenLoaded : Tunnel keying := build keying (specimenConfig 1 2 none) specimenDancers_a

/-- An initiation of the peer whose second mac is keyed by the cookie of `secret`. -/
def specimenKeyed (secret : Bytes 32) : List UInt8 :=
  let alpha := 1::List.replicate 39 0 ++ specimenLoaded.peerPublic.toList ++ List.replicate 44 0
  let beta := alpha++(mac keying (zeros 32).toList [alpha]).toList
  beta++(mac keying (mac keying secret.toList [[1]]).toList [beta]).toList

def specimenSecret : Bytes 32 := List.Vector.ofFn (fun i => UInt8.ofNat (7+i.val))

def GateCall.op (i : GateCall) : Op :=
  .decapsulate i.now i.remote i.underLoad i.datagram i.out i.rng

def specimenFirst : GateCall :=
  ⟨⟨Ticks.zero,0,0⟩,[1],true,specimenKeyed (zeros 32),List.replicate 148 0,
    List.replicate 2 (some (fun i => UInt8.ofNat (7+i)))⟩

def specimenReturn (seconds : ℕ) (h : seconds*second ≤ u64Max) : GateCall :=
  ⟨⟨⟨seconds*second,h⟩,seconds,0⟩,[1],true,specimenKeyed specimenSecret,List.replicate 148 0,
    List.replicate 2 (some (fun i => UInt8.ofNat (7+i)))⟩

def specimenPrimed : Tunnel keying := (step (scalar keying) specimenLoaded specimenFirst.op).1

def specimenGated : CookieChecker keying specimenLoaded.localPublic :=
  (CookieChecker.step (CookieChecker.new keying specimenLoaded.localPublic) specimenFirst).1

theorem specimenPrimed_facts :
    macsRight keying specimenPrimed.macKeys specimenPrimed.cookieJar [1]
        (specimenKeyed specimenSecret) = true ∧
      specimenLoaded.cookieJar.drew specimenPrimed.cookieJar = some (specimenSecret,Ticks.zero) ∧
      specimenPrimed.lastNow = Ticks.zero := by
  decide +kernel

theorem specimenGated_facts :
    macsRight keying specimenGated.keys specimenGated.jar [1] (specimenKeyed specimenSecret) =
        true ∧
      CookieJar.new.drew specimenGated.jar = some (specimenSecret,Ticks.zero) := by
  decide +kernel

theorem GateCall.op_time (C : ChaChaImpl) (t : Tunnel P) (i : GateCall) :
    (Machine.advance (step C) t i.op).after.lastNow = max t.lastNow i.now.ticks :=
  (step_deed C t i.op).lastNow

section Returning

variable (seconds : ℕ) (h : seconds*second ≤ u64Max)

def specimenTaken : Transition keying :=
  Machine.advance (step (scalar keying)) specimenPrimed (specimenReturn seconds h).op

theorem specimenTaken_at :
    (run (scalar keying) specimenLoaded [specimenFirst.op,(specimenReturn seconds h).op])[1]? =
      some (specimenTaken seconds h) := by
  rw [run,Machine.history_getElem?]
  rfl

theorem specimenTaken_letPast
    (ha : (answeredInitiation? (specimenTaken seconds h)).isSome = true) :
    ∃ m, answeredInitiation? (specimenTaken seconds h) = some m ∧
      LetPast (specimenTaken seconds h) [1] m := by
  obtain ⟨m,hm⟩ := Option.isSome_iff_exists.mp ha
  exact ⟨m,hm,letPast_of_answered rfl hm⟩

theorem specimenTaken_time : (specimenTaken seconds h).after.lastNow = ⟨seconds*second,h⟩ := by
  have ht := GateCall.op_time (scalar keying) specimenPrimed (specimenReturn seconds h)
  rw [specimenPrimed_facts.2.2,max_eq_right (Ticks.zero_le _)] at ht
  exact ht

theorem specimenTaken_draws :
    drawsOf Tunnel.cookieJar ((run (scalar keying) specimenLoaded
      [specimenFirst.op,(specimenReturn seconds h).op]).take 1) =
        [(specimenSecret,Ticks.zero)] := by
  rw [run,Machine.history_take]
  show List.filterMap _ [Machine.advance (step (scalar keying)) specimenLoaded specimenFirst.op] = _
  simp only [List.filterMap_cons,Machine.advance,List.filterMap_nil]
  rw [show (step (scalar keying) specimenLoaded specimenFirst.op).1 = specimenPrimed from rfl,
    specimenPrimed_facts.2.1]

def specimenPassed : Machine.Transition (CookieChecker keying specimenLoaded.localPublic) GateCall
    (Except Error HandshakeGate) :=
  Machine.advance CookieChecker.step specimenGated (specimenReturn seconds h)

theorem specimenPassed_at :
    (Machine.history CookieChecker.step (CookieChecker.new keying specimenLoaded.localPublic)
      [specimenFirst,specimenReturn seconds h])[1]? = some (specimenPassed seconds h) := by
  rw [Machine.history_getElem?]
  rfl

theorem specimenPassed_pass : ∃ m,
    parse (specimenPassed seconds h).input.datagram = .ok (.handshakeInitiation m) ∧
      (specimenPassed seconds h).output = .ok .pass := by
  obtain ⟨m,hp,h1,h2⟩ := macsRight_iff.mp specimenGated_facts.1
  refine ⟨m,hp,?_⟩
  unfold specimenPassed Machine.advance CookieChecker.step
  dsimp only
  have hd : (specimenReturn seconds h).datagram = specimenKeyed specimenSecret := rfl
  rw [← hd] at hp
  exact CookieChecker.gate_of_macs hp h1 h2

theorem specimenPassed_draws :
    drawsOf CookieChecker.jar ((Machine.history CookieChecker.step
      (CookieChecker.new keying specimenLoaded.localPublic)
      [specimenFirst,specimenReturn seconds h]).take 1) = [(specimenSecret,Ticks.zero)] := by
  rw [Machine.history_take]
  show List.filterMap _ [Machine.advance CookieChecker.step
    (CookieChecker.new keying specimenLoaded.localPublic) specimenFirst] = _
  simp only [List.filterMap_cons,Machine.advance,List.filterMap_nil]
  rw [show (CookieChecker.step (CookieChecker.new keying specimenLoaded.localPublic)
    specimenFirst).1 = specimenGated from rfl,CookieChecker.new,specimenGated_facts.2]

end Returning

/-- The cookie of 0 s comes back at 100 s. -/
theorem cookies_expire_specimen :
    let t : Ticks := ⟨100*second,by decide⟩
    (∃ m, answeredInitiation? (specimenTaken 100 (by decide)) = some m ∧
      CookieJar.KeyedRecently keying [(specimenSecret,Ticks.zero)] t [1] m.beta m.mac2) ∧
    ∃ m : HandshakeInitiation, (specimenPassed 100 (by decide)).output = .ok .pass ∧
      CookieJar.KeyedRecently keying [(specimenSecret,Ticks.zero)] t [1] m.beta m.mac2 := by
  intro t
  have hr : CookieJar.Recent [(specimenSecret,Ticks.zero)] t := by
    intro d hd
    obtain rfl : d = (specimenSecret,Ticks.zero) := by simpa using hd
    decide
  constructor
  · obtain ⟨m,ha,hm⟩ := specimenTaken_letPast 100 (by decide) (by decide +kernel)
    have hk := (cookies_expire_if_recent keying).1 (scalar keying) (specimenConfig 1 2 none)
      specimenLoaded _ 1 _ [1] m (withBackend_build specimenDancers_a)
      (specimenTaken_at 100 (by decide)) hm
    rw [specimenTaken_draws,specimenTaken_time] at hk
    exact ⟨m,ha,hk hr⟩
  · obtain ⟨m,hm,hp⟩ := specimenPassed_pass 100 (by decide)
    have hk := (cookies_expire_if_recent keying).2 specimenLoaded.localPublic _ 1 _ m
      (specimenPassed_at 100 (by decide)) rfl hm hp
    rw [specimenPassed_draws] at hk
    exact ⟨m,hp,hk hr⟩

/-- The cookie of 0 s is still accepted at 300 s, by the tunnel, which answers the initiation, and
by the checker, though no secret was drawn since. -/
theorem cookie_accepted_late :
    (∃ x m, (run (scalar keying) specimenLoaded
        [specimenFirst.op,(specimenReturn 300 (by decide)).op])[1]? = some x ∧
      answeredInitiation? x = some m ∧ LetPast x [1] m ∧
      ¬CookieJar.KeyedRecently keying (drawsOf Tunnel.cookieJar ((run (scalar keying)
        specimenLoaded [specimenFirst.op,(specimenReturn 300 (by decide)).op]).take 1))
        x.after.lastNow [1] m.beta m.mac2) ∧
    ∃ x m, (Machine.history CookieChecker.step
        (CookieChecker.new keying specimenLoaded.localPublic)
        [specimenFirst,specimenReturn 300 (by decide)])[1]? = some x ∧
      x.input.underLoad = true ∧ parse x.input.datagram = .ok (.handshakeInitiation m) ∧
      x.output = .ok .pass ∧
      ¬CookieJar.KeyedRecently keying (drawsOf CookieChecker.jar ((Machine.history
        CookieChecker.step (CookieChecker.new keying specimenLoaded.localPublic)
        [specimenFirst,specimenReturn 300 (by decide)]).take 1))
        x.input.now.ticks x.input.remote m.beta m.mac2 := by
  have hold : ∀ remote beta mac2, ¬CookieJar.KeyedRecently keying [(specimenSecret,Ticks.zero)]
      ⟨300*second,by decide⟩ remote beta mac2 := by
    rintro remote beta mac2 ⟨d,hd,hl,_⟩
    obtain rfl : d = (specimenSecret,Ticks.zero) := by simpa using hd
    exact absurd hl (by decide)
  constructor
  · obtain ⟨m,ha,hm⟩ := specimenTaken_letPast 300 (by decide) (by decide +kernel)
    refine ⟨_,m,specimenTaken_at 300 (by decide),ha,hm,?_⟩
    rw [specimenTaken_draws,specimenTaken_time]
    exact hold _ _ _
  · obtain ⟨m,hm,hp⟩ := specimenPassed_pass 300 (by decide)
    refine ⟨_,m,specimenPassed_at 300 (by decide),rfl,hm,hp,?_⟩
    rw [specimenPassed_draws]
    exact hold _ _ _

end WireGuard
