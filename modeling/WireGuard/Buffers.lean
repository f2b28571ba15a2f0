import WireGuard.Acts

/-!
# The caller's buffers

A call never reads what its output buffer holds: the state it leaves and the result it
returns depend only on how long the buffer is. What it returns stands at the front of
the buffer, and every byte behind it is the caller's own.
-/

set_option autoImplicit false

namespace WireGuard
open ByteString Tunnel

variable {P : Primitives} {α : Type}

def written (bytes : α → List UInt8) : Except Error α → List UInt8
  | .ok a => bytes a
  | .error _ => []

/-- On buffers of at least `n` bytes the call depends on the length only, and leaves the
bytes it returns in front of what was there. -/
structure Blind (bytes : α → List UInt8) (n : ℕ) (f : List UInt8 → Outcome P α) : Prop where
  alike : ∀ out out' : List UInt8, n ≤ out.length → out.length = out'.length →
    (f out).tunnel = (f out').tunnel ∧ (f out).rng = (f out').rng ∧
      (f out).result = (f out').result
  holds : ∀ out : List UInt8, n ≤ out.length →
    (written bytes (f out).result).length ≤ out.length ∧
    (f out).out = written bytes (f out).result++out.drop (written bytes (f out).result).length

namespace Blind

variable {bytes : α → List UInt8} {n : ℕ} {f : List UInt8 → Outcome P α}

theorem kept {r : Except Error α} (h : written bytes r = []) (n : ℕ) (t : Tunnel P)
    (rng : Entropy) : Blind bytes n (fun out => ⟨t,out,rng,r⟩) where
  alike _ _ _ _ := ⟨rfl,rfl,rfl⟩
  holds out _ := by
    dsimp only
    rw [h]
    exact ⟨Nat.zero_le _,rfl⟩

variable (bytes) in
theorem put (a : α) {w : List UInt8} (h : bytes a = w) (hn : w.length = n) (t : Tunnel P)
    (rng : Entropy) : Blind bytes n (fun out => ⟨t,w++out.drop n,rng,.ok a⟩) where
  alike _ _ _ _ := ⟨rfl,rfl,rfl⟩
  holds out ho := by
    dsimp only [written]
    rw [h,hn]
    exact ⟨ho,rfl⟩

theorem short (h : Blind bytes n f) (t : Tunnel P) (rng : Entropy) (e : Error) :
    Blind bytes 0 (fun out => if out.length < n then ⟨t,out,rng,.error e⟩ else f out) where
  alike out out' _ hl := by
    rw [← hl]
    split
    · exact ⟨rfl,rfl,rfl⟩
    · rename_i hn
      exact h.alike out out' (not_lt.mp hn) hl
  holds out _ := by
    split
    · exact ⟨Nat.zero_le _,rfl⟩
    · rename_i hn
      exact h.holds out (not_lt.mp hn)

theorem congr {g : List UInt8 → Outcome P α} (hg : Blind bytes n g) (h : ∀ out, f out = g out) :
    Blind bytes n f := by
  rwa [funext h]

theorem ite {g : List UInt8 → Outcome P α} {c : Prop} [Decidable c] (hf : Blind bytes n f)
    (hg : Blind bytes n g) : Blind bytes n (fun out => if c then f out else g out) := by
  by_cases hc : c
  · simp only [hc,if_true]
    exact hf
  · simp only [hc,if_false]
    exact hg

end Blind

theorem emit_front {t : Tunnel P} {w rest : List UInt8} {rng : Entropy} {n : ℕ}
    (hn : w.length = n) (f : List UInt8 → α) :
    (⟨t,w++rest,rng,.ok n⟩ : Outcome P ℕ).emit f = ⟨t,w++rest,rng,.ok (f w)⟩ := by
  simp only [Outcome.emit]
  rw [if_pos (by simp [hn]),List.take_left' hn]

theorem emit_error {t : Tunnel P} {out : List UInt8} {rng : Entropy} {e : Error}
    (f : List UInt8 → α) :
    (⟨t,out,rng,.error e⟩ : Outcome P ℕ).emit f = ⟨t,out,rng,.error e⟩ := rfl

def Encapsulated.bytes : Encapsulated → List UInt8
  | .transport wire => wire
  | .handshakeInitiation wire => wire

def Received.bytes : Received → List UInt8
  | .data packet => packet
  | .reply wire => wire
  | _ => []

def PollOutput.bytes : PollOutput → List UInt8
  | .send wire _ => wire
  | _ => []

/-! ## Sending -/

section Send

variable {bytes : α → List UInt8} (t : Tunnel P) (now : Now) (rng : Entropy)

theorem sendInitiation_blind {f : List UInt8 → α} (hf : ∀ w, bytes (f w) = w)
    (timerDriven : Bool) :
    Blind bytes 0 (fun out => (t.sendInitiation now out rng timerDriven).emit f) := by
  simp only [sendInitiation_eq]
  rcases t.drawHandshake rng with ⟨e | ⟨index,eph⟩,rest⟩
  · exact .kept rfl 0 t rest
  dsimp only
  generalize ha : (t.initiationView now eph).alpha index = alpha
  have hw : (t.withMacs now.ticks alpha).length = handshakeInitiationLen := by
    rw [withMacs_length,← ha]
    simp [handshakeInitiationLen]
  simp only [apply_ite (fun o : Outcome P ℕ => o.emit f),emit_front hw,emit_error]
  exact ((Blind.kept rfl _ _ _).ite (Blind.put bytes _ (hf _) hw _ _)).short _ _ _

theorem sendKeepalive_blind (C : ChaChaImpl) {s : Session} (hc : t.current = some s)
    (hs : s.sendCounter < rejectAfterMessages) :
    Blind id 0 (fun out => t.sendKeepalive C now out rng) := by
  have hw : (transportWire (P := P) C s []).length = transportOverhead := by
    rw [transportWire_length,List.length_nil,Nat.zero_add]
  simp only [sendKeepalive_eq C now _ rng hc hs]
  exact (Blind.put id _ rfl hw _ rng).short t rng _

theorem encapsulateSeal_blind (C : ChaChaImpl) (payload : Payload) {s : Session}
    (hc : t.current = some s) (hs : s.sendCounter < rejectAfterMessages) :
    Blind Encapsulated.bytes 0 (fun out => t.encapsulateSeal C now payload out rng) := by
  have hw : (transportWire (P := P) C s (t.stage payload)).length =
      paddedLen payload.val.length t.mtu+transportOverhead := by
    rw [transportWire_length,stage_length]
  simp only [encapsulateSeal_eq C now payload _ rng hc hs]
  exact (Blind.put Encapsulated.bytes (.transport _) rfl hw _ rng).short t rng _

theorem encapsulate_blind (C : ChaChaImpl) (payload : Payload) :
    Blind Encapsulated.bytes 0 (fun out => t.encapsulate C now payload out rng) := by
  unfold encapsulate encapsulateAt
  cases hu : (t.clampNow now).1.currentUsable (t.clampNow now).2.ticks with
  | true =>
    obtain ⟨s,hc,hs⟩ := currentUsable_some hu
    exact encapsulateSeal_blind _ _ rng C payload hc (Session.usableForSend_iff.mp hs).2.1
  | false =>
    simp only [Bool.not_false,if_true]
    unfold encapsulateStart
    exact (Blind.kept rfl 0 _ rng).ite ((Blind.kept rfl 0 _ rng).ite
      (sendInitiation_blind _ _ rng (fun _ => rfl) false))

theorem initiateHandshake_blind :
    Blind id 0 (fun out => t.initiateHandshake now out rng) := by
  unfold initiateHandshake initiateHandshakeAt
  exact (Blind.kept rfl 0 _ rng).ite (sendInitiation_blind _ _ rng (fun _ => rfl) false)

end Send

/-! ## Receiving -/

section Receive

variable (t : Tunnel P) (now : Now) (remote : List UInt8) (rng : Entropy)

theorem replyCookie_blind (index : UInt32) (mac1 : Bytes 16) :
    Blind Received.bytes 0 (fun out => t.replyCookie now remote index mac1 out rng) := by
  cases hm : t.cookieJar.mint P now.ticks rng remote with
  | mk r rest =>
    cases r with
    | error e =>
      refine Blind.congr (Blind.short (n := cookieReplyLen) (Blind.kept (r := .error e) rfl _
        (t.setJar t.cookieJar) rest) (t.setJar t.cookieJar) rng .bufferTooSmall) fun out => ?_
      by_cases hl : out.length < cookieReplyLen <;>
        simp only [replyCookie,buildCookieReply,hm,hl,if_true,if_false]
    | ok minted =>
      obtain ⟨jar,cookie⟩ := minted
      let nonce := jar.nextNonce.2
      let w := header 3++(u32Le index).toList++nonce.toList++
        (xseal P t.macKeys.cookieSend nonce mac1.toList cookie).toList
      have hw : w.length = cookieReplyLen := by simp [w,header,cookieReplyLen]
      refine Blind.congr (Blind.short (Blind.put Received.bytes (.reply w) rfl hw
        (t.setJar jar.nextNonce.1).countCookieSent rest) (t.setJar t.cookieJar) rng .bufferTooSmall)
        fun out => ?_
      by_cases hl : out.length < cookieReplyLen
      · simp only [replyCookie,buildCookieReply,hl,if_true]
      · rw [if_neg hl,replyCookie,buildCookieReply_minted P hl hm]
        exact emit_front hw _

theorem answerInitiation_blind (consumed : ConsumedInitiation) :
    Blind Received.bytes 0 (fun out => t.answerInitiation now consumed out rng) := by
  simp only [answerInitiation_eq]
  rcases t.drawHandshake rng with ⟨e | ⟨index,eph⟩,rest⟩
  · exact .kept rfl 0 t rest
  dsimp only
  have hw : (t.withMacs now.ticks ((responderView P consumed t.psk (clampScalar eph)).alpha index
      consumed.peerIndex)).length = handshakeResponseLen := by
    rw [withMacs_length]
    simp [handshakeResponseLen]
  exact ((Blind.kept rfl _ _ _).ite
    ((Blind.kept rfl _ _ _).ite (Blind.put Received.bytes (.reply _) rfl hw _ _))).short _ _ _

theorem receiveInitiation_blind (underLoad : Bool) (m : HandshakeInitiation) :
    Blind Received.bytes 0 (fun out => t.receiveInitiation now remote underLoad m out rng) := by
  unfold receiveInitiation
  refine (Blind.kept rfl 0 _ rng).ite ((replyCookie_blind t now remote rng _ _).ite ?_)
  split
  · exact Blind.kept rfl 0 _ rng
  · exact (Blind.kept rfl 0 _ rng).ite (answerInitiation_blind t now rng _)

theorem receiveResponse_blind (underLoad : Bool) (m : HandshakeResponse) :
    Blind Received.bytes 0 (fun out => t.receiveResponse now remote underLoad m out rng) := by
  unfold receiveResponse
  refine (Blind.kept rfl 0 _ rng).ite ?_
  split
  · exact Blind.kept rfl 0 _ rng
  · refine (replyCookie_blind t now remote rng _ _).ite ?_
    split
    · exact Blind.kept rfl 0 _ rng
    · exact Blind.kept rfl 0 _ rng

theorem receiveCookieReply_blind (m : CookieReply) :
    Blind Received.bytes 0 (fun out => t.receiveCookieReply now m out rng) := by
  unfold receiveCookieReply
  refine (Blind.kept rfl 0 _ rng).ite ?_
  split
  · exact Blind.kept rfl 0 _ rng
  · exact (Blind.kept rfl 0 _ rng).ite (Blind.kept rfl 0 _ rng)

/-- A message whose session is found and whose counter is new: what is left to decide. -/
theorem handleTransport_opening (C : ChaChaImpl) {t : Tunnel P} {m : TransportData} {slot : Slot}
    {s : Session} (hx : t.sessionWithIndex m.receiverIndex = some slot) (hs : t.slot slot = some s)
    (hn : m.counter < rejectAfterMessages) (ha : s.age now.ticks < rejectAfterTime)
    (hk : s.replay.check m.counter = true) (out : List UInt8) :
    t.handleTransport C now m out rng =
      if m.ciphertext.length < 16 then ⟨t.countAuthFailure,out,rng,.error .authFailure⟩
      else if out.length < m.ciphertext.length-16 then ⟨t,out,rng,.error .bufferTooSmall⟩
      else
        match openBytes P C s.keys.recv (nonceFromCounter m.counter) [] m.ciphertext with
        | none => ⟨t.countAuthFailure,out,rng,.error .authFailure⟩
        | some plain => ⟨t.commitTransport now.ticks slot s (s.replay.accept m.counter).1
            plain.length,plain++out.drop plain.length,rng,.ok (delivered plain)⟩ := by
  have hacc : (s.replay.accept m.counter).2 = true := by rw [ReplayWindow.accept_result,hk]
  unfold handleTransport
  simp only [hx,hs,hk,hacc,if_neg (not_le.mpr hn),if_neg (not_le.mpr ha),Bool.not_true,
    Bool.false_eq_true,if_false]
  by_cases h16 : m.ciphertext.length < 16
  · rw [if_pos h16,openWith_eq,if_pos h16]
  rw [if_neg h16]
  by_cases hl : out.length < m.ciphertext.length-16
  · rw [if_pos hl,openWith_eq,if_neg h16,if_pos hl]
  rw [if_neg hl]
  cases ho : openBytes P C s.keys.recv (nonceFromCounter m.counter) [] m.ciphertext with
  | none =>
    rw [openWith_eq,if_neg h16,if_neg hl]
    unfold openBytes at ho
    rw [if_neg h16] at ho
    split at ho
    · cases ho
    · rename_i htag
      rw [if_neg htag]
  | some plain =>
    have hp := openBytes_length P ho
    rw [openWith_of_openBytes P ho (by omega)]
    unfold delivered
    cases plain with
    | nil => rfl
    | cons b bs => simp

theorem delivered_bytes (plain : List UInt8) : (delivered plain).bytes = plain := by
  unfold delivered
  split
  · rename_i h
    rw [h]
    rfl
  · rfl

theorem handleTransport_blind (C : ChaChaImpl) (m : TransportData) :
    Blind Received.bytes 0 (fun out => t.handleTransport C now m out rng) := by
  cases hx : t.sessionWithIndex m.receiverIndex with
  | none => simpa only [handleTransport,hx] using Blind.kept rfl 0 t rng
  | some slot =>
    by_cases hn : rejectAfterMessages ≤ m.counter
    · simpa only [handleTransport,hx,hn,if_true] using Blind.kept rfl 0 t rng
    cases hs : t.slot slot with
    | none => simpa only [handleTransport,hx,hn,if_false,hs] using Blind.kept rfl 0 t rng
    | some s =>
      by_cases ha : rejectAfterTime ≤ s.age now.ticks
      · simpa only [handleTransport,hx,hn,if_false,hs,ha,if_true] using Blind.kept rfl 0 t rng
      cases hk : s.replay.check m.counter with
      | false =>
        simpa only [handleTransport,hx,hn,if_false,hs,ha,hk,Bool.not_false,if_true] using
          Blind.kept rfl 0 t.countReplay rng
      | true =>
        refine Blind.congr ?_ (handleTransport_opening now rng C hx hs (not_le.mp hn)
          (not_le.mp ha) hk)
        cases ho : openBytes P C s.keys.recv (nonceFromCounter m.counter) [] m.ciphertext with
        | none => exact (Blind.kept rfl 0 _ rng).ite ((Blind.kept rfl _ _ rng).short t rng _)
        | some plain =>
          have hp : plain.length = m.ciphertext.length-16 := by
            rw [openBytes_length P ho,Nat.add_sub_cancel]
          dsimp only
          rw [← hp]
          exact (Blind.kept rfl 0 _ rng).ite
            ((Blind.put Received.bytes _ (delivered_bytes plain) rfl _ rng).short t rng _)

theorem decapsulate_blind (C : ChaChaImpl) (underLoad : Bool) (datagram : List UInt8) :
    Blind Received.bytes 0
      (fun out => t.decapsulate C now remote underLoad datagram out rng) := by
  unfold decapsulate decapsulateAt
  split
  · exact Blind.kept rfl 0 _ rng
  · exact receiveInitiation_blind _ _ remote rng underLoad _
  · exact receiveResponse_blind _ _ remote rng underLoad _
  · exact receiveCookieReply_blind _ _ rng _
  · exact handleTransport_blind _ _ rng C _

end Receive

/-! ## Polling -/

section Poll

variable (t : Tunnel P) (now : Now) (rng : Entropy)

def BlindFlow (f : List UInt8 → Flow P) : Prop :=
  (∃ t, ∀ out, f out = .next t) ∨
    ∃ g, Blind PollOutput.bytes 0 g ∧ ∀ out, f out = .done (g out)

theorem BlindFlow.next : BlindFlow (fun _ => .next t) := .inl ⟨t,fun _ => rfl⟩

theorem BlindFlow.done {g : List UInt8 → Outcome P PollOutput}
    (hg : Blind PollOutput.bytes 0 g) : BlindFlow (fun out => .done (g out)) :=
  .inr ⟨g,hg,fun _ => rfl⟩

theorem BlindFlow.ite {f g : List UInt8 → Flow P} {c : Prop} [Decidable c] (hf : BlindFlow f)
    (hg : BlindFlow g) : BlindFlow (fun out => if c then f out else g out) := by
  by_cases hc : c
  · simpa only [hc,if_true] using hf
  · simpa only [hc,if_false] using hg

theorem BlindFlow.andThen {f : List UInt8 → Flow P} {k : Tunnel P → List UInt8 → Flow P}
    (hf : BlindFlow f) (hk : ∀ t, BlindFlow (k t)) :
    BlindFlow (fun out => (f out).andThen (fun t => k t out)) := by
  rcases hf with ⟨t,ht⟩ | ⟨g,hg,he⟩
  · simpa only [ht,Flow.andThen] using hk t
  · simpa only [he,Flow.andThen] using BlindFlow.done hg

theorem sendAs_blind {f : List UInt8 → Outcome P (List UInt8)} (hf : Blind id 0 f)
    (reason : SendReason) : Blind PollOutput.bytes 0 (fun out => (f out).sendAs reason) := by
  have hw : ∀ r : Except Error (List UInt8),
      written PollOutput.bytes (r.map (fun wire => .send wire reason)) = written id r := by
    intro r
    cases r <;> rfl
  refine ⟨fun out out' hn hl => ?_,fun out hn => ?_⟩
  · obtain ⟨ht,hr,he⟩ := hf.alike out out' hn hl
    exact ⟨ht,hr,congrArg (Except.map _) he⟩
  · simp only [Outcome.sendAs,hw]
    exact hf.holds out hn

theorem keepalive_blind (C : ChaChaImpl) (hu : t.currentUsable now.ticks = true)
    (reason : SendReason) :
    Blind PollOutput.bytes 0 (fun out => (t.sendKeepalive C now out rng).sendAs reason) := by
  obtain ⟨s,hc,hs⟩ := currentUsable_some hu
  exact sendAs_blind (sendKeepalive_blind t now rng C hc (Session.usableForSend_iff.mp hs).2.1)
    reason

theorem keepalive_flow (C : ChaChaImpl) (u : Tunnel P) (reason : SendReason) :
    BlindFlow (fun out => if t.currentUsable now.ticks then
      .done ((t.sendKeepalive C now out rng).sendAs reason) else .next u) := by
  cases hu : t.currentUsable now.ticks with
  | true => exact BlindFlow.done (keepalive_blind t now rng C hu reason)
  | false => exact BlindFlow.next u

theorem pollTimers_blind (C : ChaChaImpl) :
    BlindFlow (fun out => t.pollTimers C now out rng) := by
  unfold pollTimers
  refine (BlindFlow.next _).andThen fun t => BlindFlow.andThen ?_ fun t => BlindFlow.andThen ?_
    fun t => BlindFlow.andThen ?_ fun t => BlindFlow.andThen ?_ fun t => BlindFlow.andThen ?_
    fun t => ?_
  · unfold pollDiscard
    split
    · exact BlindFlow.next t
    · exact (BlindFlow.done (Blind.kept rfl 0 _ rng)).ite (BlindFlow.next t)
  · unfold pollRetransmit
    exact ((BlindFlow.done (Blind.kept rfl 0 _ rng)).ite
      (BlindFlow.done (sendInitiation_blind t now rng (fun _ => rfl) true))).ite (BlindFlow.next t)
  · unfold pollRekey
    exact ((BlindFlow.next _).ite ((BlindFlow.done
      (sendInitiation_blind _ now rng (fun _ => rfl) true)).ite (BlindFlow.next t))).ite
        (BlindFlow.next t)
  · unfold pollDeadPeer
    exact (BlindFlow.done (sendInitiation_blind _ now rng (fun _ => rfl) true)).ite
      (BlindFlow.next t)
  · unfold pollConfirm
    exact (keepalive_flow t now rng C _ _).ite (BlindFlow.next t)
  · unfold pollPassive
    exact (keepalive_flow t now rng C _ _).ite (BlindFlow.next t)

theorem pollPersistent_blind (C : ChaChaImpl) :
    Blind PollOutput.bytes 0 (fun out => t.pollPersistent C now out rng) := by
  have hidle : Blind PollOutput.bytes 0 (fun out => ⟨t,out,rng,.ok .idle⟩) := .kept rfl 0 t rng
  unfold pollPersistent
  split
  · exact hidle
  · cases hu : t.currentUsable now.ticks with
    | true =>
      simp only [if_true]
      exact (keepalive_blind t now rng C hu _).ite hidle
    | false =>
      simp only [Bool.false_eq_true,if_false]
      exact (sendInitiation_blind _ now rng (fun _ => rfl) true).ite hidle

theorem poll_blind (C : ChaChaImpl) :
    Blind PollOutput.bytes 0 (fun out => t.poll C now out rng) := by
  unfold poll pollAt
  rcases pollTimers_blind (t.clampNow now).1 (t.clampNow now).2 rng C with ⟨u,hu⟩ | ⟨g,hg,he⟩
  · simpa only [hu] using pollPersistent_blind u _ rng C
  · simpa only [he] using hg

end Poll

/-! ## Runs -/

def Op.out : Op → List UInt8
  | .encapsulate _ _ out _ => out
  | .decapsulate _ _ _ _ out _ => out
  | .poll _ out _ => out
  | .initiateHandshake _ out _ => out
  | .setMtu _ => []
  | .reset => []

def Op.withOut (op : Op) (out : List UInt8) : Op :=
  match op with
  | .encapsulate now payload _ rng => .encapsulate now payload out rng
  | .decapsulate now remote underLoad datagram _ rng =>
    .decapsulate now remote underLoad datagram out rng
  | .poll now _ rng => .poll now out rng
  | .initiateHandshake now _ rng => .initiateHandshake now out rng
  | .setMtu mtu => .setMtu mtu
  | .reset => .reset

def Output.bytes : Output → List UInt8
  | .encapsulated r => written Encapsulated.bytes r
  | .decapsulated r => written Received.bytes r
  | .polled r => written PollOutput.bytes r
  | .initiated r => written id r
  | .none => []

/-- The buffer when a call returns. -/
def bufferAfter (C : ChaChaImpl) (t : Tunnel P) : Op → List UInt8
  | .encapsulate now payload out rng => (t.encapsulate C now payload out rng).out
  | .decapsulate now remote underLoad datagram out rng =>
    (t.decapsulate C now remote underLoad datagram out rng).out
  | .poll now out rng => (t.poll C now out rng).out
  | .initiateHandshake now out rng => (t.initiateHandshake now out rng).out
  | .setMtu _ => []
  | .reset => []

theorem step_withOut (C : ChaChaImpl) (t : Tunnel P) (op : Op) {out : List UInt8}
    (h : op.out.length = out.length) : step C t (op.withOut out) = step C t op := by
  cases op with
  | encapsulate now payload out' rng =>
    obtain ⟨ht,_,hr⟩ := (encapsulate_blind t now rng C payload).alike _ _ (Nat.zero_le _) h
    exact Prod.ext ht.symm (congrArg Output.encapsulated hr.symm)
  | decapsulate now remote underLoad datagram out' rng =>
    obtain ⟨ht,_,hr⟩ :=
      (decapsulate_blind t now remote rng C underLoad datagram).alike _ _ (Nat.zero_le _) h
    exact Prod.ext ht.symm (congrArg Output.decapsulated hr.symm)
  | poll now out' rng =>
    obtain ⟨ht,_,hr⟩ := (poll_blind t now rng C).alike _ _ (Nat.zero_le _) h
    exact Prod.ext ht.symm (congrArg Output.polled hr.symm)
  | initiateHandshake now out' rng =>
    obtain ⟨ht,_,hr⟩ := (initiateHandshake_blind t now rng).alike _ _ (Nat.zero_le _) h
    exact Prod.ext ht.symm (congrArg Output.initiated hr.symm)
  | setMtu mtu => rfl
  | reset => rfl

theorem step_bufferAfter (C : ChaChaImpl) (t : Tunnel P) (op : Op) :
    let bytes := (step C t op).2.bytes
    bytes.length ≤ op.out.length ∧ bufferAfter C t op = bytes++op.out.drop bytes.length := by
  cases op with
  | encapsulate now payload out rng =>
    exact (encapsulate_blind t now rng C payload).holds out (Nat.zero_le _)
  | decapsulate now remote underLoad datagram out rng =>
    exact (decapsulate_blind t now remote rng C underLoad datagram).holds out (Nat.zero_le _)
  | poll now out rng => exact (poll_blind t now rng C).holds out (Nat.zero_le _)
  | initiateHandshake now out rng =>
    exact (initiateHandshake_blind t now rng).holds out (Nat.zero_le _)
  | setMtu mtu => exact ⟨le_rfl,rfl⟩
  | reset => exact ⟨le_rfl,rfl⟩

/-- Two calls that differ at most in what their buffers hold. -/
def Op.Alike (op op' : Op) : Prop := ∃ out, op.out.length = out.length ∧ op' = op.withOut out

/-- No run depends on what the buffers hold, and each call leaves what it returns in
front of the bytes that were there. -/
theorem buffers_never_read (C : ChaChaImpl) (t : Tunnel P) {ops ops' : List Op}
    (h : List.Forall₂ Op.Alike ops ops') :
    Machine.final (step C) t ops' = Machine.final (step C) t ops ∧
    (Machine.history (step C) t ops').map (·.output) =
      (Machine.history (step C) t ops).map (·.output) ∧
    ∀ x ∈ Machine.history (step C) t ops, x.output.bytes.length ≤ x.input.out.length ∧
      bufferAfter C x.before x.input =
        x.output.bytes++x.input.out.drop x.output.bytes.length := by
  have hstep : ∀ (t : Tunnel P) (op op' : Op), op.Alike op' → step C t op' = step C t op :=
    fun t _ _ ⟨_,hl,he⟩ => he ▸ step_withOut C t _ hl
  obtain ⟨hf,ho⟩ := Machine.run_congr hstep h t
  refine ⟨hf,ho,fun x hx => ?_⟩
  obtain ⟨u,op,_,rfl⟩ := Machine.mem_history _ _ _ _ hx
  exact step_bufferAfter C u op

/-- An initiation over two different buffers. -/
theorem buffers_never_read_specimen :
    let call (b : UInt8) := Op.initiateHandshake ⟨Ticks.zero,0,0⟩ (List.replicate 200 b)
      (List.replicate 2 (some (fun _ => 0)))
    Machine.final (step (scalar specimen)) specimenTunnel [call 1] =
      Machine.final (step (scalar specimen)) specimenTunnel [call 0] := by
  intro call
  have h : (call 0).Alike (call 1) :=
    ⟨List.replicate 200 1,List.length_replicate.trans List.length_replicate.symm,rfl⟩
  exact (buffers_never_read (scalar specimen) specimenTunnel (.cons h .nil)).1

end WireGuard
