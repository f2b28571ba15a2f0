import WireGuard.CookieDance

/-!
# Runs of a cookie jar

A jar honours the secrets of its last two committed rotations and no other
value, since a rotation pushes the secret in use behind the fresh one and the
flag of the older slot records whether there was one. Its nonces are a counter of
192 bits that is seeded once, so replies are numbered one by one from the seed.
-/

set_option autoImplicit false

namespace WireGuard
open ByteString

namespace CookieJar

/-- A use of a jar, with the clock and the entropy it is given. -/
inductive Call where
  | mint (now : Ticks) (rng : Entropy) (remote : List UInt8)
  | reply (keys : MacKeys) (now : Ticks) (rng : Entropy) (peer : UInt32) (mac1 : Bytes 16)
    (remote out : List UInt8)

inductive Answer where
  | minted (result : Except Error (Bytes 16))
  | replied (out : List UInt8) (result : Except Error ℕ)

def Answer.datagram : Answer → Option (List UInt8)
  | .replied out (.ok n) => some (out.take n)
  | _ => none

section Model

variable (P : Primitives)

def step (jar : CookieJar) : Call → CookieJar × Answer
  | .mint now rng remote =>
    match jar.mint P now rng remote with
    | (.error e,_) => (jar,.minted (.error e))
    | (.ok (jar,cookie),_) => (jar,.minted (.ok cookie))
  | .reply keys now rng peer mac1 remote out =>
    let x := buildCookieReply P keys jar now rng peer mac1 remote out
    (x.jar,.replied x.out x.result)

end Model

def Call.entropy : Call → Entropy
  | .mint _ rng _ => rng
  | .reply _ _ rng _ _ _ _ => rng

/-- The secret that a rotation at `now` commits: one is due, and neither of its
draws fails. -/
def commits (jar : CookieJar) (now : Ticks) (rng : Entropy) : Option (Bytes 32) :=
  if !jar.primed || cookieLifetime ≤ now.since jar.rotatedAt then
    match rng.gen32 with
    | (none,_) => none
    | (some fresh,rng) =>
      match (jar.drawNonceSeed rng).1 with
      | .error _ => none
      | .ok _ => some fresh
  else none

def Call.committed (jar : CookieJar) : Call → Option (Bytes 32)
  | .mint now rng _ => jar.commits now rng
  | .reply _ now rng _ _ _ out =>
    if out.length < cookieReplyLen then none else jar.commits now rng

inductive Rotated (jar : CookieJar) (now : Ticks) (rng : Entropy) : Except Error CookieJar → Prop
  | failed (e : Error) (h : jar.commits now rng = none) : Rotated jar now rng (.error e)
  | kept (h : jar.commits now rng = none) (hp : jar.primed = true) : Rotated jar now rng (.ok jar)
  | drawn (fresh : Bytes 32) (seed : Option (Bytes 24)) (h : jar.commits now rng = some fresh)
    (hd : rng.gen32.1 = some fresh) (hs : jar.primed = true → seed = none) :
    Rotated jar now rng (.ok (jar.rotate now fresh seed))

theorem rotateIfNeeded_rotated (jar : CookieJar) (now : Ticks) (rng : Entropy) :
    Rotated jar now rng (jar.rotateIfNeeded now rng).1 := by
  unfold rotateIfNeeded
  split
  · rename_i hdue
    split
    · rename_i hg
      exact .failed _ (by simp [commits,hdue,hg])
    · rename_i fresh rest hg
      split
      · rename_i hs
        exact .failed _ (by simp [commits,hdue,hg,hs])
      · rename_i seed _ hs
        refine .drawn fresh seed (by simp [commits,hdue,hg,hs]) (by rw [hg]) fun hp => ?_
        rw [drawNonceSeed,if_pos hp] at hs
        cases hs
        rfl
  · rename_i hdue
    have hfresh : jar.primed = true ∧ now.since jar.rotatedAt < cookieLifetime := by
      simpa using hdue
    exact .kept (by simp [commits,hdue]) hfresh.1

/-! ## The secrets -/

/-- The secrets that `verifyMac2` tries, the latest first. -/
def honoured (jar : CookieJar) : List (Bytes 32) :=
  if jar.primed then jar.secret::(if jar.hasPrevious then [jar.previous] else []) else []

theorem verifyMac2_iff {P : Primitives} (jar : CookieJar) (remote beta : List UInt8)
    (mac2 : Bytes 16) :
    jar.verifyMac2 P remote beta mac2 = true ↔
      ∃ s ∈ jar.honoured, mac P (mac P s.toList [remote]).toList [beta] = mac2 := by
  unfold verifyMac2 honoured
  by_cases hp : jar.primed = true
  · by_cases hh : jar.hasPrevious = true
    · simp [hp,hh,ctEq_bytes]
    · simp [hp,hh,ctEq_bytes]
  · simp [hp]

theorem honoured_take (jar : CookieJar) : jar.honoured.take 2 = jar.honoured := by
  unfold honoured
  split_ifs <;> rfl

theorem honoured_rotate (jar : CookieJar) (now : Ticks) (fresh : Bytes 32)
    (seed : Option (Bytes 24)) :
    (jar.rotate now fresh seed).honoured = fresh::jar.honoured.take 1 := by
  by_cases hp : jar.primed = true
  · simp [honoured,rotate,hp]
  · simp [honoured,rotate,hp]

theorem rotated_honoured {jar rotated : CookieJar} {now : Ticks} {rng : Entropy}
    (h : Rotated jar now rng (.ok rotated)) :
    rotated.honoured = ((jar.commits now rng).toList++jar.honoured).take 2 := by
  cases h with
  | kept h hp =>
    rw [h]
    exact (honoured_take jar).symm
  | drawn fresh seed h hd hs =>
    rw [h,honoured_rotate]
    rfl

@[simp] theorem honoured_nextNonce (jar : CookieJar) :
    jar.nextNonce.1.honoured = jar.honoured := rfl

section Run

variable {P : Primitives}

inductive Stepped (jar : CookieJar) (call : Call) : CookieJar → Answer → Prop
  | failed (a : Answer) (ha : a.datagram = none) (h : call.committed jar = none) :
    Stepped jar call jar a
  | minted (now : Ticks) (rng : Entropy) (rotated : CookieJar) (a : Answer)
    (ha : a.datagram = none) (hr : Rotated jar now rng (.ok rotated))
    (hc : call.committed jar = jar.commits now rng) (he : call.entropy = rng) :
    Stepped jar call rotated a
  | replied (now : Ticks) (rng : Entropy) (rotated : CookieJar) (a : Answer) (m : CookieReply)
    (ha : a.datagram = some m.encode) (hn : m.nonce = rotated.nextNonce.2)
    (hr : Rotated jar now rng (.ok rotated))
    (hc : call.committed jar = jar.commits now rng) (he : call.entropy = rng) :
    Stepped jar call rotated.nextNonce.1 a

theorem mint_stepped (jar : CookieJar) (now : Ticks) (rng : Entropy) (remote : List UInt8) :
    Stepped jar (.mint now rng remote) (step P jar (.mint now rng remote)).1
      (step P jar (.mint now rng remote)).2 := by
  have hr := jar.rotateIfNeeded_rotated now rng
  cases h : jar.rotateIfNeeded now rng with
  | mk r rest =>
    rw [h] at hr
    cases r with
    | error e =>
      cases hr with
      | failed _ hn =>
        have hc : (Call.mint now rng remote).committed jar = none := hn
        simpa [step,mint,h] using Stepped.failed _ rfl hc
    | ok rotated =>
      simpa [step,mint,h] using Stepped.minted now rng rotated _ rfl hr rfl rfl

theorem reply_stepped (jar : CookieJar) (keys : MacKeys) (now : Ticks) (rng : Entropy)
    (peer : UInt32) (mac1 : Bytes 16) (remote out : List UInt8) :
    Stepped jar (.reply keys now rng peer mac1 remote out)
      (step P jar (.reply keys now rng peer mac1 remote out)).1
      (step P jar (.reply keys now rng peer mac1 remote out)).2 := by
  by_cases hl : out.length < cookieReplyLen
  · have hb : buildCookieReply P keys jar now rng peer mac1 remote out =
        ⟨jar,out,rng,.error .bufferTooSmall⟩ := by simp [buildCookieReply,hl]
    simpa [step,hb] using Stepped.failed _ rfl (by simp [Call.committed,hl])
  have hc : (Call.reply keys now rng peer mac1 remote out).committed jar =
      jar.commits now rng := by simp [Call.committed,hl]
  have hr := jar.rotateIfNeeded_rotated now rng
  cases h : jar.rotateIfNeeded now rng with
  | mk r rest =>
    rw [h] at hr
    cases r with
    | error e =>
      have hb : buildCookieReply P keys jar now rng peer mac1 remote out =
          ⟨jar,out,rest,.error e⟩ := by simp [buildCookieReply,hl,mint,h]
      cases hr with
      | failed _ hn => simpa [step,hb] using Stepped.failed _ rfl (hc.trans hn)
    | ok rotated =>
      have hm : jar.mint P now rng remote =
          (.ok (rotated,mac P rotated.secret.toList [remote]),rest) := by simp [mint,h]
      have hb : buildCookieReply P keys jar now rng peer mac1 remote out = _ :=
        buildCookieReply_minted P hl hm
      simp only [step,hb]
      refine Stepped.replied now rng rotated _ ⟨peer,rotated.nextNonce.2,
        xseal P keys.cookieSend rotated.nextNonce.2 mac1.toList
          (mac P rotated.secret.toList [remote])⟩ ?_ rfl hr hc rfl
      simp only [Answer.datagram]
      rw [List.take_left' (by simp [header,cookieReplyLen])]
      simp [CookieReply.encode]

theorem step_stepped (jar : CookieJar) (call : Call) :
    Stepped jar call (step P jar call).1 (step P jar call).2 := by
  cases call with
  | mint now rng remote => exact mint_stepped jar now rng remote
  | reply keys now rng peer mac1 remote out =>
    exact reply_stepped jar keys now rng peer mac1 remote out

theorem step_honoured (jar : CookieJar) (call : Call) :
    (step P jar call).1.honoured = ((call.committed jar).toList++jar.honoured).take 2 := by
  have hs := step_stepped (P := P) jar call
  generalize (step P jar call).1 = after at hs ⊢
  generalize (step P jar call).2 = answer at hs
  cases hs with
  | failed _ _ h =>
    rw [h]
    exact (honoured_take jar).symm
  | minted now rng _ _ _ hr hc _ => rw [hc,rotated_honoured hr]
  | replied now rng rotated _ m _ _ hr hc _ => rw [hc,honoured_nextNonce,rotated_honoured hr]

/-- The secrets that the rotations of a run committed, in order. -/
def secrets (history : List (Machine.Transition CookieJar Call Answer)) : List (Bytes 32) :=
  history.filterMap (fun x => x.input.committed x.before)

def replies (history : List (Machine.Transition CookieJar Call Answer)) : List (List UInt8) :=
  history.filterMap (fun x => x.output.datagram)

theorem take_two_append {α : Type} (c : Option α) (l : List α) :
    (c.toList++l.take 2).take 2 = (c.toList++l).take 2 := by
  cases c with
  | none => simp
  | some a => simp [List.take_take]

theorem run_honoured (calls : List Call) :
    (Machine.final (step P) new calls).honoured =
      (secrets (Machine.history (step P) new calls)).reverse.take 2 := by
  refine Machine.history_invariant (step P) new
    (fun h jar => jar.honoured = (secrets h).reverse.take 2) rfl (fun h jar call ih => ?_) calls
  have hc : (secrets (h++[Machine.advance (step P) jar call])).reverse =
      (call.committed jar).toList++(secrets h).reverse := by
    cases hd : call.committed jar with
    | none => simp [secrets,Machine.advance,hd]
    | some s => simp [secrets,Machine.advance,hd]
  rw [step_honoured,ih,hc,take_two_append]

theorem committed_drawn {jar : CookieJar} {call : Call} {s : Bytes 32}
    (h : call.committed jar = some s) : call.entropy.gen32.1 = some s := by
  have key : ∀ now, jar.commits now call.entropy = some s → call.entropy.gen32.1 = some s := by
    intro now hc
    have hr := jar.rotateIfNeeded_rotated now call.entropy
    generalize (jar.rotateIfNeeded now call.entropy).1 = r at hr
    cases hr with
    | failed _ hn => rw [hn] at hc; cases hc
    | kept hn _ => rw [hn] at hc; cases hc
    | drawn fresh seed hf hd _ => rw [hd,← hf,hc]
  cases call with
  | mint now rng remote => exact key now h
  | reply keys now rng peer mac1 remote out =>
    rw [Call.committed] at h
    split at h
    · cases h
    · exact key now h

/-- In every run from a new jar, whatever the clock says and whichever draws fail, a
second mac is accepted exactly if it is keyed by one of the last two secrets that
rotations committed. Each of these was returned by the entropy source. -/
theorem honours_committed_secrets (P : Primitives) (calls : List Call) :
    let jar := Machine.final (step P) new calls
    let history := Machine.history (step P) new calls
    (∀ (remote beta : List UInt8) (mac2 : Bytes 16),
      jar.verifyMac2 P remote beta mac2 = true ↔ ∃ s ∈ (secrets history).reverse.take 2,
        mac2 = mac P (mac P s.toList [remote]).toList [beta]) ∧
    (secrets history = [] → ∀ (remote beta : List UInt8) (mac2 : Bytes 16),
      jar.verifyMac2 P remote beta mac2 = false) ∧
    ∀ s ∈ secrets history, ∃ x ∈ history, x.input.entropy.gen32.1 = some s := by
  intro jar history
  have hv : ∀ (remote beta : List UInt8) (mac2 : Bytes 16),
      jar.verifyMac2 P remote beta mac2 = true ↔ ∃ s ∈ (secrets history).reverse.take 2,
        mac2 = mac P (mac P s.toList [remote]).toList [beta] := by
    intro remote beta mac2
    rw [verifyMac2_iff,run_honoured]
    simp only [history,eq_comm]
  refine ⟨hv,fun he remote beta mac2 => ?_,fun s hs => ?_⟩
  · rw [← Bool.not_eq_true,hv,he]
    simp
  · obtain ⟨x,hx,hc⟩ := List.mem_filterMap.mp hs
    exact ⟨x,hx,committed_drawn hc⟩

end Run

/-! ## The nonces -/

/-- The three words of the nonce counter as one number of 192 bits. -/
def counter (jar : CookieJar) : ℕ :=
  jar.nonceCounter.1.toNat+2^64*(jar.nonceCounter.2.1.toNat+2^64*jar.nonceCounter.2.2.toNat)

theorem carryBit_toNat (carry : Bool) : (carryBit carry).toNat = carry.toNat := by
  cases carry <;> rfl

theorem overflowingAdd_carry (a : UInt64) (carry : Bool) :
    (overflowingAdd a (carryBit carry)).1.toNat+
      2^64*(overflowingAdd a (carryBit carry)).2.toNat = a.toNat+carry.toNat := by
  have ha := a.toNat_lt
  have hc := carry.toNat_le
  have hs : (a+carryBit carry).toNat = (a.toNat+carry.toNat)%2^64 := by
    rw [UInt64.toNat_add,carryBit_toNat]
  by_cases ho : a+carryBit carry < a
  · simp only [overflowingAdd,ho,decide_true,Bool.toNat_true]
    rw [UInt64.lt_iff_toNat_lt] at ho
    omega
  · simp only [overflowingAdd,ho,decide_false,Bool.toNat_false]
    rw [UInt64.lt_iff_toNat_lt] at ho
    omega

theorem nextNonce_counter (jar : CookieJar) :
    jar.nextNonce.1.counter = (jar.counter+1)%2^192 ∧
      fromLe jar.nextNonce.2.toList = jar.nextNonce.1.counter := by
  rcases hn : jar.nonceCounter with ⟨a,b,c⟩
  have ha := overflowingAdd_carry a true
  have hb := overflowingAdd_carry b (overflowingAdd a (carryBit true)).2
  have h1 : carryBit true = 1 := rfl
  rw [h1,Bool.toNat_true] at ha
  rw [h1] at hb
  generalize hx : overflowingAdd a 1 = x at ha hb
  generalize hy : overflowingAdd b (carryBit x.2) = y at hb
  have hz : (c+carryBit y.2).toNat = (c.toNat+y.2.toNat)%2^64 := by
    rw [UInt64.toNat_add,carryBit_toNat]
  have hj : jar.nextNonce = ({jar with nonceCounter := (x.1,y.1,c+carryBit y.2)},
      ofList 24 (toLe 8 x.1.toNat++toLe 8 y.1.toNat++toLe 8 (c+carryBit y.2).toNat)
        (by simp)) := by
    simp only [nextNonce,hn,hx,hy]
  rw [hj]
  have hx := x.1.toNat_lt
  have hy := y.1.toNat_lt
  have hc := (c+carryBit y.2).toNat_lt
  simp only [counter,hn,ofList_toList,fromLe_append,fromLe_toLe,toLe_length,List.length_append]
  refine ⟨?_,?_⟩
  · omega
  · omega

/-- The replies carry the numbers behind `base`, one after the other, and the counter
stands at the last of them. -/
structure Numbered (base : ℕ) (replies : List (List UInt8)) (jar : CookieJar) : Prop where
  primed : jar.primed = true
  counter_eq : jar.counter%2^192 = (base+replies.length)%2^192
  nonce : ∀ i d, replies[i]? = some d → ∃ m : CookieReply, d = m.encode ∧
    fromLe m.nonce.toList = (base+i+1)%2^192

def Counting (replies : List (List UInt8)) (jar : CookieJar) : Prop :=
  (jar.primed = false ∧ replies = []) ∨ ∃ base, Numbered base replies jar

theorem Counting.rotated {sent : List (List UInt8)} {jar rotated : CookieJar} {now : Ticks}
    {rng : Entropy} (h : Counting sent jar) (hr : Rotated jar now rng (.ok rotated)) :
    ∃ base, Numbered base sent rotated := by
  cases hr with
  | kept _ hp =>
    rcases h with ⟨hp',_⟩ | h
    · rw [hp] at hp'
      cases hp'
    · exact h
  | drawn fresh seed _ _ hs =>
    rcases h with ⟨_,rfl⟩ | ⟨base,h⟩
    · exact ⟨(jar.rotate now fresh seed).counter,rfl,rfl,fun i d hd => by simp at hd⟩
    · refine ⟨base,rfl,?_,h.nonce⟩
      rw [hs h.primed]
      exact h.counter_eq

theorem Numbered.next {base : ℕ} {sent : List (List UInt8)} {jar : CookieJar} {m : CookieReply}
    (h : Numbered base sent jar) (hm : m.nonce = jar.nextNonce.2) :
    Numbered base (sent++[m.encode]) jar.nextNonce.1 := by
  have hc := h.counter_eq
  obtain ⟨hnext,hnonce⟩ := jar.nextNonce_counter
  refine ⟨h.primed,?_,fun i d hd => ?_⟩
  · rw [hnext,List.length_append,List.length_singleton]
    omega
  · rcases Nat.lt_trichotomy i sent.length with hi | rfl | hi
    · rw [List.getElem?_append_left hi] at hd
      exact h.nonce i d hd
    · rw [List.getElem?_concat_length] at hd
      refine ⟨m,(Option.some.inj hd).symm,?_⟩
      rw [hm,hnonce,hnext]
      omega
    · rw [List.getElem?_eq_none (by simp; omega)] at hd
      cases hd

section Replies

variable {P : Primitives}

theorem step_counting (jar : CookieJar) (call : Call) {sent : List (List UInt8)}
    (h : Counting sent jar) :
    Counting (sent++(step P jar call).2.datagram.toList) (step P jar call).1 := by
  have hs := step_stepped (P := P) jar call
  generalize (step P jar call).1 = after at hs ⊢
  generalize (step P jar call).2 = answer at hs ⊢
  cases hs with
  | failed _ ha _ =>
    rw [ha]
    simpa using h
  | minted now rng _ _ ha hr _ _ =>
    have hc : Counting sent after := Or.inr (h.rotated hr)
    rw [ha]
    simpa using hc
  | replied now rng rotated _ m ha hm hr _ _ =>
    obtain ⟨base,hb⟩ := h.rotated hr
    rw [ha]
    exact Or.inr ⟨base,hb.next hm⟩

theorem run_counting (calls : List Call) :
    Counting (replies (Machine.history (step P) new calls))
      (Machine.final (step P) new calls) := by
  refine Machine.history_invariant (step P) new (fun h jar => Counting (replies h) jar)
    (Or.inl ⟨rfl,rfl⟩) (fun h jar call ih => ?_) calls
  have hr : replies (h++[Machine.advance (step P) jar call]) =
      replies h++(step P jar call).2.datagram.toList := by
    cases hd : (step P jar call).2.datagram with
    | none => simp [replies,Machine.advance,hd]
    | some d => simp [replies,Machine.advance,hd]
  rw [hr]
  exact step_counting jar call ih

/-- Fewer than 2^192 replies of one jar carry pairwise distinct nonces, whatever the
clock says, whichever draws fail and whatever the seed. -/
theorem reply_nonces_distinct (P : Primitives) (calls : List Call)
    (h : (replies (Machine.history (step P) new calls)).length < 2^192) :
    (replies (Machine.history (step P) new calls)).Pairwise (fun d d' => ∃ m m' : CookieReply,
      parse d = .ok (.cookieReply m) ∧ parse d' = .ok (.cookieReply m') ∧
        m.nonce ≠ m'.nonce) := by
  rcases run_counting (P := P) calls with ⟨_,he⟩ | ⟨base,hb⟩
  · rw [he]
    exact List.Pairwise.nil
  · rw [List.pairwise_iff_getElem]
    intro i j hi hj hij
    obtain ⟨m,hm,hn⟩ := hb.nonce i _ (List.getElem?_eq_getElem hi)
    obtain ⟨m',hm',hn'⟩ := hb.nonce j _ (List.getElem?_eq_getElem hj)
    refine ⟨m,m',parse_cookie_iff.mpr hm,parse_cookie_iff.mpr hm',fun he => ?_⟩
    rw [he,hn'] at hn
    omega

def specimenReplies : List Call :=
  let keys := MacKeys.new keying (zeros 32) (zeros 32)
  let rng : Entropy := List.replicate 2 (some (fun _ => 255))
  let out : List UInt8 := List.replicate 64 0
  [.reply keys Ticks.zero rng 1 (zeros 16) [1] out,.reply keys Ticks.zero [] 1 (zeros 16) [1] out]

theorem reply_nonces_distinct_specimen :
    let sent := replies (Machine.history (step keying) new specimenReplies)
    sent.length = 2 ∧ sent.Pairwise (fun d d' => ∃ m m' : CookieReply,
      parse d = .ok (.cookieReply m) ∧ parse d' = .ok (.cookieReply m') ∧
        m.nonce ≠ m'.nonce) :=
  ⟨by decide +kernel,reply_nonces_distinct keying specimenReplies (by decide +kernel)⟩

end Replies

end CookieJar

end WireGuard
