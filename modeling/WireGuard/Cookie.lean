import WireGuard.Noise

/-!
# Cookie macs, the rotating secret and cookie replies

A jar draws all the entropy of a rotation before it commits any of it, so a
failed draw leaves it as it was. Functions that can fail after a draw return
the rest of the entropy beside their result.
-/

set_option autoImplicit false

namespace WireGuard
open ByteString

variable (P : Primitives)

def labelMac1 : List UInt8 := ascii "mac1----"
def labelCookie : List UInt8 := ascii "cookie--"

structure MacKeys where
  mac1Send : Bytes 32
  mac1Recv : Bytes 32
  cookieSend : Bytes 32
  cookieRecv : Bytes 32
  deriving DecidableEq

def MacKeys.new (localPublic peerPublic : Bytes 32) : MacKeys where
  mac1Send := hash P [labelMac1,peerPublic.toList]
  mac1Recv := hash P [labelMac1,localPublic.toList]
  cookieSend := hash P [labelCookie,localPublic.toList]
  cookieRecv := hash P [labelCookie,peerPublic.toList]

structure LastCookie where
  value : Bytes 16
  receivedAt : Ticks
  deriving DecidableEq

def LastCookie.freshValue (c : LastCookie) (now : Ticks) : Option (Bytes 16) :=
  if now.since c.receivedAt < cookieLifetime then some c.value else none

structure CookieJar where
  secret : Bytes 32
  previous : Bytes 32
  hasPrevious : Bool
  rotatedAt : Ticks
  primed : Bool
  nonceCounter : UInt64 × UInt64 × UInt64
  deriving DecidableEq

def u64Le (b : List UInt8) : UInt64 := UInt64.ofNat (fromLe b)

namespace CookieJar

def new : CookieJar := ⟨zeros 32,zeros 32,false,Ticks.zero,false,(0,0,0)⟩

def drawNonceSeed (jar : CookieJar) (rng : Entropy) :
    Except Error (Option (Bytes 24)) × Entropy :=
  if jar.primed then (.ok none,rng)
  else
    match rng.fill 24 with
    | (none,rng) => (.error .entropyFailure,rng)
    | (some seed,rng) => (.ok (some seed),rng)

def seedCounter (seed : Bytes 24) : UInt64 × UInt64 × UInt64 :=
  (u64Le (seed.toList.take 8),u64Le ((seed.toList.drop 8).take 8),u64Le (seed.toList.drop 16))

def rotate (jar : CookieJar) (now : Ticks) (fresh : Bytes 32) (seed : Option (Bytes 24)) :
    CookieJar where
  secret := fresh
  previous := jar.secret
  hasPrevious := jar.primed
  rotatedAt := now
  primed := true
  nonceCounter :=
    match seed with
    | some seed => seedCounter seed
    | none => jar.nonceCounter

def rotateIfNeeded (jar : CookieJar) (now : Ticks) (rng : Entropy) :
    Except Error CookieJar × Entropy :=
  if !jar.primed || cookieLifetime ≤ now.since jar.rotatedAt then
    match rng.gen32 with
    | (none,rng) => (.error .entropyFailure,rng)
    | (some fresh,rng) =>
      match jar.drawNonceSeed rng with
      | (.error e,rng) => (.error e,rng)
      | (.ok seed,rng) => (.ok (jar.rotate now fresh seed),rng)
  else (.ok jar,rng)

def overflowingAdd (a b : UInt64) : UInt64 × Bool := (a+b,a+b < a)

def carryBit (carry : Bool) : UInt64 := if carry then 1 else 0

def nextNonce (jar : CookieJar) : CookieJar × Bytes 24 :=
  let (a,b,c) := jar.nonceCounter
  let (a,carry) := overflowingAdd a 1
  let (b,carry) := overflowingAdd b (carryBit carry)
  let c := c+carryBit carry
  ({jar with nonceCounter := (a,b,c)},
    ofList 24 (toLe 8 a.toNat ++ toLe 8 b.toNat ++ toLe 8 c.toNat) (by simp))

def mint (jar : CookieJar) (now : Ticks) (rng : Entropy) (remote : List UInt8) :
    Except Error (CookieJar × Bytes 16) × Entropy :=
  match jar.rotateIfNeeded now rng with
  | (.error e,rng) => (.error e,rng)
  | (.ok jar,rng) => (.ok (jar,mac P jar.secret.toList [remote]),rng)

def verifyMac2 (jar : CookieJar) (remote beta : List UInt8) (mac2 : Bytes 16) : Bool :=
  if !jar.primed then false
  else
    let current := mac P (mac P jar.secret.toList [remote]).toList [beta]
    let previous := mac P (mac P jar.previous.toList [remote]).toList [beta]
    ctEq current.toList mac2.toList || (ctEq previous.toList mac2.toList && jar.hasPrevious)

end CookieJar

def applyMacs (keys : MacKeys) (cookie : Option LastCookie) (now : Ticks) (msg : List UInt8) :
    Except Error (Bytes 16 × List UInt8) :=
  match macSlots msg with
  | .error e => .error e
  | .ok slots =>
    let mac1 := mac P keys.mac1Send.toList [slots.alpha]
    let mac2 :=
      match cookie.bind (fun c => c.freshValue now) with
      | some value => mac P value.toList [slots.alpha,mac1.toList]
      | none => zeros 16
    .ok (mac1,slots.alpha ++ mac1.toList ++ mac2.toList)

def verifyMac1 (keys : MacKeys) (alpha : List UInt8) (mac1 : Bytes 16) : Bool :=
  ctEq (mac P keys.mac1Recv.toList [alpha]).toList mac1.toList

structure JarOutcome where
  jar : CookieJar
  out : List UInt8
  rng : Entropy
  result : Except Error ℕ

def buildCookieReply (keys : MacKeys) (jar : CookieJar) (now : Ticks) (rng : Entropy)
    (peerSenderIndex : UInt32) (theirMac1 : Bytes 16) (remote out : List UInt8) : JarOutcome :=
  if out.length < cookieReplyLen then ⟨jar,out,rng,.error .bufferTooSmall⟩
  else
    match jar.mint P now rng remote with
    | (.error e,rng) => ⟨jar,out,rng,.error e⟩
    | (.ok (jar,cookie),rng) =>
      let (jar,nonce) := jar.nextNonce
      match xsealInto P keys.cookieSend nonce theirMac1.toList cookie with
      | .error _ => ⟨jar,out,rng,.error .internal⟩
      | .ok (sealed,encrypted) =>
        if sealed ≠ 32 then ⟨jar,out,rng,.error .internal⟩
        else
          match buildCookieReplyMessage out peerSenderIndex nonce encrypted with
          | .error e => ⟨jar,out,rng,.error e⟩
          | .ok out => ⟨jar,out,rng,.ok cookieReplyLen⟩

def consumeCookieReply (keys : MacKeys) (lastSentMac1 : Bytes 16) (msg : CookieReply)
    (now : Ticks) : Except Error LastCookie :=
  match xopen P (m := 16) keys.cookieRecv msg.nonce lastSentMac1.toList msg.encryptedCookie with
  | none => .error .invalidCookie
  | some cookie => .ok ⟨cookie,now⟩

theorem verifyMac1_iff (keys : MacKeys) (alpha : List UInt8) (mac1 : Bytes 16) :
    verifyMac1 P keys alpha mac1 = true ↔ mac P keys.mac1Recv.toList [alpha] = mac1 :=
  ctEq_bytes _ _

def mac2Of (cookie : Option LastCookie) (now : Ticks) (beta : List UInt8) : Bytes 16 :=
  match cookie.bind (fun c => c.freshValue now) with
  | some value => mac P value.toList [beta]
  | none => zeros 16

theorem applyMacs_eq (keys : MacKeys) (cookie : Option LastCookie) (now : Ticks)
    (alpha slots : List UInt8) (hs : slots.length = 32)
    (ha : alpha.length+32 = handshakeInitiationLen ∨ alpha.length+32 = handshakeResponseLen) :
    let mac1 := mac P keys.mac1Send.toList [alpha]
    applyMacs P keys cookie now (alpha++slots) =
      .ok (mac1,alpha ++ mac1.toList ++ (mac2Of P cookie now (alpha++mac1.toList)).toList) := by
  have hl : (alpha++slots).length = alpha.length+32 := by simp [hs]
  have hb : ((alpha++slots).take (alpha.length+32-16)).take (alpha.length+32-32) = alpha := by
    rw [List.take_take,Nat.min_eq_left (by omega)]
    simp
  have hm : macSlots (alpha++slots) = .ok ⟨alpha,
      ((alpha++slots).take (alpha.length+32-16)).drop (alpha.length+32-32),
      (alpha++slots).drop (alpha.length+32-16)⟩ := by
    unfold macSlots
    rw [hl,if_neg (by omega),if_neg (by omega),if_neg (by omega),splitAtChecked_eq (by omega)]
    dsimp only [bind,Except.bind]
    rw [splitAtChecked_eq (by simp [hs]),hb]
    dsimp only
    rw [if_neg (by simp [hs]),if_neg (by simp [hs])]
  simp only [applyMacs,hm]
  congr 4
  unfold mac2Of
  split <;> simp [mac]

theorem applyMacs_front (keys : MacKeys) (cookie : Option LastCookie) (now : Ticks)
    (alpha rest : List UInt8) (n : ℕ) (hn : alpha.length+32 = n)
    (hk : n = handshakeInitiationLen ∨ n = handshakeResponseLen) :
    let mac1 := mac P keys.mac1Send.toList [alpha]
    ¬(alpha ++ List.replicate 32 0 ++ rest).length < n ∧
      (alpha ++ List.replicate 32 0 ++ rest).drop n = rest ∧
      applyMacs P keys cookie now ((alpha ++ List.replicate 32 0 ++ rest).take n) =
        .ok (mac1,alpha ++ mac1.toList ++ (mac2Of P cookie now (alpha++mac1.toList)).toList) := by
  have hl : (alpha ++ List.replicate 32 (0 : UInt8)).length = n := by simp [hn]
  refine ⟨by simp [← hn],List.drop_left' hl,?_⟩
  rw [List.take_left' hl]
  exact applyMacs_eq P keys cookie now alpha _ (by simp) (by rw [hn]; exact hk)

theorem buildCookieReply_minted {keys : MacKeys} {jar jar' : CookieJar} {now : Ticks}
    {rng rest : Entropy} {peer : UInt32} {mac1 cookie : Bytes 16} {remote out : List UInt8}
    (hlen : ¬out.length < cookieReplyLen)
    (hm : jar.mint P now rng remote = (.ok (jar',cookie),rest)) :
    buildCookieReply P keys jar now rng peer mac1 remote out =
      let nonce := jar'.nextNonce.2
      ⟨jar'.nextNonce.1,header 3 ++ (u32Le peer).toList ++ nonce.toList ++
        (xseal P keys.cookieSend nonce mac1.toList cookie).toList ++ out.drop cookieReplyLen,
        rest,.ok cookieReplyLen⟩ := by
  simp only [buildCookieReply,hlen,if_false,hm,xsealInto_eq,buildCookieReplyMessage_eq]
  rfl

theorem buildCookieReply_error {keys : MacKeys} {jar : CookieJar} {now : Ticks} {rng : Entropy}
    {peer : UInt32} {mac1 : Bytes 16} {remote out : List UInt8} {e : Error}
    (h : (buildCookieReply P keys jar now rng peer mac1 remote out).result = .error e) :
    (buildCookieReply P keys jar now rng peer mac1 remote out).jar = jar ∧
      (buildCookieReply P keys jar now rng peer mac1 remote out).out = out := by
  by_cases hlen : out.length < cookieReplyLen
  · simp only [buildCookieReply,hlen,if_true,and_self]
  cases hm : jar.mint P now rng remote with
  | mk r rest =>
    cases r with
    | error e' => simp only [buildCookieReply,hlen,if_false,hm,and_self]
    | ok minted =>
      rw [buildCookieReply_minted P hlen hm] at h
      cases h

end WireGuard
