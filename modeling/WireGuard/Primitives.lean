import WireGuard.Consts
import WireGuard.Library.ByteString

/-!
# Errors, entropy and the primitives below the protocol

The protocol is developed over any hash, MAC, curve, stream cipher and one-time
authenticator of the right shapes; nothing here assumes that they are secure.
An entropy source is the sequence of its answers to successive draws, each
draw failing or supplying bytes, so every behaviour of a source is covered,
repetition and failure included.
-/

set_option autoImplicit false

namespace WireGuard
open ByteString

inductive Error where
  | bufferTooSmall
  | notEstablished
  | invalidPacket
  | invalidMac1
  | authFailure
  | unknownPeer
  | replayedTimestamp
  | unknownReceiverIndex
  | replay
  | expired
  | noPendingHandshake
  | invalidCookie
  | handshakeRateLimited
  | entropyFailure
  | invalidPublicKey
  | internal
  deriving DecidableEq, Repr

def splitAtChecked (n : ℕ) (l : List UInt8) : Except Error (List UInt8 × List UInt8) :=
  if n ≤ l.length then .ok (l.take n,l.drop n) else .error .internal

theorem splitAtChecked_eq {n : ℕ} {l : List UInt8} (h : n ≤ l.length) :
    splitAtChecked n l = .ok (l.take n,l.drop n) := if_pos h

abbrev Entropy := List (Option (ℕ → UInt8))

namespace Entropy

/-- An exhausted sequence is a source that fails from then on. -/
def fill (n : ℕ) : Entropy → Option (Bytes n) × Entropy
  | [] => (none,[])
  | none::rest => (none,rest)
  | some f::rest => (some (List.Vector.ofFn (fun i => f i.val)),rest)

def gen32 (rng : Entropy) : Option (Bytes 32) × Entropy := fill 32 rng

end Entropy

/-- The functions the protocol code calls in the hash, MAC, curve, cipher and
authenticator modules. `digest` and `keyed` take the concatenation of the parts
that the source feeds to its streaming interfaces. -/
structure Primitives where
  digest : List UInt8 → Bytes 32
  keyed : List UInt8 → List UInt8 → Bytes 16
  x25519 : Bytes 32 → Bytes 32 → Bytes 32
  block : Bytes 32 → UInt32 → Bytes 12 → Bytes 64
  hchacha20 : Bytes 32 → Bytes 16 → Bytes 32
  poly1305 : Bytes 32 → List UInt8 → Bytes 16

variable (P : Primitives)

def hash (parts : List (List UInt8)) : Bytes 32 := P.digest parts.flatten

def mac (key : List UInt8) (parts : List (List UInt8)) : Bytes 16 :=
  P.keyed key parts.flatten

def ctEq (a b : List UInt8) : Bool :=
  if a.length ≠ b.length then false
  else (List.zipWith (fun x y => x ^^^ y) a b).foldl (fun d x => d ||| x) 0 == 0

def ctIsZero (a : List UInt8) : Bool := a.foldl (fun d x => d ||| x) 0 == 0

theorem fold_or_eq_zero (l : List UInt8) (d : UInt8) :
    l.foldl (fun d x => d ||| x) d = 0 ↔ d = 0 ∧ ∀ x ∈ l, x = 0 := by
  induction l generalizing d with
  | nil => simp
  | cons a l ih => simp [ih,and_assoc]

theorem ctIsZero_iff (a : List UInt8) : ctIsZero a = true ↔ ∀ x ∈ a, x = 0 := by
  simp [ctIsZero,fold_or_eq_zero]

theorem zipWith_xor_zero (a b : List UInt8) (h : a.length = b.length) :
    (∀ x ∈ List.zipWith (fun x y => x ^^^ y) a b, x = 0) ↔ a = b := by
  induction a generalizing b with
  | nil =>
    have hb : b = [] := List.length_eq_zero_iff.mp h.symm
    simp [hb]
  | cons x a ih =>
    cases b with
    | nil => simp at h
    | cons y b =>
      have hl : a.length = b.length := by simpa using h
      simp [ih b hl]

theorem ctEq_iff (a b : List UInt8) : ctEq a b = true ↔ a = b := by
  by_cases h : a.length = b.length
  · simp [ctEq,h,fold_or_eq_zero,zipWith_xor_zero a b h]
  · have hne : a ≠ b := fun he => h (congrArg List.length he)
    simp [ctEq,h,hne]

theorem ctEq_bytes {n : ℕ} (a b : Bytes n) : ctEq a.toList b.toList = true ↔ a = b := by
  rw [ctEq_iff]
  exact ⟨toList_inj,congrArg _⟩

def clampScalar (s : Bytes 32) : Bytes 32 :=
  List.Vector.ofFn (fun i =>
    if i.val = 0 then s.get i &&& 248
    else if i.val = 31 then (s.get i &&& 127) ||| 64 else s.get i)

def basepoint : Bytes 32 := List.Vector.ofFn (fun i => if i.val = 0 then 9 else 0)

def x25519Base (scalar : Bytes 32) : Bytes 32 := P.x25519 scalar basepoint

def sharedSecret (secret peerPublic : Bytes 32) : Except Error (Bytes 32) :=
  if ctIsZero (P.x25519 secret peerPublic).toList then .error .invalidPublicKey
  else .ok (P.x25519 secret peerPublic)

theorem sharedSecret_ok {secret peer out : Bytes 32} (h : sharedSecret P secret peer = .ok out) :
    out = P.x25519 secret peer := by
  unfold sharedSecret at h
  split at h
  · cases h
  · exact (Except.ok.inj h).symm

def padKey (key : List UInt8) : List UInt8 :=
  let k := if 64 < key.length then (P.digest key).toList else key
  k ++ List.replicate (64-k.length) 0

def hmac (key : List UInt8) (parts : List (List UInt8)) : Bytes 32 :=
  let kBlock := padKey P key
  let inner := hash P (kBlock.map (fun k => k ^^^ 0x36) :: parts)
  hash P [kBlock.map (fun k => k ^^^ 0x5c),inner.toList]

def kdf1 (key : Bytes 32) (input : List UInt8) : Bytes 32 :=
  let t0 := hmac P key.toList [input]
  hmac P t0.toList [[0x01]]

def kdf2 (key : Bytes 32) (input : List UInt8) : Bytes 32 × Bytes 32 :=
  let t0 := hmac P key.toList [input]
  let t1 := hmac P t0.toList [[0x01]]
  let t2 := hmac P t0.toList [t1.toList,[0x02]]
  (t1,t2)

def kdf3 (key : Bytes 32) (input : List UInt8) : Bytes 32 × Bytes 32 × Bytes 32 :=
  let t0 := hmac P key.toList [input]
  let t1 := hmac P t0.toList [[0x01]]
  let t2 := hmac P t0.toList [t1.toList,[0x02]]
  let t3 := hmac P t0.toList [t2.toList,[0x03]]
  (t1,t2,t3)

/-- A suite of the right shapes in which a whole handshake can be evaluated: the
exchange of secrets is bytewise exclusive or with one byte pinned, and every
other function is constant. -/
def specimen : Primitives where
  digest _ := zeros 32
  keyed _ _ := zeros 16
  x25519 s p := List.Vector.ofFn (fun i =>
    if i.val = 1 then 1 else s.get i ^^^ p.get i ^^^ basepoint.get i)
  block _ _ _ := zeros 64
  hchacha20 _ _ := zeros 32
  poly1305 _ _ := zeros 16

/-- The specimen with a polynomial for a digest, so that keys differ when their
derivations do. -/
def mixing : Primitives where
  __ := specimen
  digest l :=
    let n := l.foldl (fun n b => (n*0x01000193+b.toNat+1)%2^32) 0
    List.Vector.ofFn (fun i => if i.val < 4 then UInt8.ofNat (n/256^i.val) else 0)

end WireGuard
