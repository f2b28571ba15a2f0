import WireGuard.Embed.Tunn
import WireGuard.JarRun

/-!
# The remote token of an address

`encodeAddr` lays both address families out in the same 18 bytes and keeps no
mark of the family. A v4 address and the v6 address that continues its four
octets with zeros therefore have the same token at the same port, and a cookie
for one is a cookie for the other. These are the only collisions.
-/

set_option autoImplicit false

namespace WireGuard
open ByteString

inductive IpAddr where
  | v4 (ip : Bytes 4)
  | v6 (ip : Bytes 16)
  deriving DecidableEq

def SocketAddr.ip : SocketAddr → IpAddr
  | .v4 ip _ => .v4 ip
  | .v6 ip _ _ _ => .v6 ip

def widen (ip : Bytes 4) : Bytes 16 :=
  ofList 16 (ip.toList++List.replicate 12 0) (by simp)

/-- One address is v4 and the other is its octets continued with zeros, at one port. -/
def Twins (a b : SocketAddr) : Prop :=
  (∃ ip, (a.ip = .v4 ip ∧ b.ip = .v6 (widen ip)) ∨ (b.ip = .v4 ip ∧ a.ip = .v6 (widen ip))) ∧
    a.port = b.port

theorem widen_inj {ip ip' : Bytes 4} (h : widen ip = widen ip') : ip = ip' := by
  have hl : ip.toList++List.replicate 12 0 = ip'.toList++List.replicate 12 0 :=
    congrArg List.Vector.toList h
  exact toList_inj (List.append_cancel_right hl)

theorem port_bytes_inj {p q : UInt16}
    (h : [UInt8.ofNat (p.toNat/256),UInt8.ofNat p.toNat] =
      [UInt8.ofNat (q.toNat/256),UInt8.ofNat q.toNat]) : p = q := by
  have hp := p.toNat_lt
  have hq := q.toNat_lt
  simp only [List.cons.injEq,and_true] at h
  have h1 := congrArg UInt8.toNat h.1
  have h2 := congrArg UInt8.toNat h.2
  simp only [UInt8.toNat_ofNat'] at h1 h2
  apply UInt16.toNat_inj.mp
  omega

@[simp] theorem octets_length (a : SocketAddr) : a.octets.length = 16 := by
  cases a <;> simp [SocketAddr.octets]

theorem octets_v4 (a : SocketAddr) (ip : Bytes 4) (h : a.ip = .v4 ip) :
    a.octets = (widen ip).toList := by
  cases a with
  | v4 ip' p =>
    cases h
    rfl
  | v6 ip' p f s => cases h

theorem octets_v6 (a : SocketAddr) (ip : Bytes 16) (h : a.ip = .v6 ip) :
    a.octets = ip.toList := by
  cases a with
  | v4 ip' p => cases h
  | v6 ip' p f s =>
    cases h
    rfl

theorem octets_eq_iff (a b : SocketAddr) :
    a.octets = b.octets ↔ a.ip = b.ip ∨
      ∃ ip, (a.ip = .v4 ip ∧ b.ip = .v6 (widen ip)) ∨ (b.ip = .v4 ip ∧ a.ip = .v6 (widen ip)) := by
  cases ha : a.ip with
  | v4 ip =>
    rw [octets_v4 a ip ha]
    cases hb : b.ip with
    | v4 ip' =>
      rw [octets_v4 b ip' hb]
      simpa using ⟨fun h => widen_inj (toList_inj h),fun h => by rw [h]⟩
    | v6 ip' =>
      rw [octets_v6 b ip' hb]
      simpa [eq_comm] using ⟨fun h => toList_inj h,fun h => by rw [h]⟩
  | v6 ip =>
    rw [octets_v6 a ip ha]
    cases hb : b.ip with
    | v4 ip' =>
      rw [octets_v4 b ip' hb]
      simpa [eq_comm] using ⟨fun h => toList_inj h,fun h => by rw [h]⟩
    | v6 ip' =>
      rw [octets_v6 b ip' hb]
      simpa using ⟨fun h => toList_inj h,fun h => by rw [h]⟩

theorem encodeAddr_eq_iff (a b : SocketAddr) :
    encodeAddr a = encodeAddr b ↔ (a.ip = b.ip ∧ a.port = b.port) ∨ Twins a b := by
  have hcut : encodeAddr a = encodeAddr b ↔ a.octets = b.octets ∧ a.port = b.port := by
    constructor
    · intro h
      obtain ⟨ho,hp⟩ := List.append_inj h (by simp)
      exact ⟨ho,port_bytes_inj hp⟩
    · rintro ⟨ho,hp⟩
      rw [encodeAddr,encodeAddr,ho,hp]
  rw [hcut,octets_eq_iff,Twins,← or_and_right]

/-! ## Cookies -/

section Cookies

variable (P : Primitives)

/-- Keyed BLAKE2s has no collision among these keys and messages. -/
def CollisionFree (queries : List (List UInt8 × List UInt8)) : Prop :=
  ∀ q ∈ queries, ∀ q' ∈ queries, P.keyed q.1 q.2 = P.keyed q'.1 q'.2 → q = q'

instance (queries : List (List UInt8 × List UInt8)) : Decidable (CollisionFree P queries) := by
  unfold CollisionFree
  infer_instance

/-- The macs of a cookie under `secret` for `addr` and of a message with it. -/
def cookieQueries (addr : SocketAddr) (beta : List UInt8) (secret : Bytes 32) :
    List (List UInt8 × List UInt8) :=
  [(secret.toList,encodeAddr addr),((mac P secret.toList [encodeAddr addr]).toList,beta)]

variable {P}

theorem cookie_inj {queries : List (List UInt8 × List UInt8)} (hf : CollisionFree P queries)
    {a b : SocketAddr} {beta : List UInt8} {s s' : Bytes 32}
    (ha : ∀ q ∈ cookieQueries P a beta s, q ∈ queries)
    (hb : ∀ q ∈ cookieQueries P b beta s', q ∈ queries)
    (h : mac P (mac P s.toList [encodeAddr a]).toList [beta] =
      mac P (mac P s'.toList [encodeAddr b]).toList [beta]) :
    s = s' ∧ encodeAddr a = encodeAddr b := by
  simp only [cookieQueries,List.mem_cons,List.not_mem_nil,or_false,forall_eq_or_imp,
    forall_eq] at ha hb
  have houter := hf _ ha.2 _ hb.2 (by simpa [mac] using h)
  have hcookie := toList_inj (congrArg Prod.fst houter)
  have hinner := hf _ ha.1 _ hb.1 (by simpa [mac] using hcookie)
  exact ⟨toList_inj (congrArg Prod.fst hinner),congrArg Prod.snd hinner⟩

theorem mint_ok {jar minted : CookieJar} {now : Ticks} {rng rest : Entropy}
    {remote : List UInt8} {cookie : Bytes 16}
    (h : jar.mint P now rng remote = (.ok (minted,cookie),rest)) :
    cookie = mac P minted.secret.toList [remote] := by
  unfold CookieJar.mint at h
  split at h
  · cases h
  · cases h
    rfl

/-- A mac with the cookie minted for `a` is accepted from another address `b` exactly
if the two are twins and the jar still honours the secret of the cookie. -/
theorem cookie_accepted_elsewhere_iff {a b : SocketAddr} (hab : ¬(a.ip = b.ip ∧ a.port = b.port))
    {jar minted : CookieJar} {now : Ticks} {rng rest : Entropy} {cookie : Bytes 16}
    (hm : jar.mint P now rng (encodeAddr a) = (.ok (minted,cookie),rest))
    (verifier : CookieJar) (beta : List UInt8)
    (hf : CollisionFree P (cookieQueries P a beta minted.secret++
      verifier.honoured.flatMap (cookieQueries P b beta))) :
    verifier.verifyMac2 P (encodeAddr b) beta (mac P cookie.toList [beta]) = true ↔
      Twins a b ∧ minted.secret ∈ verifier.honoured := by
  rw [CookieJar.verifyMac2_iff,mint_ok hm]
  constructor
  · rintro ⟨s,hs,he⟩
    have hq : ∀ q ∈ cookieQueries P b beta s, q ∈ cookieQueries P a beta minted.secret++
        verifier.honoured.flatMap (cookieQueries P b beta) :=
      fun q hq => List.mem_append_right _ (List.mem_flatMap.mpr ⟨s,hs,hq⟩)
    obtain ⟨rfl,ht⟩ := cookie_inj hf hq (fun q hq => List.mem_append_left _ hq) he
    exact ⟨((encodeAddr_eq_iff a b).mp ht.symm).resolve_left hab,hs⟩
  · rintro ⟨ht,hs⟩
    refine ⟨minted.secret,hs,?_⟩
    rw [(encodeAddr_eq_iff a b).mpr (Or.inr ht)]

end Cookies

def specimenHost (n : UInt8) : SocketAddr := .v4 ⟨[1,2,3,n],rfl⟩ 51820

/-- The address 102:304:: at the same port. -/
def specimenTwin : SocketAddr := .v6 ⟨[1,2,3,4,0,0,0,0,0,0,0,0,0,0,0,0],rfl⟩ 51820 0 0

def specimenJar : CookieJar :=
  CookieJar.new.rotate Ticks.zero (List.Vector.ofFn (fun _ => 7))
    (some (List.Vector.ofFn (fun _ => 7)))

def specimenCookie : Bytes 16 :=
  mac keying specimenJar.secret.toList [encodeAddr (specimenHost 4)]

theorem specimenJar_mint :
    CookieJar.new.mint keying Ticks.zero (List.replicate 2 (some (fun _ => 7)))
      (encodeAddr (specimenHost 4)) = (.ok (specimenJar,specimenCookie),[]) := rfl

theorem cookie_rejected_next_door :
    CollisionFree keying (cookieQueries keying (specimenHost 4) [1] specimenJar.secret++
      specimenJar.honoured.flatMap (cookieQueries keying (specimenHost 5) [1])) ∧
    specimenJar.verifyMac2 keying (encodeAddr (specimenHost 5)) [1]
      (mac keying specimenCookie.toList [[1]]) = false := by
  have hf : CollisionFree keying (cookieQueries keying (specimenHost 4) [1] specimenJar.secret++
      specimenJar.honoured.flatMap (cookieQueries keying (specimenHost 5) [1])) := by
    decide +kernel
  have hi := cookie_accepted_elsewhere_iff (by decide +kernel) specimenJar_mint specimenJar [1] hf
  refine ⟨hf,Bool.eq_false_iff.mpr fun h => ?_⟩
  obtain ⟨⟨⟨ip,⟨_,hb⟩ | ⟨_,ha⟩⟩,_⟩,_⟩ := hi.mp h
  · cases hb
  · cases ha

/-- A cookie for 1.2.3.4:51820 is honoured from [102:304::]:51820. -/
theorem cookie_shared_across_families :
    (specimenHost 4).ip ≠ specimenTwin.ip ∧
    CollisionFree keying (cookieQueries keying (specimenHost 4) [1] specimenJar.secret++
      specimenJar.honoured.flatMap (cookieQueries keying specimenTwin [1])) ∧
    CookieJar.new.mint keying Ticks.zero (List.replicate 2 (some (fun _ => 7)))
      (encodeAddr (specimenHost 4)) = (.ok (specimenJar,specimenCookie),[]) ∧
    specimenJar.verifyMac2 keying (encodeAddr specimenTwin) [1]
      (mac keying specimenCookie.toList [[1]]) = true :=
  ⟨by decide +kernel,by decide +kernel,specimenJar_mint,by decide +kernel⟩

theorem Tunn.decapsulate_twins {P : Primitives} (C : ChaChaImpl) (t : Tunn P) {a b : SocketAddr}
    (h : Twins a b) (datagram dst : List UInt8) (now later : Now) (rng : Entropy) :
    t.decapsulate C (some a) datagram dst now later rng =
      t.decapsulate C (some b) datagram dst now later rng := by
  have ht := (encodeAddr_eq_iff a b).mpr (Or.inr h)
  simp only [Tunn.decapsulate,Tunn.receive,Option.map_some,Option.getD_some,Option.isSome_some,ht]

end WireGuard
