import WireGuard.Relay
import WireGuard.Spacing

/-!
# The cookie dance

An end under load answers a handshake message with a cookie and keeps nothing
but the secret it was made from. The secret rotates, but the one before it still
counts, so the cookie is honoured for the lifetime that the other end may
assume.
-/

set_option autoImplicit false

namespace WireGuard
open ByteString Tunnel

variable {P : Primitives}

theorem openArray_sealed {m : ℕ} {key : Bytes 32} {nonce : Bytes 12} {aad aad' : List UInt8}
    {p q : Bytes m} (h : openArray P key nonce aad' (sealArray P key nonce aad p) = some q) :
    q = p := by
  rw [openArray_eq_some] at h
  have hself := openBytes_sealBytes P _ _ (scalar_meets P) (scalar_meets P) key nonce aad p.toList
  have hp : (sealArray P key nonce aad p).toList =
      sealBytes P (scalar P) key nonce aad p.toList := rfl
  rw [hp] at h
  unfold openBytes at h hself
  split at h
  · cases h
  rename_i hlen
  rw [if_neg hlen] at hself
  split at h
  · split at hself
    · exact toList_inj ((Option.some.inj h).symm.trans (Option.some.inj hself))
    · cases hself
  · cases h

namespace CookieJar

variable {jar jar' : CookieJar} {secret : Bytes 32} {minted now now' : Ticks}

/-- A cookie minted from `secret` no later than `minted` is still accepted, or its
lifetime is over. -/
structure Honours (jar : CookieJar) (secret : Bytes 32) (minted now : Ticks) : Prop where
  primed : jar.primed = true
  kept : jar.secret = secret ∨
    jar.hasPrevious = true ∧ jar.previous = secret ∧ minted ≤ jar.rotatedAt ∨
    cookieLifetime ≤ now.since minted

theorem Honours.mono (h : jar.Honours secret minted now) (hl : now ≤ now') :
    jar.Honours secret minted now' :=
  ⟨h.primed,h.kept.imp_right (Or.imp_right fun hc => hc.trans (Ticks.since_mono hl))⟩

theorem Honours.rotated {rng rest : Entropy} (h : jar.Honours secret minted now)
    (hm : minted ≤ now) (hr : jar.rotateIfNeeded now rng = (.ok jar',rest)) :
    jar'.Honours secret minted now := by
  unfold rotateIfNeeded at hr
  split at hr
  · rename_i hdue
    have hage : cookieLifetime ≤ now.since jar.rotatedAt := by simpa [h.primed] using hdue
    split at hr
    · cases hr
    split at hr
    · cases hr
    cases hr
    refine ⟨rfl,Or.inr ?_⟩
    rcases h.kept with hs | ⟨_,_,hrot⟩ | hc
    · exact Or.inl ⟨h.primed,hs,hm⟩
    · refine Or.inr (hage.trans ?_)
      have hrot : minted.nanos ≤ jar.rotatedAt.nanos := hrot
      unfold Ticks.since
      omega
    · exact Or.inr hc
  · cases hr
    exact h

theorem rotateIfNeeded_primed {rng rest : Entropy}
    (hr : jar.rotateIfNeeded now rng = (.ok jar',rest)) : jar'.primed = true := by
  unfold rotateIfNeeded at hr
  split at hr
  · split at hr
    · cases hr
    split at hr
    · cases hr
    cases hr
    rfl
  · rename_i hdue
    cases hr
    simp only [Bool.or_eq_true,Bool.not_eq_true'] at hdue
    by_contra hp
    exact hdue (Or.inl (by simpa using hp))

theorem Honours.verify (h : jar.Honours secret minted now)
    (hf : now.since minted < cookieLifetime) (remote beta : List UInt8) :
    jar.verifyMac2 P remote beta (mac P (mac P secret.toList [remote]).toList [beta]) = true := by
  unfold verifyMac2
  rw [h.primed]
  rcases h.kept with hs | ⟨hp,hs,_⟩ | hc
  · simp [hs,ctEq_iff]
  · simp [hp,hs,ctEq_iff]
  · exact absurd hf (not_lt.mpr hc)

end CookieJar

section Steps

variable {C : ChaChaImpl} {t t' u : Tunnel P} {op : Op} {o : Output} {secret : Bytes 32}
  {minted : Ticks}

theorem Tidied.cookie (h : Tidied t u) : u.cookie = t.cookie := by
  show u.core.cookie = t.core.cookie
  rw [h.core]

theorem Tidied.cookieJar (h : Tidied t u) : u.cookieJar = t.cookieJar := by
  show u.core.cookieJar = t.core.cookieJar
  rw [h.core]

theorem Tidied.identity (h : Tidied t u) : u.toIdentity = t.toIdentity := by
  show u.core.toIdentity = t.core.toIdentity
  rw [h.core]

theorem deed_launched {wire : List UInt8} (h : Deed C t op o t')
    (ho : o.initiation? = some wire) :
    ∃ u now index eph, Tidied (t.seen op) u ∧ u.lastNow = t'.lastNow ∧
      wire = u.withMacs u.lastNow ((u.initiationView now eph).alpha index) := by
  cases h with
  | rested hu hq hop =>
    rw [uneventful_initiation? hq] at ho
    cases ho
  | @launched _ u now index eph jitter hu ha h0 hw =>
    exact ⟨u,now,index,eph,hu,rfl,Option.some.inj (ho.symm.trans hw)⟩
  | posted s plain hu hs hc hw =>
    rw [initiation?_of_transport? hw] at ho
    cases ho
  | discarded hu hd => rcases hd with ⟨_,rfl⟩ | rfl <;> cases ho
  | abandoned hu hr => cases ho
  | received now remote underLoad datagram out rng hop hr hok => cases ho

theorem deed_cookies (h : Deed C t op o t') :
    (t'.cookieJar = t.cookieJar ∧ (t'.cookie = t.cookie ∨ op = .reset ∨
      o = .polled (.ok .sessionsExpired) ∨ o = .decapsulated (.ok .cookieStored))) ∨
    t'.cookie = t.cookie ∧ ∃ remote out rng index mac1 n,
      (buildCookieReply P t.macKeys t.cookieJar t'.lastNow rng index mac1 remote out).result =
        .ok n ∧
      t'.cookieJar =
        (buildCookieReply P t.macKeys t.cookieJar t'.lastNow rng index mac1 remote out).jar := by
  have hseen : (t.seen op).cookieJar = t.cookieJar ∧ (t.seen op).cookie = t.cookie := by
    rw [t.seen_frame]
    exact ⟨rfl,rfl⟩
  have htidy : ∀ {u}, Tidied (t.seen op) u → u.cookieJar = t.cookieJar ∧ u.cookie = t.cookie :=
    fun hu => ⟨hu.cookieJar.trans hseen.1,hu.cookie.trans hseen.2⟩
  cases h with
  | rested hu ho hop => exact Or.inl ⟨(htidy hu).1,Or.inl (htidy hu).2⟩
  | launched now index eph jitter hu ha h0 hw => exact Or.inl ⟨(htidy hu).1,Or.inl (htidy hu).2⟩
  | @posted _ u s plain hu hs hc hw =>
    have hf := commitSeal_frame u u.lastNow op.payloadLen
    exact Or.inl ⟨(congrArg Tunnel.cookieJar hf).trans (htidy hu).1,
      Or.inl ((congrArg Tunnel.cookie hf).trans (htidy hu).2)⟩
  | discarded hu ho =>
    exact Or.inl ⟨(htidy hu).1,Or.inr (ho.imp And.left Or.inl)⟩
  | abandoned hu hr => exact Or.inl ⟨(htidy hu).1,Or.inl (htidy hu).2⟩
  | received now remote underLoad datagram out rng hop hr hok =>
    subst hop
    cases hr with
    | rejected t' rest e ht =>
      obtain ⟨x,hx⟩ := hok
      cases hx
    | cookieReply index mac1 reply r hr hn hout =>
      subst hr
      exact Or.inr ⟨rfl,remote,out,rng,index,mac1,_,hn,rfl⟩
    | stored cookie => exact Or.inl ⟨rfl,Or.inr (Or.inr (Or.inr rfl))⟩
    | accepted m slot s plain hm hx hs hn ha hk ho =>
      dsimp only
      rw [commitTransport_frame]
      exact Or.inl ⟨rfl,Or.inl rfl⟩
    | _ => exact Or.inl ⟨rfl,Or.inl rfl⟩

theorem deed_honours (h : Deed C t op o t') (hm : minted ≤ t.lastNow)
    (hj : t.cookieJar.Honours secret minted t.lastNow) :
    t'.cookieJar.Honours secret minted t'.lastNow := by
  have hle : t.lastNow ≤ t'.lastNow := by
    rw [h.lastNow]
    exact t.le_seen op
  have hj := hj.mono hle
  rcases deed_cookies h with ⟨hsame,_⟩ | ⟨_,remote,out,rng,index,mac1,n,hn,hjar⟩
  · rwa [hsame]
  · obtain ⟨_,reply,_,_,jar,rest,hrot,hnext,_⟩ := buildCookieReply_ok hn
    rw [hjar,hnext]
    have hr := hj.rotated (hm.trans hle) hrot
    exact ⟨hr.primed,hr.kept⟩

variable {now : Now} {remote datagram wire out : List UInt8} {underLoad : Bool} {rng : Entropy}
  {c : CookieReply}

theorem step_minted
    (h : (step C t (.decapsulate now remote underLoad datagram out rng)).2 =
      .decapsulated (.ok (.reply wire))) (hc : parse wire = .ok (.cookieReply c)) :
    ∃ (secret : Bytes 32) (aad : List UInt8), c.encryptedCookie =
        xseal P t.macKeys.cookieSend c.nonce aad (mac P secret.toList [remote]) ∧
      (step C t (.decapsulate now remote underLoad datagram out rng)).1.cookieJar.Honours secret
        (t.observe now).lastNow (t.observe now).lastNow := by
  obtain ⟨o,hr,hs⟩ := step_receipt C t now remote datagram out underLoad rng
  rw [hs] at h ⊢
  have ho : o.result = .ok (.reply wire) := Output.decapsulated.inj h
  cases hr with
  | cookieReply index mac1 reply r hr hn hout =>
    subst hr
    obtain rfl := Received.reply.inj (Except.ok.inj ho)
    obtain ⟨_,reply',_,hout',jar,rest,hrot,hnext,henc⟩ := buildCookieReply_ok hn
    have hsame : reply'.encode = reply.encode :=
      List.append_cancel_right (hout'.symm.trans hout)
    have hreply : parse reply.encode = .ok (.cookieReply reply') :=
      parse_cookie_iff.mpr hsame.symm
    obtain rfl : c = reply' := by
      have := hc.symm.trans hreply
      simpa using this
    refine ⟨jar.secret,mac1.toList,henc,?_⟩
    show (buildCookieReply P (t.observe now).macKeys (t.observe now).cookieJar
      (t.reading now).ticks rng index mac1 remote out).jar.Honours _ _ _
    have hprimed : jar.primed = true := CookieJar.rotateIfNeeded_primed hrot
    rw [hnext]
    exact ⟨hprimed,Or.inl rfl⟩
  | answered m consumed index eph rest hm hmac hcons hts hd =>
    obtain ⟨mac2,hp⟩ := parse_response_withMacs (t.observe now) (t.reading now).ticks
      (responderView P consumed (t.observe now).psk (clampScalar eph)) index consumed.peerIndex
    rw [Received.reply.inj (Except.ok.inj ho)] at hp
    cases hp.symm.trans hc
  | accepted m slot s plain hm hx hsl hcn hage hk hopen =>
    dsimp only [delivered] at ho
    split at ho <;> cases ho
  | _ => cases ho

theorem step_stored (hc : parse datagram = .ok (.cookieReply c))
    (h : (step C t (.decapsulate now remote underLoad datagram out rng)).2 =
      .decapsulated (.ok .cookieStored)) :
    ∃ aad value, xopen P (m := 16) t.macKeys.cookieRecv c.nonce aad c.encryptedCookie =
        some value ∧
      (step C t (.decapsulate now remote underLoad datagram out rng)).1.cookie =
        some ⟨value,(t.observe now).lastNow⟩ := by
  have hopen : ∀ {m1 cookie}, (t.observe now).tryOpenCookie (t.reading now).ticks c m1 =
      some cookie → ∃ aad value, xopen P (m := 16) t.macKeys.cookieRecv c.nonce aad
        c.encryptedCookie = some value ∧ cookie = ⟨value,(t.observe now).lastNow⟩ := by
    intro m1 cookie hm
    obtain ⟨mac1,_,hv⟩ := Option.bind_eq_some_iff.mp hm
    unfold consumeCookieReply at hv
    split at hv
    · cases hv
    · rename_i value hx
      exact ⟨mac1.toList,value,hx,(Option.some.inj hv).symm⟩
  rw [step,decapsulate,clampNow_eq] at h ⊢
  dsimp only at h ⊢
  unfold decapsulateAt at h ⊢
  rw [hc] at h ⊢
  dsimp only at h ⊢
  unfold receiveCookieReply at h ⊢
  split at h
  · cases h
  rename_i hidx
  rw [if_neg hidx]
  split at h
  · rename_i cookie hor
    rcases Option.or_eq_some_iff.mp hor with hm | ⟨_,hm⟩
    · obtain ⟨aad,value,hx,rfl⟩ := hopen hm
      exact ⟨aad,value,hx,rfl⟩
    · obtain ⟨aad,value,hx,rfl⟩ := hopen hm
      exact ⟨aad,value,hx,rfl⟩
  · split at h <;> cases h

theorem consumeInitiation_ne_invalidMac1 (m : HandshakeInitiation) :
    consumeInitiation P t.constants t.localStatic t.localPublic t.peerPublic t.precomputedSs m ≠
      .error .invalidMac1 := by
  intro h
  unfold consumeInitiation sharedSecret at h
  dsimp only [bind,Except.bind] at h
  split at h
  · rename_i e he
    split at he
    · cases he
      cases h
    · cases he
  · split at h
    · cases h
    split at h
    · cases h
    split at h <;> cases h

theorem receiveInitiation_honoured (now : Now) (remote : List UInt8) (underLoad : Bool)
    (out : List UInt8) (rng : Entropy) {m : HandshakeInitiation}
    (h1 : verifyMac1 P t.macKeys m.alpha m.mac1 = true)
    (h2 : (underLoad && !t.cookieJar.verifyMac2 P remote m.beta m.mac2) = false) :
    (t.receiveInitiation now remote underLoad m out rng).result ≠ .error .invalidMac1 ∧
    ∀ wire c, (t.receiveInitiation now remote underLoad m out rng).result = .ok (.reply wire) →
      parse wire ≠ .ok (.cookieReply c) := by
  unfold receiveInitiation
  simp only [h1,h2,Bool.not_true,Bool.false_eq_true,if_false]
  cases hc : consumeInitiation P t.constants t.localStatic t.localPublic t.peerPublic
      t.precomputedSs m with
  | error e =>
    refine ⟨fun h => consumeInitiation_ne_invalidMac1 (t := t) m ?_,by simp⟩
    rw [hc,Except.error.inj h]
  | ok consumed =>
    dsimp only
    split
    · exact ⟨by simp,by simp⟩
    rw [answerInitiation_eq]
    split
    · rename_i e rest hd
      refine ⟨fun h => ?_,by simp⟩
      rw [drawHandshake_error hd] at h
      cases h
    rename_i index eph rest hd
    dsimp only
    split
    · exact ⟨by simp,by simp⟩
    split
    · exact ⟨by simp,by simp⟩
    split
    · exact ⟨by simp,by simp⟩
    refine ⟨by simp,fun wire c h hp => ?_⟩
    obtain ⟨mac2,hr⟩ := parse_response_withMacs t now.ticks
      (responderView P consumed t.psk (clampScalar eph)) index consumed.peerIndex
    rw [Received.reply.inj (Except.ok.inj h)] at hr
    cases hr.symm.trans hp

theorem step_honoured {m : HandshakeInitiation} (hm : parse datagram = .ok (.handshakeInitiation m))
    (h1 : verifyMac1 P t.macKeys m.alpha m.mac1 = true)
    (h2 : t.cookieJar.verifyMac2 P remote m.beta m.mac2 = true) :
    (step C t (.decapsulate now remote underLoad datagram out rng)).2 ≠
      .decapsulated (.error .invalidMac1) ∧
    ∀ wire c, (step C t (.decapsulate now remote underLoad datagram out rng)).2 =
      .decapsulated (.ok (.reply wire)) → parse wire ≠ .ok (.cookieReply c) := by
  obtain ⟨hr,hc⟩ := receiveInitiation_honoured (t := t.observe now) (t.reading now) remote
    underLoad out rng h1
    (by simp [show (t.observe now).cookieJar.verifyMac2 P remote m.beta m.mac2 = true from h2])
  rw [step,decapsulate,clampNow_eq]
  dsimp only
  unfold decapsulateAt
  rw [hm]
  exact ⟨fun h => hr (Output.decapsulated.inj h),
    fun wire c h => hc wire c (Output.decapsulated.inj h)⟩

end Steps

def Op.loadedFrom? : Op → Option (List UInt8)
  | .decapsulate _ remote true _ _ _ => some remote
  | _ => none

theorem loadedFrom?_some {op : Op} {remote : List UInt8} (h : op.loadedFrom? = some remote) :
    ∃ now datagram out rng, op = .decapsulate now remote true datagram out rng := by
  unfold Op.loadedFrom? at h
  split at h
  · cases h
    exact ⟨_,_,_,_,rfl⟩
  · cases h

/-- Four calls of a joint run: the end `k.other`, under load, answers a datagram
from `remote` with a cookie; `k` stores it; `k` sends an initiation while it still
has that cookie; and the initiation reaches the loaded end from `remote`. Where
the order of two calls does not matter it is left open. -/
structure Dance (h : List (Joint P)) (k : Side) (remote reply wire : List UInt8) (i j l m : ℕ)
    (y x z w : Joint P) : Prop where
  answer : h[i]? = some y
  answerInput : y.input.1 = k.other ∧ y.input.2.loadedFrom? = some remote
  answerOutput : y.output = .decapsulated (.ok (.reply reply))
  answerKind : ∃ c, parse reply = .ok (.cookieReply c)
  store : h[j]? = some x
  storeInput : x.input.1 = k ∧ x.input.2.datagram? = some reply
  storeOutput : x.output = .decapsulated (.ok .cookieStored)
  send : h[l]? = some z
  sendInput : z.input.1 = k ∧ j < l
  sendOutput : z.output.initiation? = some wire
  kept : ∀ n v, j < n → n < l → h[n]? = some v → v.input.1 = k →
    v.input.2 ≠ .reset ∧ v.output ≠ .polled (.ok .sessionsExpired) ∧
      v.output ≠ .decapsulated (.ok .cookieStored)
  deliver : h[m]? = some w
  deliverInput : w.input.1 = k.other ∧ i < m ∧ w.input.2.loadedFrom? = some remote ∧
    w.input.2.datagram? = some wire

section Dancing

variable {p : Peers P} {ops : List (Side × Op)} {k : Side} {i n : ℕ} {x y : Joint P}

theorem Crossed.cookieKey {t r : Tunnel P} (h : Crossed t r) :
    t.macKeys.cookieRecv = r.macKeys.cookieSend := by
  rw [t.macKeys_eq,r.macKeys_eq]
  simp only [MacKeys.new,h.peer]

variable {remote reply wire : List UInt8} {j l m : ℕ} {z w : Joint P}

theorem Dance.stored (d : Dance (p.run ops) k remote reply wire i j l m y x z w) :
    ∃ secret, (y.after k.other).cookieJar.Honours secret (y.after k.other).lastNow
        (y.after k.other).lastNow ∧
      (x.after k).cookie = some ⟨mac P secret.toList [remote],(x.after k).lastNow⟩ := by
  obtain ⟨hy,hload⟩ := d.answerInput
  obtain ⟨now,datagram,out,rng,hyop⟩ := loadedFrom?_some hload
  obtain ⟨hx,hxop⟩ := d.storeInput
  obtain ⟨c,hc⟩ := d.answerKind
  obtain ⟨hyo,hya⟩ := p.step_at d.answer hy
  obtain ⟨hxo,hxa⟩ := p.step_at d.store hx
  have hylast := (p.deed_at d.answer hy).lastNow
  have hxlast := (p.deed_at d.store hx).lastNow
  rw [d.answerOutput] at hyo
  rw [d.storeOutput] at hxo
  rw [hyop] at hyo hya hylast
  obtain ⟨secret,aad,hseal,hjar⟩ := step_minted hyo.symm hc
  cases hop : x.input.2 with
  | decapsulate now' remote' underLoad datagram' out' rng' =>
    rw [hop] at hxop hxo hxa hxlast
    obtain rfl : datagram' = reply := Option.some.inj hxop
    obtain ⟨aad',value,hopen,hcookie⟩ := step_stored hc hxo.symm
    have hcross : Crossed (x.before k) (y.before k.other) :=
      crossed_peers (p := p) (Side.other_other k).symm (p.before_identity d.store k)
        (p.before_identity d.answer k.other)
    rw [hseal,hcross.cookieKey] at hopen
    obtain rfl : value = _ := openArray_sealed hopen
    refine ⟨secret,?_,?_⟩
    · rw [hylast,hya]
      exact hjar
    · rw [hxlast,hxa]
      exact hcookie
  | _ =>
    rw [hop] at hxop
    cases hxop

theorem Dance.cookie_kept (d : Dance (p.run ops) k remote reply wire i j l m y x z w) :
    (z.before k).cookie = (x.after k).cookie := by
  refine p.kept_between (fun t => t.cookie = (x.after k).cookie) d.store d.send d.sendInput.2
    rfl fun n v hjn hnl hv hk hq => ?_
  obtain ⟨hreset,hwipe,hother⟩ := d.kept n v hjn hnl hv hk
  refine Eq.trans ?_ hq
  rcases deed_cookies (p.deed_at hv hk) with ⟨_,h | h | h | h⟩ | ⟨h,_⟩
  · exact h
  · exact absurd h hreset
  · exact absurd h hwipe
  · exact absurd h hother
  · exact h

theorem Dance.honoured (d : Dance (p.run ops) k remote reply wire i j l m y x z w)
    {secret : Bytes 32} (hj : (y.after k.other).cookieJar.Honours secret
      (y.after k.other).lastNow (y.after k.other).lastNow) :
    (w.before k.other).cookieJar.Honours secret (y.after k.other).lastNow
      (w.before k.other).lastNow := by
  have hinv := p.kept_between (k := k.other)
    (fun t => (y.after k.other).lastNow ≤ t.lastNow ∧
      t.cookieJar.Honours secret (y.after k.other).lastNow t.lastNow) d.answer d.deliver
    d.deliverInput.2.1 ⟨le_rfl,hj⟩ fun n v hin hnm hv hk hq => ?_
  · exact hinv.2
  · have hd := p.deed_at hv hk
    refine ⟨hq.1.trans ?_,deed_honours hd hq.1 hq.2⟩
    rw [hd.lastNow]
    exact le_seen _ _

theorem Dance.parsed (d : Dance (p.run ops) k remote reply wire i j l m y x z w)
    {secret : Bytes 32} (hx : (x.after k).cookie =
      some ⟨mac P secret.toList [remote],(x.after k).lastNow⟩)
    (hf : (z.after k).lastNow.since (x.after k).lastNow < cookieLifetime) :
    ∃ (u : Tunnel P) (v : InitiationView) (index : UInt32),
      u.toIdentity = (p.tunnel k).toIdentity ∧
      parse wire = .ok (.handshakeInitiation (v.message index
        (mac P u.macKeys.mac1Send.toList [v.alpha index])
        (mac P (mac P secret.toList [remote]).toList
          [v.alpha index ++ (mac P u.macKeys.mac1Send.toList [v.alpha index]).toList]))) := by
  obtain ⟨u,now,index,eph,hu,hlast,hwire⟩ :=
    deed_launched (p.deed_at d.send d.sendInput.1) d.sendOutput
  have hcookie : u.cookie = some ⟨mac P secret.toList [remote],(x.after k).lastNow⟩ := by
    rw [hu.cookie,(z.before k).seen_frame,← hx]
    exact d.cookie_kept
  have hid : u.toIdentity = (p.tunnel k).toIdentity := by
    rw [hu.identity,(z.before k).seen_frame]
    exact p.before_identity d.send k
  have hmac2 : ∀ beta, mac2Of P u.cookie u.lastNow beta =
      mac P (mac P secret.toList [remote]).toList [beta] := by
    intro beta
    rw [← hlast] at hf
    simp [mac2Of,hcookie,LastCookie.freshValue,hf]
  refine ⟨u,u.initiationView now eph,index,hid,?_⟩
  rw [hwire,← hmac2]
  exact parse_initiation_alpha _ _ _ _

end Dancing

/-- The loaded end lets an initiation with its cookie through. -/
theorem cookie_dance_converges (p : Peers P) (ops : List (Side × Op)) {k : Side}
    {remote reply wire : List UInt8} {i j l m : ℕ} {y x z w : Joint P}
    (d : Dance (p.run ops) k remote reply wire i j l m y x z w)
    (ha : (z.after k).lastNow.since (x.after k).lastNow < cookieLifetime)
    (hb : (w.after k.other).lastNow.since (y.after k.other).lastNow < cookieLifetime) :
    w.output ≠ .decapsulated (.error .invalidMac1) ∧
      ∀ answer c, w.output = .decapsulated (.ok (.reply answer)) →
        parse answer ≠ .ok (.cookieReply c) := by
  obtain ⟨secret,hjar,hcookie⟩ := d.stored
  obtain ⟨u,v,index,hid,hparse⟩ := d.parsed hcookie ha
  obtain ⟨hside,_,hload,hwire⟩ := d.deliverInput
  obtain ⟨now,datagram,out,rng,hop⟩ := loadedFrom?_some hload
  rw [hop] at hwire
  obtain rfl : datagram = wire := Option.some.inj hwire
  have hle : (w.before k.other).lastNow ≤ (w.after k.other).lastNow := by
    rw [(p.deed_at d.deliver hside).lastNow]
    exact le_seen _ _
  have h2 := (d.honoured hjar).verify (P := P) ((Ticks.since_mono hle).trans_lt hb) remote
    (v.alpha index ++ (mac P u.macKeys.mac1Send.toList [v.alpha index]).toList)
  have hcross : Crossed u (w.before k.other) :=
    crossed_peers (p := p) (Side.other_other k).symm hid (p.before_identity d.deliver k.other)
  rw [(p.step_at d.deliver hside).1,hop]
  exact step_honoured hparse (hcross.mac1 _) h2

/-- The specimen with macs that depend on their keys. -/
def keying : Primitives where
  __ := specimen
  keyed key l :=
    let n := (key++l).foldl (fun n b => (n*0x01000193+b.toNat+1)%2^32) 0
    List.Vector.ofFn (fun i => if i.val < 4 then UInt8.ofNat (n/256^i.val) else 0)

theorem specimenDancers_a :
    (withBackend keying (specimenConfig 1 2 none)).toOption.isSome = true := by
  decide +kernel

theorem specimenDancers_b :
    (withBackend keying (specimenConfig 2 1 none)).toOption.isSome = true := by
  decide +kernel

def specimenDancers : Peers keying where
  backend _ := scalar keying
  meets _ := scalar_meets keying
  config
    | .a => specimenConfig 1 2 none
    | .b => specimenConfig 2 1 none
  tunnel
    | .a => build keying (specimenConfig 1 2 none) specimenDancers_a
    | .b => build keying (specimenConfig 2 1 none) specimenDancers_b
  built
    | .a => withBackend_build specimenDancers_a
    | .b => withBackend_build specimenDancers_b
  crossed
    | .a => rfl
    | .b => rfl

def specimenInitiate (seconds : ℕ) (h : seconds*second ≤ u64Max) (n : ℕ) : Side × Op :=
  (.a,.initiateHandshake ⟨⟨seconds*second,h⟩,seconds,0⟩ (List.replicate 148 0)
    (List.replicate 2 (some (fun i => UInt8.ofNat (n+i)))))

def specimenPass (ops : List (Side × Op)) (n : ℕ) (k : Side) (seconds : ℕ)
    (h : seconds*second ≤ u64Max) (remote : List UInt8) : List (Side × Op) :=
  let wire := ((specimenDancers.run ops)[n]?.bind (fun x => x.output.wire?)).getD []
  ops++[(k,.decapsulate ⟨⟨seconds*second,h⟩,seconds,0⟩ remote (k = .b) wire
    (List.replicate 148 0) (List.replicate 2 (some (fun i => UInt8.ofNat (ops.length+i)))))]

/-- The jar is primed at once, the cookie is minted at 119 s, and at 121 s a copy
of the message from another address makes the secret rotate. The cookie comes
back at 200 s. -/
def specimenDance : List (Side × Op) :=
  let primed := specimenPass [specimenInitiate 0 (by decide) 20] 0 .b 0 (by decide) [1]
  let minted := specimenPass (primed++[specimenInitiate 119 (by decide) 40]) 2 .b 119 (by decide)
    [1]
  let stored := specimenPass minted 3 .a 119 (by decide) [1]
  let rotated := specimenPass stored 2 .b 121 (by decide) [2]
  specimenPass (rotated++[specimenInitiate 200 (by decide) 60]) 6 .b 200 (by decide) [1]

def specimenWire (n : ℕ) : List UInt8 :=
  ((specimenDancers.run specimenDance)[n]?.bind (fun x => x.output.wire?)).getD []

/-- The secret has rotated since the cookie was stored. -/
theorem cookie_dance_converges_specimen : ∃ y x z w,
    Dance (specimenDancers.run specimenDance) .a [1] (specimenWire 3) (specimenWire 6) 3 4 6 7
      y x z w ∧
    (x.before .b).cookieJar.rotatedAt < (w.before .b).cookieJar.rotatedAt ∧
    (w.output ≠ .decapsulated (.error .invalidMac1) ∧
      ∀ answer c, w.output = .decapsulated (.ok (.reply answer)) →
        parse answer ≠ .ok (.cookieReply c)) := by
  have h3 : (specimenDancers.run specimenDance)[3]?.map (fun x => (x.input.1,
      x.input.2.loadedFrom?,x.output,(x.after .b).lastNow.nanos)) =
      some (.b,some [1],.decapsulated (.ok (.reply (specimenWire 3))),119*second) := by
    decide +kernel
  have h4 : (specimenDancers.run specimenDance)[4]?.map (fun x => (x.input.1,
      x.input.2.datagram?,x.output,(x.after .a).lastNow.nanos,
      (x.before .b).cookieJar.rotatedAt.nanos)) =
      some (.a,some (specimenWire 3),.decapsulated (.ok .cookieStored),119*second,0) := by
    decide +kernel
  have h5 : (specimenDancers.run specimenDance)[5]?.map (fun x => x.input.1) = some .b := by
    decide +kernel
  have h6 : (specimenDancers.run specimenDance)[6]?.map (fun x => (x.input.1,
      x.output.initiation?,(x.after .a).lastNow.nanos)) =
      some (.a,some (specimenWire 6),200*second) := by decide +kernel
  have h7 : (specimenDancers.run specimenDance)[7]?.map (fun x => (x.input.1,
      x.input.2.loadedFrom?,x.input.2.datagram?,(x.after .b).lastNow.nanos,
      (x.before .b).cookieJar.rotatedAt.nanos)) =
      some (.b,some [1],some (specimenWire 6),200*second,121*second) := by decide +kernel
  obtain ⟨y,hy,ey⟩ := Option.map_eq_some_iff.mp h3
  obtain ⟨x,hx,ex⟩ := Option.map_eq_some_iff.mp h4
  obtain ⟨z,hz,ez⟩ := Option.map_eq_some_iff.mp h6
  obtain ⟨w,hw,ew⟩ := Option.map_eq_some_iff.mp h7
  simp only [Prod.mk.injEq] at ey ex ez ew
  have hkind : ∃ c, parse (specimenWire 3) = .ok (.cookieReply c) := by
    have hlen : (specimenWire 3).length = cookieReplyLen := by decide +kernel
    rcases step_reply _ _ _ _ ((specimenDancers.step_at hy rfl).1.symm.trans ey.2.2.1) with
      hc | ⟨r,hr⟩
    · exact hc
    · rw [(parse_response_iff.mp hr).1,r.encode_length] at hlen
      exact absurd hlen (by decide)
  have d : Dance (specimenDancers.run specimenDance) .a [1] (specimenWire 3) (specimenWire 6)
      3 4 6 7 y x z w := by
    refine ⟨hy,⟨ey.1,ey.2.1⟩,ey.2.2.1,hkind,hx,⟨ex.1,ex.2.1⟩,ex.2.2.1,hz,
      ⟨ez.1,by decide⟩,ez.2.1,fun n v hn hn' hv hk => ?_,hw,⟨ew.1,by decide,ew.2.1,ew.2.2.1⟩⟩
    obtain rfl : n = 5 := by omega
    rw [hv,Option.map_some,hk] at h5
    cases h5
  refine ⟨y,x,z,w,d,?_,cookie_dance_converges specimenDancers specimenDance d ?_ ?_⟩
  · rw [Ticks.lt_iff,ex.2.2.2.2,ew.2.2.2.2]
    decide
  · show (z.after .a).lastNow.nanos-(x.after .a).lastNow.nanos < cookieLifetime
    rw [ez.2.2,ex.2.2.2.1]
    decide
  · show (w.after .b).lastNow.nanos-(y.after .b).lastNow.nanos < cookieLifetime
    rw [ew.2.2.2.1,ey.2.2.2]
    decide

end WireGuard
