import EpicWallet.Lib.Triple
import EpicWallet.Libwallet.Curve
import EpicWallet.Libwallet.Tx

/-!
# The rounds of a slate

What the two rounds do to a slate, over the curve. A party joins with the elements it adds: it draws the
offset if there is none, and enters the public halves of its key and its nonce (`Joined`). Before and
after, what the outputs exceed the inputs by is the offset and the keys entered, up to a value
(`Slate.Sums`). In round 2 a party signs under the sums of all keys and nonces (`Curve.Signed`). When one
of two parties signed and the values cancel but for the fee, the other completes the transaction
(`completeTx_of_completable`).
-/

namespace EpicWallet

open Lib WalletBackend

variable {F E : Type} [CommRing F] [AddCommGroup E] [Module F E]

/-! ## The sums of a slate -/

namespace Slate

variable (C : Curve F E)

def keySum (s : Slate) : E := (s.participantData.map fun p => C.point p.publicBlindExcess).sum

def nonceSum (s : Slate) : E := (s.participantData.map fun p => C.point p.publicNonce).sum

/-- The outputs exceed the inputs by the value `v`, the offset and the keys. -/
def Sums (s : Slate) (v : Int) : Prop :=
  C.net s.tx = (v : F) • C.h + C.blind s.tx.offset • C.g + s.keySum C

end Slate

namespace Curve

variable (C : Curve F E)

/-- The entry of a party that knows the keys of the context and has not signed. -/
structure Entered (p : ParticipantData) (id : Nat) (c : Context) : Prop where
  id : p.id = id
  unsigned : p.partSig = none
  key : C.point p.publicBlindExcess = C.secret c.secKey • C.g
  nonce : C.point p.publicNonce = C.secret c.secNonce • C.g

/-- The party signed the slate, under its sums. -/
def Signed (s : Slate) (p : ParticipantData) : Prop :=
  ∃ sig, p.partSig = some sig ∧ C.sigNonce sig = C.point p.publicNonce ∧
    C.Signs sig (s.nonceSum C) (s.keySum C) (C.kernelMsg s.kernelFeatures) (C.point p.publicBlindExcess)

end Curve

/-! ## Round 1 -/

/-- `s₁` is `s` with elements of value `v` and the blinding factor `c.secKey`. -/
structure Built (C : Curve F E) (W : World) (s s₁ : Slate) (c : Context) (v : Int) : Prop where
  slateId : s₁.id = s.id
  amount : s₁.amount = s.amount
  numParticipants : s₁.numParticipants = s.numParticipants
  participantData : s₁.participantData = s.participantData
  offset : s₁.tx.offset = s.tx.offset
  kernels : s₁.tx.kernels = [W.emptyKernel s₁.kernelFeatures]
  net : C.net s₁.tx = C.net s.tx + (v : F) • C.h + C.secret c.secKey • C.g

/-- `s'` is `s` after a party joined with the keys of `c` and elements of value `v`. -/
structure Joined (C : Curve F E) (W : World) (s s' : Slate) (id : Nat) (c : Context) (v : Int) :
    Prop where
  slateId : s'.id = s.id
  amount : s'.amount = s.amount
  numParticipants : s'.numParticipants = s.numParticipants
  kernels : s'.tx.kernels = [W.emptyKernel s'.kernelFeatures]
  drawn : s.tx.offset = .zero → ∃ t, s'.tx.offset = .fromSecretKey (W.newSecretKey t)
  kept : s.tx.offset ≠ .zero → s'.tx.offset = s.tx.offset
  entry : ∃ p, s'.participantData = s.participantData ++ [p] ∧ C.Entered p id c
  sums : ∀ u, s.Sums C u → s'.Sums C (u + v)

variable {C : Curve F E} {W : World}

section
variable (hW : W.Obeys C)
include hW

theorem generateOffset_returns (s : Slate) (k : Keychain) (sec : SecretKey) :
    Prog.Returns (Slate.generateOffset W s k sec) fun r =>
      ∃ t, r.1 = { s with tx := { s.tx with offset := .fromSecretKey (W.newSecretKey t) } } ∧
        C.secret r.2 = C.secret sec - C.secret (W.newSecretKey t) := by
  unfold Slate.generateOffset
  refine .next fun t => ?_
  refine (Prog.Returns.ofExcept fun b hb => hW.blindSum k _ _ b hb).bind fun b hb => ?_
  refine (Prog.Returns.ofExcept (φ := fun sec' => C.secret sec' = C.blind b) fun sec' hsec => ?_).bind
    fun sec' hsec => .pure ⟨t, rfl, ?_⟩
  · obtain ⟨_, hk, heq⟩ := hW.secretKey b
    cases hk.symm.trans hsec
    exact heq
  · rw [hsec, hb]
    simp only [List.map_cons, List.map_nil, List.sum_cons, List.sum_nil, add_zero]
    rfl

theorem addParticipantInfo_returns (s : Slate) (c : Context) (id : Nat) (message : Option String) :
    Prog.Returns (s.addParticipantInfo W c.secKey c.secNonce id none message) fun s' =>
      ∃ p, s' = { s with participantData := s.participantData ++ [p] } ∧ C.Entered p id c := by
  unfold Slate.addParticipantInfo
  refine (Prog.Returns.ofExcept fun p hp => hW.publicKey _ p hp).bind fun key hkey => ?_
  refine (Prog.Returns.ofExcept fun p hp => hW.publicKey _ p hp).bind fun nonce hnonce => ?_
  exact .next fun messageSig => .pure ⟨_, rfl, rfl, rfl, hkey, hnonce⟩

/-- Whoever finds no offset draws one, and its key is less the offset from then on. -/
theorem fillRound1_returns {s s₁ : Slate} {c : Context} {v : Int} (hb : Built C W s s₁ c v)
    (k : Keychain) (id : Nat) (message : Option String) :
    Prog.Returns (s₁.fillRound1 W k c.secKey c.secNonce id message) fun r =>
      Joined C W s r.1 id { c with secKey := r.2 } v ∧ r.1.fee = s₁.fee := by
  unfold Slate.fillRound1
  refine Prog.Returns.bind (φ := fun r => ∃ o, r.1 = { s₁ with tx := { s₁.tx with offset := o } } ∧
    C.secret r.2 + C.blind o = C.secret c.secKey + C.blind s.tx.offset ∧
    (s.tx.offset = .zero → ∃ t, o = .fromSecretKey (W.newSecretKey t)) ∧
    (s.tx.offset ≠ .zero → o = s.tx.offset)) ?_ fun r hr => ?_
  · refine .ite (fun hz => (generateOffset_returns hW s₁ k c.secKey).mono ?_) fun hz => .pure ?_
    · rintro ⟨s₂, sec⟩ ⟨t, rfl, hsec⟩
      refine ⟨_, rfl, ?_, fun _ => ⟨t, rfl⟩, fun hne => absurd (hb.offset ▸ hz) hne⟩
      have hzero : C.blind s.tx.offset = 0 := by
        rw [← hb.offset, hz]
        exact hW.scalar_zero
      rw [hsec, hzero, add_zero]
      exact sub_add_cancel _ _
    · exact ⟨s.tx.offset, by rw [← hb.offset], rfl, fun h => absurd (hb.offset.trans h) hz, fun _ => rfl⟩
  · obtain ⟨s₂, sec⟩ := r
    obtain ⟨o, rfl, hsec, hdrawn, hkept⟩ := hr
    refine (addParticipantInfo_returns hW _ { c with secKey := sec } id message).bind fun s₃ hs₃ => .pure ?_
    obtain ⟨p, rfl, hp⟩ := hs₃
    refine ⟨⟨hb.slateId, hb.amount, hb.numParticipants, hb.kernels, hdrawn, hkept,
      ⟨p, congrArg (· ++ [p]) hb.participantData, hp⟩, fun u hu => ?_⟩, rfl⟩
    have hnet : C.net s₁.tx = C.net s.tx + (v : F) • C.h + C.secret c.secKey • C.g := hb.net
    show C.net s₁.tx = ((u + v : Int) : F) • C.h + C.blind o • C.g +
      ((s₁.participantData ++ [p]).map fun p => C.point p.publicBlindExcess).sum
    have hkey : C.point p.publicBlindExcess = C.secret sec • C.g := hp.key
    have hsum : C.net s.tx = (u : F) • C.h + C.blind s.tx.offset • C.g + s.keySum C := hu
    have hsplit : C.secret c.secKey • C.g + C.blind s.tx.offset • C.g =
        C.secret sec • C.g + C.blind o • C.g := by
      rw [← add_smul, ← add_smul, hsec]
    rw [hnet, hsum, hb.participantData, List.map_append, List.sum_append, List.map_singleton,
      List.sum_singleton, hkey, Int.cast_add, add_smul]
    unfold Slate.keySum
    calc _ = (u : F) • C.h + (v : F) • C.h +
          (s.participantData.map fun p => C.point p.publicBlindExcess).sum +
          (C.secret c.secKey • C.g + C.blind s.tx.offset • C.g) := by abel
      _ = _ := by
        rw [hsplit]
        abel

end

/-! ## Round 2 -/

namespace Slate

/-- The transaction has the kernel of the slate, and no other. -/
def OneKernel (s : Slate) : Prop := ∃ kernel, s.tx.kernels = [kernel] ∧ kernel.features = s.kernelFeatures

/-- What `check_fees` asks. -/
structure FeesOk (C : Curve F E) (s : Slate) : Prop where
  fee : C.txFee s.tx.inputs.length s.tx.outputs.length s.tx.kernels.length ≤ s.fee
  total : s.amount + s.fee < u64Size

theorem setPartSig_append {id n : Nat} {sig : Signature} {p : ParticipantData}
    {after : List ParticipantData} (hp : p.id = id) :
    ∀ {before : List ParticipantData}, (∀ q ∈ before, q.id ≠ id) → before.length < n →
      setPartSig id sig n (before ++ p :: after) =
        some (before ++ { p with partSig := some sig } :: after)
  | [], _, hn => by
    obtain ⟨n, rfl⟩ := Nat.exists_eq_add_of_lt hn
    simp [setPartSig, hp]
  | q :: before, hq, hn => by
    obtain ⟨n, rfl⟩ := Nat.exists_eq_add_of_lt hn
    have hlen : (q :: before).length + n + 1 = (before.length + 1 + n) + 1 := by
      simp only [List.length_cons]
    rw [hlen, List.cons_append, setPartSig, if_neg (hq q List.mem_cons_self),
      setPartSig_append hp (fun r hr => hq r (List.mem_cons_of_mem _ hr)) (by omega)]
    rfl

theorem signed_congr {s s' : Slate} (hn : s'.nonceSum C = s.nonceSum C) (hk : s'.keySum C = s.keySum C)
    (hf : s'.kernelFeatures = s.kernelFeatures) {p : ParticipantData} :
    C.Signed s' p ↔ C.Signed s p := by
  unfold Curve.Signed
  rw [hn, hk, hf]

section
variable (hW : W.Obeys C)
include hW

theorem totalFee_eq {s : Slate} (hk : s.OneKernel) : W.totalFee s.tx = s.fee := by
  obtain ⟨kernel, hkernels, hf⟩ := hk
  rw [hW.totalFee, hkernels, List.map_singleton, List.sum_singleton, hf, featuresFee_kernelFeatures]

theorem checkFees_ok {s : Slate} (hk : s.OneKernel) (h : s.FeesOk C) (w : Wallet) :
    checkFees W s w = (.ok (), w) := by
  have hfee := totalFee_eq hW hk
  have hle := h.fee
  rw [← hW.txFee] at hle
  unfold checkFees
  rw [hfee, if_neg (by omega), Prog.bind_of_ok (addU64_ok.2 ⟨rfl, h.total, rfl⟩), if_neg (by omega)]
  rfl

theorem feesOk_of_checkFees {s : Slate} (hk : s.OneKernel) {w w' : Wallet}
    (h : checkFees W s w = (.ok (), w')) : s.FeesOk C := by
  have hfee := totalFee_eq hW hk
  unfold checkFees at h
  split at h
  · cases h
  · next hle =>
    obtain ⟨_, _, ha, -⟩ := Prog.bind_ok.1 h
    refine ⟨?_, (addU64_ok.1 ha).2.1⟩
    rw [← hW.txFee]
    omega

theorem pubNonceSum_ok (s : Slate) :
    ∃ R, s.pubNonceSum W = .ok R ∧ C.point R = s.nonceSum C := by
  obtain ⟨R, hR, heq⟩ := hW.fromCombination (s.participantData.map (·.publicNonce))
  exact ⟨R, hR, by rw [heq, List.map_map]; rfl⟩

theorem pubBlindSum_ok (s : Slate) :
    ∃ P, s.pubBlindSum W = .ok P ∧ C.point P = s.keySum C := by
  obtain ⟨P, hP, heq⟩ := hW.fromCombination (s.participantData.map (·.publicBlindExcess))
  exact ⟨P, hP, by rw [heq, List.map_map]; rfl⟩

/-- A right signature verifies against the sums of the slate. -/
theorem verifyPartialSig_of_signed {s : Slate} {p : ParticipantData} (h : C.Signed s p) :
    ∃ sig R P, p.partSig = some sig ∧ s.pubNonceSum W = .ok R ∧ s.pubBlindSum W = .ok P ∧
      W.verifyPartialSig sig R p.publicBlindExcess P (C.kernelMsg s.kernelFeatures) = .ok () := by
  obtain ⟨R, hR, hnonce⟩ := pubNonceSum_ok hW s
  obtain ⟨P, hP, hkey⟩ := pubBlindSum_ok hW s
  obtain ⟨sig, hsig, -, hs⟩ := h
  exact ⟨sig, R, P, hsig, hR, hP, hW.verifyPartialSig _ _ _ _ _ (by rw [hnonce, hkey]; exact hs)⟩

theorem verifyPartSigs_ok {s : Slate}
    (h : ∀ p ∈ s.participantData, p.partSig = none ∨ C.Signed s p) (w : Wallet) :
    verifyPartSigs W s w = (.ok (), w) := by
  refine Prog.forEach_of_ok fun p hp => ?_
  unfold verifyPartSig
  rcases h p hp with hnone | hs
  · rw [hnone]
    rfl
  · obtain ⟨sig, R, P, hsig, hR, hP, hv⟩ := verifyPartialSig_of_signed hW hs
    have hmsg : s.msgToSign W = .ok (C.kernelMsg s.kernelFeatures) := hW.kernelSigMsg _
    rw [hsig, hR, hP, hmsg]
    show Prog.ofExcept (W.verifyPartialSig _ _ _ _ _) w = _
    rw [hv]
    rfl

/-- Round 2, once the fees pass and the parties that signed did it right. -/
theorem fillRound2_eq {s : Slate} {before after : List ParticipantData} {p : ParticipantData} {id : Nat}
    {c : Context} (hdata : s.participantData = before ++ p :: after) (hp : C.Entered p id c)
    (hbefore : ∀ q ∈ before, q.id ≠ id) (hn : before.length < s.numParticipants) :
    ∃ sig, C.Signed s { p with partSig := some sig } ∧ ∀ w w₁ w₂, checkFees W s w = (.ok (), w₁) →
      verifyPartSigs W s w₁ = (.ok (), w₂) → ∃ w', s.fillRound2 W c.secKey c.secNonce id w =
        (.ok { s with participantData := before ++ { p with partSig := some sig } :: after }, w') := by
  obtain ⟨R, hR, hnonce⟩ := pubNonceSum_ok hW s
  obtain ⟨P, hP, hkey⟩ := pubBlindSum_ok hW s
  have hmsg : s.msgToSign W = .ok (C.kernelMsg s.kernelFeatures) := hW.kernelSigMsg _
  obtain ⟨sig, hsig, hsigNonce, hsigScalar⟩ :=
    hW.calculatePartialSig c.secKey c.secNonce R P (C.kernelMsg s.kernelFeatures)
  refine ⟨sig, ⟨sig, rfl, hsigNonce.trans hp.nonce.symm, ?_⟩, fun w w₁ w₂ hfees hsigs => ?_⟩
  · show Schnorr.Verifies _ _ _ (C.point p.publicBlindExcess) _
    rw [hsigNonce, hsigScalar, hp.key, hnonce, hkey]
    exact Schnorr.verifies_sign _ _ _ _
  · unfold fillRound2
    rw [Prog.bind_of_ok hfees, Prog.bind_of_ok hsigs, hR, hP, hmsg, Prog.bind_of_ok (Prog.ofExcept_ok _ _),
      Prog.bind_of_ok (Prog.ofExcept_ok _ _), Prog.bind_of_ok (Prog.ofExcept_ok _ _), hsig,
      Prog.bind_of_ok (Prog.ofExcept_ok _ _), Prog.bind_of_ok (Prog.modify_apply _ _), hdata,
      setPartSig_append hp.id hbefore hn]
    exact ⟨_, rfl⟩

end

/-- A signature changes no sum. -/
theorem keySum_sign {s : Slate} {before after : List ParticipantData} {p : ParticipantData}
    {sig : Signature} (hdata : s.participantData = before ++ p :: after) :
    keySum C { s with participantData := before ++ { p with partSig := some sig } :: after } =
      s.keySum C := by
  unfold keySum
  rw [hdata]
  simp only [List.map_append, List.map_cons]

theorem signed_sign {s : Slate} {before after : List ParticipantData} {p : ParticipantData}
    {sig : Signature} (hdata : s.participantData = before ++ p :: after) {q : ParticipantData} :
    C.Signed { s with participantData := before ++ { p with partSig := some sig } :: after } q ↔
      C.Signed s q := by
  refine signed_congr ?_ (keySum_sign hdata) rfl
  unfold nonceSum
  rw [hdata]
  simp only [List.map_append, List.map_cons]

/-! ## Finalizing -/

/-- The signatures of parties that all signed, and their sum. -/
theorem partSigs_of_signed {s : Slate} : ∀ {l : List ParticipantData}, (∀ p ∈ l, C.Signed s p) →
    ∃ sigs, l.mapM (·.partSig) = some sigs ∧
      Schnorr.Verifies C.g (C.challenge (s.nonceSum C) (s.keySum C) (C.kernelMsg s.kernelFeatures))
        (l.map fun p => C.point p.publicNonce).sum (l.map fun p => C.point p.publicBlindExcess).sum
        (sigs.map C.sigScalar).sum
  | [], _ => by
    refine ⟨[], rfl, ?_⟩
    exact Schnorr.verifies_zero C.g _
  | p :: l, h => by
    obtain ⟨sigs, hsigs, hv⟩ := partSigs_of_signed fun q hq => h q (List.mem_cons_of_mem p hq)
    obtain ⟨sig, hsig, hnonce, hs⟩ := h p List.mem_cons_self
    refine ⟨sig :: sigs, by rw [List.mapM_cons, hsig, hsigs]; rfl, ?_⟩
    simp only [List.map_cons, List.sum_cons]
    unfold Curve.Signs at hs
    rw [hnonce] at hs
    exact hs.add hv

section
variable (hW : W.Obeys C)
include hW

/-- When all have signed, their signatures add up to one of the kernel under the sum of the keys. -/
theorem finalizeSignature_ok {s : Slate} (h : ∀ p ∈ s.participantData, C.Signed s p) (w : Wallet) :
    ∃ sig, finalizeSignature W s w = (.ok sig, w) ∧
      C.Signs sig (C.sigNonce sig) (s.keySum C) (C.kernelMsg s.kernelFeatures) (s.keySum C) := by
  obtain ⟨sigs, hsigs, hv⟩ := partSigs_of_signed h
  obtain ⟨R, hR, hnonce⟩ := pubNonceSum_ok hW s
  obtain ⟨P, hP, hkey⟩ := pubBlindSum_ok hW s
  have hmsg : s.msgToSign W = .ok (C.kernelMsg s.kernelFeatures) := hW.kernelSigMsg _
  obtain ⟨sig, hsig, hsigNonce, hsigScalar⟩ := hW.addSignatures sigs R
  have hsigns : C.Signs sig (C.sigNonce sig) (s.keySum C) (C.kernelMsg s.kernelFeatures) (s.keySum C) := by
    unfold Curve.Signs
    rw [hsigNonce, hnonce, hsigScalar]
    exact hv
  refine ⟨sig, ?_, hsigns⟩
  have hpartSigs : s.partSigs = some sigs := hsigs
  have hcompleted : W.verifyCompletedSig sig P (C.kernelMsg s.kernelFeatures) = .ok () :=
    hW.verifyCompletedSig _ _ _ (by rw [hkey]; exact hsigns)
  unfold finalizeSignature
  rw [Prog.bind_of_ok (verifyPartSigs_ok hW (fun p hp => .inr (h p hp)) w), hpartSigs, hR, hP, hmsg,
    Prog.bind_of_ok (Prog.unwrap_some _ _), Prog.bind_of_ok (Prog.ofExcept_ok _ _),
    Prog.bind_of_ok (Prog.ofExcept_ok _ _), hsig, Prog.bind_of_ok (Prog.ofExcept_ok _ _),
    Prog.bind_of_ok (Prog.ofExcept_ok _ _), hcompleted]
  rfl

/-- The excess of a transaction whose values cancel but for the fee is the sum of the keys. -/
theorem calcExcess_ok {s : Slate} (hk : s.OneKernel) (hfee : s.fee < 2 ^ 63)
    (hsums : s.Sums C (-s.fee)) : ∃ c, s.calcExcess W = .ok c ∧ C.commitPoint c = s.keySum C := by
  have hi : asI64 s.fee = (s.fee : Int) := if_pos hfee
  obtain ⟨c₁, h₁, hc₁⟩ := hW.sumCommitments s.tx (asI64 (W.totalFee s.tx))
  obtain ⟨k, hsec, hoffset⟩ := hW.secretKey s.tx.offset
  obtain ⟨c₂, h₂, hc₂⟩ := hW.commitBlind 0 k
  obtain ⟨c, h, hc⟩ := hW.commitSum [c₁] [c₂]
  refine ⟨c, ?_, ?_⟩
  · unfold calcExcess
    rw [h₁, hsec]
    show (W.commitBlind 0 k >>= fun x => W.commitSum [c₁] [x]) = _
    rw [h₂]
    exact h
  · have hnet : C.net s.tx = ((-s.fee : Int) : F) • C.h + C.blind s.tx.offset • C.g + s.keySum C := hsums
    rw [hc, List.map_singleton, List.map_singleton, List.sum_singleton, List.sum_singleton, hc₁, hc₂,
      totalFee_eq hW hk, hi, hoffset, hnet, Int.cast_neg, neg_smul, Nat.cast_zero, zero_smul]
    abel

theorem finalizeTransaction_ok {s : Slate} {sig : Signature} (hk : s.OneKernel) (hfees : s.FeesOk C)
    (hfee : s.fee < 2 ^ 63) (hsums : s.Sums C (-s.fee)) (hstd : C.standard s.tx.inputs s.tx.outputs)
    (hsig : C.Signs sig (C.sigNonce sig) (s.keySum C) (C.kernelMsg s.kernelFeatures) (s.keySum C))
    (w : Wallet) : ∃ kernels, finalizeTransaction W s sig w =
      (.ok { s with tx := { s.tx with kernels } }, w) ∧
        ∃ kernel, kernels = [kernel] ∧ kernel.features = s.kernelFeatures := by
  obtain ⟨c, hc, hexcess⟩ := calcExcess_ok hW hk hfee hsums
  have htotal := totalFee_eq hW hk
  obtain ⟨kernel, hkernels, hf⟩ := hk
  have hverify : W.verifyKernel { kernel with excess := c, excessSig := sig } = .ok () := by
    refine hW.verifyKernel _ ?_
    rw [hexcess, hf]
    exact hsig
  refine ⟨[{ kernel with excess := c, excessSig := sig }], ?_, _, rfl, hf⟩
  have hvalid : W.validate { s.tx with kernels := [{ kernel with excess := c, excessSig := sig }] } =
      .ok () := by
    refine hW.validate _ hstd (fun k hk => ?_) ?_
    · rw [List.mem_singleton.1 hk]
      exact hverify
    · have hfee' : W.totalFee { s.tx with kernels := [{ kernel with excess := c, excessSig := sig }] } =
          s.fee := by
        rw [hW.totalFee, List.map_singleton, List.sum_singleton, hf, featuresFee_kernelFeatures]
      have hnet : C.net s.tx =
          ((-s.fee : Int) : F) • C.h + C.blind s.tx.offset • C.g + s.keySum C := hsums
      show C.net s.tx + _ = _
      rw [hfee', List.map_singleton, List.sum_singleton, hexcess, hnet, Int.cast_neg, Int.cast_natCast,
        neg_smul]
      abel
  unfold finalizeTransaction
  rw [Prog.bind_of_ok (checkFees_ok hW ⟨kernel, hkernels, hf⟩ hfees w), hc,
    Prog.bind_of_ok (Prog.ofExcept_ok _ _), hkernels]
  dsimp only
  rw [hverify, Prog.bind_of_ok (Prog.ofExcept_ok _ _), hvalid]
  rfl

theorem finalize_ok {s : Slate} (hk : s.OneKernel) (hfees : s.FeesOk C) (hfee : s.fee < 2 ^ 63)
    (hsums : s.Sums C (-s.fee)) (hstd : C.standard s.tx.inputs s.tx.outputs)
    (hsigned : ∀ p ∈ s.participantData, C.Signed s p) (w : Wallet) :
    ∃ kernels, finalize W s w = (.ok { s with tx := { s.tx with kernels } }, w) ∧
      ∃ kernel, kernels = [kernel] ∧ kernel.features = s.kernelFeatures := by
  obtain ⟨sig, hsig, hkey⟩ := finalizeSignature_ok hW hsigned w
  obtain ⟨kernels, h, hkernels⟩ := finalizeTransaction_ok hW hk hfees hfee hsums hstd hkey w
  refine ⟨kernels, ?_, hkernels⟩
  unfold finalize
  rw [Prog.bind_of_ok hsig]
  exact h

end

end Slate

/-! ## Completing -/

/-- What the party with the keys of `c` needs of the other's reply to complete the transaction. -/
structure Completable (C : Curve F E) (s : Slate) (id : Nat) (c : Context) : Prop where
  kernel : s.OneKernel
  entries : ∃ p q, s.participantData = [p, q] ∧ C.Entered p id c ∧ C.Signed s q
  numParticipants : 0 < s.numParticipants
  sums : s.Sums C (-s.fee)
  fees : s.FeesOk C
  fee : s.fee < 2 ^ 63
  standard : C.standard s.tx.inputs s.tx.outputs

/-- The party completes the transaction, and every signature in it is right. -/
theorem completeTx_of_completable (hW : W.Obeys C) {s : Slate} {id : Nat} {c : Context}
    (h : Completable C s id c) {mask : Option SecretKey} {w : Wallet} {k : Keychain}
    (hk : keychain W mask w = (.ok k, w)) :
    ∃ s' w', Tx.completeTx W mask s id c w = (.ok s', w') ∧ s'.tx.offset = s.tx.offset ∧
      s'.OneKernel ∧ ∀ p ∈ s'.participantData, C.Signed s' p := by
  obtain ⟨p, q, hdata, hp, hq⟩ := h.entries
  have happend : s.participantData = [] ++ p :: [q] := hdata
  obtain ⟨sig, hsig, hround⟩ := Slate.fillRound2_eq hW happend hp (fun _ hq => by cases hq)
    h.numParticipants
  have hnone : ∀ r ∈ s.participantData, r.partSig = none ∨ C.Signed s r := by
    intro r hr
    rw [hdata] at hr
    rcases List.mem_cons.1 hr with rfl | hr
    · exact .inl hp.unsigned
    · exact .inr (List.mem_singleton.1 hr ▸ hq)
  obtain ⟨w₁, h₁⟩ := hround w w w (Slate.checkFees_ok hW h.kernel h.fees w)
    (Slate.verifyPartSigs_ok hW hnone w)
  have haside := (Slate.fillRound2_aside W s c.secKey c.secNonce id).rel h₁
  have hk₁ : keychain W mask w₁ = (.ok k, w₁) := (keychain_ok W).2
    ⟨(unmasked_congr (by rw [haside]) (by rw [haside])).trans ((keychain_ok W).1 hk).1, rfl⟩
  obtain ⟨s₁, hs₁⟩ : ∃ s₁ : Slate, s₁ =
    { s with participantData := [] ++ { p with partSig := some sig } :: [q] } := ⟨_, rfl⟩
  -- both have signed
  have hsigned : ∀ r ∈ s₁.participantData, C.Signed s₁ r := by
    intro r hr
    rw [hs₁] at hr ⊢
    rw [Slate.signed_sign happend]
    rcases List.mem_cons.1 hr with rfl | hr
    · exact hsig
    · exact List.mem_singleton.1 hr ▸ hq
  have hsums : s₁.Sums C (-s₁.fee) := by
    have hkeys : s₁.keySum C = s.keySum C := by
      rw [hs₁]
      exact Slate.keySum_sign happend
    unfold Slate.Sums
    rw [hkeys, hs₁]
    exact h.sums
  obtain ⟨kernels, hfinal, hkernels⟩ := Slate.finalize_ok hW (s := s₁) (hs₁ ▸ h.kernel)
    (hs₁ ▸ ⟨h.fees.fee, h.fees.total⟩) (hs₁ ▸ h.fee) hsums (hs₁ ▸ h.standard) hsigned w₁
  refine ⟨{ s₁ with tx := { s₁.tx with kernels } }, w₁, ?_, ?_, hkernels, fun r hr => ?_⟩
  · unfold Tx.completeTx
    rw [Prog.bind_of_ok hk, Prog.bind_of_ok h₁, Prog.bind_of_ok hk₁, ← hs₁]
    exact hfinal
  · rw [hs₁]
  · exact hsigned r hr

end EpicWallet
