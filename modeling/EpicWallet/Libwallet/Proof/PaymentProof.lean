import EpicWallet.Libwallet.PaymentProof
import EpicWallet.Libwallet.Proof.Address
import EpicWallet.Libwallet.Proof.Cancelled
import EpicWallet.Libwallet.Proof.Excess
import EpicWallet.Libwallet.Proof.FailedCalls

/-!
# Payment proofs of finalized payments

What finalizing writes in the log, exactly (`Owner.finalizeTx_proves`), and what becomes of the proof that is
then retrieved.

* `proof_accepted_iff`: the proof of a finalized payment is the same for every caller, and a wallet whose
  node knows the kernel accepts it exactly if the amount of the log entry is the one of the slate that came
  back.
-/

namespace EpicWallet

open Lib WalletBackend

/-! ## Annotating, exactly -/

section
variable {W : World}

/-- Saving an entry where it belongs. -/
theorem saveTxLogEntry_at {t : TxLogEntry} {w w' : Wallet}
    (h : Batch.saveTxLogEntry t t.parentKeyId w = (.ok (), w')) (p : Identifier) (i : Nat) :
    entryAt w'.db p i = if p = t.parentKeyId ∧ i = t.id then some t else entryAt w.db p i := by
  obtain ⟨-, rfl⟩ := put_ok.1 h
  exact entryAt_put _ _ _ _ _ _

/-- Each of the entries is annotated, and the others stay. -/
theorem saveEach_ok {f : TxLogEntry → TxLogEntry}
    (hf : ∀ t, (f t).parentKeyId = t.parentKeyId ∧ (f t).id = t.id) :
    ∀ {l : List TxLogEntry} {w w' : Wallet}, LogKeyed w.db →
      (l.Pairwise fun a b => ¬(a.parentKeyId = b.parentKeyId ∧ a.id = b.id)) →
      (∀ t ∈ l, Stored w.db t) →
      Prog.forEach l (fun t => Batch.saveTxLogEntry (f t) t.parentKeyId) w = (.ok (), w') →
      ∀ p i, entryAt w'.db p i = (entryAt w.db p i).map fun t => if t ∈ l then f t else t
  | [], w, w', _, _, _, h, p, i => by
    cases h
    simp
  | t :: l, w, w', hk, hl, hst, h, p, i => by
    obtain ⟨⟨⟩, w₁, hs, h₁⟩ := Prog.bind_ok.1 h
    obtain ⟨hfirst, hrest⟩ := List.pairwise_cons.1 hl
    have ht : entryAt w.db t.parentKeyId t.id = some t := hst t List.mem_cons_self
    have hat (q : Identifier) (j : Nat) : entryAt w₁.db q j =
        if q = t.parentKeyId ∧ j = t.id then some (f t) else entryAt w.db q j := by
      have hsave := saveTxLogEntry_at (by rwa [(hf t).1] : Batch.saveTxLogEntry (f t) (f t).parentKeyId w = _) q j
      rwa [(hf t).1, (hf t).2] at hsave
    have hk₁ : LogKeyed w₁.db := by
      intro q j t' ht'
      rw [hat] at ht'
      split_ifs at ht' with hq
      · cases ht'
        exact ⟨(hf t).1.trans hq.1.symm, (hf t).2.trans hq.2.symm⟩
      · exact hk q j t' ht'
    have hst₁ : ∀ t' ∈ l, Stored w₁.db t' := by
      intro t' ht'
      unfold Stored
      rw [hat, if_neg fun hq => hfirst t' ht' ⟨hq.1.symm, hq.2.symm⟩]
      exact hst t' (List.mem_cons_of_mem _ ht')
    rw [saveEach_ok hf hk₁ hrest hst₁ h₁ p i, hat]
    by_cases hq : p = t.parentKeyId ∧ i = t.id
    · obtain ⟨rfl, rfl⟩ := hq
      -- what was just written is not among the rest
      have hnot : f t ∉ l := fun hmem => hfirst (f t) hmem ⟨(hf t).1.symm, (hf t).2.symm⟩
      rw [if_pos ⟨rfl, rfl⟩, ht, Option.map_some, Option.map_some, if_neg hnot, if_pos List.mem_cons_self]
    · rw [if_neg hq]
      refine Option.map_congr fun t' ht' => ?_
      have hne : t' ≠ t := by
        rintro rfl
        obtain ⟨hp, hi⟩ := hk p i t' ht'
        exact hq ⟨hp.symm, hi.symm⟩
      simp [hne]

/-- All entries of the slate are annotated. -/
theorem Tx.updateEntries_ok {f : TxLogEntry → TxLogEntry}
    (hf : ∀ t, (f t).parentKeyId = t.parentKeyId ∧ (f t).id = t.id) {mask : Option SecretKey}
    {slate : Slate} {w w' : Wallet} (hk : LogKeyed w.db)
    (h : updateEntries W mask slate none f w = (.ok (), w')) (p : Identifier) (i : Nat) :
    entryAt w'.db p i =
      (entryAt w.db p i).map fun t => if t.txSlateId = some slate.id then f t else t := by
  obtain ⟨n, l, hl, hperm⟩ := retrieveTxs_perm none (some slate.id) none false w
  unfold updateEntries at h
  rw [Prog.bind_of_ok hl] at h
  dsimp only at h
  split_ifs at h with hempty
  · cases h
  obtain ⟨b, w₁, hb, h₁⟩ := Prog.bind_ok.1 h
  obtain rfl := (batch_reads W mask).eq hb
  obtain ⟨⟨⟩, w₂, hsave, h₂⟩ := Prog.bind_ok.1 h₁
  cases h₂
  have hmem (t : TxLogEntry) : t ∈ l ↔ t ∈ txLogOf w₁.db ∧ t.txSlateId = some slate.id := by
    rw [hperm.mem_iff, Updater.mem_selectedTxs]
    simp
  have hdist : l.Pairwise fun a b => ¬(a.parentKeyId = b.parentKeyId ∧ a.id = b.id) := by
    refine (hperm.pairwise_iff fun h h' => h ⟨h'.1.symm, h'.2.symm⟩).2 ?_
    exact (txLogOf_distinct hk).filter _
  have hst : ∀ t ∈ l, Stored w₁.db t := fun t ht => (mem_txLogOf_keyed hk).1 ((hmem t).1 ht).1
  rw [saveEach_ok hf hk hdist hst hsave p i]
  refine Option.map_congr fun t ht => ?_
  have hlog : t ∈ txLogOf w₁.db := mem_txLogOf_iff.2 ⟨p, i, ht⟩
  simp only [hmem, hlog, true_and]

end

/-! ## The slate that is finalized -/

/-- The fee of a transaction is that of the features of its kernels, and its commitments are those of its
inputs and outputs. -/
structure World.SumsBody (W : World) : Prop where
  fee : ∀ {tx tx' : Transaction}, tx'.kernels.map (·.features) = tx.kernels.map (·.features) →
    W.totalFee tx' = W.totalFee tx
  commitments : ∀ {tx tx' : Transaction} (overage : Int), tx'.inputs = tx.inputs →
    tx'.outputs = tx.outputs → W.sumCommitments tx' overage = W.sumCommitments tx overage

section
variable {W : World} {mask : Option SecretKey} {s s' : Slate} {w w' : Wallet}

/-- What finalizing leaves of the slate. -/
structure SameTerms (W : World) (s s' : Slate) : Prop where
  amount : s'.amount = s.amount
  paymentProof : s'.paymentProof = s.paymentProof
  excess : W.SumsBody → s'.calcExcess W = s.calcExcess W

theorem Slate.fillRound2_terms {secKey secNonce : SecretKey} {participantId : Nat}
    (h : fillRound2 W s secKey secNonce participantId w = (.ok s', w')) : SameTerms W s s' := by
  have htx := fillRound2_tx h
  obtain ⟨_, _, -, h⟩ := Prog.bind_ok.1 h
  obtain ⟨_, _, -, h⟩ := Prog.bind_ok.1 h
  obtain ⟨_, _, -, h⟩ := Prog.bind_ok.1 h
  obtain ⟨_, _, -, h⟩ := Prog.bind_ok.1 h
  obtain ⟨_, _, -, h⟩ := Prog.bind_ok.1 h
  obtain ⟨_, _, -, h⟩ := Prog.bind_ok.1 h
  obtain ⟨_, _, -, h⟩ := Prog.bind_ok.1 h
  obtain ⟨_, _, -, h⟩ := Prog.bind_ok.1 h
  cases h
  exact ⟨rfl, rfl, fun _ => calcExcess_congr htx⟩

theorem Slate.calcExcess_of_body (hW : W.SumsBody) (hoffset : s'.tx.offset = s.tx.offset)
    (hinputs : s'.tx.inputs = s.tx.inputs) (houtputs : s'.tx.outputs = s.tx.outputs)
    (hkernels : s'.tx.kernels.map (·.features) = s.tx.kernels.map (·.features)) :
    s'.calcExcess W = s.calcExcess W := by
  unfold calcExcess
  rw [hW.fee hkernels, hW.commitments _ hinputs houtputs, hoffset]

/-- The kernel gets its excess and its signature, and keeps its features. -/
theorem Slate.finalize_terms (h : finalize W s w = (.ok s', w')) : SameTerms W s s' := by
  obtain ⟨sig, _, -, h⟩ := Prog.bind_ok.1 h
  obtain ⟨_, _, -, h⟩ := Prog.bind_ok.1 h
  obtain ⟨excess, _, -, h⟩ := Prog.bind_ok.1 h
  rcases hk : s.tx.kernels with _ | ⟨kernel, _ | ⟨k, l⟩⟩
  · rw [hk] at h
    cases h
  · rw [hk] at h
    obtain ⟨_, _, -, h⟩ := Prog.bind_ok.1 h
    obtain ⟨_, _, -, h⟩ := Prog.bind_ok.1 h
    cases h
    exact ⟨rfl, rfl, fun hW => calcExcess_of_body hW rfl rfl rfl (by rw [hk]; rfl)⟩
  · rw [hk] at h
    cases h

theorem Tx.completeTx_terms {participantId : Nat} {c : Context}
    (h : completeTx W mask s participantId c w = (.ok s', w')) : SameTerms W s s' := by
  obtain ⟨_, _, -, h⟩ := Prog.bind_ok.1 h
  obtain ⟨s₁, _, hfill, h⟩ := Prog.bind_ok.1 h
  obtain ⟨_, _, -, h⟩ := Prog.bind_ok.1 h
  have hfill := Slate.fillRound2_terms hfill
  have hfin := Slate.finalize_terms h
  exact ⟨hfin.amount.trans hfill.amount, hfin.paymentProof.trans hfill.paymentProof,
    fun hW => (hfin.excess hW).trans (hfill.excess hW)⟩

end

/-! ## The proof that is stored -/

namespace Tx

variable {W : World} {mask : Option SecretKey} {c : Context} {s : Slate} {pay : PaymentInfo}

/-- The proof that the checks pass was signed by the sender's key of the context. -/
structure Proven (W : World) (mask : Option SecretKey) (parent : Identifier) (c : Context) (s : Slate)
    (pay : PaymentInfo) (excess : Commitment) (w : Wallet) (index : Nat) (key : SecretKey)
    (sig : DalekSignature) : Prop where
  derived : ∃ k, unmasked W w mask = .ok k ∧ Address.addressKey W k parent index = .ok key
  indexed : c.paymentProofDerivationIndex = some index
  sender : pay.senderAddress = W.dalekPublic key
  excessed : s.calcExcess W = .ok excess
  signed : pay.receiverSignature = some sig
  verified : W.dalekVerify pay.receiverAddress ⟨s.amount, excess, pay.senderAddress⟩ sig = true

theorem verifyProofInfo_ok {parent : Identifier} {orig : StoredProofInfo} {w w' : Wallet}
    (h : verifyProofInfo W mask parent c s pay orig w = (.ok (), w')) :
    ∃ excess index key sig, Proven W mask parent c s pay excess w index key sig := by
  obtain ⟨k, w₁, hk, h₁⟩ := Prog.bind_ok.1 h
  obtain ⟨hk, rfl⟩ := (keychain_ok W).1 hk
  obtain ⟨index, w₂, hi, h₂⟩ := Prog.bind_ok.1 h₁
  rcases hindex : c.paymentProofDerivationIndex with _ | i
  · rw [hindex] at hi
    cases hi
  rw [hindex] at hi
  cases hi
  obtain ⟨key, w₃, hkey, h₃⟩ := Prog.bind_ok.1 h₂
  rw [Address.addressFromDerivationPath_apply] at hkey
  obtain ⟨hderived, rfl⟩ := Prod.mk.inj hkey
  split_ifs at h₃ with hsender hreceiver
  · cases h₃
  · cases h₃
  obtain ⟨excess, w₄, hx, h₄⟩ := Prog.bind_ok.1 h₃
  obtain ⟨hexcess, rfl⟩ := Prog.ofExcept_eq_ok.1 hx
  rcases hsig : pay.receiverSignature with _ | sig
  · rw [hsig] at h₄
    cases h₄
  rw [hsig] at h₄
  dsimp only at h₄
  split_ifs at h₄ with hverify
  · have hsender : pay.senderAddress = W.dalekPublic key := not_not.1 hsender
    refine ⟨excess, index, key, sig, ⟨k, hk, hderived⟩, hindex, hsender, hexcess, hsig, ?_⟩
    rw [hsender]
    exact hverify
  · cases h₄

theorem verifySlatePaymentProof_ok {parent : Identifier} {w w' : Wallet}
    (hpay : s.paymentProof = some pay)
    (h : verifySlatePaymentProof W mask parent c s w = (.ok (), w')) :
    ∃ excess index key sig, Proven W mask parent c s pay excess w index key sig := by
  obtain ⟨r, w₁, hr, h₁⟩ := Prog.bind_ok.1 h
  obtain rfl := (Updater.retrieveTxs_reads _ _ _ _ _ _ _).eq hr
  rcases hl : r.2.2 with _ | ⟨tx, l⟩
  · rw [hl] at h₁
    cases h₁
  rw [hl] at h₁
  dsimp only at h₁
  rw [hpay, if_neg (by simp)] at h₁
  rcases hproof : tx.paymentProof with _ | orig
  · rw [hproof] at h₁
    cases h₁
  rw [hproof] at h₁
  exact verifyProofInfo_ok h₁

/-- The record of the finalized transaction is signed by the same key. -/
theorem signedProofInfo_ok {parent : Identifier} {excess : Commitment} {index : Nat} {key : SecretKey}
    {sig : DalekSignature} {info : StoredProofInfo} {w v v' : Wallet}
    (hproven : Proven W mask parent c s pay excess w index key sig) (hsame : SameSession w v)
    (hparent : parent = w.parentKeyId)
    (h : signedProofInfo W mask c s pay v = (.ok info, v')) :
    v' = v ∧ info = ⟨pay.receiverAddress, some sig, index, pay.senderAddress,
      some (W.dalekSign key ⟨s.amount, excess, pay.senderAddress⟩)⟩ := by
  obtain ⟨⟨k, hk, hkey⟩, hindex, hsender, hx, hsig, -⟩ := hproven
  obtain ⟨k', w₁, hk', h₁⟩ := Prog.bind_ok.1 h
  obtain ⟨hk', rfl⟩ := (keychain_ok W).1 hk'
  rw [hsame.unmasked, hk] at hk'
  cases hk'
  obtain ⟨p, w₂, hp, h₂⟩ := Prog.bind_ok.1 h₁
  cases hp
  obtain ⟨excess', w₃, hx', h₃⟩ := Prog.bind_ok.1 h₂
  obtain ⟨hx', rfl⟩ := Prog.ofExcept_eq_ok.1 hx'
  rw [hx] at hx'
  cases hx'
  obtain ⟨key', w₄, hkey', h₄⟩ := Prog.bind_ok.1 h₃
  rw [Address.addressFromDerivationPath_apply, hindex, Option.getD_some, hsame.account, ← hparent,
    hkey] at hkey'
  cases hkey'
  cases h₄
  refine ⟨rfl, ?_⟩
  rw [hsig, hindex, hsender]
  rfl

/-- What finalizing writes in the log: the excess of the kernel and the proof, in an entry of the slate. -/
theorem updateStoredTx_ok {parent : Identifier} {excess : Commitment} {index : Nat} {key : SecretKey}
    {sig : DalekSignature} {kernel : TxKernel} {w v v' : Wallet} (hk : LogKeyed v.db)
    (hpay : s.paymentProof = some pay) (hkernel : s.tx.kernels = [kernel])
    (hproven : Proven W mask parent c s pay excess w index key sig) (hsame : SameSession w v)
    (hparent : parent = w.parentKeyId)
    (h : updateStoredTx W mask c s false v = (.ok (), v')) :
    ∃ t, entryAt v.db t.parentKeyId t.id = some t ∧ t.txSlateId = some s.id ∧
      isStoredEntry false t = true ∧ ∀ p i, entryAt v'.db p i =
        if p = t.parentKeyId ∧ i = t.id then some { t with
          kernelExcess := some kernel.excess
          paymentProof := some ⟨pay.receiverAddress, some sig, index, pay.senderAddress,
            some (W.dalekSign key ⟨s.amount, excess, pay.senderAddress⟩)⟩ }
        else entryAt v.db p i := by
  obtain ⟨n, l, hl, hmem⟩ := Updater.retrieveTxs_all none (some s.id) none false none v
  unfold updateStoredTx at h
  rw [Prog.bind_of_ok hl] at h
  rcases hf : l.find? (isStoredEntry false) with _ | t
  · rw [hf] at h
    cases h
  rw [hf] at h
  obtain ⟨hlog, -, -, hslate, -⟩ := Updater.mem_selectedTxs.1 ((hmem t).1 (List.mem_of_find?_eq_some hf))
  have hslate : t.txSlateId = some s.id := hslate _ rfl
  obtain ⟨slateId, w₁, hu, h₁⟩ := Prog.bind_ok.1 h
  obtain ⟨-, rfl⟩ := Prog.unwrap_eq_ok.1 hu
  obtain ⟨⟨⟩, w₂, hst, h₂⟩ := Prog.bind_ok.1 h₁
  have hlog₂ : SameLog w₁ w₂ := (storeTx_keeps sameLog_frees W slateId s.tx).rel hst
  have hsame₂ := Trans.trans hsame ((storeTx_keeps sameSession_frees W slateId s.tx).rel hst)
  obtain ⟨kernel', w₃, hk', h₃⟩ := Prog.bind_ok.1 h₂
  obtain ⟨hk', rfl⟩ := Prog.unwrap_eq_ok.1 hk'
  rw [hkernel] at hk'
  cases hk'
  obtain ⟨t', w₄, ht', h₄⟩ := Prog.bind_ok.1 h₃
  rw [hpay] at ht'
  obtain ⟨info, w₅, hinfo, ht'⟩ := Prog.bind_ok.1 ht'
  obtain ⟨rfl, rfl⟩ := signedProofInfo_ok hproven hsame₂ hparent hinfo
  cases ht'
  obtain ⟨b, w₆, hb, h₅⟩ := Prog.bind_ok.1 h₄
  obtain rfl := (batch_reads W mask).eq hb
  obtain ⟨⟨⟩, w₇, hsave, h₆⟩ := Prog.bind_ok.1 h₅
  cases h₆
  refine ⟨t, (mem_txLogOf_keyed hk).1 hlog, hslate, List.find?_some hf, fun p i => ?_⟩
  rw [← hlog₂.entry]
  exact saveTxLogEntry_at (t := { t with
    kernelExcess := some kernel.excess
    paymentProof := some ⟨pay.receiverAddress, some sig, index, pay.senderAddress,
      some (W.dalekSign key ⟨s.amount, excess, pay.senderAddress⟩)⟩ }) hsave p i

end Tx

theorem logKeyed_of_map {d d' : Rows Key Serializable} {f : TxLogEntry → TxLogEntry}
    (hf : ∀ t, (f t).parentKeyId = t.parentKeyId ∧ (f t).id = t.id) (hk : LogKeyed d)
    (h : ∀ p i, entryAt d' p i = (entryAt d p i).map f) : LogKeyed d' := by
  intro p i t ht
  rw [h, Option.map_eq_some_iff] at ht
  obtain ⟨t₀, ht₀, rfl⟩ := ht
  obtain ⟨hp, hi⟩ := hk p i t₀ ht₀
  exact ⟨(hf t₀).1.trans hp, (hf t₀).2.trans hi⟩

/-- The entry of a payment whose proof was checked: the excess and the proof are written in it. -/
def TxLogEntry.proven (t : TxLogEntry) (kernel : TxKernel) (info : StoredProofInfo)
    (messages : ParticipantMessages) : TxLogEntry :=
  { t with
    kernelExcess := some kernel.excess
    paymentProof := some info
    messages := some messages }

/-- The record of a proof that was checked and signed for the slate. -/
structure SignedFor (W : World) (s : Slate) (pay : PaymentInfo) (excess : Commitment)
    (info : StoredProofInfo) : Prop where
  receiver : info.receiverAddress = pay.receiverAddress
  sender : info.senderAddress = pay.senderAddress
  received : ∃ sig, info.receiverSignature = some sig ∧
    W.dalekVerify pay.receiverAddress ⟨s.amount, excess, pay.senderAddress⟩ sig = true
  sent : ∃ key, pay.senderAddress = W.dalekPublic key ∧
    info.senderSignature = some (W.dalekSign key ⟨s.amount, excess, pay.senderAddress⟩)

/-- A finalization that returned, of a slate with a proof. -/
theorem Owner.finalizeTx_proves {W : World} (hW : W.SumsBody) {mask : Option SecretKey} {s s' : Slate}
    {pay : PaymentInfo} {w w' : Wallet} (hk : LogKeyed w.db) (hpay : s.paymentProof = some pay)
    (h : finalizeTx W mask s w = (.ok s', w')) :
    ∃ kernel t info, s'.tx.kernels = [kernel] ∧ SignedFor W s pay kernel.excess info ∧
      entryAt w.db t.parentKeyId t.id = some t ∧ t.txSlateId = some s.id ∧
      Tx.isStoredEntry false t = true ∧ LogKeyed w'.db ∧
      entryAt w'.db t.parentKeyId t.id = some (t.proven kernel info s'.participantMessages) := by
  obtain ⟨⟨⟩, w₁, ht, h₁⟩ := Prog.bind_ok.1 h
  obtain rfl := (checkTtl_reads s).eq ht
  obtain ⟨c, w₂, hc, h₂⟩ := Prog.bind_ok.1 h₁
  obtain rfl := (getPrivateContext_reads W _ _ _).eq hc
  obtain ⟨parent, w₃, hp, h₃⟩ := Prog.bind_ok.1 h₂
  cases hp
  obtain ⟨sl, w₄, hcomp, h₄⟩ := Prog.bind_ok.1 h₃
  obtain ⟨kernel, hkernel, hexcess⟩ := Tx.completeTx_kernel hcomp
  have hterms := Tx.completeTx_terms hcomp
  have hid := Tx.completeTx_id W hcomp
  have haside := (Tx.completeTx_aside W mask s 0 c).rel hcomp
  have hsession : SameSession w₂ w₄ := sameSession_frees.aside _ _ haside
  obtain ⟨⟨⟩, w₅, hv, h₅⟩ := Prog.bind_ok.1 h₄
  obtain rfl := (Tx.verifySlatePaymentProof_reads W _ _ _ _).eq hv
  obtain ⟨excess, index, key, sig, hproven⟩ :=
    Tx.verifySlatePaymentProof_ok (hterms.paymentProof.trans hpay) hv
  -- the proof is for the excess that the kernel has
  obtain rfl : excess = kernel.excess := by
    have hx := hproven.excessed
    rw [hterms.excess hW, hexcess] at hx
    exact (Except.ok.inj hx).symm
  obtain ⟨⟨⟩, w₆, hs, h₆⟩ := Prog.bind_ok.1 h₅
  obtain ⟨⟨⟩, w₇, hm, h₇⟩ := Prog.bind_ok.1 h₆
  obtain ⟨⟨⟩, w₈, hd, h₈⟩ := Prog.bind_ok.1 h₇
  cases h₈
  have hlog : ∀ p i, entryAt w₅.db p i = entryAt w₂.db p i := fun p i => by rw [haside.db]
  have hk₅ : LogKeyed w₅.db := haside.db ▸ hk
  obtain ⟨t, hentry, hslate, hstored, hat⟩ := Tx.updateStoredTx_ok hk₅ (hterms.paymentProof.trans hpay)
    hkernel hproven (Std.Refl.refl w₅) hsession.account.symm hs
  rw [hterms.amount] at hat
  have hk₆ : LogKeyed w₆.db := by
    intro p i t' ht'
    rw [hat] at ht'
    split_ifs at ht' with hpi
    · cases ht'
      exact ⟨hpi.1.symm, hpi.2.symm⟩
    · exact hk₅ p i t' ht'
  have hmsg := Tx.updateEntries_ok (f := fun t => { t with messages := some s'.participantMessages })
    (fun _ => ⟨rfl, rfl⟩) hk₆ hm
  have hdel : SameLog w₇ w' := (deleteContext_keeps sameLog_frees W (by decide) mask s'.id 0).rel hd
  refine ⟨kernel, t, ⟨pay.receiverAddress, some sig, index, pay.senderAddress,
      some (W.dalekSign key ⟨s.amount, kernel.excess, pay.senderAddress⟩)⟩, hkernel,
    ⟨rfl, rfl, ⟨sig, rfl, ?_⟩, key, hproven.sender, rfl⟩, ?_, hslate.trans (by rw [hid]), hstored, ?_, ?_⟩
  · rw [← hterms.amount]
    exact hproven.verified
  · rw [← hlog]
    exact hentry
  · refine logKeyed_of_map (f := fun t => if t.txSlateId = some s'.id then
      { t with messages := some s'.participantMessages } else t) (fun t => ?_) hk₆ fun p i => ?_
    · split <;> exact ⟨rfl, rfl⟩
    · rw [hdel.entry, hmsg]
  · rw [hdel.entry, hmsg, hat, if_pos ⟨rfl, rfl⟩, Option.map_some, if_pos hslate]
    rfl

/-! ## Retrieving and verifying -/

/-- A lock that nobody else waits for. -/
theorem walletLock_of_free {W : World} {w : Wallet} (hstops : W.stops w.tick = false)
    (hswitches : W.switches w.tick = []) : walletLock W w = (.ok (), { w with tick := w.tick + 1 }) := by
  unfold walletLock
  rw [Prog.bind_of_ok (nextTick_apply w), hstops, hswitches]
  rfl

theorem ofWallet_of_ok {α : Type} {p : WalletM α} {a : α} {w w' : Wallet} (h : p w = (.ok a, w')) :
    ofWallet p w = (.ok a, w') := Prog.within_of_ok h

namespace Owner

variable {W : World} {L : ProofLib} {mask : Option SecretKey}

theorem refreshIf_false (v : Wallet) : refreshIf W mask false v = (.ok false, v) := rfl

/-- The entry of the account that is active once the wallet is locked. -/
theorem retrieveTxs_of_lock (mask : Option SecretKey) {v u : Wallet} (hk : LogKeyed v.db)
    (hlock : walletLock W v = (.ok (), u)) (n : Nat) :
    ∃ r, retrieveTxs W mask false (some n) none none none none v = (.ok r, u) ∧
      r.txs = (entryAt v.db u.parentKeyId n).toList := by
  have hsame : SameLog v u := (walletLock_sameLog W).rel hlock
  have hk' : LogKeyed u.db := fun p i t ht => hk p i t (hsame.entry p i ▸ ht)
  obtain ⟨m, hone⟩ := retrieveTxs_one hk' u.parentKeyId n
  refine ⟨⟨false, ⟨m, m, 0, 0, "asc"⟩, (entryAt u.db u.parentKeyId n).toList⟩, ?_, ?_⟩
  · unfold retrieveTxs
    rw [Prog.bind_of_ok (refreshIf_false v), Prog.bind_of_ok hlock,
      Prog.bind_of_ok (show parentKeyId u = (.ok u.parentKeyId, u) from rfl), Prog.bind_of_ok hone]
    rfl
  · rw [hsame.entry]

theorem retrievePaymentProof_of_entry {v u : Wallet} (hk : LogKeyed v.db)
    (hlock : walletLock W v = (.ok (), u)) {n : Nat} {t : TxLogEntry}
    (ht : entryAt v.db u.parentKeyId n = some t) :
    retrievePaymentProof W L mask false (some n) none v = proofOfEntry L t u := by
  obtain ⟨r, hr, htxs⟩ := retrieveTxs_of_lock mask hk hlock n
  unfold retrievePaymentProof
  rw [if_neg (by simp), Prog.bind_of_ok (ofWallet_of_ok (refreshIf_false v)),
    Prog.bind_of_ok (ofWallet_of_ok hr), htxs, ht]
  rfl

/-- The proof that is retrieved for a payment. -/
def proofFor (L : ProofLib) (pay : PaymentInfo) (amount : Nat) (excess : Commitment)
    (recipientSig senderSig : DalekSignature) : PaymentProof where
  amount
  excess
  recipientAddress := Onion.onionV3FromPubkey L.toOnionLib pay.receiverAddress
  recipientSig
  senderAddress := Onion.onionV3FromPubkey L.toOnionLib pay.senderAddress
  senderSig

theorem proofOfEntry_proven {t : TxLogEntry} {kernel : TxKernel} {s : Slate} {pay : PaymentInfo}
    {info : StoredProofInfo} {messages : ParticipantMessages} {a : Nat} {rs ss : DalekSignature}
    (hsigned : SignedFor W s pay kernel.excess info) (ha : provenAmount t = some a)
    (hrs : info.receiverSignature = some rs) (hss : info.senderSignature = some ss) (u : Wallet) :
    proofOfEntry L (t.proven kernel info messages) u = (.ok (proofFor L pay a kernel.excess rs ss), u) := by
  have hamount : provenAmount (t.proven kernel info messages) = some a := ha
  unfold proofOfEntry proofFor
  rw [hamount, show (t.proven kernel info messages).paymentProof = some info from rfl,
    show (t.proven kernel info messages).kernelExcess = some kernel.excess from rfl]
  show (required _ info.receiverSignature >>= fun _ => _) u = _
  rw [hrs]
  show (required _ info.senderSignature >>= fun _ => _) u = _
  rw [hss, ← hsigned.receiver, ← hsigned.sender]
  rfl

end Owner

/-- A signature is accepted, under the public half of the key it was made with, for what was signed. -/
def World.ProofsBind (W : World) : Prop :=
  ∀ key m m', W.dalekVerify (W.dalekPublic key) m (W.dalekSign key m') = true ↔ m = m'

namespace Owner

variable {W : World} {L : ProofLib} {mask : Option SecretKey}

/-- The addresses of a proof are decoded as the keys they were made of. -/
theorem ofOnion_onion (hL : L.toOnionLib.Lawful) {key : DalekPublicKey} (hkey : L.toOnionLib.Valid key)
    (w : Wallet) : ofOnion (Onion.pubkeyFromOnionV3 L.toOnionLib
      (Onion.onionV3FromPubkey L.toOnionLib key)) w = (.ok key, w) := by
  have honion : Onion.IsOnion L.toOnionLib key (Onion.onionV3FromPubkey L.toOnionLib key) :=
    ⟨"", by simp, "", by simp, by simp [Onion.map_toLower_onion hL]⟩
  rw [Onion.pubkeyFromOnionV3_of_isOnion hL hkey honion]
  rfl

/-- The two signatures are checked against the same message. -/
theorem verifyProofSigs_iff (hL : L.toOnionLib.Lawful) (hbind : W.ProofsBind) {pay : PaymentInfo}
    (hsender : L.toOnionLib.Valid pay.senderAddress) (hreceiver : L.toOnionLib.Valid pay.receiverAddress)
    {k : Keychain} {parent : Identifier} {mine key : SecretKey} {a amount : Nat} {excess : Commitment}
    {rs : DalekSignature} (hmine : Address.addressKey W k parent 0 = .ok mine)
    (hkey : pay.senderAddress = W.dalekPublic key)
    (hrs : W.dalekVerify pay.receiverAddress ⟨amount, excess, pay.senderAddress⟩ rs = true)
    {u v' : Wallet} {r : Bool × Bool} :
    verifyProofSigs W L k parent
        (proofFor L pay a excess rs (W.dalekSign key ⟨amount, excess, pay.senderAddress⟩))
        ⟨a, excess, pay.senderAddress⟩ u = (.ok r, v') ↔
      a = amount ∧ r = (decide (W.dalekPublic mine = pay.senderAddress),
        decide (W.dalekPublic mine = pay.receiverAddress)) ∧ v' = u := by
  have hss : W.dalekVerify pay.senderAddress ⟨a, excess, pay.senderAddress⟩
      (W.dalekSign key ⟨amount, excess, pay.senderAddress⟩) = true ↔ a = amount := by
    rw [hkey, hbind]
    simp
  unfold verifyProofSigs proofFor
  dsimp only
  rw [Prog.bind_of_ok (ofOnion_onion hL hreceiver u)]
  by_cases ha : a = amount
  · subst ha
    rw [hrs, if_neg (by simp), Prog.bind_of_ok (ofOnion_onion hL hsender u), hss.2 rfl, if_neg (by simp),
      Prog.bind_of_ok (ofWallet_of_ok (by rw [Address.addressFromDerivationPath_apply, hmine]))]
    simp [eq_comm]
  · simp only [ha, false_and, iff_false]
    intro h
    split_ifs at h
    · cases h
    · rw [Prog.bind_of_ok (ofOnion_onion hL hsender u), if_pos (by simpa using fun h => ha (hss.1 h))] at h
      cases h

/-- When a wallet accepts the proof. -/
theorem verifyPaymentProof_iff (hL : L.toOnionLib.Lawful) (hbind : W.ProofsBind) {pay : PaymentInfo}
    (hsender : L.toOnionLib.Valid pay.senderAddress) (hreceiver : L.toOnionLib.Valid pay.receiverAddress)
    {k : Keychain} {mine key : SecretKey} {a amount : Nat} {excess : Commitment} {rs : DalekSignature}
    (hkey : pay.senderAddress = W.dalekPublic key)
    (hrs : W.dalekVerify pay.receiverAddress ⟨amount, excess, pay.senderAddress⟩ rs = true)
    {v u v' : Wallet} (hlock : walletLock W v = (.ok (), u)) (hk : unmasked W u mask = .ok k)
    (hmine : Address.addressKey W k u.parentKeyId 0 = .ok mine) {r : Bool × Bool} :
    verifyPaymentProof W L mask
        (proofFor L pay a excess rs (W.dalekSign key ⟨amount, excess, pay.senderAddress⟩)) v =
          (.ok r, v') ↔
      (∃ kernel, W.kernel u.tick excess none none = .ok (some kernel)) ∧ a = amount ∧
        r = (decide (W.dalekPublic mine = pay.senderAddress),
          decide (W.dalekPublic mine = pay.receiverAddress)) ∧ v' = { u with tick := u.tick + 1 } := by
  unfold verifyPaymentProof
  rw [show (proofFor L pay a excess rs (W.dalekSign key ⟨amount, excess, pay.senderAddress⟩)).senderAddress =
      Onion.onionV3FromPubkey L.toOnionLib pay.senderAddress from rfl,
    Prog.bind_of_ok (ofOnion_onion hL hsender v), Prog.bind_of_ok (ofWallet_of_ok hlock),
    Prog.bind_of_ok (ofWallet_of_ok (show parentKeyId u = (.ok u.parentKeyId, u) from rfl)),
    Prog.bind_of_ok (ofWallet_of_ok ((keychain_ok W).2 ⟨hk, rfl⟩)),
    Prog.bind_of_ok (ofWallet_of_ok (nextTick_apply u))]
  have hexcess : (proofFor L pay a excess rs
      (W.dalekSign key ⟨amount, excess, pay.senderAddress⟩)).excess = excess := rfl
  rw [hexcess]
  rcases hkernel : W.kernel u.tick excess none none with e | kernel | kernel
  · exact iff_of_false (fun h => by cases h) (fun h => by obtain ⟨⟨_, h⟩, -⟩ := h; cases h)
  · exact iff_of_false (fun h => by cases h) (fun h => by obtain ⟨⟨_, h⟩, -⟩ := h; cases h)
  · refine (verifyProofSigs_iff hL hbind hsender hreceiver hmine hkey hrs).trans ?_
    simp

end Owner

/-- The proof retrieved for a payment that was finalized: a wallet whose node knows the kernel accepts it,
exactly if the amount of the entry is that of the slate that came back. -/
theorem proof_accepted_iff {W : World} {L : ProofLib} (hL : L.toOnionLib.Lawful) (hW : W.SumsBody)
    (hbind : W.ProofsBind) {mask : Option SecretKey} {s s' : Slate} {pay : PaymentInfo} {p : Identifier}
    {n a : Nat} {w w' : Wallet} (hk : LogKeyed w.db) (hpay : s.paymentProof = some pay)
    (hsender : L.toOnionLib.Valid pay.senderAddress) (hreceiver : L.toOnionLib.Valid pay.receiverAddress)
    (hone : OnlyEntry s.id paymentTypes p n w.db) (ha : (entryAt w.db p n).bind provenAmount = some a)
    (h : Owner.finalizeTx W mask s w = (.ok s', w')) :
    ∃ kernel proof, s'.tx.kernels = [kernel] ∧
      (∀ mask' v u, v.db = w'.db → walletLock W v = (.ok (), u) → u.parentKeyId = p →
        Owner.retrievePaymentProof W L mask' false (some n) none v = (.ok proof, u)) ∧
      ∀ mask' v u k mine, walletLock W v = (.ok (), u) → unmasked W u mask' = .ok k →
        Address.addressKey W k u.parentKeyId 0 = .ok mine →
        ∀ r v', Owner.verifyPaymentProof W L mask' proof v = (.ok r, v') ↔
          (∃ found, W.kernel u.tick kernel.excess none none = .ok (some found)) ∧ a = s.amount ∧
            r = (decide (W.dalekPublic mine = pay.senderAddress),
              decide (W.dalekPublic mine = pay.receiverAddress)) ∧ v' = { u with tick := u.tick + 1 } := by
  obtain ⟨kernel, t, info, hkernel, hsigned, hentry, hslate, hstored, hk', hafter⟩ :=
    Owner.finalizeTx_proves hW hk hpay h
  -- there is no other entry that could be the one finalized
  obtain ⟨hp, hn⟩ := hone _ _ t hentry hslate (payment_stored t hstored)
  rw [hp, hn] at hentry hafter
  rw [hentry, Option.bind_some] at ha
  obtain ⟨rs, hrs, hverified⟩ := hsigned.received
  obtain ⟨key, hkey, hss⟩ := hsigned.sent
  refine ⟨kernel, _, hkernel, fun mask' v u hdb hlock hu => ?_, fun mask' v u k mine hlock hopen hmine r v' =>
    Owner.verifyPaymentProof_iff hL hbind hsender hreceiver hkey hverified hlock hopen hmine⟩
  rw [Owner.retrievePaymentProof_of_entry (hdb ▸ hk') hlock (by rw [hu, hdb]; exact hafter)]
  exact Owner.proofOfEntry_proven hsigned ha hrs hss u

/-! ## A payment of the small world with a proof -/

namespace Proving

open World

/-- What is signed, as a number. -/
def signature (key : Nat) (m : ProofMessage) : DalekSignature :=
  ⟨Nat.pair key (Nat.pair m.amount (Nat.pair m.kernelCommitment.raw m.senderAddress.raw))⟩

/-- The small world with signatures of proofs, and a node that knows every kernel. -/
def world : World :=
  { small with
    dalekSign := fun k m => signature k.raw m
    dalekVerify := fun k m sig => sig = signature k.raw m
    kernel := fun _ excess _ _ => .ok (some ⟨.plain 0, excess, ⟨0⟩⟩) }

theorem world_proofsBind : world.ProofsBind := by
  intro key m m'
  show decide (signature key.raw m' = signature key.raw m) = true ↔ m = m'
  cases m
  cases m'
  simp only [signature, decide_eq_true_eq, DalekSignature.mk.injEq, Nat.pair_eq_pair, true_and,
    ProofMessage.mk.injEq]
  constructor
  · rintro ⟨ha, hx, hs⟩
    exact ⟨ha.symm, congrArg Commitment.mk hx.symm, congrArg DalekPublicKey.mk hs.symm⟩
  · rintro ⟨rfl, rfl, rfl⟩
    exact ⟨rfl, rfl, rfl⟩

theorem world_sumsBody : world.SumsBody where
  fee {tx tx'} h := by
    have hfee : tx'.kernels.map (fun k => featuresFee k.features) =
        tx.kernels.map fun k => featuresFee k.features := by
      simpa [Function.comp_def] using congrArg (List.map featuresFee) h
    exact congrArg List.sum hfee
  commitments _ _ houtputs := by
    show Except.ok _ = Except.ok _
    rw [houtputs]

def lib : ProofLib := ⟨Onion.sample, fun _ => ""⟩

/-- The wallet that is paid. -/
def payee : Wallet := opened ⟨9⟩ 9

def sent : Except (Fault Error) Slate × Wallet :=
  Owner.initSendTx world none { payFive with paymentProofRecipientAddress := some ⟨112⟩ } funded

def offer : Slate := slateOr emptySlate sent

def locked : Except (Fault Error) Unit × Wallet := Owner.txLockOutputs world none offer 0 none sent.2

def received : Except (Fault Error) Slate × Wallet := Foreign.receiveTx world none offer none none none payee

def reply : Slate := slateOr emptySlate received

/-- The parties of the payment, with the signature of the one that is paid. -/
def pay : PaymentInfo := ⟨⟨110⟩, ⟨112⟩, some (signature 112 ⟨5, ⟨100599993⟩, ⟨110⟩⟩)⟩

def finalized : Except (Fault Error) Slate × Wallet := Owner.finalizeTx world none reply locked.2

/-- The wallet that is paid accepts the proof that the payer retrieves. -/
theorem proof_accepted_iff_small :
    ∃ proof, (Owner.retrievePaymentProof world lib none false (some 1) none finalized.2).1 = .ok proof ∧
      (Owner.verifyPaymentProof world lib none proof payee).1 = .ok (false, true) := by
  have hrows : (∀ r ∈ locked.2.db.toList, standsAtKey r = true) ∧
      ∀ r ∈ locked.2.db.toList, onlyRow reply.id paymentTypes defaultPath 1 r = true := by
    decide +kernel
  have hpay : reply.paymentProof = some pay := by decide +kernel
  have hamount : (entryAt locked.2.db defaultPath 1).bind provenAmount = some 5 := by decide +kernel
  have hvalid : lib.toOnionLib.Valid pay.senderAddress ∧ lib.toOnionLib.Valid pay.receiverAddress := by
    unfold OnionLib.Valid
    decide +kernel
  have hfin : finalized = (.ok (slateOr emptySlate finalized), finalized.2) :=
    Prog.run_eq (by decide +kernel)
  obtain ⟨kernel, proof, -, hretrieve, hverify⟩ := proof_accepted_iff (L := lib) Onion.sample_lawful
    world_sumsBody world_proofsBind (keyed_of_standsAtKey hrows.1).2 hpay hvalid.1 hvalid.2
    (onlyEntry_of_rows hrows.2) hamount hfin
  have hactive : finalized.2.parentKeyId = defaultPath := by decide +kernel
  have hsame : (5 : Nat) = reply.amount := by decide +kernel
  have hlock (w : Wallet) : walletLock world w = (.ok (), { w with tick := w.tick + 1 }) :=
    walletLock_of_free rfl rfl
  have hticked (w : Wallet) (h : w.parentKeyId = defaultPath) :
      ({ w with tick := w.tick + 1 } : Wallet).parentKeyId = defaultPath := h
  have hretrieved := hretrieve none finalized.2 _ rfl (hlock finalized.2) (hticked _ hactive)
  have haccept := hverify none payee _ ⟨9⟩ ⟨112⟩ (hlock payee) (by decide) (by decide +kernel) (false, true)
    { payee with tick := payee.tick + 2 }
  exact ⟨proof, congrArg Prod.fst hretrieved, congrArg Prod.fst (haccept.2 ⟨⟨_, rfl⟩, hsame, by decide, rfl⟩)⟩

end Proving

end EpicWallet
