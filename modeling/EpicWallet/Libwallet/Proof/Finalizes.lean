import EpicWallet.Libwallet.Proof.Exchange
import EpicWallet.Libwallet.Proof.Rounds

/-!
# An honest exchange finalizes

Two wallets pass a slate to each other, unmodified: one starts (`Offered`), the other replies and signs
(`Answered`), and the first completes the transaction. In the send flow the payer starts, in the invoice
flow the payee. If the inputs of the payer's context are the amount, the fee and its change, then
whatever the outputs selected the completion succeeds (`finalizes_of_exchanged`).
-/

namespace EpicWallet

open Lib WalletBackend

variable {F E : Type} [CommRing F] [AddCommGroup E] [Module F E] {C : Curve F E} {W : World}

/-! ## Offer and answer -/

/-- The slate of the party that started with the keys of `c` and elements of value `v`. -/
structure Offered (C : Curve F E) (W : World) (s : Slate) (id : Nat) (c : Context) (v : Int) : Prop where
  numParticipants : s.numParticipants = 2
  offset : ∃ t, s.tx.offset = .fromSecretKey (W.newSecretKey t)
  entry : ∃ p, s.participantData = [p] ∧ C.Entered p id c
  sums : s.Sums C v

/-- The slate `r` of the party that answered `s` with elements of value `v` and signed. -/
structure Answered (C : Curve F E) (s r : Slate) (v : Int) : Prop where
  slateId : r.id = s.id
  amount : r.amount = s.amount
  numParticipants : r.numParticipants = s.numParticipants
  kernel : r.OneKernel
  offset : r.tx.offset = s.tx.offset
  entry : ∃ q, r.participantData = s.participantData ++ [q] ∧ C.Signed r q
  sums : ∀ u, s.Sums C u → r.Sums C (u + v)
  fees : r.FeesOk C

theorem Offered.offset_ne (hW : W.Obeys C) {s : Slate} {id : Nat} {c : Context} {v : Int}
    (h : Offered C W s id c v) : s.tx.offset ≠ .zero := by
  obtain ⟨t, ht⟩ := h.offset
  rw [ht]
  intro hz
  have hraw : (W.newSecretKey t).raw = 0 := congrArg (fun b : BlindingFactor => b.raw) hz
  refine hW.newSecretKey t ?_
  rcases hk : W.newSecretKey t with ⟨n⟩
  rw [hk] at hraw
  exact congrArg SecretKey.mk hraw

theorem Offered.others {s : Slate} {id j : Nat} {c : Context} {v : Int} (h : Offered C W s id c v)
    (hne : id ≠ j) : (∀ p ∈ s.participantData, p.id ≠ j) ∧
      s.participantData.length < s.numParticipants := by
  obtain ⟨p, hp, hentered⟩ := h.entry
  rw [hp, h.numParticipants]
  refine ⟨fun q hq => ?_, Nat.one_lt_two⟩
  rw [List.mem_singleton.1 hq, hentered.id]
  exact hne

/-- An answer to an offer can be completed, if the values of both cancel but for the fee. -/
theorem completable_of_answered {s r : Slate} {id : Nat} {c : Context} {u v : Int}
    (ho : Offered C W s id c u) (ha : Answered C s r v) (hfee : r.fee < 2 ^ 63)
    (hv : u + v = -r.fee) (hstd : C.standard r.tx.inputs r.tx.outputs) : Completable C r id c := by
  obtain ⟨p, hp, hentered⟩ := ho.entry
  obtain ⟨q, hq, hsigned⟩ := ha.entry
  refine ⟨ha.kernel, ⟨p, q, ?_, hentered, hsigned⟩, ?_, hv ▸ ha.sums u ho.sums, ha.fees, hfee, hstd⟩
  · rw [hq, hp]
    rfl
  · rw [ha.numParticipants, ho.numParticipants]
    exact Nat.two_pos

section
variable (hW : W.Obeys C)
include hW

theorem Joined.oneKernel {s s' : Slate} {id : Nat} {c : Context} {v : Int}
    (h : Joined C W s s' id c v) : s'.OneKernel :=
  ⟨_, h.kernels, hW.emptyKernel _⟩

/-- The party that joined second signs. -/
theorem fillRound2_answers {s s₁ : Slate} {id : Nat} {c : Context} {v : Int}
    (hj : Joined C W s s₁ id c v) (hoffset : s.tx.offset ≠ .zero)
    (hids : ∀ p ∈ s.participantData, p.id ≠ id) (hn : s.participantData.length < s.numParticipants) :
    Prog.Returns (s₁.fillRound2 W c.secKey c.secNonce id) fun r => Answered C s r v ∧ r.fee = s₁.fee := by
  intro w r w' h
  obtain ⟨q, hdata, hq⟩ := hj.entry
  obtain ⟨sig, hsig, hround⟩ :=
    Slate.fillRound2_eq hW hdata hq hids (by rw [hj.numParticipants]; exact hn)
  obtain ⟨⟨⟩, w₁, hfees, h₁⟩ := Prog.bind_ok.1 h
  obtain ⟨⟨⟩, w₂, hsigs, -⟩ := Prog.bind_ok.1 h₁
  obtain ⟨w₃, heq⟩ := hround w w₁ w₂ hfees hsigs
  cases heq.symm.trans h
  have hk := hj.oneKernel hW
  have hf := Slate.feesOk_of_checkFees hW hk hfees
  refine ⟨⟨hj.slateId, hj.amount, hj.numParticipants, hk, hj.kept hoffset,
    ⟨{ q with partSig := some sig }, rfl, (Slate.signed_sign hdata).2 hsig⟩, fun u hu => ?_, ⟨hf.fee, hf.total⟩⟩,
    rfl⟩
  have hsums := hj.sums u hu
  unfold Slate.Sums at hsums ⊢
  rw [Slate.keySum_sign hdata]
  exact hsums

/-! ## The payer's part -/

theorem addTransactionElements_returns (s : Slate) (k : Keychain) (elems : List Append) {s' : Slate}
    {b : BlindingFactor} (h : s.addTransactionElements W k elems = .ok (s', b)) :
    ∃ tx, s' = { s with tx } ∧ tx.offset = s.tx.offset ∧ tx.kernels = [W.emptyKernel s.kernelFeatures] ∧
      C.net tx = C.net s.tx + (netValue elems : F) • C.h + C.blind b • C.g := by
  unfold Slate.addTransactionElements at h
  dsimp only at h
  rcases ht : W.partialTransaction (s.updateKernel W).tx elems k with e | ⟨tx, b'⟩
  · rw [ht] at h
    cases h
  · rw [ht] at h
    cases h
    obtain ⟨hoffset, hkernels, hnet⟩ := hW.partialTransaction _ _ _ _ _ ht
    exact ⟨tx, rfl, hoffset, hkernels, hnet⟩

theorem newContext_returns (b : BlindingFactor) (parent : Identifier) (id : Nat) :
    Prog.Returns (Selection.newContext W b parent id) fun c =>
      C.secret c.secKey = C.blind b ∧ c.inputIds = [] ∧ c.outputIds = [] := by
  refine (Prog.Returns.ofExcept (φ := fun k => C.secret k = C.blind b) fun k hk => ?_).orPanic.bind
    fun k hk => .next fun t => .pure ⟨hk, rfl, rfl⟩
  obtain ⟨k', hk', heq⟩ := hW.secretKey b
  cases hk'.symm.trans hk
  exact heq

end

def Context.inputTotal (c : Context) : Nat := (c.inputIds.map (·.2.2)).sum

def Context.outputTotal (c : Context) : Nat := (c.outputIds.map (·.2.2)).sum

/-- The value the elements of a context add to a transaction. -/
def Context.value (c : Context) : Int := (c.outputTotal : Int) - c.inputTotal

/-- The fee is one of the library's. -/
def FeeOf (W : World) (fee : Nat) : Prop := ∃ i o k, fee = W.txFee i o k

theorem selectMore_returns (amount height minimumConfirmations maxOutputs numOutputs : Nat)
    (selectAll : Bool) (parent : Identifier) :
    ∀ (rounds : Nat) (coins : List OutputData) (total amountWithFee fee : Nat), FeeOf W fee →
      Prog.Returns (Selection.selectMore W amount height minimumConfirmations maxOutputs numOutputs
        selectAll parent rounds coins total amountWithFee fee) fun r => FeeOf W r.2.2
  | rounds, coins, total, amountWithFee, fee, hfee => by
    unfold Selection.selectMore
    refine .ite (fun _ => ?_) fun _ => .pure hfee
    cases rounds with
    | zero => exact .panic
    | succ rounds =>
      refine .ite (fun _ => .throw _) fun _ => .next fun r => .next fun total => .next fun needed => ?_
      exact selectMore_returns amount height minimumConfirmations maxOutputs numOutputs selectAll parent
        rounds _ _ _ _ ⟨_, _, _, rfl⟩

theorem selectCoinsAndFee_returns (amount height minimumConfirmations maxOutputs changeOutputs : Nat)
    (selectAll : Bool) (parent : Identifier) :
    Prog.Returns (Selection.selectCoinsAndFee W amount height minimumConfirmations maxOutputs
      changeOutputs selectAll parent) fun r => FeeOf W r.2.2.2 := by
  unfold Selection.selectCoinsAndFee
  refine .next fun r => .next fun total => .next fun needed => ?_
  refine .ite (fun _ => .throw _) fun _ => .ite (fun _ => .throw _) fun _ => .ite (fun _ => ?_) fun _ => ?_
  · exact .pure ⟨_, _, _, rfl⟩
  · refine .next fun needed => ?_
    exact (selectMore_returns _ _ _ _ _ _ _ _ _ _ _ _ ⟨_, _, _, rfl⟩).bind fun r hr => .pure hr

/-- The elements of a send: its coins and its change. -/
def sendElems (coins : List OutputData) (change : List (Nat × Identifier × Option Nat)) : List Append :=
  coins.map Selection.inputPart ++ change.map fun a => .output a.1 a.2.1

theorem inputsAndChange_returns (coins : List OutputData) (mask : Option SecretKey)
    (amount fee n : Nat) : Prog.Returns (Selection.inputsAndChange W coins mask amount fee n) fun r =>
      r.1 = sendElems coins r.2 := by
  unfold Selection.inputsAndChange
  refine .next fun total => .next fun change => .next fun change => ?_
  refine .ite (fun _ => .pure (List.append_nil _).symm) fun _ => .ite (fun _ => .panic) fun _ => ?_
  exact .next fun amounts => .pure rfl

theorem selectSendTx_returns (mask : Option SecretKey)
    (amount height minimumConfirmations maxOutputs changeOutputs : Nat) (selectAll : Bool)
    (parent : Identifier) :
    Prog.Returns (Selection.selectSendTx W mask amount height minimumConfirmations maxOutputs
      changeOutputs selectAll parent) fun r => r.1 = sendElems r.2.1 r.2.2.1 ∧ FeeOf W r.2.2.2 := by
  unfold Selection.selectSendTx
  refine (selectCoinsAndFee_returns _ _ _ _ _ _ _).bind fun r hr => ?_
  exact (inputsAndChange_returns _ _ _ _ _).bind fun _ he => .pure ⟨he, hr⟩

theorem netValue_append (l l' : List Append) : netValue (l ++ l') = netValue l + netValue l' := by
  unfold netValue
  rw [List.map_append, List.sum_append]

theorem netValue_inputs : ∀ coins : List OutputData,
    netValue (coins.map Selection.inputPart) = -(((coins.map (·.value)).sum : Nat) : Int)
  | [] => rfl
  | o :: coins => by
    have hcons : netValue ((o :: coins).map Selection.inputPart) =
        (Selection.inputPart o).value + netValue (coins.map Selection.inputPart) := rfl
    have hpart : (Selection.inputPart o).value = -(o.value : Int) := by
      unfold Selection.inputPart
      split <;> rfl
    rw [hcons, hpart, netValue_inputs coins, List.map_cons, List.sum_cons]
    omega

theorem netValue_outputs : ∀ change : List (Nat × Identifier × Option Nat),
    netValue (change.map fun a => .output a.1 a.2.1) = (((change.map (·.1)).sum : Nat) : Int)
  | [] => rfl
  | a :: change => by
    have hcons : netValue ((a :: change).map fun a => .output a.1 a.2.1) =
        (a.1 : Int) + netValue (change.map fun a => .output a.1 a.2.1) := rfl
    rw [hcons, netValue_outputs change, List.map_cons, List.sum_cons, Nat.cast_add]

/-- The context records what the elements are worth. -/
theorem netValue_sendElems (c : Context) (fee : Nat) (coins : List OutputData)
    (change : List (Nat × Identifier × Option Nat)) (hin : c.inputIds = []) (hout : c.outputIds = []) :
    netValue (sendElems coins change) = (Selection.contextOf c fee coins change).value := by
  have hinputs : (Selection.contextOf c fee coins change).inputTotal = (coins.map (·.value)).sum := by
    rw [Selection.contextOf_eq]
    unfold Context.inputTotal
    rw [hin, List.nil_append, List.map_map]
    rfl
  have houtputs : (Selection.contextOf c fee coins change).outputTotal = (change.map (·.1)).sum := by
    rw [Selection.contextOf_eq]
    unfold Context.outputTotal
    rw [hout, List.nil_append, List.map_map]
    rfl
  unfold sendElems Context.value
  rw [netValue_append, netValue_inputs, netValue_outputs, hinputs, houtputs]
  omega

section
variable (hW : W.Obeys C)
include hW

theorem buildSendTx_returns (k : Keychain) (mask : Option SecretKey) (s : Slate)
    (minimumConfirmations maxOutputs changeOutputs : Nat) (selectAll : Bool) (parent : Identifier) :
    Prog.Returns (Selection.buildSendTx W k mask s minimumConfirmations maxOutputs changeOutputs
      selectAll parent) fun r => Built C W s r.1 r.2 r.2.value ∧ r.1.fee < 2 ^ 63 := by
  unfold Selection.buildSendTx
  refine (selectSendTx_returns _ _ _ _ _ _ _ _).bind fun r hr => ?_
  obtain ⟨elems, coins, change, fee⟩ := r
  dsimp only at hr ⊢
  obtain ⟨rfl, i, o, n, rfl⟩ := hr
  refine (Prog.Returns.ofExcept fun r hr => addTransactionElements_returns hW _ k _ hr).bind fun r hr => ?_
  obtain ⟨s', b⟩ := r
  obtain ⟨tx, rfl, hoffset, hkernels, hnet⟩ := hr
  refine (newContext_returns hW b parent 0).bind fun c hc => .next fun _ => .pure ⟨⟨rfl, rfl, rfl, rfl,
    hoffset, hkernels, ?_⟩, hW.txFee_lt _ _ _⟩
  have hkey : (Selection.contextOf c (W.txFee i o n) coins change).secKey = c.secKey := by
    rw [Selection.contextOf_eq]
  rw [← netValue_sendElems c (W.txFee i o n) coins change hc.2.1 hc.2.2, hkey, hc.1]
  exact hnet

/-- The payer joins. -/
theorem addInputsToSlate_joins (mask : Option SecretKey) (s : Slate)
    (minimumConfirmations maxOutputs changeOutputs : Nat) (selectAll : Bool) (parent : Identifier)
    (message : Option String) :
    Prog.Returns (Tx.addInputsToSlate W mask s minimumConfirmations maxOutputs changeOutputs selectAll
      parent 0 message true) fun r => Joined C W s r.1 0 r.2 r.2.value ∧ r.1.fee < 2 ^ 63 := by
  unfold Tx.addInputsToSlate
  refine .next fun _ => .next fun k => (buildSendTx_returns hW k mask s _ _ _ _ _).bind fun r hr => ?_
  refine .next fun k' => (fillRound1_returns hW hr.1 k' 0 message).bind fun r' hr' => .pure ⟨hr'.1, ?_⟩
  rw [hr'.2]
  exact hr.2

/-- The payer answers an invoice. -/
theorem addInputsToSlate_answers (mask : Option SecretKey) {s : Slate}
    (minimumConfirmations maxOutputs changeOutputs : Nat) (selectAll : Bool) (parent : Identifier)
    (message : Option String) (hoffset : s.tx.offset ≠ .zero) (hids : ∀ p ∈ s.participantData, p.id ≠ 0)
    (hn : s.participantData.length < s.numParticipants) :
    Prog.Returns (Tx.addInputsToSlate W mask s minimumConfirmations maxOutputs changeOutputs selectAll
      parent 0 message false) fun r => Answered C s r.1 r.2.value ∧ r.1.fee < 2 ^ 63 := by
  unfold Tx.addInputsToSlate
  refine .next fun _ => .next fun k => (buildSendTx_returns hW k mask s _ _ _ _ _).bind fun r hr => ?_
  refine .next fun k' => (fillRound1_returns hW hr.1 k' 0 message).bind fun r' hr' => .next fun _ => ?_
  refine (fillRound2_answers hW hr'.1 hoffset hids hn).bind fun s' hs' => .pure ⟨hs'.1, ?_⟩
  rw [hs'.2, hr'.2]
  exact hr.2

/-! ## The payee's part -/

theorem buildRecipientOutput_returns (mask : Option SecretKey) (s : Slate) (parent : Identifier) :
    Prog.Returns (Selection.buildRecipientOutput W mask s parent) fun r =>
      Built C W s r.1 r.2.2 s.amount ∧ r.1.fee = s.fee := by
  unfold Selection.buildRecipientOutput
  refine .next fun id => .next fun k => ?_
  refine (Prog.Returns.ofExcept fun r hr => addTransactionElements_returns hW _ k _ hr).bind fun r hr => ?_
  obtain ⟨s', b⟩ := r
  obtain ⟨tx, rfl, hoffset, hkernels, hnet⟩ := hr
  refine .next fun _ => (newContext_returns hW b parent 1).bind fun c hc => ?_
  refine .next fun _ => .next fun _ => .next fun _ => .next fun _ => .next fun _ => .next fun _ =>
    .next fun _ => .pure ⟨⟨rfl, rfl, rfl, rfl, hoffset, hkernels, ?_⟩, rfl⟩
  have hvalue : netValue [.output s.amount id] = (s.amount : Int) := rfl
  rw [hvalue] at hnet
  show C.net tx = _ + C.secret c.secKey • C.g
  rw [hc.1]
  exact hnet

/-- The payee joins. -/
theorem addOutputToSlate_joins (mask : Option SecretKey) (s : Slate) (parent : Identifier)
    (id : Nat) (message : Option String) :
    Prog.Returns (Tx.addOutputToSlate W mask s parent id message true) fun r =>
      Joined C W s r.1 1 r.2 s.amount := by
  unfold Tx.addOutputToSlate
  refine (buildRecipientOutput_returns hW mask s parent).bind fun r hr => .next fun k => ?_
  exact (fillRound1_returns hW hr.1 k 1 message).bind fun r' hr' => .pure hr'.1

/-- The payee answers a send. -/
theorem addOutputToSlate_answers (mask : Option SecretKey) {s : Slate} (parent : Identifier)
    (message : Option String) (hoffset : s.tx.offset ≠ .zero) (hids : ∀ p ∈ s.participantData, p.id ≠ 1)
    (hn : s.participantData.length < s.numParticipants) :
    Prog.Returns (Tx.addOutputToSlate W mask s parent 1 message false) fun r =>
      Answered C s r.1 s.amount ∧ r.1.fee = s.fee := by
  unfold Tx.addOutputToSlate
  refine (buildRecipientOutput_returns hW mask s parent).bind fun r hr => .next fun k => ?_
  refine (fillRound1_returns hW hr.1 k 1 message).bind fun r' hr' => .next fun _ => ?_
  refine (fillRound2_answers hW hr'.1 hoffset hids hn).bind fun s' hs' => .pure ⟨hs'.1, ?_⟩
  rw [hs'.2, hr'.2, hr.2]

end

/-! ## The operations -/

/-- The slates agree on all that the rounds are about. -/
structure Alike (s s' : Slate) : Prop where
  slateId : s'.id = s.id
  tx : s'.tx = s.tx
  participantData : s'.participantData = s.participantData
  numParticipants : s'.numParticipants = s.numParticipants
  amount : s'.amount = s.amount
  fee : s'.fee = s.fee
  lockHeight : s'.lockHeight = s.lockHeight

theorem alike_withOrigVersion (s : Slate) (v : Option Nat) : Alike s (withOrigVersion s v) := by
  cases v <;> exact ⟨rfl, rfl, rfl, rfl, rfl, rfl, rfl⟩

theorem Alike.sums {s s' : Slate} (h : Alike s s') {v : Int} : s'.Sums C v ↔ s.Sums C v := by
  unfold Slate.Sums Slate.keySum
  rw [h.tx, h.participantData]

theorem Alike.offered {s s' : Slate} {id : Nat} {c c' : Context} {v : Int} (h : Alike s s')
    (hkey : c'.secKey = c.secKey) (hnonce : c'.secNonce = c.secNonce) (ho : Offered C W s id c v) :
    Offered C W s' id c' v := by
  obtain ⟨p, hp, he⟩ := ho.entry
  exact ⟨h.numParticipants.trans ho.numParticipants, h.tx ▸ ho.offset,
    ⟨p, h.participantData.trans hp, he.id, he.unsigned, hkey ▸ he.key, hnonce ▸ he.nonce⟩,
    h.sums.2 ho.sums⟩

/-- What was offered may differ from what is answered in its heights. -/
theorem Alike.answered_left {s s' r : Slate} {v : Int} (h : Alike s s') (ha : Answered C s' r v) :
    Answered C s r v :=
  ⟨ha.slateId.trans h.slateId, ha.amount.trans h.amount, ha.numParticipants.trans h.numParticipants, ha.kernel,
    ha.offset.trans (by rw [h.tx]), h.participantData ▸ ha.entry, fun u hu => ha.sums u (h.sums.2 hu),
    ha.fees⟩

theorem Alike.answered_right {s r r' : Slate} {v : Int} (h : Alike r r') (ha : Answered C s r v) :
    Answered C s r' v := by
  have hfeatures : r'.kernelFeatures = r.kernelFeatures := by
    unfold Slate.kernelFeatures
    rw [h.lockHeight, h.fee]
  obtain ⟨q, hq, hsigned⟩ := ha.entry
  refine ⟨h.slateId.trans ha.slateId, h.amount.trans ha.amount,
    h.numParticipants.trans ha.numParticipants, ?_, h.tx ▸ ha.offset, ⟨q, h.participantData.trans hq, ?_⟩, fun u hu => h.sums.2 (ha.sums u hu), ?_⟩
  · unfold Slate.OneKernel
    rw [h.tx, hfeatures]
    exact ha.kernel
  · refine (Slate.signed_congr ?_ ?_ hfeatures).2 hsigned
    · unfold Slate.nonceSum
      rw [h.participantData]
    · unfold Slate.keySum
      rw [h.participantData]
  · obtain ⟨hfee, htotal⟩ := ha.fees
    constructor
    · rw [h.tx, h.fee]
      exact hfee
    · rw [h.amount, h.fee]
      exact htotal

/-- The wallet is the same, and its context for the slate is still there. -/
structure Kept (slateId : Uuid) (participantId : Nat) (w w' : Wallet) : Prop where
  context : w'.db.get (.privateTxContext slateId participantId) =
    w.db.get (.privateTxContext slateId participantId)
  keychain : w'.keychain = w.keychain
  masterChecksum : w'.masterChecksum = w.masterChecksum

theorem xorContext_xorContext (c : Context) (keys : Nat × Nat) :
    xorContext (xorContext c keys) keys = c := by
  unfold xorContext
  simp only [Nat.xor_assoc, Nat.xor_self, Nat.xor_zero]

/-- A context saved is the one read later. -/
theorem getPrivateContext_of_saveContext {mask : Option SecretKey} {slateId : Uuid} {id : Nat}
    {c : Context} {w w₁ w₂ : Wallet} (h : Owner.saveContext W mask slateId id c w = (.ok (), w₁))
    (hkept : Kept slateId id w₁ w₂) :
    (∃ k, keychain W mask w₂ = (.ok k, w₂)) ∧
      getPrivateContext W mask slateId id w₂ = (.ok c, w₂) := by
  obtain ⟨b, w₀, hb, h'⟩ := Prog.bind_ok.1 h
  obtain ⟨⟨k, hk, rfl⟩, rfl⟩ := (batch_ok W).1 hb
  obtain ⟨⟨⟩, w₃, hs, hc⟩ := Prog.bind_ok.1 h'
  cases hc
  obtain ⟨_, _, hu, hs₁⟩ := Prog.bind_ok.1 hs
  cases hu
  obtain ⟨keys, _, hx, hs₂⟩ := Prog.bind_ok.1 hs₁
  obtain ⟨hkeys, rfl⟩ := Prog.ofExcept_eq_ok.1 hx
  have hput := put_sets hs₂
  have hk₂ : keychain W mask w₂ = (.ok k, w₂) := by
    refine (keychain_ok W).2 ⟨(unmasked_congr ?_ ?_).trans hk, rfl⟩
    · rw [hkept.keychain, hput.eq]
    · rw [hkept.masterChecksum, hput.eq]
  have hrow := hkept.context.trans hput.get_self
  refine ⟨⟨k, hk₂⟩, ?_⟩
  unfold getPrivateContext
  rw [Prog.bind_of_ok hk₂, hkeys, Prog.bind_of_ok (Prog.ofExcept_ok _ _), Prog.bind_of_ok (rows_apply _),
    hrow]
  show (Prog.unwrap (some _) >>= _) w₂ = _
  rw [Prog.bind_of_ok (Prog.unwrap_some _ _), xorContext_xorContext]
  rfl

section
variable (hW : W.Obeys C)
include hW

/-! ### The party that starts -/

theorem Joined.offered {s s' : Slate} {id : Nat} {c : Context} {v : Int} (h : Joined C W s s' id c v)
    (htx : s.tx = Transaction.empty) (hdata : s.participantData = []) (hn : s.numParticipants = 2) :
    Offered C W s' id c v := by
  obtain ⟨p, hp, hentered⟩ := h.entry
  refine ⟨h.numParticipants.trans hn, h.drawn (by rw [htx]; rfl), ⟨p, by rw [hp, hdata]; rfl, hentered⟩, ?_⟩
  have hzero : C.blind BlindingFactor.zero = 0 := hW.scalar_zero
  have hblank : s.Sums C 0 := by
    unfold Slate.Sums Slate.keySum Curve.net
    rw [htx, hdata]
    show (0 : E) - 0 = ((0 : Int) : F) • C.h + C.blind BlindingFactor.zero • C.g + 0
    rw [hzero, Int.cast_zero, zero_smul, zero_smul]
    abel
  have hsums := h.sums 0 hblank
  rwa [zero_add] at hsums

omit hW in
theorem newTxSlate_returns (amount n : Nat) (ttl : Option Nat) :
    Prog.Returns (Tx.newTxSlate W amount n ttl) fun s => s.tx = Transaction.empty ∧
      s.participantData = [] ∧ s.numParticipants = n ∧ s.amount = amount := by
  unfold Tx.newTxSlate
  refine .next fun tip => Prog.Returns.bind (φ := fun s : Slate => s.tx = Transaction.empty ∧
    s.participantData = [] ∧ s.numParticipants = n) (.next fun t => .pure ⟨rfl, rfl, rfl⟩) fun s hs => ?_
  exact .next fun ttl => .pure ⟨hs.1, hs.2.1, hs.2.2, rfl⟩

omit hW in
theorem addProofInfo_returns (mask : Option SecretKey) (parent : Identifier)
    (recipient : Option DalekPublicKey) (s : Slate) (c : Context) :
    Prog.Returns (Owner.addProofInfo W mask parent recipient s c) fun r => Alike s r.1 ∧
      r.2.secKey = c.secKey ∧ r.2.secNonce = c.secNonce ∧ r.2.value = c.value := by
  cases recipient with
  | none => exact .pure ⟨⟨rfl, rfl, rfl, rfl, rfl, rfl, rfl⟩, rfl, rfl, rfl⟩
  | some a =>
    exact .next fun k => .next fun key => .pure ⟨⟨rfl, rfl, rfl, rfl, rfl, rfl, rfl⟩, rfl, rfl, rfl⟩

theorem initSendTx_offers {mask : Option SecretKey} {args : InitTxArgs} {s : Slate} {w w' : Wallet}
    (hargs : args.estimateOnly ≠ some true) (h : Owner.initSendTx W mask args w = (.ok s, w')) :
    ∃ c w₀, Offered C W s 0 c c.value ∧ s.fee < 2 ^ 63 ∧
      Owner.saveContext W mask s.id 0 c w₀ = (.ok (), w') := by
  obtain ⟨parent, _, -, h⟩ := Prog.bind_ok.1 h
  obtain ⟨message, _, -, h⟩ := Prog.bind_ok.1 h
  obtain ⟨s₀, _, hnew, h⟩ := Prog.bind_ok.1 h
  rw [if_neg hargs] at h
  obtain ⟨⟨s₁, c₁⟩, _, hadd, h⟩ := Prog.bind_ok.1 h
  obtain ⟨⟨s₂, c⟩, w₀, hproof, h⟩ := Prog.bind_ok.1 h
  obtain ⟨⟨⟩, _, hsave, h⟩ := Prog.bind_ok.1 h
  cases h
  obtain ⟨htx, hdata, hn, -⟩ := newTxSlate_returns _ _ _ _ _ _ hnew
  obtain ⟨hj, hfee⟩ := addInputsToSlate_joins hW _ _ _ _ _ _ _ _ _ _ _ hadd
  obtain ⟨halike, hkey, hnonce, hvalue⟩ := addProofInfo_returns _ _ _ _ _ _ _ _ hproof
  have hoffered := (alike_withOrigVersion s₂ args.targetSlateVersion).offered rfl rfl
    (halike.offered hkey hnonce (hj.offered hW htx hdata hn))
  refine ⟨c, w₀, hvalue ▸ hoffered, ?_, (alike_withOrigVersion s₂ _).slateId ▸ hsave⟩
  rw [(alike_withOrigVersion s₂ _).fee, halike.fee]
  exact hfee

theorem issueInvoiceTx_offers {mask : Option SecretKey} {args : IssueInvoiceTxArgs} {s : Slate}
    {w w' : Wallet} (h : Owner.issueInvoiceTx W mask args w = (.ok s, w')) :
    ∃ c w₀, Offered C W s 1 c s.amount ∧ Owner.saveContext W mask s.id 1 c w₀ = (.ok (), w') := by
  obtain ⟨parent, _, -, h⟩ := Prog.bind_ok.1 h
  obtain ⟨message, _, -, h⟩ := Prog.bind_ok.1 h
  obtain ⟨s₀, _, hnew, h⟩ := Prog.bind_ok.1 h
  obtain ⟨⟨s₁, c⟩, w₀, hadd, h⟩ := Prog.bind_ok.1 h
  obtain ⟨⟨⟩, _, hsave, h⟩ := Prog.bind_ok.1 h
  cases h
  obtain ⟨htx, hdata, hn, -⟩ := newTxSlate_returns _ _ _ _ _ _ hnew
  have hj := addOutputToSlate_joins hW _ _ _ _ _ _ _ _ hadd
  have halike := alike_withOrigVersion s₁ args.targetSlateVersion
  refine ⟨c, w₀, ?_, halike.slateId ▸ hsave⟩
  rw [halike.amount, hj.amount]
  exact halike.offered rfl rfl (hj.offered hW htx hdata hn)

/-! ### The party that replies -/

omit hW in
theorem signProof_returns (k : Keychain) (parent : Identifier) (excess : Commitment) (s : Slate) :
    Prog.Returns (Foreign.signProof W k parent excess s) (Alike s) := by
  unfold Foreign.signProof
  split
  · exact .pure ⟨rfl, rfl, rfl, rfl, rfl, rfl, rfl⟩
  · exact .next fun key => .pure ⟨rfl, rfl, rfl, rfl, rfl, rfl, rfl⟩

theorem receiveTx_answers (mask : Option SecretKey) {s : Slate} (dest message addr : Option String)
    (hoffset : s.tx.offset ≠ .zero) (hids : ∀ p ∈ s.participantData, p.id ≠ 1)
    (hn : s.participantData.length < s.numParticipants) :
    Prog.Returns (Foreign.receiveTx W mask s dest message addr) fun r =>
      Answered C s r s.amount ∧ r.fee = s.fee := by
  unfold Foreign.receiveTx
  refine .next fun _ => .next fun parent => .next fun txs => .ite (fun _ => .throw _) fun _ => ?_
  refine .next fun message => (addOutputToSlate_answers hW mask parent message hoffset hids hn).bind
    fun r hr => .next fun _ => .next fun _ => .next fun k => .next fun excess => ?_
  exact (signProof_returns k parent excess r.1).mono fun r' hr' =>
    ⟨hr'.answered_right hr.1, hr'.fee.trans hr.2⟩

omit hW in
theorem updateHeights_returns (s : Slate) (height : Nat) (ttl : Option Nat) :
    Prog.Returns (Owner.updateHeights s height ttl) (Alike s) := by
  cases ttl with
  | none => exact .pure ⟨rfl, rfl, rfl, rfl, rfl, rfl, rfl⟩
  | some b => exact .next fun h => .pure ⟨rfl, rfl, rfl, rfl, rfl, rfl, rfl⟩

theorem processInvoiceTx_answers {mask : Option SecretKey} {s r : Slate} {args : InitTxArgs}
    {w w' : Wallet} (hoffset : s.tx.offset ≠ .zero) (hids : ∀ p ∈ s.participantData, p.id ≠ 0)
    (hn : s.participantData.length < s.numParticipants)
    (h : Owner.processInvoiceTx W mask s args w = (.ok r, w')) :
    ∃ c w₀, Answered C s r c.value ∧ r.fee < 2 ^ 63 ∧
      Owner.saveContext W mask s.id 0 c w₀ = (.ok (), w') := by
  obtain ⟨_, _, -, h⟩ := Prog.bind_ok.1 h
  obtain ⟨parent, _, -, h⟩ := Prog.bind_ok.1 h
  obtain ⟨txs, _, -, h⟩ := Prog.bind_ok.1 h
  split at h
  · cases h
  obtain ⟨message, _, -, h⟩ := Prog.bind_ok.1 h
  obtain ⟨tip, _, -, h⟩ := Prog.bind_ok.1 h
  obtain ⟨s₁, _, hheights, h⟩ := Prog.bind_ok.1 h
  obtain ⟨⟨s₂, c⟩, w₀, hadd, h⟩ := Prog.bind_ok.1 h
  obtain ⟨⟨⟩, _, hsave, h⟩ := Prog.bind_ok.1 h
  cases h
  have halike := updateHeights_returns _ _ _ _ _ _ hheights
  have hlen : s₁.participantData.length < s₁.numParticipants := by
    rw [halike.participantData, halike.numParticipants]
    exact hn
  obtain ⟨ha, hfee⟩ := addInputsToSlate_answers hW _ _ _ _ _ _ _ (halike.tx ▸ hoffset)
    (halike.participantData ▸ hids) hlen _ _ _ hadd
  have hlast := alike_withOrigVersion s₂ args.targetSlateVersion
  refine ⟨c, w₀, halike.answered_left (hlast.answered_right ha), ?_, hsave⟩
  rw [hlast.fee]
  exact hfee

end

/-! ## The exchange -/

/-- The slates of an honest exchange before the last step, the payer's context, and the mask and the
state of the wallet that started: it still has its context. -/
inductive Exchanged (payer payee : World) : Flow → Slate → Slate → Context → Option SecretKey →
    Wallet → Prop where
  | send {mask mask' : Option SecretKey} {args : InitTxArgs} {dest message addr : Option String}
      {s r : Slate} {c : Context} {w w₁ w₂ u u₁ : Wallet} (hargs : args.estimateOnly ≠ some true)
      (hinit : Owner.initSendTx payer mask args w = (.ok s, w₁))
      (hreceive : Foreign.receiveTx payee mask' s dest message addr u = (.ok r, u₁))
      (hkept : Kept s.id 0 w₁ w₂) (hc : getPrivateContext payer mask s.id 0 w₂ = (.ok c, w₂)) :
      Exchanged payer payee .send s r c mask w₂
  | invoice {mask mask' : Option SecretKey} {args : IssueInvoiceTxArgs} {args' : InitTxArgs}
      {s r : Slate} {c : Context} {w w₁ w₂ u u₁ : Wallet}
      (hissue : Owner.issueInvoiceTx payee mask args w = (.ok s, w₁))
      (hprocess : Owner.processInvoiceTx payer mask' s args' u = (.ok r, u₁))
      (hkept : Kept s.id 1 w₁ w₂) (hc : getPrivateContext payer mask' s.id 0 u₁ = (.ok c, u₁)) :
      Exchanged payer payee .invoice s r c mask w₂

/-- What belongs to the party that starts, and so completes. -/
def Flow.starter {α : Type*} (payer payee : α) : Flow → α
  | .send => payer
  | .invoice => payee

/-- The wallet that started completes the transaction of the reply `r` to its slate `s`. -/
structure Finalizes (C : Curve F E) (W : World) (s r : Slate) (id : Nat) (mask : Option SecretKey)
    (w : Wallet) : Prop where
  /-- The party that started drew the offset, and the other did not draw one. -/
  drawn : s.tx.offset ≠ .zero ∧ ∃ t, s.tx.offset = .fromSecretKey (W.newSecretKey t)
  kept : r.tx.offset = s.tx.offset
  /-- The public excesses add up to the excess of the transaction. -/
  excess : ∃ key excess, r.pubBlindSum W = .ok key ∧ r.calcExcess W = .ok excess ∧
    C.commitPoint excess = C.point key
  /-- The completion succeeds, and every partial signature verifies against the final sums. -/
  completes : ∃ c s' w', getPrivateContext W mask r.id id w = (.ok c, w) ∧
    Tx.completeTx W mask r id c w = (.ok s', w') ∧ s'.tx.offset = s.tx.offset ∧
    ∀ p ∈ s'.participantData, ∃ sig nonce key msg, p.partSig = some sig ∧
      s'.pubNonceSum W = .ok nonce ∧ s'.pubBlindSum W = .ok key ∧ s'.msgToSign W = .ok msg ∧
      W.verifyPartialSig sig nonce p.publicBlindExcess key msg = .ok ()

theorem finalizes_of_answered (hW : W.Obeys C) {s r : Slate} {id : Nat} {c : Context} {u v : Int}
    {mask : Option SecretKey} {w₀ w₁ w₂ : Wallet} (ho : Offered C W s id c u) (ha : Answered C s r v)
    (hfee : r.fee < 2 ^ 63) (hv : u + v = -r.fee) (hstd : C.standard r.tx.inputs r.tx.outputs)
    (hsave : Owner.saveContext W mask s.id id c w₀ = (.ok (), w₁)) (hkept : Kept s.id id w₁ w₂) :
    Finalizes C W s r id mask w₂ := by
  have h := completable_of_answered ho ha hfee hv hstd
  obtain ⟨⟨k, hk⟩, hc⟩ := getPrivateContext_of_saveContext hsave hkept
  refine ⟨⟨ho.offset_ne hW, ho.offset⟩, ha.offset, ?_, ?_⟩
  · obtain ⟨key, hkey, hpoint⟩ := Slate.pubBlindSum_ok hW r
    obtain ⟨excess, hexcess, heq⟩ := Slate.calcExcess_ok hW h.kernel hfee h.sums
    exact ⟨key, excess, hkey, hexcess, heq.trans hpoint.symm⟩
  · obtain ⟨s', w', hdone, hoffset, -, hsigned⟩ := completeTx_of_completable hW h hk
    refine ⟨c, s', w', ha.slateId ▸ hc, hdone, hoffset.trans ha.offset, fun p hp => ?_⟩
    obtain ⟨sig, nonce, key, hsig, hnonce, hkey, hv⟩ :=
      Slate.verifyPartialSig_of_signed hW (hsigned p hp)
    exact ⟨sig, nonce, key, _, hsig, hnonce, hkey, hW.kernelSigMsg _, hv⟩

/-- Where the inputs of the payer's context are the amount, the fee and its change, and the chain
accepts inputs and outputs as such, the wallet that started finalizes the exchange. -/
theorem finalizes_of_exchanged {payer payee : World} (hpayer : payer.Obeys C) (hpayee : payee.Obeys C)
    {flow : Flow} {s r : Slate} {c : Context} {mask : Option SecretKey} {w : Wallet}
    (h : Exchanged payer payee flow s r c mask w)
    (hbalance : c.inputTotal = r.amount + r.fee + c.outputTotal)
    (hstd : C.standard r.tx.inputs r.tx.outputs) :
    Finalizes C (flow.starter payer payee) s r (flow.starter 0 1) mask w := by
  cases h with
  | send hargs hinit hreceive hkept hc =>
    obtain ⟨c', w₀, ho, hfee, hsave⟩ := initSendTx_offers hpayer hargs hinit
    have hsame := (getPrivateContext_of_saveContext hsave hkept).2
    cases hc.symm.trans hsame
    obtain ⟨hids, hn⟩ := ho.others (j := 1) Nat.zero_ne_one
    obtain ⟨ha, hfees⟩ :=
      receiveTx_answers hpayee _ _ _ _ (ho.offset_ne hpayer) hids hn _ _ _ hreceive
    refine finalizes_of_answered hpayer ho ha (hfees ▸ hfee) ?_ hstd hsave hkept
    have hamount := ha.amount
    unfold Context.value
    omega
  | invoice hissue hprocess hkept hc =>
    obtain ⟨c', w₀, ho, hsave⟩ := issueInvoiceTx_offers hpayee hissue
    obtain ⟨hids, hn⟩ := ho.others (j := 0) Nat.one_ne_zero
    obtain ⟨c'', u₀, ha, hfee, hsaved⟩ :=
      processInvoiceTx_answers hpayer (ho.offset_ne hpayee) hids hn hprocess
    have hsame := (getPrivateContext_of_saveContext hsaved ⟨rfl, rfl, rfl⟩).2
    cases hc.symm.trans hsame
    refine finalizes_of_answered hpayee ho ha hfee ?_ hstd hsave hkept
    have hamount := ha.amount
    unfold Context.value
    omega

/-! ## Two wallets over the small curve -/

namespace Modular

open World

def sent : Except (Fault Error) Slate × Wallet := Owner.initSendTx world none payFive funded

def offer : Slate := slateOr emptySlate sent

def received : Except (Fault Error) Slate × Wallet :=
  Foreign.receiveTx world none offer none none none (opened ⟨8⟩ 8)

def reply : Slate := slateOr emptySlate received

def issued : Except (Fault Error) Slate × Wallet :=
  Owner.issueInvoiceTx world none ⟨none, 5, none, none⟩ (opened ⟨8⟩ 8)

def invoice : Slate := slateOr emptySlate issued

def processed : Except (Fault Error) Slate × Wallet :=
  Owner.processInvoiceTx world none invoice payFive funded

def paid : Slate := slateOr emptySlate processed

/-- The payer's context of a slate. -/
def context (s : Slate) (w : Wallet) : Context :=
  match (getPrivateContext world none s.id 0 w).1 with
  | .ok c => c
  | .error _ => .new ⟨0⟩ ⟨0⟩ (.derive 0 0 0 0 0) 0

theorem finalizes_of_exchanged_small :
    Finalizes curve world offer reply 0 none sent.2 ∧ Finalizes curve world invoice paid 1 none issued.2 := by
  constructor
  · have h₁ : sent = (.ok offer, sent.2) := Prog.run_eq (by decide +kernel)
    have h₂ : received = (.ok reply, received.2) := Prog.run_eq (by decide +kernel)
    have hc : getPrivateContext world none offer.id 0 sent.2 = (.ok (context offer sent.2), _) :=
      Prog.run_eq (by decide +kernel)
    rw [(getPrivateContext_reads world none offer.id 0).eq hc] at hc
    exact finalizes_of_exchanged world_obeys world_obeys (.send (by decide) h₁ h₂ ⟨rfl, rfl, rfl⟩ hc)
      (by decide +kernel) (show reply.tx.inputs.length + 4 * reply.tx.outputs.length ≤ 500 by decide +kernel)
  · have h₁ : issued = (.ok invoice, issued.2) := Prog.run_eq (by decide +kernel)
    have h₂ : processed = (.ok paid, processed.2) := Prog.run_eq (by decide +kernel)
    have hc : getPrivateContext world none invoice.id 0 processed.2 =
        (.ok (context invoice processed.2), _) := Prog.run_eq (by decide +kernel)
    rw [(getPrivateContext_reads world none invoice.id 0).eq hc] at hc
    exact finalizes_of_exchanged world_obeys world_obeys (.invoice h₁ h₂ ⟨rfl, rfl, rfl⟩ hc)
      (by decide +kernel) (show paid.tx.inputs.length + 4 * paid.tx.outputs.length ≤ 500 by decide +kernel)

end Modular

end EpicWallet
