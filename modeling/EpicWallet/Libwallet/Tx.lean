import EpicWallet.Libwallet.Updater

/-!
# Building transactions

`libwallet/src/internal/tx.rs`: the steps of a payment that the two APIs put together. The flag for a
fixed random generator, used in documentation tests, is `false` throughout.
-/

namespace EpicWallet

open Lib WalletBackend

namespace Tx

variable (W : World)

def newTxSlate (amount numParticipants : Nat) (ttlBlocks : Option Nat) : WalletM Slate := do
  let tip ← Updater.getChainTip W
  let currentHeight := tip.1
  let slate ← Slate.blank W numParticipants
  let ttlCutoffHeight ← (match ttlBlocks with
    | some b => do
      let h ← addU64 currentHeight b
      pure (some h)
    | none => pure slate.ttlCutoffHeight)
  let version :=
    if W.validHeaderVersion currentHeight 7 then 7
    else if W.validHeaderVersion currentHeight 6 then 6
    else slate.versionInfo.blockHeaderVersion
  pure { slate with
    ttlCutoffHeight
    amount
    height := currentHeight
    versionInfo := { slate.versionInfo with blockHeaderVersion := version }
    lockHeight := 0 }

def estimateSendTx (mask : Option SecretKey)
    (amount minimumConfirmations maxOutputs numChangeOutputs : Nat) (selectAll : Bool)
    (parentKeyId : Identifier) : WalletM (Nat × Nat) := do
  let tip ← Updater.getChainTip W
  Updater.refreshOutputs W mask parentKeyId
  let (_, total, _, fee) ← Selection.selectCoinsAndFee W amount tip.1 minimumConfirmations
    maxOutputs numChangeOutputs selectAll parentKeyId
  pure (total, fee)

def addInputsToSlate (mask : Option SecretKey) (slate : Slate)
    (minimumConfirmations maxOutputs numChangeOutputs : Nat) (selectAll : Bool)
    (parentKeyId : Identifier) (participantId : Nat) (message : Option String)
    (isInitiator : Bool) : WalletM (Slate × Context) := do
  Updater.refreshOutputs W mask parentKeyId
  let k ← keychain W mask
  let (slate, context) ← Selection.buildSendTx W k mask slate minimumConfirmations maxOutputs
    numChangeOutputs selectAll parentKeyId
  let k ← keychain W mask
  let (slate, secKey) ← slate.fillRound1 W k context.secKey context.secNonce participantId message
  let context := { context with secKey }
  if isInitiator then pure (slate, context)
  else do
    let _ ← keychain W mask
    let slate ← slate.fillRound2 W context.secKey context.secNonce participantId
    pure (slate, context)

def addOutputToSlate (mask : Option SecretKey) (slate : Slate) (parentKeyId : Identifier)
    (participantId : Nat) (message : Option String) (isInitiator : Bool) :
    WalletM (Slate × Context) := do
  let (slate, _, context) ← Selection.buildRecipientOutput W mask slate parentKeyId
  let k ← keychain W mask
  let (slate, secKey) ← slate.fillRound1 W k context.secKey context.secNonce 1 message
  let context := { context with secKey }
  if isInitiator then pure (slate, context)
  else do
    let _ ← keychain W mask
    let slate ← slate.fillRound2 W context.secKey context.secNonce participantId
    pure (slate, context)

def completeTx (mask : Option SecretKey) (slate : Slate) (participantId : Nat) (context : Context) :
    WalletM Slate := do
  let _ ← keychain W mask
  let slate ← slate.fillRound2 W context.secKey context.secNonce participantId
  let _ ← keychain W mask
  slate.finalize W

/-- `tx_id_string`: what the errors of `cancel_tx` name. -/
def txIdString (txId : Option Nat) (txSlateId : Option Uuid) : String :=
  match txId, txSlateId with
  | some i, _ => toString i
  | none, some u => u.display
  | none, none => ""

def cancelTx (mask : Option SecretKey) (parentKeyId : Identifier) (txId : Option Nat)
    (txSlateId : Option Uuid) : WalletM Unit := do
  let txVec ← Updater.retrieveTxs txId txSlateId (some parentKeyId) false none none none
  match txVec.2.2 with
  | [tx] => do
    if tx.txType ≠ .txSentCreated ∧ tx.txType ≠ .txReceived then
      Prog.throw (.transactionNotCancellable (txIdString txId txSlateId))
    else if tx.confirmed then
      Prog.throw (.transactionNotCancellable (txIdString txId txSlateId))
    else do
      let res ← Updater.retrieveOutputs W mask false false (some tx.id) (some parentKeyId)
        none none none
      Updater.cancelTxAndOutputs W mask tx (res.2.2.map Prod.fst) parentKeyId
  | _ => Prog.throw (.transactionDoesntExist (txIdString txId txSlateId))

/-- `payment_proof_message` and the signature of it. -/
def createPaymentProofSignature (amount : Nat) (kernelCommitment : Commitment)
    (senderAddress : DalekPublicKey) (secKey : SecretKey) : DalekSignature :=
  W.dalekSign secKey ⟨amount, kernelCommitment, senderAddress⟩

/-- The entry `update_stored_tx` takes for the slate's. -/
def isStoredEntry (isInvoiced : Bool) (t : TxLogEntry) : Bool :=
  ((t.txType = .txSentCreated || t.txType = .txSent) && !isInvoiced) ||
    (t.txType = .txReceived && isInvoiced)

/-- The payment proof record of the finalized transaction, signed by the sender. -/
def signedProofInfo (mask : Option SecretKey) (context : Context) (slate : Slate) (p : PaymentInfo) :
    WalletM StoredProofInfo := do
  let derivationIndex := context.paymentProofDerivationIndex.getD 0
  let k ← keychain W mask
  let parent ← parentKeyId
  let excess ← Prog.ofExcept (slate.calcExcess W)
  let senderKey ← Address.addressFromDerivationPath W k parent derivationIndex
  pure {
    receiverAddress := p.receiverAddress
    receiverSignature := p.receiverSignature
    senderAddressPath := derivationIndex
    senderAddress := Address.ed25519Public W senderKey
    senderSignature := some (createPaymentProofSignature W slate.amount excess p.senderAddress senderKey) }

def updateStoredTx (mask : Option SecretKey) (context : Context) (slate : Slate)
    (isInvoiced : Bool) : WalletM Unit := do
  let txVec ← Updater.retrieveTxs none (some slate.id) none false none none none
  match txVec.2.2.find? (isStoredEntry isInvoiced) with
  | none => Prog.throw (.transactionDoesntExist slate.id.display)
  | some tx => do
    let slateId ← Prog.unwrap tx.txSlateId
    storeTx W slateId slate.tx
    let parentKey := tx.parentKeyId
    let kernel ← Prog.unwrap slate.tx.kernels[0]?
    let tx := { tx with kernelExcess := some kernel.excess }
    let tx ← (match slate.paymentProof with
      | some p => do
        let proof ← signedProofInfo W mask context slate p
        pure { tx with paymentProof := some proof }
      | none => pure tx)
    let _ ← batch W mask
    Batch.saveTxLogEntry tx parentKey
    Batch.commit

/-- The common body of `update_public_addr` and `update_message`: every entry of the slate, changed
by `f`. -/
def updateEntries (mask : Option SecretKey) (slate : Slate) (parentKeyId : Option Identifier)
    (f : TxLogEntry → TxLogEntry) : WalletM Unit := do
  let txVec ← Updater.retrieveTxs none (some slate.id) parentKeyId false none none none
  if txVec.2.2.isEmpty then Prog.throw (.transactionDoesntExist slate.id.display)
  else do
    let _ ← batch W mask
    Prog.forEach txVec.2.2 fun tx => Batch.saveTxLogEntry (f tx) tx.parentKeyId
    Batch.commit

def updatePublicAddr (mask : Option SecretKey) (slate : Slate) (publicAddr : Option String)
    (parentKeyId : Option Identifier) : WalletM Unit :=
  updateEntries W mask slate parentKeyId fun tx => { tx with publicAddr }

def updateMessage (mask : Option SecretKey) (slate : Slate) : WalletM Unit :=
  updateEntries W mask slate none fun tx => { tx with messages := some slate.participantMessages }

/-- The type of an entry whose transaction is in the pool. -/
def mempoolType : TxLogEntryType → TxLogEntryType
  | .txSent => .txSentMempool
  | .txSentCreated => .txSentMempool
  | .txReceived => .txReceivedMempool
  | ty => ty

def updateMempoolStatus (mask : Option SecretKey) (slate : Slate) : WalletM Unit := do
  let parent ← parentKeyId
  let txs ← txLogIter
  match txs.find? fun e => e.txSlateId = some slate.id with
  | some entry => do
    let _ ← batch W mask
    Batch.saveTxLogEntry { entry with txType := mempoolType entry.txType } parent
    Batch.commit
  | none => pure ()

/-- The checks of a payment proof against the one stored when the inputs were locked. -/
def verifyProofInfo (mask : Option SecretKey) (parentKeyId : Identifier) (context : Context)
    (slate : Slate) (p : PaymentInfo) (origProofInfo : StoredProofInfo) : WalletM Unit := do
  let k ← keychain W mask
  let index ← (match context.paymentProofDerivationIndex with
    | some i => pure i
    | none => Prog.throw (.paymentProof "Payment proof derivation index required"))
  let origSenderSk ← Address.addressFromDerivationPath W k parentKeyId index
  let origSenderAddress := Address.ed25519Public W origSenderSk
  if p.senderAddress ≠ origSenderAddress then
    Prog.throw (.paymentProof "Sender address on slate does not match original sender address")
  else if origProofInfo.receiverAddress ≠ p.receiverAddress then
    Prog.throw (.paymentProof "Recipient address on slate does not match original recipient address")
  else do
    let excess ← Prog.ofExcept (slate.calcExcess W)
    match p.receiverSignature with
    | none => Prog.throw (.paymentProof "Recipient did not provide requested proof signature")
    | some sig =>
      if W.dalekVerify p.receiverAddress ⟨slate.amount, excess, origSenderAddress⟩ sig then pure ()
      else Prog.throw (.paymentProof "Invalid proof signature")

def verifySlatePaymentProof (mask : Option SecretKey) (parentKeyId : Identifier) (context : Context)
    (slate : Slate) : WalletM Unit := do
  let txVec ← Updater.retrieveTxs none (some slate.id) (some parentKeyId) false none none none
  match txVec.2.2 with
  | [] =>
    Prog.throw (.paymentProof "TxLogEntry with original proof info not found (is account correct?)")
  | tx :: _ =>
    if tx.paymentProof.isSome ∧ slate.paymentProof.isNone then
      Prog.throw (.paymentProof "Expected Payment Proof for this Transaction is not present")
    else match slate.paymentProof with
      | none => pure ()
      | some p => match tx.paymentProof with
        | none => Prog.throw (.paymentProof "Original proof info not stored in tx")
        | some origProofInfo =>
          verifyProofInfo W mask parentKeyId context slate p origProofInfo

end Tx

end EpicWallet
