import EpicWallet.Libwallet.Scan

/-!
# The owner and foreign operations

`libwallet/src/api_impl/owner.rs` and `foreign.rs`: sending, invoicing, receiving, finalizing,
cancelling and refreshing. Operations that get the wallet itself run under its lock from start to
end; `waitForTxInMempool`, `scan`, `updateWalletState` and the owner's `cancelTx` take the lock for
single steps (`walletLock`).
-/

namespace EpicWallet

open Lib WalletBackend

structure InitTxArgs where
  srcAcctName : Option String
  amount : Nat
  minimumConfirmations : Nat
  maxOutputs : Nat
  numChangeOutputs : Nat
  selectionStrategyIsUseAll : Bool
  message : Option String
  targetSlateVersion : Option Nat
  ttlBlocks : Option Nat
  paymentProofRecipientAddress : Option DalekPublicKey
  estimateOnly : Option Bool
deriving DecidableEq

structure IssueInvoiceTxArgs where
  destAcctName : Option String
  amount : Nat
  message : Option String
  targetSlateVersion : Option Nat
deriving DecidableEq

/-- The account an operation acts for: the one named, if there is one of that name, else the active
one. -/
def accountNamed (name : Option String) : WalletM Identifier :=
  match name with
  | some d => do
    match ← getAcctPath d with
    | some p => pure p.path
    | none => parentKeyId
  | none => parentKeyId

def checkTtl (slate : Slate) : WalletM Unit := do
  let last ← lastConfirmedHeight
  match slate.ttlCutoffHeight with
  | some e => if last ≥ e then Prog.throw .transactionExpired else pure ()
  | none => pure ()

def withOrigVersion (slate : Slate) : Option Nat → Slate
  | some v => { slate with versionInfo := { slate.versionInfo with origVersion := v } }
  | none => slate

namespace Owner

variable (W : World)

def createAccountPath (mask : Option SecretKey) (label : String) : WalletM Identifier :=
  Keys.newAcctPath W mask label

def setActiveAccount (label : String) : WalletM Unit := setParentKeyIdByName label

/-! ## Sending -/

/-- The payment proof addresses of a send, in the slate and in the context. -/
def addProofInfo (mask : Option SecretKey) (parentKeyId : Identifier)
    (recipient : Option DalekPublicKey) (slate : Slate) (context : Context) :
    WalletM (Slate × Context) :=
  match recipient with
  | none => pure (slate, context)
  | some a => do
    let k ← keychain W mask
    let secAddrKey ← Address.addressFromDerivationPath W k parentKeyId 0
    pure ({ slate with paymentProof := some {
        senderAddress := Address.ed25519Public W secAddrKey
        receiverAddress := a
        receiverSignature := none } },
      { context with paymentProofDerivationIndex := some 0 })

/-- Saves the context of a slate under a batch of its own. -/
def saveContext (mask : Option SecretKey) (slateId : Uuid) (participantId : Nat)
    (context : Context) : WalletM Unit := do
  let b ← batch W mask
  b.savePrivateContext W slateId participantId context
  Batch.commit

/-- Deletes the context of a slate under a batch of its own. -/
def deleteContext (mask : Option SecretKey) (slateId : Uuid) (participantId : Nat) :
    WalletM Unit := do
  let _ ← batch W mask
  Batch.deletePrivateContext slateId participantId
  Batch.commit

def initSendTx (mask : Option SecretKey) (args : InitTxArgs) : WalletM Slate := do
  let parent ← accountNamed args.srcAcctName
  let message ← truncateMessage args.message
  let slate ← Tx.newTxSlate W args.amount 2 args.ttlBlocks
  if args.estimateOnly = some true then do
    let (total, fee) ← Tx.estimateSendTx W mask args.amount args.minimumConfirmations
      args.maxOutputs args.numChangeOutputs args.selectionStrategyIsUseAll parent
    pure { slate with amount := total, fee }
  else do
    let (slate, context) ← Tx.addInputsToSlate W mask slate args.minimumConfirmations
      args.maxOutputs args.numChangeOutputs args.selectionStrategyIsUseAll parent 0 message true
    let (slate, context) ← addProofInfo W mask parent args.paymentProofRecipientAddress slate context
    saveContext W mask slate.id 0 context
    pure (withOrigVersion slate args.targetSlateVersion)

def issueInvoiceTx (mask : Option SecretKey) (args : IssueInvoiceTxArgs) : WalletM Slate := do
  let parent ← accountNamed args.destAcctName
  let message ← truncateMessage args.message
  let slate ← Tx.newTxSlate W args.amount 2 none
  let (slate, context) ← Tx.addOutputToSlate W mask slate parent 1 message true
  saveContext W mask slate.id 1 context
  pure (withOrigVersion slate args.targetSlateVersion)

/-- The slate with the current height, and a new cutoff if one is asked for. -/
def updateHeights (slate : Slate) (height : Nat) : Option Nat → WalletM Slate
  | some b => do
    let h ← addU64 height b
    pure { slate with height, ttlCutoffHeight := some h }
  | none => pure { slate with height }

def processInvoiceTx (mask : Option SecretKey) (slate : Slate) (args : InitTxArgs) :
    WalletM Slate := do
  checkTtl slate
  let parent ← accountNamed args.srcAcctName
  let tx ← Updater.retrieveTxs none (some slate.id) (some parent) false none none none
  if tx.2.2.any (·.txType = .txSent) then
    Prog.throw (.transactionAlreadyReceived slate.id.display)
  else do
    let message ← truncateMessage args.message
    let tip ← Updater.getChainTip W
    let retSlate ← updateHeights slate tip.1 args.ttlBlocks
    let (retSlate, context) ← Tx.addInputsToSlate W mask retSlate args.minimumConfirmations
      args.maxOutputs args.numChangeOutputs args.selectionStrategyIsUseAll parent 0 message false
    saveContext W mask slate.id 0 context
    pure (withOrigVersion retSlate args.targetSlateVersion)

def txLockOutputs (mask : Option SecretKey) (slate : Slate) (participantId : Nat)
    (addrTo : Option String) : WalletM Unit := do
  let context ← getPrivateContext W mask slate.id participantId
  Selection.lockTxContext W mask slate context addrTo

def finalizeTx (mask : Option SecretKey) (slate : Slate) : WalletM Slate := do
  checkTtl slate
  let context ← getPrivateContext W mask slate.id 0
  let parent ← parentKeyId
  let sl ← Tx.completeTx W mask slate 0 context
  Tx.verifySlatePaymentProof W mask parent context sl
  Tx.updateStoredTx W mask context sl false
  Tx.updateMessage W mask sl
  deleteContext W mask sl.id 0
  pure sl

/-! ## The pool -/

def updateMempoolStatus (mask : Option SecretKey) (slate : Slate) : WalletM Unit :=
  Tx.updateMempoolStatus W mask slate

/-- Whether the pool holds a kernel with the entry's excess. -/
def inMempool (mempool : List Transaction) (entry : TxLogEntry) : Bool :=
  entry.kernelExcess.isSome &&
    mempool.any fun tx => tx.kernels.any fun k => some k.excess = entry.kernelExcess

/-- An entry found in the pool is saved under the account active by then. -/
def markInMempool (mask : Option SecretKey) (entry : TxLogEntry) : WalletM Unit := do
  walletLock W
  let parent ← parentKeyId
  let _ ← batch W mask
  Batch.saveTxLogEntry { entry with txType := Tx.mempoolType entry.txType } parent
  Batch.commit

def waitForTxInMempool (mask : Option SecretKey) (txSlateId : Uuid) : Nat → WalletM Bool
  | 0 => pure false
  | attempts + 1 => do
    walletLock W
    let tick ← nextTick
    let mempool ← Prog.ofExcept (W.mempool tick)
    walletLock W
    let txs ← txLogIter
    let found := txs.filter fun e => e.txSlateId = some txSlateId ∧ inMempool mempool e = true
    Prog.forEach found (markInMempool W mask)
    if found.isEmpty then waitForTxInMempool mask txSlateId attempts else pure true

/-! ## Refreshing -/

def updateOutputs (mask : Option SecretKey) : WalletM Bool := do
  walletLock W
  let parent ← parentKeyId
  match ← Prog.attempt (Updater.refreshOutputs W mask parent) with
  | .ok _ => pure true
  | .error .invalidKeychainMask => Prog.throw .invalidKeychainMask
  | .error _ => pure false

/-- A transaction found by its kernel is saved, confirmed. -/
def saveConfirmed (mask : Option SecretKey) (parentKeyId : Identifier) (height : Nat)
    (tx : TxLogEntry) : WalletM Unit := do
  walletLock W
  let _ ← batch W mask
  let tick ← nextTick
  let tx := { tx with confirmed := true }.updateConfirmationTs (W.now tick)
  Batch.saveTxLogEntry { tx with confirmationHeight := some height } parentKeyId
  Batch.commit

/-- The loop of `update_txs_via_kernel`; `false` when the node does not answer. -/
def lookupKernels (mask : Option SecretKey) (parentKeyId : Identifier) (height : Nat) :
    List TxLogEntry → WalletM Bool
  | [] => pure true
  | tx :: txs =>
    if tx.confirmed ∨ (tx.amountDebited ≠ 0 ∧ tx.amountCredited ≠ 0) then
      lookupKernels mask parentKeyId height txs
    else match tx.kernelExcess with
      | none => lookupKernels mask parentKeyId height txs
      | some e => do
        let tick ← nextTick
        match W.kernel tick e tx.kernelLookupMinHeight (some height) with
        | .error _ => pure false
        | .ok none => lookupKernels mask parentKeyId height txs
        | .ok (some _) => do
          saveConfirmed W mask parentKeyId height tx
          lookupKernels mask parentKeyId height txs

def updateTxsViaKernel (mask : Option SecretKey) (txs : List TxLogEntry) : WalletM Bool := do
  walletLock W
  let parent ← parentKeyId
  walletLock W
  match ← Prog.attempt (Updater.getChainTip W) with
  | .error _ => pure false
  | .ok tip => lookupKernels W mask parent tip.1 txs

/-- Where the scan of a refresh starts. -/
def scanStart (tip : Nat × String) : WalletM ScannedBlockInfo := do
  match ← initStatus with
  | .initNeedsScanning => pure ⟨0, "", 0, 0⟩
  | .initNoScanning => pure ⟨tip.1, tip.2, 0, 0⟩
  | .initComplete => lastScannedBlock

/-- Step 3 of a refresh: the scan and what is saved of it. -/
def scanStep (mask : Option SecretKey) (tip : Nat × String) : WalletM Unit := do
  walletLock W
  let last ← scanStart tip
  let info ← Scan.scan W mask false (last.height - 100) tip.1
  walletLock W
  let _ ← batch W mask
  Batch.saveLastScannedBlock { info with hash := tip.2 }
  Batch.saveInitStatus .initComplete
  Batch.commit

/-- A transaction past its cutoff is cancelled by its number, in the account active by then. -/
def cancelExpired (mask : Option SecretKey) (tip : Nat) (tx : TxLogEntry) : WalletM Unit :=
  match tx.ttlCutoffHeight with
  | none => pure ()
  | some e =>
    if tip ≥ e then do
      walletLock W
      let parent ← parentKeyId
      Tx.cancelTx W mask parent (some tx.id) none
    else pure ()

/-- Steps 3 to 5 of a refresh. -/
def updateFromTip (mask : Option SecretKey) (txs : List TxLogEntry) : WalletM Bool := do
  match ← Prog.attempt (Updater.getChainTip W) with
  | .error _ => pure false
  | .ok tip => do
    scanStep W mask tip
    Prog.forEach txs (cancelExpired W mask tip.1)
    pure true

/-- The entries are read once: of those it confirmed, the kernel step changes only fields that the
last step does not look at. -/
def updateWalletState (mask : Option SecretKey) : WalletM Bool := do
  walletLock W
  let parent ← parentKeyId
  walletLock W
  let result ← updateOutputs W mask
  if ¬result then pure false
  else do
    walletLock W
    let txs ← Updater.retrieveTxs none none (some parent) true none none none
    let result ← updateTxsViaKernel W mask txs.2.2
    if ¬result then pure false
    else updateFromTip W mask txs.2.2

def cancelTx (mask : Option SecretKey) (txId : Option Nat) (txSlateId : Option Uuid) :
    WalletM Unit := do
  let updated ← updateWalletState W mask
  if ¬updated then
    Prog.throw
      (.transactionCancellationError "Can't contact running Epic node. Not Cancelling.")
  else do
    walletLock W
    let parent ← parentKeyId
    Tx.cancelTx W mask parent txId txSlateId

def scan (mask : Option SecretKey) (startHeight : Option Nat) (deleteUnconfirmed : Bool) :
    WalletM Unit := do
  let _ ← updateOutputs W mask
  walletLock W
  let tip ← Updater.getChainTip W
  let info ← Scan.scan W mask deleteUnconfirmed (startHeight.getD 1) tip.1
  walletLock W
  let _ ← batch W mask
  Batch.saveLastScannedBlock { info with hash := tip.2 }
  Batch.commit

end Owner

namespace Foreign

variable (W : World)

/-- The recipient's signature of the payment proof, if the slate asks for one. -/
def signProof (k : Keychain) (parentKeyId : Identifier) (excess : Commitment) (slate : Slate) :
    WalletM Slate :=
  match slate.paymentProof with
  | none => pure slate
  | some p => do
    let secKey ← Address.addressFromDerivationPath W k parentKeyId 0
    let sig := Tx.createPaymentProofSignature W slate.amount excess p.senderAddress secKey
    pure { slate with paymentProof := some { p with receiverSignature := some sig } }

def receiveTx (mask : Option SecretKey) (slate : Slate) (destAcctName : Option String)
    (message addrFrom : Option String) : WalletM Slate := do
  checkTtl slate
  let parent ← accountNamed destAcctName
  let tx ← Updater.retrieveTxs none (some slate.id) (some parent) false none none none
  if tx.2.2.any (·.txType = .txReceived) then
    Prog.throw (.transactionAlreadyReceived slate.id.display)
  else do
    let message ← truncateMessage message
    let (retSlate, _) ← Tx.addOutputToSlate W mask slate parent 1 message false
    Tx.updateMessage W mask retSlate
    Tx.updatePublicAddr W mask retSlate addrFrom (some parent)
    let k ← keychain W mask
    let excess ← Prog.ofExcept (retSlate.calcExcess W)
    signProof W k parent excess retSlate

def finalizeInvoiceTx (mask : Option SecretKey) (slate : Slate) : WalletM Slate := do
  checkTtl slate
  let context ← getPrivateContext W mask slate.id 1
  let sl ← Tx.completeTx W mask slate 1 context
  Tx.updateStoredTx W mask context sl true
  Tx.updateMessage W mask sl
  Owner.deleteContext W mask sl.id 1
  pure sl

def buildCoinbase (mask : Option SecretKey) (blockFees : Updater.BlockFees) :
    WalletM (Output × TxKernel × Updater.BlockFees) :=
  Updater.receiveCoinbase W mask blockFees

def buildFoundation (mask : Option SecretKey) (blockFees : Updater.BlockFees) :
    WalletM (Output × TxKernel × Updater.BlockFees) :=
  Updater.receiveFoundation W mask blockFees

end Foreign

/-! ## A funded wallet -/

namespace World

/-- A new wallet of the small world that mined a reward and saw it confirmed. -/
def funded : Wallet :=
  (Owner.updateOutputs small none
    (Foreign.buildCoinbase small none ⟨0, 1, none⟩ (opened ⟨7⟩ 7)).2).2

/-- A plain payment of 5. -/
def payFive : InitTxArgs where
  srcAcctName := none
  amount := 5
  minimumConfirmations := 1
  maxOutputs := 500
  numChangeOutputs := 1
  selectionStrategyIsUseAll := false
  message := none
  targetSlateVersion := none
  ttlBlocks := none
  paymentProofRecipientAddress := none
  estimateOnly := none

/-- The slate of a call that returned one, else the given one. -/
def slateOr (s : Slate) : Except (Fault Error) Slate × Wallet → Slate
  | (.ok s', _) => s'
  | (.error _, _) => s

/-- A slate with nothing in it. -/
def emptySlate : Slate where
  versionInfo := ⟨3, 3, 6⟩
  numParticipants := 2
  id := ⟨0⟩
  tx := Transaction.empty
  amount := 0
  fee := 0
  height := 0
  lockHeight := 0
  ttlCutoffHeight := none
  participantData := []
  paymentProof := none

end World

end EpicWallet
