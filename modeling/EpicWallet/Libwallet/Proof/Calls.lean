import EpicWallet.Controller.Command
import EpicWallet.Lib.Sections
import EpicWallet.Libwallet.Proof.Run

/-!
# Calls in sections

The calls of the wallet, cut where they release its lock. Most hold it from start to end; the wait for
the pool, the refresh, the owner's cancel and the scan take it for single steps and ask the node with
the lock free. Each section carries an `Act` that says what it does to the transaction log and to the
outputs. Run with nothing in between, the sections of a call are the call (`Op.run_sections`).
-/

namespace EpicWallet

open Lib WalletBackend

/-- What a section does to the transaction log and to the outputs. -/
inductive Act where
  /-- It only reads them. -/
  | quiet
  /-- A whole call that holds the lock from start to end. -/
  | call (op : Op)
  /-- `update_outputs`. -/
  | refresh
  /-- `wait_for_tx_in_mempool` saves a copy, marked as in the pool. -/
  | mark (entry : TxLogEntry)
  /-- `update_txs_via_kernel` saves a copy, confirmed. -/
  | confirm (parentKeyId : Identifier) (entry : TxLogEntry)
  /-- `cancel_tx` in the active account. -/
  | cancel (txId : Option Nat) (txSlateId : Option Uuid)
  /-- `restore_missing_output`. -/
  | restore (output : Scan.OutputResult)
  /-- `cancel_tx_log_entry`. -/
  | cancelEntry (output : OutputData)
  /-- `scan` saves its copy of an output under the MMR index the chain gives it. -/
  | reindex (output : OutputData) (mmrIndex : Nat)
  /-- `scan` saves its copy of an output, unspent. -/
  | unspend (output : OutputData)
  /-- `scan` deletes an output it saw unconfirmed. -/
  | discard (output : OutputData)
  /-- `import_tx`. -/
  | imports (txs : List TxLogEntry)

/-- A call in sections. -/
abbrev Call (α : Type) : Type 1 := Sections Wallet Error Act α

/-! ## Scanning -/

namespace Scan

variable (W : World)

def matchSections (mask : Option SecretKey) (walletOutputs : List (OutputData × Commitment)) :
    List OutputResult → Call (List OutputResult × List OutputData × List OutputData)
  | [] => pure ([], [], [])
  | deffo :: l =>
    match walletOutputs.find? fun wo => wo.2 = deffo.commit with
    | some s => do
      .one (.reindex s.1 deffo.mmrIndex) (updateMmrIndex W mask s.1 deffo.mmrIndex)
      let r ← matchSections mask walletOutputs l
      pure (r.1, if s.1.status = .spent then s.1 :: r.2.1 else r.2.1,
        if s.1.status = .locked then s.1 :: r.2.2 else r.2.2)
    | none => do
      let r ← matchSections mask walletOutputs l
      pure (deffo :: r.1, r.2.1, r.2.2)

def unspentSections (mask : Option SecretKey) (o : OutputData) : Call Unit := do
  .one (.cancelEntry { o with status := .unspent }) (cancelTxLogEntry W mask { o with status := .unspent })
  .one (.unspend o) do
    walletLock W
    let _ ← batch W mask
    Batch.save { o with status := .unspent }
    Batch.commit

def unconfirmedSections (mask : Option SecretKey) (o : OutputData) : Call Unit := do
  .one (.cancelEntry o) (cancelTxLogEntry W mask o)
  .one (.discard o) do
    walletLock W
    let _ ← batch W mask
    Batch.delete o.keyId o.mmrIndex o.txLogEntry
    Batch.commit

def restorePathSections (mask : Option SecretKey) (accounts : List Identifier) (acctIndex : Nat)
    (found : Identifier × Nat) : Call Nat := do
  let acctIndex ← (if found.1 ∈ accounts then pure acctIndex
    else do
      .one .quiet do
        walletLock W
        Keys.setAcctPath W mask ("account_" ++ toString acctIndex) found.1
      pure (acctIndex + 1))
  let current ← .one .quiet do
    walletLock W
    currentChildIndex found.1
  (if found.2 ≥ current then
    .one .quiet do
      walletLock W
      let _ ← batch W mask
      let next ← addU32 found.2 1
      Batch.saveChildIndex found.1 next
      Batch.commit
  else pure ())
  pure acctIndex

def sections (mask : Option SecretKey) (deleteUnconfirmedOutputs : Bool)
    (startHeight endHeight : Nat) : Call ScannedBlockInfo := do
  let k ← .one .quiet do
    walletLock W
    keychain W mask
  let pmmrRange ← .one .quiet do
    let tick ← nextTick
    Prog.ofExcept (W.pmmrIndices tick startHeight (some endHeight))
  let chainOuts ← .one .quiet (collectChainOutputs W k pmmrRange.1 (some pmmrRange.2))
  let walletOutputs ← .one .quiet do
    walletLock W
    Updater.retrieveOutputs W mask true false none none none none none
  let found ← matchSections W mask walletOutputs.2.2 chainOuts.1
  Sections.forEach found.2.1 (unspentSections W mask)
  let foundParents ← found.1.foldlM
    (fun parents m => .one (.restore m) (restoreMissingOutput W mask m parents)) Rows.empty
  (if deleteUnconfirmedOutputs then do
    Sections.forEach found.2.2 (unspentSections W mask)
    Sections.forEach ((walletOutputs.2.2.map Prod.fst).filter fun o => o.status = .unconfirmed)
      (unconfirmedSections W mask)
  else pure ())
  let accounts ← .one .quiet do
    walletLock W
    acctPathIter
  let tick ← .one .quiet nextTick
  let _ ← (W.mapOrder tick foundParents.toList).foldlM
    (restorePathSections W mask (accounts.map (·.path))) accounts.length
  pure ⟨endHeight, "", pmmrRange.1, chainOuts.2⟩

end Scan

/-! ## Waiting for the pool -/

namespace Owner

variable (W : World)

def waitSections (mask : Option SecretKey) (txSlateId : Uuid) : Nat → Call Bool
  | 0 => pure false
  | attempts + 1 => do
    let mempool ← .one .quiet do
      walletLock W
      let tick ← nextTick
      Prog.ofExcept (W.mempool tick)
    let txs ← .one .quiet do
      walletLock W
      txLogIter
    let found := txs.filter fun e => e.txSlateId = some txSlateId ∧ inMempool mempool e = true
    Sections.forEach found fun e => .one (.mark e) (markInMempool W mask e)
    if found.isEmpty then waitSections mask txSlateId attempts else pure true

/-! ## Refreshing -/

def lookupSections (mask : Option SecretKey) (parentKeyId : Identifier) (height : Nat) :
    List TxLogEntry → Call Bool
  | [] => pure true
  | tx :: txs =>
    if tx.confirmed ∨ (tx.amountDebited ≠ 0 ∧ tx.amountCredited ≠ 0) then
      lookupSections mask parentKeyId height txs
    else match tx.kernelExcess with
      | none => lookupSections mask parentKeyId height txs
      | some e => do
        let tick ← .one .quiet nextTick
        match W.kernel tick e tx.kernelLookupMinHeight (some height) with
        | .error _ => pure false
        | .ok none => lookupSections mask parentKeyId height txs
        | .ok (some _) => do
          .one (.confirm parentKeyId tx) (saveConfirmed W mask parentKeyId height tx)
          lookupSections mask parentKeyId height txs

def kernelSections (mask : Option SecretKey) (txs : List TxLogEntry) : Call Bool := do
  let parent ← .one .quiet do
    walletLock W
    parentKeyId
  .one .quiet (walletLock W)
  match ← .one .quiet (Prog.attempt (Updater.getChainTip W)) with
  | .error _ => pure false
  | .ok tip => lookupSections W mask parent tip.1 txs

def scanSections (mask : Option SecretKey) (tip : Nat × String) : Call Unit := do
  let last ← .one .quiet do
    walletLock W
    scanStart tip
  let info ← Scan.sections W mask false (last.height - 100) tip.1
  .one .quiet do
    walletLock W
    let _ ← batch W mask
    Batch.saveLastScannedBlock { info with hash := tip.2 }
    Batch.saveInitStatus .initComplete
    Batch.commit

def expireSections (mask : Option SecretKey) (tip : Nat) (tx : TxLogEntry) : Call Unit :=
  match tx.ttlCutoffHeight with
  | none => pure ()
  | some e =>
    if tip ≥ e then .one (.cancel (some tx.id) none) do
      walletLock W
      let parent ← parentKeyId
      Tx.cancelTx W mask parent (some tx.id) none
    else pure ()

def tipSections (mask : Option SecretKey) (txs : List TxLogEntry) : Call Bool := do
  match ← .one .quiet (Prog.attempt (Updater.getChainTip W)) with
  | .error _ => pure false
  | .ok tip => do
    scanSections W mask tip
    Sections.forEach txs (expireSections W mask tip.1)
    pure true

def updateSections (mask : Option SecretKey) : Call Bool := do
  let parent ← .one .quiet do
    walletLock W
    parentKeyId
  .one .quiet (walletLock W)
  let result ← .one .refresh (updateOutputs W mask)
  if ¬result then pure false
  else do
    let txs ← .one .quiet do
      walletLock W
      Updater.retrieveTxs none none (some parent) true none none none
    let result ← kernelSections W mask txs.2.2
    if ¬result then pure false
    else tipSections W mask txs.2.2

def cancelSections (mask : Option SecretKey) (txId : Option Nat) (txSlateId : Option Uuid) :
    Call Unit := do
  let updated ← updateSections W mask
  if ¬updated then
    .one .quiet (Prog.throw
      (.transactionCancellationError "Can't contact running Epic node. Not Cancelling."))
  else .one (.cancel txId txSlateId) do
    walletLock W
    let parent ← parentKeyId
    Tx.cancelTx W mask parent txId txSlateId

def ownerScanSections (mask : Option SecretKey) (startHeight : Option Nat)
    (deleteUnconfirmed : Bool) : Call Unit := do
  let _ ← .one .refresh (updateOutputs W mask)
  let tip ← .one .quiet do
    walletLock W
    Updater.getChainTip W
  let info ← Scan.sections W mask deleteUnconfirmed (startHeight.getD 1) tip.1
  .one .quiet do
    walletLock W
    let _ ← batch W mask
    Batch.saveLastScannedBlock { info with hash := tip.2 }
    Batch.commit

end Owner

/-! ## All calls -/

namespace Op

variable (W : World)

/-- The sections of an operation. -/
def sections : Op → Call Unit
  | waitForTxInMempool mask txSlateId attempts => do
    let _ ← Owner.waitSections W mask txSlateId attempts
  | updateWalletState mask => do let _ ← Owner.updateSections W mask
  | cancelTx mask txId txSlateId => Owner.cancelSections W mask txId txSlateId
  | scan mask startHeight deleteUnconfirmed =>
    Owner.ownerScanSections W mask startHeight deleteUnconfirmed
  | op => .one (.call op) (op.prog W)

end Op

/-! ## With nothing in between -/

namespace Scan

variable (W : World)

theorem matchSections_run (mask : Option SecretKey) (wo : List (OutputData × Commitment)) :
    ∀ l : List OutputResult, (matchSections W mask wo l).run = matchOutputs W mask wo l
  | [] => rfl
  | deffo :: l => by
    unfold matchSections matchOutputs
    rcases hf : wo.find? fun o => decide (o.2 = deffo.commit) with _ | s
    · simp only [hf, Sections.run_bind, matchSections_run mask wo l, Sections.run_pure]
    · simp only [hf, Sections.run_bind, matchSections_run mask wo l, Sections.run_pure, Sections.run_one]

theorem unspentSections_run (mask : Option SecretKey) (o : OutputData) :
    (unspentSections W mask o).run = markUnspent W mask o := by
  unfold unspentSections markUnspent
  simp only [Sections.run_bind, Sections.run_one]

theorem unconfirmedSections_run (mask : Option SecretKey) (o : OutputData) :
    (unconfirmedSections W mask o).run = deleteUnconfirmed W mask o := by
  unfold unconfirmedSections deleteUnconfirmed
  simp only [Sections.run_bind, Sections.run_one]

theorem restorePathSections_run (mask : Option SecretKey) (accounts : List Identifier)
    (acctIndex : Nat) (found : Identifier × Nat) :
    (restorePathSections W mask accounts acctIndex found).run =
      restorePath W mask accounts acctIndex found := by
  unfold restorePathSections restorePath
  simp only [Sections.run_bind, Sections.run_one, Sections.run_ite, Sections.run_pure, bind_assoc]

theorem sections_run (mask : Option SecretKey) (delete : Bool) (startHeight endHeight : Nat) :
    (sections W mask delete startHeight endHeight).run = scan W mask delete startHeight endHeight := by
  unfold sections scan
  simp only [Sections.run_bind, Sections.run_one, Sections.run_ite, Sections.run_pure,
    Sections.run_forEach, Sections.run_foldlM, bind_assoc, matchSections_run, unspentSections_run,
    unconfirmedSections_run, restorePathSections_run]

end Scan

namespace Owner

variable (W : World)

theorem waitSections_run (mask : Option SecretKey) (txSlateId : Uuid) :
    ∀ n, (waitSections W mask txSlateId n).run = waitForTxInMempool W mask txSlateId n
  | 0 => rfl
  | n + 1 => by
    unfold waitSections waitForTxInMempool
    simp only [Sections.run_bind, Sections.run_one, Sections.run_ite, Sections.run_pure,
      Sections.run_forEach, bind_assoc, waitSections_run mask txSlateId n]

theorem lookupSections_run (mask : Option SecretKey) (parent : Identifier) (height : Nat) :
    ∀ l, (lookupSections W mask parent height l).run = lookupKernels W mask parent height l
  | [] => rfl
  | tx :: l => by
    unfold lookupSections lookupKernels
    rw [Sections.run_ite, lookupSections_run mask parent height l]
    congr 1
    rcases tx.kernelExcess with _ | e
    · exact lookupSections_run mask parent height l
    · simp only [Sections.run_bind, Sections.run_one]
      congr 1
      funext tick
      rcases W.kernel tick e tx.kernelLookupMinHeight (some height) with _ | _ | _
      · rfl
      · exact lookupSections_run mask parent height l
      · simp only [Sections.run_bind, Sections.run_one, lookupSections_run mask parent height l]

theorem kernelSections_run (mask : Option SecretKey) (txs : List TxLogEntry) :
    (kernelSections W mask txs).run = updateTxsViaKernel W mask txs := by
  unfold kernelSections updateTxsViaKernel
  simp only [Sections.run_bind, Sections.run_one, bind_assoc]
  congr 1
  funext _
  congr 1
  funext parent
  congr 1
  funext _
  congr 1
  funext tip
  rcases tip with _ | tip
  · rfl
  · exact lookupSections_run W mask parent tip.1 txs

theorem scanSections_run (mask : Option SecretKey) (tip : Nat × String) :
    (scanSections W mask tip).run = scanStep W mask tip := by
  unfold scanSections scanStep
  simp only [Sections.run_bind, Sections.run_one, bind_assoc, Scan.sections_run]

theorem expireSections_run (mask : Option SecretKey) (tip : Nat) (tx : TxLogEntry) :
    (expireSections W mask tip tx).run = cancelExpired W mask tip tx := by
  unfold expireSections cancelExpired
  rcases tx.ttlCutoffHeight with _ | e
  · rfl
  · simp only [Sections.run_ite, Sections.run_one, Sections.run_pure]

theorem tipSections_run (mask : Option SecretKey) (txs : List TxLogEntry) :
    (tipSections W mask txs).run = updateFromTip W mask txs := by
  unfold tipSections updateFromTip
  simp only [Sections.run_bind, Sections.run_one]
  congr 1
  funext tip
  rcases tip with _ | tip
  · rfl
  · simp only [Sections.run_bind, Sections.run_forEach, Sections.run_pure, scanSections_run,
      expireSections_run]

theorem updateSections_run (mask : Option SecretKey) :
    (updateSections W mask).run = updateWalletState W mask := by
  unfold updateSections updateWalletState
  simp only [Sections.run_bind, Sections.run_one, Sections.run_ite, Sections.run_pure, bind_assoc,
    kernelSections_run, tipSections_run]

theorem cancelSections_run (mask : Option SecretKey) (txId : Option Nat) (txSlateId : Option Uuid) :
    (cancelSections W mask txId txSlateId).run = cancelTx W mask txId txSlateId := by
  unfold cancelSections cancelTx
  simp only [Sections.run_bind, Sections.run_one, Sections.run_ite, updateSections_run]

theorem ownerScanSections_run (mask : Option SecretKey) (startHeight : Option Nat) (delete : Bool) :
    (ownerScanSections W mask startHeight delete).run = scan W mask startHeight delete := by
  unfold ownerScanSections scan
  simp only [Sections.run_bind, Sections.run_one, bind_assoc, Scan.sections_run]

end Owner

/-- The sections of an operation one after the other are the operation. -/
theorem Op.run_sections (W : World) (op : Op) : (op.sections W).run = op.prog W := by
  cases op with
  | waitForTxInMempool mask txSlateId attempts =>
    show (Owner.waitSections W mask txSlateId attempts >>= fun _ => pure ()).run = _
    rw [Sections.run_bind, Owner.waitSections_run]
    rfl
  | updateWalletState mask =>
    show (Owner.updateSections W mask >>= fun _ => pure ()).run = _
    rw [Sections.run_bind, Owner.updateSections_run]
    rfl
  | cancelTx mask txId txSlateId => exact Owner.cancelSections_run W mask txId txSlateId
  | scan mask startHeight delete => exact Owner.ownerScanSections_run W mask startHeight delete
  | _ => exact Sections.run_one _ _

end EpicWallet
