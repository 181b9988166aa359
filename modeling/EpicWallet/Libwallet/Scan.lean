import EpicWallet.Libwallet.Tx

/-!
# Scanning the chain

`libwallet/src/internal/scan.rs`: the outputs of the chain are compared with the wallet's; outputs
that are missing are restored, outputs wrongly spent or, if asked for, locked or unconfirmed are
set right and their entries cancelled. The wallet is locked for single steps only (`walletLock`), so
another call may switch the active account in between.
-/

namespace EpicWallet

open Lib WalletBackend

/-- `wallet_lock!`: before the lock is taken other calls may have switched the active account, or the
program was stopped. -/
def walletLock (W : World) : WalletM Unit := do
  let tick ← nextTick
  if W.stops tick then Prog.panic
  else Prog.forEach (W.switches tick) fun label => do
    let _ ← Prog.attempt (setParentKeyIdByName label)

namespace Scan

variable (W : World)

structure OutputResult where
  commit : Commitment
  keyId : Identifier
  nChild : Nat
  mmrIndex : Nat
  value : Nat
  height : Nat
  lockHeight : Nat
  isCoinbase : Bool
deriving DecidableEq

/-- The outputs among those of the chain whose range proof the keychain can read. -/
def identifyUtxoOutputs (k : Keychain) : List ChainOutput → WalletM (List OutputResult)
  | [] => pure []
  | output :: l => do
    let infoNew ← Prog.ofExcept (W.rewind k false output.commit output.proof)
    let info ← (match infoNew with
      | none => Prog.ofExcept (W.rewind k true output.commit output.proof)
      | some i => pure (some i))
    match info with
    | none => identifyUtxoOutputs k l
    | some (amount, keyId, _) => do
      let lockHeight ← (if output.isCoinbase then addU64 output.height W.coinbaseMaturity
        else pure output.height)
      let rest ← identifyUtxoOutputs k l
      pure ({
        commit := output.commit
        keyId
        nChild := keyId.lastPathIndex
        mmrIndex := output.mmrIndex
        value := amount
        height := output.height
        lockHeight
        isCoinbase := output.isCoinbase } :: rest)

/-- The loop of `collect_chain_outputs`; the number is the rounds left. -/
def collectFrom (k : Keychain) (endIndex : Option Nat) :
    Nat → Nat → WalletM (List OutputResult × Nat)
  | 0, _ => Prog.panic
  | rounds + 1, startIndex => do
    let tick ← nextTick
    let (highestIndex, lastRetrievedIndex, outputs) ← Prog.ofExcept
      (W.outputsByPmmrIndex tick startIndex endIndex 1000)
    let result ← identifyUtxoOutputs W k outputs
    if highestIndex ≤ lastRetrievedIndex then pure (result, lastRetrievedIndex)
    else do
      let next ← addU64 lastRetrievedIndex 1
      let (rest, last) ← collectFrom k endIndex rounds next
      pure (result ++ rest, last)

def collectChainOutputs (k : Keychain) (startIndex : Nat) (endIndex : Option Nat) :
    WalletM (List OutputResult × Nat) :=
  collectFrom W k endIndex W.patience startIndex

/-- The entry of a restored output. -/
def restoredEntry (output : OutputResult) (parentKeyId : Identifier) (logId : Nat)
    (created confirmed : DateTime) : TxLogEntry :=
  let t := TxLogEntry.new parentKeyId
    (if output.isCoinbase then .confirmedCoinbase else .txReceived) logId created
  { t with
    confirmed := true
    amountCredited := output.value
    numOutputs := 1
    publicAddr := some "Restore"
    confirmationTs := some confirmed }

/-- The output stored for one found on the chain. -/
def restoredOutput (output : OutputResult) (parentKeyId : Identifier) (commit : Option String)
    (logId : Nat) : OutputData where
  rootKeyId := parentKeyId
  keyId := output.keyId
  nChild := output.nChild
  mmrIndex := some output.mmrIndex
  commit
  value := output.value
  status := .unspent
  height := output.height
  lockHeight := output.lockHeight
  isCoinbase := output.isCoinbase
  txLogEntry := some logId

/-- `restore_missing_output`, which `scan` calls without statistics: one entry for each output. The
result is the greatest child index seen for each account. -/
def restoreMissingOutput (mask : Option SecretKey) (output : OutputResult)
    (foundParents : Rows Identifier Nat) : WalletM (Rows Identifier Nat) := do
  walletLock W
  let commit ← calcCommitForCache W mask output.value output.keyId
  let _ ← batch W mask
  let parentKeyId := output.keyId.parentPath
  let foundParents := match foundParents.get parentKeyId with
    | some _ => foundParents
    | none => foundParents.put parentKeyId 0
  let logId ← Batch.nextTxLogId parentKeyId
  let created ← nextTick
  let confirmed ← nextTick
  Batch.saveTxLogEntry (restoredEntry output parentKeyId logId (W.now created) (W.now confirmed))
    parentKeyId
  let _ ← Prog.attempt (Batch.save (restoredOutput output parentKeyId commit logId))
  let maxChildIndex ← Prog.unwrap (foundParents.get parentKeyId)
  Batch.commit
  pure (if output.nChild ≥ maxChildIndex then foundParents.put parentKeyId output.nChild
    else foundParents)

/-- The entry an output belongs to, cancelled if it can be. -/
def cancelledEntry (parentKeyId : Identifier) : Option Nat → WalletM (Option TxLogEntry)
  | none => pure none
  | some id => do
    let entries ← Updater.retrieveTxs (some id) none (some parentKeyId) false none none none
    pure (entries.2.2.head?.map fun entry =>
      { entry with txType := Updater.cancelledType entry.txType })

def cancelTxLogEntry (mask : Option SecretKey) (output : OutputData) : WalletM Unit := do
  let parentKeyId := output.keyId.parentPath
  walletLock W
  let updatedTxEntry ← cancelledEntry parentKeyId output.txLogEntry
  let _ ← batch W mask
  (match updatedTxEntry with
    | some t => Batch.saveTxLogEntry t parentKeyId
    | none => pure ())
  Batch.commit

/-- The MMR index of a known output is set to that of the chain. -/
def updateMmrIndex (mask : Option SecretKey) (s : OutputData) (mmrIndex : Nat) : WalletM Unit :=
  if s.mmrIndex ≠ some mmrIndex then do
    walletLock W
    let _ ← batch W mask
    (if s.mmrIndex.isNone then Batch.delete s.keyId none s.txLogEntry else pure ())
    Batch.save { s with mmrIndex := some mmrIndex }
    Batch.commit
  else pure ()

/-- The outputs found on the chain sorted by what is wrong with the wallet's: missing ones, and the
wallet's own that are marked spent or locked. -/
def matchOutputs (mask : Option SecretKey) (walletOutputs : List (OutputData × Commitment)) :
    List OutputResult → WalletM (List OutputResult × List OutputData × List OutputData)
  | [] => pure ([], [], [])
  | deffo :: l =>
    match walletOutputs.find? fun wo => wo.2 = deffo.commit with
    | some s => do
      updateMmrIndex W mask s.1 deffo.mmrIndex
      let (missing, spent, locked) ← matchOutputs mask walletOutputs l
      pure (missing, if s.1.status = .spent then s.1 :: spent else spent,
        if s.1.status = .locked then s.1 :: locked else locked)
    | none => do
      let (missing, spent, locked) ← matchOutputs mask walletOutputs l
      pure (deffo :: missing, spent, locked)

/-- An output marked spent or locked that is on the chain is unspent, its entry cancelled. -/
def markUnspent (mask : Option SecretKey) (o : OutputData) : WalletM Unit := do
  let o := { o with status := .unspent }
  cancelTxLogEntry W mask o
  walletLock W
  let _ ← batch W mask
  Batch.save o
  Batch.commit

/-- An unconfirmed output is deleted, its entry cancelled. -/
def deleteUnconfirmed (mask : Option SecretKey) (o : OutputData) : WalletM Unit := do
  cancelTxLogEntry W mask o
  walletLock W
  let _ ← batch W mask
  Batch.delete o.keyId o.mmrIndex o.txLogEntry
  Batch.commit

/-- The account of restored outputs and its next child index. -/
def restorePath (mask : Option SecretKey) (accounts : List Identifier) (acctIndex : Nat)
    (found : Identifier × Nat) : WalletM Nat := do
  let acctIndex ← (if found.1 ∈ accounts then pure acctIndex
    else do
      walletLock W
      Keys.setAcctPath W mask ("account_" ++ toString acctIndex) found.1
      pure (acctIndex + 1))
  walletLock W
  let current ← currentChildIndex found.1
  (if found.2 ≥ current then do
    walletLock W
    let _ ← batch W mask
    let next ← addU32 found.2 1
    Batch.saveChildIndex found.1 next
    Batch.commit
  else pure ())
  pure acctIndex

def scan (mask : Option SecretKey) (deleteUnconfirmedOutputs : Bool) (startHeight endHeight : Nat) :
    WalletM ScannedBlockInfo := do
  walletLock W
  let k ← keychain W mask
  let tick ← nextTick
  let pmmrRange ← Prog.ofExcept (W.pmmrIndices tick startHeight (some endHeight))
  let (chainOuts, lastIndex) ← collectChainOutputs W k pmmrRange.1 (some pmmrRange.2)
  walletLock W
  let walletOutputs ← Updater.retrieveOutputs W mask true false none none none none none
  let (missing, spent, locked) ← matchOutputs W mask walletOutputs.2.2 chainOuts
  Prog.forEach spent (markUnspent W mask)
  let foundParents ← missing.foldlM (fun found m => restoreMissingOutput W mask m found) Rows.empty
  (if deleteUnconfirmedOutputs then do
    Prog.forEach locked (markUnspent W mask)
    Prog.forEach ((walletOutputs.2.2.map Prod.fst).filter fun o => o.status = .unconfirmed)
      (deleteUnconfirmed W mask)
  else pure ())
  walletLock W
  let accounts ← acctPathIter
  let tick ← nextTick
  let _ ← (W.mapOrder tick foundParents.toList).foldlM
    (restorePath W mask (accounts.map (·.path))) accounts.length
  pure ⟨endHeight, "", pmmrRange.1, lastIndex⟩

end Scan

end EpicWallet
