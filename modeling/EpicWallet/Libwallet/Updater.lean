import EpicWallet.Libwallet.Selection

/-!
# Keys, outputs and the transaction log

`libwallet/src/internal/keys.rs` and `updater.rs`: account paths, retrieving outputs and log entries,
refreshing the outputs of an account from the node, rolling a transaction back, and coinbase outputs.
-/

namespace EpicWallet

open Lib WalletBackend

/-! ## Keys -/

namespace Keys

variable (W : World)

def nextAvailableKey (mask : Option SecretKey) : WalletM Identifier := nextChild W mask

def retrieveExistingKey (keyId : Identifier) (mmrIndex : Option Nat) : WalletM (Identifier × Nat) := do
  let existing ← getOutput keyId mmrIndex
  pure (existing.keyId, existing.nChild)

/-- `max_by` on the first path component: the last of the greatest. -/
def highestEntry (l : List AcctPathMapping) : Option AcctPathMapping :=
  l.foldl (fun best a => match best with
    | none => some a
    | some b => if a.path.p0 < b.path.p0 then some b else some a) none

def newAcctPath (mask : Option SecretKey) (label : String) : WalletM Identifier := do
  let l ← acctPathIter
  match l.find? (·.label = label) with
  | some _ => Prog.throw (.accountLabelAlreadyExists label)
  | none => do
    let returnId ← (match highestEntry l with
      | some e => do
        let p0 ← addU32 e.path.p0 1
        pure { e.path with p0 }
      | none => pure (Identifier.derive 2 0 0 0 0))
    let _ ← batch W mask
    Batch.saveAcctPath ⟨label, returnId⟩
    Batch.commit
    pure returnId

def setAcctPath (mask : Option SecretKey) (label : String) (path : Identifier) : WalletM Unit := do
  let _ ← batch W mask
  Batch.saveAcctPath ⟨label, path⟩
  Batch.commit

end Keys

namespace Updater

variable (W : World)

/-! ## Retrieving -/

/-- `sort_by_key` with the order given as text; anything but "asc" is descending. -/
def sortBy {α : Type} (sortOrder : Option String) (key : α → Int) (l : List α) : List α :=
  match sortOrder.getD "asc" with
  | "asc" => l.insertionSort fun a b => key a ≤ key b
  | _ => l.insertionSort fun a b => key b ≤ key a

def paginate {α : Type} (limit offset : Option Nat) (l : List α) : WalletM (List α) := do
  let start := offset.getD 0
  let stop ← (match limit with
    | some n => addU64 start n
    | none => pure l.length)
  let count ← subU64 stop start
  pure ((l.drop start).take count)

/-- The commitment of an output, from its cache or from the keychain. -/
def commitOf (k : Keychain) (output : OutputData) : WalletM Commitment :=
  match output.commit with
  | some c => Prog.unwrap (W.commitmentFromHex c)
  | none => Prog.orPanic (Prog.ofExcept (W.commit k output.value output.keyId .regular))

/-- The outputs `retrieve_outputs` returns, before sorting and pagination. -/
def selectedOutputs (d : Rows Key Serializable) (showSpent showFullHistory : Bool)
    (txId : Option Nat) (parentKeyId : Option Identifier) : List OutputData :=
  ((outputsOf d ++ if showFullHistory then historyOf d else []).filter fun out =>
    (showSpent || out.status ≠ .spent) &&
    (match txId with
      | some id => out.txLogEntry = some id
      | none => true) &&
    (match parentKeyId with
      | some k => out.rootKeyId = k
      | none => true))

def mapCommits (k : Keychain) : List OutputData → WalletM (List (OutputData × Commitment))
  | [] => pure []
  | output :: l => do
    let commit ← commitOf W k output
    let rest ← mapCommits k l
    pure ((output, commit) :: rest)

theorem commitOf_reads (k : Keychain) (output : OutputData) : Prog.Reads (commitOf W k output) := by
  unfold commitOf
  split
  · exact .unwrap _
  · exact (Prog.Keeps.ofExcept _).orPanic

theorem mapCommits_reads (k : Keychain) : ∀ l : List OutputData, Prog.Reads (mapCommits W k l)
  | [] => .pure _
  | o :: l => (commitOf_reads W k o).bind fun _ => (mapCommits_reads k l).bind fun _ => .pure _

def retrieveOutputs (mask : Option SecretKey) (showSpent showFullHistory : Bool)
    (txId : Option Nat) (parentKeyId : Option Identifier) (limit offset : Option Nat)
    (sortOrder : Option String) : WalletM (Nat × Nat × List (OutputData × Commitment)) := do
  let d ← rows
  let outputs := sortBy sortOrder (fun out => out.height)
    (selectedOutputs d showSpent showFullHistory txId parentKeyId)
  let paginated ← paginate limit offset outputs
  let k ← keychain W mask
  let res ← mapCommits W k paginated
  pure (paginated.length, outputs.length, res)

def outstanding (t : TxLogEntry) : Bool :=
  !t.confirmed && (t.txType = .txReceived || t.txType = .txSent || t.txType = .txSentCreated)

/-- The entries `retrieve_txs` returns, before sorting and pagination. -/
def selectedTxs (d : Rows Key Serializable) (txId : Option Nat) (txSlateId : Option Uuid)
    (parentKeyId : Option Identifier) (outstandingOnly : Bool) : List TxLogEntry :=
  (txLogOf d).filter fun t =>
    (match parentKeyId with
      | some k => t.parentKeyId = k
      | none => true) &&
    (match txId with
      | some i => t.id = i
      | none => true) &&
    (match txSlateId with
      | some u => t.txSlateId = some u
      | none => true) &&
    (!outstandingOnly || outstanding t)

def retrieveTxs (txId : Option Nat) (txSlateId : Option Uuid) (parentKeyId : Option Identifier)
    (outstandingOnly : Bool) (limit offset : Option Nat) (sortOrder : Option String) :
    WalletM (Nat × Nat × List TxLogEntry) := do
  let d ← rows
  let txs := sortBy sortOrder (fun t => t.creationTs.nanos)
    (selectedTxs d txId txSlateId parentKeyId outstandingOnly)
  let paginated ← paginate limit offset txs
  pure (paginated.length, txs.length, paginated)

theorem mem_sortBy {α : Type} {sortOrder : Option String} {key : α → Int} {l : List α} {a : α} :
    a ∈ sortBy sortOrder key l ↔ a ∈ l := by
  unfold sortBy
  split
  · exact (List.perm_insertionSort _ _).mem_iff
  · exact (List.perm_insertionSort _ _).mem_iff

theorem paginate_reads {α : Type} (limit offset : Option Nat) (l : List α) :
    Prog.Reads (paginate limit offset l) := by
  refine Prog.Keeps.bind ?_ fun _ => (subU64_reads _ _).bind fun _ => .pure _
  split
  · exact addU64_reads _ _
  · exact .pure _

/-- Without limit and offset nothing is cut off. -/
theorem paginate_all {α : Type} (l : List α) (w : Wallet) : paginate none none l w = (.ok l, w) := by
  unfold paginate
  rw [Prog.bind_of_ok (Prog.pure_apply l.length w)]
  refine (Prog.bind_of_ok (subU64_ok.2 ⟨rfl, Nat.zero_le _, rfl⟩)).trans ?_
  simp

theorem mem_selectedTxs {d : Rows Key Serializable} {txId : Option Nat} {txSlateId : Option Uuid}
    {parentKeyId : Option Identifier} {outstandingOnly : Bool} {t : TxLogEntry} :
    t ∈ selectedTxs d txId txSlateId parentKeyId outstandingOnly ↔ t ∈ txLogOf d ∧
      (∀ k, parentKeyId = some k → t.parentKeyId = k) ∧ (∀ i, txId = some i → t.id = i) ∧
      (∀ u, txSlateId = some u → t.txSlateId = some u) ∧
      (outstandingOnly = true → outstanding t = true) := by
  unfold selectedTxs
  rw [List.mem_filter]
  cases parentKeyId <;> cases txId <;> cases txSlateId <;> cases outstandingOnly <;>
    simp [and_assoc]

theorem retrieveTxs_reads (txId : Option Nat) (txSlateId : Option Uuid)
    (parentKeyId : Option Identifier) (outstandingOnly : Bool) (limit offset : Option Nat)
    (sortOrder : Option String) :
    Prog.Reads (retrieveTxs txId txSlateId parentKeyId outstandingOnly limit offset sortOrder) :=
  rows_reads.bind fun _ => (paginate_reads _ _ _).bind fun _ => .pure _

/-- `retrieve_txs` without pagination. -/
theorem retrieveTxs_all (txId : Option Nat) (txSlateId : Option Uuid)
    (parentKeyId : Option Identifier) (outstandingOnly : Bool) (sortOrder : Option String)
    (w : Wallet) : ∃ n l, retrieveTxs txId txSlateId parentKeyId outstandingOnly none none
        sortOrder w = (.ok (n, n, l), w) ∧
      ∀ t, t ∈ l ↔ t ∈ selectedTxs w.db txId txSlateId parentKeyId outstandingOnly := by
  unfold retrieveTxs
  rw [Prog.bind_of_ok (rows_apply w), Prog.bind_of_ok (paginate_all _ w)]
  exact ⟨_, _, rfl, fun t => mem_sortBy⟩

theorem retrieveOutputs_reads (mask : Option SecretKey) (showSpent showFullHistory : Bool)
    (txId : Option Nat) (parentKeyId : Option Identifier) (limit offset : Option Nat)
    (sortOrder : Option String) : Prog.Reads (retrieveOutputs W mask showSpent showFullHistory txId
      parentKeyId limit offset sortOrder) := by
  refine rows_reads.bind fun _ => (paginate_reads _ _ _).bind fun l =>
    (keychain_reads W mask).bind fun k => Prog.Keeps.bind ?_ fun _ => .pure _
  exact mapCommits_reads W k l

theorem mapCommits_fst {k : Keychain} : ∀ {l : List OutputData} {res : List (OutputData × Commitment)}
    {w w' : Wallet}, mapCommits W k l w = (.ok res, w') → res.map Prod.fst = l
  | [], res, w, w', h => by
    cases h
    rfl
  | o :: l, res, w, w', h => by
    obtain ⟨c, w₁, -, h₁⟩ := Prog.bind_ok.1 h
    obtain ⟨rest, w₂, hr, h₂⟩ := Prog.bind_ok.1 h₁
    cases h₂
    rw [List.map_cons, mapCommits_fst hr]

/-- The outputs `retrieve_outputs` returns are those selected. -/
theorem retrieveOutputs_ok {mask : Option SecretKey} {showSpent showFullHistory : Bool}
    {txId : Option Nat} {parentKeyId : Option Identifier} {sortOrder : Option String}
    {r : Nat × Nat × List (OutputData × Commitment)} {w w' : Wallet}
    (h : retrieveOutputs W mask showSpent showFullHistory txId parentKeyId none none sortOrder w =
      (.ok r, w')) (o : OutputData) :
    o ∈ r.2.2.map Prod.fst ↔ o ∈ selectedOutputs w.db showSpent showFullHistory txId parentKeyId := by
  unfold retrieveOutputs at h
  rw [Prog.bind_of_ok (rows_apply w), Prog.bind_of_ok (paginate_all _ w)] at h
  obtain ⟨k, w₁, -, h₁⟩ := Prog.bind_ok.1 h
  obtain ⟨res, w₂, hm, h₂⟩ := Prog.bind_ok.1 h₁
  cases h₂
  rw [mapCommits_fst W hm, mem_sortBy]

theorem mem_selectedOutputs {d : Rows Key Serializable} {showSpent : Bool} {txId : Option Nat}
    {parentKeyId : Option Identifier} {o : OutputData} :
    o ∈ selectedOutputs d showSpent false txId parentKeyId ↔ o ∈ outputsOf d ∧
      (showSpent = false → o.status ≠ .spent) ∧ (∀ i, txId = some i → o.txLogEntry = some i) ∧
      ∀ k, parentKeyId = some k → o.rootKeyId = k := by
  unfold selectedOutputs
  rw [List.mem_filter]
  cases showSpent <;> cases txId <;> cases parentKeyId <;> simp [and_assoc]

/-! ## Rolling back -/

/-- What the rollback of transaction `txId` does with one of its outputs. -/
def cancelOutput (txId : Nat) (o : OutputData) : WalletM Unit := do
  (if o.status = .unconfirmed then Batch.delete o.keyId o.mmrIndex (some txId) else pure ())
  if o.status = .locked then Batch.save { o with status := .unspent } else pure ()

/-- The type of a cancelled entry. -/
def cancelledType : TxLogEntryType → TxLogEntryType
  | .txSentCreated => .txSentCancelled
  | .txReceived => .txReceivedCancelled
  | ty => ty

def cancelTxAndOutputs (mask : Option SecretKey) (tx : TxLogEntry) (outputs : List OutputData)
    (parentKeyId : Identifier) : WalletM Unit := do
  let _ ← batch W mask
  Prog.forEach outputs (cancelOutput tx.id)
  Batch.saveTxLogEntry { tx with txType := cancelledType tx.txType } parentKeyId
  Batch.commit

/-! ## Refreshing -/

/-- The outputs to ask the node for, by commitment. -/
def mapWalletOutputs (mask : Option SecretKey) (parentKeyId : Identifier) :
    WalletM (Rows Commitment (Identifier × Option Nat)) := do
  let k ← keychain W mask
  let d ← rows
  let unspents := (outputsOf d).filter fun x => x.rootKeyId = parentKeyId ∧ x.status ≠ .spent
  unspents.foldlM (fun (r : Rows Commitment (Identifier × Option Nat)) out => do
    let commit ← commitOf W k out
    pure (r.put commit (out.keyId, out.mmrIndex))) Rows.empty

/-- A coinbase output seen on the chain gets an entry of its own. -/
def confirmCoinbase (parentKeyId : Identifier) (height : Nat) (commit : Commitment)
    (output : OutputData) : WalletM OutputData := do
  let logId ← Batch.nextTxLogId parentKeyId
  let tick ← nextTick
  let overCommit ← Prog.ofExcept (W.commitValue output.value)
  let excess ← Prog.ofExcept (W.commitSum [commit] [overCommit])
  let tick' ← nextTick
  let t := TxLogEntry.new parentKeyId .confirmedCoinbase logId (W.now tick)
  let t := { t with
    confirmed := true
    amountCredited := output.value
    amountDebited := 0
    numOutputs := 1
    kernelExcess := some excess
    kernelLookupMinHeight := some height }
  let t := { t.updateConfirmationTs (W.now tick') with confirmationHeight := some height }
  Batch.saveTxLogEntry t parentKeyId
  pure { output with txLogEntry := some logId }

/-- The entry of a confirmed output's transaction, confirmed. -/
def confirmedEntry (t : TxLogEntry) (now : DateTime) (height : Nat) : TxLogEntry :=
  { t.updateConfirmationTs now with
    confirmationHeight := some height
    confirmed := true
    txType := if t.txType = .txSentMempool ∨ t.txType = .txSentCreated then .txSent else t.txType }

/-- An output seen on the chain confirms the entry it belongs to. -/
def confirmEntry (parentKeyId : Identifier) (height : Nat) (output : OutputData) : WalletM Unit := do
  let l ← txLogIter
  match l.find? fun t => some t.id = output.txLogEntry ∧ t.parentKeyId = parentKeyId with
  | some t => do
    let tick ← nextTick
    Batch.saveTxLogEntry (confirmedEntry t (W.now tick) height) parentKeyId
  | none => pure ()

/-- An output the node lists at height `onChain`. -/
def confirmOutput (parentKeyId : Identifier) (height onChain : Nat) (commit : Commitment)
    (output : OutputData) : WalletM OutputData := do
  let o ← (if output.isCoinbase ∧ output.status = .unconfirmed then
      confirmCoinbase W parentKeyId height commit output
    else pure output)
  (if ¬o.isCoinbase ∧ o.status = .unconfirmed then confirmEntry W parentKeyId height o else pure ())
  pure { o with height := onChain }.markUnspent

/-- One round of the loop of `apply_api_outputs`. -/
def applyApiOutput (apiOutputs : List (Commitment × String × Nat × Nat)) (height : Nat)
    (parentKeyId : Identifier) (row : Commitment × Identifier × Option Nat) : WalletM Unit := do
  match ← Prog.attempt (getOutput row.2.1 row.2.2) with
  | .error _ => pure ()
  | .ok output => do
    let output ← (match apiOutputs.lookup row.1 with
      | some o => confirmOutput W parentKeyId height o.2.1 row.1 output
      | none => pure output.markSpent)
    Batch.save output

def applyApiOutputs (mask : Option SecretKey)
    (walletOutputs : Rows Commitment (Identifier × Option Nat))
    (apiOutputs : List (Commitment × String × Nat × Nat)) (height : Nat)
    (parentKeyId : Identifier) : WalletM Unit := do
  -- the height of the active account, whatever `parent_key_id` is
  let last ← lastConfirmedHeight
  if height < last then pure ()
  else do
    let _ ← batch W mask
    let tick ← nextTick
    Prog.forEach (W.mapOrder tick walletOutputs.toList)
      (applyApiOutput W apiOutputs height parentKeyId)
    Batch.saveLastConfirmedHeight parentKeyId height
    Batch.commit

/-- Coinbase outputs that were not mined for 50 blocks. -/
def staleCoinbase (height : Nat) (out : OutputData) : Bool :=
  out.status = .unconfirmed && 0 < out.height && out.height < height - 50 && out.isCoinbase

def cleanOldUnconfirmed (mask : Option SecretKey) (height : Nat) : WalletM Unit := do
  if height < 50 then pure ()
  else do
    let l ← iter
    let idsToDel := (l.filter (staleCoinbase height)).map (·.keyId)
    let _ ← batch W mask
    Prog.forEach idsToDel fun id => Batch.delete id none none
    Batch.commit

def refreshOutputState (mask : Option SecretKey) (height : Nat) (parentKeyId : Identifier) :
    WalletM Unit := do
  let walletOutputs ← mapWalletOutputs W mask parentKeyId
  let tick ← nextTick
  let apiOutputs ← Prog.ofExcept
    (W.outputsFromNode tick (W.mapOrder tick (walletOutputs.toList.map Prod.fst)))
  applyApiOutputs W mask walletOutputs apiOutputs height parentKeyId
  cleanOldUnconfirmed W mask height

def getNodeStatus : WalletM String := do
  let tick ← nextTick
  Prog.ofExcept (W.nodeStatus tick)

def getChainTip : WalletM (Nat × String) := do
  let tick ← nextTick
  Prog.ofExcept (W.chainTip tick)

def refreshOutputs (mask : Option SecretKey) (parentKeyId : Identifier) : WalletM Unit := do
  let status ← getNodeStatus W
  if status ≠ "no_sync" then Prog.throw (.nodeStatus "Node is not synced")
  else do
    let tip ← getChainTip W
    refreshOutputState W mask tip.1 parentKeyId

/-! ## The summary -/

structure WalletInfo where
  lastConfirmedHeight : Nat
  minimumConfirmations : Nat
  total : Nat
  amountAwaitingFinalization : Nat
  amountAwaitingConfirmation : Nat
  amountImmature : Nat
  amountCurrentlySpendable : Nat
  amountLocked : Nat
deriving DecidableEq

/-- The totals `retrieve_info` adds up. -/
structure InfoTotals where
  unspent : Nat
  immature : Nat
  awaitingFinalization : Nat
  unconfirmed : Nat
  locked : Nat
  unspentUnconfirmed : Nat
deriving DecidableEq

def InfoTotals.zero : InfoTotals := ⟨0, 0, 0, 0, 0, 0⟩

/-- One round of the loop of `retrieve_info`. -/
def addInfo (currentHeight minimumConfirmations : Nat) (s : InfoTotals) (out : OutputData) :
    WalletM InfoTotals :=
  match out.status with
  | .unspent =>
    if out.isCoinbase ∧ out.lockHeight > currentHeight then do
      let immature ← addU64 s.immature out.value
      pure { s with immature }
    else if out.numConfirmations currentHeight < minimumConfirmations then do
      let unconfirmed ← addU64 s.unconfirmed out.value
      let unspentUnconfirmed ← addU64 s.unspentUnconfirmed out.value
      pure { s with unconfirmed, unspentUnconfirmed }
    else do
      let unspent ← addU64 s.unspent out.value
      pure { s with unspent }
  | .unconfirmed =>
    if out.isCoinbase then pure s
    else if minimumConfirmations = 0 then do
      let unconfirmed ← addU64 s.unconfirmed out.value
      pure { s with unconfirmed }
    else do
      let awaitingFinalization ← addU64 s.awaitingFinalization out.value
      pure { s with awaitingFinalization }
  | .locked => do
    let locked ← addU64 s.locked out.value
    pure { s with locked }
  | .spent => pure s
  | .deleted => pure s

/-- The height is that of the active account. -/
def retrieveInfo (parentKeyId : Identifier) (minimumConfirmations : Nat) : WalletM WalletInfo := do
  let currentHeight ← lastConfirmedHeight
  let d ← rows
  let s ← ((outputsOf d).filter (·.rootKeyId = parentKeyId)).foldlM
    (addInfo currentHeight minimumConfirmations) InfoTotals.zero
  let total ← addU64 s.unspent s.immature
  let total ← addU64 total s.locked
  let total ← addU64 total s.unspentUnconfirmed
  pure
    { lastConfirmedHeight := currentHeight
      minimumConfirmations
      total
      amountAwaitingFinalization := s.awaitingFinalization
      amountAwaitingConfirmation := s.unconfirmed
      amountImmature := s.immature
      amountCurrentlySpendable := s.unspent
      amountLocked := s.locked }

/-! ## Coinbase -/

structure BlockFees where
  fees : Nat
  height : Nat
  keyId : Option Identifier
deriving DecidableEq

/-- The key of a reward: the one given if the wallet has an output under it, else a new one. -/
def rewardKey (mask : Option SecretKey) (keyId : Option Identifier) : WalletM Identifier :=
  match keyId with
  | some keyId => do
    match ← Prog.attempt (Keys.retrieveExistingKey keyId none) with
    | .ok k => pure k.1
    | .error _ => Keys.nextAvailableKey W mask
  | none => Keys.nextAvailableKey W mask

/-- The output stored for a reward. -/
def rewardOutputData (parentKeyId keyId : Identifier) (commit : Option String)
    (amount height lockHeight : Nat) : OutputData where
  rootKeyId := parentKeyId
  keyId
  nChild := keyId.lastPathIndex
  mmrIndex := none
  commit
  value := amount
  status := .unconfirmed
  height
  lockHeight
  isCoinbase := true
  txLogEntry := none

/-- The common body of `receive_coinbase` and `receive_foundation`. -/
def receiveReward (mask : Option SecretKey) (blockFees : BlockFees) (amount : Nat)
    (build : Keychain → Identifier → Except Error (Output × TxKernel)) :
    WalletM (Output × TxKernel × BlockFees) := do
  let lockHeight ← addU64 blockFees.height W.coinbaseMaturity
  let parent ← parentKeyId
  let keyId ← rewardKey W mask blockFees.keyId
  let commit ← calcCommitForCache W mask amount keyId
  let _ ← batch W mask
  Batch.save (rewardOutputData parent keyId commit amount blockFees.height lockHeight)
  Batch.commit
  let k ← keychain W mask
  let (out, kern) ← Prog.ofExcept (build k keyId)
  pure (out, kern, { blockFees with keyId := some keyId })

def receiveCoinbase (mask : Option SecretKey) (blockFees : BlockFees) :
    WalletM (Output × TxKernel × BlockFees) :=
  receiveReward W mask blockFees (W.reward blockFees.fees blockFees.height)
    fun k keyId => W.rewardOutput k keyId blockFees.fees blockFees.height

def receiveFoundation (mask : Option SecretKey) (blockFees : BlockFees) :
    WalletM (Output × TxKernel × BlockFees) :=
  receiveReward W mask blockFees (W.cumulativeRewardFoundation blockFees.height)
    fun k keyId => W.foundationOutput k keyId blockFees.height

end Updater

end EpicWallet
