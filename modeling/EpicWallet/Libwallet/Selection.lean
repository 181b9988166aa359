import Mathlib.Data.List.Sort
import EpicWallet.Libwallet.Slate

/-!
# Selecting, locking and receiving outputs

`libwallet/src/internal/selection.rs`, with the derived keys of `address.rs` that it uses.
`buildSendTx` selects the inputs of a send and derives its change; what it selected is kept in a
`Context` until `lockTxContext` locks the inputs, adds the change outputs and the log entry.
`buildRecipientOutput` adds the output and the entry of a payment received.
-/

namespace EpicWallet

open Lib WalletBackend

/-! ## Addresses -/

namespace Address

variable (W : World)

def addressFromDerivationPath (k : Keychain) (parentKeyId : Identifier) (index : Nat) :
    WalletM SecretKey := do
  let keyPath := { parentKeyId with p1 := 1, depth := parentKeyId.depth + 1 }
  let keyId ← Prog.unwrap (keyPath.setPath (keyPath.depth - 1) index)
  let secKey ← Prog.ofExcept (W.deriveKey k 0 keyId .none)
  Prog.ofExcept (W.addressHash secKey)

/-- The public half of `ed25519_keypair`. -/
def ed25519Public (secKey : SecretKey) : DalekPublicKey := W.dalekPublic secKey

end Address

namespace Selection

variable (W : World)

/-! ## Selecting coins -/

/-- `take_while` with the amount selected so far. -/
def takeWhileBelow (amount : Nat) : Nat → List OutputData → List OutputData
  | _, [] => []
  | selected, o :: l =>
    if selected < amount then o :: takeWhileBelow amount (selected + o.value) l else []

def selectFrom (amount : Nat) (selectAll : Bool) (outputs : List OutputData) :
    WalletM (Option (List OutputData)) := do
  let total ← sumU64 (outputs.map (·.value))
  pure (if total ≥ amount then
    some (if selectAll then outputs else takeWhileBelow amount 0 outputs)
  else none)

/-- `slice::windows`. -/
def windows (size : Nat) (l : List OutputData) : List (List OutputData) :=
  (List.range (l.length + 1 - size)).map fun i => (l.drop i).take size

/-- The selection from the first window that suffices. -/
def selectFromWindows (amount : Nat) (selectAll : Bool) :
    List (List OutputData) → WalletM (Option (List OutputData))
  | [] => pure none
  | window :: rest => do
    match ← selectFrom amount selectAll window with
    | some outputs => pure (some outputs)
    | none => selectFromWindows amount selectAll rest

/-- The outputs of the account that may be spent, by increasing value. -/
def eligibleOutputs (d : Rows Key Serializable) (currentHeight minimumConfirmations : Nat)
    (parentKeyId : Identifier) : List OutputData :=
  ((outputsOf d).filter fun out => out.rootKeyId = parentKeyId ∧
    out.eligibleToSpend currentHeight minimumConfirmations = true).insertionSort
      (fun a b => a.value ≤ b.value)

/-- The selection before the fallback to the largest outputs. -/
def selectEnough (amount maxOutputs : Nat) (selectAll : Bool) (eligible : List OutputData) :
    WalletM (Option (List OutputData)) :=
  if eligible.length > maxOutputs then do
    -- `windows(0)` panics
    if maxOutputs = 0 then Prog.panic
    else do
      match ← selectFromWindows amount selectAll (windows maxOutputs eligible) with
      | some outputs => pure (some outputs)
      | none => selectFrom amount false eligible
  else selectFrom amount selectAll eligible

def selectCoins (amount currentHeight minimumConfirmations maxOutputs : Nat) (selectAll : Bool)
    (parentKeyId : Identifier) : WalletM (Nat × List OutputData) := do
  let d ← rows
  let eligible := eligibleOutputs d currentHeight minimumConfirmations parentKeyId
  match ← selectEnough amount maxOutputs selectAll eligible with
  | some outputs => pure (eligible.length, outputs)
  | none => pure (eligible.length, eligible.reverse.take maxOutputs)

def notEnoughFunds (available needed : Nat) : Error :=
  .notEnoughFunds available (W.amountToHrString available) needed (W.amountToHrString needed)

/-- The loop that selects again until the fee is covered too; the number is the rounds left. -/
def selectMore (amount currentHeight minimumConfirmations maxOutputs numOutputs : Nat)
    (selectAll : Bool) (parentKeyId : Identifier) :
    Nat → List OutputData → Nat → Nat → Nat → WalletM (List OutputData × Nat × Nat)
  | rounds, coins, total, amountWithFee, fee =>
    if total < amountWithFee then
      match rounds with
      | 0 => Prog.panic
      | rounds + 1 =>
        if coins.length = maxOutputs then Prog.throw (notEnoughFunds W total amountWithFee)
        else do
          let (_, coins) ← selectCoins amountWithFee currentHeight minimumConfirmations maxOutputs
            selectAll parentKeyId
          let fee := W.txFee coins.length numOutputs 1
          let total ← sumU64 (coins.map (·.value))
          let amountWithFee ← addU64 amount fee
          selectMore amount currentHeight minimumConfirmations maxOutputs numOutputs selectAll
            parentKeyId rounds coins total amountWithFee fee
    else pure (coins, total, fee)

def selectCoinsAndFee (amount currentHeight minimumConfirmations maxOutputs changeOutputs : Nat)
    (selectAll : Bool) (parentKeyId : Identifier) : WalletM (List OutputData × Nat × Nat × Nat) := do
  let (maxOutputs, coins) ← selectCoins amount currentHeight minimumConfirmations maxOutputs
    selectAll parentKeyId
  -- first attempt to spend without change
  let fee := W.txFee coins.length 1 1
  let total ← sumU64 (coins.map (·.value))
  let amountWithFee ← addU64 amount fee
  if total = 0 then Prog.throw (notEnoughFunds W 0 amountWithFee)
  else if total < amountWithFee ∧ coins.length = maxOutputs then
    Prog.throw (notEnoughFunds W total amountWithFee)
  else if total = amountWithFee then pure (coins, total, amount, fee)
  else do
    let numOutputs := changeOutputs + 1
    let fee := W.txFee coins.length numOutputs 1
    let amountWithFee ← addU64 amount fee
    let (coins, total, fee) ← selectMore W amount currentHeight minimumConfirmations maxOutputs
      numOutputs selectAll parentKeyId W.patience coins total amountWithFee fee
    pure (coins, total, amount, fee)

/-! ## Inputs and change -/

def inputPart (coin : OutputData) : Append :=
  if coin.isCoinbase then .coinbaseInput coin.value coin.keyId else .input coin.value coin.keyId

/-- The change outputs number `x`, each under a fresh key; the last takes the remainder. -/
def changeAmounts (mask : Option SecretKey) (partChange remainderChange numChangeOutputs : Nat) :
    List Nat → WalletM (List (Nat × Identifier × Option Nat))
  | [] => pure []
  | x :: xs => do
    let changeAmount ← (if x = numChangeOutputs - 1 then addU64 partChange remainderChange
      else pure partChange)
    let changeKey ← Prog.orPanic (nextChild W mask)
    let rest ← changeAmounts mask partChange remainderChange numChangeOutputs xs
    pure ((changeAmount, changeKey, none) :: rest)

def inputsAndChange (coins : List OutputData) (mask : Option SecretKey)
    (amount fee numChangeOutputs : Nat) :
    WalletM (List Append × List (Nat × Identifier × Option Nat)) := do
  let total ← sumU64 (coins.map (·.value))
  let change ← subU64 total amount
  let change ← subU64 change fee
  let parts := coins.map inputPart
  if change = 0 then pure (parts, [])
  -- a division by zero panics
  else if numChangeOutputs = 0 ∨ change / numChangeOutputs = 0 then Prog.panic
  else do
    let partChange := change / numChangeOutputs
    let remainderChange := change % partChange
    let amounts ← changeAmounts W mask partChange remainderChange numChangeOutputs
      (List.range numChangeOutputs)
    pure (parts ++ amounts.map fun a => .output a.1 a.2.1, amounts)

def selectSendTx (mask : Option SecretKey)
    (amount currentHeight minimumConfirmations maxOutputs changeOutputs : Nat) (selectAll : Bool)
    (parentKeyId : Identifier) :
    WalletM (List Append × List OutputData × List (Nat × Identifier × Option Nat) × Nat) := do
  let (coins, _, amount, fee) ← selectCoinsAndFee W amount currentHeight minimumConfirmations
    maxOutputs changeOutputs selectAll parentKeyId
  let (parts, amounts) ← inputsAndChange W coins mask amount fee changeOutputs
  pure (parts, coins, amounts, fee)

/-- `Context::new`, with a fresh nonce. -/
def newContext (blinding : BlindingFactor) (parentKeyId : Identifier) (participantId : Nat) :
    WalletM Context := do
  let secKey ← Prog.orPanic (Prog.ofExcept (W.secretKey blinding))
  let t ← nextTick
  pure (.new secKey (W.newSecretKey t) parentKeyId participantId)

/-- The context with the selected inputs and the change outputs. -/
def contextOf (context : Context) (fee : Nat) (inputs : List OutputData)
    (amounts : List (Nat × Identifier × Option Nat)) : Context :=
  let context := { context with fee }
  let context := inputs.foldl (fun c i => c.addInput i.keyId i.mmrIndex i.value) context
  amounts.foldl (fun c a => c.addOutput a.2.1 a.2.2 a.1) context

theorem contextOf_eq (context : Context) (fee : Nat) (inputs : List OutputData)
    (amounts : List (Nat × Identifier × Option Nat)) :
    contextOf context fee inputs amounts = { context with
      fee
      inputIds := context.inputIds ++ inputs.map fun i => (i.keyId, i.mmrIndex, i.value)
      outputIds := context.outputIds ++ amounts.map fun a => (a.2.1, a.2.2, a.1) } := by
  have hin : ∀ (l : List OutputData) (c : Context),
      l.foldl (fun c i => c.addInput i.keyId i.mmrIndex i.value) c =
        { c with inputIds := c.inputIds ++ l.map fun i => (i.keyId, i.mmrIndex, i.value) } := by
    intro l
    induction l with
    | nil => simp
    | cons i l ih =>
      intro c
      rw [List.foldl_cons, ih]
      simp [Context.addInput]
  have hout : ∀ (l : List (Nat × Identifier × Option Nat)) (c : Context),
      l.foldl (fun c a => c.addOutput a.2.1 a.2.2 a.1) c =
        { c with outputIds := c.outputIds ++ l.map fun a => (a.2.1, a.2.2, a.1) } := by
    intro l
    induction l with
    | nil => simp
    | cons a l ih =>
      intro c
      rw [List.foldl_cons, ih]
      simp [Context.addOutput]
  unfold contextOf
  rw [hout, hin]

def buildSendTx (k : Keychain) (mask : Option SecretKey) (slate : Slate)
    (minimumConfirmations maxOutputs changeOutputs : Nat) (selectAll : Bool)
    (parentKeyId : Identifier) : WalletM (Slate × Context) := do
  let (elems, inputs, amounts, fee) ← selectSendTx W mask slate.amount slate.height
    minimumConfirmations maxOutputs changeOutputs selectAll parentKeyId
  let slate := { slate with fee }
  let (slate, blinding) ← Prog.ofExcept (slate.addTransactionElements W k elems)
  let context ← newContext W blinding parentKeyId 0
  let context := contextOf context fee inputs amounts
  -- the cached commits are computed and not used
  Prog.forEach amounts fun a => do let _ ← calcCommitForCache W mask a.1 a.2.1
  pure (slate, context)

/-! ## Locking -/

/-- The cached commits and amounts of the change outputs, by key. -/
def outputCommits (mask : Option SecretKey) (outputs : List (Identifier × Option Nat × Nat)) :
    WalletM (Rows Identifier (Option String × Nat)) := do
  let (commits, _) ← outputs.foldlM (fun (r : Rows Identifier (Option String × Nat) × Nat) o => do
    let commit ← calcCommitForCache W mask o.2.2 o.1
    let totalChange ← addU64 r.2 o.2.2
    pure (r.1.put o.1 (commit, o.2.2), totalChange)) (Rows.empty, 0)
  pure commits

/-- Locks one input for the transaction and adds its value to what is debited. -/
def lockInput (logId : Nat) (amountDebited : Nat) (id : Identifier × Option Nat × Nat) :
    WalletM Nat := do
  let coin ← Prog.orPanic (getOutput id.1 id.2.1)
  let coin := { coin with txLogEntry := some logId }
  let amountDebited ← addU64 amountDebited coin.value
  Batch.lockOutput coin
  pure amountDebited

/-- The payment proof record of the sender's entry, if the slate asks for one. -/
def storedProofInfo (k : Keychain) (slate : Slate) (context : Context) :
    WalletM (Option StoredProofInfo) :=
  match slate.paymentProof with
  | none => pure none
  | some p => do
    let senderAddressPath ← (match context.paymentProofDerivationIndex with
      | some i => pure i
      | none => Prog.throw (.paymentProof "Payment proof derivation index required"))
    let senderKey ← Address.addressFromDerivationPath W k context.parentKeyId senderAddressPath
    pure (some {
      receiverAddress := p.receiverAddress
      receiverSignature := p.receiverSignature
      senderAddressPath
      senderAddress := Address.ed25519Public W senderKey
      senderSignature := none })

/-- The change output stored for the output `id` of the context. -/
def changeOutput (parentKeyId : Identifier) (height logId : Nat) (id : Identifier)
    (commit : Option String × Nat) : OutputData where
  rootKeyId := parentKeyId
  keyId := id
  nChild := id.lastPathIndex
  commit := commit.1
  mmrIndex := none
  value := commit.2
  status := .unconfirmed
  height
  lockHeight := 0
  isCoinbase := false
  txLogEntry := some logId

/-- Stores one change output and adds it to what is credited. -/
def saveChange (parentKeyId : Identifier) (height logId : Nat)
    (commits : Rows Identifier (Option String × Nat)) (t : TxLogEntry)
    (id : Identifier × Option Nat × Nat) : WalletM TxLogEntry := do
  let commit ← Prog.unwrap (commits.get id.1)
  let amountCredited ← addU64 t.amountCredited commit.2
  Batch.save (changeOutput parentKeyId height logId id.1 commit)
  pure { t with numOutputs := t.numOutputs + 1, amountCredited }

/-- The entry of a send before its inputs are locked. -/
def newSendEntry (slate : Slate) (context : Context) (logId : Nat) (now : DateTime) :
    TxLogEntry :=
  { TxLogEntry.new context.parentKeyId .txSentCreated logId now with
    txSlateId := some slate.id
    storedTx := some (txFileName slate.id)
    fee := some slate.fee
    ttlCutoffHeight := slate.ttlCutoffHeight
    kernelExcess := (slate.calcExcess W).toOption
    kernelLookupMinHeight := some slate.height
    numInputs := context.inputIds.length }

/-- The block of `lock_tx_context` that runs under a batch. -/
def lockRows (mask : Option SecretKey) (slate : Slate) (context : Context) (addrTo : Option String)
    (k : Keychain) (commits : Rows Identifier (Option String × Nat)) : WalletM TxLogEntry := do
  let _ ← batch W mask
  let logId ← Batch.nextTxLogId context.parentKeyId
  let tick ← nextTick
  let t := newSendEntry W slate context logId (W.now tick)
  let amountDebited ← context.inputIds.foldlM (lockInput logId) 0
  let t := { t with
    amountDebited
    messages := some slate.participantMessages
    publicAddr := addrTo }
  let paymentProof ← storedProofInfo W k slate context
  let t := { t with paymentProof }
  let t ← context.outputIds.foldlM (saveChange context.parentKeyId slate.height logId commits) t
  Batch.saveTxLogEntry t context.parentKeyId
  Batch.commit
  pure t

def lockTxContext (mask : Option SecretKey) (slate : Slate) (context : Context)
    (addrTo : Option String) : WalletM Unit := do
  let commits ← outputCommits W mask context.outputIds
  let k ← keychain W mask
  let txEntry ← lockRows W mask slate context addrTo k commits
  let slateId ← Prog.unwrap txEntry.txSlateId
  storeTx W slateId slate.tx

/-! ## Receiving -/

/-- The entry of a payment received. -/
def newReceiveEntry (slate : Slate) (messages : ParticipantMessages) (parentKeyId : Identifier)
    (logId : Nat) (now : DateTime) : TxLogEntry :=
  { TxLogEntry.new parentKeyId .txReceived logId now with
    txSlateId := some slate.id
    amountCredited := slate.amount
    numOutputs := 1
    messages := some messages
    ttlCutoffHeight := slate.ttlCutoffHeight
    kernelExcess := (slate.calcExcess W).toOption
    kernelLookupMinHeight := some slate.height }

/-- The output stored for a payment received. -/
def recipientOutput (parentKeyId keyId : Identifier) (commit : Option String) (slate : Slate)
    (logId : Nat) : OutputData where
  rootKeyId := parentKeyId
  keyId
  mmrIndex := none
  nChild := keyId.lastPathIndex
  commit
  value := slate.amount
  status := .unconfirmed
  height := slate.height
  lockHeight := 0
  isCoinbase := false
  txLogEntry := some logId

def buildRecipientOutput (mask : Option SecretKey) (slate : Slate) (parentKeyId : Identifier) :
    WalletM (Slate × Identifier × Context) := do
  let keyId ← Prog.orPanic (nextChild W mask)
  let k ← keychain W mask
  let (slate, blinding) ← Prog.ofExcept
    (slate.addTransactionElements W k [.output slate.amount keyId])
  let _ ← keychain W mask
  let context ← newContext W blinding parentKeyId 1
  let context := context.addOutput keyId none slate.amount
  let messages := slate.participantMessages
  let commit ← calcCommitForCache W mask slate.amount keyId
  let _ ← batch W mask
  let logId ← Batch.nextTxLogId parentKeyId
  let tick ← nextTick
  let t := newReceiveEntry W slate messages parentKeyId logId (W.now tick)
  Batch.save (recipientOutput parentKeyId keyId commit slate logId)
  Batch.saveTxLogEntry t parentKeyId
  Batch.commit
  pure (slate, keyId, context)

end Selection

end EpicWallet
