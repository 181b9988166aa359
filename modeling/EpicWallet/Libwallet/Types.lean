import Mathlib.Tactic.Common

/-!
# Wallet data

The records of `libwallet/src/types.rs` and `libwallet/src/slate.rs` that the store keeps, with
their methods. Unsigned integers are naturals; where the code can overflow, the operation is
checked in the program that performs it. Values of the cryptographic libraries are opaque
(`raw`): what the wallet computes with them is a parameter of the model (`World`).
-/

namespace EpicWallet

/-! ## Values of the libraries -/

structure SecretKey where raw : Nat
deriving DecidableEq

structure PublicKey where raw : Nat
deriving DecidableEq

structure Signature where raw : Nat
deriving DecidableEq

structure Commitment where raw : Nat
deriving DecidableEq

structure RangeProof where raw : Nat
deriving DecidableEq

structure BlindingFactor where raw : Nat
deriving DecidableEq

structure DalekPublicKey where raw : Nat
deriving DecidableEq

structure DalekSignature where raw : Nat
deriving DecidableEq

structure Uuid where raw : Nat
deriving DecidableEq

/-- `DateTime<Utc>`: nanoseconds since the epoch. -/
structure DateTime where nanos : Int
deriving DecidableEq

/-- A BIP32 key identifier: the depth and the four path components. -/
structure Identifier where
  depth : Nat
  p0 : Nat
  p1 : Nat
  p2 : Nat
  p3 : Nat
deriving DecidableEq

namespace Identifier

/-- `path[i]`; out of range is an index panic. -/
def pathAt (id : Identifier) : Nat → Option Nat
  | 0 => some id.p0
  | 1 => some id.p1
  | 2 => some id.p2
  | 3 => some id.p3
  | _ => none

/-- `path[i] = v`; out of range is an index panic. -/
def setPath (id : Identifier) (i v : Nat) : Option Identifier :=
  match i with
  | 0 => some { id with p0 := v }
  | 1 => some { id with p1 := v }
  | 2 => some { id with p2 := v }
  | 3 => some { id with p3 := v }
  | _ => none

/-- `ExtKeychain::derive_key_id`. -/
def derive (depth d1 d2 d3 d4 : Nat) : Identifier := ⟨depth, d1, d2, d3, d4⟩

def parentPath (id : Identifier) : Identifier :=
  if id.depth = 0 then id
  else { (id.setPath (id.depth - 1) 0).getD id with depth := id.depth - 1 }

def lastPathIndex (id : Identifier) : Nat :=
  if id.depth = 0 then 0 else (id.pathAt (id.depth - 1)).getD 0

/-- The key of child `n`: one level deeper, with `n` as its last component. -/
def child (id : Identifier) (n : Nat) : Option Identifier :=
  { id with depth := id.depth + 1 }.setPath id.depth n

end Identifier

/-! ## Outputs -/

inductive OutputStatus where
  | unconfirmed
  | unspent
  | locked
  | spent
  | deleted
deriving DecidableEq

/-- `impl Display for OutputStatus`. -/
def OutputStatus.display : OutputStatus → String
  | .unconfirmed => "Unconfirmed"
  | .unspent => "Unspent"
  | .locked => "Locked"
  | .spent => "Spent"
  | .deleted => "Deleted"

structure OutputData where
  rootKeyId : Identifier
  keyId : Identifier
  nChild : Nat
  commit : Option String
  mmrIndex : Option Nat
  value : Nat
  status : OutputStatus
  height : Nat
  lockHeight : Nat
  isCoinbase : Bool
  txLogEntry : Option Nat
deriving DecidableEq

namespace OutputData

def lock (o : OutputData) : OutputData := { o with status := .locked }

def numConfirmations (o : OutputData) (currentHeight : Nat) : Nat :=
  if o.height > currentHeight then 0
  else if o.status = .unconfirmed then 0
  else 1 + (currentHeight - o.height)

def eligibleToSpend (o : OutputData) (currentHeight minimumConfirmations : Nat) : Bool :=
  if o.status = .spent ∨ o.status = .locked then false
  else if o.status = .unconfirmed ∧ o.isCoinbase then false
  else if o.lockHeight > currentHeight then false
  else if o.status = .unspent ∧ o.numConfirmations currentHeight ≥ minimumConfirmations then true
  else if o.status = .unconfirmed ∧ minimumConfirmations = 0 then true
  else false

def markUnspent (o : OutputData) : OutputData :=
  match o.status with
  | .unconfirmed => { o with status := .unspent }
  | _ => o

def markSpent (o : OutputData) : OutputData :=
  match o.status with
  | .unspent => { o with status := .spent }
  | .locked => { o with status := .spent }
  | _ => o

/-- The status of an output that may be picked as an input is neither locked nor spent. -/
theorem status_of_eligible {o : OutputData} {h m : Nat} (he : o.eligibleToSpend h m = true) :
    o.status = .unspent ∨ o.status = .unconfirmed := by
  unfold eligibleToSpend at he
  rcases hs : o.status <;> simp_all

@[simp] theorem lock_keyId (o : OutputData) : o.lock.keyId = o.keyId := rfl

@[simp] theorem lock_mmrIndex (o : OutputData) : o.lock.mmrIndex = o.mmrIndex := rfl

/-- Marking an output spent changes at most its status. -/
theorem markSpent_eq (o : OutputData) : o.markSpent = { o with status := o.markSpent.status } := by
  rcases o with ⟨_, _, _, _, _, _, _ | _ | _ | _ | _, _, _, _, _⟩ <;> rfl

/-- Marking an output unspent changes at most its status. -/
theorem markUnspent_eq (o : OutputData) :
    o.markUnspent = { o with status := o.markUnspent.status } := by
  rcases o with ⟨_, _, _, _, _, _, _ | _ | _ | _ | _, _, _, _, _⟩ <;> rfl

end OutputData

/-! ## Transaction log -/

structure ParticipantMessageData where
  id : Nat
  publicKey : PublicKey
  message : Option String
  messageSig : Option Signature
deriving DecidableEq

structure ParticipantMessages where
  messages : List ParticipantMessageData
deriving DecidableEq

structure StoredProofInfo where
  receiverAddress : DalekPublicKey
  receiverSignature : Option DalekSignature
  senderAddressPath : Nat
  senderAddress : DalekPublicKey
  senderSignature : Option DalekSignature
deriving DecidableEq

inductive TxLogEntryType where
  | confirmedCoinbase
  | txReceived
  | txSent
  | txReceivedCancelled
  | txSentCancelled
  | txSentMempool
  | txReceivedMempool
  | txSentCreated
deriving DecidableEq

/-- `impl Display for TxLogEntryType`. -/
def TxLogEntryType.display : TxLogEntryType → String
  | .confirmedCoinbase => "Coinbase Confirmed"
  | .txReceived => "Received"
  | .txSent => "Sent"
  | .txReceivedCancelled => "Received (Cancelled)"
  | .txSentCancelled => "Sent (Cancelled)"
  | .txSentMempool => "Sent (Mempool)"
  | .txReceivedMempool => "Received (Mempool)"
  | .txSentCreated => "Sent (Created)"

structure TxLogEntry where
  confirmationHeight : Option Nat
  parentKeyId : Identifier
  id : Nat
  txSlateId : Option Uuid
  txType : TxLogEntryType
  creationTs : DateTime
  confirmationTs : Option DateTime
  confirmed : Bool
  numInputs : Nat
  numOutputs : Nat
  amountCredited : Nat
  amountDebited : Nat
  fee : Option Nat
  ttlCutoffHeight : Option Nat
  messages : Option ParticipantMessages
  storedTx : Option String
  kernelExcess : Option Commitment
  kernelLookupMinHeight : Option Nat
  paymentProof : Option StoredProofInfo
  publicAddr : Option String
deriving DecidableEq

namespace TxLogEntry

/-- A blank entry created at `now`. -/
def new (parentKeyId : Identifier) (t : TxLogEntryType) (id : Nat) (now : DateTime) :
    TxLogEntry where
  parentKeyId := parentKeyId
  txType := t
  id := id
  txSlateId := none
  creationTs := now
  confirmationTs := none
  confirmed := false
  amountCredited := 0
  amountDebited := 0
  numInputs := 0
  numOutputs := 0
  fee := none
  ttlCutoffHeight := none
  messages := none
  storedTx := none
  kernelExcess := none
  kernelLookupMinHeight := none
  paymentProof := none
  publicAddr := none
  confirmationHeight := none

def updateConfirmationTs (t : TxLogEntry) (now : DateTime) : TxLogEntry :=
  { t with confirmationTs := some now }

end TxLogEntry

/-! ## Contexts, accounts and scan records -/

structure Context where
  parentKeyId : Identifier
  secKey : SecretKey
  secNonce : SecretKey
  outputIds : List (Identifier × Option Nat × Nat)
  inputIds : List (Identifier × Option Nat × Nat)
  fee : Nat
  participantId : Nat
  paymentProofDerivationIndex : Option Nat
deriving DecidableEq

namespace Context

/-- A context with defaults; `secNonce` is the nonce just drawn. -/
def new (secKey secNonce : SecretKey) (parentKeyId : Identifier) (participantId : Nat) :
    Context where
  parentKeyId := parentKeyId
  secKey := secKey
  secNonce := secNonce
  inputIds := []
  outputIds := []
  fee := 0
  participantId := participantId
  paymentProofDerivationIndex := none

def addOutput (c : Context) (id : Identifier) (mmrIndex : Option Nat) (amount : Nat) : Context :=
  { c with outputIds := c.outputIds ++ [(id, mmrIndex, amount)] }

def addInput (c : Context) (id : Identifier) (mmrIndex : Option Nat) (amount : Nat) : Context :=
  { c with inputIds := c.inputIds ++ [(id, mmrIndex, amount)] }

end Context

structure AcctPathMapping where
  label : String
  path : Identifier
deriving DecidableEq

structure ScannedBlockInfo where
  height : Nat
  hash : String
  startPmmrIndex : Nat
  lastPmmrIndex : Nat
deriving DecidableEq

inductive WalletInitStatus where
  | initNeedsScanning
  | initNoScanning
  | initComplete
deriving DecidableEq

/-- `impls/src/serialization.rs`: what a row of the store holds. -/
inductive Serializable where
  | txLogEntry (t : TxLogEntry)
  | acctPathMapping (a : AcctPathMapping)
  | outputData (o : OutputData)
  | scannedBlockInfo (b : ScannedBlockInfo)
  | walletInitStatus (w : WalletInitStatus)
  | context (c : Context)
  | numeric (n : Nat)
deriving DecidableEq

namespace Serializable

def asTxLogEntry : Serializable → Option TxLogEntry
  | .txLogEntry t => some t
  | _ => none

def asAcctPathMapping : Serializable → Option AcctPathMapping
  | .acctPathMapping a => some a
  | _ => none

def asOutputData : Serializable → Option OutputData
  | .outputData o => some o
  | _ => none

def asContext : Serializable → Option Context
  | .context c => some c
  | _ => none

theorem asTxLogEntry_eq {v : Serializable} {t : TxLogEntry} :
    v.asTxLogEntry = some t ↔ v = .txLogEntry t := by
  cases v <;> simp [asTxLogEntry]

theorem asAcctPathMapping_eq {v : Serializable} {a : AcctPathMapping} :
    v.asAcctPathMapping = some a ↔ v = .acctPathMapping a := by
  cases v <;> simp [asAcctPathMapping]

theorem asContext_eq {v : Serializable} {c : Context} : v.asContext = some c ↔ v = .context c := by
  cases v <;> simp [asContext]

theorem asOutputData_eq {v : Serializable} {o : OutputData} :
    v.asOutputData = some o ↔ v = .outputData o := by
  cases v <;> simp [asOutputData]

end Serializable

/-! ## Carried text -/

/-- No character of the text is an apostrophe. -/
def PlainText (s : String) : Prop := '\'' ∉ s.toList

instance (s : String) : Decidable (PlainText s) := inferInstanceAs (Decidable (_ ∉ _))

/-- The strings a message set carries. -/
def ParticipantMessages.strings (m : ParticipantMessages) : List String :=
  m.messages.filterMap (·.message)

/-- The free strings a stored value carries: messages, addresses, file names, labels, hashes and
cached commitments. -/
def Serializable.strings : Serializable → List String
  | .txLogEntry t =>
    (t.messages.map ParticipantMessages.strings).getD [] ++ t.storedTx.toList ++
      t.publicAddr.toList
  | .acctPathMapping a => [a.label]
  | .outputData o => o.commit.toList
  | .scannedBlockInfo b => [b.hash]
  | .walletInitStatus _ => []
  | .context _ => []
  | .numeric _ => []

/-- No string carried by the value contains an apostrophe. -/
def Serializable.Plain (v : Serializable) : Prop := ∀ s ∈ v.strings, PlainText s

instance (v : Serializable) : Decidable v.Plain := inferInstanceAs (Decidable (∀ _ ∈ _, _))

end EpicWallet
