import EpicWallet.Libwallet.Address
import EpicWallet.Libwallet.Owner

/-!
# Payment proofs

`retrieve_txs`, `get_public_proof_address`, `retrieve_payment_proof` and `verify_payment_proof` of
`libwallet/src/api_impl/owner.rs`. A proof names its parties by their onion addresses; it is verified by any
wallet whose node knows the kernel.
-/

namespace EpicWallet

open Lib WalletBackend

/-! ## Retrieving entries -/

/-- `Pager`. -/
structure Pager where
  recordsRead : Nat
  totalRecords : Nat
  limit : Nat
  offset : Nat
  sortOrder : String

structure RetrieveTxsResult where
  refreshFromNode : Bool
  pager : Pager
  txs : List TxLogEntry

/-- A refresh, if it is asked for. -/
def Owner.refreshIf (W : World) (mask : Option SecretKey) (refreshFromNode : Bool) : WalletM Bool :=
  if refreshFromNode then updateWalletState W mask else pure false

def Owner.retrieveTxs (W : World) (mask : Option SecretKey) (refreshFromNode : Bool) (txId : Option Nat)
    (txSlateId : Option Uuid) (limit offset : Option Nat) (sortOrder : Option String) :
    WalletM RetrieveTxsResult := do
  let validated ← refreshIf W mask refreshFromNode
  walletLock W
  let parent ← parentKeyId
  let r ← Updater.retrieveTxs txId txSlateId (some parent) false limit offset sortOrder
  pure ⟨validated, ⟨r.1, r.2.1, limit.getD 0, offset.getD 0, sortOrder.getD "asc"⟩, r.2.2⟩

/-! ## Proofs -/

structure PaymentProof where
  amount : Nat
  excess : Commitment
  recipientAddress : List Char
  recipientSig : DalekSignature
  senderAddress : List Char
  senderSig : DalekSignature
deriving DecidableEq

/-- The errors of the calls for proofs: `PaymentProofRetrieval` and those of the modules they use. -/
inductive ProofError where
  | retrieval (msg : String)
  | onion (e : OnionError)
  | wallet (e : Error)
deriving DecidableEq

abbrev ProofM : Type → Type := Prog Wallet ProofError

/-- A call of the wallet, its error among those of the proofs. -/
def ofWallet {α : Type} (p : WalletM α) : ProofM α := Prog.within id (fun w _ => w) .wallet p

def ofOnion {α : Type} (x : OnionResult α) : ProofM α := Prog.lift (x.mapError (Prog.mapFault .onion))

/-- What the calls take from elsewhere: the addresses, and the text of an error of the node client. -/
structure ProofLib extends OnionLib where
  errorDisplay : Error → String

/-- The amount a proof of the entry is for. The difference of a payment is without its fee; a difference
below the fee is a panic. -/
def provenAmount (tx : TxLogEntry) : Option Nat :=
  if tx.amountCredited ≥ tx.amountDebited then some (tx.amountCredited - tx.amountDebited)
  else if tx.fee.getD 0 ≤ tx.amountDebited - tx.amountCredited then
    some (tx.amountDebited - tx.amountCredited - tx.fee.getD 0)
  else none

namespace Owner

variable (W : World) (L : ProofLib)

/-- `o`, or the error of a proof that lacks it. -/
def required {α : Type} (msg : String) (o : Option α) : ProofM α :=
  match o with
  | some a => pure a
  | none => Prog.throw (.retrieval msg)

/-- The proof of an entry. -/
def proofOfEntry (tx : TxLogEntry) : ProofM PaymentProof := do
  let proof ← required "Transaction does not contain a payment proof" tx.paymentProof
  let amount ← Prog.unwrap (provenAmount tx)
  let excess ← required "Transaction does not contain kernel excess" tx.kernelExcess
  let recipientSig ← required "Proof does not contain receiver signature " proof.receiverSignature
  let senderSig ← required "Proof does not contain sender signature " proof.senderSignature
  pure {
    amount
    excess
    recipientAddress := Onion.onionV3FromPubkey L.toOnionLib proof.receiverAddress
    recipientSig
    senderAddress := Onion.onionV3FromPubkey L.toOnionLib proof.senderAddress
    senderSig }

/-- With a refresh the wallet is refreshed twice: here and by `retrieve_txs`. -/
def retrievePaymentProof (mask : Option SecretKey) (refreshFromNode : Bool) (txId : Option Nat)
    (txSlateId : Option Uuid) : ProofM PaymentProof :=
  if txId.isNone ∧ txSlateId.isNone then
    Prog.throw (.retrieval "Transaction ID or Slate UUID must be specified")
  else do
    let _ ← ofWallet (refreshIf W mask refreshFromNode)
    let txs ← ofWallet (retrieveTxs W mask refreshFromNode txId txSlateId none none none)
    match txs.txs with
    | [tx] => proofOfEntry L tx
    | _ => Prog.throw (.retrieval "Transaction doesn't exist")

def getPublicProofAddress (mask : Option SecretKey) (index : Nat) : WalletM DalekPublicKey := do
  walletLock W
  let parent ← parentKeyId
  let k ← keychain W mask
  let secAddrKey ← Address.addressFromDerivationPath W k parent index
  pure (Address.ed25519Public W secAddrKey)

/-- The checks of the two signatures, and whether one of the parties is this wallet; the sender's address is
decoded a second time. -/
def verifyProofSigs (k : Keychain) (parent : Identifier) (proof : PaymentProof) (msg : ProofMessage) :
    ProofM (Bool × Bool) := do
  let recipient ← ofOnion (Onion.pubkeyFromOnionV3 L.toOnionLib proof.recipientAddress)
  if W.dalekVerify recipient msg proof.recipientSig = false then
    Prog.throw (.wallet (.paymentProof "Invalid recipient signature"))
  else do
    let sender ← ofOnion (Onion.pubkeyFromOnionV3 L.toOnionLib proof.senderAddress)
    if W.dalekVerify sender msg proof.senderSig = false then
      Prog.throw (.wallet (.paymentProof "Invalid sender signature"))
    else do
      let secKey ← ofWallet (Address.addressFromDerivationPath W k parent 0)
      let mine := W.dalekPublic secKey
      pure (mine = sender, mine = recipient)

/-- Whether this wallet is the sender, and whether it is the recipient. -/
def verifyPaymentProof (mask : Option SecretKey) (proof : PaymentProof) : ProofM (Bool × Bool) := do
  let sender ← ofOnion (Onion.pubkeyFromOnionV3 L.toOnionLib proof.senderAddress)
  ofWallet (walletLock W)
  let parent ← ofWallet parentKeyId
  let k ← ofWallet (keychain W mask)
  let tick ← ofWallet nextTick
  match W.kernel tick proof.excess none none with
  | .error e =>
    Prog.throw (.wallet (.paymentProof ("Error retrieving kernel from chain: " ++ L.errorDisplay e)))
  | .ok none =>
    Prog.throw (.wallet (.paymentProof ("Transaction kernel with excess Commitment(" ++
      W.commitmentToHex proof.excess ++ ") not found on chain")))
  | .ok (some _) => verifyProofSigs W L k parent proof ⟨proof.amount, proof.excess, sender⟩

end Owner

end EpicWallet
