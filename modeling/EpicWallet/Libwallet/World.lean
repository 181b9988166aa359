import Mathlib.Algebra.Order.Ring.Nat
import EpicWallet.Lib.Prog
import EpicWallet.Lib.Rows
import EpicWallet.Libwallet.Types

/-!
# The wallet and the world it runs in

What the wallet code calls but this repository does not contain is one record, `World`: the
keychain, the curve and transaction libraries (pure functions), and the answers of the node, of the
random generator, of the clock and of the file system. An answer that may differ from call to call
is indexed by the number of answers asked for before (`Wallet.tick`), so a `World` is one way in
which a whole run can go, and a statement about every `World` is about every run.

`Wallet` is the state of `LMDBBackend`: the rows of its store and the fields beside it. `WalletM` is
a program over it (`Lib.Prog`): a failing call keeps the writes it made.

Sums of `u32` and `u64` values are checked: an overflow is a panic. A loop that the node or the
stored coins could keep running is cut after `World.patience` rounds and panics there, so it returns
in some world exactly if it ends.
-/

namespace EpicWallet

open Lib

/-! ## Errors -/

/-- `libwallet/src/error.rs`, the variants the modelled functions return. An error of a library is
its code. -/
inductive Error where
  | notEnoughFunds (available : Nat) (availableDisp : String) (needed : Nat) (neededDisp : String)
  | fee (msg : String)
  | libTX (code : Nat)
  | keychain (code : Nat)
  | transaction (code : Nat)
  | secp (code : Nat)
  | committed (code : Nat)
  | stdIO (code : Nat)
  | node (code : Nat)
  | clientCallback (msg : String)
  | nodeStatus (msg : String)
  | signature (msg : String)
  | transactionDoesntExist (id : String)
  | transactionNotCancellable (id : String)
  | transactionCancellationError (msg : String)
  | transactionAlreadyReceived (id : String)
  | accountLabelAlreadyExists (label : String)
  | unknownAccountLabel (label : String)
  | keychainDoesntExist
  | invalidKeychainMask
  | paymentProof (msg : String)
  | transactionExpired
  | genericError (msg : String)
  | notFoundErr (msg : String)
  | slateDeser
deriving DecidableEq

/-! ## Transactions and slates -/

inductive SwitchCommitmentType where
  | none
  | regular
deriving DecidableEq

structure Keychain where raw : Nat
deriving DecidableEq

structure Message where raw : Nat
deriving DecidableEq

def BlindingFactor.zero : BlindingFactor := ⟨0⟩

def BlindingFactor.fromSecretKey (k : SecretKey) : BlindingFactor := ⟨k.raw⟩

inductive KernelFeatures where
  | plain (fee : Nat)
  | coinbase
  | heightLocked (fee lockHeight : Nat)
deriving DecidableEq

structure TxKernel where
  features : KernelFeatures
  excess : Commitment
  excessSig : Signature
deriving DecidableEq

structure Input where
  isCoinbase : Bool
  commit : Commitment
deriving DecidableEq

structure Output where
  isCoinbase : Bool
  commit : Commitment
  proof : RangeProof
deriving DecidableEq

structure Transaction where
  offset : BlindingFactor
  inputs : List Input
  outputs : List Output
  kernels : List TxKernel
deriving DecidableEq

/-- `build::Append`: one step in the building of a transaction. -/
inductive Append where
  | input (value : Nat) (keyId : Identifier)
  | coinbaseInput (value : Nat) (keyId : Identifier)
  | output (value : Nat) (keyId : Identifier)
deriving DecidableEq

structure PaymentInfo where
  senderAddress : DalekPublicKey
  receiverAddress : DalekPublicKey
  receiverSignature : Option DalekSignature
deriving DecidableEq

structure ParticipantData where
  id : Nat
  publicBlindExcess : PublicKey
  publicNonce : PublicKey
  partSig : Option Signature
  message : Option String
  messageSig : Option Signature
deriving DecidableEq

structure VersionCompatInfo where
  version : Nat
  origVersion : Nat
  blockHeaderVersion : Nat
deriving DecidableEq

structure Slate where
  versionInfo : VersionCompatInfo
  numParticipants : Nat
  id : Uuid
  tx : Transaction
  amount : Nat
  fee : Nat
  height : Nat
  lockHeight : Nat
  ttlCutoffHeight : Option Nat
  participantData : List ParticipantData
  paymentProof : Option PaymentInfo
deriving DecidableEq

/-- The bytes of `payment_proof_message`: three fields of fixed width. -/
structure ProofMessage where
  amount : Nat
  kernelCommitment : Commitment
  senderAddress : DalekPublicKey
deriving DecidableEq

/-- An output of the chain as the node lists it: its commitment, range proof, coinbase flag, height
and MMR index. -/
structure ChainOutput where
  commit : Commitment
  proof : RangeProof
  isCoinbase : Bool
  height : Nat
  mmrIndex : Nat
deriving DecidableEq

/-! ## The world -/

/-- The code outside the repository and the answers the wallet gets from outside. -/
structure World where
  -- `epic_keychain`
  maskMasterKey : Keychain → SecretKey → Except Error Keychain
  deriveKey : Keychain → Nat → Identifier → SwitchCommitmentType → Except Error SecretKey
  commit : Keychain → Nat → Identifier → SwitchCommitmentType → Except Error Commitment
  blindSum : Keychain → List BlindingFactor → List BlindingFactor → Except Error BlindingFactor
  -- Hashes
  masterChecksum : SecretKey → Nat
  blindXorKey : SecretKey → Uuid → Nat
  nonceXorKey : SecretKey → Uuid → Nat
  messageHash : String → Except Error Message
  addressHash : SecretKey → Except Error SecretKey
  -- `secp` and `aggsig`
  secretKey : BlindingFactor → Except Error SecretKey
  publicKey : SecretKey → Except Error PublicKey
  fromCombination : List PublicKey → Except Error PublicKey
  signSingle : Nat → Message → SecretKey → PublicKey → Except Error Signature
  verifySingle : Signature → Message → PublicKey → Bool
  calculatePartialSig : SecretKey → SecretKey → PublicKey → PublicKey → Message →
    Except Error Signature
  verifyPartialSig : Signature → PublicKey → PublicKey → PublicKey → Message → Except Error Unit
  addSignatures : List Signature → PublicKey → Except Error Signature
  verifyCompletedSig : Signature → PublicKey → Message → Except Error Unit
  commitBlind : Nat → SecretKey → Except Error Commitment
  commitValue : Nat → Except Error Commitment
  commitSum : List Commitment → List Commitment → Except Error Commitment
  -- `ed25519_dalek`
  dalekPublic : SecretKey → DalekPublicKey
  dalekSign : SecretKey → ProofMessage → DalekSignature
  dalekVerify : DalekPublicKey → ProofMessage → DalekSignature → Bool
  -- `epic_core`
  kernelSigMsg : KernelFeatures → Except Error Message
  emptyKernel : KernelFeatures → TxKernel
  txFee : Nat → Nat → Nat → Nat
  partialTransaction : Transaction → List Append → Keychain →
    Except Error (Transaction × BlindingFactor)
  totalFee : Transaction → Nat
  sumCommitments : Transaction → Int → Except Error Commitment
  verifyKernel : TxKernel → Except Error Unit
  validate : Transaction → Except Error Unit
  amountToHrString : Nat → String
  validHeaderVersion : Nat → Nat → Bool
  coinbaseMaturity : Nat
  reward : Nat → Nat → Nat
  rewardOutput : Keychain → Identifier → Nat → Nat → Except Error (Output × TxKernel)
  cumulativeRewardFoundation : Nat → Nat
  foundationOutput : Keychain → Identifier → Nat → Except Error (Output × TxKernel)
  rewind : Keychain → Bool → Commitment → RangeProof →
    Except Error (Option (Nat × Identifier × SwitchCommitmentType))
  commitmentFromHex : String → Option Commitment
  commitmentToHex : Commitment → String
  -- The node
  nodeStatus : Nat → Except Error String
  chainTip : Nat → Except Error (Nat × String)
  outputsFromNode : Nat → List Commitment → Except Error (List (Commitment × String × Nat × Nat))
  kernel : Nat → Commitment → Option Nat → Option Nat → Except Error (Option TxKernel)
  mempool : Nat → Except Error (List Transaction)
  pmmrIndices : Nat → Nat → Option Nat → Except Error (Nat × Nat)
  outputsByPmmrIndex : Nat → Nat → Option Nat → Nat → Except Error (Nat × Nat × List ChainOutput)
  -- The other party
  nodeSynced : Nat → Bool
  otherWalletIsV3 : Nat → Except Error Bool
  receiveTxReply : Nat → Slate → Except Error Slate
  keybaseReply : Nat → Slate → Except Error Slate
  publishEpicbox : Nat → Slate → String → Except Error Unit
  throughV2 : Slate → Slate
  createSender : Nat → String → String → Except Error Unit
  postTx : Nat → Transaction → Bool → Except Error Unit
  -- The machine
  newSecretKey : Nat → SecretKey
  newUuid : Nat → Uuid
  now : Nat → DateTime
  createFile : Nat → String → Except Error Unit
  /-- The order in which a `HashMap` is walked. -/
  mapOrder : {α : Type} → Nat → List α → List α
  mapOrder_perm : ∀ {α : Type} (t : Nat) (l : List α), (mapOrder t l).Perm l
  /-- The accounts another call activates while the wallet's lock is free. -/
  switches : Nat → List String
  /-- Whether the program is stopped for good before it next gets the wallet's lock. -/
  stops : Nat → Bool
  patience : Nat

/-! ## The wallet -/

/-- The rows of the store, by what their bytes encode. -/
inductive Key where
  | output (id : Identifier) (mmrIndex : Option Nat)
  | outputHistory (n : Nat)
  | outputHistoryId
  | deriv (parent : Identifier)
  | confirmedHeight (parent : Identifier)
  | privateTxContext (slateId : Uuid) (participantId : Nat)
  | txLogEntry (parent : Identifier) (id : Nat)
  | txLogId (parent : Identifier)
  | accountPathMapping (label : String)
  | lastScannedBlock
  | walletInitStatus
deriving DecidableEq

/-- A partial signature that was computed: whose nonce it uses and what was signed. -/
structure PartialSig where
  secNonce : SecretKey
  msg : Message
  pubNonceSum : PublicKey
  pubBlindSum : PublicKey
deriving DecidableEq

/-- `LMDBBackend`. `tick` counts the answers taken from the world; `partialSigs` is a record of
every partial signature computed, which no function reads. -/
structure Wallet where
  db : Rows Key Serializable
  keychain : Option Keychain
  masterChecksum : Option Nat
  parentKeyId : Identifier
  storedTxs : Rows String Transaction
  tick : Nat
  partialSigs : List PartialSig

abbrev WalletM := Prog Wallet Error

/-- The number of the next answer of the world. -/
def nextTick : WalletM Nat := fun w => (.ok w.tick, { w with tick := w.tick + 1 })

@[simp] theorem nextTick_apply (w : Wallet) :
    nextTick w = (.ok w.tick, { w with tick := w.tick + 1 }) := rfl

/-- Only the number of answers taken and the record of signatures differ. -/
def Aside (w w' : Wallet) : Prop := w' = { w with tick := w'.tick, partialSigs := w'.partialSigs }

instance : Std.Refl Aside := ⟨fun _ => rfl⟩

instance : IsTrans Wallet Aside where
  trans a b c h h' := by
    unfold Aside at h h' ⊢
    rw [h', h]

theorem Aside.db {w w' : Wallet} (h : Aside w w') : w'.db = w.db := by
  rw [h]

theorem nextTick_aside : Prog.Keeps Aside nextTick := fun _ => rfl

/-! ## Machine integers -/

def u32Size : Nat := 2 ^ 32

def u64Size : Nat := 2 ^ 64

/-- `n as u32`. -/
def asU32 (n : Nat) : Nat := n % u32Size

def addU32 (a b : Nat) : WalletM Nat := if a + b < u32Size then pure (a + b) else Prog.panic

def addU64 (a b : Nat) : WalletM Nat := if a + b < u64Size then pure (a + b) else Prog.panic

def subU64 (a b : Nat) : WalletM Nat := if b ≤ a then pure (a - b) else Prog.panic

/-- `.iter().sum()` of `u64` values. -/
def sumU64 : List Nat → WalletM Nat := List.foldlM addU64 0

theorem addU32_ok {a b n : Nat} {w w' : Wallet} :
    addU32 a b w = (.ok n, w') ↔ n = a + b ∧ a + b < u32Size ∧ w' = w := by
  unfold addU32
  split <;> simp [*, eq_comm]

theorem addU64_ok {a b n : Nat} {w w' : Wallet} :
    addU64 a b w = (.ok n, w') ↔ n = a + b ∧ a + b < u64Size ∧ w' = w := by
  unfold addU64
  split <;> simp [*, eq_comm]

theorem subU64_ok {a b n : Nat} {w w' : Wallet} :
    subU64 a b w = (.ok n, w') ↔ n = a - b ∧ b ≤ a ∧ w' = w := by
  unfold subU64
  split <;> simp [*, eq_comm]

theorem addU32_reads (a b : Nat) : Prog.Reads (addU32 a b) :=
  .ite (fun _ => .pure _) fun _ => .panic

theorem addU64_reads (a b : Nat) : Prog.Reads (addU64 a b) :=
  .ite (fun _ => .pure _) fun _ => .panic

theorem subU64_reads (a b : Nat) : Prog.Reads (subU64 a b) :=
  .ite (fun _ => .pure _) fun _ => .panic

theorem sumU64_reads (l : List Nat) : Prog.Reads (sumU64 l) :=
  .foldlM _ _ fun _ _ _ => addU64_reads _ _

theorem addU32_errless (a b : Nat) : Prog.Errless (addU32 a b) := .ite (.pure _) .panic

theorem addU64_errless (a b : Nat) : Prog.Errless (addU64 a b) := .ite (.pure _) .panic

theorem subU64_errless (a b : Nat) : Prog.Errless (subU64 a b) := .ite (.pure _) .panic

theorem sumU64_errless (l : List Nat) : Prog.Errless (sumU64 l) :=
  .foldlM (fun _ _ => addU64_errless _ _) _ _

/-! ## Texts -/

/-- `k` hexadecimal digits of `n`, the most significant first. -/
def hexDigits : Nat → Nat → List Char
  | 0, _ => []
  | k + 1, n => hexDigits k (n / 16) ++ [Nat.digitChar (n % 16)]

/-- `impl Display for Identifier`: the depth byte and the four components in hexadecimal. -/
def Identifier.display (id : Identifier) : String :=
  String.ofList (hexDigits 2 id.depth ++ hexDigits 8 id.p0 ++ hexDigits 8 id.p1 ++
    hexDigits 8 id.p2 ++ hexDigits 8 id.p3)

/-- `impl Display for Uuid`: the hyphenated form. -/
def Uuid.display (u : Uuid) : String :=
  String.ofList (hexDigits 8 (u.raw / 2 ^ 96) ++ '-' :: hexDigits 4 (u.raw / 2 ^ 80) ++
    '-' :: hexDigits 4 (u.raw / 2 ^ 64) ++ '-' :: hexDigits 4 (u.raw / 2 ^ 48) ++
    '-' :: hexDigits 12 u.raw)

/-- The name of the file of a transaction. -/
def txFileName (u : Uuid) : String := u.display ++ ".epictx"

/-! ## A small world

Arithmetic in place of cryptography, and a node that knows every output it is asked for. The
concrete runs of the development take place here. -/

namespace World

/-- The components of a path as one number. -/
def pathNumber (id : Identifier) : Nat :=
  id.depth + 10 * id.p0 + 100 * id.p1 + 1000 * id.p2 + 10000 * id.p3

def smallCommit (value : Nat) (id : Identifier) : Commitment := ⟨value + 100000 * pathNumber id⟩

def smallAppend (tx : Transaction) : Append → Transaction
  | .input v id => { tx with inputs := tx.inputs ++ [⟨false, smallCommit v id⟩] }
  | .coinbaseInput v id => { tx with inputs := tx.inputs ++ [⟨true, smallCommit v id⟩] }
  | .output v id => { tx with outputs := tx.outputs ++ [⟨false, smallCommit v id, ⟨0⟩⟩] }

def featuresFee : KernelFeatures → Nat
  | .plain fee => fee
  | .coinbase => 0
  | .heightLocked fee _ => fee

def small : World where
  maskMasterKey k m := .ok ⟨k.raw ^^^ m.raw⟩
  deriveKey k _ id _ := .ok ⟨k.raw + pathNumber id⟩
  commit _ value id _ := .ok (smallCommit value id)
  blindSum _ pos neg := .ok ⟨(pos.map (·.raw)).sum - (neg.map (·.raw)).sum⟩
  masterChecksum k := k.raw
  blindXorKey k u := k.raw + u.raw
  nonceXorKey k u := k.raw + 2 * u.raw
  messageHash s := .ok ⟨s.length⟩
  addressHash k := .ok k
  secretKey b := .ok ⟨b.raw⟩
  publicKey k := .ok ⟨k.raw⟩
  fromCombination l := .ok ⟨(l.map (·.raw)).sum⟩
  signSingle _ m k _ := .ok ⟨m.raw + k.raw⟩
  verifySingle _ _ _ := true
  calculatePartialSig k n r p m := .ok ⟨k.raw + n.raw + r.raw + p.raw + m.raw⟩
  verifyPartialSig _ _ _ _ _ := .ok ()
  addSignatures l _ := .ok ⟨(l.map (·.raw)).sum⟩
  verifyCompletedSig _ _ _ := .ok ()
  commitBlind v k := .ok ⟨v + k.raw⟩
  commitValue v := .ok ⟨v⟩
  commitSum pos neg := .ok ⟨(pos.map (·.raw)).sum - (neg.map (·.raw)).sum⟩
  dalekPublic k := ⟨k.raw⟩
  dalekSign k m := ⟨k.raw + m.amount⟩
  dalekVerify _ _ _ := true
  kernelSigMsg f := .ok ⟨featuresFee f⟩
  emptyKernel f := ⟨f, ⟨0⟩, ⟨0⟩⟩
  txFee i o k := max 1 (4 * o + k - i)
  partialTransaction tx elems _ := .ok (elems.foldl smallAppend tx, ⟨elems.length + 1⟩)
  totalFee tx := (tx.kernels.map fun k => featuresFee k.features).sum
  sumCommitments tx _ := .ok ⟨(tx.outputs.map (·.commit.raw)).sum⟩
  verifyKernel _ := .ok ()
  validate _ := .ok ()
  amountToHrString n := toString n
  validHeaderVersion _ v := v = 6
  coinbaseMaturity := 3
  reward fees _ := 16 + fees
  rewardOutput _ id fees _ :=
    .ok (⟨true, smallCommit (16 + fees) id, ⟨0⟩⟩, ⟨.coinbase, ⟨0⟩, ⟨0⟩⟩)
  cumulativeRewardFoundation _ := 4
  foundationOutput _ id _ := .ok (⟨true, smallCommit 4 id, ⟨0⟩⟩, ⟨.coinbase, ⟨0⟩, ⟨0⟩⟩)
  rewind _ _ _ _ := .ok none
  commitmentFromHex s := some ⟨s.toList.foldl (fun n c => 10 * n + (c.toNat - 48)) 0⟩
  commitmentToHex c := String.ofList (Nat.toDigits 10 c.raw)
  nodeStatus _ := .ok "no_sync"
  chainTip _ := .ok (10, "")
  outputsFromNode _ l := .ok (l.map fun c => (c, "", 1, 1))
  kernel _ _ _ _ := .ok none
  mempool _ := .ok []
  pmmrIndices _ _ _ := .ok (1, 1)
  outputsByPmmrIndex _ _ _ _ := .ok (1, 1, [])
  nodeSynced _ := true
  otherWalletIsV3 _ := .ok true
  receiveTxReply _ s := .ok s
  keybaseReply _ s := .ok s
  publishEpicbox _ _ _ := .ok ()
  throughV2 s := { s with ttlCutoffHeight := none, paymentProof := none }
  createSender _ _ _ := .ok ()
  postTx _ _ _ := .ok ()
  newSecretKey t := ⟨t + 1⟩
  newUuid t := ⟨t⟩
  now t := ⟨t⟩
  createFile _ _ := .ok ()
  mapOrder _ l := l
  mapOrder_perm _ l := .refl l
  switches _ := []
  stops _ := false
  patience := 8

end World

end EpicWallet
