import EpicWallet.Impls.Serialization
import EpicWallet.Lib.CharMap
import EpicWallet.Libwallet.World

/-!
# The versions of a slate

`libwallet/src/slate_versions/`: the slate of version 2 and of version 3, the conversions between them
and to `Slate`, and their JSON. A nested record has its own type in each version, as in the source. Two
records with the same fields have the same JSON, which is written once with the constructor as a
parameter (`versionJson`, `readVersion`, ...).
-/

namespace EpicWallet

open Lib

/-- The codecs of the types a slate is made of. -/
structure SlateCodecs extends Codecs where
  blindingFactor : Codec BlindingFactor
  rangeProof : Codec RangeProof
  -- hexadecimal
  dalekPublicKey_ascii : ∀ k, (dalekPublicKey.enc k).Ascii
  dalekSignature_ascii : ∀ s, (dalekSignature.enc s).Ascii

/-- A type written as a number. -/
def Codec.num {α : Type} (f : α → Nat) (g : Nat → α) (h : ∀ a, g (f a) = a) : Codec α where
  enc a := .num (f a)
  dec j := match j with
    | .num n => some (g n)
    | _ => none
  dec_enc a := congrArg some (h a)
  enc_ne_null _ := nofun
  plain _ _ hs := by cases hs

/-- Codecs that write every number as it is. -/
def SlateCodecs.numbers : SlateCodecs where
  identifier :=
    { enc := identifierRaw
      dec := identifierOfRaw
      dec_enc := identifierOfRaw_raw
      enc_ne_null := fun _ => nofun
      plain := fun _ _ hs => by cases hs }
  uuid := .num Uuid.raw .mk Eq.refl
  dateTime :=
    { enc := fun t => match t.nanos with
        | .ofNat n => .arr [.bool true, .num n]
        | .negSucc n => .arr [.bool false, .num n]
      dec := fun j => match j with
        | .arr [.bool true, .num n] => some ⟨.ofNat n⟩
        | .arr [.bool false, .num n] => some ⟨.negSucc n⟩
        | _ => none
      dec_enc := fun ⟨t⟩ => by cases t <;> rfl
      enc_ne_null := fun ⟨t⟩ => by cases t <;> nofun
      plain := fun ⟨t⟩ _ hs => by cases t <;> cases hs }
  secretKey := .num SecretKey.raw .mk Eq.refl
  publicKey := .num PublicKey.raw .mk Eq.refl
  signature := .num Signature.raw .mk Eq.refl
  commitment := .num Commitment.raw .mk Eq.refl
  dalekPublicKey := .num DalekPublicKey.raw .mk Eq.refl
  dalekSignature := .num DalekSignature.raw .mk Eq.refl
  blindingFactor := .num BlindingFactor.raw .mk Eq.refl
  rangeProof := .num RangeProof.raw .mk Eq.refl
  dalekPublicKey_ascii _ _ hs := by cases hs
  dalekSignature_ascii _ _ hs := by cases hs

inductive CompatKernelFeatures where
  | plain
  | coinbase
  | heightLocked
deriving DecidableEq

/-! ## Version 3 -/

structure VersionCompatInfoV3 where
  version : Nat
  origVersion : Nat
  blockHeaderVersion : Nat
deriving DecidableEq

structure ParticipantDataV3 where
  id : Nat
  publicBlindExcess : PublicKey
  publicNonce : PublicKey
  partSig : Option Signature
  message : Option String
  messageSig : Option Signature
deriving DecidableEq

structure PaymentInfoV3 where
  senderAddress : DalekPublicKey
  receiverAddress : DalekPublicKey
  receiverSignature : Option DalekSignature
deriving DecidableEq

structure InputV3 where
  isCoinbase : Bool
  commit : Commitment
deriving DecidableEq

structure OutputV3 where
  isCoinbase : Bool
  commit : Commitment
  proof : RangeProof
deriving DecidableEq

structure TxKernelV3 where
  features : CompatKernelFeatures
  fee : Nat
  lockHeight : Nat
  excess : Commitment
  excessSig : Signature
deriving DecidableEq

structure TransactionBodyV3 where
  inputs : List InputV3
  outputs : List OutputV3
  kernels : List TxKernelV3
deriving DecidableEq

structure TransactionV3 where
  offset : BlindingFactor
  body : TransactionBodyV3
deriving DecidableEq

structure SlateV3 where
  versionInfo : VersionCompatInfoV3
  numParticipants : Nat
  id : Uuid
  tx : TransactionV3
  amount : Nat
  fee : Nat
  height : Nat
  lockHeight : Nat
  ttlCutoffHeight : Option Nat
  participantData : List ParticipantDataV3
  paymentProof : Option PaymentInfoV3
deriving DecidableEq

/-! ## Version 2 -/

structure VersionCompatInfoV2 where
  version : Nat
  origVersion : Nat
  blockHeaderVersion : Nat
deriving DecidableEq

structure ParticipantDataV2 where
  id : Nat
  publicBlindExcess : PublicKey
  publicNonce : PublicKey
  partSig : Option Signature
  message : Option String
  messageSig : Option Signature
deriving DecidableEq

structure InputV2 where
  isCoinbase : Bool
  commit : Commitment
deriving DecidableEq

structure OutputV2 where
  isCoinbase : Bool
  commit : Commitment
  proof : RangeProof
deriving DecidableEq

structure TxKernelV2 where
  features : CompatKernelFeatures
  fee : Nat
  lockHeight : Nat
  excess : Commitment
  excessSig : Signature
deriving DecidableEq

structure TransactionBodyV2 where
  inputs : List InputV2
  outputs : List OutputV2
  kernels : List TxKernelV2
deriving DecidableEq

structure TransactionV2 where
  offset : BlindingFactor
  body : TransactionBodyV2
deriving DecidableEq

structure SlateV2 where
  versionInfo : VersionCompatInfoV2
  numParticipants : Nat
  id : Uuid
  tx : TransactionV2
  amount : Nat
  fee : Nat
  height : Nat
  lockHeight : Nat
  participantData : List ParticipantDataV2
deriving DecidableEq

/-! ## From a slate to version 3 -/

def VersionCompatInfoV3.ofSlate (data : VersionCompatInfo) : VersionCompatInfoV3 where
  version := data.version
  origVersion := data.origVersion
  blockHeaderVersion := data.blockHeaderVersion

def ParticipantDataV3.ofSlate (data : ParticipantData) : ParticipantDataV3 where
  id := data.id
  publicBlindExcess := data.publicBlindExcess
  publicNonce := data.publicNonce
  partSig := data.partSig
  message := data.message
  messageSig := data.messageSig

def PaymentInfoV3.ofSlate (data : PaymentInfo) : PaymentInfoV3 where
  senderAddress := data.senderAddress
  receiverAddress := data.receiverAddress
  receiverSignature := data.receiverSignature

def InputV3.ofSlate (input : Input) : InputV3 := ⟨input.isCoinbase, input.commit⟩

def OutputV3.ofSlate (output : Output) : OutputV3 := ⟨output.isCoinbase, output.commit, output.proof⟩

def TxKernelV3.ofSlate (kernel : TxKernel) : TxKernelV3 :=
  let (features, fee, lockHeight) := match kernel.features with
    | .plain fee => (CompatKernelFeatures.plain, fee, 0)
    | .coinbase => (CompatKernelFeatures.coinbase, 0, 0)
    | .heightLocked fee lockHeight => (CompatKernelFeatures.heightLocked, fee, lockHeight)
  { features, fee, lockHeight, excess := kernel.excess, excessSig := kernel.excessSig }

def TransactionV3.ofSlate (tx : Transaction) : TransactionV3 where
  offset := tx.offset
  body :=
    { inputs := tx.inputs.map InputV3.ofSlate
      outputs := tx.outputs.map OutputV3.ofSlate
      kernels := tx.kernels.map TxKernelV3.ofSlate }

def SlateV3.ofSlate (slate : Slate) : SlateV3 where
  numParticipants := slate.numParticipants
  id := slate.id
  tx := TransactionV3.ofSlate slate.tx
  amount := slate.amount
  fee := slate.fee
  height := slate.height
  lockHeight := slate.lockHeight
  ttlCutoffHeight := slate.ttlCutoffHeight
  participantData := slate.participantData.map ParticipantDataV3.ofSlate
  versionInfo := VersionCompatInfoV3.ofSlate slate.versionInfo
  paymentProof := match slate.paymentProof with
    | some p => some (PaymentInfoV3.ofSlate p)
    | none => none

/-! ## From version 3 to a slate -/

def VersionCompatInfo.ofV3 (data : VersionCompatInfoV3) : VersionCompatInfo where
  version := data.version
  origVersion := data.origVersion
  blockHeaderVersion := data.blockHeaderVersion

def ParticipantData.ofV3 (data : ParticipantDataV3) : ParticipantData where
  id := data.id
  publicBlindExcess := data.publicBlindExcess
  publicNonce := data.publicNonce
  partSig := data.partSig
  message := data.message
  messageSig := data.messageSig

def PaymentInfo.ofV3 (data : PaymentInfoV3) : PaymentInfo where
  senderAddress := data.senderAddress
  receiverAddress := data.receiverAddress
  receiverSignature := data.receiverSignature

def Input.ofV3 (input : InputV3) : Input := ⟨input.isCoinbase, input.commit⟩

def Output.ofV3 (output : OutputV3) : Output := ⟨output.isCoinbase, output.commit, output.proof⟩

def TxKernel.ofV3 (kernel : TxKernelV3) : TxKernel where
  features := match kernel.features with
    | .plain => .plain kernel.fee
    | .coinbase => .coinbase
    | .heightLocked => .heightLocked kernel.fee kernel.lockHeight
  excess := kernel.excess
  excessSig := kernel.excessSig

def Transaction.ofV3 (tx : TransactionV3) : Transaction where
  offset := tx.offset
  inputs := tx.body.inputs.map Input.ofV3
  outputs := tx.body.outputs.map Output.ofV3
  kernels := tx.body.kernels.map TxKernel.ofV3

def Slate.ofV3 (slate : SlateV3) : Slate where
  numParticipants := slate.numParticipants
  id := slate.id
  tx := Transaction.ofV3 slate.tx
  amount := slate.amount
  fee := slate.fee
  height := slate.height
  lockHeight := slate.lockHeight
  ttlCutoffHeight := slate.ttlCutoffHeight
  participantData := slate.participantData.map ParticipantData.ofV3
  versionInfo := VersionCompatInfo.ofV3 slate.versionInfo
  paymentProof := match slate.paymentProof with
    | some p => some (PaymentInfo.ofV3 p)
    | none => none

/-! ## From version 2 to version 3 -/

def VersionCompatInfoV3.ofV2 (data : VersionCompatInfoV2) : VersionCompatInfoV3 where
  version := data.version
  origVersion := data.origVersion
  blockHeaderVersion := data.blockHeaderVersion

def ParticipantDataV3.ofV2 (data : ParticipantDataV2) : ParticipantDataV3 where
  id := data.id
  publicBlindExcess := data.publicBlindExcess
  publicNonce := data.publicNonce
  partSig := data.partSig
  message := data.message
  messageSig := data.messageSig

def InputV3.ofV2 (input : InputV2) : InputV3 := ⟨input.isCoinbase, input.commit⟩

def OutputV3.ofV2 (output : OutputV2) : OutputV3 := ⟨output.isCoinbase, output.commit, output.proof⟩

def TxKernelV3.ofV2 (kernel : TxKernelV2) : TxKernelV3 where
  features := kernel.features
  fee := kernel.fee
  lockHeight := kernel.lockHeight
  excess := kernel.excess
  excessSig := kernel.excessSig

def TransactionV3.ofV2 (tx : TransactionV2) : TransactionV3 where
  offset := tx.offset
  body :=
    { inputs := tx.body.inputs.map InputV3.ofV2
      outputs := tx.body.outputs.map OutputV3.ofV2
      kernels := tx.body.kernels.map TxKernelV3.ofV2 }

def SlateV3.ofV2 (slate : SlateV2) : SlateV3 where
  numParticipants := slate.numParticipants
  id := slate.id
  tx := TransactionV3.ofV2 slate.tx
  amount := slate.amount
  fee := slate.fee
  height := slate.height
  lockHeight := slate.lockHeight
  ttlCutoffHeight := none
  participantData := slate.participantData.map ParticipantDataV3.ofV2
  versionInfo := VersionCompatInfoV3.ofV2 slate.versionInfo
  paymentProof := none

/-! ## From version 3 to version 2 -/

def VersionCompatInfoV2.ofV3 (data : VersionCompatInfoV3) : VersionCompatInfoV2 where
  version := data.version
  origVersion := data.origVersion
  blockHeaderVersion := data.blockHeaderVersion

def ParticipantDataV2.ofV3 (data : ParticipantDataV3) : ParticipantDataV2 where
  id := data.id
  publicBlindExcess := data.publicBlindExcess
  publicNonce := data.publicNonce
  partSig := data.partSig
  message := data.message
  messageSig := data.messageSig

def InputV2.ofV3 (input : InputV3) : InputV2 := ⟨input.isCoinbase, input.commit⟩

def OutputV2.ofV3 (output : OutputV3) : OutputV2 := ⟨output.isCoinbase, output.commit, output.proof⟩

def TxKernelV2.ofV3 (kernel : TxKernelV3) : TxKernelV2 where
  features := kernel.features
  fee := kernel.fee
  lockHeight := kernel.lockHeight
  excess := kernel.excess
  excessSig := kernel.excessSig

def TransactionV2.ofV3 (tx : TransactionV3) : TransactionV2 where
  offset := tx.offset
  body :=
    { inputs := tx.body.inputs.map InputV2.ofV3
      outputs := tx.body.outputs.map OutputV2.ofV3
      kernels := tx.body.kernels.map TxKernelV2.ofV3 }

def SlateV2.ofV3 (slate : SlateV3) : SlateV2 where
  numParticipants := slate.numParticipants
  id := slate.id
  tx := TransactionV2.ofV3 slate.tx
  amount := slate.amount
  fee := slate.fee
  height := slate.height
  lockHeight := slate.lockHeight
  participantData := slate.participantData.map ParticipantDataV2.ofV3
  versionInfo := VersionCompatInfoV2.ofV3 slate.versionInfo

/-! ## A slate with its version -/

inductive SlateVersion where
  | v3
  | v2
deriving DecidableEq

inductive VersionedSlate where
  | v3 (slate : SlateV3)
  | v2 (slate : SlateV2)
deriving DecidableEq

def VersionedSlate.intoVersion (slate : Slate) : SlateVersion → VersionedSlate
  | .v3 => .v3 (SlateV3.ofSlate slate)
  | .v2 => .v2 (SlateV2.ofV3 (SlateV3.ofSlate slate))

def Slate.ofVersioned : VersionedSlate → Slate
  | .v3 s => Slate.ofV3 s
  | .v2 s => Slate.ofV3 (SlateV3.ofV2 s)

/-! ## JSON of the parts -/

def outputFeaturesJson (isCoinbase : Bool) : Json := .str (if isCoinbase then "Coinbase" else "Plain")

def readOutputFeatures : Json → Option Bool
  | .str "Plain" => some false
  | .str "Coinbase" => some true
  | _ => none

def CompatKernelFeatures.toJson : CompatKernelFeatures → Json
  | .plain => .str "Plain"
  | .coinbase => .str "Coinbase"
  | .heightLocked => .str "HeightLocked"

def CompatKernelFeatures.fromJson : Json → Option CompatKernelFeatures
  | .str "Plain" => some .plain
  | .str "Coinbase" => some .coinbase
  | .str "HeightLocked" => some .heightLocked
  | _ => none

section
variable (C : SlateCodecs) {α β γ δ : Type}

def versionJson (version origVersion blockHeaderVersion : Nat) : Json :=
  .obj [("version", .num version), ("orig_version", .num origVersion),
    ("block_header_version", .num blockHeaderVersion)]

def readVersion (mk : Nat → Nat → Nat → α) : Json → Option α
  | .obj l => do
    let version ← field l "version" readNat
    let origVersion ← field l "orig_version" readNat
    let blockHeaderVersion ← field l "block_header_version" readNat
    pure (mk version origVersion blockHeaderVersion)
  | _ => none

def participantJson (id : Nat) (publicBlindExcess publicNonce : PublicKey)
    (partSig : Option Signature) (message : Option String) (messageSig : Option Signature) : Json :=
  .obj [("id", stringOrU64 id), ("public_blind_excess", C.publicKey.enc publicBlindExcess),
    ("public_nonce", C.publicKey.enc publicNonce), ("part_sig", optJson C.signature.enc partSig),
    ("message", optJson .str message), ("message_sig", optJson C.signature.enc messageSig)]

def readParticipant (mk : Nat → PublicKey → PublicKey → Option Signature → Option String →
    Option Signature → α) : Json → Option α
  | .obj l => do
    let id ← field l "id" readStringOrU64
    let publicBlindExcess ← field l "public_blind_excess" C.publicKey.dec
    let publicNonce ← field l "public_nonce" C.publicKey.dec
    let partSig ← field l "part_sig" (readOpt C.signature.dec)
    let message ← fieldOpt l "message" readString
    let messageSig ← field l "message_sig" (readOpt C.signature.dec)
    pure (mk id publicBlindExcess publicNonce partSig message messageSig)
  | _ => none

def inputJson (isCoinbase : Bool) (commit : Commitment) : Json :=
  .obj [("features", outputFeaturesJson isCoinbase), ("commit", C.commitment.enc commit)]

def readInput (mk : Bool → Commitment → α) : Json → Option α
  | .obj l => do
    let features ← field l "features" readOutputFeatures
    let commit ← field l "commit" C.commitment.dec
    pure (mk features commit)
  | _ => none

def outputJson (isCoinbase : Bool) (commit : Commitment) (proof : RangeProof) : Json :=
  .obj [("features", outputFeaturesJson isCoinbase), ("commit", C.commitment.enc commit),
    ("proof", C.rangeProof.enc proof)]

def readOutput (mk : Bool → Commitment → RangeProof → α) : Json → Option α
  | .obj l => do
    let features ← field l "features" readOutputFeatures
    let commit ← field l "commit" C.commitment.dec
    let proof ← field l "proof" C.rangeProof.dec
    pure (mk features commit proof)
  | _ => none

def kernelJson (features : CompatKernelFeatures) (fee lockHeight : Nat) (excess : Commitment)
    (excessSig : Signature) : Json :=
  .obj [("features", features.toJson), ("fee", stringOrU64 fee),
    ("lock_height", stringOrU64 lockHeight), ("excess", C.commitment.enc excess),
    ("excess_sig", C.signature.enc excessSig)]

def readKernel (mk : CompatKernelFeatures → Nat → Nat → Commitment → Signature → α) :
    Json → Option α
  | .obj l => do
    let features ← field l "features" CompatKernelFeatures.fromJson
    let fee ← field l "fee" readStringOrU64
    let lockHeight ← field l "lock_height" readStringOrU64
    let excess ← field l "excess" C.commitment.dec
    let excessSig ← field l "excess_sig" C.signature.dec
    pure (mk features fee lockHeight excess excessSig)
  | _ => none

def bodyJson (inputs outputs kernels : List Json) : Json :=
  .obj [("inputs", .arr inputs), ("outputs", .arr outputs), ("kernels", .arr kernels)]

def readBody (mk : List β → List γ → List δ → α) (input : Json → Option β)
    (output : Json → Option γ) (kernel : Json → Option δ) : Json → Option α
  | .obj l => do
    let inputs ← field l "inputs" (readList input)
    let outputs ← field l "outputs" (readList output)
    let kernels ← field l "kernels" (readList kernel)
    pure (mk inputs outputs kernels)
  | _ => none

def transactionJson (offset : BlindingFactor) (body : Json) : Json :=
  .obj [("offset", C.blindingFactor.enc offset), ("body", body)]

def readTransaction (mk : BlindingFactor → β → α) (body : Json → Option β) : Json → Option α
  | .obj l => do
    let offset ← field l "offset" C.blindingFactor.dec
    let body ← field l "body" body
    pure (mk offset body)
  | _ => none

end

/-! ## JSON of version 3 -/

section
variable (C : SlateCodecs)

def VersionCompatInfoV3.toJson (v : VersionCompatInfoV3) : Json :=
  versionJson v.version v.origVersion v.blockHeaderVersion

def VersionCompatInfoV3.fromJson : Json → Option VersionCompatInfoV3 := readVersion .mk

def ParticipantDataV3.toJson (p : ParticipantDataV3) : Json :=
  participantJson C p.id p.publicBlindExcess p.publicNonce p.partSig p.message p.messageSig

def ParticipantDataV3.fromJson : Json → Option ParticipantDataV3 := readParticipant C .mk

def PaymentInfoV3.toJson (p : PaymentInfoV3) : Json :=
  .obj [("sender_address", C.dalekPublicKey.enc p.senderAddress),
    ("receiver_address", C.dalekPublicKey.enc p.receiverAddress),
    ("receiver_signature", optJson C.dalekSignature.enc p.receiverSignature)]

def PaymentInfoV3.fromJson : Json → Option PaymentInfoV3
  | .obj l => do
    let senderAddress ← field l "sender_address" C.dalekPublicKey.dec
    let receiverAddress ← field l "receiver_address" C.dalekPublicKey.dec
    let receiverSignature ← field l "receiver_signature" (readOpt C.dalekSignature.dec)
    pure { senderAddress, receiverAddress, receiverSignature }
  | _ => none

def InputV3.toJson (i : InputV3) : Json := inputJson C i.isCoinbase i.commit

def InputV3.fromJson : Json → Option InputV3 := readInput C .mk

def OutputV3.toJson (o : OutputV3) : Json := outputJson C o.isCoinbase o.commit o.proof

def OutputV3.fromJson : Json → Option OutputV3 := readOutput C .mk

def TxKernelV3.toJson (k : TxKernelV3) : Json :=
  kernelJson C k.features k.fee k.lockHeight k.excess k.excessSig

def TxKernelV3.fromJson : Json → Option TxKernelV3 := readKernel C .mk

def TransactionBodyV3.toJson (b : TransactionBodyV3) : Json :=
  bodyJson (b.inputs.map (InputV3.toJson C)) (b.outputs.map (OutputV3.toJson C))
    (b.kernels.map (TxKernelV3.toJson C))

def TransactionBodyV3.fromJson : Json → Option TransactionBodyV3 :=
  readBody .mk (InputV3.fromJson C) (OutputV3.fromJson C) (TxKernelV3.fromJson C)

def TransactionV3.toJson (tx : TransactionV3) : Json :=
  transactionJson C tx.offset (tx.body.toJson C)

def TransactionV3.fromJson : Json → Option TransactionV3 :=
  readTransaction C .mk (TransactionBodyV3.fromJson C)

def SlateV3.toJson (s : SlateV3) : Json :=
  .obj [("version_info", s.versionInfo.toJson), ("num_participants", .num s.numParticipants),
    ("id", C.uuid.enc s.id), ("tx", s.tx.toJson C), ("amount", stringOrU64 s.amount),
    ("fee", stringOrU64 s.fee), ("height", stringOrU64 s.height),
    ("lock_height", stringOrU64 s.lockHeight),
    ("ttl_cutoff_height", optJson stringOrU64 s.ttlCutoffHeight),
    ("participant_data", .arr (s.participantData.map (ParticipantDataV3.toJson C))),
    ("payment_proof", optJson (PaymentInfoV3.toJson C) s.paymentProof)]

def SlateV3.fromJson : Json → Option SlateV3
  | .obj l => do
    let versionInfo ← field l "version_info" VersionCompatInfoV3.fromJson
    let numParticipants ← field l "num_participants" readNat
    let id ← field l "id" C.uuid.dec
    let tx ← field l "tx" (TransactionV3.fromJson C)
    let amount ← field l "amount" readStringOrU64
    let fee ← field l "fee" readStringOrU64
    let height ← field l "height" readStringOrU64
    let lockHeight ← field l "lock_height" readStringOrU64
    -- no default: `deserialize_with` on an `Option` wants the field
    let ttlCutoffHeight ← field l "ttl_cutoff_height" (readOpt readStringOrU64)
    let participantData ← field l "participant_data" (readList (ParticipantDataV3.fromJson C))
    let paymentProof ← fieldOpt l "payment_proof" (PaymentInfoV3.fromJson C)
    pure { versionInfo, numParticipants, id, tx, amount, fee, height, lockHeight, ttlCutoffHeight,
           participantData, paymentProof }
  | _ => none

/-! ## JSON of version 2 -/

def VersionCompatInfoV2.toJson (v : VersionCompatInfoV2) : Json :=
  versionJson v.version v.origVersion v.blockHeaderVersion

def VersionCompatInfoV2.fromJson : Json → Option VersionCompatInfoV2 := readVersion .mk

def ParticipantDataV2.toJson (p : ParticipantDataV2) : Json :=
  participantJson C p.id p.publicBlindExcess p.publicNonce p.partSig p.message p.messageSig

def ParticipantDataV2.fromJson : Json → Option ParticipantDataV2 := readParticipant C .mk

def InputV2.toJson (i : InputV2) : Json := inputJson C i.isCoinbase i.commit

def InputV2.fromJson : Json → Option InputV2 := readInput C .mk

def OutputV2.toJson (o : OutputV2) : Json := outputJson C o.isCoinbase o.commit o.proof

def OutputV2.fromJson : Json → Option OutputV2 := readOutput C .mk

def TxKernelV2.toJson (k : TxKernelV2) : Json :=
  kernelJson C k.features k.fee k.lockHeight k.excess k.excessSig

def TxKernelV2.fromJson : Json → Option TxKernelV2 := readKernel C .mk

def TransactionBodyV2.toJson (b : TransactionBodyV2) : Json :=
  bodyJson (b.inputs.map (InputV2.toJson C)) (b.outputs.map (OutputV2.toJson C))
    (b.kernels.map (TxKernelV2.toJson C))

def TransactionBodyV2.fromJson : Json → Option TransactionBodyV2 :=
  readBody .mk (InputV2.fromJson C) (OutputV2.fromJson C) (TxKernelV2.fromJson C)

def TransactionV2.toJson (tx : TransactionV2) : Json :=
  transactionJson C tx.offset (tx.body.toJson C)

def TransactionV2.fromJson : Json → Option TransactionV2 :=
  readTransaction C .mk (TransactionBodyV2.fromJson C)

def SlateV2.toJson (s : SlateV2) : Json :=
  .obj [("version_info", s.versionInfo.toJson), ("num_participants", .num s.numParticipants),
    ("id", C.uuid.enc s.id), ("tx", s.tx.toJson C), ("amount", stringOrU64 s.amount),
    ("fee", stringOrU64 s.fee), ("height", stringOrU64 s.height),
    ("lock_height", stringOrU64 s.lockHeight),
    ("participant_data", .arr (s.participantData.map (ParticipantDataV2.toJson C)))]

def SlateV2.fromJson : Json → Option SlateV2
  | .obj l => do
    let versionInfo ← field l "version_info" VersionCompatInfoV2.fromJson
    let numParticipants ← field l "num_participants" readNat
    let id ← field l "id" C.uuid.dec
    let tx ← field l "tx" (TransactionV2.fromJson C)
    let amount ← field l "amount" readStringOrU64
    let fee ← field l "fee" readStringOrU64
    let height ← field l "height" readStringOrU64
    let lockHeight ← field l "lock_height" readStringOrU64
    let participantData ← field l "participant_data" (readList (ParticipantDataV2.fromJson C))
    pure { versionInfo, numParticipants, id, tx, amount, fee, height, lockHeight, participantData }
  | _ => none

/-! ## JSON of a slate with its version -/

namespace VersionedSlate

/-- Untagged: the JSON of the slate. -/
def toJson : VersionedSlate → Json
  | .v3 s => s.toJson C
  | .v2 s => s.toJson C

/-- Untagged: the first version that can be read. -/
def fromJson (j : Json) : Option VersionedSlate :=
  (SlateV3.fromJson C j).map .v3 <|> (SlateV2.fromJson C j).map .v2

/-- `serde_json::to_string`. -/
def toText (s : VersionedSlate) : List Char := (s.toJson C).render

/-- `serde_json::from_str`. -/
def fromText (text : List Char) : Option VersionedSlate := (Json.read text).bind (fromJson C)

end VersionedSlate

/-! ## A slate as text -/

/-- The errors of `deserialize_upgrade`. -/
inductive SlateError where
  | slateVersionParse
  | slateDeser
  | slateVersion (version : Nat)
deriving DecidableEq

namespace Slate

/-- `impl Serialize for Slate`. -/
def toJson (s : Slate) : Option Json :=
  let v3 := SlateV3.ofSlate s
  match s.versionInfo.origVersion with
  | 3 => some (v3.toJson C)
  | 2 => some ((SlateV2.ofV3 v3).toJson C)
  | _ => none

/-- `SlateVersionProbe` and its version. -/
def probe : Json → Option Nat
  | .obj l => do
    let version ← fieldOpt l "version" readNat
    let versionInfo ← fieldOpt l "version_info" VersionCompatInfoV3.fromJson
    pure (match versionInfo with
      | some v => v.version
      | none => match version with
        | some _ => 1
        | none => 0)
  | _ => none

def parseSlateVersion (text : List Char) : Except SlateError Nat :=
  match (Json.read text).bind probe with
  | some v => .ok v
  | none => .error .slateVersionParse

def deserializeUpgrade (text : List Char) : Except SlateError Slate := do
  let version ← parseSlateVersion text
  let v3 ← (match version with
    | 3 => match (Json.read text).bind (SlateV3.fromJson C) with
      | some v3 => .ok v3
      | none => .error .slateDeser
    | 2 => match (Json.read text).bind (SlateV2.fromJson C) with
      | some v2 => .ok (SlateV3.ofV2 v2)
      | none => .error .slateDeser
    | v => .error (.slateVersion v))
  pure (Slate.ofV3 v3)

end Slate

end

end EpicWallet
