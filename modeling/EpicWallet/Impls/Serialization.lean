import Mathlib.Algebra.Order.Ring.Nat
import Mathlib.Tactic.Common
import EpicWallet.Lib.Json
import EpicWallet.Libwallet.Types

/-!
# JSON of the stored values

`impls/src/serialization.rs`: the JSON that `serialize` writes for each kind of stored value, as the
`serde` attributes of `libwallet/src/types.rs` and `libwallet/src/slate.rs` prescribe, and what
`deserialize` reads. `Serializable` is untagged, so the reader tries the kinds in their order.

* `deserialize_serialize`: reading the text of a value gives the value.
* `plainChars_serialize`: the text has an apostrophe exactly when a string the value carries has one.
* `map_serialize`: a change of apostrophes in the text is the text of the value with its strings
  changed.

How the libraries write their own values is a parameter (`Codecs`): hex or other text without
apostrophes that they read back. A field that occurs twice is read at its first occurrence.
-/

namespace EpicWallet

open Lib

/-! ## Values of the libraries -/

/-- How a library writes and reads one of its types. -/
structure Codec (α : Type) where
  enc : α → Json
  dec : Json → Option α
  dec_enc : ∀ a, dec (enc a) = some a
  enc_ne_null : ∀ a, enc a ≠ .null
  plain : ∀ a, (enc a).Plain

structure Codecs where
  identifier : Codec Identifier
  uuid : Codec Uuid
  dateTime : Codec DateTime
  secretKey : Codec SecretKey
  publicKey : Codec PublicKey
  signature : Codec Signature
  commitment : Codec Commitment
  dalekPublicKey : Codec DalekPublicKey
  dalekSignature : Codec DalekSignature

/-- An identifier written as the numbers of its path. -/
def identifierRaw (i : Identifier) : Json :=
  .arr [.num i.depth, .num i.p0, .num i.p1, .num i.p2, .num i.p3]

def identifierOfRaw : Json → Option Identifier
  | .arr [.num d, .num a, .num b, .num c, .num e] => some ⟨d, a, b, c, e⟩
  | _ => none

theorem identifierOfRaw_raw (i : Identifier) : identifierOfRaw (identifierRaw i) = some i := rfl

/-! ## Parts of values -/

def numText (n : Nat) : String := String.ofList (Nat.toDigits 10 n)

/-- `secp_ser::string_or_u64`. -/
def stringOrU64 (n : Nat) : Json := .str (numText n)

def optJson {α : Type} (enc : α → Json) : Option α → Json
  | none => .null
  | some a => enc a

def readNat : Json → Option Nat
  | .num n => some n
  | _ => none

def readU16 (j : Json) : Option Nat := (readNat j).filter (· < 2 ^ 16)

def readString : Json → Option String
  | .str s => some s
  | _ => none

def readBool : Json → Option Bool
  | .bool b => some b
  | _ => none

def readStringOrU64 : Json → Option Nat
  | .num n => some n
  | .str s =>
    if s.toList ≠ [] ∧ s.toList.all Char.isDigit then some (Nat.ofDigitChars 10 s.toList 0) else none
  | _ => none

def readOpt {α : Type} (dec : Json → Option α) : Json → Option (Option α)
  | .null => some none
  | j => (dec j).map some

def readList {α : Type} (dec : Json → Option α) : Json → Option (List α)
  | .arr l => l.mapM dec
  | _ => none

/-- A field that must be present. -/
def field {α : Type} (l : List (String × Json)) (k : String) (dec : Json → Option α) : Option α :=
  (l.lookup k).bind dec

/-- An optional field, which may be missing. -/
def fieldOpt {α : Type} (l : List (String × Json)) (k : String) (dec : Json → Option α) :
    Option (Option α) :=
  match l.lookup k with
  | none => some none
  | some j => readOpt dec j

/-! ## Records -/

def OutputStatus.toJson : OutputStatus → Json
  | .unconfirmed => .str "Unconfirmed"
  | .unspent => .str "Unspent"
  | .locked => .str "Locked"
  | .spent => .str "Spent"
  | .deleted => .str "Deleted"

def OutputStatus.fromJson : Json → Option OutputStatus
  | .str "Unconfirmed" => some .unconfirmed
  | .str "Unspent" => some .unspent
  | .str "Locked" => some .locked
  | .str "Spent" => some .spent
  | .str "Deleted" => some .deleted
  | _ => none

def TxLogEntryType.toJson : TxLogEntryType → Json
  | .confirmedCoinbase => .str "ConfirmedCoinbase"
  | .txReceived => .str "TxReceived"
  | .txSent => .str "TxSent"
  | .txReceivedCancelled => .str "TxReceivedCancelled"
  | .txSentCancelled => .str "TxSentCancelled"
  | .txSentMempool => .str "TxSentMempool"
  | .txReceivedMempool => .str "TxReceivedMempool"
  | .txSentCreated => .str "TxSentCreated"

def TxLogEntryType.fromJson : Json → Option TxLogEntryType
  | .str "ConfirmedCoinbase" => some .confirmedCoinbase
  | .str "TxReceived" => some .txReceived
  | .str "TxSent" => some .txSent
  | .str "TxReceivedCancelled" => some .txReceivedCancelled
  | .str "TxSentCancelled" => some .txSentCancelled
  | .str "TxSentMempool" => some .txSentMempool
  | .str "TxReceivedMempool" => some .txReceivedMempool
  | .str "TxSentCreated" => some .txSentCreated
  | _ => none

def WalletInitStatus.toJson : WalletInitStatus → Json
  | .initNeedsScanning => .str "InitNeedsScanning"
  | .initNoScanning => .str "InitNoScanning"
  | .initComplete => .str "InitComplete"

def WalletInitStatus.fromJson : Json → Option WalletInitStatus
  | .str "InitNeedsScanning" => some .initNeedsScanning
  | .str "InitNoScanning" => some .initNoScanning
  | .str "InitComplete" => some .initComplete
  | _ => none

section
variable (C : Codecs)

def ParticipantMessageData.toJson (m : ParticipantMessageData) : Json :=
  .obj [("id", stringOrU64 m.id), ("public_key", C.publicKey.enc m.publicKey),
    ("message", optJson .str m.message), ("message_sig", optJson C.signature.enc m.messageSig)]

def ParticipantMessageData.fromJson : Json → Option ParticipantMessageData
  | .obj l => do
    let id ← field l "id" readStringOrU64
    let publicKey ← field l "public_key" C.publicKey.dec
    let message ← fieldOpt l "message" readString
    let messageSig ← field l "message_sig" (readOpt C.signature.dec)
    pure { id, publicKey, message, messageSig }
  | _ => none

def ParticipantMessages.toJson (m : ParticipantMessages) : Json :=
  .obj [("messages", .arr (m.messages.map (ParticipantMessageData.toJson C)))]

def ParticipantMessages.fromJson : Json → Option ParticipantMessages
  | .obj l => do
    let messages ← field l "messages" (readList (ParticipantMessageData.fromJson C))
    pure { messages }
  | _ => none

def StoredProofInfo.toJson (p : StoredProofInfo) : Json :=
  .obj [("receiver_address", C.dalekPublicKey.enc p.receiverAddress),
    ("receiver_signature", optJson C.dalekSignature.enc p.receiverSignature),
    ("sender_address_path", .num p.senderAddressPath),
    ("sender_address", C.dalekPublicKey.enc p.senderAddress),
    ("sender_signature", optJson C.dalekSignature.enc p.senderSignature)]

def StoredProofInfo.fromJson : Json → Option StoredProofInfo
  | .obj l => do
    let receiverAddress ← field l "receiver_address" C.dalekPublicKey.dec
    let receiverSignature ← field l "receiver_signature" (readOpt C.dalekSignature.dec)
    let senderAddressPath ← field l "sender_address_path" readNat
    let senderAddress ← field l "sender_address" C.dalekPublicKey.dec
    let senderSignature ← field l "sender_signature" (readOpt C.dalekSignature.dec)
    pure { receiverAddress, receiverSignature, senderAddressPath, senderAddress, senderSignature }
  | _ => none

def TxLogEntry.toJson (t : TxLogEntry) : Json :=
  .obj [("confirmation_height", optJson .num t.confirmationHeight),
    ("parent_key_id", C.identifier.enc t.parentKeyId), ("id", .num t.id),
    ("tx_slate_id", optJson C.uuid.enc t.txSlateId), ("tx_type", t.txType.toJson),
    ("creation_ts", C.dateTime.enc t.creationTs),
    ("confirmation_ts", optJson C.dateTime.enc t.confirmationTs), ("confirmed", .bool t.confirmed),
    ("num_inputs", .num t.numInputs), ("num_outputs", .num t.numOutputs),
    ("amount_credited", stringOrU64 t.amountCredited),
    ("amount_debited", stringOrU64 t.amountDebited), ("fee", optJson stringOrU64 t.fee),
    ("ttl_cutoff_height", optJson stringOrU64 t.ttlCutoffHeight),
    ("messages", optJson (ParticipantMessages.toJson C) t.messages),
    ("stored_tx", optJson .str t.storedTx),
    ("kernel_excess", optJson C.commitment.enc t.kernelExcess),
    ("kernel_lookup_min_height", optJson .num t.kernelLookupMinHeight),
    ("payment_proof", optJson (StoredProofInfo.toJson C) t.paymentProof),
    ("public_addr", optJson .str t.publicAddr)]

def TxLogEntry.fromJson : Json → Option TxLogEntry
  | .obj l => do
    let confirmationHeight ← fieldOpt l "confirmation_height" readNat
    let parentKeyId ← field l "parent_key_id" C.identifier.dec
    let id ← field l "id" readNat
    let txSlateId ← fieldOpt l "tx_slate_id" C.uuid.dec
    let txType ← field l "tx_type" TxLogEntryType.fromJson
    let creationTs ← field l "creation_ts" C.dateTime.dec
    let confirmationTs ← fieldOpt l "confirmation_ts" C.dateTime.dec
    let confirmed ← field l "confirmed" readBool
    let numInputs ← field l "num_inputs" readNat
    let numOutputs ← field l "num_outputs" readNat
    let amountCredited ← field l "amount_credited" readStringOrU64
    let amountDebited ← field l "amount_debited" readStringOrU64
    let fee ← field l "fee" (readOpt readStringOrU64)
    let ttlCutoffHeight ← fieldOpt l "ttl_cutoff_height" readStringOrU64
    let messages ← fieldOpt l "messages" (ParticipantMessages.fromJson C)
    let storedTx ← fieldOpt l "stored_tx" readString
    let kernelExcess ← fieldOpt l "kernel_excess" C.commitment.dec
    let kernelLookupMinHeight ← fieldOpt l "kernel_lookup_min_height" readNat
    let paymentProof ← fieldOpt l "payment_proof" (StoredProofInfo.fromJson C)
    let publicAddr ← fieldOpt l "public_addr" readString
    pure { confirmationHeight, parentKeyId, id, txSlateId, txType, creationTs, confirmationTs,
           confirmed, numInputs, numOutputs, amountCredited, amountDebited, fee, ttlCutoffHeight,
           messages, storedTx, kernelExcess, kernelLookupMinHeight, paymentProof, publicAddr }
  | _ => none

def AcctPathMapping.toJson (a : AcctPathMapping) : Json :=
  .obj [("label", .str a.label), ("path", C.identifier.enc a.path)]

def AcctPathMapping.fromJson : Json → Option AcctPathMapping
  | .obj l => do
    let label ← field l "label" readString
    let path ← field l "path" C.identifier.dec
    pure { label, path }
  | _ => none

def OutputData.toJson (o : OutputData) : Json :=
  .obj [("root_key_id", C.identifier.enc o.rootKeyId), ("key_id", C.identifier.enc o.keyId),
    ("n_child", .num o.nChild), ("commit", optJson .str o.commit),
    ("mmr_index", optJson stringOrU64 o.mmrIndex), ("value", stringOrU64 o.value),
    ("status", o.status.toJson), ("height", stringOrU64 o.height),
    ("lock_height", stringOrU64 o.lockHeight), ("is_coinbase", .bool o.isCoinbase),
    ("tx_log_entry", optJson .num o.txLogEntry)]

def OutputData.fromJson : Json → Option OutputData
  | .obj l => do
    let rootKeyId ← field l "root_key_id" C.identifier.dec
    let keyId ← field l "key_id" C.identifier.dec
    let nChild ← field l "n_child" readNat
    let commit ← fieldOpt l "commit" readString
    let mmrIndex ← field l "mmr_index" (readOpt readStringOrU64)
    let value ← field l "value" readStringOrU64
    let status ← field l "status" OutputStatus.fromJson
    let height ← field l "height" readStringOrU64
    let lockHeight ← field l "lock_height" readStringOrU64
    let isCoinbase ← field l "is_coinbase" readBool
    let txLogEntry ← fieldOpt l "tx_log_entry" readNat
    pure { rootKeyId, keyId, nChild, commit, mmrIndex, value, status, height, lockHeight,
           isCoinbase, txLogEntry }
  | _ => none

def ScannedBlockInfo.toJson (b : ScannedBlockInfo) : Json :=
  .obj [("height", .num b.height), ("hash", .str b.hash),
    ("start_pmmr_index", .num b.startPmmrIndex), ("last_pmmr_index", .num b.lastPmmrIndex)]

def ScannedBlockInfo.fromJson : Json → Option ScannedBlockInfo
  | .obj l => do
    let height ← field l "height" readNat
    let hash ← field l "hash" readString
    let startPmmrIndex ← field l "start_pmmr_index" readNat
    let lastPmmrIndex ← field l "last_pmmr_index" readNat
    pure { height, hash, startPmmrIndex, lastPmmrIndex }
  | _ => none

/-- An element of a context's `output_ids` or `input_ids`. -/
def idToJson (x : Identifier × Option Nat × Nat) : Json :=
  .arr [C.identifier.enc x.1, optJson .num x.2.1, .num x.2.2]

def idFromJson : Json → Option (Identifier × Option Nat × Nat)
  | .arr [a, b, c] => do pure (← C.identifier.dec a, ← readOpt readNat b, ← readNat c)
  | _ => none

def Context.toJson (c : Context) : Json :=
  .obj [("parent_key_id", C.identifier.enc c.parentKeyId), ("sec_key", C.secretKey.enc c.secKey),
    ("sec_nonce", C.secretKey.enc c.secNonce),
    ("output_ids", .arr (c.outputIds.map (idToJson C))),
    ("input_ids", .arr (c.inputIds.map (idToJson C))), ("fee", .num c.fee),
    ("participant_id", .num c.participantId),
    ("payment_proof_derivation_index", optJson .num c.paymentProofDerivationIndex)]

def Context.fromJson : Json → Option Context
  | .obj l => do
    let parentKeyId ← field l "parent_key_id" C.identifier.dec
    let secKey ← field l "sec_key" C.secretKey.dec
    let secNonce ← field l "sec_nonce" C.secretKey.dec
    let outputIds ← field l "output_ids" (readList (idFromJson C))
    let inputIds ← field l "input_ids" (readList (idFromJson C))
    let fee ← field l "fee" readNat
    let participantId ← field l "participant_id" readNat
    let paymentProofDerivationIndex ← fieldOpt l "payment_proof_derivation_index" readNat
    pure { parentKeyId, secKey, secNonce, outputIds, inputIds, fee, participantId,
           paymentProofDerivationIndex }
  | _ => none

namespace Serializable

def toJson : Serializable → Json
  | .txLogEntry t => t.toJson C
  | .acctPathMapping a => a.toJson C
  | .outputData o => o.toJson C
  | .scannedBlockInfo b => b.toJson
  | .walletInitStatus w => w.toJson
  | .context c => c.toJson C
  | .numeric n => .num n

def fromJson (j : Json) : Option Serializable :=
  (TxLogEntry.fromJson C j).map .txLogEntry <|>
  (AcctPathMapping.fromJson C j).map .acctPathMapping <|>
  (OutputData.fromJson C j).map .outputData <|>
  (ScannedBlockInfo.fromJson j).map .scannedBlockInfo <|>
  (WalletInitStatus.fromJson j).map .walletInitStatus <|>
  (Context.fromJson C j).map .context <|>
  (readNat j).map .numeric

end Serializable

def serialize (v : Serializable) : List Char := (v.toJson C).render

def deserialize (text : List Char) : Option Serializable :=
  (Json.read text).bind (Serializable.fromJson C)

/-! ## Reading undoes writing -/

section
variable {C} {α : Type}

@[simp] theorem Codec.read_enc (c : Codec α) (a : α) : c.dec (c.enc a) = some a := c.dec_enc a

@[simp] theorem readNat_num (n : Nat) : readNat (.num n) = some n := rfl

@[simp] theorem readString_str (s : String) : readString (.str s) = some s := rfl

@[simp] theorem readBool_bool (b : Bool) : readBool (.bool b) = some b := rfl

@[simp] theorem readStringOrU64_text (n : Nat) : readStringOrU64 (stringOrU64 n) = some n := by
  have h : Nat.toDigits 10 n ≠ [] := by
    obtain ⟨c, l, h, -⟩ := Json.toDigits_cons n
    simp [h]
  have hd : (Nat.toDigits 10 n).all Char.isDigit := by
    rw [List.all_eq_true]
    exact fun c hc => Nat.isDigit_of_mem_toDigits (b := 10) (by decide) (by decide) hc
  simp [readStringOrU64, stringOrU64, numText, h, hd]

theorem readOpt_of_ne_null {dec : Json → Option α} {j : Json} (h : j ≠ .null) :
    readOpt dec j = (dec j).map some := by
  cases j <;> first | rfl | exact absurd rfl h

/-- An optional value is read back when its writer's texts are, and none of them is `null`. -/
theorem readOpt_optJson {enc : α → Json} {dec : Json → Option α} (h : ∀ a, dec (enc a) = some a)
    (hn : ∀ a, enc a ≠ .null) (o : Option α) : readOpt dec (optJson enc o) = some o := by
  cases o with
  | none => rfl
  | some a => simp [optJson, readOpt_of_ne_null (hn a), h]

@[simp] theorem readOpt_codec (c : Codec α) (o : Option α) :
    readOpt c.dec (optJson c.enc o) = some o :=
  readOpt_optJson c.dec_enc c.enc_ne_null o

@[simp] theorem readOpt_num (o : Option Nat) : readOpt readNat (optJson .num o) = some o :=
  readOpt_optJson readNat_num (by simp) o

@[simp] theorem readOpt_str (o : Option String) : readOpt readString (optJson .str o) = some o :=
  readOpt_optJson readString_str (by simp) o

@[simp] theorem readOpt_stringOrU64 (o : Option Nat) :
    readOpt readStringOrU64 (optJson stringOrU64 o) = some o :=
  readOpt_optJson readStringOrU64_text (by simp [stringOrU64]) o

/-- A list is read back when its elements are. -/
theorem readList_map {enc : α → Json} {dec : Json → Option α} (h : ∀ a, dec (enc a) = some a)
    (l : List α) : readList dec (.arr (l.map enc)) = some l := by
  unfold readList
  induction l with
  | nil => rfl
  | cons a l ih => simp only at ih; simp [h, ih]

@[simp] theorem OutputStatus.fromJson_toJson (s : OutputStatus) :
    OutputStatus.fromJson s.toJson = some s := by cases s <;> rfl

@[simp] theorem TxLogEntryType.fromJson_toJson (t : TxLogEntryType) :
    TxLogEntryType.fromJson t.toJson = some t := by cases t <;> rfl

@[simp] theorem WalletInitStatus.fromJson_toJson (w : WalletInitStatus) :
    WalletInitStatus.fromJson w.toJson = some w := by cases w <;> rfl

@[simp] theorem ParticipantMessageData.fromJson_toJson (m : ParticipantMessageData) :
    ParticipantMessageData.fromJson C (m.toJson C) = some m := by
  simp only [fromJson, toJson, field, fieldOpt, List.lookup_cons, String.reduceBEq,
    Option.bind_some, Option.pure_def, Option.bind_eq_bind, Codec.read_enc, readStringOrU64_text,
    readOpt_str, readOpt_codec]

@[simp] theorem ParticipantMessages.fromJson_toJson (m : ParticipantMessages) :
    ParticipantMessages.fromJson C (m.toJson C) = some m := by
  simp only [fromJson, toJson, field, List.lookup_cons, String.reduceBEq, Option.bind_some, Option.pure_def,
    Option.bind_eq_bind, readList_map ParticipantMessageData.fromJson_toJson]

@[simp] theorem StoredProofInfo.fromJson_toJson (p : StoredProofInfo) :
    StoredProofInfo.fromJson C (p.toJson C) = some p := by
  simp only [fromJson, toJson, field, List.lookup_cons, String.reduceBEq, Option.bind_some,
    Option.pure_def, Option.bind_eq_bind, Codec.read_enc, readNat_num, readOpt_codec]

theorem readOpt_messages (o : Option ParticipantMessages) :
    readOpt (ParticipantMessages.fromJson C) (optJson (ParticipantMessages.toJson C) o) = some o :=
  readOpt_optJson ParticipantMessages.fromJson_toJson (fun m h => by cases h) o

theorem readOpt_paymentProof (o : Option StoredProofInfo) :
    readOpt (StoredProofInfo.fromJson C) (optJson (StoredProofInfo.toJson C) o) = some o :=
  readOpt_optJson StoredProofInfo.fromJson_toJson (fun m h => by cases h) o

theorem TxLogEntry.fromJson_toJson (t : TxLogEntry) :
    TxLogEntry.fromJson C (t.toJson C) = some t := by
  simp only [fromJson, toJson, field, fieldOpt, List.lookup_cons, String.reduceBEq,
    Option.bind_some, Option.pure_def, Option.bind_eq_bind, Codec.read_enc, readNat_num,
    readBool_bool, readStringOrU64_text, TxLogEntryType.fromJson_toJson, readOpt_num, readOpt_codec,
    readOpt_str, readOpt_stringOrU64, readOpt_messages, readOpt_paymentProof]

theorem AcctPathMapping.fromJson_toJson (a : AcctPathMapping) :
    AcctPathMapping.fromJson C (a.toJson C) = some a := by
  simp only [fromJson, toJson, field, List.lookup_cons, String.reduceBEq, Option.bind_some,
    Option.pure_def, Option.bind_eq_bind, readString_str, Codec.read_enc]

theorem OutputData.fromJson_toJson (o : OutputData) :
    OutputData.fromJson C (o.toJson C) = some o := by
  simp only [fromJson, toJson, field, fieldOpt, List.lookup_cons, String.reduceBEq,
    Option.bind_some, Option.pure_def, Option.bind_eq_bind, Codec.read_enc, readNat_num,
    readBool_bool, readStringOrU64_text, OutputStatus.fromJson_toJson, readOpt_num, readOpt_str,
    readOpt_stringOrU64]

theorem ScannedBlockInfo.fromJson_toJson (b : ScannedBlockInfo) :
    ScannedBlockInfo.fromJson b.toJson = some b := by
  simp only [fromJson, toJson, field, List.lookup_cons, String.reduceBEq, Option.bind_some,
    Option.pure_def, Option.bind_eq_bind, readString_str, readNat_num]

theorem idFromJson_toJson (x : Identifier × Option Nat × Nat) :
    idFromJson C (idToJson C x) = some x := by
  simp only [idFromJson, idToJson, Codec.read_enc, readOpt_num, readNat_num, Option.pure_def,
    Option.bind_eq_bind, Option.bind_some]

theorem Context.fromJson_toJson (c : Context) : Context.fromJson C (c.toJson C) = some c := by
  simp only [fromJson, toJson, field, fieldOpt, List.lookup_cons, String.reduceBEq,
    Option.bind_some, Option.pure_def, Option.bind_eq_bind, Codec.read_enc, readNat_num, readOpt_num,
    readList_map idFromJson_toJson]

section
variable {l : List (String × Json)}

theorem bind_eq_none {β : Type} {o : Option α} {f : α → Option β} (h : ∀ a, f a = none) :
    (o >>= f) = none := by
  cases o with
  | none => rfl
  | some a => exact h a

theorem field_eq_none {k : String} {dec : Json → Option α} (h : l.lookup k = none) :
    field l k dec = none := by rw [field, h, Option.bind_none]

/-- A record is not read from an object that lacks one of its fields. -/
theorem TxLogEntry.fromJson_eq_none (h : l.lookup "id" = none) : fromJson C (.obj l) = none := by
  show (fieldOpt l "confirmation_height" readNat >>= _) = none
  refine bind_eq_none fun _ => bind_eq_none fun _ => ?_
  show (field l "id" readNat >>= _) = none
  rw [field_eq_none h]
  rfl

theorem AcctPathMapping.fromJson_eq_none (h : l.lookup "label" = none) :
    fromJson C (.obj l) = none := by
  show (field l "label" readString >>= _) = none
  rw [field_eq_none h]
  rfl

theorem OutputData.fromJson_eq_none (h : l.lookup "root_key_id" = none) :
    fromJson C (.obj l) = none := by
  show (field l "root_key_id" C.identifier.dec >>= _) = none
  rw [field_eq_none h]
  rfl

theorem ScannedBlockInfo.fromJson_eq_none (h : l.lookup "hash" = none) : fromJson (.obj l) = none := by
  show (field l "height" readNat >>= _) = none
  refine bind_eq_none fun _ => ?_
  show (field l "hash" readString >>= _) = none
  rw [field_eq_none h]
  rfl

theorem Context.fromJson_eq_none (h : l.lookup "sec_key" = none) : fromJson C (.obj l) = none := by
  show (field l "parent_key_id" C.identifier.dec >>= _) = none
  refine bind_eq_none fun _ => ?_
  show (field l "sec_key" C.secretKey.dec >>= _) = none
  rw [field_eq_none h]
  rfl

end

namespace Serializable

/-- The variants of the union. -/
inductive Kind where
  | txLogEntry
  | acctPathMapping
  | outputData
  | scannedBlockInfo
  | walletInitStatus
  | context
  | numeric
deriving DecidableEq

def kind : Serializable → Kind
  | .txLogEntry _ => .txLogEntry
  | .acctPathMapping _ => .acctPathMapping
  | .outputData _ => .outputData
  | .scannedBlockInfo _ => .scannedBlockInfo
  | .walletInitStatus _ => .walletInitStatus
  | .context _ => .context
  | .numeric _ => .numeric

/-- A field that only the records of a variant have. -/
def Kind.mark : Kind → Option String
  | .txLogEntry => some "id"
  | .acctPathMapping => some "label"
  | .outputData => some "root_key_id"
  | .scannedBlockInfo => some "hash"
  | .walletInitStatus => none
  | .context => some "sec_key"
  | .numeric => none

variable (C) in
/-- The reader of one variant. -/
def readAs (j : Json) : Kind → Option Serializable
  | .txLogEntry => (TxLogEntry.fromJson C j).map .txLogEntry
  | .acctPathMapping => (AcctPathMapping.fromJson C j).map .acctPathMapping
  | .outputData => (OutputData.fromJson C j).map .outputData
  | .scannedBlockInfo => (ScannedBlockInfo.fromJson j).map .scannedBlockInfo
  | .walletInitStatus => (WalletInitStatus.fromJson j).map .walletInitStatus
  | .context => (Context.fromJson C j).map .context
  | .numeric => (readNat j).map .numeric

/-- A variant is not read from an object that lacks its field. -/
theorem readAs_eq_none {l : List (String × Json)} {k : Kind} (h : ∀ f ∈ k.mark, l.lookup f = none) :
    readAs C (.obj l) k = none := by
  cases k with
  | txLogEntry => exact congrArg (Option.map _) (TxLogEntry.fromJson_eq_none (h _ rfl))
  | acctPathMapping => exact congrArg (Option.map _) (AcctPathMapping.fromJson_eq_none (h _ rfl))
  | outputData => exact congrArg (Option.map _) (OutputData.fromJson_eq_none (h _ rfl))
  | scannedBlockInfo => exact congrArg (Option.map _) (ScannedBlockInfo.fromJson_eq_none (h _ rfl))
  | walletInitStatus => rfl
  | context => exact congrArg (Option.map _) (Context.fromJson_eq_none (h _ rfl))
  | numeric => rfl

/-- Of the readers that of its own variant reads the JSON of a value, and no other. -/
theorem readAs_toJson (v : Serializable) (k : Kind) :
    readAs C (v.toJson C) k = if k = v.kind then some v else none := by
  split_ifs with hk
  · subst hk
    cases v with
    | txLogEntry t => exact congrArg (Option.map _) t.fromJson_toJson
    | acctPathMapping a => exact congrArg (Option.map _) a.fromJson_toJson
    | outputData o => exact congrArg (Option.map _) o.fromJson_toJson
    | scannedBlockInfo b => exact congrArg (Option.map _) b.fromJson_toJson
    | walletInitStatus w => exact congrArg (Option.map _) w.fromJson_toJson
    | context c => exact congrArg (Option.map _) c.fromJson_toJson
    | numeric n => rfl
  · -- the object of a record lacks the field of every other variant
    have hobj {l : List (String × Json)} (h : ∀ k', k' ≠ v.kind → ∀ f ∈ k'.mark, l.lookup f = none) :
        readAs C (.obj l) k = none := readAs_eq_none (h k hk)
    cases v with
    | walletInitStatus w => cases k <;> cases w <;> first | rfl | exact absurd rfl hk
    | numeric n => cases k <;> first | rfl | exact absurd rfl hk
    | _ =>
      refine hobj fun k' hk' f hf => ?_
      cases k' <;> cases hf <;> first | rfl | exact absurd rfl hk'

/-- No kind is read from the JSON of a kind tried after it. -/
theorem fromJson_toJson (v : Serializable) : fromJson C (v.toJson C) = some v := by
  have hfirst : fromJson C (v.toJson C) =
      (readAs C (v.toJson C) .txLogEntry <|> readAs C (v.toJson C) .acctPathMapping <|>
      readAs C (v.toJson C) .outputData <|> readAs C (v.toJson C) .scannedBlockInfo <|>
      readAs C (v.toJson C) .walletInitStatus <|> readAs C (v.toJson C) .context <|>
      readAs C (v.toJson C) .numeric) := rfl
  rw [hfirst]
  simp only [readAs_toJson]
  cases v <;> rfl

end Serializable

end

/-- Reading the text of a value gives the value. -/
theorem deserialize_serialize (v : Serializable) : deserialize C (serialize C v) = some v := by
  rw [deserialize, serialize, Json.read_render]
  exact Serializable.fromJson_toJson v

/-- The text of a value is read as that value, and its JSON by the reader of its own variant only. -/
theorem Serializable.unambiguous (C : Codecs) (v : Serializable) :
    deserialize C (serialize C v) = some v ∧
    ∀ k, readAs C (v.toJson C) k = if k = v.kind then some v else none :=
  ⟨deserialize_serialize C v, readAs_toJson v⟩

theorem serialize_injective {v w : Serializable} (h : serialize C v = serialize C w) : v = w := by
  have := deserialize_serialize C v
  rw [h, deserialize_serialize] at this
  exact (Option.some.inj this).symm

/-! ## Apostrophes of the text -/

section
variable {C} {α : Type}

theorem plain_str {s : String} : (Json.str s).Plain ↔ PlainText s := by
  simp [Json.Plain, Json.strs, PlainText, Json.PlainChars]

theorem plain_num (n : Nat) : (Json.num n).Plain := by simp [Json.Plain, Json.strs]

theorem plain_bool (b : Bool) : (Json.bool b).Plain := by simp [Json.Plain, Json.strs]

theorem plain_stringOrU64 (n : Nat) : (stringOrU64 n).Plain := by
  rw [stringOrU64, plain_str, PlainText, numText, String.toList_ofList]
  exact Json.plainChars_toDigits n

theorem plain_optJson {enc : α → Json} {o : Option α} :
    (optJson enc o).Plain ↔ ∀ a ∈ o, (enc a).Plain := by
  cases o <;> simp [optJson, Json.Plain, Json.strs]

theorem plain_arr {l : List Json} : (Json.arr l).Plain ↔ ∀ j ∈ l, j.Plain := by
  induction l with
  | nil => simp [Json.Plain, Json.strs, Json.elemStrs]
  | cons j l ih =>
    simp only [Json.Plain, Json.strs, Json.elemStrs, List.mem_append, List.forall_mem_cons] at ih ⊢
    rw [← ih]
    grind

theorem plain_obj {l : List (String × Json)} :
    (Json.obj l).Plain ↔ ∀ p ∈ l, PlainText p.1 ∧ p.2.Plain := by
  induction l with
  | nil => simp [Json.Plain, Json.strs, Json.fieldStrs]
  | cons p l ih =>
    rw [List.forall_mem_cons, ← ih]
    simp only [Json.Plain, Json.strs, Json.fieldStrs, List.mem_append, List.mem_cons, PlainText,
      Json.PlainChars]
    grind

theorem OutputStatus.plain_toJson (s : OutputStatus) : s.toJson.Plain := by
  cases s <;> exact plain_str.2 (by decide)

theorem TxLogEntryType.plain_toJson (t : TxLogEntryType) : t.toJson.Plain := by
  cases t <;> exact plain_str.2 (by decide)

theorem WalletInitStatus.plain_toJson (w : WalletInitStatus) : w.toJson.Plain := by
  cases w <;> exact plain_str.2 (by decide)

theorem ParticipantMessageData.plain_toJson (m : ParticipantMessageData) :
    (m.toJson C).Plain ↔ ∀ s ∈ m.message, PlainText s := by
  simp +decide [toJson, plain_obj, plain_stringOrU64, C.publicKey.plain, plain_optJson, plain_str,
    C.signature.plain]

theorem ParticipantMessages.plain_toJson (m : ParticipantMessages) :
    (m.toJson C).Plain ↔ ∀ s ∈ m.strings, PlainText s := by
  simp +decide [toJson, plain_obj, plain_arr, ParticipantMessageData.plain_toJson, strings]
  grind

theorem StoredProofInfo.plain_toJson (p : StoredProofInfo) : (p.toJson C).Plain := by
  simp +decide [toJson, plain_obj, plain_num, plain_optJson, C.dalekPublicKey.plain,
    C.dalekSignature.plain]

theorem idToJson_plain (x : Identifier × Option Nat × Nat) : (idToJson C x).Plain := by
  simp [idToJson, plain_arr, C.identifier.plain, plain_optJson, plain_num]

/-- The JSON of a value is free of apostrophes exactly when the strings it carries are. -/
theorem Serializable.plain_toJson (v : Serializable) : (v.toJson C).Plain ↔ v.Plain := by
  unfold Plain
  cases v with
  | txLogEntry t =>
    simp +decide [toJson, strings, TxLogEntry.toJson, plain_obj, plain_num, plain_bool,
      plain_stringOrU64, plain_optJson, plain_str, C.identifier.plain, C.uuid.plain,
      C.dateTime.plain, C.commitment.plain, TxLogEntryType.plain_toJson,
      ParticipantMessages.plain_toJson, StoredProofInfo.plain_toJson]
    cases t.messages <;> grind
  | acctPathMapping a =>
    simp +decide [toJson, strings, AcctPathMapping.toJson, plain_obj, plain_str,
      C.identifier.plain]
  | outputData o =>
    simp +decide [toJson, strings, OutputData.toJson, plain_obj, plain_num, plain_bool,
      plain_stringOrU64, plain_optJson, plain_str, C.identifier.plain, OutputStatus.plain_toJson]
  | scannedBlockInfo b =>
    simp +decide [toJson, strings, ScannedBlockInfo.toJson, plain_obj, plain_num, plain_str]
  | walletInitStatus w => simp [toJson, strings, WalletInitStatus.plain_toJson]
  | context c =>
    simp +decide [toJson, strings, Context.toJson, plain_obj, plain_num, plain_arr, plain_optJson,
      C.identifier.plain, C.secretKey.plain]
    constructor <;> rintro j x y z - rfl <;> exact idToJson_plain _
  | numeric n => simp [toJson, strings, plain_num]

end

/-- The text of a value has an apostrophe exactly when a string it carries has one. -/
theorem plainChars_serialize (v : Serializable) : Json.PlainChars (serialize C v) ↔ v.Plain := by
  rw [serialize, Json.plainChars_render, Serializable.plain_toJson]

/-! ## Changing the apostrophes -/

section
variable (f : Json.TextMap)

def ParticipantMessages.mapStrings (m : ParticipantMessages) : ParticipantMessages :=
  ⟨m.messages.map fun d => { d with message := d.message.map f.mapString }⟩

/-- The value with `f` applied to each string it carries. -/
def Serializable.mapStrings : Serializable → Serializable
  | .txLogEntry t => .txLogEntry { t with
      messages := t.messages.map (ParticipantMessages.mapStrings f)
      storedTx := t.storedTx.map f.mapString
      publicAddr := t.publicAddr.map f.mapString }
  | .acctPathMapping a => .acctPathMapping { a with label := f.mapString a.label }
  | .outputData o => .outputData { o with commit := o.commit.map f.mapString }
  | .scannedBlockInfo b => .scannedBlockInfo { b with hash := f.mapString b.hash }
  | .walletInitStatus w => .walletInitStatus w
  | .context c => .context c
  | .numeric n => .numeric n

variable {C}

theorem mapFields_eq (l : List (String × Json)) :
    Json.mapFields f l = l.map fun p => (f.mapString p.1, Json.mapStr f p.2) := by
  induction l with
  | nil => rfl
  | cons p l ih => rw [Json.mapFields, ih, List.map_cons]

theorem mapElems_eq (l : List Json) : Json.mapElems f l = l.map (Json.mapStr f) := by
  induction l with
  | nil => rfl
  | cons j l ih => rw [Json.mapElems, ih, List.map_cons]

theorem mapStr_str (s : String) : Json.mapStr f (.str s) = .str (f.mapString s) := rfl

theorem mapStr_optJson {α : Type} {enc : α → Json} {g : α → α}
    (h : ∀ a, Json.mapStr f (enc a) = enc (g a)) (o : Option α) :
    Json.mapStr f (optJson enc o) = optJson enc (o.map g) := by
  cases o with
  | none => rfl
  | some a => exact h a

theorem mapStr_messageData (d : ParticipantMessageData) : Json.mapStr f (d.toJson C) =
    ParticipantMessageData.toJson C { d with message := d.message.map f.mapString } := by
  have hk : ∀ k ∈ ["id", "public_key", "message", "message_sig"], f.mapString k = k :=
    fun k hk => f.mapString_plain (by revert k; decide)
  simp only [List.forall_mem_cons] at hk
  simp [ParticipantMessageData.toJson, Json.mapStr, mapFields_eq, hk, mapStr_optJson f (mapStr_str f),
    Json.mapStr_plain f _ (plain_stringOrU64 _), Json.mapStr_plain f _ (C.publicKey.plain _),
    Json.mapStr_plain f _ (plain_optJson.2 fun a _ => C.signature.plain a)]

theorem mapStr_messages (m : ParticipantMessages) :
    Json.mapStr f (m.toJson C) = (m.mapStrings f).toJson C := by
  simp [ParticipantMessages.toJson, ParticipantMessages.mapStrings, Json.mapStr, mapFields_eq,
    mapElems_eq, mapStr_messageData, f.mapString_plain (s := "messages") (by decide)]

/-- Changing the strings of the JSON is writing the value with its strings changed. -/
theorem mapStr_toJson (v : Serializable) :
    Json.mapStr f (v.toJson C) = (v.mapStrings f).toJson C := by
  cases v with
  | txLogEntry t =>
    have hk : ∀ k ∈ ["confirmation_height", "parent_key_id", "id", "tx_slate_id", "tx_type",
        "creation_ts", "confirmation_ts", "confirmed", "num_inputs", "num_outputs",
        "amount_credited", "amount_debited", "fee", "ttl_cutoff_height", "messages", "stored_tx",
        "kernel_excess", "kernel_lookup_min_height", "payment_proof", "public_addr"],
        f.mapString k = k := fun k hk => f.mapString_plain (by revert k; decide)
    simp only [List.forall_mem_cons] at hk
    simp [Serializable.toJson, Serializable.mapStrings, TxLogEntry.toJson, Json.mapStr, mapFields_eq,
      hk, mapStr_optJson f (mapStr_str f), mapStr_optJson f (mapStr_messages (C := C) f),
      Json.mapStr_plain f _ (plain_stringOrU64 _), Json.mapStr_plain f _ (C.identifier.plain _),
      Json.mapStr_plain f _ (C.dateTime.plain _), Json.mapStr_plain f _ (t.txType.plain_toJson),
      Json.mapStr_plain f _ (plain_optJson.2 fun n _ => plain_num n),
      Json.mapStr_plain f _ (plain_optJson.2 fun n _ => plain_stringOrU64 n),
      Json.mapStr_plain f _ (plain_optJson.2 fun a _ => C.uuid.plain a),
      Json.mapStr_plain f _ (plain_optJson.2 fun a _ => C.dateTime.plain a),
      Json.mapStr_plain f _ (plain_optJson.2 fun a _ => C.commitment.plain a),
      Json.mapStr_plain f _ (plain_optJson.2 fun a _ => StoredProofInfo.plain_toJson (C := C) a)]
  | acctPathMapping a =>
    have hk : ∀ k ∈ ["label", "path"], f.mapString k = k :=
      fun k hk => f.mapString_plain (by revert k; decide)
    simp only [List.forall_mem_cons] at hk
    simp [Serializable.toJson, Serializable.mapStrings, AcctPathMapping.toJson, Json.mapStr,
      mapFields_eq, hk, Json.mapStr_plain f _ (C.identifier.plain _)]
  | outputData o =>
    have hk : ∀ k ∈ ["root_key_id", "key_id", "n_child", "commit", "mmr_index", "value", "status",
        "height", "lock_height", "is_coinbase", "tx_log_entry"], f.mapString k = k :=
      fun k hk => f.mapString_plain (by revert k; decide)
    simp only [List.forall_mem_cons] at hk
    simp [Serializable.toJson, Serializable.mapStrings, OutputData.toJson, Json.mapStr, mapFields_eq,
      hk, mapStr_optJson f (mapStr_str f), Json.mapStr_plain f _ (plain_stringOrU64 _),
      Json.mapStr_plain f _ (C.identifier.plain _), Json.mapStr_plain f _ (o.status.plain_toJson),
      Json.mapStr_plain f _ (plain_optJson.2 fun n _ => plain_num n),
      Json.mapStr_plain f _ (plain_optJson.2 fun n _ => plain_stringOrU64 n)]
  | scannedBlockInfo b =>
    have hk : ∀ k ∈ ["height", "hash", "start_pmmr_index", "last_pmmr_index"], f.mapString k = k :=
      fun k hk => f.mapString_plain (by revert k; decide)
    simp only [List.forall_mem_cons] at hk
    simp [Serializable.toJson, Serializable.mapStrings, ScannedBlockInfo.toJson, Json.mapStr,
      mapFields_eq, hk]
  | walletInitStatus w => exact Json.mapStr_plain f _ w.plain_toJson
  | context c =>
    have hc : (Serializable.context c).Plain := by simp [Serializable.Plain, Serializable.strings]
    exact Json.mapStr_plain f _ ((Serializable.plain_toJson _).2 hc)
  | numeric n => rfl

end

/-- A change of apostrophes in the text of a value is the text of the value with its strings
changed. -/
theorem map_serialize (f : Json.TextMap) (v : Serializable) :
    f.map (serialize C v) = serialize C (v.mapStrings f) := by
  rw [serialize, Json.render_mapStr, mapStr_toJson, serialize]

end

end EpicWallet
