import EpicWallet.Libwallet.SlateVersions

/-!
# Conversions between the versions of a slate

`conversions_lossless`: version 3 and back is the identity, version 2 by version 3 and back is the
identity, version 2 and back loses the TTL and the payment proof and nothing else, and the text of a
versioned slate is read as the same version with the same content.

Every nested record has its own lemma, one per conversion that is undone; the reader of version 3 refuses
the text of version 2 because `ttl_cutoff_height` is not in it.
-/

namespace EpicWallet

open Lib

/-! ## A slate and version 3 -/

section

theorem map_map_id {α β : Type} {f : α → β} {g : β → α} (h : ∀ a, g (f a) = a) (l : List α) :
    (l.map f).map g = l := by
  rw [List.map_map]
  exact (List.map_congr_left fun a _ => h a).trans (List.map_id' l)

@[simp] theorem VersionCompatInfo.ofV3_ofSlate (v : VersionCompatInfo) :
    VersionCompatInfo.ofV3 (VersionCompatInfoV3.ofSlate v) = v := rfl

@[simp] theorem ParticipantData.ofV3_ofSlate (p : ParticipantData) :
    ParticipantData.ofV3 (ParticipantDataV3.ofSlate p) = p := rfl

@[simp] theorem PaymentInfo.ofV3_ofSlate (p : PaymentInfo) :
    PaymentInfo.ofV3 (PaymentInfoV3.ofSlate p) = p := rfl

@[simp] theorem Input.ofV3_ofSlate (i : Input) : Input.ofV3 (InputV3.ofSlate i) = i := rfl

@[simp] theorem Output.ofV3_ofSlate (o : Output) : Output.ofV3 (OutputV3.ofSlate o) = o := rfl

/-- A coinbase kernel is written with fee and lock height 0, which its reader drops. -/
@[simp] theorem TxKernel.ofV3_ofSlate (k : TxKernel) : TxKernel.ofV3 (TxKernelV3.ofSlate k) = k := by
  obtain ⟨features, excess, excessSig⟩ := k
  cases features <;> rfl

@[simp] theorem Transaction.ofV3_ofSlate (tx : Transaction) :
    Transaction.ofV3 (TransactionV3.ofSlate tx) = tx := by
  unfold Transaction.ofV3 TransactionV3.ofSlate
  dsimp only
  rw [map_map_id Input.ofV3_ofSlate, map_map_id Output.ofV3_ofSlate, map_map_id TxKernel.ofV3_ofSlate]

theorem Slate.ofV3_ofSlate (s : Slate) : Slate.ofV3 (SlateV3.ofSlate s) = s := by
  unfold Slate.ofV3 SlateV3.ofSlate
  dsimp only
  rw [Transaction.ofV3_ofSlate, map_map_id ParticipantData.ofV3_ofSlate,
    VersionCompatInfo.ofV3_ofSlate]
  rcases s with ⟨_, _, _, _, _, _, _, _, _, _, _ | p⟩
  · rfl
  · rfl

end

/-! ## Version 2 and version 3 -/

section

@[simp] theorem VersionCompatInfoV2.ofV3_ofV2 (v : VersionCompatInfoV2) :
    VersionCompatInfoV2.ofV3 (VersionCompatInfoV3.ofV2 v) = v := rfl

@[simp] theorem ParticipantDataV2.ofV3_ofV2 (p : ParticipantDataV2) :
    ParticipantDataV2.ofV3 (ParticipantDataV3.ofV2 p) = p := rfl

@[simp] theorem InputV2.ofV3_ofV2 (i : InputV2) : InputV2.ofV3 (InputV3.ofV2 i) = i := rfl

@[simp] theorem OutputV2.ofV3_ofV2 (o : OutputV2) : OutputV2.ofV3 (OutputV3.ofV2 o) = o := rfl

@[simp] theorem TxKernelV2.ofV3_ofV2 (k : TxKernelV2) : TxKernelV2.ofV3 (TxKernelV3.ofV2 k) = k := rfl

@[simp] theorem TransactionV2.ofV3_ofV2 (tx : TransactionV2) :
    TransactionV2.ofV3 (TransactionV3.ofV2 tx) = tx := by
  unfold TransactionV2.ofV3 TransactionV3.ofV2
  dsimp only
  rw [map_map_id InputV2.ofV3_ofV2, map_map_id OutputV2.ofV3_ofV2, map_map_id TxKernelV2.ofV3_ofV2]

theorem SlateV2.ofV3_ofV2 (s : SlateV2) : SlateV2.ofV3 (SlateV3.ofV2 s) = s := by
  unfold SlateV2.ofV3 SlateV3.ofV2
  dsimp only
  rw [TransactionV2.ofV3_ofV2, map_map_id ParticipantDataV2.ofV3_ofV2, VersionCompatInfoV2.ofV3_ofV2]

@[simp] theorem VersionCompatInfoV3.ofV2_ofV3 (v : VersionCompatInfoV3) :
    VersionCompatInfoV3.ofV2 (VersionCompatInfoV2.ofV3 v) = v := rfl

@[simp] theorem ParticipantDataV3.ofV2_ofV3 (p : ParticipantDataV3) :
    ParticipantDataV3.ofV2 (ParticipantDataV2.ofV3 p) = p := rfl

@[simp] theorem InputV3.ofV2_ofV3 (i : InputV3) : InputV3.ofV2 (InputV2.ofV3 i) = i := rfl

@[simp] theorem OutputV3.ofV2_ofV3 (o : OutputV3) : OutputV3.ofV2 (OutputV2.ofV3 o) = o := rfl

@[simp] theorem TxKernelV3.ofV2_ofV3 (k : TxKernelV3) : TxKernelV3.ofV2 (TxKernelV2.ofV3 k) = k := rfl

@[simp] theorem TransactionV3.ofV2_ofV3 (tx : TransactionV3) :
    TransactionV3.ofV2 (TransactionV2.ofV3 tx) = tx := by
  unfold TransactionV3.ofV2 TransactionV2.ofV3
  dsimp only
  rw [map_map_id InputV3.ofV2_ofV3, map_map_id OutputV3.ofV2_ofV3, map_map_id TxKernelV3.ofV2_ofV3]

/-- Version 2 carries everything but the TTL and the payment proof. -/
theorem SlateV3.ofV2_ofV3 (s : SlateV3) :
    SlateV3.ofV2 (SlateV2.ofV3 s) = { s with ttlCutoffHeight := none, paymentProof := none } := by
  unfold SlateV3.ofV2 SlateV2.ofV3
  dsimp only
  rw [TransactionV3.ofV2_ofV3, map_map_id ParticipantDataV3.ofV2_ofV3, VersionCompatInfoV3.ofV2_ofV3]

/-- A slate without what version 2 does not carry. -/
def Slate.withoutV3 (s : Slate) : Slate := { s with ttlCutoffHeight := none, paymentProof := none }

theorem Slate.ofVersioned_v3 (s : Slate) :
    Slate.ofVersioned (VersionedSlate.intoVersion s .v3) = s := Slate.ofV3_ofSlate s

theorem Slate.ofVersioned_v2 (s : Slate) :
    Slate.ofVersioned (VersionedSlate.intoVersion s .v2) = s.withoutV3 := by
  show Slate.ofV3 (SlateV3.ofV2 (SlateV2.ofV3 (SlateV3.ofSlate s))) = _
  rw [SlateV3.ofV2_ofV3]
  have h := Slate.ofV3_ofSlate s.withoutV3
  exact h

end

/-! ## Reading undoes writing -/

section
variable {C : SlateCodecs} {α β γ δ : Type}

@[simp] theorem readOutputFeatures_json (b : Bool) :
    readOutputFeatures (outputFeaturesJson b) = some b := by
  cases b <;> rfl

@[simp] theorem CompatKernelFeatures.fromJson_toJson (f : CompatKernelFeatures) :
    CompatKernelFeatures.fromJson f.toJson = some f := by
  cases f <;> rfl

@[simp] theorem readVersion_json (mk : Nat → Nat → Nat → α) (a b c : Nat) :
    readVersion mk (versionJson a b c) = some (mk a b c) := by
  simp only [readVersion, versionJson, field, List.lookup_cons, String.reduceBEq, Option.bind_some,
    Option.pure_def, Option.bind_eq_bind, readNat_num]

@[simp] theorem readParticipant_json (mk : Nat → PublicKey → PublicKey → Option Signature →
      Option String → Option Signature → α) (id : Nat) (x r : PublicKey) (s : Option Signature)
    (m : Option String) (t : Option Signature) :
    readParticipant C mk (participantJson C id x r s m t) = some (mk id x r s m t) := by
  simp only [readParticipant, participantJson, field, fieldOpt, List.lookup_cons, String.reduceBEq,
    Option.bind_some, Option.pure_def, Option.bind_eq_bind, Codec.read_enc, readStringOrU64_text,
    readOpt_str, readOpt_codec]

@[simp] theorem readInput_json (mk : Bool → Commitment → α) (b : Bool) (c : Commitment) :
    readInput C mk (inputJson C b c) = some (mk b c) := by
  simp only [readInput, inputJson, field, List.lookup_cons, String.reduceBEq, Option.bind_some,
    Option.pure_def, Option.bind_eq_bind, Codec.read_enc, readOutputFeatures_json]

@[simp] theorem readOutput_json (mk : Bool → Commitment → RangeProof → α) (b : Bool) (c : Commitment)
    (p : RangeProof) : readOutput C mk (outputJson C b c p) = some (mk b c p) := by
  simp only [readOutput, outputJson, field, List.lookup_cons, String.reduceBEq, Option.bind_some,
    Option.pure_def, Option.bind_eq_bind, Codec.read_enc, readOutputFeatures_json]

@[simp] theorem readKernel_json (mk : CompatKernelFeatures → Nat → Nat → Commitment → Signature → α)
    (f : CompatKernelFeatures) (fee lockHeight : Nat) (x : Commitment) (s : Signature) :
    readKernel C mk (kernelJson C f fee lockHeight x s) = some (mk f fee lockHeight x s) := by
  simp only [readKernel, kernelJson, field, List.lookup_cons, String.reduceBEq, Option.bind_some,
    Option.pure_def, Option.bind_eq_bind, Codec.read_enc, readStringOrU64_text,
    CompatKernelFeatures.fromJson_toJson]

/-- A list is read as what its elements are read as. -/
theorem readList_map_map {enc : α → Json} {dec : Json → Option β} {f : α → β}
    (h : ∀ a, dec (enc a) = some (f a)) (l : List α) :
    readList dec (.arr (l.map enc)) = some (l.map f) := by
  unfold readList
  induction l with
  | nil => rfl
  | cons a l ih =>
    simp only at ih
    simp [h, ih]

theorem readBody_json {β' γ' δ' : Type} (mk : List β' → List γ' → List δ' → α) {input : β → Json}
    {output : γ → Json} {kernel : δ → Json} {readI : Json → Option β'} {readO : Json → Option γ'}
    {readK : Json → Option δ'} {f : β → β'} {g : γ → γ'} {k : δ → δ'}
    (hi : ∀ x, readI (input x) = some (f x)) (ho : ∀ x, readO (output x) = some (g x))
    (hk : ∀ x, readK (kernel x) = some (k x)) (is : List β) (os : List γ) (ks : List δ) :
    readBody mk readI readO readK (bodyJson (is.map input) (os.map output) (ks.map kernel)) =
      some (mk (is.map f) (os.map g) (ks.map k)) := by
  simp only [readBody, bodyJson, field, List.lookup_cons, String.reduceBEq, Option.bind_some,
    Option.pure_def, Option.bind_eq_bind, readList_map_map hi, readList_map_map ho, readList_map_map hk]

theorem readTransaction_json {β' : Type} (mk : BlindingFactor → β' → α) {body : β → Json}
    {read : Json → Option β'} {f : β → β'} (h : ∀ x, read (body x) = some (f x))
    (offset : BlindingFactor) (b : β) :
    readTransaction C mk read (transactionJson C offset (body b)) = some (mk offset (f b)) := by
  simp only [readTransaction, transactionJson, field, List.lookup_cons, String.reduceBEq,
    Option.bind_some, Option.pure_def, Option.bind_eq_bind, Codec.read_enc, h]

end

section
variable {C : SlateCodecs}

@[simp] theorem VersionCompatInfoV3.fromJson_toJson (v : VersionCompatInfoV3) :
    fromJson v.toJson = some v := readVersion_json ..

@[simp] theorem ParticipantDataV3.fromJson_toJson (p : ParticipantDataV3) :
    fromJson C (p.toJson C) = some p := readParticipant_json ..

@[simp] theorem PaymentInfoV3.fromJson_toJson (p : PaymentInfoV3) :
    fromJson C (p.toJson C) = some p := by
  simp only [fromJson, toJson, field, List.lookup_cons, String.reduceBEq, Option.bind_some,
    Option.pure_def, Option.bind_eq_bind, Codec.read_enc, readOpt_codec]

@[simp] theorem TransactionBodyV3.fromJson_toJson (b : TransactionBodyV3) :
    fromJson C (b.toJson C) = some b := by
  refine (readBody_json TransactionBodyV3.mk (f := id) (g := id) (k := id) (fun _ => readInput_json ..)
    (fun _ => readOutput_json ..) (fun _ => readKernel_json ..) b.inputs b.outputs b.kernels).trans ?_
  simp only [List.map_id]

@[simp] theorem TransactionV3.fromJson_toJson (tx : TransactionV3) :
    fromJson C (tx.toJson C) = some tx :=
  readTransaction_json TransactionV3.mk (f := id) TransactionBodyV3.fromJson_toJson tx.offset tx.body

theorem PaymentInfoV3.readOpt_toJson (o : Option PaymentInfoV3) :
    readOpt (fromJson C) (optJson (toJson C) o) = some o :=
  readOpt_optJson fromJson_toJson (fun p h => by cases h) o

theorem SlateV3.fromJson_toJson (s : SlateV3) : fromJson C (s.toJson C) = some s := by
  simp only [fromJson, toJson, field, fieldOpt, List.lookup_cons, String.reduceBEq, Option.bind_some,
    Option.pure_def, Option.bind_eq_bind, Codec.read_enc, readNat_num, readStringOrU64_text,
    readOpt_stringOrU64, VersionCompatInfoV3.fromJson_toJson, TransactionV3.fromJson_toJson,
    readList_map ParticipantDataV3.fromJson_toJson, PaymentInfoV3.readOpt_toJson]

@[simp] theorem VersionCompatInfoV2.fromJson_toJson (v : VersionCompatInfoV2) :
    fromJson v.toJson = some v := readVersion_json ..

@[simp] theorem ParticipantDataV2.fromJson_toJson (p : ParticipantDataV2) :
    fromJson C (p.toJson C) = some p := readParticipant_json ..

@[simp] theorem TransactionBodyV2.fromJson_toJson (b : TransactionBodyV2) :
    fromJson C (b.toJson C) = some b := by
  refine (readBody_json TransactionBodyV2.mk (f := id) (g := id) (k := id) (fun _ => readInput_json ..)
    (fun _ => readOutput_json ..) (fun _ => readKernel_json ..) b.inputs b.outputs b.kernels).trans ?_
  simp only [List.map_id]

@[simp] theorem TransactionV2.fromJson_toJson (tx : TransactionV2) :
    fromJson C (tx.toJson C) = some tx :=
  readTransaction_json TransactionV2.mk (f := id) TransactionBodyV2.fromJson_toJson tx.offset tx.body

theorem SlateV2.fromJson_toJson (s : SlateV2) : fromJson C (s.toJson C) = some s := by
  simp only [fromJson, toJson, field, List.lookup_cons, String.reduceBEq, Option.bind_some,
    Option.pure_def, Option.bind_eq_bind, Codec.read_enc, readNat_num, readStringOrU64_text,
    VersionCompatInfoV2.fromJson_toJson, TransactionV2.fromJson_toJson,
    readList_map ParticipantDataV2.fromJson_toJson]

/-- The text of version 2 has no `ttl_cutoff_height`, which the reader of version 3 wants. -/
theorem SlateV3.fromJson_v2 (s : SlateV2) : fromJson C (s.toJson C) = none := by
  simp only [fromJson, SlateV2.toJson, field, List.lookup_cons, List.lookup_nil, String.reduceBEq,
    Option.pure_def, Option.bind_eq_bind, Option.bind_none, Option.bind_fun_none]

/-- The text of version 3 can be read as version 2, without the fields that it does not know. -/
theorem SlateV2.fromJson_v3 (s : SlateV3) : fromJson C (s.toJson C) = some (SlateV2.ofV3 s) := by
  have hversion : VersionCompatInfoV2.fromJson s.versionInfo.toJson =
      some (VersionCompatInfoV2.ofV3 s.versionInfo) := readVersion_json ..
  have hbody : ∀ b : TransactionBodyV3, TransactionBodyV2.fromJson C (b.toJson C) =
      some ⟨b.inputs.map InputV2.ofV3, b.outputs.map OutputV2.ofV3, b.kernels.map TxKernelV2.ofV3⟩ :=
    fun b => readBody_json TransactionBodyV2.mk (fun _ => readInput_json ..)
      (fun _ => readOutput_json ..) (fun _ => readKernel_json ..) b.inputs b.outputs b.kernels
  have htx : TransactionV2.fromJson C (s.tx.toJson C) = some (TransactionV2.ofV3 s.tx) :=
    readTransaction_json TransactionV2.mk hbody s.tx.offset s.tx.body
  have hparticipant : ∀ p : ParticipantDataV3, ParticipantDataV2.fromJson C (p.toJson C) =
      some (ParticipantDataV2.ofV3 p) := fun p => readParticipant_json ..
  simp only [fromJson, SlateV3.toJson, field, List.lookup_cons, String.reduceBEq, Option.bind_some,
    Option.pure_def, Option.bind_eq_bind, Codec.read_enc, readNat_num, readStringOrU64_text, hversion,
    htx, readList_map_map hparticipant, SlateV2.ofV3]

theorem VersionedSlate.fromText_toText (s : VersionedSlate) : fromText C (s.toText C) = some s := by
  unfold fromText toText
  rw [Json.read_render, Option.bind_some]
  unfold fromJson
  rcases s with s | s
  · rw [show VersionedSlate.toJson C (.v3 s) = s.toJson C from rfl, SlateV3.fromJson_toJson]
    rfl
  · rw [show VersionedSlate.toJson C (.v2 s) = s.toJson C from rfl, SlateV3.fromJson_v2,
      SlateV2.fromJson_toJson]
    rfl

end

/-! ## The reader chosen by the version in the text -/

section
variable {C : SlateCodecs}

namespace Slate

theorem probe_v3 (s : SlateV3) : probe (s.toJson C) = some s.versionInfo.version := by
  have hopt : readOpt VersionCompatInfoV3.fromJson s.versionInfo.toJson = some (some s.versionInfo) := by
    rw [readOpt_of_ne_null (fun h => by cases h), VersionCompatInfoV3.fromJson_toJson]
    rfl
  simp only [probe, SlateV3.toJson, fieldOpt, List.lookup_cons, List.lookup_nil, String.reduceBEq,
    Option.pure_def, Option.bind_eq_bind, Option.bind_some, hopt]

theorem probe_v2 (s : SlateV2) : probe (s.toJson C) = some s.versionInfo.version := by
  have hopt : readOpt VersionCompatInfoV3.fromJson s.versionInfo.toJson =
      some (some (VersionCompatInfoV3.ofV2 s.versionInfo)) := by
    rw [readOpt_of_ne_null (fun h => by cases h)]
    show Option.map some (readVersion VersionCompatInfoV3.mk (versionJson _ _ _)) = _
    rw [readVersion_json]
    rfl
  simp only [probe, SlateV2.toJson, fieldOpt, List.lookup_cons, List.lookup_nil, String.reduceBEq,
    Option.pure_def, Option.bind_eq_bind, Option.bind_some, hopt]
  rfl

/-- What is read from a text of version 3, by the version number in it. -/
def readV3 (s : Slate) : Except SlateError Slate :=
  match s.versionInfo.version with
  | 3 => .ok s
  | 2 => .ok s.withoutV3
  | v => .error (.slateVersion v)

/-- What is read from a text of version 2, by the version number in it. -/
def readV2 (s : Slate) : Except SlateError Slate :=
  match s.versionInfo.version with
  | 3 => .error .slateDeser
  | 2 => .ok s.withoutV3
  | v => .error (.slateVersion v)

theorem deserializeUpgrade_v3 (s : Slate) :
    deserializeUpgrade C ((SlateV3.ofSlate s).toJson C).render = s.readV3 := by
  have hversion : parseSlateVersion ((SlateV3.ofSlate s).toJson C).render = .ok s.versionInfo.version := by
    unfold parseSlateVersion
    rw [Json.read_render, Option.bind_some, probe_v3]
    rfl
  have h2 : Slate.ofV3 (SlateV3.ofV2 (SlateV2.ofV3 (SlateV3.ofSlate s))) = s.withoutV3 :=
    ofVersioned_v2 s
  unfold deserializeUpgrade readV3
  rw [hversion, Json.read_render, Option.bind_some, Option.bind_some, SlateV3.fromJson_toJson,
    SlateV2.fromJson_v3, ← h2]
  rcases s.versionInfo.version with _ | _ | _ | _ | v
  · rfl
  · rfl
  · rfl
  · exact congrArg Except.ok (ofV3_ofSlate s)
  · rfl

theorem deserializeUpgrade_v2 (s : Slate) :
    deserializeUpgrade C ((SlateV2.ofV3 (SlateV3.ofSlate s)).toJson C).render = s.readV2 := by
  have hversion : parseSlateVersion ((SlateV2.ofV3 (SlateV3.ofSlate s)).toJson C).render =
      .ok s.versionInfo.version := by
    unfold parseSlateVersion
    rw [Json.read_render, Option.bind_some, probe_v2]
    rfl
  have h2 : Slate.ofV3 (SlateV3.ofV2 (SlateV2.ofV3 (SlateV3.ofSlate s))) = s.withoutV3 :=
    ofVersioned_v2 s
  unfold deserializeUpgrade readV2
  rw [hversion, Json.read_render, Option.bind_some, Option.bind_some, SlateV3.fromJson_v2,
    SlateV2.fromJson_toJson, ← h2]
  rcases s.versionInfo.version with _ | _ | _ | _ | v
  · rfl
  · rfl
  · rfl
  · rfl
  · rfl

end Slate

end

/-- Version conversions are lossless where they can be. -/
theorem conversions_lossless :
    (∀ s : Slate, Slate.ofV3 (SlateV3.ofSlate s) = s) ∧
    (∀ x : SlateV2, SlateV2.ofV3 (SlateV3.ofV2 x) = x) ∧
    (∀ s : Slate, Slate.ofVersioned (VersionedSlate.intoVersion s .v2) =
      { s with ttlCutoffHeight := none, paymentProof := none }) ∧
    ∀ (C : SlateCodecs) (v : VersionedSlate), VersionedSlate.fromText C (v.toText C) = some v :=
  ⟨Slate.ofV3_ofSlate, SlateV2.ofV3_ofV2, Slate.ofVersioned_v2,
    fun _ => VersionedSlate.fromText_toText⟩

end EpicWallet
