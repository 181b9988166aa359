import EpicWallet.Libwallet.Proof.Hex
import EpicWallet.Libwallet.Proof.SlateVersions

/-!
# What was encrypted is read back

A message that was made by `EncryptedMessage::new` and signed is read by `TxProof::from_response` as the
slate it carries (`fromResponse_new`), given that the two sides agree on a common secret and that the cipher
opens what it sealed.
-/

namespace EpicWallet

open Lib

/-! ## UTF-8 -/

theorem utf8_lt (text : List Char) : ∀ b ∈ utf8 text, b < 256 := by
  intro b hb
  obtain ⟨u, -, rfl⟩ := List.mem_map.1 hb
  exact u.toNat_lt

theorem fromUtf8_utf8 (text : List Char) : fromUtf8 (utf8 text) = some text := by
  unfold fromUtf8 utf8
  have hbytes : ((text.flatMap String.utf8EncodeChar).map (·.toNat)).map UInt8.ofNat =
      text.flatMap String.utf8EncodeChar := by
    rw [List.map_map]
    conv_rhs => rw [← List.map_id (text.flatMap String.utf8EncodeChar)]
    exact List.map_congr_left fun u _ => UInt8.ofNat_toNat
  rw [hbytes]
  have harray : (⟨(text.flatMap String.utf8EncodeChar).toArray⟩ : ByteArray) =
      (String.ofList text).toByteArray :=
    ByteArray.ext (List.data_toByteArray).symm
  rw [harray]
  have hvalid : (String.ofList text).toByteArray.IsValidUTF8 := (String.ofList text).isValidUTF8
  have hread : String.fromUTF8? (String.ofList text).toByteArray = some (String.ofList text) := by
    unfold String.fromUTF8?
    rw [dif_pos hvalid]
    rfl
  rw [hread]
  exact congrArg some String.toList_ofList

/-! ## Messages -/

theorem EpicboxAddress.fromJson_toJson {a : EpicboxAddress} (h : ∀ p ∈ a.port, p < 2 ^ 16) :
    EpicboxAddress.fromJson a.toJson = some a := by
  obtain ⟨publicKey, domain, port⟩ := a
  have hport : fieldOpt [("public_key", .str publicKey), ("domain", .str domain),
      ("port", optJson .num port)] "port" readU16 = some port := by
    rcases port with _ | p
    · rfl
    · have hp : p < 2 ^ 16 := h p rfl
      show ((some p).filter (· < 2 ^ 16)).map some = some (some p)
      rw [Option.filter_some, if_pos (decide_eq_true hp)]
      rfl
  show (fieldOpt [("public_key", .str publicKey), ("domain", .str domain),
    ("port", optJson .num port)] "port" readU16).bind (fun p => some
      (⟨publicKey, domain, p⟩ : EpicboxAddress)) = _
  rw [hport]
  rfl

theorem EncryptedMessage.fromJson_toJson {m : EncryptedMessage} (h : ∀ p ∈ m.destination.port, p < 2 ^ 16) :
    EncryptedMessage.fromJson m.toJson = some m := by
  obtain ⟨destination, encryptedMessage, salt, nonce⟩ := m
  have hdestination : EpicboxAddress.fromJson destination.toJson = some destination :=
    EpicboxAddress.fromJson_toJson h
  show (EpicboxAddress.fromJson destination.toJson).bind (fun d => some
    (⟨d, encryptedMessage, salt, nonce⟩ : EncryptedMessage)) = _
  rw [hdestination]
  rfl

/-- The cipher opens what it sealed, with a tag behind it. -/
def CryptoLib.Opens (K : CryptoLib) : Prop :=
  ∀ key nonce m c, K.sealInPlace key nonce m = some c → (∀ b ∈ m, b < 256) →
    c ≠ [] ∧ (∀ b ∈ c, b < 256) ∧ ∃ tag, tag.length = 16 ∧ K.openInPlace key nonce c = some (m ++ tag)

section
variable {K : CryptoLib} {salt nonce : List Nat} {message : List Char} {destination : EpicboxAddress}
  {receiverKey senderKey : PublicKey} {senderSecret secretKey : SecretKey} {m : EncryptedMessage}

/-- What is read of a message that was made: its key, and with it the text. -/
theorem EncryptedMessage.decrypt_new
    (hnew : EncryptedMessage.new K salt nonce message destination receiverKey senderSecret = .ok m)
    (hopens : K.Opens) (hagree : K.mulAssign senderKey secretKey = K.mulAssign receiverKey senderSecret)
    (hsalt : salt ≠ [] ∧ ∀ b ∈ salt, b < 256) (hnonce : nonce.length = 12 ∧ ∀ b ∈ nonce, b < 256) :
    m.destination = destination ∧ ∃ key, m.key K senderKey secretKey = .ok key ∧
      m.decryptWithKey K key = .ok message := by
  have hsaltHex : fromHex (toHex salt) = .ok salt := fromHex_toHex hsalt.1 hsalt.2
  have hnonceHex : fromHex (toHex nonce) = .ok nonce :=
    fromHex_toHex (List.length_pos_iff.1 (by omega)) hnonce.2
  unfold EncryptedMessage.new at hnew
  rcases hcommon : K.mulAssign receiverKey senderSecret with _ | common
  · rw [hcommon] at hnew
    cases hnew
  rw [hcommon] at hnew hagree
  let key := K.pbkdf2 salt (((K.serializePublicKey common).drop 1).take 32)
  rcases hsealed : K.sealInPlace key nonce (utf8 message) with _ | c
  · change (Checked.orElse CryptoError.encryption (K.sealInPlace key nonce (utf8 message)) >>= fun _ => _) =
      Except.ok m at hnew
    rw [hsealed] at hnew
    cases hnew
  change (Checked.orElse CryptoError.encryption (K.sealInPlace key nonce (utf8 message)) >>= fun _ => _) =
    Except.ok m at hnew
  rw [hsealed] at hnew
  obtain rfl : _ = m := Except.ok.inj hnew
  obtain ⟨hne, hbytes, tag, htag, hopen⟩ := hopens _ _ _ _ hsealed (utf8_lt message)
  refine ⟨rfl, key, ?_, ?_⟩
  · unfold EncryptedMessage.key
    dsimp only
    rw [String.toList_ofList, hsaltHex, hagree]
    rfl
  · unfold EncryptedMessage.decryptWithKey
    dsimp only
    rw [String.toList_ofList, String.toList_ofList, fromHex_toHex hne hbytes, hnonceHex]
    show (if nonce.length < 12 then Checked.panic else
      Checked.orElse CryptoError.encryption (K.openInPlace key (nonce.take 12) c) >>= fun opened =>
        Checked.orElse CryptoError.decryption (fromUtf8 (opened.take (opened.length - 16)))) = _
    rw [if_neg (by omega), List.take_of_length_le (by omega), hopen]
    show Checked.orElse CryptoError.decryption
      (fromUtf8 ((utf8 message ++ tag).take ((utf8 message ++ tag).length - 16))) = _
    rw [List.length_append, htag, Nat.add_sub_cancel, List.take_left, fromUtf8_utf8]
    rfl

/-- A signed message is read as the slate it carries. -/
theorem TxProof.fromResponse_new {C : SlateCodecs} {v : VersionedSlate} {sender text signature : List Char}
    {address : EpicboxAddress} {sig : Signature} (haddress : EpicboxAddress.fromStr K sender = .ok address)
    (hkey : address.key K = .ok senderKey) (hsig : Signature.fromHex K signature = .ok sig)
    (hverify : K.verify (K.sha256 (utf8 text)) sig senderKey = true)
    (hnew : EncryptedMessage.new K salt nonce (v.toText C) destination receiverKey senderSecret = .ok m)
    (htext : text = m.toJson.render) (hport : ∀ p ∈ destination.port, p < 2 ^ 16)
    (hopens : K.Opens) (hagree : K.mulAssign senderKey secretKey = K.mulAssign receiverKey senderSecret)
    (hsalt : salt ≠ [] ∧ ∀ b ∈ salt, b < 256) (hnonce : nonce.length = 12 ∧ ∀ b ∈ nonce, b < 256) :
    ∃ proof, TxProof.fromResponse K C sender text signature secretKey (some destination) =
      .ok (v, proof) ∧ proof.address = address := by
  obtain ⟨hdestination, key, hmkey, hdecrypt⟩ := EncryptedMessage.decrypt_new hnew hopens hagree hsalt hnonce
  have hread : (Json.read text).bind EncryptedMessage.fromJson = some m := by
    rw [htext, Json.read_render, Option.bind_some, EncryptedMessage.fromJson_toJson (hdestination ▸ hport)]
  have hsame : ¬((some destination).any fun e => m.destination.publicKey ≠ e.publicKey) = true := by
    rw [hdestination]
    simp
  refine ⟨⟨address, text, sig, key, 0, 0, [], []⟩, ?_, rfl⟩
  unfold TxProof.fromResponse
  rw [haddress, hsig]
  show ((address.key K).mapErr TxProofError.parsePublicKey >>= fun publicKey => _) = _
  rw [hkey, hread]
  show ((m.key K senderKey secretKey).mapErr TxProofError.decryptionKey >>= fun key => _) = _
  rw [hmkey]
  show (TxProof.verifyExtract K C ⟨address, text, sig, key, 0, 0, [], []⟩ (some destination) >>= fun r => _) =
    _
  have hextract : TxProof.verifyExtract K C ⟨address, text, sig, key, 0, 0, [], []⟩ (some destination) =
      .ok (m.destination, v) := by
    have hsigned : verifySignature K text sig senderKey = .ok () := by
      unfold verifySignature
      rw [if_pos hverify]
      rfl
    unfold TxProof.verifyExtract
    dsimp only
    rw [hkey, hread]
    show ((verifySignature K text sig senderKey).mapErr TxProofError.verifySignature >>= fun _ => _) = _
    rw [hsigned]
    show (if ((some destination).any fun e => m.destination.publicKey ≠ e.publicKey) = true then
      Except.error (Fault.err TxProofError.verifyDestination) else _) = _
    rw [if_neg hsame, hdecrypt]
    show (TxProof.orErr TxProofError.parseSlate (VersionedSlate.fromText C (v.toText C)) >>= fun slate =>
      pure (m.destination, slate)) = _
    rw [VersionedSlate.fromText_toText]
    rfl
  rw [hextract]
  rfl

end

end EpicWallet
