import EpicWallet.Libwallet.Proof.Hex
import EpicWallet.Impls.Proof.Acknowledge
import EpicWallet.Libwallet.Proof.EpicboxAddress

/-!
# When the listener panics

A message of a server goes through several parsers, and each can panic: `from_hex` on a text with no
boundary after two bytes, the closures on a signature that is none or does not verify, the slice of a short
nonce, the port of an address. Each parser gets the exact condition (`HexReads`, `EncryptedMessage.Opens`,
`TxProof.Parses`); a round of the loop has one made of these (`Relay.Survives`), and the loop does not
panic exactly if every round of its run meets it (`listener_survives`).
-/

namespace EpicWallet

open Lib

/-! ## Parsers -/

/-- `from_hex` does not panic: the text has an odd number of bytes, or a boundary after two, and more than a
prefix and space, in pieces of two bytes. -/
def HexReads (s : List Char) : Prop :=
  byteLen s % 2 = 1 ∨ splitAtByte 2 s ≠ none ∧ ∃ ps, ps ≠ [] ∧ pieces (trim (hexBody s)) = some ps

theorem orElse_ne_panic {α : Type} (e : CryptoError) (o : Option α) :
    Checked.orElse e o ≠ .error .panic := by
  cases o <;> exact nofun

theorem unwrap_ne_panic {α : Type} {o : Option α} :
    Checked.unwrap o ≠ .error .panic ↔ ∃ a, o = some a := by
  rcases o with _ | a
  · exact ⟨fun h => absurd rfl h, nofun⟩
  · exact ⟨fun _ => ⟨a, rfl⟩, fun _ => nofun⟩

theorem mapErr_ne_panic {α ε : Type} {e : ε} {x : Checked α} :
    x.mapErr e ≠ .error .panic ↔ x ≠ .error .panic := by
  rcases x with (_ | _) | _
  · exact ⟨fun _ => nofun, fun _ => nofun⟩
  · exact ⟨fun h => absurd rfl h, fun h => absurd rfl h⟩
  · exact ⟨fun _ => nofun, fun _ => nofun⟩

theorem mapErr_eq_ok {α ε : Type} {e : ε} {x : Checked α} {a : α} : x.mapErr e = .ok a ↔ x = .ok a := by
  rcases x with (_ | _) | _
  · exact ⟨nofun, nofun⟩
  · exact ⟨nofun, nofun⟩
  · exact ⟨fun h => congrArg _ (Except.ok.inj h), fun h => congrArg _ (Except.ok.inj h)⟩

theorem fromHex_ne_panic_iff (s : List Char) : fromHex s ≠ .error .panic ↔ HexReads s := by
  rcases Nat.mod_two_eq_zero_or_one (byteLen s) with heven | hodd
  swap
  · unfold fromHex
    rw [if_pos hodd]
    exact ⟨fun _ => .inl hodd, fun _ => nofun⟩
  have hreads : HexReads s ↔
      splitAtByte 2 s ≠ none ∧ ∃ ps, ps ≠ [] ∧ pieces (trim (hexBody s)) = some ps :=
    or_iff_right (by omega)
  rw [hreads]
  rcases hsplit : splitAtByte 2 s with _ | ⟨part, rest⟩
  · refine ⟨fun h => absurd ?_ h, fun h => absurd rfl h.1⟩
    unfold fromHex
    rw [if_neg (by omega), slice_first_panic hsplit]
    rfl
  rw [fromHex_eq heven hsplit, splitPairs_eq, Fault.bind_ne_panic]
  by_cases hshort : byteLen (trim (hexBody s)) < 2
  · rw [if_pos hshort]
    refine ⟨fun h => absurd rfl h.1, ?_⟩
    rintro ⟨-, ps, hne, hps⟩
    have := byteLen_pieces hps
    have := List.length_pos_iff.2 hne
    omega
  · rw [if_neg hshort, unwrap_ne_panic]
    constructor
    · rintro ⟨⟨ps, hps⟩, -⟩
      refine ⟨nofun, ps, ?_, hps⟩
      rintro rfl
      have := byteLen_pieces hps
      simp at this
      omega
    · rintro ⟨-, ps, -, hps⟩
      exact ⟨⟨ps, hps⟩, fun _ _ => orElse_ne_panic _ _⟩

/-! ## Messages -/

namespace EncryptedMessage

/-- The bytes of the message and of the nonce are read without a panic, and the nonce is long enough. -/
def Opens (m : EncryptedMessage) : Prop :=
  HexReads m.encryptedMessage.toList ∧ ∀ b, fromHex m.encryptedMessage.toList = .ok b →
    HexReads m.nonce.toList ∧ ∀ nonce, fromHex m.nonce.toList = .ok nonce → 12 ≤ nonce.length

theorem key_ne_panic_iff (K : CryptoLib) (m : EncryptedMessage) (publicKey : PublicKey)
    (secretKey : SecretKey) : m.key K publicKey secretKey ≠ .error .panic ↔ HexReads m.salt.toList := by
  unfold key
  rw [Fault.bind_ne_panic, mapErr_ne_panic, fromHex_ne_panic_iff]
  refine and_iff_left fun salt _ => Fault.bind_ne_panic.2 ⟨orElse_ne_panic _ _, fun _ _ => nofun⟩

theorem decryptWithKey_ne_panic_iff (K : CryptoLib) (m : EncryptedMessage) (key : List Nat) :
    m.decryptWithKey K key ≠ .error .panic ↔ m.Opens := by
  unfold decryptWithKey
  rw [Fault.bind_ne_panic, mapErr_ne_panic, fromHex_ne_panic_iff]
  refine and_congr_right fun _ => forall_congr' fun b => ?_
  rw [mapErr_eq_ok]
  refine imp_congr_right fun _ => ?_
  rw [Fault.bind_ne_panic, mapErr_ne_panic, fromHex_ne_panic_iff]
  refine and_congr_right fun _ => forall_congr' fun nonce => ?_
  rw [mapErr_eq_ok]
  refine imp_congr_right fun _ => ?_
  split_ifs with hshort
  · exact ⟨fun h => absurd rfl h, fun h => absurd h (Nat.not_le.2 hshort)⟩
  · exact ⟨fun _ => Nat.not_lt.1 hshort, fun _ =>
      Fault.bind_ne_panic.2 ⟨orElse_ne_panic _ _, fun _ _ => orElse_ne_panic _ _⟩⟩

end EncryptedMessage

namespace TxProof

variable (K : CryptoLib) (C : SlateCodecs)

/-- What `from_response` needs to return: the port of the address is read; the signature is one; the salt is
read; and the signature verifies, and the message opens if it is for the wallet. -/
def Parses (sender message signature : List Char) (secretKey : SecretKey)
    (expectedDestination : Option EpicboxAddress) : Prop :=
  EpicboxAddress.PortReads sender ∧ ∀ address, EpicboxAddress.fromStr K sender = .ok address →
    HexReads signature ∧ ∀ bytes, fromHex signature = .ok bytes →
      ∃ sig, K.signatureFromDer bytes = some sig ∧ ∀ publicKey, address.key K = .ok publicKey →
        ∀ m, (Json.read message).bind EncryptedMessage.fromJson = some m →
          HexReads m.salt.toList ∧ ∀ key, m.key K publicKey secretKey = .ok key →
            K.verify (K.sha256 (utf8 message)) sig publicKey = true ∧
              ((expectedDestination.any fun e => m.destination.publicKey ≠ e.publicKey) = false → m.Opens)

theorem orErr_ne_panic {α : Type} (e : TxProofError) (o : Option α) : orErr e o ≠ .error .panic := by
  cases o <;> exact nofun

theorem orErr_eq_ok {α : Type} {e : TxProofError} {o : Option α} {a : α} :
    orErr e o = .ok a ↔ o = some a := by
  rcases o with _ | b
  · exact ⟨nofun, nofun⟩
  · exact ⟨fun h => congrArg some (Except.ok.inj h), fun h => congrArg _ (Option.some.inj h)⟩

theorem verifySignature_ne_panic {challenge : List Char} {sig : Signature} {publicKey : PublicKey} :
    verifySignature K challenge sig publicKey ≠ .error .panic ↔
      K.verify (K.sha256 (utf8 challenge)) sig publicKey = true := by
  unfold verifySignature
  split_ifs with h
  · exact ⟨fun _ => h, fun _ => nofun⟩
  · exact ⟨fun hne => absurd rfl hne, fun hcon => absurd hcon h⟩

theorem signatureFromHex_ne_panic {text : List Char} : Signature.fromHex K text ≠ .error .panic ↔
    HexReads text ∧ ∀ bytes, fromHex text = .ok bytes → ∃ sig, K.signatureFromDer bytes = some sig := by
  unfold Signature.fromHex
  rw [Fault.bind_ne_panic, fromHex_ne_panic_iff]
  simp only [unwrap_ne_panic]

/-- The address of a sender was printed from a key, so its key is read without a panic. -/
theorem key_of_fromStr_ne_panic (hK : K.ByteValued) {s : List Char} {address : EpicboxAddress}
    (h : EpicboxAddress.fromStr K s = .ok address) : address.key K ≠ .error .panic := by
  obtain ⟨k, d, port, hnew⟩ : ∃ k d port, EpicboxAddress.new K k d port = .ok address := by
    unfold EpicboxAddress.fromStr at h
    split at h
    · cases h
    · obtain ⟨port, -, h₁⟩ := Fault.bind_eq_ok.1 h
      obtain ⟨k, -, h₂⟩ := Fault.bind_eq_ok.1 h₁
      exact ⟨k, _, port, h₂⟩
  have hversion := EpicboxAddress.versionBytes_lt K
  have htext := EpicboxAddress.toBase58Check_eq (k := k) hK hversion
  rw [EpicboxAddress.new_of_text htext] at hnew
  cases hnew
  unfold EpicboxAddress.key EpicboxAddress.keyFromBase58Check
  dsimp only
  rw [String.toList_ofList, EpicboxAddress.fromBase58Check_payload hK hversion
    (by rw [EpicboxAddress.versionBytes_length]; decide) htext]
  show (if EpicboxAddress.versionBytes K ≠ EpicboxAddress.versionBytes K then _ else _) ≠ _
  rw [if_neg (not_not.2 rfl)]
  exact orElse_ne_panic _ _

theorem signatureFromHex_eq_ok {text : List Char} {sig : Signature} :
    Signature.fromHex K text = .ok sig ↔
      ∃ bytes, fromHex text = .ok bytes ∧ K.signatureFromDer bytes = some sig := by
  unfold Signature.fromHex
  rw [Fault.bind_eq_ok]
  refine exists_congr fun bytes => and_congr_right fun _ => ?_
  rcases K.signatureFromDer bytes with _ | s
  · exact ⟨nofun, nofun⟩
  · exact ⟨fun h => congrArg some (Except.ok.inj h), fun h => congrArg _ (Option.some.inj h)⟩

/-- What is left once the key and the message are read. -/
theorem verifyExtract_ne_panic_iff (p : TxProof) (expectedDestination : Option EpicboxAddress)
    {publicKey : PublicKey} {m : EncryptedMessage} (hkey : p.address.key K = .ok publicKey)
    (hread : (Json.read p.message).bind EncryptedMessage.fromJson = some m) :
    p.verifyExtract K C expectedDestination ≠ .error .panic ↔
      K.verify (K.sha256 (utf8 p.message)) p.signature publicKey = true ∧
        ((expectedDestination.any fun e => m.destination.publicKey ≠ e.publicKey) = false → m.Opens) := by
  unfold verifyExtract
  rw [hkey, hread]
  show ((verifySignature K p.message p.signature publicKey).mapErr TxProofError.verifySignature >>= fun _ =>
    if expectedDestination.any fun e => m.destination.publicKey ≠ e.publicKey then
      .error (.err TxProofError.verifyDestination)
    else (m.decryptWithKey K p.key).mapErr TxProofError.decryptMessage >>= fun text =>
      orErr .parseSlate (VersionedSlate.fromText C text) >>= fun slate =>
        pure (m.destination, slate)) ≠ _ ↔ _
  rw [Fault.bind_ne_panic, mapErr_ne_panic, verifySignature_ne_panic]
  refine and_congr_right fun hverify => ?_
  have hunit : (verifySignature K p.message p.signature publicKey).mapErr TxProofError.verifySignature =
      .ok () := by
    unfold verifySignature
    rw [if_pos hverify]
    rfl
  rw [hunit]
  have hopens : (m.decryptWithKey K p.key).mapErr TxProofError.decryptMessage ≠ .error .panic ↔
      m.Opens := mapErr_ne_panic.trans (m.decryptWithKey_ne_panic_iff K p.key)
  constructor
  · intro h hsame
    have hmine := h () rfl
    rw [if_neg (by rw [hsame]; exact nofun), Fault.bind_ne_panic, hopens] at hmine
    exact hmine.1
  · intro h _ _
    split_ifs with hother
    · exact nofun
    · refine Fault.bind_ne_panic.2 ⟨hopens.2 (h (Bool.not_eq_true _ ▸ hother)), fun text _ => ?_⟩
      exact Fault.bind_ne_panic.2 ⟨orErr_ne_panic _ _, fun _ _ => nofun⟩

theorem fromResponse_ne_panic_iff (hK : K.ByteValued) (sender message signature : List Char)
    (secretKey : SecretKey) (expectedDestination : Option EpicboxAddress) :
    fromResponse K C sender message signature secretKey expectedDestination ≠ .error .panic ↔
      Parses K sender message signature secretKey expectedDestination := by
  unfold fromResponse Parses
  rw [Fault.bind_ne_panic, mapErr_ne_panic]
  refine and_congr (EpicboxAddress.fromStr_ne_panic_iff hK sender) (forall_congr' fun address => ?_)
  rw [mapErr_eq_ok]
  refine imp_congr_right fun haddress => ?_
  have hkey := key_of_fromStr_ne_panic K hK haddress
  rw [Fault.bind_ne_panic, mapErr_ne_panic, signatureFromHex_ne_panic, and_assoc]
  refine and_congr_right fun hreads => ?_
  have hrest (sig : Signature) :
      ((address.key K).mapErr TxProofError.parsePublicKey >>= fun publicKey =>
        orErr .parseEncryptedMessage ((Json.read message).bind EncryptedMessage.fromJson) >>= fun m =>
          (m.key K publicKey secretKey).mapErr TxProofError.decryptionKey >>= fun key =>
            let proof : TxProof := { address, message, signature := sig, key, amount := 0, fee := 0,
                                     inputs := [], outputs := [] }
            proof.verifyExtract K C expectedDestination >>= fun found => pure (found.2, proof)) ≠
          .error .panic ↔
        ∀ publicKey, address.key K = .ok publicKey →
          ∀ m, (Json.read message).bind EncryptedMessage.fromJson = some m →
            HexReads m.salt.toList ∧ ∀ key, m.key K publicKey secretKey = .ok key →
              K.verify (K.sha256 (utf8 message)) sig publicKey = true ∧
                ((expectedDestination.any fun e => m.destination.publicKey ≠ e.publicKey) = false →
                  m.Opens) := by
    rw [Fault.bind_ne_panic, mapErr_ne_panic, and_iff_right hkey]
    refine forall_congr' fun publicKey => ?_
    rw [mapErr_eq_ok]
    refine imp_congr_right fun hpublic => ?_
    rw [Fault.bind_ne_panic, and_iff_right (orErr_ne_panic _ _)]
    refine forall_congr' fun m => ?_
    rw [orErr_eq_ok]
    refine imp_congr_right fun hm => ?_
    rw [Fault.bind_ne_panic, mapErr_ne_panic, m.key_ne_panic_iff]
    refine and_congr_right fun _ => forall_congr' fun key => ?_
    rw [mapErr_eq_ok]
    refine imp_congr_right fun _ => ?_
    dsimp only
    rw [Fault.bind_ne_panic, verifyExtract_ne_panic_iff K C ⟨address, message, sig, key, 0, 0, [], []⟩
      expectedDestination hpublic hm]
    exact and_iff_left fun _ _ => nofun
  constructor
  · rintro ⟨hsig, hnext⟩ bytes hbytes
    obtain ⟨sig, hder⟩ := hsig bytes hbytes
    refine ⟨sig, hder, (hrest sig).1 (hnext sig ?_)⟩
    exact mapErr_eq_ok.2 ((signatureFromHex_eq_ok K).2 ⟨bytes, hbytes, hder⟩)
  · intro h
    refine ⟨fun bytes hbytes => ?_, fun sig hsig => (hrest sig).2 ?_⟩
    · obtain ⟨sig, hder, -⟩ := h bytes hbytes
      exact ⟨sig, hder⟩
    · obtain ⟨bytes, hbytes, hder⟩ := (signatureFromHex_eq_ok K).1 (mapErr_eq_ok.1 hsig)
      obtain ⟨sig', hder', hall⟩ := h bytes hbytes
      obtain rfl : sig = sig' := Option.some.inj (hder.symm.trans hder')
      exact hall

end TxProof

/-! ## A round -/

variable (R : Relay)

/-- The key of the wallet signs the text. -/
def Relay.Signs (text : List Char) : Prop :=
  ∃ sig, R.crypto.sign (R.crypto.sha256 (utf8 text)) R.secretKey = some sig

/-- The reply is encrypted for the address, signed, and the socket takes it. -/
def Relay.Replies (v : VersionedSlate) (dest : EpicboxAddress) (x : Listener) : Prop :=
  ∃ pkey m, dest.key R.crypto = .ok pkey ∧
    EncryptedMessage.new R.crypto (R.salt x.answers) (R.nonce x.answers) (v.toText R.codecs) dest pkey
      R.secretKey = .ok m ∧
    R.Signs m.toJson.render ∧ R.sends (x.answers + 1) = true

/-- The wallet and the node do not panic on the slate, and the reply to a slate that was not finalized is
sent. -/
def Relay.Handles (address : EpicboxAddress) (v : VersionedSlate) (x : Listener) : Prop :=
  (EpicboxController.processIncomingSlate R (some address.stripped) (Slate.ofVersioned v) x).1 ≠
      .error .panic ∧
    ∀ s y, EpicboxController.processIncomingSlate R (some address.stripped) (Slate.ofVersioned v) x =
      (.ok (false, s), y) →
        R.Replies (VersionedSlate.intoVersion s (EpicboxController.version v)) address y

/-- The last challenge is there and is signed; and if the socket takes the subscription, the id is signed, and
somebody listens if it takes the acknowledgement. -/
def Relay.Closes (id : List Char) (x : Listener) : Prop :=
  (∃ challenge, x.challenge = some challenge ∧ R.Signs challenge) ∧
    (R.sends x.answers = true →
      R.Signs id ∧ (R.sends (x.answers + 1) = true → R.listens (x.answers + 2) = true))

/-- The message is parsed; a slate it carries is handled, and the round is closed after it. -/
def Relay.TakesSlate (sender str signature id : List Char) (x : Listener) : Prop :=
  TxProof.Parses R.crypto sender str signature R.secretKey (some R.address) ∧
    ∀ v proof, TxProof.fromResponse R.crypto R.codecs sender str signature R.secretKey
      (some R.address) = .ok (v, proof) →
        R.Handles proof.address v x ∧
          ∀ y, EpicboxController.onSlate R proof.address v x = (.ok (), y) → R.Closes id y

/-- What a round needs of the message and of the state it comes in. -/
def Relay.Survives : Incoming → Listener → Prop
  | .message (.data (some (.challenge str))), x =>
    (x.firstRun = true → R.sends x.answers = true) → R.Signs str
  | .message (.data (some (.slate sender str signature _ _ id))), x =>
    R.TakesSlate sender str signature id x
  | _, _ => True

variable {R}

theorem checked_ne_panic {α : Type} {c : Checked α} {x : Listener} :
    (checked c x).1 ≠ .error .panic ↔ c ≠ .error .panic := by
  rcases c with (_ | _) | _
  · exact ⟨fun _ => nofun, fun _ => nofun⟩
  · exact ⟨fun h => absurd rfl h, fun h => absurd rfl h⟩
  · exact ⟨fun _ => nofun, fun _ => nofun⟩

theorem signs_iff {text : List Char} :
    signChallenge R.crypto text R.secretKey ≠ .error .panic ↔ R.Signs text :=
  unwrap_ne_panic

theorem checked_sign {text : List Char} (h : R.Signs text) (x : Listener) :
    ∃ sig, checked (signChallenge R.crypto text R.secretKey) x = (.ok sig, x) := by
  obtain ⟨sig, hsig⟩ := h
  exact ⟨sig, checked_eq_ok.2 ⟨by unfold signChallenge; rw [hsig]; rfl, rfl⟩⟩

theorem checked_not_sign {text : List Char} (h : ¬R.Signs text) (x : Listener) :
    checked (signChallenge R.crypto text R.secretKey) x = (.error .panic, x) := by
  have hpanic : signChallenge R.crypto text R.secretKey = .error .panic :=
    not_not.1 fun hne => h (signs_iff.1 hne)
  unfold checked
  rw [hpanic]
  rfl

theorem socketSend_true {request : ProtocolRequest} {x : Listener} (h : R.sends x.answers = true) :
    socketSend R request x =
      (.ok true, { x with answers := x.answers + 1, written := x.written ++ [request] }) := by
  unfold socketSend
  rw [Prog.bind_of_ok (show nextRelay x = (.ok x.answers, _) from rfl), if_pos h]
  rfl

theorem socketSend_false {request : ProtocolRequest} {x : Listener} (h : ¬R.sends x.answers = true) :
    socketSend R request x = (.ok false, { x with answers := x.answers + 1 }) := by
  unfold socketSend
  rw [Prog.bind_of_ok (show nextRelay x = (.ok x.answers, _) from rfl), if_neg h]
  rfl

/-- A send fails, if it does, by an answer. -/
theorem socketSend_next_ne_panic (request : ProtocolRequest) (x : Listener) :
    ((socketSend R request >>= fun _ => (pure .next : ListenerM EpicboxBroker.Round)) x).1 ≠
      .error .panic := by
  rcases socketSend_cases (R := R) request x with h | h
  · rw [Prog.bind_of_ok h]
    exact nofun
  · rw [Prog.bind_of_ok h]
    exact nofun

theorem onChallenge_ne_panic_iff (str : List Char) (x : Listener) :
    (EpicboxBroker.onChallenge R str x).1 ≠ .error .panic ↔
      ((x.firstRun = true → R.sends x.answers = true) → R.Signs str) := by
  have hsubscribe (y : Listener) :
      ((checked (signChallenge R.crypto str R.secretKey) >>= fun signature =>
        socketSend R (EpicboxBroker.subscribeRequest R signature) >>= fun _ =>
          (pure .next : ListenerM EpicboxBroker.Round)) y).1 ≠ .error .panic ↔ R.Signs str := by
    rw [Prog.bind_ne_panic, checked_ne_panic, signs_iff]
    exact and_iff_left fun signature z _ => socketSend_next_ne_panic _ z
  unfold EpicboxBroker.onChallenge
  rw [Prog.bind_of_ok (Prog.modify_apply _ x), Prog.bind_of_ok (Prog.get_apply _)]
  by_cases hfirst : x.firstRun = true
  · rw [if_pos hfirst]
    by_cases hsend : R.sends x.answers = true
    · have hclient : EpicboxClient.clientDetails R { x with challenge := some str } = (.ok (), _) :=
        Prog.bind_of_ok (socketSend_true (x := { x with challenge := some str }) hsend)
      refine Iff.trans ?_ ⟨fun h _ => h, fun h => h fun _ => hsend⟩
      rw [Prog.bind_of_ok hclient, Prog.bind_of_ok (Prog.modify_apply _ _)]
      exact hsubscribe _
    · have hclient : EpicboxClient.clientDetails R { x with challenge := some str } =
          (.error (.err (.epicboxTungstenite "Could not send 'ClientDetails' request!")), _) :=
        Prog.bind_of_ok (socketSend_false (x := { x with challenge := some str }) hsend)
      rw [Prog.bind_of_error hclient]
      exact ⟨fun _ h => absurd (h hfirst) hsend, fun _ => nofun⟩
  · rw [if_neg hfirst]
    exact (hsubscribe _).trans ⟨fun h _ => h, fun h => h fun hcon => absurd hcon hfirst⟩

theorem madeSend_ne_panic_iff (id : List Char) (x : Listener) :
    (EpicboxClient.madeSend R id x).1 ≠ .error .panic ↔
      R.Signs id ∧ (R.sends x.answers = true → R.listens (x.answers + 1) = true) := by
  by_cases hsign : R.Signs id
  · obtain ⟨sig, hsig⟩ := checked_sign hsign x
    unfold EpicboxClient.madeSend
    rw [Prog.bind_of_ok hsig, and_iff_right hsign]
    by_cases hsend : R.sends x.answers = true
    · rw [Prog.bind_of_ok (socketSend_true hsend), if_pos rfl,
        Prog.bind_of_ok (show nextRelay _ = (.ok _, _) from rfl)]
      refine Iff.trans ?_ ⟨fun h _ => h, fun h => h hsend⟩
      split_ifs with hlistens
      · exact ⟨fun _ => hlistens, fun _ => nofun⟩
      · exact ⟨fun h => absurd rfl h, fun h => absurd h hlistens⟩
    · rw [Prog.bind_of_ok (socketSend_false hsend), if_neg nofun]
      exact ⟨fun _ h => absurd h hsend, fun _ => nofun⟩
  · unfold EpicboxClient.madeSend
    rw [Prog.bind_of_error (checked_not_sign hsign x)]
    exact ⟨fun h => absurd rfl h, fun h => absurd h.1 hsign⟩

theorem acknowledge_ne_panic_iff (id : List Char) (x : Listener) :
    (EpicboxBroker.acknowledge R id x).1 ≠ .error .panic ↔ R.Closes id x := by
  unfold EpicboxBroker.acknowledge Relay.Closes
  rw [Prog.bind_of_ok (Prog.get_apply x)]
  rcases hchallenge : x.challenge with _ | challenge
  · refine ⟨fun h => absurd rfl h, ?_⟩
    rintro ⟨⟨challenge, h, -⟩, -⟩
    cases h
  rw [Prog.bind_of_ok (Prog.unwrap_some challenge x)]
  by_cases hsign : R.Signs challenge
  swap
  · rw [Prog.bind_of_error (checked_not_sign hsign x)]
    refine ⟨fun h => absurd rfl h, ?_⟩
    rintro ⟨⟨c, hc, hsigns⟩, -⟩
    cases hc
    exact absurd hsigns hsign
  obtain ⟨sig, hsig⟩ := checked_sign hsign x
  have hhas : ∃ c, some challenge = some c ∧ R.Signs c := ⟨challenge, rfl, hsign⟩
  rw [Prog.bind_of_ok hsig, and_iff_right hhas]
  by_cases hsend : R.sends x.answers = true
  · rw [Prog.bind_of_ok (socketSend_true hsend), if_pos rfl, Prog.bind_ne_panic, Prog.attempt_ne_panic,
      madeSend_ne_panic_iff]
    exact ⟨fun h _ => h.1, fun h => ⟨h hsend, fun _ _ _ => nofun⟩⟩
  · rw [Prog.bind_of_ok (socketSend_false hsend), if_neg nofun]
    exact ⟨fun _ h => absurd h hsend, fun _ => nofun⟩

/-- The reply is sent, or it fails. -/
theorem postSlate_ok_iff (v : VersionedSlate) (dest : EpicboxAddress) (x : Listener) :
    (EpicboxBroker.postSlate R v dest x).1 = .ok () ↔ R.Replies v dest x := by
  constructor
  · intro h
    have hrun := Prog.run_eq h
    unfold EpicboxBroker.postSlate at hrun
    obtain ⟨pkey, x₁, hkey, h₁⟩ := Prog.bind_ok.1 hrun
    obtain ⟨n, x₂, hn, h₂⟩ := Prog.bind_ok.1 h₁
    obtain ⟨m, x₃, hm, h₃⟩ := Prog.bind_ok.1 h₂
    obtain ⟨signature, x₄, hsig, h₄⟩ := Prog.bind_ok.1 h₃
    obtain ⟨hdest, rfl⟩ := checked_eq_ok.1 hkey
    cases hn
    obtain ⟨hnew, rfl⟩ := checked_eq_ok.1 hm
    obtain ⟨hsigned, rfl⟩ := checked_eq_ok.1 hsig
    refine ⟨pkey, m, hdest, hnew, signs_iff.1 (by rw [hsigned]; exact nofun), ?_⟩
    by_contra hsend
    rw [Prog.bind_of_ok (socketSend_false hsend)] at h₄
    cases h₄
  · rintro ⟨pkey, m, hkey, hnew, hsigns, hsend⟩
    obtain ⟨sig, hsig⟩ := checked_sign hsigns { x with answers := x.answers + 1 }
    unfold EpicboxBroker.postSlate
    rw [Prog.bind_of_ok (checked_eq_ok.2 ⟨hkey, rfl⟩),
      Prog.bind_of_ok (show nextRelay x = (.ok x.answers, _) from rfl),
      Prog.bind_of_ok (checked_eq_ok.2 ⟨hnew, rfl⟩), Prog.bind_of_ok hsig,
      Prog.bind_of_ok (socketSend_true hsend), if_pos rfl]
    rfl

theorem onSlate_ne_panic_iff (address : EpicboxAddress) (v : VersionedSlate) (x : Listener) :
    (EpicboxController.onSlate R address v x).1 ≠ .error .panic ↔ R.Handles address v x := by
  unfold Relay.Handles
  rcases hrun : EpicboxController.processIncomingSlate R (some address.stripped) (Slate.ofVersioned v) x with
    ⟨(e | _) | ⟨_ | _, s⟩, y⟩
  · rw [onSlate_of_err hrun]
    exact ⟨fun _ => ⟨nofun, nofun⟩, fun _ => nofun⟩
  · rw [onSlate_of_panic hrun]
    exact ⟨fun h => absurd rfl h, fun h => absurd rfl h.1⟩
  · have hreplies := postSlate_ok_iff (R := R)
      (VersionedSlate.intoVersion s (EpicboxController.version v)) address y
    rcases hpost : EpicboxBroker.postSlate R
      (VersionedSlate.intoVersion s (EpicboxController.version v)) address y with ⟨f | ⟨⟩, z⟩
    · rw [hpost] at hreplies
      rw [onSlate_of_unsent hrun hpost]
      exact ⟨fun h => absurd rfl h, fun h => absurd (hreplies.2 (h.2 s y rfl)) nofun⟩
    · rw [hpost] at hreplies
      rw [onSlate_of_sent hrun hpost]
      refine ⟨fun _ => ⟨nofun, fun s' y' heq => ?_⟩, fun _ => nofun⟩
      cases heq
      exact hreplies.1 rfl
  · rw [onSlate_of_finalized hrun]
    refine ⟨fun _ => ⟨nofun, fun s' y' heq => ?_⟩, fun _ => nofun⟩
    cases heq

theorem onSlateMessage_ne_panic_iff (hK : R.crypto.ByteValued) (sender str signature id : List Char)
    (x : Listener) : (EpicboxBroker.onSlateMessage R sender str signature id x).1 ≠ .error .panic ↔
      R.TakesSlate sender str signature id x := by
  unfold Relay.TakesSlate
  rw [← TxProof.fromResponse_ne_panic_iff R.crypto R.codecs hK]
  rcases hparse : TxProof.fromResponse R.crypto R.codecs sender str signature R.secretKey
    (some R.address) with (e | _) | ⟨v, proof⟩
  · unfold EpicboxBroker.onSlateMessage
    rw [hparse]
    exact ⟨fun _ => ⟨nofun, nofun⟩, fun _ => nofun⟩
  · unfold EpicboxBroker.onSlateMessage
    rw [hparse]
    exact ⟨fun h => absurd rfl h, fun h => absurd rfl h.1⟩
  rw [onSlateMessage_of_parsed hparse, Prog.bind_ne_panic, onSlate_ne_panic_iff]
  simp only [acknowledge_ne_panic_iff]
  constructor
  · rintro ⟨hhandles, hcloses⟩
    refine ⟨nofun, fun v' proof' heq => ?_⟩
    cases heq
    exact ⟨hhandles, hcloses ()⟩
  · rintro ⟨-, hall⟩
    obtain ⟨hhandles, hcloses⟩ := hall v proof rfl
    exact ⟨hhandles, fun _ => hcloses⟩

/-- A round panics exactly if it lacks something of what it needs. -/
theorem round_ne_panic_iff (hK : R.crypto.ByteValued) (i : Incoming) (x : Listener) :
    (EpicboxBroker.round R i x).1 ≠ .error .panic ↔ R.Survives i x := by
  rcases i with _ | _ | m
  · exact ⟨fun _ => trivial, fun _ => nofun⟩
  · exact ⟨fun _ => trivial, fun _ => nofun⟩
  rcases m with r | _ | _ | _ | _
  case message.ping => exact ⟨fun _ => trivial, fun _ => nofun⟩
  case message.pong => exact ⟨fun _ => trivial, fun _ => nofun⟩
  case message.frame => exact ⟨fun _ => trivial, fun _ => nofun⟩
  case message.close => exact ⟨fun _ => trivial, fun _ => nofun⟩
  rcases r with _ | response
  · exact ⟨fun _ => trivial, fun _ => nofun⟩
  cases response with
  | ok => exact ⟨fun _ => trivial, fun _ => nofun⟩
  | error kind description => exact ⟨fun _ => trivial, fun _ => nofun⟩
  | getVersion str => exact ⟨fun _ => trivial, fun _ => nofun⟩
  | challenge str => exact onChallenge_ne_panic_iff str x
  | slate sender str signature challenge ver id =>
    exact onSlateMessage_ne_panic_iff hK sender str signature id x

/-! ## Runs -/

/-- The loop that ends with a round ends as it does. -/
theorem subscribe_of_end_ne_panic {i : Incoming} {x : Listener} (h : R.step x i = none)
    (is : List Incoming) :
    (EpicboxBroker.subscribe R (i :: is) x).1 ≠ .error .panic ↔
      (EpicboxBroker.round R i x).1 ≠ .error .panic := by
  unfold Relay.step at h
  rcases hround : EpicboxBroker.round R i x with ⟨f | _ | result, z⟩
  · have hrun : EpicboxBroker.subscribe R (i :: is) x = (.error f, z) := Prog.bind_of_error hround
    rw [hrun]
  · rw [hround] at h
    cases h
  · have hrun : EpicboxBroker.subscribe R (i :: is) x = (.ok (.stop result), z) :=
      Prog.bind_of_ok hround
    rw [hrun]

theorem round_ne_panic_of_step {i : Incoming} {x y : Listener} (h : R.step x i = some y) :
    (EpicboxBroker.round R i x).1 ≠ .error .panic := by
  intro hpanic
  unfold Relay.step at h
  rw [Prog.run_eq hpanic] at h
  cases h

theorem subscribe_ne_panic_iff (hK : R.crypto.ByteValued) (is : List Incoming) (x : Listener) :
    (EpicboxBroker.subscribe R is x).1 ≠ .error .panic ↔ Steps.Allowed R.step R.Survives is x := by
  induction is generalizing x with
  | nil => exact ⟨fun _ => trivial, fun _ => nofun⟩
  | cons i is ih =>
    show _ ↔ R.Survives i x ∧ ∀ y ∈ R.step x i, Steps.Allowed R.step R.Survives is y
    rw [← round_ne_panic_iff hK]
    rcases hstep : R.step x i with _ | y
    · rw [subscribe_of_end_ne_panic hstep]
      exact ⟨fun h => ⟨h, nofun⟩, fun h => h.1⟩
    · obtain ⟨hrun, -⟩ := subscribe_of_step hstep is
      rw [hrun, ih]
      refine ⟨fun h => ⟨round_ne_panic_of_step hstep, fun y' hy' => ?_⟩, fun h => h.2 y rfl⟩
      obtain rfl : y = y' := Option.some.inj hy'
      exact h

namespace Survives

/-- A relay whose keys have their real length. -/
def relay : Relay := { Relay.small with crypto := EpicboxAddress.parityKeys }

def challenged : Incoming := .message (.data (some (.challenge ['c'])))

/-- A slate from an address whose port is empty. -/
def portless : Incoming :=
  .message (.data (some (.slate (List.replicate 52 '2' ++ "@a:".toList) [] [] [] [] [])))

end Survives

end EpicWallet
