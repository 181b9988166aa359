import EpicWallet.Impls.Lmdb

/-!
# Slates

`libwallet/src/slate.rs`: the partially signed transaction two wallets pass to each other. A method
that changes the slate returns the new one; a slate of a failed call is dropped by every caller.

`fillRound2` computes the wallet's partial signature. Besides returning it in the slate it is
recorded in `Wallet.partialSigs`, with the nonce, the message and the two sums it is over.
-/

namespace EpicWallet

open Lib

/-- `i64` from the bits of a `u64`. -/
def asI64 (n : Nat) : Int := if n < 2 ^ 63 then n else (n : Int) - 2 ^ 64

/-! ## Messages -/

def userMessageMaxLen : Nat := 256

/-- The characters that fill `n` bytes; `none` if a character lies across the end. -/
def takeBytes : Nat → List Char → Option (List Char)
  | _, [] => some []
  | n, c :: l =>
    if n = 0 then some []
    else if c.utf8Size ≤ n then (c :: ·) <$> takeBytes (n - c.utf8Size) l
    else none

/-- `m.truncate(USER_MESSAGE_MAX_LEN)`, which panics inside a character. -/
def truncateMessage : Option String → WalletM (Option String)
  | none => pure none
  | some m => do
    let l ← Prog.unwrap (takeBytes userMessageMaxLen m.toList)
    pure (some (String.ofList l))

def ParticipantMessageData.fromParticipantData (p : ParticipantData) : ParticipantMessageData where
  id := p.id
  publicKey := p.publicBlindExcess
  message := p.message
  messageSig := p.messageSig

def Transaction.empty : Transaction := ⟨.zero, [], [], []⟩

namespace Slate

variable (W : World)

def currentSlateVersion : Nat := 3

def epicBlockHeaderVersion : Nat := 6

def blank (numParticipants : Nat) : WalletM Slate := do
  let t ← nextTick
  pure {
    numParticipants
    id := W.newUuid t
    tx := Transaction.empty
    amount := 0
    fee := 0
    height := 0
    lockHeight := 0
    ttlCutoffHeight := none
    participantData := []
    versionInfo := ⟨currentSlateVersion, currentSlateVersion, epicBlockHeaderVersion⟩
    paymentProof := none }

def kernelFeatures (s : Slate) : KernelFeatures :=
  match s.lockHeight with
  | 0 => .plain s.fee
  | _ => .heightLocked s.fee s.lockHeight

def msgToSign (s : Slate) : Except Error Message := W.kernelSigMsg s.kernelFeatures

def updateKernel (s : Slate) : Slate :=
  { s with tx := { s.tx with kernels := [W.emptyKernel s.kernelFeatures] } }

def addTransactionElements (s : Slate) (k : Keychain) (elems : List Append) :
    Except Error (Slate × BlindingFactor) := do
  let s := s.updateKernel W
  let (tx, blind) ← W.partialTransaction s.tx elems k
  pure ({ s with tx }, blind)

def pubNonceSum (s : Slate) : Except Error PublicKey :=
  W.fromCombination (s.participantData.map (·.publicNonce))

def pubBlindSum (s : Slate) : Except Error PublicKey :=
  W.fromCombination (s.participantData.map (·.publicBlindExcess))

def partSigs (s : Slate) : Option (List Signature) := s.participantData.mapM (·.partSig)

def participantMessages (s : Slate) : ParticipantMessages :=
  ⟨s.participantData.map .fromParticipantData⟩

/-- The slate with a random offset, and the secret key less the offset. -/
def generateOffset (s : Slate) (k : Keychain) (secKey : SecretKey) : WalletM (Slate × SecretKey) := do
  let t ← nextTick
  let offset := BlindingFactor.fromSecretKey (W.newSecretKey t)
  let blindOffset ← Prog.ofExcept (W.blindSum k [.fromSecretKey secKey] [offset])
  let secKey ← Prog.ofExcept (W.secretKey blindOffset)
  pure ({ s with tx := { s.tx with offset } }, secKey)

def signMessage (secKey : SecretKey) (pubKey : PublicKey) :
    Option String → WalletM (Option Signature)
  | none => pure none
  | some m => do
    let hashed ← Prog.ofExcept (W.messageHash m)
    let t ← nextTick
    let sig ← Prog.ofExcept (W.signSingle t hashed secKey pubKey)
    pure (some sig)

def addParticipantInfo (s : Slate) (secKey secNonce : SecretKey) (id : Nat)
    (partSig : Option Signature) (message : Option String) : WalletM Slate := do
  let pubKey ← Prog.ofExcept (W.publicKey secKey)
  let pubNonce ← Prog.ofExcept (W.publicKey secNonce)
  let messageSig ← signMessage W secKey pubKey message
  pure { s with participantData := s.participantData ++ [{
    id
    publicBlindExcess := pubKey
    publicNonce := pubNonce
    partSig
    message
    messageSig }] }

/-- Round 1; the key returned is the one to sign with. -/
def fillRound1 (s : Slate) (k : Keychain) (secKey secNonce : SecretKey) (participantId : Nat)
    (message : Option String) : WalletM (Slate × SecretKey) := do
  let (s, secKey) ← (if s.tx.offset = .zero then generateOffset W s k secKey else pure (s, secKey))
  let s ← addParticipantInfo W s secKey secNonce participantId none message
  pure (s, secKey)

def checkFees (s : Slate) : WalletM Unit := do
  let fee := W.txFee s.tx.inputs.length s.tx.outputs.length s.tx.kernels.length
  if fee > W.totalFee s.tx then
    Prog.throw (.fee ("Fee Dispute Error: " ++ toString (W.totalFee s.tx) ++ ", " ++ toString fee))
  else do
    let total ← addU64 s.amount s.fee
    if fee > total then
      Prog.throw (.fee ("Rejected the transfer because transaction fee (" ++
        W.amountToHrString fee ++ ") exceeds received amount (" ++ W.amountToHrString total ++ ")."))
    else pure ()

def verifyPartSig (s : Slate) (p : ParticipantData) : WalletM Unit :=
  match p.partSig with
  | none => pure ()
  | some sig => do
    let nonceSum ← Prog.ofExcept (s.pubNonceSum W)
    let blindSum ← Prog.ofExcept (s.pubBlindSum W)
    let msg ← Prog.orPanic (Prog.ofExcept (s.msgToSign W))
    Prog.ofExcept (W.verifyPartialSig sig nonceSum p.publicBlindExcess blindSum msg)

def verifyPartSigs (s : Slate) : WalletM Unit := Prog.forEach s.participantData (verifyPartSig W s)

/-- The first of the `n` leading participants with the given id gets the signature; an index past
the end is a panic. -/
def setPartSig (participantId : Nat) (sig : Signature) :
    Nat → List ParticipantData → Option (List ParticipantData)
  | 0, l => some l
  | _ + 1, [] => none
  | n + 1, p :: l =>
    if p.id = participantId then some ({ p with partSig := some sig } :: l)
    else (p :: ·) <$> setPartSig participantId sig n l

def fillRound2 (s : Slate) (secKey secNonce : SecretKey) (participantId : Nat) : WalletM Slate := do
  checkFees W s
  verifyPartSigs W s
  let nonceSum ← Prog.ofExcept (s.pubNonceSum W)
  let blindSum ← Prog.ofExcept (s.pubBlindSum W)
  let msg ← Prog.ofExcept (s.msgToSign W)
  let sigPart ← Prog.ofExcept (W.calculatePartialSig secKey secNonce nonceSum blindSum msg)
  Prog.modify fun w => { w with partialSigs := w.partialSigs ++ [⟨secNonce, msg, nonceSum, blindSum⟩] }
  let participantData ←
    Prog.unwrap (setPartSig participantId sigPart s.numParticipants s.participantData)
  pure { s with participantData }

def calcExcess (s : Slate) : Except Error Commitment := do
  let txExcess ← W.sumCommitments s.tx (asI64 (W.totalFee s.tx))
  let offsetKey ← W.secretKey s.tx.offset
  let offsetExcess ← W.commitBlind 0 offsetKey
  W.commitSum [txExcess] [offsetExcess]

def finalizeSignature (s : Slate) : WalletM Signature := do
  verifyPartSigs W s
  let sigs ← Prog.unwrap s.partSigs
  let nonceSum ← Prog.ofExcept (s.pubNonceSum W)
  let finalPubkey ← Prog.ofExcept (s.pubBlindSum W)
  let finalSig ← Prog.ofExcept (W.addSignatures sigs nonceSum)
  let msg ← Prog.ofExcept (s.msgToSign W)
  Prog.ofExcept (W.verifyCompletedSig finalSig finalPubkey msg)
  pure finalSig

def finalizeTransaction (s : Slate) (finalSig : Signature) : WalletM Slate := do
  checkFees W s
  let finalExcess ← Prog.ofExcept (s.calcExcess W)
  -- `assert_eq!(final_tx.kernels().len(), 1)`
  match s.tx.kernels with
  | [kernel] => do
    let kernel := { kernel with excess := finalExcess, excessSig := finalSig }
    let finalTx := { s.tx with kernels := [kernel] }
    Prog.ofExcept (W.verifyKernel kernel)
    Prog.ofExcept (W.validate finalTx)
    pure { s with tx := finalTx }
  | _ => Prog.panic

def finalize (s : Slate) : WalletM Slate := do
  let finalSig ← finalizeSignature W s
  finalizeTransaction W s finalSig

/-! ## What the rounds touch -/

theorem generateOffset_aside (s : Slate) (k : Keychain) (secKey : SecretKey) :
    Prog.Keeps Aside (generateOffset W s k secKey) :=
  nextTick_aside.bind fun _ => (Prog.Keeps.ofExcept _).bind fun _ =>
    (Prog.Keeps.ofExcept _).bind fun _ => .pure _

theorem signMessage_aside (secKey : SecretKey) (pubKey : PublicKey) (message : Option String) :
    Prog.Keeps Aside (signMessage W secKey pubKey message) := by
  cases message with
  | none => exact .pure _
  | some m =>
    exact (Prog.Keeps.ofExcept _).bind fun _ => nextTick_aside.bind fun _ =>
      (Prog.Keeps.ofExcept _).bind fun _ => .pure _

theorem addParticipantInfo_aside (s : Slate) (secKey secNonce : SecretKey) (id : Nat)
    (partSig : Option Signature) (message : Option String) :
    Prog.Keeps Aside (addParticipantInfo W s secKey secNonce id partSig message) :=
  (Prog.Keeps.ofExcept _).bind fun _ => (Prog.Keeps.ofExcept _).bind fun _ =>
    (signMessage_aside W _ _ _).bind fun _ => .pure _

theorem fillRound1_aside (s : Slate) (k : Keychain) (secKey secNonce : SecretKey)
    (participantId : Nat) (message : Option String) :
    Prog.Keeps Aside (fillRound1 W s k secKey secNonce participantId message) := by
  refine Prog.Keeps.bind (.ite (fun _ => generateOffset_aside W s k secKey) fun _ => .pure _)
    fun r => ?_
  exact (addParticipantInfo_aside W _ _ _ _ _ _).bind fun _ => .pure _

theorem checkFees_reads (s : Slate) : Prog.Reads (checkFees W s) :=
  .ite (fun _ => .throw _) fun _ => (addU64_reads _ _).bind fun _ =>
    .ite (fun _ => .throw _) fun _ => .pure _

theorem verifyPartSig_reads (s : Slate) (p : ParticipantData) : Prog.Reads (verifyPartSig W s p) := by
  unfold verifyPartSig
  split
  · exact .pure _
  · exact (Prog.Keeps.ofExcept _).bind fun _ => (Prog.Keeps.ofExcept _).bind fun _ =>
      (Prog.Keeps.ofExcept _).orPanic.bind fun _ => .ofExcept _

theorem verifyPartSigs_reads (s : Slate) : Prog.Reads (verifyPartSigs W s) :=
  .forEach _ fun _ _ => verifyPartSig_reads W s _

theorem fillRound2_aside (s : Slate) (secKey secNonce : SecretKey) (participantId : Nat) :
    Prog.Keeps Aside (fillRound2 W s secKey secNonce participantId) := by
  refine (checkFees_reads W s).keeps.bind fun _ => (verifyPartSigs_reads W s).keeps.bind fun _ =>
    (Prog.Keeps.ofExcept _).bind fun _ => (Prog.Keeps.ofExcept _).bind fun _ =>
      (Prog.Keeps.ofExcept _).bind fun _ => (Prog.Keeps.ofExcept _).bind fun _ => ?_
  -- the record of the signature
  exact Prog.Keeps.bind (fun _ => rfl) fun _ => (Prog.Keeps.unwrap _).bind fun _ => .pure _

theorem finalizeSignature_reads (s : Slate) : Prog.Reads (finalizeSignature W s) :=
  (verifyPartSigs_reads W s).bind fun _ => (Prog.Keeps.unwrap _).bind fun _ =>
    (Prog.Keeps.ofExcept _).bind fun _ => (Prog.Keeps.ofExcept _).bind fun _ =>
      (Prog.Keeps.ofExcept _).bind fun _ => (Prog.Keeps.ofExcept _).bind fun _ =>
        (Prog.Keeps.ofExcept _).bind fun _ => .pure _

theorem finalizeTransaction_reads (s : Slate) (sig : Signature) :
    Prog.Reads (finalizeTransaction W s sig) := by
  refine (checkFees_reads W s).bind fun _ => (Prog.Keeps.ofExcept _).bind fun _ => ?_
  split
  · exact (Prog.Keeps.ofExcept _).bind fun _ => (Prog.Keeps.ofExcept _).bind fun _ => .pure _
  · exact .panic

theorem finalize_reads (s : Slate) : Prog.Reads (finalize W s) :=
  (finalizeSignature_reads W s).bind fun _ => finalizeTransaction_reads W s _

/-- The kernel carries the fee of the slate. -/
theorem featuresFee_kernelFeatures (s : Slate) : World.featuresFee s.kernelFeatures = s.fee := by
  unfold kernelFeatures
  split <;> rfl

/-! ## The id of a slate -/

theorem addTransactionElements_id {s s' : Slate} {k : Keychain} {elems : List Append}
    {b : BlindingFactor} (h : s.addTransactionElements W k elems = .ok (s', b)) : s'.id = s.id := by
  unfold addTransactionElements at h
  dsimp only at h
  rcases ht : W.partialTransaction (s.updateKernel W).tx elems k with e | ⟨tx, blind⟩
  · rw [ht] at h
    cases h
  · rw [ht] at h
    cases h
    rfl

theorem fillRound1_id {s s' : Slate} {k : Keychain} {secKey secNonce sec : SecretKey}
    {participantId : Nat} {message : Option String} {w w' : Wallet}
    (h : fillRound1 W s k secKey secNonce participantId message w = (.ok (s', sec), w')) :
    s'.id = s.id := by
  obtain ⟨⟨s₁, sec₁⟩, w₁, ho, h₁⟩ := Prog.bind_ok.1 h
  have hid : s₁.id = s.id := by
    split at ho
    · obtain ⟨_, _, _, h₂⟩ := Prog.bind_ok.1 ho
      obtain ⟨_, _, _, h₃⟩ := Prog.bind_ok.1 h₂
      obtain ⟨_, _, _, h₄⟩ := Prog.bind_ok.1 h₃
      cases h₄
      rfl
    · cases ho
      rfl
  obtain ⟨s₂, w₂, ha, h₂⟩ := Prog.bind_ok.1 h₁
  cases h₂
  obtain ⟨_, _, _, h₃⟩ := Prog.bind_ok.1 ha
  obtain ⟨_, _, _, h₄⟩ := Prog.bind_ok.1 h₃
  obtain ⟨_, _, _, h₅⟩ := Prog.bind_ok.1 h₄
  cases h₅
  exact hid

theorem fillRound2_id {s s' : Slate} {secKey secNonce : SecretKey} {participantId : Nat}
    {w w' : Wallet} (h : fillRound2 W s secKey secNonce participantId w = (.ok s', w')) :
    s'.id = s.id := by
  obtain ⟨_, _, _, h⟩ := Prog.bind_ok.1 h
  obtain ⟨_, _, _, h⟩ := Prog.bind_ok.1 h
  obtain ⟨_, _, _, h⟩ := Prog.bind_ok.1 h
  obtain ⟨_, _, _, h⟩ := Prog.bind_ok.1 h
  obtain ⟨_, _, _, h⟩ := Prog.bind_ok.1 h
  obtain ⟨_, _, _, h⟩ := Prog.bind_ok.1 h
  obtain ⟨_, _, _, h⟩ := Prog.bind_ok.1 h
  obtain ⟨_, _, _, h⟩ := Prog.bind_ok.1 h
  cases h
  rfl

theorem finalizeTransaction_id {s s' : Slate} {sig : Signature} {w w' : Wallet}
    (h : finalizeTransaction W s sig w = (.ok s', w')) : s'.id = s.id := by
  obtain ⟨_, _, -, h⟩ := Prog.bind_ok.1 h
  obtain ⟨excess, _, -, h⟩ := Prog.bind_ok.1 h
  rcases hk : s.tx.kernels with _ | ⟨kernel, _ | ⟨k, l⟩⟩
  · rw [hk] at h
    cases h
  · rw [hk] at h
    obtain ⟨_, _, -, h⟩ := Prog.bind_ok.1 h
    obtain ⟨_, _, -, h⟩ := Prog.bind_ok.1 h
    cases h
    rfl
  · rw [hk] at h
    cases h

theorem finalize_id {s s' : Slate} {w w' : Wallet} (h : finalize W s w = (.ok s', w')) :
    s'.id = s.id := by
  obtain ⟨sig, _, -, h⟩ := Prog.bind_ok.1 h
  exact finalizeTransaction_id W h

end Slate

end EpicWallet
