import EpicWallet.Lib.Bits
import EpicWallet.Libwallet.Proof.FeeCheck
import EpicWallet.Libwallet.Proof.Message
import EpicWallet.Libwallet.Proof.Prepared

/-!
# Slates from other wallets

What a slate that another wallet sent can make the wallet panic with, once the wallet itself has room: a
message with an apostrophe, an amount and a fee that overflow together, and, where the slate is to be
finalized, a missing participant, a missing signature or a number of kernels other than one.

* `Foreign.receiveTx_total`, `Owner.finalizeTx_total`, `Foreign.finalizeInvoiceTx_total`: there is
  nothing else.
-/

namespace EpicWallet

open Lib WalletBackend

/-- Does not panic, whatever the wallet. -/
abbrev Safe {α : Type} (p : WalletM α) : Prop := Prog.Total (fun _ => True) p fun _ _ => True

/-- What the libraries promise about the messages and keys the wallet makes. -/
structure World.Signs (W : World) : Prop where
  message : ∀ f, f ≠ .coinbase → ∃ m, W.kernelSigMsg f = .ok m
  blinding : ∀ tx v id k r, W.partialTransaction tx [.output v id] k = .ok r →
    ∃ key, W.secretKey r.2 = .ok key
  hex : ∀ c, PlainText (W.commitmentToHex c)

section
variable {P : Wallet → Prop}

theorem safe_pure {α : Type} (a : α) : Safe (pure a : WalletM α) := .pure fun _ _ => trivial

theorem safe_ofExcept {α : Type} (x : Except Error α) : Safe (Prog.ofExcept x : WalletM α) :=
  .ofExcept fun _ _ _ _ => trivial

theorem Safe.bind {α β : Type} {p : WalletM α} {f : α → WalletM β} (hp : Safe p) (hf : ∀ a, Safe (f a)) :
    Safe (p >>= f) := Prog.Total.bind (R := fun _ _ => True) hp hf

theorem safe_nextTick : Safe nextTick := .of_ok fun w _ => ⟨w.tick, _, rfl, trivial⟩

/-- A step beside the store keeps what is said of the store. -/
theorem Safe.aside {α : Type} {p : WalletM α} (hp : Safe p) (hk : Prog.Keeps Aside p)
    (hP : ∀ w w', Aside w w' → P w → P w') : Prog.Total P p fun _ => P := hp.framed hk hP

end

/-! ## The rounds of a slate -/

namespace Slate

variable {W : World}

theorem msgToSign_ok (hW : W.Signs) (s : Slate) : ∃ m, s.msgToSign W = .ok m := by
  refine hW.message _ ?_
  unfold kernelFeatures
  split <;> nofun

theorem generateOffset_safe (s : Slate) (k : Keychain) (secKey : SecretKey) :
    Safe (generateOffset W s k secKey) :=
  safe_nextTick.bind fun _ => (safe_ofExcept _).bind fun _ => (safe_ofExcept _).bind fun _ => safe_pure _

theorem signMessage_safe (secKey : SecretKey) (pubKey : PublicKey) (message : Option String) :
    Safe (signMessage W secKey pubKey message) := by
  cases message with
  | none => exact safe_pure _
  | some m =>
    exact (safe_ofExcept _).bind fun _ => safe_nextTick.bind fun _ =>
      (safe_ofExcept _).bind fun _ => safe_pure _

theorem fillRound1_safe (s : Slate) (k : Keychain) (secKey secNonce : SecretKey) (participantId : Nat)
    (message : Option String) : Safe (fillRound1 W s k secKey secNonce participantId message) := by
  refine Safe.bind (.ite (fun _ => generateOffset_safe s k secKey) fun _ => safe_pure _) fun r => ?_
  refine Safe.bind ?_ fun _ => safe_pure _
  exact (safe_ofExcept _).bind fun _ => (safe_ofExcept _).bind fun _ =>
    (signMessage_safe _ _ _).bind fun _ => safe_pure _

/-- The fee and the amount of the slate can be added. -/
def FeeFits (s : Slate) : Prop := s.amount + s.fee < u64Size

theorem checkFees_safe {s : Slate} (h : s.FeeFits) : Safe (checkFees W s) := by
  refine .ite (fun _ => .throw _) fun _ => Safe.bind (.of_ok fun w _ => ?_) fun _ =>
    .ite (fun _ => .throw _) fun _ => safe_pure _
  exact ⟨_, w, addU64_ok.2 ⟨rfl, h, rfl⟩, trivial⟩

theorem verifyPartSigs_safe (hW : W.Signs) (s : Slate) : Safe (verifyPartSigs W s) := by
  refine Prog.Total.forEach (I := fun _ _ => True) (fun p l => ?_) s.participantData
  unfold verifyPartSig
  split
  · exact safe_pure _
  · refine (safe_ofExcept _).bind fun _ => (safe_ofExcept _).bind fun _ => Safe.bind ?_ fun _ =>
      safe_ofExcept _
    obtain ⟨m, hm⟩ := msgToSign_ok hW s
    refine .orPanic fun w _ => ⟨m, w, ?_, trivial⟩
    rw [hm]
    rfl

/-- The wallet's signature finds its place: its participant is listed, or the list is as long as it says. -/
def Seats (participantId : Nat) (s : Slate) : Prop :=
  (∃ p ∈ s.participantData, p.id = participantId) ∨ s.numParticipants ≤ s.participantData.length

theorem setPartSig_isSome {participantId : Nat} (sig : Signature) :
    ∀ {n : Nat} {l : List ParticipantData}, (∃ p ∈ l, p.id = participantId) ∨ n ≤ l.length →
      ∃ l', setPartSig participantId sig n l = some l'
  | 0, l, _ => ⟨l, rfl⟩
  | n + 1, [], h => by
    rcases h with ⟨p, hp, -⟩ | hlen
    · cases hp
    · simp at hlen
  | n + 1, p :: l, h => by
    unfold setPartSig
    split
    · exact ⟨_, rfl⟩
    · next hne =>
      have hrest : (∃ p ∈ l, p.id = participantId) ∨ n ≤ l.length := by
        rcases h with ⟨q, hq, hid⟩ | hlen
        · rcases List.mem_cons.1 hq with rfl | hq
          · exact absurd hid hne
          · exact .inl ⟨q, hq, hid⟩
        · simp only [List.length_cons, Nat.add_le_add_iff_right] at hlen
          exact .inr hlen
      obtain ⟨l', hl'⟩ := setPartSig_isSome sig hrest
      exact ⟨p :: l', by rw [hl']; rfl⟩

theorem fillRound2_safe (hW : W.Signs) {s : Slate} (hsum : s.FeeFits) {participantId : Nat}
    (hseat : s.Seats participantId) (secKey secNonce : SecretKey) :
    Safe (fillRound2 W s secKey secNonce participantId) := by
  refine (checkFees_safe hsum).bind fun _ => (verifyPartSigs_safe hW s).bind fun _ =>
    (safe_ofExcept _).bind fun _ => (safe_ofExcept _).bind fun _ => (safe_ofExcept _).bind fun _ =>
      (safe_ofExcept _).bind fun sig => Safe.bind (.of_ok fun w _ => ⟨(), _, rfl, trivial⟩) fun _ =>
        Safe.bind (.unwrap fun _ _ => ?_) fun _ => safe_pure _
  obtain ⟨l', hl'⟩ := setPartSig_isSome sig hseat
  exact ⟨l', hl', trivial⟩

/-- Every participant has a signature. -/
def Signed (s : Slate) : Prop := ∀ p ∈ s.participantData, p.partSig.isSome

theorem finalizeSignature_safe (hW : W.Signs) {s : Slate} (h : s.Signed) : Safe (finalizeSignature W s) := by
  refine (verifyPartSigs_safe hW s).bind fun _ => Safe.bind (.unwrap fun _ _ => ?_) fun _ =>
    (safe_ofExcept _).bind fun _ => (safe_ofExcept _).bind fun _ => (safe_ofExcept _).bind fun _ =>
      (safe_ofExcept _).bind fun _ => (safe_ofExcept _).bind fun _ => safe_pure _
  obtain ⟨sigs, hsigs⟩ := Option.isSome_iff_exists.1 (Lib.mapM_isSome_iff.2 h)
  exact ⟨sigs, hsigs, trivial⟩

theorem finalizeTransaction_safe {s : Slate} (hfee : s.FeeFits) (hkernels : s.tx.kernels.length = 1)
    (sig : Signature) : Safe (finalizeTransaction W s sig) := by
  refine (checkFees_safe hfee).bind fun _ => (safe_ofExcept _).bind fun _ => ?_
  obtain ⟨kernel, hkernel⟩ := List.length_eq_one_iff.1 hkernels
  rw [hkernel]
  exact (safe_ofExcept _).bind fun _ => (safe_ofExcept _).bind fun _ => safe_pure _

/-- Adding elements changes the transaction alone. -/
theorem addTransactionElements_tx {s : Slate} {k : Keychain} {elems : List Append} {r : Slate × BlindingFactor}
    (h : s.addTransactionElements W k elems = .ok r) :
    ∃ tx, W.partialTransaction (s.updateKernel W).tx elems k = .ok (tx, r.2) ∧ r.1 = { s with tx } := by
  unfold addTransactionElements at h
  dsimp only at h
  rcases ht : W.partialTransaction (s.updateKernel W).tx elems k with e | ⟨tx, b⟩
  · rw [ht] at h
    cases h
  · rw [ht] at h
    cases h
    exact ⟨tx, rfl, rfl⟩

/-- Round 1 adds the participant. -/
theorem fillRound1_adds (s : Slate) (k : Keychain) (secKey secNonce : SecretKey) (participantId : Nat)
    (message : Option String) :
    Prog.Returns (fillRound1 W s k secKey secNonce participantId message) fun r =>
      ∃ p, r.1.participantData = s.participantData ++ [p] ∧ p.id = participantId := by
  refine Prog.Returns.bind (φ := fun r => r.1.participantData = s.participantData) ?_ fun r hr => ?_
  · exact .ite (fun _ => .next fun _ => .next fun _ => .next fun _ => .pure rfl) fun _ => .pure rfl
  · refine Prog.Returns.bind (φ := fun s' : Slate => ∃ p, s'.participantData = s.participantData ++ [p] ∧
      p.id = participantId) ?_ fun s' hs' => .pure hs'
    exact .next fun _ => .next fun _ => .next fun _ => .pure ⟨_, by rw [hr], rfl⟩

/-- No message of the slate has an apostrophe. -/
def PlainMessages (s : Slate) : Prop := ∀ m, some m ∈ s.messages → PlainText m

theorem PlainMessages.strings {s : Slate} (h : s.PlainMessages) :
    ∀ m ∈ s.participantMessages.strings, PlainText m := by
  intro m hm
  refine h m ?_
  simpa [ParticipantMessages.strings, participantMessages, messages,
    ParticipantMessageData.fromParticipantData] using hm

end Slate

/-! ## The entries of a slate -/

section
variable {W : World} {mask : Option SecretKey}

theorem retrieveTxs_total (txId : Option Nat) (txSlateId : Option Uuid) (parent : Option Identifier) :
    Prog.Total (fun w => SoundRows w.db) (Updater.retrieveTxs txId txSlateId parent false none none none)
      fun r w => SoundRows w.db ∧ ∀ t ∈ r.2.2, (Serializable.txLogEntry t).Plain ∧
        ∀ u, txSlateId = some u → t.txSlateId = some u := by
  refine .of_ok fun w hw => ?_
  obtain ⟨n, l, hl, hmem⟩ := Updater.retrieveTxs_all txId txSlateId parent false none w
  refine ⟨_, w, hl, hw, fun t ht => ?_⟩
  obtain ⟨hlog, -, -, hslate, -⟩ := Updater.mem_selectedTxs.1 ((hmem t).1 ht)
  obtain ⟨p, i, hrow⟩ := mem_txLogOf.1 hlog
  exact ⟨(hw _ _ hrow).2, hslate⟩

theorem updateEntries_total {s : Slate} {parent : Option Identifier} {f : TxLogEntry → TxLogEntry}
    (hf : ∀ t, (Serializable.txLogEntry t).Plain → (Serializable.txLogEntry (f t)).Plain) :
    Prog.Total (fun w => SoundRows w.db) (Tx.updateEntries W mask s parent f) fun _ w =>
      SoundRows w.db := by
  refine (retrieveTxs_total none (some s.id) parent).bind fun r => .of_and fun hr => ?_
  refine .ite (fun _ => .throw _) fun _ => batch_total.bind fun _ => ?_
  refine Prog.Total.bind (R := fun _ w => SoundRows w.db) ?_ fun _ => .pure fun _ h => h
  refine (Prog.Total.forEach (I := fun l w => SoundRows w.db ∧ ∀ t ∈ l, (Serializable.txLogEntry t).Plain)
    (fun t l => .of_and fun hl => ?_) r.2.2).mono (fun w hw => ⟨hw, fun t ht => (hr t ht).1⟩)
    fun _ _ h => h.1
  have hplain := hf t (hl t List.mem_cons_self)
  exact put_total fun w hw => ⟨hplain, hw.put trivial hplain, fun t' ht' => hl t' (List.mem_cons_of_mem _ ht')⟩

theorem updateMessage_total {s : Slate} (h : s.PlainMessages) :
    Prog.Total (fun w => SoundRows w.db) (Tx.updateMessage W mask s) fun _ w => SoundRows w.db := by
  refine updateEntries_total fun t ht m hm => ?_
  simp only [Serializable.strings, Option.map_some, Option.getD_some, List.mem_append] at hm
  rcases hm with (hm | hm) | hm
  · exact h.strings m hm
  · exact ht m (by simp [Serializable.strings, hm])
  · exact ht m (by simp [Serializable.strings, hm])

theorem updatePublicAddr_total {s : Slate} {addr : Option String} {parent : Option Identifier}
    (h : ∀ m ∈ addr.toList, PlainText m) :
    Prog.Total (fun w => SoundRows w.db) (Tx.updatePublicAddr W mask s addr parent) fun _ w =>
      SoundRows w.db := by
  refine updateEntries_total fun t ht m hm => ?_
  simp only [Serializable.strings, List.mem_append] at hm
  rcases hm with (hm | hm) | hm
  · exact ht m (by simp [Serializable.strings, hm])
  · exact ht m (by simp [Serializable.strings, hm])
  · exact h m hm

end

/-! ## Receiving -/

/-- What receiving needs of the wallet: the mask opens it, the active account has a child left, the account
that receives a log id, and the output history has room. -/
structure Foreign.Receptive (W : World) (mask : Option SecretKey) (parent : Identifier) (w : Wallet) :
    Prop where
  opens : ∃ k, unmasked W w mask = .ok k
  child : ∃ key, w.parentKeyId.child (childIndex w.db w.parentKeyId) = some key
  index : childIndex w.db w.parentKeyId + 1 < u32Size
  logId : Selection.nextLogId w.db parent + 1 < u32Size
  depth : parent.depth < 4
  roomy : Roomy 1 w

section
variable {W : World} {mask : Option SecretKey} {parent : Identifier}

/-- The next child, where there is one. -/
theorem nextChild_of {w : Wallet} {k : Keychain} {key : Identifier} (hk : unmasked W w mask = .ok k)
    (hchild : w.parentKeyId.child (childIndex w.db w.parentKeyId) = some key)
    (hindex : childIndex w.db w.parentKeyId + 1 < u32Size) :
    nextChild W mask w = (.ok key, { w with
      db := w.db.put (.deriv w.parentKeyId) (.numeric (childIndex w.db w.parentKeyId + 1)) }) := by
  have hbatch : keychain W mask w = (.ok k, w) := by
    rw [keychain_apply, hk]
    rfl
  have hread : currentChildIndex w.parentKeyId w = (.ok (childIndex w.db w.parentKeyId), w) := rfl
  unfold nextChild
  refine (Prog.bind_of_ok (rfl : parentKeyId w = (.ok w.parentKeyId, w))).trans ?_
  rw [Prog.bind_of_ok hread, hchild]
  refine (Prog.bind_of_ok (Prog.pure_apply key w)).trans ?_
  rw [Prog.bind_of_ok (addU32_ok.2 ⟨rfl, hindex, rfl⟩)]
  refine (Prog.bind_of_ok ((Prog.bind_of_ok hbatch).trans rfl)).trans ?_
  exact (Prog.bind_of_ok (put_ok.2 ⟨numeric_plain _, rfl⟩)).trans rfl

/-- Room for an output and an entry of the account. -/
def Spacious (parent : Identifier) (w : Wallet) : Prop :=
  Roomy 1 w ∧ Selection.nextLogId w.db parent + 1 < u32Size

theorem newContext_total {b : BlindingFactor} {key : SecretKey} (hkey : W.secretKey b = .ok key) (n : Nat) :
    Prog.Total (Spacious parent) (Selection.newContext W b parent n) fun _ => Spacious parent := by
  refine Prog.Total.bind (R := fun _ => Spacious parent) (.orPanic fun w hw => ⟨key, w, ?_, hw⟩)
    fun key => ?_
  · rw [hkey]
    rfl
  · exact Prog.Total.bind (R := fun _ => Spacious parent)
      (.of_ok fun w hw => ⟨w.tick, _, rfl, ⟨hw.1.history, hw.1.sound⟩, hw.2⟩) fun t => .pure fun _ h => h

theorem newReceiveEntry_plain {s : Slate} (h : s.PlainMessages) (logId : Nat) (now : DateTime) :
    (Serializable.txLogEntry (Selection.newReceiveEntry W s s.participantMessages parent logId now)).Plain := by
  intro m hm
  have hm : m ∈ s.participantMessages.strings := by
    simpa [Serializable.strings, Selection.newReceiveEntry, TxLogEntry.new] using hm
  exact h.strings m hm

theorem buildRecipientOutput_total (hW : W.Signs) {s : Slate} (hs : s.PlainMessages) :
    Prog.Total (Foreign.Receptive W mask parent) (Selection.buildRecipientOutput W mask s parent)
      fun r w => SoundRows w.db ∧ ∃ tx, r.1 = { s with tx } := by
  refine Prog.Total.bind (R := fun _ => Spacious parent) (.orPanic fun w hw => ?_) fun key => ?_
  · obtain ⟨k, hk⟩ := hw.opens
    obtain ⟨key, hkey⟩ := hw.child
    refine ⟨key, _, nextChild_of hk hkey hw.index, hw.roomy.put trivial (numeric_plain _) (by simp), ?_⟩
    have hlog : numericOf (w.db.put (.deriv w.parentKeyId)
        (.numeric (childIndex w.db w.parentKeyId + 1))) (.txLogId parent) = numericOf w.db (.txLogId parent) := by
      unfold numericOf
      rw [Rows.get_put_ne _ _ (by simp)]
    unfold Selection.nextLogId
    rw [hlog]
    exact hw.logId
  refine keychain_total.bind fun k => ?_
  refine Prog.Total.bind (R := fun r w => Spacious parent w ∧
    s.addTransactionElements W k [.output s.amount key] = .ok r)
    (.ofExcept fun w r hw hr => ⟨hw, hr⟩) fun r => .of_and fun hadd => ?_
  obtain ⟨tx, htx, hr⟩ := Slate.addTransactionElements_tx hadd
  obtain ⟨key', hkey'⟩ := hW.blinding _ _ _ _ _ htx
  have hplain : r.1.PlainMessages := hr ▸ hs
  refine keychain_total.bind fun _ => (newContext_total hkey' 1).bind fun c => ?_
  refine (calcCommitForCache_total r.1.amount key).bind fun commit => .of_and fun hcommit => ?_
  obtain ⟨commit', rfl⟩ := hcommit
  refine batch_total.bind fun _ => ?_
  refine Prog.Total.bind (R := fun _ => Roomy 1) (.of_ok fun w hw => ?_) fun logId => ?_
  · exact ⟨_, _, Batch.nextTxLogId_of_lt hw.2, hw.1.put trivial (numeric_plain _) (by simp)⟩
  refine Prog.Total.bind (R := fun _ => Roomy 1)
    (.of_ok fun w hw => ⟨w.tick, _, rfl, ⟨hw.history, hw.sound⟩⟩) fun tick => ?_
  refine (Batch.save_total (n := 0) fun m hm => ?_).bind fun _ => ?_
  · simp only [Serializable.strings, Selection.recipientOutput, Option.toList_some,
      List.mem_singleton] at hm
    exact hm ▸ hW.hex commit'
  · have hentry : (Serializable.txLogEntry (Selection.newReceiveEntry W r.1 r.1.participantMessages parent
        logId (W.now tick))).Plain := newReceiveEntry_plain hplain logId _
    refine Prog.Total.bind (R := fun _ w => SoundRows w.db)
      (put_total fun w hw => ⟨hentry, by exact hw.sound.put trivial hentry⟩) fun _ => ?_
    exact Prog.Total.bind (R := fun _ w => SoundRows w.db) (.pure fun _ h => h) fun _ =>
      .pure fun w hw => ⟨hw, tx, hr⟩

theorem addOutputToSlate_total (hW : W.Signs) {s : Slate} (hs : s.PlainMessages) (hfee : s.FeeFits)
    {message : Option String} (hm : ∀ m ∈ message.toList, PlainText m) :
    Prog.Total (Foreign.Receptive W mask parent) (Tx.addOutputToSlate W mask s parent 1 message false)
      fun r w => SoundRows w.db ∧ r.1.PlainMessages := by
  refine (buildRecipientOutput_total hW hs).bind fun r => .of_and fun hr => ?_
  obtain ⟨tx, hr⟩ := hr
  have hkeep : ∀ w w' : Wallet, Aside w w' → SoundRows w.db → SoundRows w'.db := fun _ _ h hw => h.db ▸ hw
  refine keychain_total.bind fun k => ?_
  -- what round 1 returns
  have hround : ∀ secKey secNonce, Prog.Returns (r.1.fillRound1 W k secKey secNonce 1 message) fun r₁ =>
      r₁.1.FeeFits ∧ r₁.1.Seats 1 ∧ r₁.1.messages = s.messages ++ [message] := by
    intro secKey secNonce w r₁ w' hrun
    have hbody := Slate.fillRound1_sameBody hrun
    obtain ⟨p, hdata, hid⟩ := Slate.fillRound1_adds _ _ _ _ _ _ _ _ _ hrun
    refine ⟨?_, .inl ⟨p, by simp [hdata], hid⟩, ?_⟩
    · unfold Slate.FeeFits at hfee ⊢
      rwa [hbody.amount, hbody.fee, hr]
    · rw [fillRound1_messages _ _ _ _ _ _ _ _ _ hrun, hr]
      rfl
  refine (((Slate.fillRound1_safe r.1 k r.2.2.secKey r.2.2.secNonce 1 message).aside
    (Slate.fillRound1_aside W _ _ _ _ _ _) hkeep).returns (hround _ _)).bind fun r₁ => .of_and fun hr₁ => ?_
  obtain ⟨hfits, hseats, hadded⟩ := hr₁
  dsimp only
  rw [if_neg Bool.false_ne_true]
  refine keychain_total.bind fun _ => ?_
  refine (((Slate.fillRound2_safe hW hfits hseats r₁.2 r.2.2.secNonce).aside
    (Slate.fillRound2_aside W _ _ _ _) hkeep).returns (fillRound2_messages _ _ _ _)).bind fun s₂ => ?_
  refine .of_and fun hs₂ => .pure fun w hw => ⟨hw, fun m hmem => ?_⟩
  rw [hs₂, hadded, List.mem_append, List.mem_singleton] at hmem
  rcases hmem with hmem | rfl
  · exact hs m hmem
  · exact hm m (by simp)

theorem checkTtl_total (s : Slate) {P : Wallet → Prop} : Prog.Total P (checkTtl s) fun _ => P := by
  intro w hw
  rcases checkTtl_apply s w with ⟨hrun, -⟩ | ⟨hrun, -⟩
  · rw [hrun]
    trivial
  · rw [hrun]
    exact hw

/-- Where receiving a slate panics, for a wallet that has room: the message of the wallet is cut inside a
character, a text has an apostrophe, or the amount and the fee of the slate overflow. -/
theorem Foreign.receiveTx_total (hW : W.Signs) {s : Slate} {name message addr : Option String}
    (hs : s.PlainMessages) (hfee : s.FeeFits) (hcut : FitsLimit message)
    (hm : ∀ m ∈ message.toList, PlainText m) (ha : ∀ m ∈ addr.toList, PlainText m) :
    Prog.Total (fun w => Foreign.Receptive W mask (accountOf w name) w)
      (Foreign.receiveTx W mask s name message addr) fun _ _ => True := by
  refine (checkTtl_total s).bind fun _ => ?_
  refine Prog.Total.bind (R := fun p w => Foreign.Receptive W mask p w ∧ p.depth < 4)
    (.of_ok fun w hw => ⟨_, w, accountNamed_apply name w, hw, hw.depth⟩) fun p => .of_and fun hdepth => ?_
  refine Prog.Total.bind (R := fun _ w => Foreign.Receptive W mask p w) (.of_ok fun w hw => ?_) fun txs => ?_
  · obtain ⟨n, l, hl, -⟩ := Updater.retrieveTxs_all none (some s.id) (some p) false none w
    exact ⟨_, w, hl, hw⟩
  refine .ite (fun _ => .throw _) fun _ => ?_
  refine Prog.Total.bind (R := fun kept w => Foreign.Receptive W mask p w ∧ ∀ m ∈ kept.toList, PlainText m)
    ?_ fun kept => .of_and fun hkept => ?_
  · refine .intro (fun w kept w' hw hrun => ⟨?_, fun m hmem => ?_⟩) fun w w' hw hrun => ?_
    · obtain rfl := (truncateMessage_reads message).eq hrun
      exact hw
    · have hcut := truncateMessage_cut message _ _ _ hrun
      cases message with
      | none =>
        rw [show kept = none from hcut] at hmem
        cases hmem
      | some given =>
        obtain ⟨m', rfl, hinit, -⟩ := hcut
        rw [Option.toList_some, List.mem_singleton] at hmem
        exact fun hquote => hm given (by simp) (hinit.subset (hmem ▸ hquote))
    · obtain rfl := (truncateMessage_reads message).eq hrun
      exact (truncateMessage_panics_iff message _).1 hrun hcut
  refine (addOutputToSlate_total hW hs hfee hkept).bind fun r => .of_and fun hr => ?_
  refine (updateMessage_total hr).bind fun _ => (updatePublicAddr_total ha).bind fun _ => ?_
  refine keychain_total.bind fun k => Prog.Total.bind (R := fun _ _ => True)
    (.ofExcept fun _ _ _ _ => trivial) fun excess => ?_
  unfold Foreign.signProof
  split
  · exact .pure fun _ _ => trivial
  · exact (Address.address_total hdepth 0).bind fun _ => .pure fun _ _ => trivial

/-! ## Finalizing -/

/-- The wallet's participant is among those counted, and every other has signed. -/
def Slate.Awaits (participantId : Nat) (s : Slate) : Prop :=
  ∃ before p after, s.participantData = before ++ p :: after ∧ p.id = participantId ∧
    (∀ q ∈ before, q.id ≠ participantId) ∧ before.length < s.numParticipants ∧
    ∀ q ∈ before ++ after, q.partSig.isSome

theorem setPartSig_append {participantId : Nat} {sig : Signature} {p : ParticipantData}
    {after : List ParticipantData} (hp : p.id = participantId) :
    ∀ {n : Nat} {before : List ParticipantData}, (∀ q ∈ before, q.id ≠ participantId) → before.length < n →
      Slate.setPartSig participantId sig n (before ++ p :: after) =
        some (before ++ { p with partSig := some sig } :: after)
  | n + 1, [], _, _ => by simp [Slate.setPartSig, hp]
  | n + 1, q :: before, hne, hlen => by
    rw [List.cons_append, Slate.setPartSig, if_neg (hne q List.mem_cons_self),
      setPartSig_append hp (fun q' hq' => hne q' (List.mem_cons_of_mem _ hq'))
        (by simpa using hlen)]
    rfl

/-- A slate the wallet can complete: its kernel is the only one, and the amount and the fee do not overflow. -/
structure Slate.Finishable (participantId : Nat) (s : Slate) : Prop where
  awaits : s.Awaits participantId
  fits : s.FeeFits
  kernel : s.tx.kernels.length = 1

theorem finalizeTransaction_tx (s : Slate) (sig : Signature) :
    Prog.Returns (Slate.finalizeTransaction W s sig) fun r =>
      r.tx.kernels.length = 1 ∧ r.messages = s.messages := by
  refine .next fun _ => .next fun _ => ?_
  split
  · exact .next fun _ => .next fun _ => .pure ⟨rfl, rfl⟩
  · exact fun _ _ _ h => by cases h

theorem fillRound2_signs {s : Slate} {participantId : Nat} (h : s.Finishable participantId)
    (secKey secNonce : SecretKey) :
    Prog.Returns (Slate.fillRound2 W s secKey secNonce participantId) fun r =>
      r.Signed ∧ r.FeeFits ∧ r.tx.kernels.length = 1 ∧ r.messages = s.messages := by
  intro w r w' hrun
  have hbody := Slate.fillRound2_sameBody hrun
  refine ⟨?_, ?_, by rw [hbody.kernels, h.kernel], fillRound2_messages _ _ _ _ _ _ _ hrun⟩
  · obtain ⟨before, p, after, hdata, hp, hne, hlen, hsigned⟩ := h.awaits
    obtain ⟨_, w₁, -, h₁⟩ := Prog.bind_ok.1 hrun
    obtain ⟨_, w₂, -, h₂⟩ := Prog.bind_ok.1 h₁
    obtain ⟨_, w₃, -, h₃⟩ := Prog.bind_ok.1 h₂
    obtain ⟨_, w₄, -, h₄⟩ := Prog.bind_ok.1 h₃
    obtain ⟨_, w₅, -, h₅⟩ := Prog.bind_ok.1 h₄
    obtain ⟨sig, w₆, -, h₆⟩ := Prog.bind_ok.1 h₅
    obtain ⟨_, w₇, -, h₇⟩ := Prog.bind_ok.1 h₆
    obtain ⟨l, w₈, hl, h₈⟩ := Prog.bind_ok.1 h₇
    cases h₈
    rw [hdata, setPartSig_append hp hne hlen] at hl
    obtain ⟨hl, -⟩ := Prog.unwrap_eq_ok.1 hl
    cases hl
    intro q hq
    rcases List.mem_append.1 hq with hq | hq
    · exact hsigned q (List.mem_append_left _ hq)
    · rcases List.mem_cons.1 hq with rfl | hq
      · rfl
      · exact hsigned q (List.mem_append_right _ hq)
  · unfold Slate.FeeFits
    rw [hbody.amount, hbody.fee]
    exact h.fits

theorem completeTx_safe (hW : W.Signs) {s : Slate} {participantId : Nat} (h : s.Finishable participantId)
    (c : Context) : Safe (Tx.completeTx W mask s participantId c) := by
  have hseats : s.Seats participantId := by
    obtain ⟨before, p, after, hdata, hp, -⟩ := h.awaits
    exact .inl ⟨p, by simp [hdata], hp⟩
  refine keychain_total.bind fun _ => ((Slate.fillRound2_safe hW h.fits hseats _ _).returns
    (fillRound2_signs h _ _)).bind fun r => .of_and fun hr => ?_
  obtain ⟨hsigned, hfits, hkernel, -⟩ := hr
  exact keychain_total.bind fun _ => (Slate.finalizeSignature_safe hW hsigned).bind fun sig =>
    Slate.finalizeTransaction_safe hfits hkernel sig

theorem completeTx_returns {s : Slate} {participantId : Nat} (h : s.Finishable participantId) (c : Context) :
    Prog.Returns (Tx.completeTx W mask s participantId c) fun r =>
      r.tx.kernels.length = 1 ∧ r.messages = s.messages := by
  refine .next fun _ => (fillRound2_signs h _ _).bind fun r hr => .next fun _ => .next fun sig => ?_
  exact (finalizeTransaction_tx r sig).mono fun r' hr' => ⟨hr'.1, hr'.2.trans hr.2.2.2⟩

/-- Sound rows, and an active account that has addresses. -/
def Sound (w : Wallet) : Prop := SoundRows w.db ∧ w.parentKeyId.depth < 4

theorem sound_aside (w w' : Wallet) (h : Aside w w') (hw : Sound w) : Sound w' := by
  rw [h]
  exact hw

theorem getPrivateContext_total (id : Uuid) (n : Nat) :
    Prog.Total Sound (getPrivateContext W mask id n) fun _ => Sound := by
  refine keychain_total.bind fun k => Prog.Total.bind (R := fun _ => Sound) (.ofExcept fun _ _ h _ => h)
    fun keys w hw => ?_
  rw [Prog.bind_of_ok (rows_apply w)]
  rcases hrow : w.db.get (.privateTxContext id n) with _ | v
  · trivial
  · have hfits := (hw.1 _ _ hrow).1
    cases v with
    | context c => exact hw
    | _ => exact hfits.elim

theorem verifyProofInfo_total {c : Context} {s : Slate} {p : PaymentInfo} {orig : StoredProofInfo}
    {parent : Identifier} (hparent : parent.depth < 4) :
    Prog.Total Sound (Tx.verifyProofInfo W mask parent c s p orig) fun _ => Sound := by
  refine keychain_total.bind fun k => Prog.Total.bind (R := fun _ => Sound) ?_ fun index =>
    (Address.address_total hparent index).bind fun key => ?_
  · split
    · exact .pure fun _ h => h
    · exact .throw _
  refine .ite (fun _ => .throw _) fun _ => .ite (fun _ => .throw _) fun _ =>
    Prog.Total.bind (R := fun _ => Sound) (.ofExcept fun _ _ h _ => h) fun excess => ?_
  split
  · exact .throw _
  · exact .ite (fun _ => .pure fun _ h => h) fun _ => .throw _

theorem verifySlatePaymentProof_total {c : Context} {s : Slate} {parent : Identifier}
    (hparent : parent.depth < 4) :
    Prog.Total Sound (Tx.verifySlatePaymentProof W mask parent c s) fun _ => Sound := by
  refine Prog.Total.bind (R := fun _ => Sound) (.of_ok fun w hw => ?_) fun txs => ?_
  · obtain ⟨n, l, hl, -⟩ := Updater.retrieveTxs_all none (some s.id) (some parent) false none w
    exact ⟨_, w, hl, hw⟩
  split
  · exact .throw _
  · refine .ite (fun _ => .throw _) fun _ => ?_
    split
    · exact .pure fun _ h => h
    · split
      · exact .throw _
      · exact verifyProofInfo_total hparent

theorem signedProofInfo_total {c : Context} {s : Slate} {p : PaymentInfo} :
    Prog.Total Sound (Tx.signedProofInfo W mask c s p) fun _ => Sound := by
  refine keychain_total.bind fun k => Prog.Total.bind (R := fun parent w => Sound w ∧ parent.depth < 4)
    (.of_ok fun w hw => ⟨w.parentKeyId, w, rfl, hw, hw.2⟩) fun parent => .of_and fun hparent => ?_
  exact Prog.Total.bind (R := fun _ => Sound) (.ofExcept fun _ _ h _ => h) fun excess =>
    (Address.address_total hparent _).bind fun key => .pure fun _ h => h

theorem updateStoredTx_total {c : Context} {s : Slate} {isInvoiced : Bool}
    (hkernel : s.tx.kernels.length = 1) :
    Prog.Total Sound (Tx.updateStoredTx W mask c s isInvoiced) fun _ w => SoundRows w.db := by
  refine Prog.Total.bind (R := fun r w => Sound w ∧ ∀ t ∈ r.2.2, (Serializable.txLogEntry t).Plain ∧
    t.txSlateId = some s.id) ?_ fun r => .of_and fun hr => ?_
  · refine .of_ok fun w hw => ?_
    obtain ⟨n, l, hl, hmem⟩ := Updater.retrieveTxs_all none (some s.id) none false none w
    refine ⟨_, w, hl, hw, fun t ht => ?_⟩
    obtain ⟨hlog, -, -, hslate, -⟩ := Updater.mem_selectedTxs.1 ((hmem t).1 ht)
    obtain ⟨p, i, hrow⟩ := mem_txLogOf.1 hlog
    exact ⟨(hw.1 _ _ hrow).2, hslate _ rfl⟩
  split
  · exact .throw _
  · next tx htx =>
    obtain ⟨hplain, hslate⟩ := hr tx (List.mem_of_find?_eq_some htx)
    refine Prog.Total.bind (R := fun _ => Sound) (.unwrap fun w hw => ⟨s.id, hslate, hw⟩) fun id => ?_
    refine Prog.Total.bind (R := fun _ => Sound) ?_ fun _ => ?_
    · refine Prog.Total.bind (R := fun _ => Sound) (.of_ok fun w hw => ⟨w.tick, _, rfl, hw⟩) fun _ =>
        Prog.Total.bind (R := fun _ => Sound) (.ofExcept fun _ _ h _ => h) fun _ =>
          .of_ok fun w hw => ⟨(), _, rfl, hw⟩
    obtain ⟨kernel, hone⟩ := List.length_eq_one_iff.1 hkernel
    refine Prog.Total.bind (R := fun _ => Sound) (.unwrap fun w hw => ⟨kernel, by rw [hone]; rfl, hw⟩)
      fun kernel => ?_
    refine Prog.Total.bind (R := fun t w => Sound w ∧ (Serializable.txLogEntry t).Plain) ?_ fun _ =>
      .of_and fun ht => batch_total.bind fun _ => Prog.Total.bind (R := fun _ w => SoundRows w.db)
        (put_total fun w hw => ⟨ht, by exact hw.1.put trivial ht⟩) fun _ => .pure fun _ h => h
    split
    · exact signedProofInfo_total.bind fun proof => .pure fun w hw => ⟨hw, hplain⟩
    · exact .pure fun w hw => ⟨hw, hplain⟩

theorem deleteContext_total (id : Uuid) (n : Nat) :
    Prog.Total (fun w => SoundRows w.db) (Owner.deleteContext W mask id n) fun _ _ => True :=
  batch_total.bind fun _ => Prog.Total.bind (R := fun _ _ => True) (.of_ok fun _ _ => ⟨(), _, rfl, trivial⟩)
    fun _ => .pure fun _ _ => trivial

/-- What both ways to finalize a slate end with. -/
theorem storeFinalized_total {c : Context} {s : Slate} {isInvoiced : Bool} {n : Nat}
    (hkernel : s.tx.kernels.length = 1) (hs : s.PlainMessages) :
    Prog.Total Sound (do
      Tx.updateStoredTx W mask c s isInvoiced
      Tx.updateMessage W mask s
      Owner.deleteContext W mask s.id n
      pure s) fun _ _ => True :=
  (updateStoredTx_total hkernel).bind fun _ => (updateMessage_total hs).bind fun _ =>
    (deleteContext_total s.id n).bind fun _ => .pure fun _ _ => trivial

theorem completeTx_total (hW : W.Signs) {s : Slate} {n : Nat} (hs : s.PlainMessages) (h : s.Finishable n)
    (c : Context) : Prog.Total Sound (Tx.completeTx W mask s n c) fun r w =>
      Sound w ∧ r.tx.kernels.length = 1 ∧ r.PlainMessages :=
  (((completeTx_safe hW h c).aside (Tx.completeTx_aside W _ _ _ _) sound_aside).returns
    (completeTx_returns h c)).mono (fun _ h => h) fun _ _ hr =>
      ⟨hr.1, hr.2.1, fun m hm => hs m (hr.2.2 ▸ hm)⟩

/-- Finalizing a slate the wallet can complete does not panic. -/
theorem Owner.finalizeTx_total (hW : W.Signs) {s : Slate} (hs : s.PlainMessages) (h : s.Finishable 0) :
    Prog.Total Sound (Owner.finalizeTx W mask s) fun _ _ => True := by
  refine (checkTtl_total s).bind fun _ => (getPrivateContext_total s.id 0).bind fun c => ?_
  refine Prog.Total.bind (R := fun parent w => Sound w ∧ parent.depth < 4)
    (.of_ok fun w hw => ⟨w.parentKeyId, w, rfl, hw, hw.2⟩) fun parent => .of_and fun hparent => ?_
  refine (completeTx_total hW hs h c).bind fun r => .of_and fun hr => ?_
  exact (verifySlatePaymentProof_total hparent).bind fun _ => storeFinalized_total hr.1 hr.2

theorem Foreign.finalizeInvoiceTx_total (hW : W.Signs) {s : Slate} (hs : s.PlainMessages)
    (h : s.Finishable 1) : Prog.Total Sound (Foreign.finalizeInvoiceTx W mask s) fun _ _ => True :=
  (checkTtl_total s).bind fun _ => (getPrivateContext_total s.id 1).bind fun c =>
    (completeTx_total hW hs h c).bind fun _ => .of_and fun hr => storeFinalized_total hr.1 hr.2

end

/-! ## Any reachable wallet -/

theorem Identifier.child_of_depth {p : Identifier} (hp : p.depth < 4) (n : Nat) : ∃ id, p.child n = some id := by
  obtain ⟨depth, p0, p1, p2, p3⟩ := p
  unfold Identifier.child Identifier.setPath
  rcases depth with _ | _ | _ | _ | depth
  · exact ⟨_, rfl⟩
  · exact ⟨_, rfl⟩
  · exact ⟨_, rfl⟩
  · exact ⟨_, rfl⟩
  · dsimp only at hp
    omega

/-- The wallet cannot receive for the account: the mask does not open it, a path is too deep to be an
account's, or a counter is at its bound. -/
def Foreign.Unreceptive (W : World) (mask : Option SecretKey) (parent : Identifier) (w : Wallet) : Prop :=
  (∀ k, unmasked W w mask ≠ .ok k) ∨ 4 ≤ w.parentKeyId.depth ∨ 4 ≤ parent.depth ∨
    u32Size ≤ childIndex w.db w.parentKeyId + 1 ∨ u32Size ≤ Selection.nextLogId w.db parent + 1 ∨
    u32Size ≤ asU32 (numericOf w.db .outputHistoryId) + 1

theorem Foreign.receptive_of_not {W : World} {mask : Option SecretKey} {parent : Identifier} {w : Wallet}
    (hrows : SoundRows w.db) (h : ¬Foreign.Unreceptive W mask parent w) :
    Foreign.Receptive W mask parent w := by
  unfold Foreign.Unreceptive at h
  push Not at h
  obtain ⟨hopens, hactive, hdepth, hindex, hlog, hhistory⟩ := h
  exact ⟨hopens, Identifier.child_of_depth hactive _, hindex, hlog, hdepth, ⟨hhistory, hrows⟩⟩

namespace Op

variable {W : World}

theorem soundRows_run (op : Op) (w : Wallet) (h : SoundRows w.db) : SoundRows (op.run W w).db :=
  prog_keeps W (soundRows_frees _) (fun _ _ h => h) op w h

theorem soundRows_of_run (k : Keychain) (checksum : Nat) (status : WalletInitStatus) (ops : List Op) :
    SoundRows (runAll W ops (created k checksum status)).db :=
  @runAll_of_steps W (fun w => SoundRows w.db) (fun _ _ => True) (fun op w _ => soundRows_run op w) ops _
    (fun _ _ => trivial) (soundRows_created k checksum status)

theorem small_signs : World.small.Signs where
  message _ _ := ⟨_, rfl⟩
  blinding _ _ _ _ _ _ := ⟨_, rfl⟩
  hex := small_hex

/-- An offer of 5. -/
def offer : Slate := { World.emptySlate with amount := 5, fee := 3 }

end Op

end EpicWallet
