import EpicWallet.Lib.Triple
import EpicWallet.Libwallet.Proof.Run

/-!
# Calls with a wrong token

Every write goes through a batch or follows a keychain, and both refuse a mask that does not open the
wallet. So a call with such a mask changes nothing: no row, no stored transaction, no signature.

* `KeepsOut`: what a program may do under a wrong mask; `Barred` is that it never returns.
* `Op.prog_keepsOut`, `Op.prog_barred`: the operations one by one.
* `Op.sameData_of_run`: a whole run of calls with wrong tokens.
-/

namespace EpicWallet

open Lib WalletBackend

/-- Rows, stored transactions and signatures are the same, and the wallet is opened by the same masks. -/
structure SameData (w w' : Wallet) : Prop where
  db : w'.db = w.db
  storedTxs : w'.storedTxs = w.storedTxs
  partialSigs : w'.partialSigs = w.partialSigs
  keychain : w'.keychain = w.keychain
  masterChecksum : w'.masterChecksum = w.masterChecksum

instance : Std.Refl SameData := ⟨fun _ => ⟨rfl, rfl, rfl, rfl, rfl⟩⟩

instance : IsTrans Wallet SameData where
  trans _ _ _ h h' := ⟨h'.db.trans h.db, h'.storedTxs.trans h.storedTxs,
    h'.partialSigs.trans h.partialSigs, h'.keychain.trans h.keychain,
    h'.masterChecksum.trans h.masterChecksum⟩

section
variable (W : World)

/-- The mask does not open the wallet. -/
def Shut (mask : Option SecretKey) (w : Wallet) : Prop := ∀ k, unmasked W w mask ≠ .ok k

theorem SameData.shut {mask : Option SecretKey} {w w' : Wallet} (h : SameData w w')
    (hs : Shut W mask w) : Shut W mask w' := by
  intro k
  rw [unmasked_congr h.keychain h.masterChecksum]
  exact hs k

/-- Under a wrong mask the program leaves the data as they were, and what it returns has `φ`. -/
def KeepsOut (mask : Option SecretKey) {α : Type} (p : WalletM α) (φ : α → Prop) : Prop :=
  ∀ w, Shut W mask w → Prog.Triple (SameData w) p (fun a s => SameData w s ∧ φ a) (SameData w)

/-- Under a wrong mask the program leaves the data as they were and never returns. -/
abbrev Barred (mask : Option SecretKey) {α : Type} (p : WalletM α) : Prop :=
  KeepsOut W mask p fun _ => False

/-- Under a wrong mask the program leaves the data as they were. -/
abbrev Harmless (mask : Option SecretKey) {α : Type} (p : WalletM α) : Prop :=
  KeepsOut W mask p fun _ => True

end

section
variable {W : World} {mask : Option SecretKey} {α β : Type} {p : WalletM α} {f : α → WalletM β}
  {φ : α → Prop} {χ : β → Prop}

theorem KeepsOut.mono (h : KeepsOut W mask p φ) {ψ : α → Prop} (hφ : ∀ a, φ a → ψ a) :
    KeepsOut W mask p ψ := by
  intro w hs
  exact (h w hs).mono (fun _ h => h) (fun a _ ha => ⟨ha.1, hφ a ha.2⟩) fun _ h => h

theorem KeepsOut.harmless (h : KeepsOut W mask p φ) : Harmless W mask p := h.mono fun _ _ => trivial

theorem KeepsOut.bind (hp : KeepsOut W mask p φ) (hf : ∀ a, φ a → KeepsOut W mask (f a) χ) :
    KeepsOut W mask (p >>= f) χ := by
  intro w hs
  apply (hp w hs).bind
  intro a
  exact .of_and fun ha => hf a ha w hs

/-- What follows a barred program is never reached. -/
theorem KeepsOut.stop (hp : Barred W mask p) : KeepsOut W mask (p >>= f) χ := hp.bind fun _ h => h.elim

/-- A step whose value does not matter. -/
theorem KeepsOut.next (hp : Harmless W mask p) (hf : ∀ a, KeepsOut W mask (f a) χ) :
    KeepsOut W mask (p >>= f) χ := hp.bind fun a _ => hf a

theorem KeepsOut.pure {a : α} (h : φ a) : KeepsOut W mask (pure a) φ := fun _ _ => .pure fun _ hs => ⟨hs, h⟩

theorem KeepsOut.throw (e : Error) : KeepsOut W mask (Prog.throw e : WalletM α) φ :=
  fun _ _ => .throw fun _ hs => hs

theorem KeepsOut.panic : KeepsOut W mask (Prog.panic : WalletM α) φ := fun _ _ => .panic fun _ hs => hs

theorem KeepsOut.ite {c : Prop} [Decidable c] {q : WalletM α} (hp : c → KeepsOut W mask p φ)
    (hq : ¬c → KeepsOut W mask q φ) : KeepsOut W mask (if c then p else q) φ := by
  split
  · exact hp ‹_›
  · exact hq ‹_›

theorem KeepsOut.orPanic (h : KeepsOut W mask p φ) : KeepsOut W mask (Prog.orPanic p) φ :=
  fun w hs => (h w hs).orPanic

/-- A barred program whose error is caught. -/
theorem KeepsOut.attempt (h : Barred W mask p) :
    KeepsOut W mask (Prog.attempt p) fun r => ∃ e, r = .error e := by
  intro w hs
  apply (h w hs).attempt
  · intro _ _ ha
    exact ha.2.elim
  · intro e _ he
    exact ⟨he, e, rfl⟩

theorem KeepsOut.forEach {g : β → WalletM Unit} {l : List β} (h : ∀ b ∈ l, Harmless W mask (g b)) :
    Harmless W mask (Prog.forEach l g) := by
  intro w hs
  have hloop : Prog.Triple (SameData w) (Prog.forEach l g) (fun _ => SameData w) (SameData w) :=
    Prog.Triple.forEach fun b hb => (h b hb w hs).mono (fun _ h => h) (fun _ _ h => h.1) fun _ h => h
  exact hloop.mono (fun _ h => h) (fun _ _ h => ⟨h, trivial⟩) fun _ h => h

theorem harmless_of_keeps (h : Prog.Keeps SameData p) : Harmless W mask p := by
  intro w _
  apply h.triple
  · intro _ _ _ hs hst
    exact ⟨IsTrans.trans _ _ _ hs hst, trivial⟩
  · intro _ _ hs hst
    exact IsTrans.trans _ _ _ hs hst

theorem harmless_of_reads (h : Prog.Reads p) : Harmless W mask p := harmless_of_keeps h.keeps

theorem harmless_nextTick : Harmless W mask nextTick :=
  harmless_of_keeps fun _ => ⟨rfl, rfl, rfl, rfl, rfl⟩

end

variable (W : World) (mask : Option SecretKey)

/-! ## The lock, the keychain and the batch -/

theorem setParentKeyIdByName_sameData (label : String) :
    Prog.Keeps SameData (setParentKeyIdByName label) := by
  refine acctPathIter_reads.keeps.bind fun l => ?_
  split
  · exact fun _ => ⟨rfl, rfl, rfl, rfl, rfl⟩
  · exact .throw _

/-- Other calls may only switch the active account while the lock is free. -/
theorem walletLock_harmless : Harmless W mask (walletLock W) := by
  apply harmless_of_keeps
  refine Prog.Keeps.bind (fun _ => ⟨rfl, rfl, rfl, rfl, rfl⟩) fun _ => .ite (fun _ => .panic) fun _ => ?_
  exact Prog.Keeps.forEach _ fun _ _ => (setParentKeyIdByName_sameData _).attempt.bind fun _ => .pure _

theorem keychain_barred : Barred W mask (keychain W mask) := by
  intro w hs
  apply Prog.Triple.intro
  · intro s k t hws hrun
    exact absurd ((keychain_ok W).1 hrun).1 (hws.shut W hs k)
  · intro s e t hws hrun
    rw [(keychain_reads W mask).eq hrun]
    exact hws

theorem batch_barred : Barred W mask (batch W mask) := .stop (keychain_barred W mask)

theorem calcCommitForCache_barred (amount : Nat) (id : Identifier) :
    Barred W mask (calcCommitForCache W mask amount id) := .stop (keychain_barred W mask)

theorem getPrivateContext_barred (slateId : Uuid) (participantId : Nat) :
    Barred W mask (getPrivateContext W mask slateId participantId) := .stop (keychain_barred W mask)

/-- A new key is given out only once its index is saved. -/
theorem nextChild_barred : Barred W mask (nextChild W mask) := by
  refine .next (harmless_of_reads parentKeyId_reads) fun _ =>
    .next (harmless_of_reads (currentChildIndex_reads _)) fun _ =>
      .next (harmless_of_reads (Prog.Keeps.unwrap _)) fun _ =>
        .next (harmless_of_reads (addU32_reads _ _)) fun _ => ?_
  exact .stop (batch_barred W mask)

/-! ## Refreshing -/

namespace Updater

theorem getNodeStatus_harmless : Harmless W mask (getNodeStatus W) :=
  .next harmless_nextTick fun _ => harmless_of_reads (.ofExcept _)

theorem getChainTip_harmless : Harmless W mask (getChainTip W) :=
  .next harmless_nextTick fun _ => harmless_of_reads (.ofExcept _)

theorem refreshOutputs_barred (parentKeyId : Identifier) :
    Barred W mask (refreshOutputs W mask parentKeyId) := by
  refine .next (getNodeStatus_harmless W mask) fun _ => .ite (fun _ => .throw _) fun _ =>
    .next (getChainTip_harmless W mask) fun _ => ?_
  exact .stop (.stop (keychain_barred W mask))

theorem receiveReward_barred (blockFees : BlockFees) (amount : Nat)
    (build : Keychain → Identifier → Except Error (Output × TxKernel)) :
    Barred W mask (receiveReward W mask blockFees amount build) := by
  refine .next (harmless_of_reads (addU64_reads _ _)) fun _ =>
    .next (harmless_of_reads parentKeyId_reads) fun _ => .next ?_ fun _ =>
      .stop (calcCommitForCache_barred W mask _ _)
  unfold rewardKey
  split
  · refine .next (harmless_of_reads (Keys.retrieveExistingKey_reads _ _).attempt) fun r => ?_
    split
    · exact .pure trivial
    · exact (nextChild_barred W mask).harmless
  · exact (nextChild_barred W mask).harmless

end Updater

/-! ## Building transactions -/

namespace Tx

theorem newTxSlate_harmless (amount numParticipants : Nat) (ttlBlocks : Option Nat) :
    Harmless W mask (newTxSlate W amount numParticipants ttlBlocks) := by
  refine .next (Updater.getChainTip_harmless W mask) fun _ => .next ?_ fun _ => .next ?_ fun _ =>
    .pure trivial
  · exact .next harmless_nextTick fun _ => .pure trivial
  · split
    · exact .next (harmless_of_reads (addU64_reads _ _)) fun _ => .pure trivial
    · exact .pure trivial

theorem addInputsToSlate_barred (slate : Slate) (minimumConfirmations maxOutputs numChangeOutputs : Nat)
    (selectAll : Bool) (parentKeyId : Identifier) (participantId : Nat) (message : Option String)
    (isInitiator : Bool) :
    Barred W mask (addInputsToSlate W mask slate minimumConfirmations maxOutputs numChangeOutputs
      selectAll parentKeyId participantId message isInitiator) :=
  .stop (Updater.refreshOutputs_barred W mask _)

/-- The key of the output is the first thing a receiver needs. -/
theorem addOutputToSlate_barred (slate : Slate) (parentKeyId : Identifier) (participantId : Nat)
    (message : Option String) (isInitiator : Bool) :
    Barred W mask (addOutputToSlate W mask slate parentKeyId participantId message isInitiator) :=
  .stop (.stop (nextChild_barred W mask).orPanic)

/-- A transaction is cancelled once its outputs are read, and that takes a keychain. -/
theorem cancelTx_barred (parentKeyId : Identifier) (txId : Option Nat) (txSlateId : Option Uuid) :
    Barred W mask (cancelTx W mask parentKeyId txId txSlateId) := by
  refine .next (harmless_of_reads (Updater.retrieveTxs_reads _ _ _ _ _ _ _)) fun r => ?_
  split
  · refine .ite (fun _ => .throw _) fun _ => .ite (fun _ => .throw _) fun _ => .stop ?_
    refine .next (harmless_of_reads rows_reads) fun _ =>
      .next (harmless_of_reads (Updater.paginate_reads _ _ _)) fun _ => ?_
    exact .stop (keychain_barred W mask)
  · exact .throw _

theorem updateMempoolStatus_harmless (slate : Slate) :
    Harmless W mask (updateMempoolStatus W mask slate) := by
  refine .next (harmless_of_reads parentKeyId_reads) fun _ =>
    .next (harmless_of_reads txLogIter_reads) fun _ => ?_
  split
  · exact .stop (batch_barred W mask)
  · exact .pure trivial

end Tx

/-! ## The operations -/

namespace Owner

theorem createAccountPath_barred (label : String) : Barred W mask (createAccountPath W mask label) := by
  refine .next (harmless_of_reads acctPathIter_reads) fun l => ?_
  split
  · exact .throw _
  · refine .next ?_ fun _ => .stop (batch_barred W mask)
    split
    · exact .next (harmless_of_reads (addU32_reads _ _)) fun _ => .pure trivial
    · exact .pure trivial

theorem initSendTx_barred (args : InitTxArgs) : Barred W mask (initSendTx W mask args) := by
  refine .next (harmless_of_reads (accountNamed_reads _)) fun parent =>
    .next (harmless_of_reads (truncateMessage_reads _)) fun _ =>
      .next (Tx.newTxSlate_harmless W mask _ _ _) fun _ => .ite (fun _ => ?_) fun _ => ?_
  · refine .stop (.next (Updater.getChainTip_harmless W mask) fun _ => ?_)
    exact .stop (Updater.refreshOutputs_barred W mask parent)
  · exact .stop (Tx.addInputsToSlate_barred W mask _ _ _ _ _ _ _ _ _)

theorem issueInvoiceTx_barred (args : IssueInvoiceTxArgs) : Barred W mask (issueInvoiceTx W mask args) := by
  refine .next (harmless_of_reads (accountNamed_reads _)) fun parent =>
    .next (harmless_of_reads (truncateMessage_reads _)) fun _ =>
      .next (Tx.newTxSlate_harmless W mask _ _ _) fun _ => ?_
  exact .stop (Tx.addOutputToSlate_barred W mask _ _ _ _ _)

theorem processInvoiceTx_barred (slate : Slate) (args : InitTxArgs) :
    Barred W mask (processInvoiceTx W mask slate args) := by
  refine .next (harmless_of_reads (checkTtl_reads _)) fun _ =>
    .next (harmless_of_reads (accountNamed_reads _)) fun parent =>
      .next (harmless_of_reads (Updater.retrieveTxs_reads _ _ _ _ _ _ _)) fun _ =>
        .ite (fun _ => .throw _) fun _ => ?_
  refine .next (harmless_of_reads (truncateMessage_reads _)) fun _ =>
    .next (Updater.getChainTip_harmless W mask) fun _ =>
      .next (harmless_of_reads (updateHeights_reads _ _ _)) fun _ => ?_
  exact .stop (Tx.addInputsToSlate_barred W mask _ _ _ _ _ _ _ _ _)

theorem txLockOutputs_barred (slate : Slate) (participantId : Nat) (addrTo : Option String) :
    Barred W mask (txLockOutputs W mask slate participantId addrTo) :=
  .stop (getPrivateContext_barred W mask _ _)

theorem finalizeTx_barred (slate : Slate) : Barred W mask (finalizeTx W mask slate) :=
  .next (harmless_of_reads (checkTtl_reads _)) fun _ => .stop (getPrivateContext_barred W mask _ _)

/-- The entries found in the pool are not marked. -/
theorem waitForTxInMempool_harmless (txSlateId : Uuid) :
    ∀ attempts, Harmless W mask (waitForTxInMempool W mask txSlateId attempts)
  | 0 => .pure trivial
  | attempts + 1 => by
    refine .next (walletLock_harmless W mask) fun _ => .next harmless_nextTick fun _ =>
      .next (harmless_of_reads (.ofExcept _)) fun _ => .next (walletLock_harmless W mask) fun _ =>
        .next (harmless_of_reads txLogIter_reads) fun _ => .next ?_ fun _ => ?_
    · refine .forEach fun _ _ => .next (walletLock_harmless W mask) fun _ => ?_
      exact .next (harmless_of_reads parentKeyId_reads) fun _ => .stop (batch_barred W mask)
    · exact .ite (fun _ => waitForTxInMempool_harmless txSlateId attempts) fun _ => .pure trivial

/-- The outputs are not refreshed, and the call says so. -/
theorem updateOutputs_keepsOut : KeepsOut W mask (updateOutputs W mask) (· = false) := by
  refine .next (walletLock_harmless W mask) fun _ =>
    .next (harmless_of_reads parentKeyId_reads) fun _ => ?_
  refine (KeepsOut.attempt (Updater.refreshOutputs_barred W mask _)).bind ?_
  rintro _ ⟨e, rfl⟩
  cases e <;> first | exact .throw _ | exact .pure rfl

theorem updateWalletState_keepsOut : KeepsOut W mask (updateWalletState W mask) (· = false) := by
  refine .next (walletLock_harmless W mask) fun _ =>
    .next (harmless_of_reads parentKeyId_reads) fun _ => .next (walletLock_harmless W mask) fun _ => ?_
  refine (updateOutputs_keepsOut W mask).bind ?_
  rintro _ rfl
  exact .pure rfl

theorem cancelTx_barred (txId : Option Nat) (txSlateId : Option Uuid) :
    Barred W mask (cancelTx W mask txId txSlateId) := by
  refine (updateWalletState_keepsOut W mask).bind ?_
  rintro _ rfl
  exact .throw _

theorem scan_barred (startHeight : Option Nat) (deleteUnconfirmed : Bool) :
    Barred W mask (scan W mask startHeight deleteUnconfirmed) := by
  refine .next (updateOutputs_keepsOut W mask).harmless fun _ =>
    .next (walletLock_harmless W mask) fun _ => .next (Updater.getChainTip_harmless W mask) fun _ => ?_
  refine .stop (.next (walletLock_harmless W mask) fun _ => ?_)
  exact .stop (keychain_barred W mask)

end Owner

namespace Foreign

theorem receiveTx_barred (slate : Slate) (destAcctName message addrFrom : Option String) :
    Barred W mask (receiveTx W mask slate destAcctName message addrFrom) := by
  refine .next (harmless_of_reads (checkTtl_reads _)) fun _ =>
    .next (harmless_of_reads (accountNamed_reads _)) fun parent =>
      .next (harmless_of_reads (Updater.retrieveTxs_reads _ _ _ _ _ _ _)) fun _ =>
        .ite (fun _ => .throw _) fun _ => ?_
  refine .next (harmless_of_reads (truncateMessage_reads _)) fun _ => ?_
  exact .stop (Tx.addOutputToSlate_barred W mask _ _ _ _ _)

theorem finalizeInvoiceTx_barred (slate : Slate) : Barred W mask (finalizeInvoiceTx W mask slate) :=
  .next (harmless_of_reads (checkTtl_reads _)) fun _ => .stop (getPrivateContext_barred W mask _ _)

end Foreign

namespace Op

omit mask

/-- The token of a call; activating an account takes none. -/
def token : Op → Option (Option SecretKey)
  | createAccountPath mask _ => some mask
  | setActiveAccount _ => none
  | initSendTx mask _ => some mask
  | issueInvoiceTx mask _ => some mask
  | processInvoiceTx mask _ _ => some mask
  | txLockOutputs mask _ _ _ => some mask
  | finalizeTx mask _ => some mask
  | receiveTx mask _ _ _ _ => some mask
  | finalizeInvoiceTx mask _ => some mask
  | cancelTx mask _ _ => some mask
  | updateMempoolStatus mask _ => some mask
  | waitForTxInMempool mask _ _ => some mask
  | updateWalletState mask => some mask
  | scan mask _ _ => some mask
  | buildCoinbase mask _ => some mask
  | buildFoundation mask _ => some mask

/-- The calls that may return under a wrong token: those that look at the pool find nothing to mark, and
a refresh reports that it was none. -/
def mayReturn : Op → Bool
  | setActiveAccount _ => true
  | updateMempoolStatus _ _ => true
  | waitForTxInMempool _ _ _ => true
  | updateWalletState _ => true
  | _ => false

/-- Under a wrong token a call leaves the data as they were. -/
theorem prog_keepsOut {op : Op} {mask : Option SecretKey} (hmask : op.token = some mask) :
    KeepsOut W mask (op.prog W) fun _ => op.mayReturn = true := by
  cases op with
  | setActiveAccount label => cases hmask
  | createAccountPath m label =>
    cases hmask
    exact .stop (Owner.createAccountPath_barred W mask label)
  | initSendTx m args =>
    cases hmask
    exact .stop (Owner.initSendTx_barred W mask args)
  | issueInvoiceTx m args =>
    cases hmask
    exact .stop (Owner.issueInvoiceTx_barred W mask args)
  | processInvoiceTx m slate args =>
    cases hmask
    exact .stop (Owner.processInvoiceTx_barred W mask slate args)
  | txLockOutputs m slate participantId addrTo =>
    cases hmask
    exact (Owner.txLockOutputs_barred W mask slate participantId addrTo).mono fun _ h => h.elim
  | finalizeTx m slate =>
    cases hmask
    exact .stop (Owner.finalizeTx_barred W mask slate)
  | receiveTx m slate dest message addrFrom =>
    cases hmask
    exact .stop (Foreign.receiveTx_barred W mask slate dest message addrFrom)
  | finalizeInvoiceTx m slate =>
    cases hmask
    exact .stop (Foreign.finalizeInvoiceTx_barred W mask slate)
  | cancelTx m txId txSlateId =>
    cases hmask
    exact (Owner.cancelTx_barred W mask txId txSlateId).mono fun _ h => h.elim
  | updateMempoolStatus m slate =>
    cases hmask
    exact (Tx.updateMempoolStatus_harmless W mask slate).mono fun _ _ => rfl
  | waitForTxInMempool m id attempts =>
    cases hmask
    exact .next (Owner.waitForTxInMempool_harmless W mask id attempts) fun _ => .pure rfl
  | updateWalletState m =>
    cases hmask
    exact .next (Owner.updateWalletState_keepsOut W mask).harmless fun _ => .pure rfl
  | scan m start delete =>
    cases hmask
    exact (Owner.scan_barred W mask start delete).mono fun _ h => h.elim
  | buildCoinbase m fees =>
    cases hmask
    exact .stop (Updater.receiveReward_barred W mask fees _ _)
  | buildFoundation m fees =>
    cases hmask
    exact .stop (Updater.receiveReward_barred W mask fees _ _)

/-- A call with a wrong token, or with none to give. -/
theorem sameData_of_shut {op : Op} {w : Wallet} (hshut : ∀ m, op.token = some m → Shut W m w) :
    SameData w (op.run W w) ∧ (op.mayReturn = false → (op.prog W w).1 ≠ .ok ()) := by
  rcases htoken : op.token with _ | mask
  · cases op <;> cases htoken
    exact ⟨setParentKeyIdByName_sameData _ w, nofun⟩
  · have h := prog_keepsOut W htoken w (hshut mask htoken)
    refine ⟨h.state (fun _ _ h => h.1) (fun _ h => h) (Std.Refl.refl w), fun hret hok => ?_⟩
    have hreturned := (h.ok (Std.Refl.refl w) (Prog.run_eq hok)).2
    rw [hret] at hreturned
    cases hreturned

/-- In a run of calls whose tokens do not open the wallet, no row, no stored transaction and no signature
is written, and no call returns but those that have nothing to write. -/
theorem sameData_of_run : ∀ {ops : List Op} {w : Wallet},
    (∀ op ∈ ops, ∀ m, op.token = some m → Shut W m w) →
      SameData w (runAll W ops w) ∧
        ∀ s ∈ steps W ops w, s.1.mayReturn = false → (s.1.prog W s.2).1 ≠ .ok ()
  | [], w, _ => ⟨Std.Refl.refl w, fun _ hs => (by cases hs)⟩
  | op :: ops, w, hshut => by
    obtain ⟨hstep, hret⟩ := sameData_of_shut W (hshut op List.mem_cons_self)
    -- the tokens are as wrong after the call as before it
    have hlater : ∀ op' ∈ ops, ∀ m, op'.token = some m → Shut W m (op.run W w) :=
      fun op' hop' m hm => hstep.shut W (hshut op' (List.mem_cons_of_mem _ hop') m hm)
    obtain ⟨hrest, hrets⟩ := sameData_of_run hlater
    refine ⟨IsTrans.trans _ _ _ hstep hrest, fun s hs => ?_⟩
    rcases List.mem_cons.1 hs with rfl | hs
    · exact hret
    · exact hrets s hs

/-- Calls under three masks that do not open the funded wallet. -/
def wrongCalls : List Op :=
  [initSendTx (some ⟨1⟩) World.payFive, scan (some ⟨2⟩) none true, updateWalletState (some ⟨3⟩)]

theorem sameData_of_run_wrongCalls :
    (∀ op ∈ wrongCalls, ∀ m, op.token = some m → Shut World.small m World.funded) ∧
      SameData World.funded (runAll World.small wrongCalls World.funded) := by
  have hmasks : ∀ m ∈ [(⟨1⟩ : SecretKey), ⟨2⟩, ⟨3⟩],
      (unmasked World.small World.funded (some m)).toOption = none := by decide +kernel
  have hshut : ∀ op ∈ wrongCalls, ∀ m, op.token = some m → Shut World.small m World.funded := by
    intro op hop m hm k hk
    have hnone : ∀ i ∈ [(⟨1⟩ : SecretKey), ⟨2⟩, ⟨3⟩], m ≠ some i := by
      rintro i hi rfl
      have h := hmasks i hi
      rw [hk] at h
      cases h
    simp only [wrongCalls, List.mem_cons, List.not_mem_nil, or_false] at hop
    rcases hop with rfl | rfl | rfl
    · exact hnone ⟨1⟩ (by simp) (Option.some.inj hm).symm
    · exact hnone ⟨2⟩ (by simp) (Option.some.inj hm).symm
    · exact hnone ⟨3⟩ (by simp) (Option.some.inj hm).symm
  exact ⟨hshut, (sameData_of_run World.small hshut).1⟩

end Op

end EpicWallet
