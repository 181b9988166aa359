import EpicWallet.Libwallet.Proof.Calls
import EpicWallet.Libwallet.Proof.Log
import EpicWallet.Libwallet.Proof.Replay
import EpicWallet.Libwallet.Proof.Restore

/-!
# Interleaved calls

What the sections of the calls do to the transaction log, for every interleaving of any number of
calls. `Act.Allowed κ` says when a policy allows a section; `Op.sections_sat` that every section then
changes the log as the policy says, whatever the other calls did since the section before. A call that
copied entries out of the log knows only that they are still stored.
-/

namespace EpicWallet

open Lib WalletBackend

variable {κ : Policy}

/-! ## Calls that hold the lock -/

namespace Op

variable (W : World)

/-- The operation runs under the wallet's lock from start to end. -/
def holdsLock : Op → Bool
  | cancelTx .. => false
  | waitForTxInMempool .. => false
  | updateWalletState .. => false
  | scan .. => false
  | _ => true

/-- The account of the context stored for a slate. -/
def contextAccount (w : Wallet) (slateId : Uuid) (participantId : Nat) : Identifier :=
  match (w.db.get (.privateTxContext slateId participantId)).bind Serializable.asContext with
  | some c => c.parentKeyId
  | none => w.parentKeyId

/-- The policy allows what the operation does to the log. -/
def Allowed (κ : Policy) : Op → Wallet → Prop
  | initSendTx _ args, w => κ.Serves (accountOf w args.srcAcctName)
  | issueInvoiceTx _ args, w => κ.Serves (accountOf w args.destAcctName)
  | processInvoiceTx _ _ args, w => κ.Serves (accountOf w args.srcAcctName)
  | txLockOutputs _ slate participantId _, w => κ.Serves (contextAccount w slate.id participantId)
  | finalizeTx _ slate, w => Tx.MayAnnotate κ w.db slate.id
  | finalizeInvoiceTx _ slate, w => Tx.MayAnnotate κ w.db slate.id
  | receiveTx _ slate destAcctName _ _, w =>
    κ.Serves (accountOf w destAcctName) ∧ Tx.MayAnnotate κ w.db slate.id
  | updateMempoolStatus _ slate, w => ∀ t, Tx.firstEntry w.db slate.id = some t →
    t.parentKeyId = w.parentKeyId ∧ κ.change t { t with txType := Tx.mempoolType t.txType }
  | _, _ => True

variable {W} {d₀ : Rows Key Serializable}

/-- A call for an account named, with what is known of that account. -/
theorem accountNamed_triple {P E : Wallet → Prop} {φ : Identifier → Prop} (name : Option String) :
    Prog.Triple (fun w => P w ∧ φ (accountOf w name)) (accountNamed name) (fun p w => P w ∧ φ p) E := by
  apply Prog.Triple.intro
  · intro w p w' h hrun
    rw [accountNamed_apply] at hrun
    cases hrun
    exact h
  · intro w e w' h hrun
    rw [accountNamed_apply] at hrun
    cases hrun

theorem initSendTx_logged (mask : Option SecretKey) (args : InitTxArgs) :
    Prog.Triple (fun w => Logged κ d₀ w ∧ κ.Refreshes (accountOf w args.srcAcctName))
      (Owner.initSendTx W mask args) (fun _ => Logged κ d₀) (Logged κ d₀) := by
  have hF := logStep_frees κ
  refine (accountNamed_triple _).bind fun p => .of_and fun hκ => ?_
  refine (reads_logged (truncateMessage_reads _)).bind fun message =>
    (keeps_logged (Tx.newTxSlate_keeps hF W _ _ _)).bind fun slate => .ite (fun _ => ?_) fun _ => ?_
  · exact (Tx.estimateSendTx_logged W hκ _ _ _ _ _ _).bind fun _ => reads_logged (.pure _)
  · exact (Tx.addInputsToSlate_logged W hκ _ _ _ _ _ _ _ _ _).bind fun r =>
      (reads_logged (Owner.addProofInfo_reads W _ _ _ _ _)).bind fun r =>
        (keeps_logged (Owner.saveContext_keeps hF W (by decide) _ _ _ _)).bind fun _ =>
          reads_logged (.pure _)

theorem issueInvoiceTx_logged (mask : Option SecretKey) (args : IssueInvoiceTxArgs) :
    Prog.Triple (fun w => Logged κ d₀ w ∧ κ.Serves (accountOf w args.destAcctName))
      (Owner.issueInvoiceTx W mask args) (fun _ => Logged κ d₀) (Logged κ d₀) := by
  have hF := logStep_frees κ
  refine (accountNamed_triple _).bind fun p => .of_and fun hκ => ?_
  refine (reads_logged (truncateMessage_reads _)).bind fun message =>
    (keeps_logged (Tx.newTxSlate_keeps hF W _ _ _)).bind fun slate => ?_
  exact (Tx.addOutputToSlate_logged W hκ _ _ _ _ _).bind fun r =>
    (keeps_logged (Owner.saveContext_keeps hF W (by decide) _ _ _ _)).bind fun _ =>
      reads_logged (.pure _)

theorem processInvoiceTx_logged (mask : Option SecretKey) (slate : Slate) (args : InitTxArgs) :
    Prog.Triple (fun w => Logged κ d₀ w ∧ κ.Refreshes (accountOf w args.srcAcctName))
      (Owner.processInvoiceTx W mask slate args) (fun _ => Logged κ d₀) (Logged κ d₀) := by
  have hF := logStep_frees κ
  refine Prog.Triple.bind ((checkTtl_reads slate).triple (fun _ _ h _ => h) fun _ h => h.1) fun _ => ?_
  refine (accountNamed_triple _).bind fun p => .of_and fun hκ => ?_
  refine (reads_logged (Updater.retrieveTxs_reads _ _ _ _ _ _ _)).bind fun tx =>
    .ite (fun _ => .throw fun _ h => h) fun _ => ?_
  refine (reads_logged (truncateMessage_reads _)).bind fun message =>
    (keeps_logged (Updater.getChainTip_keeps hF W)).bind fun tip =>
      (reads_logged (Owner.updateHeights_reads _ _ _)).bind fun slate => ?_
  exact (Tx.addInputsToSlate_logged W hκ _ _ _ _ _ _ _ _ _).bind fun r =>
    (keeps_logged (Owner.saveContext_keeps hF W (by decide) _ _ _ _)).bind fun _ =>
      reads_logged (.pure _)

/-- The context loaded is of the account of the one stored. -/
theorem contextAccount_of_ok {mask : Option SecretKey} {slateId : Uuid} {participantId : Nat}
    {c : Context} {w w' : Wallet}
    (h : getPrivateContext W mask slateId participantId w = (.ok c, w')) :
    c.parentKeyId = contextAccount w slateId participantId := by
  obtain ⟨-, stored, keys, hg, rfl⟩ := getPrivateContext_ok W h
  unfold contextAccount
  rw [hg]
  rfl

theorem txLockOutputs_logged (mask : Option SecretKey) (slate : Slate) (participantId : Nat)
    (addrTo : Option String) :
    Prog.Triple (fun w => Logged κ d₀ w ∧ κ.Serves (contextAccount w slate.id participantId))
      (Owner.txLockOutputs W mask slate participantId addrTo) (fun _ => Logged κ d₀)
      (Logged κ d₀) := by
  refine Prog.Triple.bind (R := fun c w => Logged κ d₀ w ∧ κ.Serves c.parentKeyId)
    ((getPrivateContext_reads W _ _ _).triple (fun w c h hrun => ?_) fun _ h => h.1) fun c =>
      .of_and fun hκ => Selection.lockTxContext_logged W hκ
  rw [contextAccount_of_ok hrun]
  exact h

theorem completeTx_logged (mask : Option SecretKey) (slate : Slate) (participantId : Nat)
    (context : Context) :
    Prog.Triple (Logged κ d₀) (Tx.completeTx W mask slate participantId context)
      (fun sl w => Logged κ d₀ w ∧ sl.id = slate.id) (Logged κ d₀) :=
  (keeps_logged ((Tx.completeTx_aside W mask slate participantId context).mono
    (logStep_frees κ).aside)).returns fun _ _ _ => Tx.completeTx_id W

theorem finalizeTx_logged (mask : Option SecretKey) (slate : Slate)
    (hann : Tx.MayAnnotate κ d₀ slate.id) :
    Prog.Triple (Logged κ d₀) (Owner.finalizeTx W mask slate) (fun _ => Logged κ d₀)
      (Logged κ d₀) := by
  have hF := logStep_frees κ
  refine (reads_logged (checkTtl_reads _)).bind fun _ =>
    (reads_logged (getPrivateContext_reads W _ _ _)).bind fun context =>
      (reads_logged parentKeyId_reads).bind fun parent => ?_
  refine Prog.Triple.bind (completeTx_logged mask slate _ context) fun sl => .of_and fun hid => ?_
  rw [← hid] at hann
  exact (reads_logged (Tx.verifySlatePaymentProof_reads W _ _ _ _)).bind fun _ =>
    (Tx.updateStoredTx_logged W hann _).bind fun _ =>
      (Tx.updateMessage_logged W hann _).bind fun _ =>
        (keeps_logged (Owner.deleteContext_keeps hF W (by decide) _ _ _)).bind fun _ =>
          reads_logged (.pure _)

theorem finalizeInvoiceTx_logged (mask : Option SecretKey) (slate : Slate)
    (hann : Tx.MayAnnotate κ d₀ slate.id) :
    Prog.Triple (Logged κ d₀) (Foreign.finalizeInvoiceTx W mask slate) (fun _ => Logged κ d₀)
      (Logged κ d₀) := by
  have hF := logStep_frees κ
  refine (reads_logged (checkTtl_reads _)).bind fun _ =>
    (reads_logged (getPrivateContext_reads W _ _ _)).bind fun context => ?_
  refine Prog.Triple.bind (completeTx_logged mask slate _ context) fun sl => .of_and fun hid => ?_
  rw [← hid] at hann
  exact (Tx.updateStoredTx_logged W hann _).bind fun _ =>
    (Tx.updateMessage_logged W hann _).bind fun _ =>
      (keeps_logged (Owner.deleteContext_keeps hF W (by decide) _ _ _)).bind fun _ =>
        reads_logged (.pure _)

theorem receiveTx_logged (mask : Option SecretKey) (slate : Slate)
    (destAcctName message addrFrom : Option String) (hann : Tx.MayAnnotate κ d₀ slate.id) :
    Prog.Triple (fun w => Logged κ d₀ w ∧ κ.Serves (accountOf w destAcctName))
      (Foreign.receiveTx W mask slate destAcctName message addrFrom) (fun _ => Logged κ d₀)
      (Logged κ d₀) := by
  refine Prog.Triple.bind ((checkTtl_reads slate).triple (fun _ _ h _ => h) fun _ h => h.1) fun _ => ?_
  refine (accountNamed_triple _).bind fun p => .of_and fun hκ => ?_
  refine (reads_logged (Updater.retrieveTxs_reads _ _ _ _ _ _ _)).bind fun tx =>
    .ite (fun _ => .throw fun _ h => h) fun _ => ?_
  refine (reads_logged (truncateMessage_reads _)).bind fun message => ?_
  refine Prog.Triple.bind (Prog.Triple.returns (Tx.addOutputToSlate_logged W hκ
    mask slate 1 message false) fun _ _ _ => Tx.addOutputToSlate_id W) fun r => .of_and fun hid => ?_
  rw [← hid] at hann
  exact (Tx.updateMessage_logged W hann _).bind fun _ =>
    (Tx.updatePublicAddr_logged W hann _ _).bind fun _ =>
      (reads_logged (keychain_reads W mask)).bind fun _ => (reads_logged (Prog.Keeps.ofExcept _)).bind
        fun _ => reads_logged (Foreign.signProof_reads W _ _ _ _)

/-- An operation that holds the lock changes the log as the policy allows. -/
theorem logged_of_allowed {op : Op} {w : Wallet} (hlock : op.holdsLock = true)
    (ha : op.Allowed κ w) (hok : LogOk κ w.db) : Logged κ w.db (op.run W w) := by
  have h : Logged κ w.db w := ⟨hok, .refl κ _⟩
  have hF := logStep_frees κ
  have hvoid : ∀ {α : Type} {P : Wallet → Prop} {p : WalletM α}, P w →
      Prog.Triple P p (fun _ => Logged κ w.db) (Logged κ w.db) →
      Logged κ w.db ((p >>= fun _ => pure ()) w).2 := fun hP ht =>
    (ht.bind fun _ => reads_logged (.pure _)).state (fun _ _ h => h) (fun _ h => h) hP
  cases op with
  | createAccountPath mask label =>
    exact hvoid h (keeps_logged (Keys.newAcctPath_keeps hF W (by decide) _ _))
  | setActiveAccount label =>
    have ht : Prog.Keeps SameLog (setParentKeyIdByName label) := by
      refine acctPathIter_reads.keeps.bind fun l => ?_
      split
      · exact fun w => ⟨fun _ _ => rfl, fun _ => rfl⟩
      · exact .throw _
    exact (ht w).logged h
  | initSendTx mask args => exact hvoid (And.intro h ha.refreshes) (initSendTx_logged mask args)
  | issueInvoiceTx mask args => exact hvoid (And.intro h ha) (issueInvoiceTx_logged mask args)
  | processInvoiceTx mask slate args =>
    exact hvoid (And.intro h ha.refreshes) (processInvoiceTx_logged mask slate args)
  | txLockOutputs mask slate participantId addrTo =>
    exact (txLockOutputs_logged mask slate participantId addrTo).state (fun _ _ h => h) (fun _ h => h)
      ⟨h, ha⟩
  | finalizeTx mask slate => exact hvoid h (finalizeTx_logged mask slate ha)
  | receiveTx mask slate dest message addrFrom =>
    exact hvoid (And.intro h ha.1) (receiveTx_logged mask slate dest message addrFrom ha.2)
  | finalizeInvoiceTx mask slate => exact hvoid h (finalizeInvoiceTx_logged mask slate ha)
  | updateMempoolStatus mask slate =>
    exact (Tx.updateMempoolStatus_logged W mask slate).state (fun _ _ h => h) (fun _ h => h) ⟨h, ha⟩
  | buildCoinbase mask fees =>
    exact hvoid h (keeps_logged (Updater.receiveReward_keeps hF W (by decide) (by decide) (by decide) _ _ _ _))
  | buildFoundation mask fees =>
    exact hvoid h (keeps_logged (Updater.receiveReward_keeps hF W (by decide) (by decide) (by decide) _ _ _ _))
  | cancelTx mask txId txSlateId => cases hlock
  | waitForTxInMempool mask id attempts => cases hlock
  | updateWalletState mask => cases hlock
  | scan mask start delete => cases hlock

end Op

/-! ## Sections -/

/-- The wallet as a section has taken the lock. -/
def locked (W : World) (w : Wallet) : Wallet := (walletLock W w).2

/-- The entry `wait_for_tx_in_mempool` saves for a copy. -/
def TxLogEntry.inPool (e : TxLogEntry) : TxLogEntry := { e with txType := Tx.mempoolType e.txType }

/-- The entry `update_txs_via_kernel` saves for a copy. -/
def TxLogEntry.confirmedAt (e : TxLogEntry) (now : DateTime) (height : Nat) : TxLogEntry :=
  { { e with confirmed := true }.updateConfirmationTs now with confirmationHeight := some height }

/-- The policy allows what the section does to the log. -/
def Act.Allowed (κ : Policy) (W : World) : Act → Wallet → Prop
  | quiet, _ | reindex _ _, _ | unspend _, _ | discard _, _ => True
  | call op, w => op.Allowed κ w
  | refresh, w => κ.Serves (locked W w).parentKeyId
  | mark e, w => e.parentKeyId = (locked W w).parentKeyId ∧
      ∀ r, entryAt w.db e.parentKeyId e.id = some r → κ.change r e.inPool
  | confirm p e, w => Updater.outstanding e = true → e.parentKeyId = p ∧
      ∀ r now height, entryAt w.db p e.id = some r → κ.change r (e.confirmedAt now height)
  | cancel _ _, w => κ.Serves (locked W w).parentKeyId
  | restore o, _ => κ.Serves o.keyId.parentPath
  | cancelEntry o, _ => ∀ t : TxLogEntry, t.parentKeyId = o.keyId.parentPath →
      κ.change t { t with txType := Updater.cancelledType t.txType }
  | imports txs, w => ∀ t ∈ txs, Command.alreadyPresent (txLogOf w.db) t = false →
      (κ.counted → t.id < logCounter w.db t.parentKeyId) ∧ κ.create t ∧
        ∀ a, κ.create a → a.parentKeyId = t.parentKeyId → a.id = t.id → κ.change a t

/-- The entry an operation marks as in the pool. -/
def Op.marks : Op → Wallet → Option TxLogEntry
  | updateMempoolStatus _ slate, w => Tx.firstEntry w.db slate.id
  | _, _ => none

/-- The section saves what it copied or found in the account it comes from: `update_mempool_status` and
`wait_for_tx_in_mempool` save in the active account, `update_txs_via_kernel` in the one active when it
started. -/
def Act.InOwnAccount (W : World) : Act → Wallet → Prop
  | mark e, w => e.parentKeyId = (locked W w).parentKeyId
  | confirm p e, _ => e.parentKeyId = p
  | call op, w => ∀ t ∈ op.marks w, t.parentKeyId = w.parentKeyId
  | _, _ => True

instance (W : World) : (a : Act) → (w : Wallet) → Decidable (a.InOwnAccount W w)
  | .mark e, w => inferInstanceAs (Decidable (e.parentKeyId = (locked W w).parentKeyId))
  | .confirm p e, _ => inferInstanceAs (Decidable (e.parentKeyId = p))
  | .call op, w => inferInstanceAs (Decidable (∀ t ∈ op.marks w, t.parentKeyId = w.parentKeyId))
  | .quiet, _ | .refresh, _ | .cancel _ _, _ | .restore _, _ | .cancelEntry _, _ | .reindex _ _, _
  | .unspend _, _ | .discard _, _ | .imports _, _ => .isTrue trivial

/-- What a section does to the log: what every policy that allows it says. -/
def Act.does (W : World) (a : Act) (w w' : Wallet) : Prop :=
  ∀ κ, a.Allowed κ W w → LogOk κ w.db → Logged κ w.db w'

variable (W : World)

/-- The rows are the same. -/
def SameDb (w w' : Wallet) : Prop := w'.db = w.db

instance : Std.Refl SameDb := ⟨fun _ => rfl⟩

instance : IsTrans Wallet SameDb := ⟨fun _ _ _ h h' => Eq.trans h' h⟩

/-- Taking the lock at most switches the account. -/
theorem walletLock_sameDb : Prog.Keeps SameDb (walletLock W) := by
  refine (nextTick_aside.mono fun _ _ => Aside.db).bind fun _ => .ite (fun _ => .panic) fun _ =>
    Prog.Keeps.forEach _ fun label _ => Prog.Keeps.bind (Prog.Keeps.attempt ?_) fun _ => .pure _
  refine acctPathIter_reads.keeps.bind fun l => ?_
  split
  · exact fun _ => rfl
  · exact .throw _

theorem locked_db (w : Wallet) : (locked W w).db = w.db := walletLock_sameDb W w

theorem locked_sameLog (w : Wallet) : SameLog w (locked W w) := by
  constructor <;> simp [locked_db]

theorem walletLock_sameLog : Prog.Keeps SameLog (walletLock W) := locked_sameLog W

/-- A section that takes the lock first. -/
theorem logged_afterLock {α : Type} {body : WalletM α} {w : Wallet} (hok : LogOk κ w.db)
    (h : Logged κ w.db (locked W w) → Logged κ w.db (body (locked W w)).2) :
    Logged κ w.db ((walletLock W >>= fun _ => body) w).2 := by
  have hl : Logged κ w.db (locked W w) := (locked_sameLog W w).logged ⟨hok, .refl κ _⟩
  refine Prog.state_bind (P := Logged κ w.db) hl fun _ t hrun _ => ?_
  have ht : locked W w = t := congrArg Prod.snd hrun
  subst ht
  exact h hl

/-- The part of a section after a batch was taken. -/
theorem logged_batch {d₀ : Rows Key Serializable} {α : Type} {mask : Option SecretKey}
    {body : WalletM α} {w : Wallet} (hw : Logged κ d₀ w) (h : Logged κ d₀ (body w).2) :
    Logged κ d₀ ((batch W mask >>= fun _ => body) w).2 := by
  refine Prog.state_bind (P := Logged κ d₀) ?_ fun b t hrun _ => ?_
  · exact (reads_logged (batch_reads W mask)).state (fun _ _ h => h) (fun _ h => h) hw
  · rw [(batch_reads W mask).eq hrun]
    exact h

/-- A copy is written back over the entry it is allowed to replace. -/
theorem saveCopy {t : TxLogEntry} {p : Identifier} {d₀ : Rows Key Serializable} {w : Wallet}
    (h : Logged κ d₀ w) (hp : t.parentKeyId = p) (hrow : ∃ r, entryAt w.db p t.id = some r)
    (hc : ∀ r, entryAt w.db p t.id = some r → κ.change r t) :
    Logged κ d₀ (Batch.saveTxLogEntry t p w).2 := by
  obtain ⟨r, hr⟩ := hrow
  refine saveTxLogEntry_logged h hp (fun hk => h.ok.below hk hr) hc fun hn => ?_
  rw [hr] at hn
  cases hn

theorem commit_logged {α : Type} {p : WalletM α} {d₀ : Rows Key Serializable} {w : Wallet}
    (h : Logged κ d₀ (p w).2) : Logged κ d₀ ((p >>= fun _ => Batch.commit) w).2 :=
  Prog.state_bind h fun _ _ _ ht => ht

namespace Owner

variable {W} {mask : Option SecretKey} {w : Wallet}

/-- A call for the active account, if the policy serves that account. -/
theorem activeAccount_triple {d₀ : Rows Key Serializable} :
    Prog.Triple (fun w => Logged κ d₀ w ∧ κ.Serves w.parentKeyId) parentKeyId
      (fun p w => Logged κ d₀ w ∧ κ.Serves p) (Logged κ d₀) := by
  refine parentKeyId_reads.triple (fun w p h hrun => ?_) fun _ h => h.1
  cases hrun
  exact h

theorem updateOutputs_logged (ha : Act.refresh.Allowed κ W w) (hok : LogOk κ w.db) :
    Logged κ w.db (updateOutputs W mask w).2 := by
  refine logged_afterLock W hok fun hl => ?_
  refine (activeAccount_triple.bind fun p => .of_and fun hκ => ?_).state (Q := fun _ => Logged κ w.db)
    (fun _ _ h => h) (fun _ h => h) (And.intro hl ha)
  have ht : Prog.Triple (Logged κ w.db) (Prog.attempt (Updater.refreshOutputs W mask p))
      (fun _ => Logged κ w.db) (Logged κ w.db) :=
    (Updater.refreshOutputs_logged W hκ.refreshes mask).attempt (fun _ _ h => h) fun _ _ h => h
  refine ht.bind fun r => ?_
  split
  · exact reads_logged (.pure _)
  · exact reads_logged (.throw _)
  · exact reads_logged (.pure _)

theorem cancelActive_logged {txId : Option Nat} {txSlateId : Option Uuid}
    (ha : (Act.cancel txId txSlateId).Allowed κ W w) (hok : LogOk κ w.db) :
    Logged κ w.db ((walletLock W >>= fun _ => parentKeyId >>= fun parent =>
      Tx.cancelTx W mask parent txId txSlateId) w).2 := by
  refine logged_afterLock W hok fun hl => ?_
  exact (activeAccount_triple.bind fun p => .of_and fun hκ =>
    Tx.cancelTx_logged W hκ mask txId txSlateId).state (fun _ _ h => h) (fun _ h => h)
      (And.intro hl ha)

theorem markInMempool_logged {e : TxLogEntry} (ha : (Act.mark e).Allowed κ W w)
    (hok : LogOk κ w.db) (hrow : ∃ r, entryAt w.db e.parentKeyId e.id = some r) :
    Logged κ w.db (markInMempool W mask e w).2 := by
  obtain ⟨hp, hc⟩ := ha
  refine logged_afterLock W hok fun hl => ?_
  refine logged_batch W hl (commit_logged (saveCopy hl hp ?_ fun r hr => ?_))
  · rw [(locked_sameLog W w).entry, ← hp]
    exact hrow
  · rw [(locked_sameLog W w).entry, ← hp] at hr
    exact hc r hr

theorem saveConfirmed_logged {p : Identifier} {height : Nat} {e : TxLogEntry}
    (ha : (Act.confirm p e).Allowed κ W w) (hout : Updater.outstanding e = true)
    (hok : LogOk κ w.db) (hrow : ∃ r, entryAt w.db e.parentKeyId e.id = some r) :
    Logged κ w.db (saveConfirmed W mask p height e w).2 := by
  obtain ⟨rfl, hc⟩ := ha hout
  refine logged_afterLock W hok fun hl => logged_batch W hl ?_
  have hs : SameLog w { locked W w with tick := (locked W w).tick + 1 } :=
    ⟨(locked_sameLog W w).entry, (locked_sameLog W w).counter⟩
  have hl' := hs.logged ⟨hok, .refl κ _⟩
  refine commit_logged (p := Batch.saveTxLogEntry (e.confirmedAt _ height) e.parentKeyId)
    (saveCopy hl' rfl ?_ fun r hr => ?_)
  · rw [hs.entry]
    exact hrow
  · rw [hs.entry] at hr
    exact hc r _ height hr

end Owner

namespace Scan

variable {W} {mask : Option SecretKey} {w : Wallet}

theorem restoreMissingOutput_logged {o : OutputResult} {found : Rows Identifier Nat}
    (ha : (Act.restore o).Allowed κ W w) (hok : LogOk κ w.db) :
    Logged κ w.db (restoreMissingOutput W mask o found w).2 := by
  refine logged_afterLock W hok fun hl => ?_
  refine Prog.Triple.state (Q := fun _ => Logged κ w.db) (E := Logged κ w.db) ?_ (fun _ _ h => h)
    (fun _ h => h) hl
  refine (reads_logged (calcCommitForCache_reads W _ _ _)).bind fun commit =>
    (reads_logged (batch_reads W mask)).bind fun _ => ?_
  have hrest : ∀ found : Rows Identifier Nat, Prog.Triple (Logged κ w.db) (do
      let logId ← Batch.nextTxLogId o.keyId.parentPath
      let created ← nextTick
      let confirmed ← nextTick
      Batch.saveTxLogEntry (restoredEntry o o.keyId.parentPath logId (W.now created)
        (W.now confirmed)) o.keyId.parentPath
      let _ ← Prog.attempt (Batch.save (restoredOutput o o.keyId.parentPath commit logId))
      let maxChildIndex ← Prog.unwrap (found.get o.keyId.parentPath)
      Batch.commit
      pure (if o.nChild ≥ maxChildIndex then found.put o.keyId.parentPath o.nChild else found))
      (fun _ => Logged κ w.db) (Logged κ w.db) := by
    intro found
    refine (nextTxLogId_triple _).bind fun logId => (keeps_reserved sameLog_frees.nextTick).bind
      fun created => (keeps_reserved sameLog_frees.nextTick).bind fun confirmed => ?_
    refine Prog.Triple.bind (saveNew_triple ha ?_ ?_) fun _ => ?_
    · rfl
    · rfl
    · exact (keeps_logged (Batch.save_keeps (logStep_frees κ) (by decide) (by decide) _).attempt).bind
        fun _ => (reads_logged (Prog.Keeps.unwrap _)).bind fun _ => reads_logged (.pure _)
  exact hrest _

/-- The entry to cancel is a stored one of the account, with its type changed. -/
structure Cancels (κ : Policy) (d₀ : Rows Key Serializable) (p : Identifier) (r : Option TxLogEntry)
    (w : Wallet) : Prop where
  logged : Logged κ d₀ w
  entry : ∀ t, r = some t → ∃ t₀, Stored w.db t₀ ∧ t₀.parentKeyId = p ∧
    t = { t₀ with txType := Updater.cancelledType t₀.txType }

theorem cancelledEntry_triple {d₀ : Rows Key Serializable} (p : Identifier) (id : Option Nat) :
    Prog.Triple (Logged κ d₀) (cancelledEntry p id) (Cancels κ d₀ p) (Logged κ d₀) := by
  cases id with
  | none => exact .pure fun w h => ⟨h, fun _ ht => by cases ht⟩
  | some id =>
    refine (retrieveTxs_triple (some id) none (some p) false none).bind fun r => .pure fun w h => ?_
    refine ⟨h.1.logged, fun t ht => ?_⟩
    obtain ⟨t₀, ht₀, rfl⟩ := Option.map_eq_some_iff.1 ht
    have hmem := List.mem_of_head? ht₀
    exact ⟨t₀, h.1.stored t₀ hmem, (Updater.mem_selectedTxs.1 (h.2 t₀ hmem)).2.1 p rfl, rfl⟩

theorem cancelTxLogEntry_logged {o : OutputData} (ha : (Act.cancelEntry o).Allowed κ W w)
    (hok : LogOk κ w.db) : Logged κ w.db (cancelTxLogEntry W mask o w).2 := by
  refine logged_afterLock W hok fun hl => ?_
  refine Prog.Triple.state (Q := fun _ => Logged κ w.db) (E := Logged κ w.db) ?_ (fun _ _ h => h)
    (fun _ h => h) hl
  refine (cancelledEntry_triple o.keyId.parentPath o.txLogEntry).bind fun r => Prog.Triple.bind
    ((batch_reads W mask).triple (fun _ _ h _ => h) fun _ h => h.logged) fun _ => ?_
  refine Prog.Triple.bind (R := fun _ => Logged κ w.db) ?_ fun _ => reads_logged (.pure _)
  cases r with
  | none => exact .pure fun _ h => h.logged
  | some t =>
    refine Prog.triple_state fun w' h => ?_
    obtain ⟨t₀, hst, hp, rfl⟩ := h.entry t rfl
    rw [← hp]
    exact saveChanged h.logged hst rfl rfl (ha t₀ hp)

end Scan

/-! ## Importing -/

namespace Command

variable {W} {mask : Option SecretKey} {w : Wallet}

/-- An entry whose number is stored in its account is already present. -/
theorem alreadyPresent_of_stored {t r : TxLogEntry} (hok : LogOk κ w.db)
    (h : entryAt w.db t.parentKeyId t.id = some r) : alreadyPresent (txLogOf w.db) t = true := by
  unfold alreadyPresent
  rw [Bool.or_eq_true]
  refine .inl (List.any_eq_true.2 ⟨r, mem_txLogOf_iff.2 ⟨_, _, h⟩, ?_⟩)
  simpa using (hok.keyed h).2

/-- Saving an entry leaves the counters alone. -/
theorem saveTxLogEntry_counter (t : TxLogEntry) (p q : Identifier) (w : Wallet) :
    logCounter (Batch.saveTxLogEntry t p w).2.db q = logCounter w.db q := by
  unfold Batch.saveTxLogEntry put
  split
  · exact logCounter_put_entry _ _ _ _ _
  · rfl

theorem importTx_logged {txs : List TxLogEntry} (ha : (Act.imports txs).Allowed κ W w)
    (hok : LogOk κ w.db) : Logged κ w.db (importTx W mask txs w).2 := by
  refine logged_afterLock W hok fun hl => ?_
  have hread : txLogIter (locked W w) = (.ok (txLogOf w.db), locked W w) := by
    rw [← locked_db W w]
    rfl
  show Logged κ w.db ((txLogIter >>= _) (locked W w)).2
  rw [Prog.bind_of_ok hread]
  refine logged_batch W hl (commit_logged ?_)
  -- the numbers handed out stay as they were when the list was read
  let P : Wallet → Prop := fun w' =>
    Logged κ w.db w' ∧ ∀ q, logCounter w'.db q = logCounter w.db q
  have hP : P (locked W w) := ⟨hl, (locked_sameLog W w).counter⟩
  have hloop : Prog.Triple P (Prog.forEach txs fun t =>
      if alreadyPresent (txLogOf w.db) t then pure () else Batch.saveTxLogEntry t t.parentKeyId)
      (fun _ => P) P := by
    refine Prog.Triple.forEach fun t ht => .ite (fun _ => .pure fun _ h => h) fun hp => ?_
    have habs : alreadyPresent (txLogOf w.db) t = false := by simpa using hp
    obtain ⟨hid, hc, hch⟩ := ha t ht habs
    refine Prog.triple_state fun w' ⟨h, hsame⟩ => ⟨?_, fun q => ?_⟩
    · refine saveTxLogEntry_logged h rfl (fun hk => ?_) (fun r hr => ?_) fun _ => hc
      · rw [hsame]
        exact hid hk
      · rcases hold : entryAt w.db t.parentKeyId t.id with _ | r₀
        · exact hch r (h.follows.created hr hold) (h.ok.keyed hr).1 (h.ok.keyed hr).2
        · rw [alreadyPresent_of_stored hok hold] at habs
          cases habs
    · rw [saveTxLogEntry_counter, hsame]
  exact hloop.state (fun _ _ h => h.1) (fun _ h => h.1) hP

end Command

/-! ## What a call knows between two sections -/

/-- The log is well formed, and the copies in hand are still stored, the same or changed since. -/
structure Copies (κ : Policy) (l : List TxLogEntry) (w : Wallet) : Prop where
  ok : LogOk κ w.db
  stored : ∀ t ∈ l, ∃ r, entryAt w.db t.parentKeyId t.id = some r

theorem logStep_of {w w' : Wallet} (h : LogOk κ w.db → Logged κ w.db w') : LogStep κ w w' :=
  fun _ hw => ⟨(h hw.ok).ok, hw.follows.trans (h hw.ok).follows⟩

theorem Copies.of_logged {l : List TxLogEntry} {w w' : Wallet} (h : Copies κ l w)
    (hs : Logged κ w.db w') : Copies κ l w' := by
  refine ⟨hs.ok, fun t ht => ?_⟩
  obtain ⟨r, hr⟩ := h.stored t ht
  obtain ⟨r', hr', -⟩ := hs.follows.changed hr
  exact ⟨r', hr'⟩

theorem Copies.stable {l : List TxLogEntry} {w w' : Wallet} (h : Copies κ l w) (hs : LogStep κ w w') :
    Copies κ l w' := h.of_logged (hs w.db ⟨h.ok, .refl κ _⟩)

theorem copies_nil {w : Wallet} (h : LogOk κ w.db) : Copies κ [] w := ⟨h, fun _ ht => by cases ht⟩

section
variable {W} {ok : Act → Wallet → Prop} {l : List TxLogEntry}

/-- A section that leaves the log as it is. -/
theorem sat_quiet {α : Type} {a : Act} {p : WalletM α} (hp : Prog.Keeps SameLog p) :
    (Sections.one a p).Sat (Act.does W) (LogStep κ) ok (Copies κ l) fun _ => Copies κ l := by
  refine .one (fun _ _ _ => Copies.stable) (fun w _ _ κ' _ hk => ?_) ?_
  · exact (hp w).logged ⟨hk, .refl κ' _⟩
  · exact hp.triple (fun w _ _ h hs => h.1.of_logged (hs.logged ⟨h.1.ok, .refl κ _⟩))
      fun _ _ _ _ => trivial

/-- A section that copies entries of the log. -/
theorem sat_copies {α : Type} {p : WalletM α} (hp : Prog.Keeps SameLog p) {c : α → List TxLogEntry}
    {φ : α → Prop} (hc : ∀ w a w', LogOk κ w.db → p w = (.ok a, w') →
      (∀ t ∈ c a, Stored w'.db t) ∧ φ a) :
    (Sections.one .quiet p).Sat (Act.does W) (LogStep κ) ok (Copies κ l)
      fun a w => Copies κ (c a) w ∧ φ a := by
  refine .one (fun _ _ _ h hs => ⟨h.1.stable hs, h.2⟩) (fun w _ _ κ' _ hk => ?_)
    (.intro (fun w a w' h hrun => ?_) fun _ _ _ _ _ => trivial)
  · exact (hp w).logged ⟨hk, .refl κ' _⟩
  · have hs := (hp.rel hrun).logged ⟨h.1.ok, .refl κ _⟩
    obtain ⟨hst, hφ⟩ := hc w a w' h.1.ok hrun
    exact ⟨⟨hs.ok, fun t ht => ⟨t, hst t ht⟩⟩, hφ⟩

variable (hok : ∀ a w, ok a w → a.Allowed κ W w)
include hok

theorem sat_act {α : Type} {a : Act} {p : WalletM α}
    (h : ∀ {κ w}, a.Allowed κ W w → LogOk κ w.db →
      (∀ t ∈ l, ∃ r, entryAt w.db t.parentKeyId t.id = some r) → Logged κ w.db (p w).2) :
    (Sections.one a p).Sat (Act.does W) (LogStep κ) ok (Copies κ l) fun _ => Copies κ l := by
  refine .one (fun _ _ _ => Copies.stable) (fun w hw _ κ' ha hk => h ha hk hw.stored) ?_
  refine .intro (fun w r w' hw hrun => ?_) fun _ _ _ _ _ => trivial
  have hs := h (hok a w hw.2) hw.1.ok hw.1.stored
  rw [hrun] at hs
  exact hw.1.of_logged hs

/-- A section that does not use the copies in hand. -/
theorem sat_own {α : Type} {a : Act} {p : WalletM α}
    (h : ∀ {κ w}, a.Allowed κ W w → LogOk κ w.db → Logged κ w.db (p w).2) :
    (Sections.one a p).Sat (Act.does W) (LogStep κ) ok (Copies κ l) fun _ => Copies κ l :=
  sat_act hok fun ha hk _ => h ha hk

namespace Scan

omit hok in
theorem matchSections_sat (mask : Option SecretKey) (wo : List (OutputData × Commitment)) :
    ∀ outs : List OutputResult, (matchSections W mask wo outs).Sat (Act.does W) (LogStep κ) ok
      (Copies κ l) fun _ => Copies κ l
  | [] => .pure fun _ h => h
  | deffo :: outs => by
    unfold matchSections
    split
    · exact (sat_quiet (updateMmrIndex_keeps sameLog_frees W (walletLock_sameLog W) (by decide)
        (by decide) _ _ _)).bind fun _ => (matchSections_sat mask wo outs).bind fun _ =>
          .pure fun _ h => h
    · exact (matchSections_sat mask wo outs).bind fun _ => .pure fun _ h => h

theorem unspentSections_sat (mask : Option SecretKey) (o : OutputData) :
    (unspentSections W mask o).Sat (Act.does W) (LogStep κ) ok (Copies κ l) fun _ => Copies κ l :=
  (sat_own hok cancelTxLogEntry_logged).bind fun _ => sat_quiet ((walletLock_sameLog W).bind fun _ =>
    (batch_reads W mask).keeps.bind fun _ =>
      (Batch.save_keeps sameLog_frees (by decide) (by decide) _).bind fun _ => .pure _)

theorem unconfirmedSections_sat (mask : Option SecretKey) (o : OutputData) :
    (unconfirmedSections W mask o).Sat (Act.does W) (LogStep κ) ok (Copies κ l) fun _ => Copies κ l :=
  (sat_own hok cancelTxLogEntry_logged).bind fun _ => sat_quiet ((walletLock_sameLog W).bind fun _ =>
    (batch_reads W mask).keeps.bind fun _ =>
      (Batch.delete_keeps sameLog_frees (by decide) (by decide) _ _ _).bind fun _ => .pure _)

omit hok in
theorem restorePathSections_sat (mask : Option SecretKey) (accounts : List Identifier)
    (acctIndex : Nat) (found : Identifier × Nat) :
    (restorePathSections W mask accounts acctIndex found).Sat (Act.does W) (LogStep κ) ok (Copies κ l)
      fun _ => Copies κ l := by
  have hlock := walletLock_sameLog W
  refine Sections.Sat.bind (R := fun _ => Copies κ l) (.ite (fun _ => .pure fun _ h => h) fun _ =>
    (sat_quiet (hlock.bind fun _ => Keys.setAcctPath_keeps sameLog_frees W (by decide) _ _ _)).bind
      fun _ => .pure fun _ h => h) fun _ => ?_
  refine (sat_quiet (hlock.bind fun _ => (currentChildIndex_reads _).keeps)).bind fun _ => ?_
  refine Sections.Sat.bind (R := fun _ => Copies κ l) (.ite (fun _ => sat_quiet (hlock.bind fun _ =>
    (batch_reads W mask).keeps.bind fun _ => (addU32_reads _ _).keeps.bind fun _ =>
      (Batch.saveChildIndex_keeps sameLog_frees (by decide) _ _).bind fun _ => .pure _))
    fun _ => .pure fun _ h => h) fun _ => .pure fun _ h => h

theorem sections_sat (mask : Option SecretKey) (delete : Bool) (startHeight endHeight : Nat) :
    (sections W mask delete startHeight endHeight).Sat (Act.does W) (LogStep κ) ok (Copies κ l)
      fun _ => Copies κ l := by
  have hlock := walletLock_sameLog W
  refine (sat_quiet (hlock.bind fun _ => (keychain_reads W mask).keeps)).bind fun k => ?_
  refine (sat_quiet (sameLog_frees.nextTick.bind fun _ => Prog.Keeps.ofExcept _)).bind fun range => ?_
  refine (sat_quiet (collectFrom_keeps sameLog_frees W k _ _ _)).bind fun chainOuts => ?_
  refine (sat_quiet (hlock.bind fun _ => (Updater.retrieveOutputs_reads W _ _ _ _ _ _ _ _).keeps)).bind
    fun walletOutputs => (matchSections_sat mask _ _).bind fun found => ?_
  refine (Sections.Sat.forEach fun o _ => unspentSections_sat hok mask o).bind fun _ => ?_
  refine (Sections.Sat.foldlM fun parents m => sat_own hok restoreMissingOutput_logged).bind
    fun foundParents => ?_
  refine Sections.Sat.bind (R := fun _ => Copies κ l) (.ite (fun _ => ?_) fun _ => .pure fun _ h => h)
    fun _ => ?_
  · exact (Sections.Sat.forEach fun o _ => unspentSections_sat hok mask o).bind fun _ =>
      Sections.Sat.forEach fun o _ => unconfirmedSections_sat hok mask o
  · refine (sat_quiet (hlock.bind fun _ => acctPathIter_reads.keeps)).bind fun accounts =>
      (sat_quiet sameLog_frees.nextTick).bind fun tick => ?_
    exact (Sections.Sat.foldlM fun i found => restorePathSections_sat mask _ i found).bind fun _ =>
      .pure fun _ h => h

end Scan

namespace Owner

omit hok in
/-- The log read after the lock was taken. -/
theorem stored_of_locked {w w' : Wallet} {α : Type} {p : WalletM α} (hp : Prog.Reads p) {a : α}
    (hk : LogOk κ w.db) (h : (walletLock W >>= fun _ => p) w = (.ok a, w')) :
    p w' = (.ok a, w') ∧ LogOk κ w'.db := by
  obtain ⟨_, w₁, hl, h⟩ := Prog.bind_ok.1 h
  obtain rfl := hp.eq h
  exact ⟨h, (((walletLock_sameLog W).rel hl).logged ⟨hk, .refl κ _⟩).ok⟩

theorem waitSections_sat (mask : Option SecretKey) (txSlateId : Uuid) :
    ∀ (n : Nat) {l : List TxLogEntry}, (waitSections W mask txSlateId n).Sat (Act.does W) (LogStep κ) ok
      (Copies κ l) fun _ => Copies κ []
  | 0, _ => .pure fun _ h => copies_nil h.ok
  | n + 1, _ => by
    have hlock := walletLock_sameLog W
    refine (sat_quiet (hlock.bind fun _ => sameLog_frees.nextTick.bind fun _ => Prog.Keeps.ofExcept _)).bind
      fun mempool => Sections.Sat.bind (sat_copies (c := id) (φ := fun _ => True)
        (hlock.bind fun _ => txLogIter_reads.keeps) fun w txs w' hk hrun => ⟨fun t ht => ?_, trivial⟩)
        fun txs => .of_and fun _ => ?_
    · obtain ⟨hp, hk'⟩ := stored_of_locked txLogIter_reads hk hrun
      cases hp
      exact stored_of_mem ⟨hk', .refl κ _⟩ ht
    · refine Sections.Sat.bind (R := fun _ => Copies κ txs) (.forEach fun e he => ?_) fun _ =>
        .ite (fun _ => waitSections_sat mask txSlateId n) fun _ => .pure fun _ h => copies_nil h.ok
      exact sat_act hok fun ha hk hst => markInMempool_logged ha hk (hst e (List.mem_filter.1 he).1)

theorem lookupSections_sat (mask : Option SecretKey) (parent : Identifier) (height : Nat)
    {txs : List TxLogEntry} (hout : ∀ t ∈ txs, Updater.outstanding t = true) :
    ∀ l : List TxLogEntry, (∀ t ∈ l, t ∈ txs) → (lookupSections W mask parent height l).Sat
      (Act.does W) (LogStep κ) ok (Copies κ txs) fun _ => Copies κ txs
  | [], _ => .pure fun _ h => h
  | tx :: l, hl => by
    have hrest := lookupSections_sat mask parent height hout l fun t ht => hl t (List.mem_cons_of_mem _ ht)
    have htx := hl tx List.mem_cons_self
    unfold lookupSections
    refine .ite (fun _ => hrest) fun _ => ?_
    split
    · exact hrest
    · refine (sat_quiet sameLog_frees.nextTick).bind fun tick => ?_
      split
      · exact .pure fun _ h => h
      · exact hrest
      · exact (sat_act hok fun ha hk hst => saveConfirmed_logged ha (hout tx htx) hk (hst tx htx)).bind
          fun _ => hrest

theorem kernelSections_sat (mask : Option SecretKey) {txs : List TxLogEntry}
    (hout : ∀ t ∈ txs, Updater.outstanding t = true) : (kernelSections W mask txs).Sat (Act.does W)
      (LogStep κ) ok (Copies κ txs) fun _ => Copies κ txs := by
  have hlock := walletLock_sameLog W
  refine (sat_quiet (hlock.bind fun _ => parentKeyId_reads.keeps)).bind fun parent =>
    (sat_quiet hlock).bind fun _ =>
      (sat_quiet (Updater.getChainTip_keeps sameLog_frees W).attempt).bind fun tip => ?_
  split
  · exact .pure fun _ h => h
  · exact lookupSections_sat hok mask parent _ hout txs fun _ h => h

theorem scanSections_sat (mask : Option SecretKey) (tip : Nat × String) :
    (scanSections W mask tip).Sat (Act.does W) (LogStep κ) ok (Copies κ l) fun _ => Copies κ l := by
  have hlock := walletLock_sameLog W
  refine (sat_quiet (hlock.bind fun _ => (scanStart_reads tip).keeps)).bind fun last =>
    (Scan.sections_sat hok mask _ _ _).bind fun info => sat_quiet (hlock.bind fun _ =>
      (batch_reads W mask).keeps.bind fun _ => (sameLog_frees.put (by decide) (by trivial)).bind fun _ =>
        (sameLog_frees.put (by decide) (by trivial)).bind fun _ => .pure _)

theorem tipSections_sat (mask : Option SecretKey) (txs : List TxLogEntry) :
    (tipSections W mask txs).Sat (Act.does W) (LogStep κ) ok (Copies κ l) fun _ => Copies κ l := by
  refine (sat_quiet (Updater.getChainTip_keeps sameLog_frees W).attempt).bind fun tip => ?_
  split
  · exact .pure fun _ h => h
  · refine (scanSections_sat hok mask _).bind fun _ => Sections.Sat.bind (R := fun _ => Copies κ l)
      (.forEach fun tx _ => ?_) fun _ => .pure fun _ h => h
    unfold expireSections
    split
    · exact .pure fun _ h => h
    · exact .ite (fun _ => sat_own hok cancelActive_logged) fun _ => .pure fun _ h => h

theorem updateSections_sat (mask : Option SecretKey) :
    (updateSections W mask).Sat (Act.does W) (LogStep κ) ok (Copies κ l) fun _ => Copies κ [] := by
  have hlock := walletLock_sameLog W
  refine (sat_quiet (hlock.bind fun _ => parentKeyId_reads.keeps)).bind fun parent =>
    (sat_quiet hlock).bind fun _ => (sat_own hok updateOutputs_logged).bind fun result =>
      .ite (fun _ => .pure fun _ h => copies_nil h.ok) fun _ => ?_
  refine Sections.Sat.bind (sat_copies (c := fun r => r.2.2)
    (φ := fun r => ∀ t ∈ r.2.2, Updater.outstanding t = true)
    (hlock.bind fun _ => (Updater.retrieveTxs_reads _ _ _ _ _ _ _).keeps)
    fun w r w' hk hrun => ?_) fun txs => .of_and fun hout => ?_
  · obtain ⟨hp, hk'⟩ := stored_of_locked (Updater.retrieveTxs_reads _ _ _ _ _ _ _) hk hrun
    obtain ⟨hh, hsel⟩ := (retrieveTxs_triple (κ := κ) none none (some parent) true none).ok
      ⟨hk', .refl κ _⟩ hp
    exact ⟨hh.stored, fun t ht => (Updater.mem_selectedTxs.1 (hsel t ht)).2.2.2.2 rfl⟩
  · refine (kernelSections_sat hok mask hout).bind fun result =>
      .ite (fun _ => .pure fun _ h => copies_nil h.ok) fun _ => ?_
    exact (tipSections_sat hok mask _).mono (fun _ h => h) fun _ _ h => copies_nil h.ok

theorem cancelSections_sat (mask : Option SecretKey) (txId : Option Nat) (txSlateId : Option Uuid) :
    (cancelSections W mask txId txSlateId).Sat (Act.does W) (LogStep κ) ok (Copies κ l)
      fun _ => Copies κ [] :=
  (updateSections_sat hok mask).bind fun _ => .ite (fun _ => sat_quiet (.throw _)) fun _ =>
    sat_own hok cancelActive_logged

theorem ownerScanSections_sat (mask : Option SecretKey) (startHeight : Option Nat) (delete : Bool) :
    (ownerScanSections W mask startHeight delete).Sat (Act.does W) (LogStep κ) ok (Copies κ l)
      fun _ => Copies κ l := by
  have hlock := walletLock_sameLog W
  refine (sat_own hok updateOutputs_logged).bind fun _ => (sat_quiet (hlock.bind fun _ =>
    Updater.getChainTip_keeps sameLog_frees W)).bind fun tip =>
      (Scan.sections_sat hok mask _ _ _).bind fun info => sat_quiet (hlock.bind fun _ =>
        (batch_reads W mask).keeps.bind fun _ =>
          (sameLog_frees.put (by decide) (by trivial)).bind fun _ => .pure _)

end Owner

theorem Op.sat_call {op : Op} (hlock : op.holdsLock = true) :
    (Sections.one (.call op) (op.prog W)).Sat (Act.does W) (LogStep κ) ok (Copies κ l)
      fun _ => Copies κ l :=
  sat_own (a := .call op) hok fun ha hk => logged_of_allowed hlock ha hk

/-- Every section of an operation does to the log what its act allows, whatever the other calls did in
between. -/
theorem Op.sections_sat (op : Op) : (op.sections W).Sat (Act.does W) (LogStep κ) ok
    (fun w => LogOk κ w.db) fun _ _ => True := by
  refine Sections.Sat.mono (P := Copies κ []) (Q := fun _ _ => True) ?_ (fun _ h => copies_nil h)
    fun _ _ h => h
  cases op with
  | waitForTxInMempool mask txSlateId attempts =>
    exact (Owner.waitSections_sat hok mask txSlateId attempts).bind fun _ => .pure fun _ _ => trivial
  | updateWalletState mask =>
    exact (Owner.updateSections_sat hok mask).bind fun _ => .pure fun _ _ => trivial
  | cancelTx mask txId txSlateId =>
    exact (Owner.cancelSections_sat hok mask txId txSlateId).mono (fun _ h => h) fun _ _ _ => trivial
  | scan mask startHeight delete =>
    exact (Owner.ownerScanSections_sat hok mask startHeight delete).mono (fun _ h => h)
      fun _ _ _ => trivial
  | _ => exact (sat_call hok rfl).mono (fun _ h => h) fun _ _ _ => trivial

end

/-! ## Interleavings -/

/-- The calls in progress on a wallet. -/
abbrev Calls : Type 1 := Pool Wallet Error Act

namespace Calls

/-- A new wallet, with no call in progress. -/
def new (k : Keychain) (checksum : Nat) (status : WalletInitStatus) : Calls :=
  ⟨Op.created k checksum status, []⟩

/-- The log is well formed, and every call in progress knows what it needs. -/
abbrev Informed (κ : Policy) (W : World) (ok : Act → Wallet → Prop) (x : Calls) : Prop :=
  Pool.Sound (Act.does W) (LogStep κ) ok (fun w => LogOk κ w.db) x

theorem entryAt_new {k : Keychain} {checksum : Nat} {status : WalletInitStatus} (p : Identifier)
    (i : Nat) : entryAt (Op.created k checksum status).db p i = none := by
  rcases h : entryAt (Op.created k checksum status).db p i with _ | t
  · rfl
  · rcases Op.created_get (entryAt_eq.1 h) with h | h <;> cases h

theorem informed_new {W : World} {ok : Act → Wallet → Prop} (k : Keychain) (checksum : Nat)
    (status : WalletInitStatus) : Informed κ W ok (new k checksum status) := by
  refine .new ⟨fun h => ?_, fun _ _ _ _ h => ?_⟩
  · rw [entryAt_new] at h
    cases h
  · rw [entryAt_new] at h
    cases h

section
variable {W : World} {ok : Act → Wallet → Prop} {ι : Type} {prog : ι → Call Unit}
  (hok : ∀ a w, ok a w → a.Allowed κ W w) (hprog : ∀ i, (prog i).Sat (Act.does W) (LogStep κ) ok
    (fun w => LogOk κ w.db) fun _ _ => True)
include hok hprog

/-- One step of an interleaving: the section does to the log what its act says. -/
theorem informed_step {x y : Calls} {a : Option Act} (hx : Informed κ W ok x)
    (h : Pool.Step prog x a y) (ha : Pool.Allows ok a x.state) :
    Informed κ W ok y ∧ LogStep κ x.state y.state ∧ ∀ a', a = some a' → a'.does W x.state y.state :=
  hx.step (fun s _ hs hst => (hst s.db ⟨hs, .refl κ _⟩).ok)
    (fun a w _ _ ha hd => logStep_of (hd κ (hok a w ha))) hprog h ha

/-- Every interleaving keeps the log well formed and changes it as the policy allows. -/
theorem logStep_of_run {x y : Calls} (hx : Informed κ W ok x) (h : Pool.Run prog ok x y) :
    Informed κ W ok y ∧ LogStep κ x.state y.state :=
  hx.run (fun s _ hs hst => (hst s.db ⟨hs, .refl κ _⟩).ok)
    (fun a w _ _ ha hd => logStep_of (hd κ (hok a w ha))) hprog h

end

end Calls

end EpicWallet
