import EpicWallet.Libwallet.Proof.Touches

/-!
# Runs of the wallet

The operations of the owner and the foreign API as one type, and the runs of a wallet: any
operations in any order, each with any outcome. A failed or panicking operation leaves what it wrote.
`Op.prog_keeps` is the frame of all of them: what every single write keeps, every operation keeps.
-/

namespace EpicWallet

open Lib WalletBackend

/-- An operation of the wallet, with its arguments. -/
inductive Op where
  | createAccountPath (mask : Option SecretKey) (label : String)
  | setActiveAccount (label : String)
  | initSendTx (mask : Option SecretKey) (args : InitTxArgs)
  | issueInvoiceTx (mask : Option SecretKey) (args : IssueInvoiceTxArgs)
  | processInvoiceTx (mask : Option SecretKey) (slate : Slate) (args : InitTxArgs)
  | txLockOutputs (mask : Option SecretKey) (slate : Slate) (participantId : Nat)
      (addrTo : Option String)
  | finalizeTx (mask : Option SecretKey) (slate : Slate)
  | receiveTx (mask : Option SecretKey) (slate : Slate) (destAcctName : Option String)
      (message addrFrom : Option String)
  | finalizeInvoiceTx (mask : Option SecretKey) (slate : Slate)
  | cancelTx (mask : Option SecretKey) (txId : Option Nat) (txSlateId : Option Uuid)
  | updateMempoolStatus (mask : Option SecretKey) (slate : Slate)
  | waitForTxInMempool (mask : Option SecretKey) (txSlateId : Uuid) (attempts : Nat)
  | updateWalletState (mask : Option SecretKey)
  | scan (mask : Option SecretKey) (startHeight : Option Nat) (deleteUnconfirmed : Bool)
  | buildCoinbase (mask : Option SecretKey) (blockFees : Updater.BlockFees)
  | buildFoundation (mask : Option SecretKey) (blockFees : Updater.BlockFees)

namespace Op

variable (W : World)

/-- The operation, its answer aside. -/
def prog : Op → WalletM Unit
  | createAccountPath mask label => do let _ ← Owner.createAccountPath W mask label
  | setActiveAccount label => Owner.setActiveAccount label
  | initSendTx mask args => do let _ ← Owner.initSendTx W mask args
  | issueInvoiceTx mask args => do let _ ← Owner.issueInvoiceTx W mask args
  | processInvoiceTx mask slate args => do let _ ← Owner.processInvoiceTx W mask slate args
  | txLockOutputs mask slate participantId addrTo =>
    Owner.txLockOutputs W mask slate participantId addrTo
  | finalizeTx mask slate => do let _ ← Owner.finalizeTx W mask slate
  | receiveTx mask slate destAcctName message addrFrom => do
    let _ ← Foreign.receiveTx W mask slate destAcctName message addrFrom
  | finalizeInvoiceTx mask slate => do let _ ← Foreign.finalizeInvoiceTx W mask slate
  | cancelTx mask txId txSlateId => Owner.cancelTx W mask txId txSlateId
  | updateMempoolStatus mask slate => Owner.updateMempoolStatus W mask slate
  | waitForTxInMempool mask txSlateId attempts => do
    let _ ← Owner.waitForTxInMempool W mask txSlateId attempts
  | updateWalletState mask => do let _ ← Owner.updateWalletState W mask
  | scan mask startHeight deleteUnconfirmed => Owner.scan W mask startHeight deleteUnconfirmed
  | buildCoinbase mask blockFees => do let _ ← Foreign.buildCoinbase W mask blockFees
  | buildFoundation mask blockFees => do let _ ← Foreign.buildFoundation W mask blockFees

/-- The wallet after the operation, whatever its outcome. -/
def run (op : Op) (w : Wallet) : Wallet := (op.prog W w).2

/-- The operation returned an error. -/
def Fails (op : Op) (w : Wallet) : Prop := ∃ e, (op.prog W w).1 = .error (.err e)

end Op

/-- The steps of a run: each operation with the wallet it found. -/
def steps (W : World) : List Op → Wallet → List (Op × Wallet)
  | [], _ => []
  | op :: ops, w => (op, w) :: steps W ops (op.run W w)

/-- The wallet after a run. -/
def runAll (W : World) : List Op → Wallet → Wallet
  | [], w => w
  | op :: ops, w => runAll W ops (op.run W w)

/-- What every step keeps, the run keeps. -/
theorem runAll_of_steps {W : World} {I : Wallet → Prop} {ok : Op → Wallet → Prop}
    (hstep : ∀ op w, ok op w → I w → I (op.run W w)) :
    ∀ {ops : List Op} {w : Wallet}, (∀ s ∈ steps W ops w, ok s.1 s.2) → I w → I (runAll W ops w)
  | [], _, _, h => h
  | op :: ops, w, hok, h => by
    show I (runAll W ops (op.run W w))
    refine runAll_of_steps hstep (fun s hs => hok s (List.mem_cons_of_mem _ hs)) ?_
    exact hstep op w (hok (op, w) List.mem_cons_self) h

/-- What every step keeps holds whenever an operation of the run starts. -/
theorem steps_of_steps {W : World} {I : Wallet → Prop} {ok : Op → Wallet → Prop}
    (hstep : ∀ op w, ok op w → I w → I (op.run W w)) :
    ∀ {ops : List Op} {w : Wallet}, (∀ s ∈ steps W ops w, ok s.1 s.2) → I w →
      ∀ s ∈ steps W ops w, I s.2
  | [], _, _, _, _, hs => by cases hs
  | op :: ops, w, hok, h, s, hs => by
    rcases List.mem_cons.1 hs with rfl | hs
    · exact h
    · refine steps_of_steps hstep (fun s hs => hok s (List.mem_cons_of_mem _ hs)) ?_ s hs
      exact hstep op w (hok (op, w) List.mem_cons_self) h

/-! ## What every operation keeps -/

/-- All kinds of rows. -/
def allRows : List RowKind :=
  [.output, .history, .deriv, .height, .context, .entry, .logId, .account, .scanned, .status]

theorem mem_allRows (k : RowKind) : k ∈ allRows := by
  cases k <;> decide

section
variable {R : Wallet → Wallet → Prop} [Std.Refl R] [IsTrans Wallet R] (W : World)
  (hF : Frees R allRows) (hset : ∀ id, Prog.Keeps R (setParentKeyId id))

section
include hset

/-- Activating an account changes the field beside the store only. -/
theorem setParentKeyIdByName_keeps (label : String) : Prog.Keeps R (setParentKeyIdByName label) := by
  refine acctPathIter_reads.keeps.bind fun l => ?_
  split
  · exact hset _
  · exact .throw _

omit hF in
theorem walletLock_keeps {S : List RowKind} (hF : Frees R S) : Prog.Keeps R (walletLock W) :=
  hF.nextTick.bind fun _ => .ite (fun _ => .panic) fun _ => Prog.Keeps.forEach _ fun _ _ =>
    (setParentKeyIdByName_keeps hset _).attempt.bind fun _ => .pure _

end

/-- Finalizing touches entries and the context of the slate. -/
theorem Owner.finalizeTx_keeps {S : List RowKind} (hF : Frees R S) (he : .entry ∈ S) (hc : .context ∈ S)
    (mask : Option SecretKey) (slate : Slate) : Prog.Keeps R (finalizeTx W mask slate) := by
  refine (checkTtl_reads _).keeps.bind fun _ => (getPrivateContext_reads W _ _ _).keeps.bind fun _ =>
    parentKeyId_reads.keeps.bind fun _ => ((Tx.completeTx_aside W _ _ _ _).mono hF.aside).bind fun _ => ?_
  refine (Tx.verifySlatePaymentProof_reads W _ _ _ _).keeps.bind fun _ =>
    (Tx.updateStoredTx_keeps hF W he _ _ _ _).bind fun _ => ?_
  exact (Tx.updateEntries_keeps hF W he _ _ _ _).bind fun _ =>
    (deleteContext_keeps hF W hc _ _ _).bind fun _ => .pure _

theorem Foreign.finalizeInvoiceTx_keeps {S : List RowKind} (hF : Frees R S) (he : .entry ∈ S)
    (hc : .context ∈ S) (mask : Option SecretKey) (slate : Slate) :
    Prog.Keeps R (finalizeInvoiceTx W mask slate) := by
  refine (checkTtl_reads _).keeps.bind fun _ => (getPrivateContext_reads W _ _ _).keeps.bind fun _ =>
    ((Tx.completeTx_aside W _ _ _ _).mono hF.aside).bind fun _ =>
      (Tx.updateStoredTx_keeps hF W he _ _ _ _).bind fun _ => ?_
  exact (Tx.updateEntries_keeps hF W he _ _ _ _).bind fun _ =>
    (Owner.deleteContext_keeps hF W hc _ _ _).bind fun _ => .pure _

include hF

namespace Owner

theorem initSendTx_keeps (mask : Option SecretKey) (args : InitTxArgs) :
    Prog.Keeps R (initSendTx W mask args) := by
  refine (accountNamed_reads _).keeps.bind fun _ => (truncateMessage_reads _).keeps.bind fun _ =>
    (Tx.newTxSlate_keeps hF W _ _ _).bind fun _ => .ite (fun _ => ?_) fun _ => ?_
  · exact (Tx.estimateSendTx_keeps hF W (fun k _ => mem_allRows k) _ _ _ _ _ _ _).bind
      fun _ => .pure _
  · refine (Tx.addInputsToSlate_keeps hF W (fun k _ => mem_allRows k) _ _ _ _ _ _ _ _ _ _).bind
      fun _ => (addProofInfo_reads W _ _ _ _ _).keeps.bind fun _ => ?_
    exact (saveContext_keeps hF W (mem_allRows _) _ _ _ _).bind fun _ => .pure _

theorem issueInvoiceTx_keeps (mask : Option SecretKey) (args : IssueInvoiceTxArgs) :
    Prog.Keeps R (issueInvoiceTx W mask args) := by
  refine (accountNamed_reads _).keeps.bind fun _ => (truncateMessage_reads _).keeps.bind fun _ =>
    (Tx.newTxSlate_keeps hF W _ _ _).bind fun _ => ?_
  exact (Tx.addOutputToSlate_keeps hF W (fun k _ => mem_allRows k) _ _ _ _ _ _).bind fun _ =>
    (saveContext_keeps hF W (mem_allRows _) _ _ _ _).bind fun _ => .pure _

theorem processInvoiceTx_keeps (mask : Option SecretKey) (slate : Slate) (args : InitTxArgs) :
    Prog.Keeps R (processInvoiceTx W mask slate args) := by
  refine (checkTtl_reads _).keeps.bind fun _ => (accountNamed_reads _).keeps.bind fun _ =>
    (Updater.retrieveTxs_reads _ _ _ _ _ _ _).keeps.bind fun _ => .ite (fun _ => .throw _) fun _ => ?_
  refine (truncateMessage_reads _).keeps.bind fun _ => (Updater.getChainTip_keeps hF W).bind fun _ =>
    (updateHeights_reads _ _ _).keeps.bind fun _ => ?_
  exact (Tx.addInputsToSlate_keeps hF W (fun k _ => mem_allRows k) _ _ _ _ _ _ _ _ _ _).bind
    fun _ => (saveContext_keeps hF W (mem_allRows _) _ _ _ _).bind fun _ => .pure _

theorem txLockOutputs_keeps (mask : Option SecretKey) (slate : Slate) (participantId : Nat)
    (addrTo : Option String) : Prog.Keeps R (txLockOutputs W mask slate participantId addrTo) :=
  (getPrivateContext_reads W _ _ _).keeps.bind fun _ => Selection.lockTxContext_keeps hF W
    (mem_allRows _) (mem_allRows _) (mem_allRows _) (mem_allRows _) _ _ _ _

end Owner

namespace Foreign

theorem receiveTx_keeps (mask : Option SecretKey) (slate : Slate) (destAcctName : Option String)
    (message addrFrom : Option String) :
    Prog.Keeps R (receiveTx W mask slate destAcctName message addrFrom) := by
  refine (checkTtl_reads _).keeps.bind fun _ => (accountNamed_reads _).keeps.bind fun _ =>
    (Updater.retrieveTxs_reads _ _ _ _ _ _ _).keeps.bind fun _ => .ite (fun _ => .throw _) fun _ => ?_
  refine (truncateMessage_reads _).keeps.bind fun _ =>
    (Tx.addOutputToSlate_keeps hF W (fun k _ => mem_allRows k) _ _ _ _ _ _).bind fun _ => ?_
  refine (Tx.updateEntries_keeps hF W (mem_allRows _) _ _ _ _).bind fun _ =>
    (Tx.updateEntries_keeps hF W (mem_allRows _) _ _ _ _).bind fun _ => ?_
  exact (keychain_reads W _).keeps.bind fun _ => (Prog.Keeps.ofExcept _).bind fun _ =>
    (signProof_reads W _ _ _ _).keeps

end Foreign

include hset

namespace Owner

theorem waitForTxInMempool_keeps (mask : Option SecretKey) (txSlateId : Uuid) :
    ∀ attempts, Prog.Keeps R (waitForTxInMempool W mask txSlateId attempts)
  | 0 => .pure _
  | attempts + 1 => by
    have hlock := walletLock_keeps W hset hF
    refine hlock.bind fun _ => hF.nextTick.bind fun _ => (Prog.Keeps.ofExcept _).bind fun _ =>
      hlock.bind fun _ => txLogIter_reads.keeps.bind fun _ => Prog.Keeps.bind ?_ fun _ => ?_
    · exact Prog.Keeps.forEach _ fun _ _ => hlock.bind fun _ => parentKeyId_reads.keeps.bind fun _ =>
        (batch_reads W mask).keeps.bind fun _ =>
          (Batch.saveTxLogEntry_keeps hF (mem_allRows _) _ _).bind fun _ => .pure _
    · exact .ite (fun _ => waitForTxInMempool_keeps mask txSlateId attempts) fun _ => .pure _

theorem updateWalletState_keeps (mask : Option SecretKey) :
    Prog.Keeps R (updateWalletState W mask) := by
  have hlock := walletLock_keeps W hset hF
  refine hlock.bind fun _ => parentKeyId_reads.keeps.bind fun _ => hlock.bind fun _ =>
    (updateOutputs_keeps hF W hlock (fun k _ => mem_allRows k) _).bind fun _ =>
      .ite (fun _ => .pure _) fun _ => ?_
  refine hlock.bind fun _ => (Updater.retrieveTxs_reads _ _ _ _ _ _ _).keeps.bind fun _ =>
    (updateTxsViaKernel_keeps hF W hlock (mem_allRows _) _ _).bind fun _ =>
      .ite (fun _ => .pure _) fun _ => ?_
  refine (Updater.getChainTip_keeps hF W).attempt.bind fun r => ?_
  split
  · exact .pure _
  · refine Prog.Keeps.bind ?_ fun _ => Prog.Keeps.bind (Prog.Keeps.forEach _ fun _ _ =>
      cancelExpired_keeps hF W hlock (mem_allRows _) (mem_allRows _) (mem_allRows _) _ _ _)
        fun _ => .pure _
    refine hlock.bind fun _ => (scanStart_reads _).keeps.bind fun _ =>
      (Scan.scan_keeps hF W hlock (fun k _ => mem_allRows k) _ _ _ _).bind fun _ => ?_
    exact hlock.bind fun _ => (batch_reads W mask).keeps.bind fun _ =>
      Prog.Keeps.bind (hF.put (mem_allRows _) (by trivial)) fun _ =>
        Prog.Keeps.bind (hF.put (mem_allRows _) (by trivial)) fun _ => .pure _

theorem cancelTx_keeps (mask : Option SecretKey) (txId : Option Nat) (txSlateId : Option Uuid) :
    Prog.Keeps R (cancelTx W mask txId txSlateId) :=
  (updateWalletState_keeps W hF hset _).bind fun _ => .ite (fun _ => .throw _) fun _ =>
    (walletLock_keeps W hset hF).bind fun _ => parentKeyId_reads.keeps.bind fun _ =>
      Tx.cancelTx_keeps hF W (mem_allRows _) (mem_allRows _) (mem_allRows _) _ _ _ _

theorem scan_keeps (mask : Option SecretKey) (startHeight : Option Nat) (deleteUnconfirmed : Bool) :
    Prog.Keeps R (scan W mask startHeight deleteUnconfirmed) := by
  have hlock := walletLock_keeps W hset hF
  refine (updateOutputs_keeps hF W hlock (fun k _ => mem_allRows k) _).bind fun _ => hlock.bind fun _ =>
    (Updater.getChainTip_keeps hF W).bind fun _ =>
      (Scan.scan_keeps hF W hlock (fun k _ => mem_allRows k) _ _ _ _).bind fun _ => ?_
  exact hlock.bind fun _ => (batch_reads W mask).keeps.bind fun _ =>
    Prog.Keeps.bind (hF.put (mem_allRows _) (by trivial)) fun _ => .pure _

end Owner

/-- What every write of a row and the activation of an account keep, every operation keeps. -/
theorem Op.prog_keeps : ∀ op : Op, Prog.Keeps R (op.prog W)
  | .createAccountPath _ _ =>
    (Keys.newAcctPath_keeps hF W (mem_allRows _) _ _).bind fun _ => .pure _
  | .setActiveAccount _ => setParentKeyIdByName_keeps hset _
  | .initSendTx _ _ => (Owner.initSendTx_keeps W hF _ _).bind fun _ => .pure _
  | .issueInvoiceTx _ _ => (Owner.issueInvoiceTx_keeps W hF _ _).bind fun _ => .pure _
  | .processInvoiceTx _ _ _ => (Owner.processInvoiceTx_keeps W hF _ _ _).bind fun _ => .pure _
  | .txLockOutputs _ _ _ _ => Owner.txLockOutputs_keeps W hF _ _ _ _
  | .finalizeTx _ _ =>
    (Owner.finalizeTx_keeps W hF (mem_allRows _) (mem_allRows _) _ _).bind fun _ => .pure _
  | .receiveTx _ _ _ _ _ => (Foreign.receiveTx_keeps W hF _ _ _ _ _).bind fun _ => .pure _
  | .finalizeInvoiceTx _ _ =>
    (Foreign.finalizeInvoiceTx_keeps W hF (mem_allRows _) (mem_allRows _) _ _).bind fun _ => .pure _
  | .cancelTx _ _ _ => Owner.cancelTx_keeps W hF hset _ _ _
  | .updateMempoolStatus _ _ => Tx.updateMempoolStatus_keeps hF W (mem_allRows _) _ _
  | .waitForTxInMempool _ _ _ =>
    (Owner.waitForTxInMempool_keeps W hF hset _ _ _).bind fun _ => .pure _
  | .updateWalletState _ => (Owner.updateWalletState_keeps W hF hset _).bind fun _ => .pure _
  | .scan _ _ _ => Owner.scan_keeps W hF hset _ _ _
  | .buildCoinbase _ _ => (Updater.receiveReward_keeps hF W (mem_allRows _) (mem_allRows _)
    (mem_allRows _) _ _ _ _).bind fun _ => .pure _
  | .buildFoundation _ _ => (Updater.receiveReward_keeps hF W (mem_allRows _) (mem_allRows _)
    (mem_allRows _) _ _ _ _).bind fun _ => .pure _

end

end EpicWallet
