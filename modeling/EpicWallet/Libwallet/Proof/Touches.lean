import EpicWallet.Libwallet.Proof.Lock
import EpicWallet.Libwallet.Proof.Receive

/-!
# Which rows an operation may touch

Which kinds of rows each function of the wallet writes, in the order of the modules: a relation `R`
that is free of these kinds (`Frees R S`) is kept by the function, whatever it is about. `Touches S`,
"only rows of the kinds in `S` differ", is the least such relation (`touches_frees`). Functions that
release the wallet's lock ask for a relation that taking it keeps (`walletLock_touches`).
-/

namespace EpicWallet

open Lib WalletBackend

/-- The kinds of rows of the store. -/
inductive RowKind where
  | output
  | history
  | deriv
  | height
  | context
  | entry
  | logId
  | account
  | scanned
  | status
deriving DecidableEq

def Key.kind : Key → RowKind
  | .output _ _ => .output
  | .outputHistory _ => .history
  | .outputHistoryId => .history
  | .deriv _ => .deriv
  | .confirmedHeight _ => .height
  | .privateTxContext _ _ => .context
  | .txLogEntry _ _ => .entry
  | .txLogId _ => .logId
  | .accountPathMapping _ => .account
  | .lastScannedBlock => .scanned
  | .walletInitStatus => .status

/-- Only rows of the kinds in `S` differ. -/
def Touches (S : List RowKind) (w w' : Wallet) : Prop :=
  ∀ k, k.kind ∉ S → w'.db.get k = w.db.get k

instance {S : List RowKind} : Std.Refl (Touches S) := ⟨fun _ _ _ => rfl⟩

instance {S : List RowKind} : IsTrans Wallet (Touches S) where
  trans _ _ _ h h' k hk := (h' k hk).trans (h k hk)

/-- A row of a kind that is not touched. -/
theorem Touches.get {S : List RowKind} {w w' : Wallet} (h : Touches S w w') {k : Key}
    (hk : k.kind ∉ S) : w'.db.get k = w.db.get k := h k hk

/-- An output is stored under the key it names, and under the key of a context is a context. -/
def Key.Fits : Key → Serializable → Prop
  | .output id mmrIndex, .outputData o => o.keyId = id ∧ o.mmrIndex = mmrIndex
  | .output _ _, _ => False
  | .privateTxContext _ _, .context _ => True
  | .privateTxContext _ _, _ => False
  | _, _ => True

/-- `R` says nothing of the rows of the kinds in `S`: every write of one keeps it. -/
structure Frees (R : Wallet → Wallet → Prop) (S : List RowKind) : Prop where
  aside (w w' : Wallet) : Aside w w' → R w w'
  files (w : Wallet) (txs : Rows String Transaction) : R w { w with storedTxs := txs }
  puts (k : Key) (hk : k.kind ∈ S) (v : Serializable) (hv : k.Fits v) : Prog.Keeps R (put k v)
  erases (k : Key) (hk : k.kind ∈ S) : Prog.Keeps R (deleteRow k)

theorem touches_frees (S : List RowKind) : Frees (Touches S) S where
  aside w w' h k _ := by rw [h.db]
  files _ _ _ _ := rfl
  puts k hk v _ w k' hk' := by
    unfold put
    split
    · apply Rows.get_put_ne
      rintro rfl
      exact hk' hk
    · rfl
  erases k hk w k' hk' := by
    apply Rows.get_erase_ne
    rintro rfl
    exact hk' hk

section
variable {R : Wallet → Wallet → Prop} {S : List RowKind} (hF : Frees R S)
include hF

theorem Frees.put {k : Key} {v : Serializable} (hk : k.kind ∈ S) (hv : k.Fits v) :
    Prog.Keeps R (put k v) := hF.puts k hk v hv

theorem Frees.erase {k : Key} (hk : k.kind ∈ S) : Prog.Keeps R (deleteRow k) := hF.erases k hk

theorem Frees.nextTick : Prog.Keeps R nextTick := nextTick_aside.mono hF.aside

/-! ## Rows and batches -/

namespace Batch

theorem saveTxLogEntry_keeps (he : .entry ∈ S) (t : TxLogEntry) (parent : Identifier) :
    Prog.Keeps R (saveTxLogEntry t parent) := hF.put he trivial

theorem saveAcctPath_keeps (ha : .account ∈ S) (mapping : AcctPathMapping) :
    Prog.Keeps R (saveAcctPath mapping) := hF.put ha trivial

theorem saveChildIndex_keeps (hd : .deriv ∈ S) (parent : Identifier) (n : Nat) :
    Prog.Keeps R (saveChildIndex parent n) := hF.put hd trivial

theorem saveLastConfirmedHeight_keeps (ht : .height ∈ S) (parent : Identifier) (height : Nat) :
    Prog.Keeps R (saveLastConfirmedHeight parent height) := hF.put ht trivial

variable [Std.Refl R] [IsTrans Wallet R]

theorem saveOutputHistory_keeps (hh : .history ∈ S) (out : OutputData) :
    Prog.Keeps R (saveOutputHistory out) := by
  refine rows_reads.keeps.bind fun d => .ite (fun _ => .pure _) fun _ => ?_
  refine Prog.Keeps.bind (Prog.Keeps.attempt ?_) fun r => ?_
  · exact rows_reads.keeps.bind fun _ => (addU32_reads _ _).keeps.bind fun _ =>
      Prog.Keeps.bind (hF.put hh trivial) fun _ => .pure _
  · cases r with
    | ok id => exact hF.put hh trivial
    | error e => exact .pure _

theorem save_keeps (ho : .output ∈ S) (hh : .history ∈ S) (out : OutputData) :
    Prog.Keeps R (save out) := by
  refine Prog.Keeps.bind ((getOutput_reads _ _).keeps.attempt.bind fun r => ?_) fun _ =>
    hF.put ho ⟨rfl, rfl⟩
  cases r with
  | ok previous => exact .ite (fun _ => saveOutputHistory_keeps hF hh _) fun _ => .pure _
  | error e => exact .pure _

theorem delete_keeps (ho : .output ∈ S) (hh : .history ∈ S) (id : Identifier)
    (mmrIndex txId : Option Nat) : Prog.Keeps R (delete id mmrIndex txId) := by
  refine Prog.Keeps.bind ((getOutput_reads _ _).keeps.attempt.bind fun r => ?_) fun _ => hF.erase ho
  cases r with
  | ok previous =>
    exact (saveOutputHistory_keeps hF hh _).bind fun _ => saveOutputHistory_keeps hF hh _
  | error e => exact .pure _

theorem nextTxLogId_keeps (hS : .logId ∈ S) (parent : Identifier) :
    Prog.Keeps R (nextTxLogId parent) :=
  rows_reads.keeps.bind fun _ => (addU32_reads _ _).keeps.bind fun _ =>
    Prog.Keeps.bind (hF.put hS trivial) fun _ => .pure _

theorem savePrivateContext_keeps (W : World) (hS : .context ∈ S) (b : Batch) (slateId : Uuid)
    (participantId : Nat) (ctx : Context) :
    Prog.Keeps R (savePrivateContext W b slateId participantId ctx) :=
  (Prog.Keeps.unwrap _).bind fun _ => (Prog.Keeps.ofExcept _).bind fun _ =>
    hF.put hS trivial

end Batch

namespace WalletBackend

variable [Std.Refl R] [IsTrans Wallet R] (W : World)

theorem nextChild_keeps (hS : .deriv ∈ S) (mask : Option SecretKey) :
    Prog.Keeps R (nextChild W mask) :=
  parentKeyId_reads.keeps.bind fun _ => (currentChildIndex_reads _).keeps.bind fun _ =>
    (Prog.Keeps.unwrap _).bind fun _ => (addU32_reads _ _).keeps.bind fun _ =>
      (batch_reads W mask).keeps.bind fun _ => (Batch.saveChildIndex_keeps hF hS _ _).bind fun _ =>
        (Prog.Keeps.pure _).bind fun _ => .pure _

theorem storeTx_keeps (slateId : Uuid) (tx : Transaction) :
    Prog.Keeps R (storeTx W slateId tx) :=
  hF.nextTick.bind fun _ => (Prog.Keeps.ofExcept _).bind fun _ => fun w => hF.files w _

end WalletBackend

end

theorem walletLock_touches (W : World) {S : List RowKind} : Prog.Keeps (Touches S) (walletLock W) := by
  refine (touches_frees S).nextTick.bind fun _ => .ite (fun _ => .panic) fun _ =>
    Prog.Keeps.forEach _ fun label _ => Prog.Keeps.bind (Prog.Keeps.attempt ?_) fun _ => .pure _
  refine acctPathIter_reads.keeps.bind fun l => ?_
  split
  · exact fun _ _ _ => rfl
  · exact .throw _

/-- Beside the account and the tick the wallet is as it was. -/
structure SameButAccount (w w' : Wallet) : Prop where
  db : w'.db = w.db
  keychain : w'.keychain = w.keychain
  checksum : w'.masterChecksum = w.masterChecksum

instance : Std.Refl SameButAccount := ⟨fun _ => ⟨rfl, rfl, rfl⟩⟩

instance : IsTrans Wallet SameButAccount where
  trans _ _ _ h h' := ⟨h'.db.trans h.db, h'.keychain.trans h.keychain, h'.checksum.trans h.checksum⟩

theorem sameButAccount_frees : Frees SameButAccount [] where
  aside w w' h := by
    constructor <;> rw [h]
  files _ _ := ⟨rfl, rfl, rfl⟩
  puts _ hk := absurd hk List.not_mem_nil
  erases _ hk := absurd hk List.not_mem_nil

theorem walletLock_sameButAccount (W : World) : Prog.Keeps SameButAccount (walletLock W) := by
  refine sameButAccount_frees.nextTick.bind fun _ => .ite (fun _ => .panic) fun _ =>
    Prog.Keeps.forEach _ fun label _ => Prog.Keeps.bind (Prog.Keeps.attempt ?_) fun _ => .pure _
  refine acctPathIter_reads.keeps.bind fun l => ?_
  split
  · exact fun _ => ⟨rfl, rfl, rfl⟩
  · exact .throw _

section
variable {R : Wallet → Wallet → Prop} [Std.Refl R] [IsTrans Wallet R] {S : List RowKind}
  (hF : Frees R S)
include hF

/-! ## Selecting, locking and receiving -/

namespace Selection

variable (W : World)

omit hF in
theorem selectFrom_reads (amount : Nat) (selectAll : Bool) (outputs : List OutputData) :
    Prog.Reads (selectFrom amount selectAll outputs) :=
  (sumU64_reads _).bind fun _ => .pure _

omit hF in
theorem selectFromWindows_reads (amount : Nat) (selectAll : Bool) :
    ∀ l : List (List OutputData), Prog.Reads (selectFromWindows amount selectAll l)
  | [] => .pure _
  | window :: rest => by
    refine (selectFrom_reads _ _ _).bind fun r => ?_
    cases r with
    | some outputs => exact .pure _
    | none => exact selectFromWindows_reads amount selectAll rest

omit hF in
theorem selectEnough_reads (amount maxOutputs : Nat) (selectAll : Bool)
    (eligible : List OutputData) : Prog.Reads (selectEnough amount maxOutputs selectAll eligible) := by
  refine .ite (fun _ => .ite (fun _ => .panic) fun _ => ?_) fun _ => selectFrom_reads _ _ _
  refine (selectFromWindows_reads _ _ _).bind fun r => ?_
  cases r with
  | some outputs => exact .pure _
  | none => exact selectFrom_reads _ _ _

omit hF in
theorem selectCoins_reads (amount currentHeight minimumConfirmations maxOutputs : Nat)
    (selectAll : Bool) (parent : Identifier) :
    Prog.Reads (selectCoins amount currentHeight minimumConfirmations maxOutputs selectAll parent) := by
  refine rows_reads.bind fun d => (selectEnough_reads _ _ _ _).bind fun r => ?_
  cases r with
  | some outputs => exact .pure _
  | none => exact .pure _

omit hF in
theorem selectMore_reads (amount currentHeight minimumConfirmations maxOutputs numOutputs : Nat)
    (selectAll : Bool) (parent : Identifier) :
    ∀ (rounds : Nat) (coins : List OutputData) (total amountWithFee fee : Nat),
      Prog.Reads (selectMore W amount currentHeight minimumConfirmations maxOutputs numOutputs
        selectAll parent rounds coins total amountWithFee fee)
  | rounds, coins, total, amountWithFee, fee => by
    unfold selectMore
    refine .ite (fun _ => ?_) fun _ => .pure _
    cases rounds with
    | zero => exact .panic
    | succ rounds =>
      refine .ite (fun _ => .throw _) fun _ => (selectCoins_reads _ _ _ _ _ _).bind fun r => ?_
      refine (sumU64_reads _).bind fun _ => (addU64_reads _ _).bind fun _ => ?_
      exact selectMore_reads _ _ _ _ _ _ _ rounds _ _ _ _

omit hF in
theorem selectCoinsAndFee_reads
    (amount currentHeight minimumConfirmations maxOutputs changeOutputs : Nat) (selectAll : Bool)
    (parent : Identifier) :
    Prog.Reads (selectCoinsAndFee W amount currentHeight minimumConfirmations maxOutputs
      changeOutputs selectAll parent) := by
  refine (selectCoins_reads _ _ _ _ _ _).bind fun r => (sumU64_reads _).bind fun _ =>
    (addU64_reads _ _).bind fun _ => ?_
  refine .ite (fun _ => .throw _) fun _ => .ite (fun _ => .throw _) fun _ =>
    .ite (fun _ => .pure _) fun _ => (addU64_reads _ _).bind fun _ => ?_
  exact (selectMore_reads W _ _ _ _ _ _ _ _ _ _ _ _).bind fun _ => .pure _

theorem changeAmounts_keeps (hS : .deriv ∈ S) (mask : Option SecretKey)
    (part remainder num : Nat) :
    ∀ l : List Nat, Prog.Keeps R (changeAmounts W mask part remainder num l)
  | [] => .pure _
  | x :: xs => by
    refine Prog.Keeps.bind (.ite (fun _ => (addU64_reads _ _).keeps) fun _ => .pure _) fun _ => ?_
    refine (nextChild_keeps hF W hS mask).orPanic.bind fun _ => ?_
    exact (changeAmounts_keeps hS mask part remainder num xs).bind fun _ => .pure _

theorem selectSendTx_keeps (hS : .deriv ∈ S) (mask : Option SecretKey)
    (amount currentHeight minimumConfirmations maxOutputs changeOutputs : Nat) (selectAll : Bool)
    (parent : Identifier) :
    Prog.Keeps R (selectSendTx W mask amount currentHeight minimumConfirmations maxOutputs
      changeOutputs selectAll parent) := by
  refine (selectCoinsAndFee_reads W _ _ _ _ _ _ _).keeps.bind fun r => ?_
  refine Prog.Keeps.bind ?_ fun _ => .pure _
  refine (sumU64_reads _).keeps.bind fun _ => (subU64_reads _ _).keeps.bind fun _ =>
    (subU64_reads _ _).keeps.bind fun _ => ?_
  refine .ite (fun _ => .pure _) fun _ => .ite (fun _ => .panic) fun _ => ?_
  exact (changeAmounts_keeps hF W hS mask _ _ _ _).bind fun _ => .pure _

theorem buildSendTx_keeps (hS : .deriv ∈ S) (k : Keychain)
    (mask : Option SecretKey) (slate : Slate)
    (minimumConfirmations maxOutputs changeOutputs : Nat) (selectAll : Bool) (parent : Identifier) :
    Prog.Keeps R (buildSendTx W k mask slate minimumConfirmations maxOutputs changeOutputs
      selectAll parent) := by
  refine (selectSendTx_keeps hF W hS mask _ _ _ _ _ _ _).bind fun r => ?_
  refine (Prog.Keeps.ofExcept _).bind fun _ => ?_
  refine ((newContext_aside W _ _ _).mono hF.aside).bind fun _ => ?_
  refine Prog.Keeps.bind (Prog.Keeps.forEach _ fun _ _ => ?_) fun _ => .pure _
  exact (calcCommitForCache_reads W _ _ _).keeps.bind fun _ => .pure _

/-- Locking touches the outputs, the log and its counter. -/
theorem lockTxContext_keeps (ho : .output ∈ S) (hh : .history ∈ S)
    (he : .entry ∈ S) (hl : .logId ∈ S) (mask : Option SecretKey) (slate : Slate)
    (context : Context) (addrTo : Option String) :
    Prog.Keeps R (lockTxContext W mask slate context addrTo) := by
  refine (outputCommits_reads W mask _).keeps.bind fun commits =>
    (keychain_reads W mask).keeps.bind fun k => Prog.Keeps.bind ?_ fun t =>
      (Prog.Keeps.unwrap _).bind fun _ => storeTx_keeps hF W _ _
  refine (batch_reads W mask).keeps.bind fun _ => (Batch.nextTxLogId_keeps hF hl _).bind fun _ =>
    hF.nextTick.bind fun _ => Prog.Keeps.bind ?_ fun _ =>
      (storedProofInfo_reads W _ _ _).keeps.bind fun _ => Prog.Keeps.bind ?_ fun _ =>
        (Batch.saveTxLogEntry_keeps hF he _ _).bind fun _ => (Prog.Keeps.pure _).bind fun _ => .pure _
  · refine Prog.Keeps.foldlM _ _ fun _ _ _ => (getOutput_reads _ _).keeps.orPanic.bind fun _ => ?_
    exact (addU64_reads _ _).keeps.bind fun _ => (Batch.save_keeps hF ho hh _).bind fun _ => .pure _
  · refine Prog.Keeps.foldlM _ _ fun _ _ _ => (Prog.Keeps.unwrap _).bind fun _ => ?_
    exact (addU64_reads _ _).keeps.bind fun _ => (Batch.save_keeps hF ho hh _).bind fun _ => .pure _

theorem buildRecipientOutput_keeps (hd : .deriv ∈ S) (ho : .output ∈ S)
    (hh : .history ∈ S) (he : .entry ∈ S) (hl : .logId ∈ S) (mask : Option SecretKey)
    (slate : Slate) (parent : Identifier) :
    Prog.Keeps R (buildRecipientOutput W mask slate parent) := by
  refine (nextChild_keeps hF W hd mask).orPanic.bind fun _ => (keychain_reads W mask).keeps.bind
    fun _ => (Prog.Keeps.ofExcept _).bind fun _ => (keychain_reads W mask).keeps.bind fun _ => ?_
  refine ((newContext_aside W _ _ _).mono hF.aside).bind fun _ => ?_
  refine (calcCommitForCache_reads W _ _ _).keeps.bind fun _ => (batch_reads W mask).keeps.bind
    fun _ => (Batch.nextTxLogId_keeps hF hl _).bind fun _ => hF.nextTick.bind fun _ => ?_
  exact (Batch.save_keeps hF ho hh _).bind fun _ => (Batch.saveTxLogEntry_keeps hF he _ _).bind fun _ =>
    (Prog.Keeps.pure _).bind fun _ => .pure _

end Selection

/-! ## Keys, outputs and the transaction log -/

namespace Keys

variable (W : World)

theorem newAcctPath_keeps (ha : .account ∈ S) (mask : Option SecretKey)
    (label : String) : Prog.Keeps R (newAcctPath W mask label) := by
  refine acctPathIter_reads.keeps.bind fun l => ?_
  split
  · exact .throw _
  · refine Prog.Keeps.bind ?_ fun _ => (batch_reads W mask).keeps.bind fun _ =>
      (Batch.saveAcctPath_keeps hF ha _).bind fun _ => (Prog.Keeps.pure _).bind fun _ => .pure _
    split
    · exact (addU32_reads _ _).keeps.bind fun _ => .pure _
    · exact .pure _

theorem setAcctPath_keeps (ha : .account ∈ S) (mask : Option SecretKey)
    (label : String) (path : Identifier) :
    Prog.Keeps R (setAcctPath W mask label path) :=
  (batch_reads W mask).keeps.bind fun _ => (Batch.saveAcctPath_keeps hF ha _).bind fun _ => .pure _

omit hF in
theorem retrieveExistingKey_reads (keyId : Identifier) (mmrIndex : Option Nat) :
    Prog.Reads (retrieveExistingKey keyId mmrIndex) :=
  (getOutput_reads _ _).bind fun _ => .pure _

end Keys

namespace Updater

variable (W : World)

theorem getChainTip_keeps : Prog.Keeps R (getChainTip W) :=
  hF.nextTick.bind fun _ => .ofExcept _

theorem getNodeStatus_keeps : Prog.Keeps R (getNodeStatus W) :=
  hF.nextTick.bind fun _ => .ofExcept _

omit hF in
theorem mapWalletOutputs_reads (mask : Option SecretKey) (parent : Identifier) :
    Prog.Reads (mapWalletOutputs W mask parent) :=
  (keychain_reads W mask).bind fun _ => rows_reads.bind fun _ =>
    Prog.Keeps.foldlM _ _ fun _ _ _ => (commitOf_reads W _ _).bind fun _ => .pure _

theorem cancelTxAndOutputs_keeps (ho : .output ∈ S) (hh : .history ∈ S) (he : .entry ∈ S)
    (mask : Option SecretKey) (tx : TxLogEntry) (outputs : List OutputData) (parent : Identifier) :
    Prog.Keeps R (cancelTxAndOutputs W mask tx outputs parent) := by
  refine (batch_reads W mask).keeps.bind fun _ => Prog.Keeps.bind ?_ fun _ =>
    (Batch.saveTxLogEntry_keeps hF he _ _).bind fun _ => .pure _
  refine Prog.Keeps.forEach _ fun o _ => Prog.Keeps.bind ?_ fun _ => ?_
  · exact .ite (fun _ => Batch.delete_keeps hF ho hh _ _ _) fun _ => .pure _
  · exact .ite (fun _ => Batch.save_keeps hF ho hh _) fun _ => .pure _

theorem confirmOutput_keeps (he : .entry ∈ S) (hl : .logId ∈ S) (parent : Identifier)
    (height onChain : Nat) (commit : Commitment) (output : OutputData) :
    Prog.Keeps R (confirmOutput W parent height onChain commit output) := by
  refine Prog.Keeps.bind (.ite (fun _ => ?_) fun _ => .pure _) fun o =>
    Prog.Keeps.bind (.ite (fun _ => ?_) fun _ => .pure _) fun _ => .pure _
  · exact (Batch.nextTxLogId_keeps hF hl _).bind fun _ => hF.nextTick.bind fun _ =>
      (Prog.Keeps.ofExcept _).bind fun _ => (Prog.Keeps.ofExcept _).bind fun _ =>
        hF.nextTick.bind fun _ => (Batch.saveTxLogEntry_keeps hF he _ _).bind fun _ => .pure _
  · refine txLogIter_reads.keeps.bind fun l => ?_
    split
    · exact hF.nextTick.bind fun _ => Batch.saveTxLogEntry_keeps hF he _ _
    · exact .pure _

theorem applyApiOutput_keeps (ho : .output ∈ S) (hh : .history ∈ S) (he : .entry ∈ S)
    (hl : .logId ∈ S) (api : List (Commitment × String × Nat × Nat)) (height : Nat)
    (parent : Identifier) (row : Commitment × Identifier × Option Nat) :
    Prog.Keeps R (applyApiOutput W api height parent row) := by
  refine (getOutput_reads _ _).keeps.attempt.bind fun r => ?_
  split
  · exact .pure _
  · refine Prog.Keeps.bind ?_ fun _ => Batch.save_keeps hF ho hh _
    split
    · exact confirmOutput_keeps hF W he hl _ _ _ _ _
    · exact .pure _

theorem applyApiOutputs_keeps (ho : .output ∈ S) (hh : .history ∈ S) (he : .entry ∈ S)
    (hl : .logId ∈ S) (ht : .height ∈ S) (mask : Option SecretKey)
    (outputs : Rows Commitment (Identifier × Option Nat))
    (api : List (Commitment × String × Nat × Nat)) (height : Nat) (parent : Identifier) :
    Prog.Keeps R (applyApiOutputs W mask outputs api height parent) := by
  refine lastConfirmedHeight_reads.keeps.bind fun _ => .ite (fun _ => .pure _) fun _ => ?_
  refine (batch_reads W mask).keeps.bind fun _ => hF.nextTick.bind fun _ => ?_
  refine Prog.Keeps.bind (Prog.Keeps.forEach _ fun _ _ =>
    applyApiOutput_keeps hF W ho hh he hl _ _ _ _) fun _ => ?_
  exact (Batch.saveLastConfirmedHeight_keeps hF ht _ _).bind fun _ => .pure _

theorem cleanOldUnconfirmed_keeps (ho : .output ∈ S) (hh : .history ∈ S)
    (mask : Option SecretKey) (height : Nat) :
    Prog.Keeps R (cleanOldUnconfirmed W mask height) := by
  refine .ite (fun _ => .pure _) fun _ => iter_reads.keeps.bind fun _ =>
    (batch_reads W mask).keeps.bind fun _ => Prog.Keeps.bind ?_ fun _ => .pure _
  exact Prog.Keeps.forEach _ fun _ _ => Batch.delete_keeps hF ho hh _ _ _

/-- A refresh touches outputs, entries, the counter and the height of an account. -/
theorem refreshOutputs_keeps (ho : .output ∈ S) (hh : .history ∈ S) (he : .entry ∈ S)
    (hl : .logId ∈ S) (ht : .height ∈ S) (mask : Option SecretKey) (parent : Identifier) :
    Prog.Keeps R (refreshOutputs W mask parent) := by
  refine (getNodeStatus_keeps hF W).bind fun _ => .ite (fun _ => .throw _) fun _ =>
    (getChainTip_keeps hF W).bind fun tip => (mapWalletOutputs_reads W _ _).keeps.bind fun _ => ?_
  refine hF.nextTick.bind fun _ => (Prog.Keeps.ofExcept _).bind fun _ => ?_
  exact (applyApiOutputs_keeps hF W ho hh he hl ht _ _ _ _ _).bind fun _ =>
    cleanOldUnconfirmed_keeps hF W ho hh _ _

theorem receiveReward_keeps (hd : .deriv ∈ S) (ho : .output ∈ S) (hh : .history ∈ S)
    (mask : Option SecretKey) (fees : BlockFees) (amount : Nat)
    (build : Keychain → Identifier → Except Error (Output × TxKernel)) :
    Prog.Keeps R (receiveReward W mask fees amount build) := by
  refine (addU64_reads _ _).keeps.bind fun _ => parentKeyId_reads.keeps.bind fun _ =>
    Prog.Keeps.bind ?_ fun _ => (calcCommitForCache_reads W _ _ _).keeps.bind fun _ =>
      (batch_reads W mask).keeps.bind fun _ => (Batch.save_keeps hF ho hh _).bind fun _ =>
        (Prog.Keeps.pure _).bind fun _ => (keychain_reads W mask).keeps.bind fun _ =>
          (Prog.Keeps.ofExcept _).bind fun _ => .pure _
  unfold rewardKey
  split
  · refine (Keys.retrieveExistingKey_reads _ _).keeps.attempt.bind fun r => ?_
    split
    · exact .pure _
    · exact nextChild_keeps hF W hd mask
  · exact nextChild_keeps hF W hd mask

end Updater

/-! ## Building transactions -/

namespace Tx

variable (W : World)

theorem newTxSlate_keeps (amount numParticipants : Nat) (ttlBlocks : Option Nat) :
    Prog.Keeps R (newTxSlate W amount numParticipants ttlBlocks) := by
  refine (Updater.getChainTip_keeps hF W).bind fun _ => Prog.Keeps.bind ?_ fun _ =>
    Prog.Keeps.bind ?_ fun _ => .pure _
  · exact hF.nextTick.bind fun _ => .pure _
  · split
    · exact (addU64_reads _ _).keeps.bind fun _ => .pure _
    · exact .pure _

/-- What a refresh and the derivation of keys may touch. -/
def sendRows : List RowKind := [.output, .history, .entry, .logId, .height, .deriv]

theorem estimateSendTx_keeps (hS : ∀ k ∈ sendRows, k ∈ S) (mask : Option SecretKey)
    (amount minimumConfirmations maxOutputs numChangeOutputs : Nat) (selectAll : Bool)
    (parent : Identifier) :
    Prog.Keeps R (estimateSendTx W mask amount minimumConfirmations maxOutputs
      numChangeOutputs selectAll parent) := by
  refine (Updater.getChainTip_keeps hF W).bind fun _ => ?_
  refine (Updater.refreshOutputs_keeps hF W (hS _ (by decide)) (hS _ (by decide)) (hS _ (by decide))
    (hS _ (by decide)) (hS _ (by decide)) _ _).bind fun _ => ?_
  exact (Selection.selectCoinsAndFee_reads W _ _ _ _ _ _ _).keeps.bind fun _ => .pure _

theorem fillRounds_keeps (slate : Slate) (k : Keychain) (mask : Option SecretKey)
    (context : Context) (participantId signer : Nat) (message : Option String) (isInitiator : Bool) :
    Prog.Keeps R (slate.fillRound1 W k context.secKey context.secNonce participantId
      message >>= fun r =>
        if isInitiator then pure (r.1, { context with secKey := r.2 })
        else keychain W mask >>= fun _ =>
          r.1.fillRound2 W r.2 context.secNonce signer >>= fun s =>
            pure (s, { context with secKey := r.2 })) := by
  refine ((Slate.fillRound1_aside W _ _ _ _ _ _).mono hF.aside).bind fun r => ?_
  refine .ite (fun _ => .pure _) fun _ => (keychain_reads W mask).keeps.bind fun _ => ?_
  exact ((Slate.fillRound2_aside W _ _ _ _).mono hF.aside).bind fun _ => .pure _

theorem addInputsToSlate_keeps (hS : ∀ k ∈ sendRows, k ∈ S) (mask : Option SecretKey) (slate : Slate)
    (minimumConfirmations maxOutputs numChangeOutputs : Nat) (selectAll : Bool)
    (parent : Identifier) (participantId : Nat) (message : Option String) (isInitiator : Bool) :
    Prog.Keeps R (addInputsToSlate W mask slate minimumConfirmations maxOutputs
      numChangeOutputs selectAll parent participantId message isInitiator) := by
  refine (Updater.refreshOutputs_keeps hF W (hS _ (by decide)) (hS _ (by decide)) (hS _ (by decide))
    (hS _ (by decide)) (hS _ (by decide)) _ _).bind fun _ => (keychain_reads W mask).keeps.bind fun _ => ?_
  refine (Selection.buildSendTx_keeps hF W (hS _ (by decide)) _ _ _ _ _ _ _ _).bind fun _ =>
    (keychain_reads W mask).keeps.bind fun _ => ?_
  exact fillRounds_keeps hF W _ _ _ _ _ _ _ _

theorem addOutputToSlate_keeps (hS : ∀ k ∈ sendRows, k ∈ S) (mask : Option SecretKey) (slate : Slate)
    (parent : Identifier) (participantId : Nat) (message : Option String) (isInitiator : Bool) :
    Prog.Keeps R (addOutputToSlate W mask slate parent participantId message
      isInitiator) := by
  refine (Selection.buildRecipientOutput_keeps hF W (hS _ (by decide)) (hS _ (by decide))
    (hS _ (by decide)) (hS _ (by decide)) (hS _ (by decide)) _ _ _).bind fun _ => (keychain_reads W mask).keeps.bind fun _ => ?_
  exact fillRounds_keeps hF W _ _ _ _ _ _ _ _

omit hF in
theorem completeTx_aside (mask : Option SecretKey) (slate : Slate) (participantId : Nat)
    (context : Context) : Prog.Keeps Aside (completeTx W mask slate participantId context) :=
  (keychain_reads W mask).keeps.bind fun _ => (Slate.fillRound2_aside W _ _ _ _).bind fun _ =>
    (keychain_reads W mask).keeps.bind fun _ => (Slate.finalize_reads W _).keeps

theorem cancelTx_keeps (ho : .output ∈ S) (hh : .history ∈ S) (he : .entry ∈ S)
    (mask : Option SecretKey) (parent : Identifier) (txId : Option Nat) (txSlateId : Option Uuid) :
    Prog.Keeps R (cancelTx W mask parent txId txSlateId) := by
  refine (Updater.retrieveTxs_reads _ _ _ _ _ _ _).keeps.bind fun r => ?_
  split
  · refine .ite (fun _ => .throw _) fun _ => .ite (fun _ => .throw _) fun _ => ?_
    exact (Updater.retrieveOutputs_reads W _ _ _ _ _ _ _ _).keeps.bind fun _ =>
      Updater.cancelTxAndOutputs_keeps hF W ho hh he _ _ _ _
  · exact .throw _

omit hF in
theorem signedProofInfo_reads (mask : Option SecretKey) (context : Context) (slate : Slate)
    (p : PaymentInfo) : Prog.Reads (signedProofInfo W mask context slate p) :=
  (keychain_reads W mask).bind fun _ => parentKeyId_reads.bind fun _ =>
    (Prog.Keeps.ofExcept _).bind fun _ =>
      (Selection.addressFromDerivationPath_reads W _ _ _).bind fun _ => .pure _

theorem updateStoredTx_keeps (he : .entry ∈ S) (mask : Option SecretKey) (context : Context)
    (slate : Slate) (isInvoiced : Bool) :
    Prog.Keeps R (updateStoredTx W mask context slate isInvoiced) := by
  refine (Updater.retrieveTxs_reads _ _ _ _ _ _ _).keeps.bind fun r => ?_
  split
  · exact .throw _
  · refine (Prog.Keeps.unwrap _).bind fun _ => (storeTx_keeps hF W _ _).bind fun _ =>
      (Prog.Keeps.unwrap _).bind fun _ => Prog.Keeps.bind ?_ fun _ =>
        (batch_reads W mask).keeps.bind fun _ => (Batch.saveTxLogEntry_keeps hF he _ _).bind fun _ => .pure _
    split
    · exact (signedProofInfo_reads W _ _ _ _).keeps.bind fun _ => .pure _
    · exact .pure _

theorem updateEntries_keeps (he : .entry ∈ S) (mask : Option SecretKey) (slate : Slate)
    (parent : Option Identifier) (f : TxLogEntry → TxLogEntry) :
    Prog.Keeps R (updateEntries W mask slate parent f) := by
  refine (Updater.retrieveTxs_reads _ _ _ _ _ _ _).keeps.bind fun r => .ite (fun _ => .throw _)
    fun _ => (batch_reads W mask).keeps.bind fun _ => Prog.Keeps.bind ?_ fun _ => .pure _
  exact Prog.Keeps.forEach _ fun _ _ => Batch.saveTxLogEntry_keeps hF he _ _

theorem updateMempoolStatus_keeps (he : .entry ∈ S) (mask : Option SecretKey) (slate : Slate) :
    Prog.Keeps R (updateMempoolStatus W mask slate) := by
  refine parentKeyId_reads.keeps.bind fun _ => txLogIter_reads.keeps.bind fun _ => ?_
  split
  · exact (batch_reads W mask).keeps.bind fun _ => (Batch.saveTxLogEntry_keeps hF he _ _).bind fun _ => .pure _
  · exact .pure _

omit hF in
theorem verifyProofInfo_reads (mask : Option SecretKey) (parent : Identifier) (context : Context)
    (slate : Slate) (p : PaymentInfo) (orig : StoredProofInfo) :
    Prog.Reads (verifyProofInfo W mask parent context slate p orig) := by
  refine (keychain_reads W mask).bind fun _ => Prog.Keeps.bind ?_ fun _ =>
    (Selection.addressFromDerivationPath_reads W _ _ _).bind fun _ => ?_
  · split
    · exact .pure _
    · exact .throw _
  · refine .ite (fun _ => .throw _) fun _ => .ite (fun _ => .throw _) fun _ =>
      (Prog.Keeps.ofExcept _).bind fun _ => ?_
    split
    · exact .throw _
    · exact .ite (fun _ => .pure _) fun _ => .throw _

omit hF in
theorem verifySlatePaymentProof_reads (mask : Option SecretKey) (parent : Identifier)
    (context : Context) (slate : Slate) :
    Prog.Reads (verifySlatePaymentProof W mask parent context slate) := by
  refine (Updater.retrieveTxs_reads _ _ _ _ _ _ _).bind fun r => ?_
  split
  · exact .throw _
  · refine .ite (fun _ => .throw _) fun _ => ?_
    split
    · exact .pure _
    · split
      · exact .throw _
      · exact verifyProofInfo_reads W _ _ _ _ _ _

end Tx

/-! ## Scanning -/

namespace Scan

variable (W : World) (hlock : Prog.Keeps R (walletLock W))

/-- What a scan may touch. -/
def scanRows : List RowKind := [.output, .history, .entry, .logId, .account, .deriv]

omit hF in
theorem identifyUtxoOutputs_reads (k : Keychain) :
    ∀ l : List ChainOutput, Prog.Reads (identifyUtxoOutputs W k l)
  | [] => .pure _
  | output :: l => by
    refine (Prog.Keeps.ofExcept _).bind fun i => Prog.Keeps.bind ?_ fun info => ?_
    · split
      · exact .ofExcept _
      · exact .pure _
    · split
      · exact identifyUtxoOutputs_reads k l
      · refine Prog.Keeps.bind (.ite (fun _ => addU64_reads _ _) fun _ => .pure _) fun _ => ?_
        exact (identifyUtxoOutputs_reads k l).bind fun _ => .pure _

theorem collectFrom_keeps (k : Keychain) (stop : Option Nat) :
    ∀ rounds start : Nat, Prog.Keeps R (collectFrom W k stop rounds start)
  | 0, _ => .panic
  | rounds + 1, start => by
    refine hF.nextTick.bind fun _ => (Prog.Keeps.ofExcept _).bind fun r => ?_
    refine (identifyUtxoOutputs_reads W k _).keeps.bind fun _ => .ite (fun _ => .pure _) fun _ => ?_
    exact (addU64_reads _ _).keeps.bind fun _ =>
      (collectFrom_keeps k stop rounds _).bind fun _ => .pure _

include hlock

theorem restoreMissingOutput_keeps (ho : .output ∈ S) (hh : .history ∈ S) (he : .entry ∈ S)
    (hl : .logId ∈ S) (mask : Option SecretKey)
    (output : OutputResult) (found : Rows Identifier Nat) :
    Prog.Keeps R (restoreMissingOutput W mask output found) := by
  refine hlock.bind fun _ => (calcCommitForCache_reads W _ _ _).keeps.bind fun _ =>
    (batch_reads W mask).keeps.bind fun _ => ?_
  refine (Batch.nextTxLogId_keeps hF hl _).bind fun _ => hF.nextTick.bind fun _ =>
    hF.nextTick.bind fun _ => (Batch.saveTxLogEntry_keeps hF he _ _).bind fun _ => ?_
  exact (Batch.save_keeps hF ho hh _).attempt.bind fun _ =>
    (Prog.Keeps.unwrap _).bind fun _ => (Prog.Keeps.pure _).bind fun _ => .pure _

theorem cancelTxLogEntry_keeps (he : .entry ∈ S) (mask : Option SecretKey) (output : OutputData) :
    Prog.Keeps R (cancelTxLogEntry W mask output) := by
  refine hlock.bind fun _ => Prog.Keeps.bind ?_ fun t =>
    (batch_reads W mask).keeps.bind fun _ => Prog.Keeps.bind ?_ fun _ => .pure _
  · unfold cancelledEntry
    split
    · exact .pure _
    · exact (Updater.retrieveTxs_reads _ _ _ _ _ _ _).keeps.bind fun _ => .pure _
  · split
    · exact Batch.saveTxLogEntry_keeps hF he _ _
    · exact .pure _

theorem updateMmrIndex_keeps (ho : .output ∈ S) (hh : .history ∈ S) (mask : Option SecretKey)
    (s : OutputData) (mmrIndex : Nat) :
    Prog.Keeps R (updateMmrIndex W mask s mmrIndex) := by
  refine .ite (fun _ => ?_) fun _ => .pure _
  refine hlock.bind fun _ => (batch_reads W mask).keeps.bind fun _ => ?_
  refine Prog.Keeps.bind (.ite (fun _ => Batch.delete_keeps hF ho hh _ _ _) fun _ => .pure _)
    fun _ => ?_
  exact (Batch.save_keeps hF ho hh _).bind fun _ => .pure _

theorem matchOutputs_keeps (ho : .output ∈ S) (hh : .history ∈ S) (mask : Option SecretKey)
    (walletOutputs : List (OutputData × Commitment)) :
    ∀ l : List OutputResult, Prog.Keeps R (matchOutputs W mask walletOutputs l)
  | [] => .pure _
  | deffo :: l => by
    unfold matchOutputs
    split
    · exact (updateMmrIndex_keeps hF W hlock ho hh _ _ _).bind fun _ =>
        (matchOutputs_keeps ho hh mask walletOutputs l).bind fun _ => .pure _
    · exact (matchOutputs_keeps ho hh mask walletOutputs l).bind fun _ => .pure _

/-- What a scan does to an output and its entry, where the entry is known to be cancelled rightly. -/
theorem markUnspent_keeps_of (ho : .output ∈ S) (hh : .history ∈ S) {mask : Option SecretKey}
    (hcancel : ∀ o, Prog.Keeps R (cancelTxLogEntry W mask o)) (o : OutputData) :
    Prog.Keeps R (markUnspent W mask o) :=
  (hcancel _).bind fun _ => hlock.bind fun _ =>
    (batch_reads W mask).keeps.bind fun _ => (Batch.save_keeps hF ho hh _).bind fun _ => .pure _

theorem markUnspent_keeps (ho : .output ∈ S) (hh : .history ∈ S) (he : .entry ∈ S)
    (mask : Option SecretKey) (o : OutputData) :
    Prog.Keeps R (markUnspent W mask o) :=
  markUnspent_keeps_of hF W hlock ho hh (cancelTxLogEntry_keeps hF W hlock he mask) o

theorem deleteUnconfirmed_keeps_of (ho : .output ∈ S) (hh : .history ∈ S) {mask : Option SecretKey}
    (hcancel : ∀ o, Prog.Keeps R (cancelTxLogEntry W mask o)) (o : OutputData) :
    Prog.Keeps R (deleteUnconfirmed W mask o) :=
  (hcancel _).bind fun _ => hlock.bind fun _ =>
    (batch_reads W mask).keeps.bind fun _ => (Batch.delete_keeps hF ho hh _ _ _).bind fun _ => .pure _

theorem deleteUnconfirmed_keeps (ho : .output ∈ S) (hh : .history ∈ S) (he : .entry ∈ S)
    (mask : Option SecretKey) (o : OutputData) :
    Prog.Keeps R (deleteUnconfirmed W mask o) :=
  deleteUnconfirmed_keeps_of hF W hlock ho hh (cancelTxLogEntry_keeps hF W hlock he mask) o

theorem restorePath_keeps (ha : .account ∈ S) (hd : .deriv ∈ S) (mask : Option SecretKey)
    (accounts : List Identifier) (acctIndex : Nat) (found : Identifier × Nat) :
    Prog.Keeps R (restorePath W mask accounts acctIndex found) := by
  refine Prog.Keeps.bind (.ite (fun _ => .pure _) fun _ => ?_) fun _ =>
    hlock.bind fun _ => (currentChildIndex_reads _).keeps.bind fun _ => ?_
  · exact hlock.bind fun _ => (Keys.setAcctPath_keeps hF W ha _ _ _).bind fun _ =>
      .pure _
  · refine Prog.Keeps.bind (.ite (fun _ => ?_) fun _ => .pure _) fun _ => .pure _
    exact hlock.bind fun _ => (batch_reads W mask).keeps.bind fun _ =>
      (addU32_reads _ _).keeps.bind fun _ => (Batch.saveChildIndex_keeps hF hd _ _).bind fun _ => .pure _

/-- A scan, where it is known to cancel and to create entries rightly. -/
theorem scan_keeps_of (ho : .output ∈ S) (hh : .history ∈ S) (ha : .account ∈ S) (hd : .deriv ∈ S)
    {mask : Option SecretKey} (hcancel : ∀ o, Prog.Keeps R (cancelTxLogEntry W mask o))
    (hrestore : ∀ o found, Prog.Keeps R (restoreMissingOutput W mask o found))
    (deleteUnconfirmedOutputs : Bool) (startHeight endHeight : Nat) :
    Prog.Keeps R (scan W mask deleteUnconfirmedOutputs startHeight endHeight) := by
  have hunspent := markUnspent_keeps_of hF W hlock ho hh hcancel
  refine hlock.bind fun _ => (keychain_reads W mask).keeps.bind fun _ =>
    hF.nextTick.bind fun _ => (Prog.Keeps.ofExcept _).bind fun _ => ?_
  refine (collectFrom_keeps hF W _ _ _ _).bind fun _ => hlock.bind fun _ =>
    (Updater.retrieveOutputs_reads W _ _ _ _ _ _ _ _).keeps.bind fun _ =>
      (matchOutputs_keeps hF W hlock ho hh _ _ _).bind fun _ => ?_
  refine Prog.Keeps.bind (Prog.Keeps.forEach _ fun o _ => hunspent o) fun _ =>
    Prog.Keeps.bind (Prog.Keeps.foldlM _ _ fun _ _ _ => hrestore _ _) fun _ => Prog.Keeps.bind ?_ fun _ => ?_
  · refine .ite (fun _ => ?_) fun _ => .pure _
    exact Prog.Keeps.bind (Prog.Keeps.forEach _ fun o _ => hunspent o)
      fun _ => Prog.Keeps.forEach _ fun o _ => deleteUnconfirmed_keeps_of hF W hlock ho hh hcancel o
  · refine hlock.bind fun _ => acctPathIter_reads.keeps.bind fun _ =>
      hF.nextTick.bind fun _ => Prog.Keeps.bind ?_ fun _ => .pure _
    exact Prog.Keeps.foldlM _ _ fun _ _ _ => restorePath_keeps hF W hlock ha hd _ _ _ _

/-- A scan leaves the contexts, the record of what was scanned and the heights alone. -/
theorem scan_keeps (hS : ∀ k ∈ scanRows, k ∈ S) (mask : Option SecretKey) (deleteUnconfirmedOutputs : Bool)
    (startHeight endHeight : Nat) :
    Prog.Keeps R
      (scan W mask deleteUnconfirmedOutputs startHeight endHeight) := by
  have ho : RowKind.output ∈ S := hS _ (by decide)
  have hh : RowKind.history ∈ S := hS _ (by decide)
  have he : RowKind.entry ∈ S := hS _ (by decide)
  exact scan_keeps_of hF W hlock ho hh (hS _ (by decide)) (hS _ (by decide))
    (cancelTxLogEntry_keeps hF W hlock he mask)
    (restoreMissingOutput_keeps hF W hlock ho hh he (hS _ (by decide)) mask) _ _ _

end Scan

/-! ## The owner's steps -/

namespace Owner

variable (W : World) (hlock : Prog.Keeps R (walletLock W))

omit hF in
theorem addProofInfo_reads (mask : Option SecretKey) (parent : Identifier)
    (recipient : Option DalekPublicKey) (slate : Slate) (context : Context) :
    Prog.Reads (addProofInfo W mask parent recipient slate context) := by
  unfold addProofInfo
  split
  · exact .pure _
  · exact (keychain_reads W mask).bind fun _ => (Selection.addressFromDerivationPath_reads W _ _ _).bind
      fun _ => .pure _

omit hF in
theorem updateHeights_reads (slate : Slate) (height : Nat) (ttl : Option Nat) :
    Prog.Reads (updateHeights slate height ttl) := by
  unfold updateHeights
  split
  · exact (addU64_reads _ _).bind fun _ => .pure _
  · exact .pure _

theorem saveContext_keeps (hc : .context ∈ S) (mask : Option SecretKey)
    (slateId : Uuid) (participantId : Nat) (context : Context) :
    Prog.Keeps R (saveContext W mask slateId participantId context) :=
  (batch_reads W mask).keeps.bind fun _ => (Batch.savePrivateContext_keeps hF W hc _ _ _ _).bind
    fun _ => .pure _

theorem deleteContext_keeps (hc : .context ∈ S) (mask : Option SecretKey)
    (slateId : Uuid) (participantId : Nat) :
    Prog.Keeps R (deleteContext W mask slateId participantId) :=
  (batch_reads W mask).keeps.bind fun _ => Prog.Keeps.bind (hF.erase hc) fun _ => .pure _

include hlock

theorem updateOutputs_keeps (hS : ∀ k ∈ Tx.sendRows, k ∈ S) (mask : Option SecretKey) :
    Prog.Keeps R (updateOutputs W mask) := by
  refine hlock.bind fun _ => parentKeyId_reads.keeps.bind fun _ => ?_
  refine (Updater.refreshOutputs_keeps hF W (hS _ (by decide)) (hS _ (by decide)) (hS _ (by decide))
    (hS _ (by decide)) (hS _ (by decide)) _ _).attempt.bind fun r => ?_
  split
  · exact .pure _
  · exact .throw _
  · exact .pure _

theorem saveConfirmed_keeps (he : .entry ∈ S) (mask : Option SecretKey)
    (parent : Identifier) (height : Nat) (tx : TxLogEntry) :
    Prog.Keeps R (saveConfirmed W mask parent height tx) :=
  hlock.bind fun _ => (batch_reads W mask).keeps.bind fun _ =>
    hF.nextTick.bind fun _ => (Batch.saveTxLogEntry_keeps hF he _ _).bind fun _ => .pure _

theorem lookupKernels_keeps (he : .entry ∈ S) (mask : Option SecretKey)
    (parent : Identifier) (height : Nat) :
    ∀ txs : List TxLogEntry, Prog.Keeps R (lookupKernels W mask parent height txs)
  | [] => .pure _
  | tx :: txs => by
    unfold lookupKernels
    refine .ite (fun _ => lookupKernels_keeps he mask parent height txs) fun _ => ?_
    split
    · exact lookupKernels_keeps he mask parent height txs
    · refine hF.nextTick.bind fun _ => ?_
      split
      · exact .pure _
      · exact lookupKernels_keeps he mask parent height txs
      · exact (saveConfirmed_keeps hF W hlock he _ _ _ _).bind fun _ =>
          lookupKernels_keeps he mask parent height txs

theorem updateTxsViaKernel_keeps (he : .entry ∈ S) (mask : Option SecretKey)
    (txs : List TxLogEntry) : Prog.Keeps R (updateTxsViaKernel W mask txs) := by
  refine hlock.bind fun _ => parentKeyId_reads.keeps.bind fun _ =>
    hlock.bind fun _ => (Updater.getChainTip_keeps hF W).attempt.bind fun r => ?_
  split
  · exact .pure _
  · exact lookupKernels_keeps hF W hlock he _ _ _ _

theorem cancelExpired_keeps (ho : .output ∈ S) (hh : .history ∈ S)
    (he : .entry ∈ S) (mask : Option SecretKey) (tip : Nat) (tx : TxLogEntry) :
    Prog.Keeps R (cancelExpired W mask tip tx) := by
  unfold cancelExpired
  split
  · exact .pure _
  · refine .ite (fun _ => ?_) fun _ => .pure _
    exact hlock.bind fun _ => parentKeyId_reads.keeps.bind fun _ =>
      Tx.cancelTx_keeps hF W ho hh he _ _ _ _

omit hF hlock in
theorem scanStart_reads (tip : Nat × String) : Prog.Reads (scanStart tip) := by
  refine initStatus_reads.bind fun s => ?_
  split
  · exact .pure _
  · exact .pure _
  · exact lastScannedBlock_reads

end Owner

namespace Foreign

variable (W : World)

omit hF in
theorem signProof_reads (k : Keychain) (parent : Identifier) (excess : Commitment) (slate : Slate) :
    Prog.Reads (signProof W k parent excess slate) := by
  unfold signProof
  split
  · exact .pure _
  · exact (Selection.addressFromDerivationPath_reads W _ _ _).bind fun _ => .pure _

end Foreign

end

end EpicWallet
