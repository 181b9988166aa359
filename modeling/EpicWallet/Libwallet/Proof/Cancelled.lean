import EpicWallet.Libwallet.Proof.Entries
import EpicWallet.Libwallet.Proof.Release

/-!
# Cancelled transactions stay cancelled

A property of entries that passes to every entry written for one that has it (`Hereditary`) is kept by
every operation (`Op.allEntries_of_run`), but for what locking and receiving add to the log. That the
entries of a slate are not of a type that can still be finalized is such a property.

* `refused_of_cancelled`: once the payment of a slate is cancelled and its coins are not locked again, no
  slate of that id is ever finalized, and the call that tries leaves the wallet's data alone. The same
  holds of the invoice of a received entry, where nothing is received under the id again.
-/

namespace EpicWallet

open Lib WalletBackend

variable {V : TxLogEntry → Prop}

/-- Every entry of the log has the property. -/
abbrev AllEntries (V : TxLogEntry → Prop) (w : Wallet) : Prop := LogHas (fun _ _ t => V t) (fun _ => 0) w

/-- The property passes from an entry to all that is written for it, and entries for outputs found on the
chain have it. -/
structure Hereditary (V : TxLogEntry → Prop) : Prop where
  annotate : ∀ {t t'}, V t → t'.core = t.core → V t'
  pool : ∀ {t}, V t → V t.inPool
  kernel : ∀ {t}, V t → ∀ now height, V (t.confirmedAt now height)
  confirm : ∀ {t}, V t → ∀ now height, V (Updater.confirmedEntry t now height)
  cancel : ∀ {t}, V t → V t.cancelled
  found : ∀ {p n t}, FoundEntry p n t → V t

theorem Hereditary.closed (hV : Hereditary V) : Closed (fun _ _ t => V t) (fun _ => 0) where
  annotate h hcore := hV.annotate h hcore
  pool h _ := hV.pool h
  kernel h _ _ now height := hV.kernel h now height
  cancel h _ _ := hV.cancel h
  found _ h := hV.found h

theorem AllEntries.of_mem {w : Wallet} (h : AllEntries V w) {t : TxLogEntry} (ht : t ∈ txLogOf w.db) :
    V t := by
  obtain ⟨p, i, hv⟩ := h.held ht
  exact hv

/-- The entries `retrieve_txs` returns. -/
theorem retrieveTxs_all_have (txId : Option Nat) (txSlateId : Option Uuid) (parent : Option Identifier)
    (outstandingOnly : Bool) :
    Prog.Triple (AllEntries V) (Updater.retrieveTxs txId txSlateId parent outstandingOnly none none none)
      (fun r w => AllEntries V w ∧ ∀ t ∈ r.2.2, V t) (AllEntries V) := by
  refine (retrieveTxs_has txId txSlateId parent outstandingOnly).mono (fun _ h => h)
    (fun r w h => ⟨h.1, fun t ht => ?_⟩) fun _ h => h
  obtain ⟨p, i, hv⟩ := (h.2 t ht).1
  exact hv

/-- Saving an entry that has the property. -/
theorem save_allEntries {t : TxLogEntry} (p : Identifier) (ht : V t) :
    Prog.Keeps (Prog.Inv (AllEntries V)) (Batch.saveTxLogEntry t p) := saveTxLogEntry_has ht

theorem walletLock_allEntries (W : World) : Prog.Keeps (Prog.Inv (AllEntries V)) (walletLock W) :=
  has_of_sameLog (walletLock_sameLog W)

section
variable (W : World) (hV : Hereditary V)
include hV

/-! ## Refreshing and cancelling -/

namespace Updater

theorem applyApiOutputs_all (mask : Option SecretKey) (outs : Rows Commitment (Identifier × Option Nat))
    (api : List (Commitment × String × Nat × Nat)) (height : Nat) (p : Identifier) :
    Prog.Keeps (Prog.Inv (AllEntries V)) (applyApiOutputs W mask outs api height p) := by
  have hF := logHas_frees (V := fun _ _ t => V t) (c := fun _ => 0)
  have hround : ∀ row, Prog.Keeps (Prog.Inv (AllEntries V)) (applyApiOutput W api height p row) := by
    intro row w h
    refine (applyApiOutput_has W hV.closed (J := fun _ => True) (fun _ _ => trivial)
      (fun _ _ _ _ _ _ _ t ht _ _ now h => ?_) w ⟨h, trivial⟩).1
    obtain ⟨q, i, hv⟩ := ht
    exact hV.confirm hv now h
  refine lastConfirmedHeight_reads.keeps.bind fun _ => .ite (fun _ => .pure _) fun _ => ?_
  refine (batch_reads W mask).keeps.bind fun _ => hF.nextTick.bind fun _ =>
    (Prog.Keeps.forEach _ fun row _ => hround row).bind fun _ => ?_
  exact (Batch.saveLastConfirmedHeight_keeps hF (by decide) _ _).bind fun _ => .pure _

theorem refreshOutputs_all (mask : Option SecretKey) (p : Identifier) :
    Prog.Keeps (Prog.Inv (AllEntries V)) (refreshOutputs W mask p) := by
  have hF := logHas_frees (V := fun _ _ t => V t) (c := fun _ => 0)
  refine (getNodeStatus_keeps hF W).bind fun _ => .ite (fun _ => .throw _) fun _ =>
    (getChainTip_keeps hF W).bind fun _ => (mapWalletOutputs_reads W _ _).keeps.bind fun _ => ?_
  refine hF.nextTick.bind fun _ => (Prog.Keeps.ofExcept _).bind fun _ =>
    (applyApiOutputs_all W hV _ _ _ _ _).bind fun _ => ?_
  exact cleanOldUnconfirmed_keeps hF W (by decide) (by decide) _ _

end Updater

namespace Tx

theorem cancelTx_all (mask : Option SecretKey) (p : Identifier) (txId : Option Nat)
    (txSlateId : Option Uuid) : Prog.Keeps (Prog.Inv (AllEntries V)) (cancelTx W mask p txId txSlateId) := by
  have hF := logHas_frees (V := fun _ _ t => V t) (c := fun _ => 0)
  refine Prog.triple_inv.1 ((retrieveTxs_all_have txId txSlateId (some p) false).bind fun r =>
    .of_and fun hr => ?_)
  refine Prog.triple_inv.2 ?_
  split
  · next tx hone =>
    refine .ite (fun _ => .throw _) fun _ => .ite (fun _ => .throw _) fun _ => ?_
    refine (Updater.retrieveOutputs_reads W _ _ _ _ _ _ _ _).keeps.bind fun res =>
      (batch_reads W mask).keeps.bind fun _ => Prog.Keeps.bind (Prog.Keeps.forEach _ fun o _ => ?_) fun _ => ?_
    · exact has_of_sameLog (cancelOutput_sameLog tx.id o)
    · exact (save_allEntries p (hV.cancel (hr tx (by rw [hone]; exact List.mem_cons_self)))).bind
        fun _ => .pure _
  · exact .throw _

/-- Annotating the entries of a slate. -/
theorem updateEntries_all {f : TxLogEntry → TxLogEntry} (hf : ∀ t, (f t).core = t.core)
    (mask : Option SecretKey) (slate : Slate) (parent : Option Identifier) :
    Prog.Keeps (Prog.Inv (AllEntries V)) (updateEntries W mask slate parent f) := by
  refine Prog.triple_inv.1 ((retrieveTxs_all_have none (some slate.id) parent false).bind fun r =>
    .of_and fun hr => Prog.triple_inv.2 ?_)
  refine .ite (fun _ => .throw _) fun _ => (batch_reads W mask).keeps.bind fun _ =>
    Prog.Keeps.bind (Prog.Keeps.forEach _ fun t ht => ?_) fun _ => .pure _
  exact save_allEntries t.parentKeyId (hV.annotate (hr t ht) (hf t))

theorem updateMessage_all (mask : Option SecretKey) (slate : Slate) :
    Prog.Keeps (Prog.Inv (AllEntries V)) (updateMessage W mask slate) := by
  apply updateEntries_all W hV
  intro t
  rfl

theorem updatePublicAddr_all (mask : Option SecretKey) (slate : Slate) (publicAddr : Option String)
    (parent : Option Identifier) :
    Prog.Keeps (Prog.Inv (AllEntries V)) (updatePublicAddr W mask slate publicAddr parent) := by
  apply updateEntries_all W hV
  intro t
  rfl

theorem updateStoredTx_all (mask : Option SecretKey) (context : Context) (slate : Slate)
    (isInvoiced : Bool) :
    Prog.Keeps (Prog.Inv (AllEntries V)) (updateStoredTx W mask context slate isInvoiced) := by
  have hF := logHas_frees (V := fun _ _ t => V t) (c := fun _ => 0)
  refine Prog.triple_inv.1 ((retrieveTxs_all_have none (some slate.id) none false).bind fun r =>
    .of_and fun hr => Prog.triple_inv.2 ?_)
  split
  · exact .throw _
  · next tx hf =>
    have hv := hr tx (List.mem_of_find?_eq_some hf)
    refine (Prog.Keeps.unwrap _).bind fun slateId => (storeTx_keeps hF W _ _).bind fun _ =>
      (Prog.Keeps.unwrap _).bind fun kernel => ?_
    refine Prog.triple_inv.1 (Prog.Triple.bind (R := fun t w => AllEntries V w ∧ V t) ?_ fun t =>
      .of_and fun ht => Prog.triple_inv.2 ?_)
    · split
      · exact (reads_has (signedProofInfo_reads W _ _ _ _)).bind fun _ =>
          .pure fun w h => ⟨h, hV.annotate hv rfl⟩
      · exact .pure fun w h => ⟨h, hV.annotate hv rfl⟩
    · exact (batch_reads W mask).keeps.bind fun _ => (save_allEntries _ ht).bind fun _ => .pure _

theorem updateMempoolStatus_all (mask : Option SecretKey) (slate : Slate) :
    Prog.Keeps (Prog.Inv (AllEntries V)) (updateMempoolStatus W mask slate) := by
  refine Prog.triple_inv.1 ((reads_has parentKeyId_reads).bind fun p => txLogIter_has.bind fun l =>
    .of_and fun hl => Prog.triple_inv.2 ?_)
  split
  · next t hf =>
    obtain ⟨q, i, hv⟩ := hl t (List.mem_of_find?_eq_some hf)
    exact (batch_reads W mask).keeps.bind fun _ => (save_allEntries p (hV.pool hv)).bind fun _ => .pure _
  · exact .pure _

end Tx

namespace Scan

/-- A restored output gets an entry of its own. -/
theorem restoreMissingOutput_all (mask : Option SecretKey) (output : OutputResult)
    (found : Rows Identifier Nat) :
    Prog.Keeps (Prog.Inv (AllEntries V)) (restoreMissingOutput W mask output found) := by
  have hF := logHas_frees (V := fun _ _ t => V t) (c := fun _ => 0)
  refine (walletLock_allEntries W).bind fun _ => (calcCommitForCache_reads W _ _ _).keeps.bind fun commit =>
    (batch_reads W mask).keeps.bind fun _ => Prog.triple_inv.1 ?_
  refine (nextTxLogId_has output.keyId.parentPath).bind fun n => .of_and fun _ => Prog.triple_inv.2 ?_
  refine hF.nextTick.bind fun created => hF.nextTick.bind fun confirmed =>
    (save_allEntries _ (hV.found (p := output.keyId.parentPath) (n := n) ?_)).bind fun _ => ?_
  · refine ⟨rfl, rfl, ?_, rfl, rfl⟩
    unfold restoredEntry TxLogEntry.new
    dsimp only
    split
    · exact .inl rfl
    · exact .inr rfl
  · exact (Batch.save_keeps hF (by decide) (by decide) _).attempt.bind fun _ =>
      (Prog.Keeps.unwrap _).bind fun _ => (Prog.Keeps.pure _).bind fun _ => .pure _

theorem cancelledEntry_all (p : Identifier) (id : Option Nat) :
    Prog.Triple (AllEntries V) (cancelledEntry p id) (fun t w => AllEntries V w ∧ ∀ e, t = some e → V e)
      (AllEntries V) := by
  cases id with
  | none => exact .pure fun w h => ⟨h, fun e he => by cases he⟩
  | some id =>
    refine (retrieveTxs_all_have (some id) none (some p) false).bind fun r => .of_and fun hr =>
      .pure fun w h => ⟨h, fun e he => ?_⟩
    obtain ⟨e', he', rfl⟩ := Option.map_eq_some_iff.1 he
    exact hV.cancel (hr e' (List.mem_of_mem_head? he'))

/-- Of the outputs a scan corrects, the entries are cancelled. -/
theorem cancelTxLogEntry_all (mask : Option SecretKey) (output : OutputData) :
    Prog.Keeps (Prog.Inv (AllEntries V)) (cancelTxLogEntry W mask output) := by
  refine (walletLock_allEntries W).bind fun _ => Prog.triple_inv.1 ?_
  refine (cancelledEntry_all hV output.keyId.parentPath output.txLogEntry).bind fun t =>
    .of_and fun ht => Prog.triple_inv.2 ?_
  refine (batch_reads W mask).keeps.bind fun _ => Prog.Keeps.bind ?_ fun _ => .pure _
  cases t with
  | none => exact .pure _
  | some e => exact save_allEntries _ (ht e rfl)

theorem scan_all (mask : Option SecretKey) (delete : Bool) (start stop : Nat) :
    Prog.Keeps (Prog.Inv (AllEntries V)) (scan W mask delete start stop) :=
  scan_keeps_of logHas_frees W (walletLock_allEntries W) (by decide) (by decide) (by decide) (by decide)
    (cancelTxLogEntry_all W hV mask) (restoreMissingOutput_all W hV mask) _ _ _

end Scan

namespace Owner

theorem waitForTxInMempool_all (mask : Option SecretKey) (txSlateId : Uuid) :
    ∀ attempts, Prog.Keeps (Prog.Inv (AllEntries V)) (waitForTxInMempool W mask txSlateId attempts)
  | 0 => .pure _
  | attempts + 1 => by
    have hF := logHas_frees (V := fun _ _ t => V t) (c := fun _ => 0)
    have hlock := walletLock_allEntries (V := V) W
    refine hlock.bind fun _ => hF.nextTick.bind fun _ => (Prog.Keeps.ofExcept _).bind fun mempool =>
      hlock.bind fun _ => Prog.triple_inv.1 (txLogIter_has.bind fun l => .of_and fun hl =>
        Prog.triple_inv.2 ?_)
    refine Prog.Keeps.bind (Prog.Keeps.forEach _ fun e he => ?_) fun _ =>
      .ite (fun _ => waitForTxInMempool_all mask txSlateId attempts) fun _ => .pure _
    obtain ⟨q, i, hv⟩ := hl e (List.mem_filter.1 he).1
    exact hlock.bind fun _ => parentKeyId_reads.keeps.bind fun p => (batch_reads W mask).keeps.bind fun _ =>
      (save_allEntries p (hV.pool hv)).bind fun _ => .pure _

theorem updateOutputs_all (mask : Option SecretKey) :
    Prog.Keeps (Prog.Inv (AllEntries V)) (updateOutputs W mask) := by
  refine (walletLock_allEntries W).bind fun _ => parentKeyId_reads.keeps.bind fun p =>
    (Updater.refreshOutputs_all W hV mask p).attempt.bind fun r => ?_
  split
  · exact .pure _
  · exact .throw _
  · exact .pure _

/-- Entries confirmed by their kernels are those read before. -/
theorem lookupKernels_all (mask : Option SecretKey) (p : Identifier) (height : Nat) :
    ∀ txs : List TxLogEntry, (∀ t ∈ txs, V t) →
      Prog.Keeps (Prog.Inv (AllEntries V)) (lookupKernels W mask p height txs)
  | [], _ => .pure _
  | tx :: txs, htxs => by
    have hF := logHas_frees (V := fun _ _ t => V t) (c := fun _ => 0)
    have ih := lookupKernels_all mask p height txs fun t ht => htxs t (List.mem_cons_of_mem _ ht)
    unfold lookupKernels
    refine .ite (fun _ => ih) fun _ => ?_
    split
    · exact ih
    · refine hF.nextTick.bind fun _ => ?_
      split
      · exact .pure _
      · exact ih
      · refine Prog.Keeps.bind ?_ fun _ => ih
        exact (walletLock_allEntries W).bind fun _ => (batch_reads W mask).keeps.bind fun _ =>
          hF.nextTick.bind fun _ =>
            (save_allEntries p (hV.kernel (htxs tx List.mem_cons_self) _ _)).bind fun _ => .pure _

theorem updateTxsViaKernel_all (mask : Option SecretKey) {txs : List TxLogEntry} (htxs : ∀ t ∈ txs, V t) :
    Prog.Keeps (Prog.Inv (AllEntries V)) (updateTxsViaKernel W mask txs) := by
  refine (walletLock_allEntries W).bind fun _ => parentKeyId_reads.keeps.bind fun p =>
    (walletLock_allEntries W).bind fun _ => (Updater.getChainTip_keeps logHas_frees W).attempt.bind fun r => ?_
  split
  · exact .pure _
  · exact lookupKernels_all W hV mask p _ txs htxs

theorem cancelExpired_all (mask : Option SecretKey) (tip : Nat) (tx : TxLogEntry) :
    Prog.Keeps (Prog.Inv (AllEntries V)) (cancelExpired W mask tip tx) := by
  unfold cancelExpired
  split
  · exact .pure _
  · exact .ite (fun _ => (walletLock_allEntries W).bind fun _ => parentKeyId_reads.keeps.bind fun p =>
      Tx.cancelTx_all W hV mask p _ _) fun _ => .pure _

theorem updateFromTip_all (mask : Option SecretKey) (txs : List TxLogEntry) :
    Prog.Keeps (Prog.Inv (AllEntries V)) (updateFromTip W mask txs) := by
  have hF := logHas_frees (V := fun _ _ t => V t) (c := fun _ => 0)
  have hlock := walletLock_allEntries (V := V) W
  refine (Updater.getChainTip_keeps hF W).attempt.bind fun r => ?_
  split
  · exact .pure _
  · refine Prog.Keeps.bind ?_ fun _ => Prog.Keeps.bind (Prog.Keeps.forEach _ fun t _ =>
      cancelExpired_all W hV mask _ t) fun _ => .pure _
    refine hlock.bind fun _ => (scanStart_reads _).keeps.bind fun _ =>
      (Scan.scan_all W hV mask false _ _).bind fun _ => hlock.bind fun _ =>
        (batch_reads W mask).keeps.bind fun _ => ?_
    exact Prog.Keeps.bind (hF.put (by decide) trivial) fun _ =>
      Prog.Keeps.bind (hF.put (by decide) trivial) fun _ => .pure _

theorem updateWalletState_all (mask : Option SecretKey) :
    Prog.Keeps (Prog.Inv (AllEntries V)) (updateWalletState W mask) := by
  have hlock := walletLock_allEntries (V := V) W
  refine hlock.bind fun _ => parentKeyId_reads.keeps.bind fun p => hlock.bind fun _ =>
    (updateOutputs_all W hV mask).bind fun _ => .ite (fun _ => .pure _) fun _ => hlock.bind fun _ => ?_
  refine Prog.triple_inv.1 ((retrieveTxs_all_have none none (some p) true).bind fun r => .of_and fun hr =>
    Prog.triple_inv.2 ?_)
  exact (updateTxsViaKernel_all W hV mask hr).bind fun _ => .ite (fun _ => .pure _) fun _ =>
    updateFromTip_all W hV mask _

theorem cancelTx_all (mask : Option SecretKey) (txId : Option Nat) (txSlateId : Option Uuid) :
    Prog.Keeps (Prog.Inv (AllEntries V)) (cancelTx W mask txId txSlateId) :=
  (updateWalletState_all W hV mask).bind fun _ => .ite (fun _ => .throw _) fun _ =>
    (walletLock_allEntries W).bind fun _ => parentKeyId_reads.keeps.bind fun p =>
      Tx.cancelTx_all W hV mask p txId txSlateId

theorem scan_all (mask : Option SecretKey) (startHeight : Option Nat) (delete : Bool) :
    Prog.Keeps (Prog.Inv (AllEntries V)) (scan W mask startHeight delete) := by
  have hF := logHas_frees (V := fun _ _ t => V t) (c := fun _ => 0)
  have hlock := walletLock_allEntries (V := V) W
  refine (updateOutputs_all W hV mask).bind fun _ => hlock.bind fun _ =>
    (Updater.getChainTip_keeps hF W).bind fun _ => (Scan.scan_all W hV mask _ _ _).bind fun _ =>
      hlock.bind fun _ => (batch_reads W mask).keeps.bind fun _ => ?_
  exact Prog.Keeps.bind (hF.put (by decide) trivial) fun _ => .pure _

end Owner

namespace Tx

/-- Selecting the coins of a payment refreshes the account, and writes no entry else. -/
theorem addInputsToSlate_all (mask : Option SecretKey) (slate : Slate)
    (minimumConfirmations maxOutputs numChangeOutputs : Nat) (selectAll : Bool) (p : Identifier)
    (participantId : Nat) (message : Option String) (isInitiator : Bool) :
    Prog.Keeps (Prog.Inv (AllEntries V)) (addInputsToSlate W mask slate minimumConfirmations maxOutputs
      numChangeOutputs selectAll p participantId message isInitiator) := by
  have hF := logHas_frees (V := fun _ _ t => V t) (c := fun _ => 0)
  refine (Updater.refreshOutputs_all W hV mask p).bind fun _ => (keychain_reads W mask).keeps.bind fun _ =>
    (Selection.buildSendTx_keeps hF W (by decide) _ _ _ _ _ _ _ _).bind fun _ =>
      (keychain_reads W mask).keeps.bind fun _ => ?_
  exact fillRounds_keeps hF W _ _ _ _ _ _ _ _

omit hV in
/-- Receiving adds an entry of the slate. -/
theorem addOutputToSlate_all (mask : Option SecretKey) {slate : Slate} {p : Identifier}
    (hnew : ∀ n t, NewEntry p n .txReceived slate.id t → V t) (participantId : Nat)
    (message : Option String) (isInitiator : Bool) :
    Prog.Keeps (Prog.Inv (AllEntries V))
      (addOutputToSlate W mask slate p participantId message isInitiator) := by
  have hF := logHas_frees (V := fun _ _ t => V t) (c := fun _ => 0)
  refine (Selection.buildRecipientOutput_has W fun n t _ ht => hnew n t ht).bind fun _ =>
    (keychain_reads W mask).keeps.bind fun _ => ?_
  exact fillRounds_keeps hF W _ _ _ _ _ _ _ _

omit hV in
/-- The id of a new slate is drawn from now on. -/
theorem newTxSlate_all (amount n : Nat) (ttl : Option Nat) (tick : Nat) :
    Prog.Triple (fun w => AllEntries V w ∧ tick ≤ w.tick) (newTxSlate W amount n ttl)
      (fun s w => AllEntries V w ∧ ∃ i ≥ tick, s.id = W.newUuid i) (AllEntries V) := by
  have hF := logHas_frees (V := fun _ _ t => V t) (c := fun _ => 0)
  have hkeeps := newTxSlate_keeps hF W amount n ttl
  apply Prog.Triple.intro
  · intro w s w' h hrun
    refine ⟨hkeeps.rel hrun h.1, w.tick + 1, by omega, ?_⟩
    obtain ⟨tip, w₁, htip, h₁⟩ := Prog.bind_ok.1 hrun
    obtain ⟨s₀, w₂, hblank, h₂⟩ := Prog.bind_ok.1 h₁
    obtain ⟨ttl', w₃, -, h₃⟩ := Prog.bind_ok.1 h₂
    cases h₃
    obtain ⟨t, w₄, ht, h₄⟩ := Prog.bind_ok.1 hblank
    cases h₄
    obtain ⟨t₀, w₅, ht₀, h₅⟩ := Prog.bind_ok.1 htip
    cases ht₀
    obtain ⟨-, rfl⟩ := Prog.ofExcept_eq_ok.1 h₅
    cases ht
    rfl
  · intro w e w' h hrun
    exact hkeeps.rel hrun h.1

omit hV in
theorem completeTx_all (mask : Option SecretKey) (slate : Slate) (participantId : Nat) (context : Context) :
    Prog.Keeps (Prog.Inv (AllEntries V)) (completeTx W mask slate participantId context) :=
  (completeTx_aside W mask slate participantId context).mono logHas_frees.aside

end Tx

/-! ## Operations -/

namespace Owner

theorem initSendTx_all (mask : Option SecretKey) (args : InitTxArgs) :
    Prog.Keeps (Prog.Inv (AllEntries V)) (initSendTx W mask args) := by
  have hF := logHas_frees (V := fun _ _ t => V t) (c := fun _ => 0)
  refine (accountNamed_reads _).keeps.bind fun p => (truncateMessage_reads _).keeps.bind fun message =>
    (Tx.newTxSlate_keeps hF W _ _ _).bind fun s => .ite (fun _ => ?_) fun _ => ?_
  · refine Prog.Keeps.bind ?_ fun _ => .pure _
    exact (Updater.getChainTip_keeps hF W).bind fun _ => (Updater.refreshOutputs_all W hV mask p).bind
      fun _ => (Selection.selectCoinsAndFee_reads W _ _ _ _ _ _ _).keeps.bind fun _ => .pure _
  · exact (Tx.addInputsToSlate_all W hV mask s _ _ _ _ p _ _ _).bind fun r =>
      (addProofInfo_reads W _ _ _ _ _).keeps.bind fun _ =>
        (saveContext_keeps hF W (by decide) _ _ _ _).bind fun _ => .pure _

omit hV in
theorem issueInvoiceTx_all (mask : Option SecretKey) (args : IssueInvoiceTxArgs) {tick : Nat}
    (hnew : ∀ i ≥ tick, ∀ p n t, NewEntry p n .txReceived (W.newUuid i) t → V t) :
    Prog.Triple (fun w => AllEntries V w ∧ tick ≤ w.tick) (issueInvoiceTx W mask args)
      (fun _ => AllEntries V) (AllEntries V) := by
  have hF := logHas_frees (V := fun _ _ t => V t) (c := fun _ => 0)
  have hread : ∀ {α : Type} {p : WalletM α}, Prog.Reads p →
      Prog.Triple (fun w => AllEntries V w ∧ tick ≤ w.tick) p (fun _ w => AllEntries V w ∧ tick ≤ w.tick)
        (AllEntries V) := fun h => h.triple (fun _ _ h _ => h) fun _ h => h.1
  refine (hread (accountNamed_reads _)).bind fun p => (hread (truncateMessage_reads _)).bind fun message =>
    (Tx.newTxSlate_all W _ _ _ tick).bind fun s => .of_and fun hs => Prog.triple_inv.2 ?_
  obtain ⟨i, hi, hid⟩ := hs
  exact (Tx.addOutputToSlate_all W mask (fun n t ht => hnew i hi p n t (hid ▸ ht)) 1 message true).bind
    fun r => (saveContext_keeps hF W (by decide) _ _ _ _).bind fun _ => .pure _

theorem processInvoiceTx_all (mask : Option SecretKey) (slate : Slate) (args : InitTxArgs) :
    Prog.Keeps (Prog.Inv (AllEntries V)) (processInvoiceTx W mask slate args) := by
  have hF := logHas_frees (V := fun _ _ t => V t) (c := fun _ => 0)
  refine (checkTtl_reads slate).keeps.bind fun _ => (accountNamed_reads _).keeps.bind fun p =>
    (Updater.retrieveTxs_reads _ _ _ _ _ _ _).keeps.bind fun _ => .ite (fun _ => .throw _) fun _ => ?_
  refine (truncateMessage_reads _).keeps.bind fun _ => (Updater.getChainTip_keeps hF W).bind fun _ =>
    (updateHeights_reads _ _ _).keeps.bind fun s => ?_
  exact (Tx.addInputsToSlate_all W hV mask s _ _ _ _ p _ _ _).bind fun r =>
    (saveContext_keeps hF W (by decide) _ _ _ _).bind fun _ => .pure _

omit hV in
theorem txLockOutputs_all (mask : Option SecretKey) {slate : Slate}
    (hnew : ∀ p n t, NewEntry p n .txSentCreated slate.id t → V t) (participantId : Nat)
    (addrTo : Option String) :
    Prog.Keeps (Prog.Inv (AllEntries V)) (txLockOutputs W mask slate participantId addrTo) := by
  refine (getPrivateContext_reads W _ _ _).keeps.bind fun c w h => ?_
  have hgains := (Selection.lockTxContext_gains W mask slate c addrTo).state (fun _ _ h => h)
    (fun _ h => h) h
  exact hgains.logHas fun n t _ ht => hnew _ n t ht

theorem finalizeTx_all (mask : Option SecretKey) (slate : Slate) :
    Prog.Keeps (Prog.Inv (AllEntries V)) (finalizeTx W mask slate) := by
  have hF := logHas_frees (V := fun _ _ t => V t) (c := fun _ => 0)
  refine (checkTtl_reads slate).keeps.bind fun _ => (getPrivateContext_reads W _ _ _).keeps.bind fun c =>
    parentKeyId_reads.keeps.bind fun p => (Tx.completeTx_all W mask slate 0 c).bind fun sl => ?_
  refine (Tx.verifySlatePaymentProof_reads W _ _ _ _).keeps.bind fun _ =>
    (Tx.updateStoredTx_all W hV mask c sl false).bind fun _ => ?_
  exact (Tx.updateMessage_all W hV mask sl).bind fun _ =>
    (deleteContext_keeps hF W (by decide) _ _ _).bind fun _ => .pure _

end Owner

namespace Foreign

theorem receiveTx_all (mask : Option SecretKey) {slate : Slate}
    (hnew : ∀ p n t, NewEntry p n .txReceived slate.id t → V t)
    (destAcctName message addrFrom : Option String) :
    Prog.Keeps (Prog.Inv (AllEntries V)) (receiveTx W mask slate destAcctName message addrFrom) := by
  refine (checkTtl_reads slate).keeps.bind fun _ => (accountNamed_reads _).keeps.bind fun p =>
    (Updater.retrieveTxs_reads _ _ _ _ _ _ _).keeps.bind fun _ => .ite (fun _ => .throw _) fun _ => ?_
  refine (truncateMessage_reads _).keeps.bind fun m =>
    (Tx.addOutputToSlate_all W mask (hnew p) 1 m false).bind fun r =>
      (Tx.updateMessage_all W hV mask r.1).bind fun _ => ?_
  refine (Tx.updatePublicAddr_all W hV mask r.1 addrFrom (some p)).bind fun _ => ?_
  exact (keychain_reads W mask).keeps.bind fun _ => (Prog.Keeps.ofExcept _).bind fun _ =>
    (signProof_reads W _ _ _ _).keeps

theorem finalizeInvoiceTx_all (mask : Option SecretKey) (slate : Slate) :
    Prog.Keeps (Prog.Inv (AllEntries V)) (finalizeInvoiceTx W mask slate) := by
  have hF := logHas_frees (V := fun _ _ t => V t) (c := fun _ => 0)
  refine (checkTtl_reads slate).keeps.bind fun _ => (getPrivateContext_reads W _ _ _).keeps.bind fun c =>
    (Tx.completeTx_all W mask slate 1 c).bind fun sl =>
      (Tx.updateStoredTx_all W hV mask c sl true).bind fun _ => ?_
  exact (Tx.updateMessage_all W hV mask sl).bind fun _ =>
    (Owner.deleteContext_keeps hF W (by decide) _ _ _).bind fun _ => .pure _

end Foreign

end

/-- The entries an operation may add have the property. -/
def Op.AddsOnly (V : TxLogEntry → Prop) (W : World) : Op → Wallet → Prop
  | .txLockOutputs _ slate _ _, _ => ∀ p n t, NewEntry p n .txSentCreated slate.id t → V t
  | .receiveTx _ slate _ _ _, _ => ∀ p n t, NewEntry p n .txReceived slate.id t → V t
  | .issueInvoiceTx _ _, w => ∀ i ≥ w.tick, ∀ p n t, NewEntry p n .txReceived (W.newUuid i) t → V t
  | _, _ => True

/-- Where the entries it adds have it, an operation keeps a hereditary property of all entries. -/
theorem Op.run_allEntries (W : World) (hV : Hereditary V) (op : Op) (w : Wallet) (ha : op.AddsOnly V W w)
    (h : AllEntries V w) : AllEntries V (op.run W w) := by
  have hF := logHas_frees (V := fun _ _ t => V t) (c := fun _ => 0)
  have hvoid : ∀ {α : Type} {p : WalletM α}, Prog.Keeps (Prog.Inv (AllEntries V)) p →
      AllEntries V ((p >>= fun _ => pure ()) w).2 := fun hp => (hp.bind fun _ => .pure _) w h
  cases op with
  | createAccountPath mask label => exact hvoid (Keys.newAcctPath_keeps hF W (by decide) mask label)
  | setActiveAccount label =>
    refine setParentKeyIdByName_keeps (R := Prog.Inv (AllEntries V)) (fun id => ?_) label w h
    exact has_of_sameLog fun w => ⟨fun _ _ => rfl, fun _ => rfl⟩
  | initSendTx mask args => exact hvoid (Owner.initSendTx_all W hV mask args)
  | issueInvoiceTx mask args =>
    exact ((Owner.issueInvoiceTx_all W mask args ha).bind fun _ => reads_has (.pure _)).state
      (fun _ _ h => h) (fun _ h => h) ⟨h, le_rfl⟩
  | processInvoiceTx mask slate args => exact hvoid (Owner.processInvoiceTx_all W hV mask slate args)
  | txLockOutputs mask slate participantId addrTo =>
    exact Owner.txLockOutputs_all W mask ha participantId addrTo w h
  | finalizeTx mask slate => exact hvoid (Owner.finalizeTx_all W hV mask slate)
  | receiveTx mask slate dest message addrFrom =>
    exact hvoid (Foreign.receiveTx_all W hV mask ha dest message addrFrom)
  | finalizeInvoiceTx mask slate => exact hvoid (Foreign.finalizeInvoiceTx_all W hV mask slate)
  | cancelTx mask txId txSlateId => exact Owner.cancelTx_all W hV mask txId txSlateId w h
  | updateMempoolStatus mask slate => exact Tx.updateMempoolStatus_all W hV mask slate w h
  | waitForTxInMempool mask txSlateId attempts =>
    exact hvoid (Owner.waitForTxInMempool_all W hV mask txSlateId attempts)
  | updateWalletState mask => exact hvoid (Owner.updateWalletState_all W hV mask)
  | scan mask startHeight delete => exact Owner.scan_all W hV mask startHeight delete w h
  | buildCoinbase mask fees =>
    exact hvoid (Updater.receiveReward_keeps hF W (by decide) (by decide) (by decide) _ _ _ _)
  | buildFoundation mask fees =>
    exact hvoid (Updater.receiveReward_keeps hF W (by decide) (by decide) (by decide) _ _ _ _)

/-- Over a whole run. -/
theorem allEntries_of_run (W : World) (hV : Hereditary V) {ops : List Op} {w : Wallet}
    (ha : ∀ s ∈ steps W ops w, s.1.AddsOnly V W s.2) (h : AllEntries V w) :
    AllEntries V (runAll W ops w) :=
  runAll_of_steps (fun op w => op.run_allEntries W hV w) ha h

/-! ## Entries that can be finalized -/

/-- The entry is not one of the slate, or of none of the types. -/
def NoneOf (u : Uuid) (types : List TxLogEntryType) (t : TxLogEntry) : Prop :=
  t.txSlateId = some u → t.txType ∉ types

/-- An entry of a payment that may still be finalized, or become one again. -/
def paymentTypes : List TxLogEntryType := [.txSentCreated, .txSentMempool, .txSent]

/-- An entry of an invoice that may still be finalized. -/
def invoiceTypes : List TxLogEntryType := [.txReceived]

/-- What is written for an entry is of one of the types only if the entry was. -/
structure Reached (types : List TxLogEntryType) : Prop where
  pool : ∀ ty, Tx.mempoolType ty ∈ types → ty ∈ types
  confirm : ∀ ty, (if ty = .txSentMempool ∨ ty = .txSentCreated then .txSent else ty) ∈ types → ty ∈ types
  cancel : ∀ ty, Updater.cancelledType ty ∈ types → ty ∈ types

theorem reached_paymentTypes : Reached paymentTypes :=
  ⟨fun ty => by cases ty <;> decide, fun ty => by cases ty <;> decide, fun ty => by cases ty <;> decide⟩

theorem reached_invoiceTypes : Reached invoiceTypes :=
  ⟨fun ty => by cases ty <;> decide, fun ty => by cases ty <;> decide, fun ty => by cases ty <;> decide⟩

theorem hereditary_noneOf (u : Uuid) {types : List TxLogEntryType} (ht : Reached types) :
    Hereditary (NoneOf u types) where
  annotate h hcore hu := by
    obtain ⟨-, -, hslate, hty, -⟩ := Tx.core_eq hcore
    rw [hty]
    exact h (hslate ▸ hu)
  pool h hu hty := h hu (ht.pool _ hty)
  kernel h _ _ hu hty := h hu hty
  confirm h _ _ hu hty := h hu (ht.confirm _ hty)
  cancel h hu hty := h hu (ht.cancel _ hty)
  found h hu := by
    rw [h.txSlateId] at hu
    cases hu

theorem payment_stored (t : TxLogEntry) (h : Tx.isStoredEntry false t = true) :
    t.txType ∈ paymentTypes := by
  unfold Tx.isStoredEntry at h
  unfold paymentTypes
  cases ht : t.txType <;> simp_all

theorem invoice_stored (t : TxLogEntry) (h : Tx.isStoredEntry true t = true) :
    t.txType ∈ invoiceTypes := by
  unfold Tx.isStoredEntry at h
  unfold invoiceTypes
  cases ht : t.txType <;> simp_all

/-! ## Finalizing is refused -/

/-- A call that fails without a trace in the wallet's data. -/
structure FailsClean {α : Type} (p : WalletM α) (w : Wallet) : Prop where
  fails : ∀ a w', p w ≠ (.ok a, w')
  db : (p w).2.db = w.db
  storedTxs : (p w).2.storedTxs = w.storedTxs

section
variable (W : World) {mask : Option SecretKey} {slate : Slate} {w : Wallet}

theorem storedTxs_of_aside {w w' : Wallet} (h : Aside w w') : w'.storedTxs = w.storedTxs := by
  rw [h]

/-- A step that leaves the data alone, before a refusal. -/
theorem FailsClean.bind {α β : Type} {p : WalletM α} {f : α → WalletM β} (hp : Prog.Keeps Aside p)
    (hf : ∀ a w', p w = (.ok a, w') → FailsClean (f a) w') : FailsClean (p >>= f) w := by
  have hside := hp w
  rcases hrun : p w with ⟨_ | a, w'⟩
  · rw [hrun] at hside
    refine ⟨fun b w'' h => ?_, ?_, ?_⟩
    · rw [Prog.bind_of_error hrun] at h
      cases h
    · rw [Prog.bind_of_error hrun]
      exact hside.db
    · rw [Prog.bind_of_error hrun]
      exact storedTxs_of_aside hside
  · rw [hrun] at hside
    obtain ⟨hfails, hdb, hstored⟩ := hf a w' hrun
    refine ⟨fun b w'' h => hfails b w'' (by rwa [Prog.bind_of_ok hrun] at h), ?_, ?_⟩
    · rw [Prog.bind_of_ok hrun, hdb, hside.db]
    · rw [Prog.bind_of_ok hrun, hstored]
      exact storedTxs_of_aside hside

theorem FailsClean.throw {α : Type} (e : Error) (w : Wallet) : FailsClean (Prog.throw e : WalletM α) w :=
  ⟨fun _ _ h => (by cases h), rfl, rfl⟩

/-- Nothing comes after a refusal. -/
theorem FailsClean.first {α β : Type} {p : WalletM α} (h : FailsClean p w) (f : α → WalletM β) :
    FailsClean (p >>= f) w := by
  rcases hrun : p w with ⟨e | a, w'⟩
  · have hdb := h.db
    have hstored := h.storedTxs
    rw [hrun] at hdb hstored
    refine ⟨fun b w'' hb => ?_, ?_, ?_⟩
    · rw [Prog.bind_of_error hrun] at hb
      cases hb
    · rw [Prog.bind_of_error hrun]
      exact hdb
    · rw [Prog.bind_of_error hrun]
      exact hstored
  · exact absurd hrun (h.fails a w')

/-- Where no entry can be finalized, nothing is stored. -/
theorem Tx.updateStoredTx_refused {context : Context} {isInvoiced : Bool} {types : List TxLogEntryType}
    (htypes : ∀ t, isStoredEntry isInvoiced t = true → t.txType ∈ types)
    (h : AllEntries (NoneOf slate.id types) w) :
    FailsClean (updateStoredTx W mask context slate isInvoiced) w := by
  obtain ⟨n, l, hrun, hmem⟩ := Updater.retrieveTxs_all none (some slate.id) none false none w
  refine .bind (Updater.retrieveTxs_reads _ _ _ _ _ _ _).keeps fun r w' hr => ?_
  rw [hrun] at hr
  cases hr
  have hnone : l.find? (isStoredEntry isInvoiced) = none := by
    refine List.find?_eq_none.2 fun t ht hst => ?_
    obtain ⟨hlog, -, -, hslate, -⟩ := Updater.mem_selectedTxs.1 ((hmem t).1 ht)
    exact h.of_mem hlog (hslate _ rfl) (htypes t hst)
  dsimp only
  rw [hnone]
  exact .throw _ _

theorem Owner.finalizeTx_refused (h : AllEntries (NoneOf slate.id paymentTypes) w) :
    FailsClean (finalizeTx W mask slate) w := by
  refine .bind (checkTtl_reads slate).keeps fun _ w₁ h₁ => ?_
  obtain rfl := (checkTtl_reads slate).eq h₁
  refine .bind (getPrivateContext_reads W _ _ _).keeps fun c w₂ h₂ => ?_
  obtain rfl := (getPrivateContext_reads W _ _ _).eq h₂
  refine .bind parentKeyId_reads.keeps fun p w₃ h₃ => ?_
  obtain rfl := parentKeyId_reads.eq h₃
  refine .bind (Tx.completeTx_aside W mask slate 0 c) fun sl w₄ h₄ => ?_
  have hkept := (Tx.completeTx_all W mask slate 0 c).rel h₄ h
  rw [← Tx.completeTx_id W h₄] at hkept
  refine .bind (Tx.verifySlatePaymentProof_reads W _ _ _ _).keeps fun _ w₅ h₅ => ?_
  obtain rfl := (Tx.verifySlatePaymentProof_reads W _ _ _ _).eq h₅
  exact (Tx.updateStoredTx_refused W payment_stored hkept).first _

theorem Foreign.finalizeInvoiceTx_refused (h : AllEntries (NoneOf slate.id invoiceTypes) w) :
    FailsClean (finalizeInvoiceTx W mask slate) w := by
  refine .bind (checkTtl_reads slate).keeps fun _ w₁ h₁ => ?_
  obtain rfl := (checkTtl_reads slate).eq h₁
  refine .bind (getPrivateContext_reads W _ _ _).keeps fun c w₂ h₂ => ?_
  obtain rfl := (getPrivateContext_reads W _ _ _).eq h₂
  refine .bind (Tx.completeTx_aside W mask slate 1 c) fun sl w₄ h₄ => ?_
  have hkept := (Tx.completeTx_all W mask slate 1 c).rel h₄ h
  rw [← Tx.completeTx_id W h₄] at hkept
  exact (Tx.updateStoredTx_refused W invoice_stored hkept).first _

end

/-! ## After the cancellation -/

/-- Locking the coins of other slates, and receiving anything, adds no payment of the slate. -/
theorem Op.addsOnly_payment (W : World) {u : Uuid} {op : Op} {w : Wallet}
    (h : ∀ mask slate id addr, op = .txLockOutputs mask slate id addr → slate.id ≠ u) :
    op.AddsOnly (NoneOf u paymentTypes) W w := by
  cases op with
  | txLockOutputs mask slate id addr =>
    intro p n t ht hu
    rw [ht.txSlateId] at hu
    exact absurd (Option.some.inj hu) (h _ _ _ _ rfl)
  | receiveTx mask slate dest message addr =>
    intro p n t ht _
    rw [ht.txType]
    decide
  | issueInvoiceTx mask args =>
    intro i _ p n t ht _
    rw [ht.txType]
    decide
  | _ => trivial

/-- Locking coins, and receiving and invoicing under other ids, adds no invoice of the slate. -/
theorem Op.addsOnly_invoice (W : World) {u : Uuid} {op : Op} {w : Wallet}
    (h : ∀ mask slate dest message addr, op = .receiveTx mask slate dest message addr → slate.id ≠ u)
    (hnew : ∀ i ≥ w.tick, W.newUuid i ≠ u) : op.AddsOnly (NoneOf u invoiceTypes) W w := by
  cases op with
  | txLockOutputs mask slate id addr =>
    intro p n t ht _
    rw [ht.txType]
    decide
  | receiveTx mask slate dest message addr =>
    intro p n t ht hu
    rw [ht.txSlateId] at hu
    exact absurd (Option.some.inj hu) (h _ _ _ _ _ rfl)
  | issueInvoiceTx mask args =>
    intro i hi p n t ht hu
    rw [ht.txSlateId] at hu
    exact absurd (Option.some.inj hu) (hnew i hi)
  | _ => trivial

/-- The entry `n` of the account `p` is the only one of the slate that can be finalized. -/
def OnlyEntry (u : Uuid) (types : List TxLogEntryType) (p : Identifier) (n : Nat)
    (d : Rows Key Serializable) : Prop :=
  ∀ q j t, entryAt d q j = some t → t.txSlateId = some u → t.txType ∈ types → q = p ∧ j = n

/-- Cancelling the only entry of the slate leaves none. -/
theorem noneOf_of_cancelTx {W : World} {mask : Option SecretKey} {u : Uuid} {types : List TxLogEntryType}
    (hcancel : ∀ ty, ty = .txSentCreated ∨ ty = .txReceived → Updater.cancelledType ty ∉ types)
    {p : Identifier} {n : Nat} {w w' : Wallet} (hk : LogKeyed w.db) (hone : OnlyEntry u types p n w.db)
    (h : Tx.cancelTx W mask p (some n) none w = (.ok (), w')) : AllEntries (NoneOf u types) w' := by
  have hex : ∃ t, entryAt w.db p n = some t ∧ Cancellable t = true := by
    by_contra hno
    have hn : ∀ t ∈ entryAt w.db p n, Cancellable t = false := fun t ht => by
      by_contra hc
      exact hno ⟨t, ht, by simpa using hc⟩
    have hrefused : ∃ e, Tx.cancelTx W mask p (some n) none w = (.error (.err e), w) :=
      Tx.cancelTx_refuses hk hn
    obtain ⟨e, he⟩ := hrefused
    rw [h] at he
    cases he
  obtain ⟨t, ht, hc⟩ := hex
  have hcancels := Tx.cancelTx_cancelsAt hk ht hc h
  refine ⟨fun {q j t'} ht' => ?_, fun _ => Nat.zero_le _⟩
  rw [hcancels] at ht'
  obtain ⟨t₀, ht₀, rfl⟩ := Option.map_eq_some_iff.1 ht'
  by_cases hq : q = p ∧ j = n
  · obtain ⟨rfl, rfl⟩ := hq
    rw [ht] at ht₀
    cases ht₀
    intro _
    rw [if_pos ⟨rfl, rfl⟩]
    exact hcancel _ (cancellable_iff.1 hc).2
  · rw [if_neg hq]
    intro hu hty
    exact hq (hone q j t₀ ht₀ hu hty)

theorem mem_of_mem_steps {W : World} : ∀ {ops : List Op} {w : Wallet} {s : Op × Wallet},
    s ∈ steps W ops w → s.1 ∈ ops
  | [], _, _, h => by cases h
  | op :: ops, w, s, h => by
    rcases List.mem_cons.1 h with rfl | h
    · exact List.mem_cons_self
    · exact List.mem_cons_of_mem _ (mem_of_mem_steps h)

/-- What was cancelled is never finalized: a payment, unless the coins of the slate are locked again, and
an invoice, unless something is received or invoiced under its id again. -/
theorem refused_of_cancelled (W : World) {mask : Option SecretKey} {u : Uuid} {p : Identifier} {n : Nat}
    {w w' : Wallet} {ops : List Op} (hk : LogKeyed w.db)
    (hc : Tx.cancelTx W mask p (some n) none w = (.ok (), w')) :
    (OnlyEntry u paymentTypes p n w.db →
      (∀ mask slate id addr, Op.txLockOutputs mask slate id addr ∈ ops → slate.id ≠ u) →
      ∀ mask slate, slate.id = u → FailsClean (Owner.finalizeTx W mask slate) (runAll W ops w')) ∧
    (OnlyEntry u invoiceTypes p n w.db →
      (∀ mask slate dest message addr, Op.receiveTx mask slate dest message addr ∈ ops → slate.id ≠ u) →
      (∀ s ∈ steps W ops w', ∀ i ≥ s.2.tick, W.newUuid i ≠ u) →
      ∀ mask slate, slate.id = u →
        FailsClean (Foreign.finalizeInvoiceTx W mask slate) (runAll W ops w')) := by
  constructor
  · rintro hone hops mask' slate rfl
    have hnone := noneOf_of_cancelTx (by rintro ty (rfl | rfl) <;> decide) hk hone hc
    apply Owner.finalizeTx_refused W
    refine allEntries_of_run W (hereditary_noneOf slate.id reached_paymentTypes) (fun s hs => ?_) hnone
    exact Op.addsOnly_payment W fun m sl i a he => hops m sl i a (he ▸ mem_of_mem_steps hs)
  · rintro hone hops hnew mask' slate rfl
    have hnone := noneOf_of_cancelTx (by rintro ty (rfl | rfl) <;> decide) hk hone hc
    apply Foreign.finalizeInvoiceTx_refused W
    refine allEntries_of_run W (hereditary_noneOf slate.id reached_invoiceTypes) (fun s hs => ?_) hnone
    exact Op.addsOnly_invoice W (fun m sl d t a he => hops m sl d t a (he ▸ mem_of_mem_steps hs))
      (hnew s hs)

/-! ## A cancelled send of the small world -/

/-- A row that is no entry of the slate with one of the types, or the one entry. -/
def onlyRow (u : Uuid) (types : List TxLogEntryType) (p : Identifier) (n : Nat) : Key × Serializable → Bool
  | (.txLogEntry q j, .txLogEntry t) => t.txSlateId = some u ∧ t.txType ∈ types → q = p ∧ j = n
  | _ => true

theorem onlyEntry_of_rows {u : Uuid} {types : List TxLogEntryType} {p : Identifier} {n : Nat}
    {d : Rows Key Serializable} (h : ∀ r ∈ d.toList, onlyRow u types p n r = true) :
    OnlyEntry u types p n d := fun _ _ _ ht hu hty =>
  of_decide_eq_true (h _ (Rows.mem_iff.2 (entryAt_eq.1 ht))) ⟨hu, hty⟩

/-- The wallet of the small world after it cancelled its send. -/
def cancelledSend : Except (Fault Error) Unit × Wallet :=
  Tx.cancelTx World.small none defaultPath (some 1) none lockedSend.2

theorem refused_of_cancelled_small :
    FailsClean (Owner.finalizeTx World.small none startedSlate)
      (runAll World.small [.updateMempoolStatus none startedSlate, .updateWalletState none,
        .receiveTx none startedSlate none none none] cancelledSend.2) := by
  have hrows : (∀ r ∈ lockedSend.2.db.toList, standsAtKey r = true) ∧
      ∀ r ∈ lockedSend.2.db.toList, onlyRow startedSlate.id paymentTypes defaultPath 1 r = true := by
    decide +kernel
  have hc : cancelledSend = (.ok (), cancelledSend.2) := Prog.run_eq (by decide +kernel)
  refine (refused_of_cancelled World.small (keyed_of_standsAtKey hrows.1).2 hc).1
    (onlyEntry_of_rows hrows.2) (fun m s i a h => ?_) none startedSlate rfl
  simp at h

end EpicWallet
