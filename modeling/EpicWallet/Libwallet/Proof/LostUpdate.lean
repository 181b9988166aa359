import EpicWallet.Libwallet.Proof.Interleave

/-!
# Entries written back from copies

`wait_for_tx_in_mempool` and `update_txs_via_kernel` save whole entries they copied out of the log
before the lock was released. A copy saved over an entry that was confirmed or cancelled meanwhile
undoes that (`Op.stale_mark_unconfirms`); as long as no copy is saved so, entries that are confirmed
or cancelled stay so (`Op.lasting_of_run`).
-/

namespace EpicWallet

open Lib WalletBackend

/-! ## What must last -/

/-- The entry is of a cancelled transaction. -/
def TxLogEntryType.Cancelled (ty : TxLogEntryType) : Prop :=
  ty = .txSentCancelled ∨ ty = .txReceivedCancelled

instance (ty : TxLogEntryType) : Decidable ty.Cancelled := inferInstanceAs (Decidable (_ ∨ _))

/-- The entry is of a transaction seen in the pool. -/
def TxLogEntryType.InPool (ty : TxLogEntryType) : Prop :=
  ty = .txSentMempool ∨ ty = .txReceivedMempool

/-- A later state of the same entry: what was confirmed or cancelled still is, and was not put back
into the pool. -/
structure Lasting (t t' : TxLogEntry) : Prop where
  confirmed : t.confirmed = true → t'.confirmed = true
  cancelled : t.txType.Cancelled → t'.txType = t.txType
  pool : t.confirmed = true ∨ t.txType.Cancelled → t'.txType.InPool → t'.txType = t.txType

theorem Lasting.trans {a b c : TxLogEntry} (h : Lasting a b) (h' : Lasting b c) : Lasting a c where
  confirmed ha := h'.confirmed (h.confirmed ha)
  cancelled ha := by
    have hb := h.cancelled ha
    exact (h'.cancelled (hb ▸ ha)).trans hb
  pool ha hc := by
    have hb : b.confirmed = true ∨ b.txType.Cancelled :=
      ha.imp h.confirmed fun hcan => (h.cancelled hcan).symm ▸ hcan
    have hcb := h'.pool hb hc
    rw [hcb] at hc ⊢
    exact h.pool ha hc

/-- The same type, confirmed if it was. -/
theorem lasting_of_type {t t' : TxLogEntry} (hty : t'.txType = t.txType)
    (hc : t.confirmed = true → t'.confirmed = true) : Lasting t t' := ⟨hc, fun _ => hty, fun _ _ => hty⟩

/-- Nothing has to last of an entry that is neither confirmed nor cancelled. -/
theorem lasting_of_open {t t' : TxLogEntry} (hc : t.confirmed = false) (hn : ¬t.txType.Cancelled) :
    Lasting t t' := by
  have hc' : ¬t.confirmed = true := by simp [hc]
  exact ⟨fun h => absurd h hc', fun h => absurd h hn,
    fun h _ => (h.elim hc' hn).elim⟩

/-- Confirmed and cancelled entries last, and every number is handed out once. -/
def lastingPolicy : Policy where
  change := Lasting
  create _ := True
  counted := True
  refl _ := lasting_of_type rfl id
  trans := Lasting.trans
  createChange _ _ := trivial

theorem lasting_confirmedEntry (t : TxLogEntry) (now : DateTime) (height : Nat) :
    Lasting t (Updater.confirmedEntry t now height) := by
  have hty : (Updater.confirmedEntry t now height).txType = .txSent ∧
      ¬t.txType.Cancelled ∨ (Updater.confirmedEntry t now height).txType = t.txType := by
    unfold Updater.confirmedEntry
    dsimp only
    split
    · next h => exact .inl ⟨rfl, by rcases h with h | h <;> rw [h] <;> decide⟩
    · exact .inr rfl
  rcases hty with ⟨hty, hn⟩ | hty
  · refine ⟨fun _ => rfl, fun h => absurd h hn, fun _ h => ?_⟩
    rw [hty] at h
    rcases h with h | h <;> cases h
  · exact lasting_of_type hty fun _ => rfl

theorem lasting_cancelled (t : TxLogEntry) :
    Lasting t { t with txType := Updater.cancelledType t.txType } := by
  rcases hty : t.txType with _ | _ | _ | _ | _ | _ | _ | _
  case txReceived | txSentCreated =>
    refine ⟨id, fun h => ?_, fun _ h => ?_⟩
    · rw [hty] at h
      rcases h with h | h <;> cases h
    · rcases h with h | h <;> cases h
  all_goals exact lasting_of_type hty.symm id

theorem lasting_serves (p : Identifier) : lastingPolicy.Serves p where
  create _ := trivial
  replace h := absurd trivial h
  confirm _ := lasting_confirmedEntry _ _ _
  cancel _ _ _ := lasting_cancelled _

theorem lasting_annotates (t : TxLogEntry) : lastingPolicy.Annotates t := fun t' h => by
  obtain ⟨-, -, -, hty, hc⟩ := Tx.core_eq h
  exact lasting_of_type hty fun ht => hc.trans ht

/-! ## When copies may be saved -/

/-- The section saves no copy over an entry that was confirmed or cancelled since it was taken. -/
def Act.Fresh : Act → Wallet → Prop
  | mark e, w => ∀ r ∈ entryAt w.db e.parentKeyId e.id,
      r.confirmed = false ∧ ¬r.txType.Cancelled ∨ r.txType = e.inPool.txType ∧ r.confirmed = e.confirmed
  | confirm p e, w => ∀ r ∈ entryAt w.db p e.id, ¬r.txType.Cancelled
  | call op, w => ∀ t ∈ op.marks w, t.confirmed = false ∨ Tx.mempoolType t.txType = t.txType
  -- `import_tx` is none of the calls considered here
  | imports _, _ => False
  | _, _ => True

instance : (a : Act) → (w : Wallet) → Decidable (a.Fresh w)
  | .mark e, w => inferInstanceAs (Decidable (∀ r ∈ entryAt w.db e.parentKeyId e.id,
      r.confirmed = false ∧ ¬r.txType.Cancelled ∨
        r.txType = e.inPool.txType ∧ r.confirmed = e.confirmed))
  | .confirm p e, w => inferInstanceAs (Decidable (∀ r ∈ entryAt w.db p e.id, ¬r.txType.Cancelled))
  | .call op, w => inferInstanceAs (Decidable (∀ t ∈ op.marks w,
      t.confirmed = false ∨ Tx.mempoolType t.txType = t.txType))
  | .imports _, _ => .isFalse id
  | .quiet, _ | .refresh, _ | .cancel _ _, _ | .restore _, _ | .cancelEntry _, _ | .reindex _ _, _
  | .unspend _, _ | .discard _, _ => .isTrue trivial

/-- The section saves no stale copy, and in the entry's own account. -/
def Act.Safe (W : World) (a : Act) (w : Wallet) : Prop := a.InOwnAccount W w ∧ a.Fresh w

instance (W : World) (a : Act) (w : Wallet) : Decidable (a.Safe W w) :=
  inferInstanceAs (Decidable (_ ∧ _))

/-- Marking as in the pool does not touch the cancelled. -/
theorem mempoolType_of_cancelled {ty : TxLogEntryType} (h : ty.Cancelled) : Tx.mempoolType ty = ty := by
  rcases h with rfl | rfl <;> rfl

theorem allowed_of_safe {W : World} (a : Act) (w : Wallet) (h : a.Safe W w) :
    a.Allowed lastingPolicy W w := by
  obtain ⟨hown, h⟩ := h
  cases a with
  | quiet | reindex | unspend | discard => trivial
  | imports txs => exact h.elim
  | refresh => exact lasting_serves _
  | cancel txId txSlateId => exact lasting_serves _
  | restore o => exact lasting_serves _
  | cancelEntry o => exact fun t _ => lasting_cancelled t
  | mark e =>
    refine ⟨hown, fun r hr => ?_⟩
    rcases h r hr with ⟨hc, hn⟩ | ⟨hty, hc⟩
    · exact lasting_of_open hc hn
    · exact lasting_of_type hty.symm fun hr => hc ▸ hr
  | confirm p e =>
    refine fun hout => ⟨hown, fun r now height hr => ?_⟩
    have hn := h r hr
    refine ⟨fun _ => rfl, fun hc => absurd hc hn, fun _ hp => ?_⟩
    -- only open types are looked up
    change e.txType.InPool at hp
    unfold Updater.outstanding at hout
    rcases hp with hp | hp <;> rw [hp] at hout <;> simp at hout
  | call op =>
    cases op with
    | updateMempoolStatus mask slate =>
      refine fun t ht => ⟨hown t ht, ?_⟩
      rcases h t ht with hc | hty
      · by_cases hcan : t.txType.Cancelled
        · exact lasting_of_type (mempoolType_of_cancelled hcan) id
        · exact lasting_of_open hc hcan
      · exact lasting_of_type hty id
    | initSendTx | issueInvoiceTx | processInvoiceTx | txLockOutputs => exact lasting_serves _
    | finalizeTx | finalizeInvoiceTx => exact fun _ _ _ _ _ => lasting_annotates _
    | receiveTx => exact ⟨lasting_serves _, fun _ _ _ _ _ => lasting_annotates _⟩
    | _ => trivial

/-! ## Runs -/

namespace Op

/-- What is confirmed or cancelled at some moment of an interleaving is so ever after, if no copy is
saved over an entry confirmed or cancelled meanwhile. -/
theorem lasting_of_run {W : World} {k : Keychain} {checksum : Nat} {status : WalletInitStatus}
    {x y : Calls} (hx : Pool.Run (sections W) (Act.Safe W) (Calls.new k checksum status) x)
    (hy : Pool.Run (sections W) (Act.Safe W) x y) {p : Identifier} {i : Nat} {t : TxLogEntry}
    (ht : entryAt x.state.db p i = some t) :
    ∃ t', entryAt y.state.db p i = some t' ∧ Lasting t t' := by
  have hprog := sections_sat (W := W) allowed_of_safe
  obtain ⟨hsx, -⟩ := Calls.logStep_of_run allowed_of_safe hprog (Calls.informed_new k checksum status) hx
  obtain ⟨-, hxy⟩ := Calls.logStep_of_run allowed_of_safe hprog hsx hy
  exact (hxy _ ⟨hsx.state, .refl _ _⟩).follows.changed ht

/-! ## A stale copy -/

/-- The small world with the transaction of a payment in the pool. -/
def pooledWorld : World :=
  { World.small with
    mempool := fun _ => .ok [{ Transaction.empty with kernels := [⟨.plain 8, ⟨100299993⟩, ⟨0⟩⟩] }] }

/-- The slate of a payment from a wallet that mined a reward. -/
def pooledSlate : Slate :=
  World.slateOr World.emptySlate (Owner.initSendTx pooledWorld none World.payFive
    ((buildCoinbase none ⟨0, 1, none⟩).run pooledWorld (created ⟨7⟩ 7 .initNoScanning)))

/-- The payment is made, and found in the pool: the entry is copied. -/
def copyTurns : List (Pool.Turn Op) :=
  [.start (buildCoinbase none ⟨0, 1, none⟩), .next 0, .start (initSendTx none World.payFive), .next 0,
    .start (txLockOutputs none pooledSlate 0 none), .next 0,
    .start (waitForTxInMempool none pooledSlate.id 1), .next 0, .next 0]

/-- A refresh sees the change output on the chain. -/
def confirmTurns : List (Pool.Turn Op) :=
  [.start (updateWalletState none), .next 0, .next 0, .next 0]

/-- A wallet that made a payment and waits for it; the entry is copied. -/
def waitingCalls : Calls :=
  Pool.play (sections pooledWorld) copyTurns (Calls.new ⟨7⟩ 7 .initNoScanning)

/-- The same wallet after a refresh. -/
def refreshedCalls : Calls := Pool.play (sections pooledWorld) confirmTurns waitingCalls

/-- The copy is saved while the entry is open; the reward stays confirmed. -/
theorem lasting_of_run_marked : ∃ t, entryAt waitingCalls.state.db defaultPath 0 = some t ∧
    t.confirmed = true ∧ ∃ t', entryAt (Pool.play (sections pooledWorld) [.next 0] waitingCalls).state.db
      defaultPath 0 = some t' ∧ Lasting t t' := by
  have hreward : ∃ t ∈ entryAt waitingCalls.state.db defaultPath 0, t.confirmed = true := by
    decide +kernel
  obtain ⟨t, ht, hc⟩ := hreward
  have hx : Pool.Run (sections pooledWorld) (Act.Safe pooledWorld) (Calls.new ⟨7⟩ 7 .initNoScanning)
      waitingCalls := Pool.run_play copyTurns _ (by decide +kernel)
  have hy : Pool.Run (sections pooledWorld) (Act.Safe pooledWorld) waitingCalls
      (Pool.play (sections pooledWorld) [.next 0] waitingCalls) :=
    Pool.run_play [.next 0] waitingCalls (by decide +kernel)
  exact ⟨t, ht, hc, lasting_of_run hx hy ht⟩

/-- The copy is saved after the entry was confirmed: it is open again. -/
theorem stale_mark_unconfirms : ∃ x y : Calls,
    Pool.Run (sections pooledWorld) (Act.InOwnAccount pooledWorld) (Calls.new ⟨7⟩ 7 .initNoScanning) x ∧
      Pool.Run (sections pooledWorld) (Act.InOwnAccount pooledWorld) x y ∧
        (∃ t ∈ entryAt x.state.db defaultPath 1, t.confirmed = true) ∧
          ∃ t ∈ entryAt y.state.db defaultPath 1, t.confirmed = false ∧ t.txType = .txSentMempool := by
  refine ⟨refreshedCalls, Pool.play (sections pooledWorld) [.next 1] refreshedCalls, ?_, ?_, ?_, ?_⟩
  · exact Pool.Run.trans (Pool.run_play copyTurns _ (by decide +kernel))
      (Pool.run_play confirmTurns waitingCalls (by decide +kernel))
  · exact Pool.run_play [.next 1] refreshedCalls (by decide +kernel)
  · decide +kernel
  · decide +kernel

end Op

end EpicWallet
