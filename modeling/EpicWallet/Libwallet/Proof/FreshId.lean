import EpicWallet.Libwallet.Proof.Accounts

/-!
# New numbers

`next_tx_log_id` hands out the counter of the account, which is stored apart from the entries. Every
number in use lies below the counter of its account, in every interleaving whose imports bring in only
numbers handed out before and whose markings are saved in the entry's own account. `import_tx` saves the
numbers of the file and leaves the counters as they are.
-/

namespace EpicWallet

open Lib WalletBackend

/-- The section uses only numbers that were handed out: markings are saved where the entry is, and what
is brought in lies below the counter of its account. -/
def Act.UsesHandedOut (W : World) (a : Act) (w : Wallet) : Prop :=
  a.InOwnAccount W w ∧ ∀ t ∈ a.brings, Command.alreadyPresent (txLogOf w.db) t = false →
    t.id < logCounter w.db t.parentKeyId

instance (W : World) (a : Act) (w : Wallet) : Decidable (a.UsesHandedOut W w) :=
  inferInstanceAs (Decidable (_ ∧ _))

/-- Entries may change in any way, but their numbers lie below the counters. -/
def countedPolicy : Policy where
  change _ _ := True
  create _ := True
  counted := True
  refl _ := trivial
  trans _ _ := trivial
  createChange _ _ := trivial

theorem countedPolicy_serves (p : Identifier) : countedPolicy.Serves p :=
  ⟨fun _ => trivial, fun hn => absurd trivial hn, fun _ => trivial, fun _ _ _ => trivial⟩

theorem allowed_counted {W : World} (a : Act) (w : Wallet) (h : a.UsesHandedOut W w) :
    a.Allowed countedPolicy W w := by
  obtain ⟨hown, hnum⟩ := h
  cases a with
  | quiet | reindex | unspend | discard => trivial
  | refresh => exact countedPolicy_serves _
  | cancel txId txSlateId => exact countedPolicy_serves _
  | restore o => exact countedPolicy_serves _
  | cancelEntry o => exact fun _ _ => trivial
  | imports txs => exact fun t ht hn => ⟨fun _ => hnum t ht hn, trivial, fun _ _ _ _ => trivial⟩
  | mark e => exact ⟨hown, fun _ _ => trivial⟩
  | confirm p e => exact fun _ => ⟨hown, fun _ _ _ _ => trivial⟩
  | call op =>
    cases op with
    | updateMempoolStatus mask slate => exact fun t ht => ⟨hown t ht, trivial⟩
    | initSendTx | issueInvoiceTx | processInvoiceTx | txLockOutputs => exact countedPolicy_serves _
    | finalizeTx | finalizeInvoiceTx => exact fun _ _ _ _ _ _ _ => trivial
    | receiveTx => exact ⟨countedPolicy_serves _, fun _ _ _ _ _ _ _ => trivial⟩
    | _ => trivial

/-- Where all numbers in use lie below the counters, the number handed out is new. -/
theorem nextTxLogId_fresh {d₀ : Rows Key Serializable} {p : Identifier} {n : Nat} {w w' : Wallet}
    (h : Logged countedPolicy d₀ w) (hrun : Batch.nextTxLogId p w = (.ok n, w')) :
    Reserved countedPolicy d₀ p n w' ∧ entryAt w.db p n = none := by
  refine ⟨(nextTxLogId_triple p).ok h hrun, ?_⟩
  obtain ⟨rfl, -, -⟩ := Batch.nextTxLogId_ok hrun
  rcases he : entryAt w.db p _ with _ | t
  · rfl
  · exact absurd (h.ok.below trivial he) (Nat.lt_irrefl _)

/-- An entry saved under a number handed out for it replaces nothing. -/
theorem Reserved.save_keeps {d₀ : Rows Key Serializable} {p q : Identifier} {n i : Nat} {w : Wallet}
    (h : Reserved countedPolicy d₀ p n w) {t t₀ : TxLogEntry} (hid : t.id = n)
    (ht₀ : entryAt w.db q i = some t₀) :
    entryAt (Batch.saveTxLogEntry t p w).2.db q i = some t₀ := by
  have hne : ¬(q = p ∧ i = t.id) := by
    rintro ⟨rfl, rfl⟩
    rw [hid, (h.fresh trivial).2] at ht₀
    cases ht₀
  unfold Batch.saveTxLogEntry put
  split
  · exact (entryAt_put _ _ _ _ _ _).trans ((if_neg hne).trans ht₀)
  · exact ht₀

theorem next_of_result {p : Identifier} {n : Nat} {w : Wallet}
    (h : (Batch.nextTxLogId p w).1 = .ok n) : ∃ w', Batch.nextTxLogId p w = (.ok n, w') := by
  rw [← h]
  exact ⟨_, rfl⟩

namespace Request

/-- In every interleaving that uses only numbers handed out, no entry is stored under the next number of
an account, and an entry saved under it leaves every stored entry as it is. -/
theorem fresh_of_run {W : World} {k : Keychain} {checksum : Nat} {status : WalletInitStatus} {x : Calls}
    (hx : Pool.Run (sections W) (Act.UsesHandedOut W) (Calls.new k checksum status) x)
    {p : Identifier} {n : Nat} {w' : Wallet} (hrun : Batch.nextTxLogId p x.state = (.ok n, w')) :
    entryAt x.state.db p n = none ∧
      ∀ t q i t₀, t.id = n → entryAt x.state.db q i = some t₀ →
        entryAt (Batch.saveTxLogEntry t p w').2.db q i = some t₀ := by
  have hprog := sections_sat (W := W) allowed_counted
  obtain ⟨hs, -⟩ := Calls.logStep_of_run allowed_counted hprog (Calls.informed_new k checksum status) hx
  obtain ⟨hres, hnone⟩ := nextTxLogId_fresh ⟨hs.state, .refl _ _⟩ hrun
  refine ⟨hnone, fun t q i t₀ hid ht₀ => hres.save_keeps hid ?_⟩
  obtain ⟨-, -, hset⟩ := Batch.nextTxLogId_ok hrun
  unfold entryAt
  rw [hset.get_ne (.txLogEntry q i) (by simp) rfl]
  exact ht₀

/-! ## A list from another wallet -/

/-- The log of a wallet that mined a reward and made a payment. -/
def exportedTxs : List TxLogEntry := txLogOf twoAccounts.state.db

/-- The list is read into a wallet. -/
def importTurns : List (Pool.Turn Request) := [.start (importTx none exportedTxs), .next 0]

/-- Read into the wallet it came from, the list leaves the next number free. -/
theorem fresh_of_run_import :
    ∃ w', Batch.nextTxLogId defaultPath (Pool.play (sections Op.pooledWorld) importTurns
      twoAccounts).state = (.ok 2, w') ∧
        entryAt (Pool.play (sections Op.pooledWorld) importTurns twoAccounts).state.db
          defaultPath 2 = none := by
  have hx : Pool.Run (sections Op.pooledWorld) (Act.UsesHandedOut Op.pooledWorld)
      (Calls.new ⟨7⟩ 7 .initNoScanning) twoAccounts := Pool.run_play twoAccountTurns _ (by decide +kernel)
  have hy := hx.trans (Pool.run_play importTurns twoAccounts (by decide +kernel))
  have hnext : (Batch.nextTxLogId defaultPath (Pool.play (sections Op.pooledWorld) importTurns
      twoAccounts).state).1 = .ok 2 := by decide +kernel
  obtain ⟨w', hrun⟩ := next_of_result hnext
  exact ⟨w', hrun, (fresh_of_run hy hrun).1⟩

/-- Read into a new wallet, the list takes the numbers the wallet hands out next. -/
theorem import_takes_next : ∃ x, Pool.Run (sections Op.pooledWorld) (Act.InOwnAccount Op.pooledWorld)
    (Calls.new ⟨7⟩ 7 .initNoScanning) x ∧ (Batch.nextTxLogId defaultPath x.state).1 = .ok 0 ∧
      (entryAt x.state.db defaultPath 0).isSome = true := by
  refine ⟨Pool.play (sections Op.pooledWorld) importTurns (Calls.new ⟨7⟩ 7 .initNoScanning), ?_, ?_, ?_⟩
  · exact Pool.run_play importTurns _ (by decide +kernel)
  · decide +kernel
  · decide +kernel

end Request

end EpicWallet
