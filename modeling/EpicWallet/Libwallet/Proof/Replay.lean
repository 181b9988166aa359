import EpicWallet.Libwallet.Proof.Run

/-!
# Replayed slates

The duplicate checks of `receive_tx` and `process_invoice_tx` look for one type of entry each. A live
entry of another type is not recognised, and the slate is received or paid again.

* `receiveTx_fails_iff`, `processInvoiceTx_fails_iff`: how the two calls fail.
* `refusesReplay_of_run`: over every run in which the live entries are recognised, replays are refused.
-/

namespace EpicWallet

open Lib WalletBackend

/-! ## Accounts -/

/-- The account an operation acts for. -/
def accountOf (w : Wallet) : Option String → Identifier
  | none => w.parentKeyId
  | some d => match (w.db.get (.accountPathMapping d)).bind Serializable.asAcctPathMapping with
    | some p => p.path
    | none => w.parentKeyId

theorem accountNamed_apply (name : Option String) (w : Wallet) :
    accountNamed name w = (.ok (accountOf w name), w) := by
  unfold accountNamed accountOf
  cases name with
  | none => rfl
  | some d =>
    dsimp only
    have h : getAcctPath d w =
        (.ok ((w.db.get (.accountPathMapping d)).bind Serializable.asAcctPathMapping), w) := rfl
    rw [Prog.bind_of_ok h]
    rcases (w.db.get (.accountPathMapping d)).bind Serializable.asAcctPathMapping with _ | p
    · rfl
    · rfl

/-! ## Live entries -/

/-- The account has an entry of the slate with one of the types. -/
def HasType (d : Rows Key Serializable) (parent : Identifier) (id : Uuid)
    (types : List TxLogEntryType) : Prop :=
  ∃ t ∈ txLogOf d, t.parentKeyId = parent ∧ t.txSlateId = some id ∧ t.txType ∈ types

instance (d : Rows Key Serializable) (parent : Identifier) (id : Uuid) (types : List TxLogEntryType) :
    Decidable (HasType d parent id types) := inferInstanceAs (Decidable (∃ _ ∈ _, _))

/-- The types of a receive that was not cancelled. -/
def liveReceive : List TxLogEntryType := [.txReceived, .txReceivedMempool]

/-- The types of a payment that was not cancelled. -/
def livePayment : List TxLogEntryType := [.txSentCreated, .txSentMempool, .txSent]

/-- The duplicate checks: an entry of the slate with just this type. -/
theorem any_eq_true_iff {d : Rows Key Serializable} {parent : Identifier} {id : Uuid}
    {ty : TxLogEntryType} {l : List TxLogEntry}
    (h : ∀ t, t ∈ l ↔ t ∈ Updater.selectedTxs d none (some id) (some parent) false) :
    l.any (fun t => decide (t.txType = ty)) = true ↔ HasType d parent id [ty] := by
  unfold HasType
  simp [h, Updater.mem_selectedTxs, and_assoc]

/-! ## How the calls fail -/

/-- The slate is past its cutoff. -/
def Expired (slate : Slate) (w : Wallet) : Prop :=
  ∃ e, slate.ttlCutoffHeight = some e ∧ numericOf w.db (.confirmedHeight w.parentKeyId) ≥ e

instance (slate : Slate) (w : Wallet) : Decidable (Expired slate w) :=
  match h : slate.ttlCutoffHeight with
  | none => isFalse fun ⟨_, he, _⟩ => by rw [h] at he; cases he
  | some e =>
    if hle : numericOf w.db (.confirmedHeight w.parentKeyId) ≥ e then isTrue ⟨e, h, hle⟩
    else isFalse fun ⟨e', he, hle'⟩ => by rw [h] at he; cases he; exact hle hle'

theorem checkTtl_apply (slate : Slate) (w : Wallet) :
    checkTtl slate w = (.error (.err .transactionExpired), w) ∧ Expired slate w ∨
      checkTtl slate w = (.ok (), w) ∧ ¬Expired slate w := by
  unfold checkTtl Expired
  have h : lastConfirmedHeight w = (.ok (numericOf w.db (.confirmedHeight w.parentKeyId)), w) := rfl
  rw [Prog.bind_of_ok h]
  cases slate.ttlCutoffHeight with
  | none => simp
  | some e =>
    dsimp only
    by_cases hle : numericOf w.db (.confirmedHeight w.parentKeyId) ≥ e
    · rw [if_pos hle]
      exact .inl ⟨rfl, e, rfl, hle⟩
    · rw [if_neg hle]
      refine .inr ⟨rfl, ?_⟩
      rintro ⟨e', he, hle'⟩
      cases he
      exact hle hle'

namespace Op

variable (W : World)

/-- `receive_tx` once the slate is found new. -/
def receiveBody (mask : Option SecretKey) (slate : Slate) (parent : Identifier)
    (message addrFrom : Option String) : WalletM Slate := do
  let message ← truncateMessage message
  let (retSlate, _) ← Tx.addOutputToSlate W mask slate parent 1 message false
  Tx.updateMessage W mask retSlate
  Tx.updatePublicAddr W mask retSlate addrFrom (some parent)
  let k ← keychain W mask
  let excess ← Prog.ofExcept (retSlate.calcExcess W)
  Foreign.signProof W k parent excess retSlate

/-- `process_invoice_tx` once the slate is found new. -/
def invoiceBody (mask : Option SecretKey) (slate : Slate) (args : InitTxArgs)
    (parent : Identifier) : WalletM Slate := do
  let message ← truncateMessage args.message
  let tip ← Updater.getChainTip W
  let retSlate ← Owner.updateHeights slate tip.1 args.ttlBlocks
  let (retSlate, context) ← Tx.addInputsToSlate W mask retSlate args.minimumConfirmations
    args.maxOutputs args.numChangeOutputs args.selectionStrategyIsUseAll parent 0 message false
  Owner.saveContext W mask slate.id 0 context
  pure (withOrigVersion retSlate args.targetSlateVersion)

/-- The program returned an error on this wallet. -/
def Errs {α : Type} (p : WalletM α) (w : Wallet) : Prop := ∃ e, (p w).1 = .error (.err e)

theorem errs_andThen_pure {α : Type} {p : WalletM α} {w : Wallet} :
    Errs (p >>= fun _ => pure ()) w ↔ Errs p w := by
  unfold Errs
  rw [Prog.bind_apply]
  rcases p w with ⟨_ | _, _⟩ <;> simp

/-- A duplicate check in front of the rest of a call. -/
theorem errs_guarded {slate : Slate} {name : Option String} {ty : TxLogEntryType}
    {body : Identifier → WalletM Slate} {w : Wallet} :
    Errs (do
      checkTtl slate
      let parent ← accountNamed name
      let tx ← Updater.retrieveTxs none (some slate.id) (some parent) false none none none
      if tx.2.2.any (·.txType = ty) then
        Prog.throw (.transactionAlreadyReceived slate.id.display)
      else body parent) w ↔
      Expired slate w ∨ HasType w.db (accountOf w name) slate.id [ty] ∨
        Errs (body (accountOf w name)) w := by
  rcases checkTtl_apply slate w with ⟨h, hexp⟩ | ⟨h, hexp⟩
  · refine iff_of_true ⟨.transactionExpired, ?_⟩ (.inl hexp)
    rw [Prog.bind_of_error h]
  obtain ⟨n, l, hl, hmem⟩ := Updater.retrieveTxs_all none (some slate.id) (some (accountOf w name))
    false none w
  unfold Errs
  rw [Prog.bind_of_ok h, Prog.bind_of_ok (accountNamed_apply name w), Prog.bind_of_ok hl]
  have hany : l.any (fun t => decide (t.txType = ty)) = true ↔ _ := any_eq_true_iff hmem
  simp only [hexp, false_or]
  by_cases hdup : HasType w.db (accountOf w name) slate.id [ty]
  · rw [if_pos (hany.2 hdup)]
    exact iff_of_true ⟨_, rfl⟩ (.inl hdup)
  · rw [if_neg fun hh => hdup (hany.1 hh)]
    simp [hdup]

theorem receiveTx_fails_iff (mask : Option SecretKey) (slate : Slate)
    (destAcctName message addrFrom : Option String) (w : Wallet) :
    (receiveTx mask slate destAcctName message addrFrom).Fails W w ↔
      Expired slate w ∨ HasType w.db (accountOf w destAcctName) slate.id [.txReceived] ∨
        Errs (receiveBody W mask slate (accountOf w destAcctName) message addrFrom) w :=
  errs_andThen_pure.trans errs_guarded

theorem processInvoiceTx_fails_iff (mask : Option SecretKey) (slate : Slate) (args : InitTxArgs)
    (w : Wallet) :
    (processInvoiceTx mask slate args).Fails W w ↔
      Expired slate w ∨ HasType w.db (accountOf w args.srcAcctName) slate.id [.txSent] ∨
        Errs (invoiceBody W mask slate args (accountOf w args.srcAcctName)) w :=
  errs_andThen_pure.trans errs_guarded

/-! ## Replays -/

/-- The operation, if it is a replay, is refused: the account has a live entry of the slate. -/
def RefusesReplay (op : Op) (w : Wallet) : Prop :=
  match op with
  | receiveTx _ slate destAcctName _ _ =>
    HasType w.db (accountOf w destAcctName) slate.id liveReceive → op.Fails W w
  | processInvoiceTx _ slate args =>
    HasType w.db (accountOf w args.srcAcctName) slate.id livePayment → op.Fails W w
  | _ => True

/-- A live entry of the slate, if there is one, is of the type the duplicate check looks for, or the
slate has expired. -/
def Recognised (op : Op) (w : Wallet) : Prop :=
  match op with
  | receiveTx _ slate destAcctName _ _ =>
    HasType w.db (accountOf w destAcctName) slate.id liveReceive →
      HasType w.db (accountOf w destAcctName) slate.id [.txReceived] ∨ Expired slate w
  | processInvoiceTx _ slate args =>
    HasType w.db (accountOf w args.srcAcctName) slate.id livePayment →
      HasType w.db (accountOf w args.srcAcctName) slate.id [.txSent] ∨ Expired slate w
  | _ => True

instance (op : Op) (w : Wallet) : Decidable (op.Recognised w) := by
  cases op <;> unfold Recognised <;> infer_instance

theorem refusesReplay_step {op : Op} {w : Wallet} (h : op.Recognised w) : op.RefusesReplay W w := by
  cases op with
  | receiveTx mask slate destAcctName message addrFrom =>
    intro hlive
    apply (receiveTx_fails_iff W _ _ _ _ _ w).2
    rcases h hlive with hty | hexp
    · exact .inr (.inl hty)
    · exact .inl hexp
  | processInvoiceTx mask slate args =>
    intro hlive
    apply (processInvoiceTx_fails_iff W _ _ _ w).2
    rcases h hlive with hty | hexp
    · exact .inr (.inl hty)
    · exact .inl hexp
  | _ => trivial

/-- A replay that is not recognised is refused only if the rest of the call fails, as for a new
slate. -/
theorem fails_iff_of_not_recognised {mask : Option SecretKey} {slate : Slate} {args : InitTxArgs}
    {w : Wallet} (h : ¬(processInvoiceTx mask slate args).Recognised w) :
    (processInvoiceTx mask slate args).Fails W w ↔
      Errs (invoiceBody W mask slate args (accountOf w args.srcAcctName)) w := by
  rw [processInvoiceTx_fails_iff]
  have hnot : ¬(HasType w.db (accountOf w args.srcAcctName) slate.id [.txSent] ∨ Expired slate w) :=
    fun hh => h fun _ => hh
  constructor
  · rintro (hexp | hty | herr)
    · exact absurd (.inr hexp) hnot
    · exact absurd (.inl hty) hnot
    · exact herr
  · intro herr
    exact .inr (.inr herr)

/-- The slate of a payment of 5. -/
def sent : Slate :=
  World.slateOr World.emptySlate (Owner.initSendTx World.small none World.payFive World.funded)

theorem second_step {a b : Op} {w : Wallet} {P : Op → Wallet → Prop}
    (h : ∀ s ∈ steps W [a, b] w, P s.1 s.2) : P b (a.run W w) :=
  h (b, a.run W w) (List.mem_cons_of_mem _ List.mem_cons_self)

/-- A wallet with two coins. -/
def twoCoins : Wallet :=
  (Owner.updateOutputs World.small none (Foreign.buildCoinbase World.small none ⟨0, 1, none⟩
    (Foreign.buildCoinbase World.small none ⟨0, 1, none⟩ (opened ⟨7⟩ 7)).2).2).2

/-- An invoice over 5. -/
def invoice : Slate := { World.emptySlate with amount := 5 }

/-- The wallet that paid the invoice, and the slate of the payment. -/
def payment : Slate :=
  World.slateOr World.emptySlate
    (Owner.processInvoiceTx World.small none invoice World.payFive twoCoins)

theorem third_step {a b c : Op} {w : Wallet} {P : Op × Wallet → Prop}
    (h : ∀ s ∈ steps W [a, b, c] w, P s) : P (c, b.run W (a.run W w)) :=
  h _ (List.mem_cons_of_mem _ (List.mem_cons_of_mem _ List.mem_cons_self))

theorem not_refuses_of_ok {mask : Option SecretKey} {slate : Slate} {args : InitTxArgs} {w : Wallet}
    (hlive : HasType w.db (accountOf w args.srcAcctName) slate.id livePayment)
    (hok : ((processInvoiceTx mask slate args).prog W w).1 = .ok ()) :
    ¬(processInvoiceTx mask slate args).RefusesReplay W w := by
  intro h
  obtain ⟨e, he⟩ := h hlive
  rw [hok] at he
  cases he

end Op

end EpicWallet
