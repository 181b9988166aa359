import EpicWallet.Libwallet.Proof.LostUpdate

/-!
# The log of an account

Which account a section acts for, and that it leaves the entries of all other accounts alone. The
exceptions of the code are of two kinds. Receiving and finalizing a slate write what the slate says into
every entry of it, in whatever account (`Act.shares`). And an entry marked as in the pool, or confirmed
by its kernel, is saved in the account active by then, which may be another than the entry's
(`Act.InOwnAccount` says it is not).
-/

namespace EpicWallet

open Lib WalletBackend

/-! ## Whom a section acts for -/

/-- The account an operation acts for. -/
def Op.account : Op → Wallet → Identifier
  | initSendTx _ args, w => accountOf w args.srcAcctName
  | issueInvoiceTx _ args, w => accountOf w args.destAcctName
  | processInvoiceTx _ _ args, w => accountOf w args.srcAcctName
  | txLockOutputs _ slate participantId _, w => contextAccount w slate.id participantId
  | finalizeTx _ slate, w => contextAccount w slate.id 0
  | finalizeInvoiceTx _ slate, w => contextAccount w slate.id 1
  | receiveTx _ _ destAcctName _ _, w => accountOf w destAcctName
  | _, w => w.parentKeyId

/-- The slate whose entries an operation annotates. -/
def Op.shares : Op → Option Uuid
  | finalizeTx _ slate => some slate.id
  | finalizeInvoiceTx _ slate => some slate.id
  | receiveTx _ slate _ _ _ => some slate.id
  | _ => none

/-- The account a section acts for, if it acts for one. -/
def Act.account (W : World) : Act → Wallet → Option Identifier
  | quiet, _ | reindex _ _, _ | unspend _, _ | discard _, _ => none
  | call op, w => some (op.account w)
  | refresh, w => some (locked W w).parentKeyId
  | mark _, w => some (locked W w).parentKeyId
  | confirm p _, _ => some p
  | cancel _ _, w => some (locked W w).parentKeyId
  | restore o, _ => some o.keyId.parentPath
  | cancelEntry o, _ => some o.keyId.parentPath
  | imports _, _ => none

def Act.shares : Act → Option Uuid
  | call op => op.shares
  | _ => none

/-- The entries a section brings from outside. -/
def Act.brings : Act → List TxLogEntry
  | imports txs => txs
  | _ => []

/-! ## Isolation -/

/-- An entry is unchanged, or of the account, or annotated as one of the slate. -/
def MayBecome (p : Option Identifier) (shared : Option Uuid) (t t' : TxLogEntry) : Prop :=
  t' = t ∨ (p = some t.parentKeyId ∧ p = some t'.parentKeyId) ∨
    (shared.isSome = true ∧ t.txSlateId = shared ∧ t'.core = t.core)

theorem MayBecome.trans {p : Option Identifier} {shared : Option Uuid} {a b c : TxLogEntry}
    (h : MayBecome p shared a b) (h' : MayBecome p shared b c) : MayBecome p shared a c := by
  rcases h with rfl | ⟨ha, hb⟩ | ⟨hs, ha, hb⟩
  · exact h'
  · rcases h' with rfl | ⟨-, hc⟩ | ⟨-, -, hc⟩
    · exact .inr (.inl ⟨ha, hb⟩)
    · exact .inr (.inl ⟨ha, hc⟩)
    · exact .inr (.inl ⟨ha, by rw [(Tx.core_eq hc).1, hb]⟩)
  · rcases h' with rfl | ⟨hb', hc⟩ | ⟨-, -, hc⟩
    · exact .inr (.inr ⟨hs, ha, hb⟩)
    · exact .inr (.inl ⟨by rw [hb', (Tx.core_eq hb).1], hc⟩)
    · exact .inr (.inr ⟨hs, ha, hc.trans hb⟩)

/-- Only the account and the slate are touched. -/
def isolation (p : Option Identifier) (shared : Option Uuid) : Policy where
  change := MayBecome p shared
  create t := p = some t.parentKeyId
  counted := False
  refl _ := .inl rfl
  trans := MayBecome.trans
  createChange h hc := by
    rcases hc with rfl | ⟨-, hb⟩ | ⟨-, -, hb⟩
    · exact h
    · exact hb
    · rw [(Tx.core_eq hb).1, h]

theorem isolation_serves (p : Identifier) (shared : Option Uuid) :
    (isolation (some p) shared).Serves p where
  create h := congrArg some h.symm
  replace _ _ _ ha hb := .inr (.inl ⟨congrArg some ha.symm, congrArg some hb.symm⟩)
  confirm h := .inr (.inl ⟨congrArg some h.symm, congrArg some h.symm⟩)
  cancel h _ _ := .inr (.inl ⟨congrArg some h.symm, congrArg some h.symm⟩)

/-- An entry of the list that is not present yet. -/
def IsNew (d : Rows Key Serializable) (txs : List TxLogEntry) (t : TxLogEntry) : Prop :=
  t ∈ txs ∧ Command.alreadyPresent (txLogOf d) t = false

/-- New entries may be brought in, if nothing stored is replaced. -/
def importing (d : Rows Key Serializable) (txs : List TxLogEntry) : Policy where
  change t t' := t' = t ∨ IsNew d txs t ∧ IsNew d txs t'
  create := IsNew d txs
  counted := False
  refl _ := .inl rfl
  trans h h' := by
    rcases h with rfl | ⟨ha, hb⟩
    · exact h'
    · rcases h' with rfl | ⟨-, hc⟩
      · exact .inr ⟨ha, hb⟩
      · exact .inr ⟨ha, hc⟩
  createChange h hc := by
    rcases hc with rfl | ⟨-, hb⟩
    · exact h
    · exact hb

/-- Anything goes; the log stays well formed. -/
def openPolicy : Policy where
  change _ _ := True
  create _ := True
  counted := False
  refl _ := trivial
  trans _ _ := trivial
  createChange _ _ := trivial

theorem openPolicy_serves (p : Identifier) : openPolicy.Serves p :=
  ⟨fun _ => trivial, fun _ _ _ _ _ => trivial, fun _ => trivial, fun _ _ _ => trivial⟩

section
variable {W : World} (a : Act) (w : Wallet)

theorem allowed_open (h : a.InOwnAccount W w) : a.Allowed openPolicy W w := by
  cases a with
  | quiet | reindex | unspend | discard => trivial
  | refresh => exact openPolicy_serves _
  | cancel txId txSlateId => exact openPolicy_serves _
  | restore o => exact openPolicy_serves _
  | cancelEntry o => exact fun _ _ => trivial
  | imports txs => exact fun _ _ _ => ⟨False.elim, trivial, fun _ _ _ _ => trivial⟩
  | mark e => exact ⟨h, fun _ _ => trivial⟩
  | confirm p e => exact fun _ => ⟨h, fun _ _ _ _ => trivial⟩
  | call op =>
    cases op with
    | updateMempoolStatus mask slate => exact fun t ht => ⟨h t ht, trivial⟩
    | initSendTx | issueInvoiceTx | processInvoiceTx | txLockOutputs => exact openPolicy_serves _
    | finalizeTx | finalizeInvoiceTx => exact fun _ _ _ _ _ _ _ => trivial
    | receiveTx => exact ⟨openPolicy_serves _, fun _ _ _ _ _ _ _ => trivial⟩
    | _ => trivial

theorem allowed_isolation (h : a.InOwnAccount W w) (hi : a.brings = [])
    (hkeyed : ∀ {p i t}, entryAt w.db p i = some t → t.parentKeyId = p ∧ t.id = i) :
    a.Allowed (isolation (a.account W w) a.shares) W w := by
  cases a with
  | quiet | reindex | unspend | discard => trivial
  | refresh => exact isolation_serves _ _
  | cancel txId txSlateId => exact isolation_serves _ _
  | restore o => exact isolation_serves _ _
  | cancelEntry o =>
    exact fun t ht => .inr (.inl ⟨congrArg some ht.symm, congrArg some ht.symm⟩)
  | imports txs =>
    intro t ht _
    cases (show txs = [] from hi)
    cases ht
  | mark e =>
    refine ⟨h, fun r hr => .inr (.inl ⟨?_, ?_⟩)⟩
    · exact congrArg some ((hkeyed hr).1.trans h).symm
    · exact congrArg some (show e.parentKeyId = _ from h).symm
  | confirm p e =>
    refine fun _ => ⟨h, fun r now height hr => .inr (.inl ⟨?_, ?_⟩)⟩
    · exact congrArg some (hkeyed hr).1.symm
    · exact congrArg some (show e.parentKeyId = p from h).symm
  | call op =>
    cases op with
    | updateMempoolStatus mask slate =>
      refine fun t ht => ⟨h t ht, .inr (.inl ⟨?_, ?_⟩)⟩
      · exact congrArg some (h t ht).symm
      · exact congrArg some (h t ht).symm
    | initSendTx | issueInvoiceTx | processInvoiceTx | txLockOutputs => exact isolation_serves _ _
    | finalizeTx | finalizeInvoiceTx => exact fun _ _ _ _ ht _ hc => .inr (.inr ⟨rfl, ht, hc⟩)
    | receiveTx =>
      exact ⟨isolation_serves _ _, fun _ _ _ _ ht _ hc => .inr (.inr ⟨rfl, ht, hc⟩)⟩
    | _ => trivial

theorem allowed_importing (txs : List TxLogEntry) :
    (Act.imports txs).Allowed (importing w.db txs) W w :=
  fun _ ht hn => ⟨False.elim, ⟨ht, hn⟩, fun _ ha _ _ => .inr ⟨ha, ht, hn⟩⟩

end

/-! ## Runs -/

/-- Every entry is stored under its own account and number. -/
def LogKeyed (d : Rows Key Serializable) : Prop :=
  ∀ p i t, entryAt d p i = some t → t.parentKeyId = p ∧ t.id = i

/-- The section touches only entries of the account it acts for: those of other accounts are as they
were, but for the annotations of its slate, and new ones are of the account or brought from outside. -/
structure Act.Isolated (W : World) (a : Act) (w w' : Wallet) : Prop where
  others : ∀ p i t, entryAt w.db p i = some t → a.account W w ≠ some p →
    ∃ t', entryAt w'.db p i = some t' ∧
      (t' = t ∨ a.shares.isSome = true ∧ t.txSlateId = a.shares ∧ t'.core = t.core)
  created : ∀ p i t, entryAt w'.db p i = some t → entryAt w.db p i = none →
    a.account W w = some p ∨ t ∈ a.brings

theorem isolated_of_does {W : World} {a : Act} {w w' : Wallet} (hd : a.does W w w')
    (hok : LogOk openPolicy w.db) (hown : a.InOwnAccount W w) : a.Isolated W w w' := by
  have hlog : ∀ {κ : Policy}, ¬κ.counted → LogOk κ w.db := fun hc => ⟨hok.keyed, fun h => absurd h hc⟩
  by_cases hi : a.brings = []
  · have hl := hd _ (allowed_isolation a w hown hi hok.keyed) (hlog id)
    refine ⟨fun p i t ht hp => ?_, fun p i t ht hn => .inl ?_⟩
    · obtain ⟨t', ht', hc⟩ := hl.follows.changed ht
      refine ⟨t', ht', ?_⟩
      rcases hc with rfl | ⟨ha, -⟩ | hs
      · exact .inl rfl
      · rw [(hok.keyed ht).1] at ha
        exact absurd ha hp
      · exact .inr hs
    · rw [← (hl.ok.keyed ht).1]
      exact hl.follows.created ht hn
  · obtain ⟨txs, rfl⟩ : ∃ txs, a = .imports txs := by
      cases a with
      | imports txs => exact ⟨txs, rfl⟩
      | _ => exact absurd rfl hi
    have hl := hd _ (allowed_importing w txs) (hlog id)
    refine ⟨fun p i t ht _ => ?_, fun p i t ht hn => .inr (hl.follows.created ht hn).1⟩
    obtain ⟨t', ht', hc⟩ := hl.follows.changed ht
    refine ⟨t', ht', .inl ?_⟩
    rcases hc with rfl | ⟨⟨-, hn⟩, -⟩
    · rfl
    · -- a stored entry is present
      obtain ⟨hp, hid⟩ := hok.keyed ht
      rw [Command.alreadyPresent_of_stored hok (hp.symm ▸ hid.symm ▸ ht)] at hn
      cases hn

/-- What a user may ask of a wallet. -/
inductive Request where
  | call (op : Op)
  | importTx (mask : Option SecretKey) (importedTxs : List TxLogEntry)

namespace Request

variable (W : World)

def sections : Request → Call Unit
  | call op => op.sections W
  | importTx mask txs => .one (.imports txs) (Command.importTx W mask txs)

variable {W}

theorem sections_sat {ok : Act → Wallet → Prop} {κ : Policy} (hok : ∀ a w, ok a w → a.Allowed κ W w)
    (r : Request) : (r.sections W).Sat (Act.does W) (LogStep κ) ok (fun w => LogOk κ w.db)
      fun _ _ => True := by
  cases r with
  | call op => exact Op.sections_sat hok op
  | importTx mask txs =>
    exact (sat_own hok Command.importTx_logged).mono (fun _ h => copies_nil h) fun _ _ _ => trivial

/-- A call that holds the lock begins and runs. -/
theorem step_call {op : Op} (hlock : op.holdsLock = true) (x : Calls) :
    Pool.Step (sections W) ⟨x.state, (call op).sections W :: x.progs⟩ (some (.call op))
      ⟨op.run W x.state, Pool.left .done (op.prog W x.state).1 ++ x.progs⟩ := by
  have hsec : (call op).sections W = .sec (.call op) (op.prog W) .done := by
    cases op with
    | cancelTx | waitForTxInMempool | updateWalletState | scan => cases hlock
    | _ => rfl
  rw [hsec]
  exact @Pool.Step.act _ _ _ _ (sections W) x.state [] x.progs _ (.call op) (op.prog W) .done

/-! ## Two accounts -/

open Op in
/-- A payment is made from the default account, and a second account created. -/
def twoAccountTurns : List (Pool.Turn Request) :=
  [.start (call (buildCoinbase none ⟨0, 1, none⟩)), .next 0,
    .start (call (initSendTx none World.payFive)), .next 0,
    .start (call (txLockOutputs none pooledSlate 0 none)), .next 0,
    .start (call (createAccountPath none "b")), .next 0]

/-- The wallet after that. -/
def twoAccounts : Calls :=
  Pool.play (sections Op.pooledWorld) twoAccountTurns (Calls.new ⟨7⟩ 7 .initNoScanning)

/-- The second account is switched to, and the payment marked as in the pool. -/
def markElsewhere : List (Pool.Turn Request) :=
  [.start (call (.setActiveAccount "b")), .next 0,
    .start (call (.updateMempoolStatus none Op.pooledSlate)), .next 0]

/-- The payment received into the second account. -/
def receiveElsewhere : Op := .receiveTx none Op.pooledSlate (some "b") none none

end Request

end EpicWallet
