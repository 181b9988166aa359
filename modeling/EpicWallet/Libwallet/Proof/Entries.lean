import EpicWallet.Libwallet.Proof.Interleave

/-!
# Properties of single entries

A property of entries holds of a whole log if it holds of every entry that is written. The calls write
new entries, and entries they read: annotated, marked as in the pool, confirmed or cancelled, and not
always under the account and the number they were read from. `LogHas V c` is the invariant, with `V` of
an entry and of where it is stored; `Closed` says what the writes that no state restrains ask of `V`.

* `saveTxLogEntry_has`, `nextTxLogId_has`: the single writes.
* `lockTxContext_gains`, `buildRecipientOutput_has`: what locking and receiving add.
* `applyApiOutput_has`: one round of a refresh.
-/

namespace EpicWallet

open Lib WalletBackend

variable {V : Identifier → Nat → TxLogEntry → Prop} {c : Identifier → Nat}

/-- Every entry has `V` where it is stored, and new numbers of an account start at `c`. -/
structure LogHas (V : Identifier → Nat → TxLogEntry → Prop) (c : Identifier → Nat) (w : Wallet) :
    Prop where
  entry : ∀ {p i t}, entryAt w.db p i = some t → V p i t
  counter : ∀ p, c p ≤ logCounter w.db p

/-- The entry has `V` somewhere. -/
def Held (V : Identifier → Nat → TxLogEntry → Prop) (t : TxLogEntry) : Prop := ∃ p i, V p i t

theorem LogHas.mono {V' : Identifier → Nat → TxLogEntry → Prop} {w : Wallet} (h : LogHas V c w)
    (hV : ∀ p i t, V p i t → V' p i t) : LogHas V' c w := ⟨fun ht => hV _ _ _ (h.entry ht), h.counter⟩

theorem LogHas.held {w : Wallet} (h : LogHas V c w) {t : TxLogEntry} (ht : t ∈ txLogOf w.db) :
    Held V t := by
  obtain ⟨p, i, hg⟩ := mem_txLogOf_iff.1 ht
  exact ⟨p, i, h.entry hg⟩

theorem SameLog.logHas {w w' : Wallet} (hs : SameLog w w') (h : LogHas V c w) : LogHas V c w' := by
  refine ⟨fun {p i t} ht => ?_, fun p => ?_⟩
  · rw [hs.entry] at ht
    exact h.entry ht
  · rw [hs.counter]
    exact h.counter p

theorem logHas_frees : Frees (Prog.Inv (LogHas V c)) notLogRows where
  aside _ _ h := (sameLog_frees.aside _ _ h).logHas
  files _ _ := (sameLog_frees.files _ _).logHas
  puts k hk v hv w := (sameLog_frees.puts k hk v hv w).logHas
  erases k hk w := (sameLog_frees.erases k hk w).logHas

theorem has_of_sameLog {α : Type} {p : WalletM α} (h : Prog.Keeps SameLog p) :
    Prog.Keeps (Prog.Inv (LogHas V c)) p := h.mono fun _ _ hs => hs.logHas

/-! ## Single writes -/

theorem saveTxLogEntry_has {t : TxLogEntry} {p : Identifier} (ht : V p t.id t) :
    Prog.Keeps (Prog.Inv (LogHas V c)) (Batch.saveTxLogEntry t p) := by
  intro w h
  unfold Batch.saveTxLogEntry put
  split
  · refine ⟨fun {q j r} hr => ?_, fun q => ?_⟩
    · dsimp only at hr
      rw [entryAt_put] at hr
      split at hr
      · obtain ⟨rfl, rfl⟩ := ‹q = p ∧ j = t.id›
        cases hr
        exact ht
      · exact h.entry hr
    · dsimp only
      rw [logCounter_put_entry]
      exact h.counter q
  · exact h

theorem nextTxLogId_has (p : Identifier) :
    Prog.Triple (LogHas V c) (Batch.nextTxLogId p) (fun n w => LogHas V c w ∧ c p ≤ n) (LogHas V c) := by
  refine (nextTxLogId_handsOut p _).mono (fun _ h => h) (fun n w' ⟨w, h, hh⟩ => ?_) fun _ h => h
  refine ⟨⟨fun {q i t} ht => ?_, fun q => (h.counter q).trans (hh.counter q)⟩, ?_⟩
  · rw [hh.entry] at ht
    exact h.entry ht
  · rw [hh.number]
    exact h.counter p

theorem txLogIter_has : Prog.Triple (LogHas V c) txLogIter
    (fun l w => LogHas V c w ∧ ∀ t ∈ l, Held V t) (LogHas V c) := by
  refine txLogIter_reads.triple (fun w l h hrun => ?_) fun _ h => h
  cases hrun
  exact ⟨h, fun t ht => h.held ht⟩

/-- The entries `retrieve_txs` returns, and what it selected them for. -/
theorem retrieveTxs_has (txId : Option Nat) (txSlateId : Option Uuid) (parent : Option Identifier)
    (outstandingOnly : Bool) :
    Prog.Triple (LogHas V c) (Updater.retrieveTxs txId txSlateId parent outstandingOnly none none none)
      (fun r w => LogHas V c w ∧ ∀ t ∈ r.2.2, Held V t ∧ (∀ k, parent = some k → t.parentKeyId = k) ∧
        (∀ i, txId = some i → t.id = i) ∧ (outstandingOnly = true → Updater.outstanding t = true))
      (LogHas V c) := by
  refine (Updater.retrieveTxs_reads _ _ _ _ _ _ _).triple (fun w r h hrun => ?_) fun _ h => h
  obtain ⟨n, l, hl, hmem⟩ := Updater.retrieveTxs_all txId txSlateId parent outstandingOnly none w
  rw [hl] at hrun
  cases hrun
  refine ⟨h, fun t ht => ?_⟩
  obtain ⟨hlog, hp, hi, -, hout⟩ := Updater.mem_selectedTxs.1 ((hmem t).1 ht)
  exact ⟨h.held hlog, hp, hi, hout⟩

theorem has_triple {α : Type} {p : WalletM α} (h : Prog.Keeps (Prog.Inv (LogHas V c)) p) :
    Prog.Triple (LogHas V c) p (fun _ => LogHas V c) (LogHas V c) := Prog.triple_inv.2 h

theorem reads_has {α : Type} {p : WalletM α} (h : Prog.Reads p) :
    Prog.Triple (LogHas V c) p (fun _ => LogHas V c) (LogHas V c) := has_triple h.keeps

/-! ## What the writes ask -/

/-- A new entry for a slate, not confirmed. -/
structure NewEntry (p : Identifier) (n : Nat) (ty : TxLogEntryType) (slate : Uuid) (t : TxLogEntry) :
    Prop where
  parentKeyId : t.parentKeyId = p
  id : t.id = n
  txType : t.txType = ty
  confirmed : t.confirmed = false
  txSlateId : t.txSlateId = some slate

/-- A new entry for an output found on the chain. -/
structure FoundEntry (p : Identifier) (n : Nat) (t : TxLogEntry) : Prop where
  parentKeyId : t.parentKeyId = p
  id : t.id = n
  txType : t.txType = .confirmedCoinbase ∨ t.txType = .txReceived
  confirmed : t.confirmed = true
  txSlateId : t.txSlateId = none

/-- The property passes to what is written for an entry that has it, and new entries for outputs found
on the chain have it. -/
structure Closed (V : Identifier → Nat → TxLogEntry → Prop) (c : Identifier → Nat) : Prop where
  annotate : ∀ {p i t t'}, V p i t → t'.core = t.core → V t.parentKeyId t.id t'
  pool : ∀ {p i t}, V p i t → ∀ q, V q t.id t.inPool
  kernel : ∀ {p i t}, V p i t → Updater.outstanding t = true →
    ∀ q now height, V q t.id (t.confirmedAt now height)
  cancel : ∀ {p i t}, V p i t → t.confirmed = false → t.txType = .txSentCreated ∨ t.txType = .txReceived →
    V t.parentKeyId t.id { t with txType := Updater.cancelledType t.txType }
  found : ∀ {p n t}, c p ≤ n → FoundEntry p n t → V p n t

/-- New entries of the kind have the property. -/
def Admits (V : Identifier → Nat → TxLogEntry → Prop) (c : Identifier → Nat) (p : Identifier)
    (ty : TxLogEntryType) (slate : Uuid) : Prop :=
  ∀ n t, c p ≤ n → NewEntry p n ty slate t → V p n t

/-- The property passes to the entry confirmed by a refresh of account `p`. -/
def Confirming (V : Identifier → Nat → TxLogEntry → Prop) (p : Identifier) (t : TxLogEntry) : Prop :=
  ∀ now height, V p t.id (Updater.confirmedEntry t now height)

/-- The log is as before, but for one new entry. -/
def LogGains (V : Identifier → Nat → TxLogEntry → Prop) (c : Identifier → Nat) (p : Identifier)
    (ty : TxLogEntryType) (slate : Uuid) (w : Wallet) : Prop :=
  LogHas V c w ∨ ∃ n, c p ≤ n ∧
    LogHas (fun q j t => V q j t ∨ q = p ∧ j = n ∧ NewEntry p n ty slate t) c w

theorem SameLog.logGains {p : Identifier} {ty : TxLogEntryType} {slate : Uuid} {w w' : Wallet}
    (hs : SameLog w w') (h : LogGains V c p ty slate w) : LogGains V c p ty slate w' := by
  rcases h with h | ⟨n, hn, h⟩
  · exact .inl (hs.logHas h)
  · exact .inr ⟨n, hn, hs.logHas h⟩

theorem LogGains.logHas {p : Identifier} {ty : TxLogEntryType} {slate : Uuid} {w : Wallet}
    (h : LogGains V c p ty slate w) (ha : Admits V c p ty slate) : LogHas V c w := by
  rcases h with h | ⟨n, hn, h⟩
  · exact h
  · refine h.mono fun q j t ht => ?_
    rcases ht with ht | ⟨rfl, rfl, ht⟩
    · exact ht
    · exact ha _ t hn ht

/-! ## Locking and receiving -/

namespace Selection

variable (W : World)

/-- A new entry stays one as change is added to it. -/
theorem saveChange_new {parent p : Identifier} {height logId n : Nat}
    {commits : Rows Identifier (Option String × Nat)} {t : TxLogEntry} {slate : Uuid}
    {i : Identifier × Option Nat × Nat} :
    Prog.Triple (fun w => LogHas V c w ∧ NewEntry p n .txSentCreated slate t)
      (saveChange parent height logId commits t i)
      (fun t w => LogHas V c w ∧ NewEntry p n .txSentCreated slate t) (LogHas V c) := by
  refine .of_and fun ht => ?_
  refine (reads_has (Prog.Keeps.unwrap _)).bind fun _ => (reads_has (addU64_reads _ _)).bind fun _ =>
    (has_triple (Batch.save_keeps logHas_frees (by decide) (by decide) _)).bind fun _ =>
      .pure fun w h => ⟨h, ?_⟩
  exact ⟨ht.parentKeyId, ht.id, ht.txType, ht.confirmed, ht.txSlateId⟩

theorem lockRows_gains (mask : Option SecretKey) (slate : Slate) (context : Context)
    (addrTo : Option String) (k : Keychain) (commits : Rows Identifier (Option String × Nat)) :
    Prog.Triple (LogHas V c) (lockRows W mask slate context addrTo k commits)
      (fun _ => LogGains V c context.parentKeyId .txSentCreated slate.id)
      (LogGains V c context.parentKeyId .txSentCreated slate.id) := by
  have hquiet : ∀ {α : Type} {p : WalletM α}, Prog.Keeps SameLog p → Prog.Triple (LogHas V c) p
      (fun _ => LogHas V c) (LogGains V c context.parentKeyId .txSentCreated slate.id) := fun h =>
    h.triple (fun _ _ _ hw hs => hs.logHas hw) fun _ _ hw hs => .inl (hs.logHas hw)
  refine (hquiet (batch_reads W mask).keeps).bind fun _ => Prog.Triple.bind ((nextTxLogId_has
    (V := V) (c := c) context.parentKeyId).mono (fun _ h => h) (fun _ _ h => h) fun _ h => .inl h)
      fun n => .of_and fun hn => ?_
  refine (hquiet sameLog_frees.nextTick).bind fun tick => (hquiet (Prog.Keeps.foldlM _ _ fun _ _ _ =>
    lockInput_sameLog _ _ _)).bind fun amountDebited =>
      (hquiet (storedProofInfo_reads W _ _ _).keeps).bind fun proof => ?_
  refine Prog.Triple.bind (R := fun t w => LogHas V c w ∧
    NewEntry context.parentKeyId n .txSentCreated slate.id t) ?_ fun t => .of_and fun ht => ?_
  · refine (Prog.Triple.foldlM (I := fun _ t w => LogHas V c w ∧
      NewEntry context.parentKeyId n .txSentCreated slate.id t) fun _ _ _ => saveChange_new).mono
        (fun _ h => ⟨h, ?_⟩) (fun _ _ h => h) fun _ h => .inl h
    exact ⟨rfl, rfl, rfl, rfl, rfl⟩
  · refine Prog.Triple.bind (R := fun _ => LogGains V c context.parentKeyId .txSentCreated slate.id)
      (Prog.triple_state fun w h => .inr ⟨n, hn, ?_⟩) fun _ => .pure fun _ h => h
    exact saveTxLogEntry_has (.inr ⟨rfl, ht.id, ht⟩) w (h.mono fun _ _ _ h => .inl h)

/-- Locking adds at most one entry. -/
theorem lockTxContext_gains (mask : Option SecretKey) (slate : Slate) (context : Context)
    (addrTo : Option String) :
    Prog.Triple (LogHas V c) (lockTxContext W mask slate context addrTo)
      (fun _ => LogGains V c context.parentKeyId .txSentCreated slate.id)
      (LogGains V c context.parentKeyId .txSentCreated slate.id) := by
  have hquiet : ∀ {α : Type} {p : WalletM α}, Prog.Reads p → Prog.Triple (LogHas V c) p
      (fun _ => LogHas V c) (LogGains V c context.parentKeyId .txSentCreated slate.id) := fun h =>
    (reads_has h).mono (fun _ h => h) (fun _ _ h => h) fun _ h => .inl h
  refine (hquiet (outputCommits_reads W mask _)).bind fun _ => (hquiet (keychain_reads W mask)).bind
    fun _ => (lockRows_gains W mask slate context addrTo _ _).bind fun _ => Prog.triple_inv.2 ?_
  exact ((Prog.Keeps.unwrap _).bind fun _ => storeTx_keeps sameLog_frees W _ _).mono
    fun _ _ hs => hs.logGains

theorem buildRecipientOutput_has {mask : Option SecretKey} {slate : Slate} {parent : Identifier}
    (ha : Admits V c parent .txReceived slate.id) :
    Prog.Keeps (Prog.Inv (LogHas V c)) (buildRecipientOutput W mask slate parent) := by
  have hF := logHas_frees (V := V) (c := c)
  refine Prog.triple_inv.1 ((has_triple (nextChild_keeps hF W (by decide) mask).orPanic).bind fun _ =>
    (reads_has (keychain_reads W mask)).bind fun k => ?_)
  refine Prog.Triple.bind (R := fun r w => LogHas V c w ∧ r.1.id = slate.id)
    (Prog.Reads.triple (Prog.Keeps.ofExcept _) (fun w r h hrun => ⟨h, ?_⟩) fun _ h => h) fun r =>
      .of_and fun hid => ?_
  · exact Slate.addTransactionElements_id W (Prog.ofExcept_eq_ok.1 hrun).1
  refine (reads_has (keychain_reads W mask)).bind fun _ =>
    (has_triple ((newContext_aside W _ _ _).mono hF.aside)).bind fun _ =>
      (reads_has (calcCommitForCache_reads W _ _ _)).bind fun _ =>
        (reads_has (batch_reads W mask)).bind fun _ => (nextTxLogId_has parent).bind fun n =>
          .of_and fun hn => ?_
  refine (has_triple hF.nextTick).bind fun tick =>
    (has_triple (Batch.save_keeps hF (by decide) (by decide) _)).bind fun _ => ?_
  refine Prog.Triple.bind (has_triple (saveTxLogEntry_has (ha _ _ hn ⟨rfl, rfl, rfl, rfl, ?_⟩))) fun _ =>
    (reads_has (.pure _)).bind fun _ => reads_has (.pure _)
  exact congrArg some hid

end Selection

/-! ## Refreshing and rolling back -/

namespace Updater

variable (W : World) {p : Identifier} (hV : Closed V c)

section
include hV

theorem confirmCoinbase_has (height : Nat) (commit : Commitment) (output : OutputData) :
    Prog.Keeps (Prog.Inv (LogHas V c)) (confirmCoinbase W p height commit output) := by
  have hF := logHas_frees (V := V) (c := c)
  refine Prog.triple_inv.1 ((nextTxLogId_has p).bind fun n => .of_and fun hn => ?_)
  refine (has_triple hF.nextTick).bind fun _ => (reads_has (Prog.Keeps.ofExcept _)).bind fun _ =>
    (reads_has (Prog.Keeps.ofExcept _)).bind fun _ => (has_triple hF.nextTick).bind fun _ => ?_
  exact (has_triple (saveTxLogEntry_has (hV.found hn ⟨rfl, rfl, .inl rfl, rfl, rfl⟩))).bind fun _ =>
    reads_has (.pure _)

omit hV in
/-- An entry with the output's number is confirmed, if the property passes to it. -/
theorem confirmEntry_has {height : Nat} {output : OutputData}
    (hconf : ∀ t, Held V t → t.parentKeyId = p → some t.id = output.txLogEntry → Confirming V p t) :
    Prog.Keeps (Prog.Inv (LogHas V c)) (confirmEntry W p height output) := by
  refine Prog.triple_inv.1 (txLogIter_has.bind fun l => .of_and fun hl => ?_)
  split
  · next t hf =>
    have ht := List.find?_some hf
    simp only [decide_eq_true_eq] at ht
    refine (has_triple logHas_frees.nextTick).bind fun tick => has_triple (saveTxLogEntry_has ?_)
    exact hconf t (hl t (List.mem_of_find?_eq_some hf)) ht.2 ht.1 _ _
  · exact .pure fun _ h => h

theorem confirmOutput_has {height onChain : Nat} {commit : Commitment} {output : OutputData}
    (hconf : output.status = .unconfirmed → output.isCoinbase = false → ∀ t, Held V t →
      t.parentKeyId = p → some t.id = output.txLogEntry → Confirming V p t) :
    Prog.Keeps (Prog.Inv (LogHas V c)) (confirmOutput W p height onChain commit output) := by
  unfold confirmOutput
  by_cases hc : output.isCoinbase = true
  · -- a coinbase output gets an entry, and confirms none
    refine Prog.triple_inv.1 (Prog.Triple.bind (R := fun o w => LogHas V c w ∧ o.isCoinbase = true) ?_
      fun o => .of_and fun ho => ?_)
    · refine .ite (fun _ => (has_triple (confirmCoinbase_has W hV _ _ _)).returns fun s o t h => ?_)
        fun _ => .pure fun _ h => ⟨h, hc⟩
      obtain ⟨n, _, -, h₁⟩ := Prog.bind_ok.1 h
      obtain ⟨_, _, -, h₂⟩ := Prog.bind_ok.1 h₁
      obtain ⟨_, _, -, h₃⟩ := Prog.bind_ok.1 h₂
      obtain ⟨_, _, -, h₄⟩ := Prog.bind_ok.1 h₃
      obtain ⟨_, _, -, h₅⟩ := Prog.bind_ok.1 h₄
      obtain ⟨_, _, -, h₆⟩ := Prog.bind_ok.1 h₅
      cases h₆
      exact hc
    · rw [if_neg (by simp [ho])]
      exact (reads_has (.pure _)).bind fun _ => reads_has (.pure _)
  · rw [if_neg (by simp [hc]), pure_bind]
    refine Prog.Keeps.bind (R := Prog.Inv (LogHas V c)) ?_ fun _ => .pure _
    split
    · next h => exact confirmEntry_has W (hconf h.2 (by simpa using hc))
    · exact .pure _

/-- One round of the loop, with what `J` says of the outputs. -/
theorem applyApiOutput_has {api : List (Commitment × String × Nat × Nat)} {height : Nat}
    {row : Commitment × Identifier × Option Nat} {J : Wallet → Prop}
    (hJ : Prog.Keeps (Prog.Inv J) (applyApiOutput W api height p row))
    (hconf : ∀ w o, J w → w.db.get (.output row.2.1 row.2.2) = some (.outputData o) →
      (api.lookup row.1).isSome = true → o.status = .unconfirmed → o.isCoinbase = false →
        ∀ t, Held V t → t.parentKeyId = p → some t.id = o.txLogEntry → Confirming V p t) :
    Prog.Keeps (Prog.Inv fun w => LogHas V c w ∧ J w) (applyApiOutput W api height p row) := by
  intro w ⟨h, hj⟩
  refine ⟨?_, hJ w hj⟩
  refine Prog.state_bind (P := LogHas V c)
    ((Prog.Keeps.attempt (getOutput_reads row.2.1 row.2.2) w) ▸ h) fun r s hr hs => ?_
  obtain rfl := (Prog.Keeps.attempt (getOutput_reads row.2.1 row.2.2)).rel hr
  rcases r with e | o
  · exact hs
  have hrow : w.db.get (.output row.2.1 row.2.2) = some (.outputData o) :=
    (getOutput_ok.1 (Prog.attempt_eq_ok.1 hr)).1
  refine Prog.Keeps.bind (R := Prog.Inv (LogHas V c)) ?_ (fun o' =>
    Batch.save_keeps logHas_frees (by decide) (by decide) o') w hs
  rcases hl : api.lookup row.1 with _ | a
  · exact .pure _
  · exact confirmOutput_has W hV fun hu hcb => hconf w o hj hrow (by rw [hl]; rfl) hu hcb

end

end Updater

end EpicWallet
