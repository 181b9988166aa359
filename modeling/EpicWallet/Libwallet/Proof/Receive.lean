import EpicWallet.Libwallet.Owner

/-!
# What receiving does

`build_recipient_output` and the updates of log entries.

* `buildRecipientOutput_ok`: the rows a payment received adds.
* `buildRecipientOutput_err`: its errors come before the log id is handed out.
* `updateEntries_errless`: updating the entries of a slate that has one returns no error.
-/

namespace EpicWallet

open Lib WalletBackend Batch

/-! ## Outputs, entries and counters left alone -/

/-- The outputs, the transaction log and the log id counters are as before. -/
structure Untouched (w w' : Wallet) : Prop where
  outputs : ∀ id m, w'.db.get (.output id m) = w.db.get (.output id m)
  entries : ∀ parent id, w'.db.get (.txLogEntry parent id) = w.db.get (.txLogEntry parent id)
  counters : ∀ parent, w'.db.get (.txLogId parent) = w.db.get (.txLogId parent)

instance : Std.Refl Untouched := ⟨fun _ => ⟨fun _ _ => rfl, fun _ _ => rfl, fun _ => rfl⟩⟩

instance : IsTrans Wallet Untouched where
  trans _ _ _ h h' := ⟨fun id m => (h'.outputs id m).trans (h.outputs id m),
    fun p i => (h'.entries p i).trans (h.entries p i), fun p => (h'.counters p).trans (h.counters p)⟩

theorem untouched_of_aside {w w' : Wallet} (h : Aside w w') : Untouched w w' := by
  refine ⟨fun _ _ => ?_, fun _ _ => ?_, fun _ => ?_⟩ <;> rw [h.db]

theorem nextChild_untouched (W : World) (mask : Option SecretKey) :
    Prog.Keeps Untouched (nextChild W mask) :=
  (nextChild_writes W (P := fun k _ => ∃ parent, k = .deriv parent)
    fun parent _ => ⟨parent, rfl⟩).mono fun _ _ h =>
    ⟨fun _ _ => h.get_eq rfl (by simp), fun _ _ => h.get_eq rfl (by simp),
      fun _ => h.get_eq rfl (by simp)⟩

/-- Whether `receive_tx` refuses a slate as already received. -/
def alreadyReceived (d : Rows Key Serializable) (parent : Identifier) (id : Uuid) : Bool :=
  (Updater.selectedTxs d none (some id) (some parent) false).any (·.txType = .txReceived)

theorem alreadyReceived_iff {d : Rows Key Serializable} {parent : Identifier} {id : Uuid} :
    alreadyReceived d parent id = true ↔ ∃ t, (∃ p i, d.get (.txLogEntry p i) = some (.txLogEntry t)) ∧
      t.parentKeyId = parent ∧ t.txSlateId = some id ∧ t.txType = .txReceived := by
  unfold alreadyReceived
  simp [Updater.mem_selectedTxs, mem_txLogOf, and_assoc]

theorem Untouched.alreadyReceived_eq {w w' : Wallet} (h : Untouched w w') (parent : Identifier)
    (id : Uuid) : alreadyReceived w'.db parent id = alreadyReceived w.db parent id := by
  rw [Bool.eq_iff_iff, alreadyReceived_iff, alreadyReceived_iff]
  simp only [h.entries]

theorem checkTtl_reads (slate : Slate) : Prog.Reads (checkTtl slate) := by
  refine lastConfirmedHeight_reads.bind fun last => ?_
  split
  · exact .ite (fun _ => .throw _) fun _ => .pure _
  · exact .pure _

theorem accountNamed_reads (name : Option String) : Prog.Reads (accountNamed name) := by
  unfold accountNamed
  split
  · refine (getAcctPath_reads _).bind fun p => ?_
    split
    · exact .pure _
    · exact parentKeyId_reads
  · exact parentKeyId_reads

theorem accountNamed_errless (name : Option String) : Prog.Errless (accountNamed name) := by
  unfold accountNamed
  split
  · refine Prog.Errless.bind (fun _ _ _ h => by cases h) fun p => ?_
    split
    · exact .pure _
    · exact fun _ _ _ h => by cases h
  · exact fun _ _ _ h => by cases h

theorem truncateMessage_reads (message : Option String) : Prog.Reads (truncateMessage message) := by
  unfold truncateMessage
  split
  · exact .pure _
  · exact (Prog.Keeps.unwrap _).bind fun _ => .pure _

theorem truncateMessage_errless (message : Option String) :
    Prog.Errless (truncateMessage message) := by
  unfold truncateMessage
  split
  · exact .pure _
  · exact (Prog.Errless.unwrap _).bind fun _ => .pure _

namespace Selection

variable (W : World)

/-! ## The output and its entry -/

theorem newContext_errless (b : BlindingFactor) (parent : Identifier) (participantId : Nat) :
    Prog.Errless (newContext W b parent participantId) :=
  (Prog.Errless.orPanic _).bind fun _ => .bind (fun _ _ _ h => by cases h) fun _ => .pure _

theorem newContext_aside (b : BlindingFactor) (parent : Identifier) (participantId : Nat) :
    Prog.Keeps Aside (newContext W b parent participantId) :=
  (Prog.Keeps.ofExcept _).orPanic.bind fun _ => nextTick_aside.bind fun _ => .pure _

/-- What a recipient output that was built did to the store. -/
structure ReceivedRows (mask : Option SecretKey) (slate slate' : Slate) (parent keyId : Identifier)
    (logId : Nat) (w w' : Wallet) : Prop extends Handed parent logId w w' where
  unmask : ∃ k, unmasked W w' mask = .ok k
  slateId : slate'.id = slate.id
  entry : ∃ messages now, w'.db.get (.txLogEntry parent logId) =
    some (.txLogEntry (newReceiveEntry W slate' messages parent logId now))
  output : ∃ commit, w'.db.get (.output keyId none) =
    some (.outputData (recipientOutput parent keyId commit slate' logId))

theorem buildRecipientOutput_ok {mask : Option SecretKey} {slate slate' : Slate}
    {parent keyId : Identifier} {context : Context} {w w' : Wallet}
    (h : buildRecipientOutput W mask slate parent w = (.ok (slate', keyId, context), w')) :
    ∃ logId, ReceivedRows W mask slate slate' parent keyId logId w w' := by
  obtain ⟨key, w₁, hkey, h₁⟩ := Prog.bind_ok.1 h
  have hchild := (nextChild_untouched W mask).rel (Prog.orPanic_eq_ok.1 hkey)
  obtain ⟨k, w₂, hk, h₂⟩ := Prog.bind_ok.1 h₁
  obtain rfl := (keychain_reads W mask).eq hk
  obtain ⟨⟨s, blinding⟩, w₃, hs, h₃⟩ := Prog.bind_ok.1 h₂
  obtain ⟨hadd, rfl⟩ := Prog.ofExcept_eq_ok.1 hs
  obtain ⟨k', w₄, hk', h₄⟩ := Prog.bind_ok.1 h₃
  obtain rfl := (keychain_reads W mask).eq hk'
  obtain ⟨ctx, w₅, hctx, h₅⟩ := Prog.bind_ok.1 h₄
  have haside := (newContext_aside W _ _ _).rel hctx
  obtain ⟨commit, w₆, hc, h₆⟩ := Prog.bind_ok.1 h₅
  obtain rfl := (calcCommitForCache_reads W _ _ _).eq hc
  obtain ⟨b, w₇, hb, h₇⟩ := Prog.bind_ok.1 h₆
  obtain rfl := (batch_reads W mask).eq hb
  obtain ⟨logId, w₈, hid, h₈⟩ := Prog.bind_ok.1 h₇
  have hh := handed_of_nextTxLogId hid
  obtain ⟨tick, w₉, ht, h₉⟩ := Prog.bind_ok.1 h₈
  cases ht
  obtain ⟨⟨⟩, w₁₀, ho, h₁₀⟩ := Prog.bind_ok.1 h₉
  have hout := save_ok ho
  obtain ⟨⟨⟩, w₁₁, hentry, h₁₁⟩ := Prog.bind_ok.1 h₁₀
  have hput := put_sets hentry
  cases h₁₁
  refine ⟨logId, ⟨?_, hh.lt, ?_⟩, ⟨k, ?_⟩, Slate.addTransactionElements_id W hadd, ⟨_, _, hput.get_self⟩,
    ⟨commit, ?_⟩⟩
  · rw [hh.eq]
    unfold numericOf
    rw [(untouched_of_aside haside).counters, hchild.counters]
  · rw [hput.get_ne _ (by simp) rfl, hout.get_ne _ (by simp) rfl]
    exact hh.counter
  · rw [hput.eq, hout.eq, (nextTxLogId_onlyDb parent).rel hid, haside]
    exact ((keychain_ok W).1 hk).1
  · rw [hput.get_ne _ (by simp) rfl]
    exact hout.get_self

/-- A recipient output that was not built for an error left no trace. -/
theorem buildRecipientOutput_err {mask : Option SecretKey} {slate : Slate} {parent : Identifier}
    {e : Error} {w w' : Wallet}
    (h : buildRecipientOutput W mask slate parent w = (.error (.err e), w')) : Untouched w w' := by
  rcases Prog.bind_error.1 h with he | ⟨key, w₁, hkey, h₁⟩
  · exact absurd he (Prog.Errless.orPanic _ _ _ _)
  have hchild := (nextChild_untouched W mask).rel (Prog.orPanic_eq_ok.1 hkey)
  refine IsTrans.trans _ w₁ _ hchild ?_
  rcases Prog.bind_error.1 h₁ with he | ⟨k, w₂, hk, h₂⟩
  · exact (keychain_reads W mask).keeps.rel he
  obtain rfl := (keychain_reads W mask).eq hk
  rcases Prog.bind_error.1 h₂ with he | ⟨⟨s, blinding⟩, w₃, hs, h₃⟩
  · exact (Prog.Keeps.ofExcept _).rel he
  obtain ⟨-, rfl⟩ := Prog.ofExcept_eq_ok.1 hs
  rcases Prog.bind_error.1 h₃ with he | ⟨k', w₄, hk', h₄⟩
  · exact (keychain_reads W mask).keeps.rel he
  obtain rfl := (keychain_reads W mask).eq hk'
  rcases Prog.bind_error.1 h₄ with he | ⟨ctx, w₅, hctx, h₅⟩
  · exact absurd he (newContext_errless W _ _ _ _ _ _)
  refine IsTrans.trans _ w₅ _ (untouched_of_aside ((newContext_aside W _ _ _).rel hctx)) ?_
  rcases Prog.bind_error.1 h₅ with he | ⟨commit, w₆, hc, h₆⟩
  · exact (calcCommitForCache_reads W _ _ _).keeps.rel he
  obtain rfl := (calcCommitForCache_reads W _ _ _).eq hc
  rcases Prog.bind_error.1 h₆ with he | ⟨b, w₇, hb, h₇⟩
  · exact (batch_reads W mask).keeps.rel he
  -- from here on only a panic can stop it
  refine absurd h₇ (Prog.Errless.bind (nextTxLogId_errless _) (fun _ => ?_) _ _ _)
  refine Prog.Errless.bind (fun _ _ _ h => by cases h) fun _ => (save_errless _).bind fun _ => ?_
  exact (put_errless _ _).bind fun _ => .bind (.pure _) fun _ => .pure _

end Selection

/-! ## Updating the entries of a slate -/

namespace Tx

variable (W : World)

/-- The account a filter names, if it names one. -/
def InAccount (parent : Option Identifier) (t : TxLogEntry) : Prop :=
  ∀ k, parent = some k → t.parentKeyId = k

/-- An entry of a slate is stored. -/
def HasEntry (d : Rows Key Serializable) (id : Uuid) (parent : Option Identifier) : Prop :=
  ∃ p i t, d.get (.txLogEntry p i) = some (.txLogEntry t) ∧ t.txSlateId = some id ∧
    InAccount parent t

/-- Updating the entries of a slate that has one fails by a panic only. -/
theorem updateEntries_errless {mask : Option SecretKey} {slate : Slate} {parent : Option Identifier}
    {f : TxLogEntry → TxLogEntry} {k : Keychain} {e : Error} {w w' : Wallet}
    (hk : unmasked W w mask = .ok k) (hd : HasEntry w.db slate.id parent) :
    updateEntries W mask slate parent f w ≠ (.error (.err e), w') := by
  intro h
  obtain ⟨n, l, hl, hmem⟩ := Updater.retrieveTxs_all none (some slate.id) parent false none w
  unfold updateEntries at h
  rw [Prog.bind_of_ok hl] at h
  obtain ⟨p, i, t, hg, hid, hp⟩ := hd
  have ht : t ∈ l := by
    rw [hmem, Updater.mem_selectedTxs]
    exact ⟨mem_txLogOf.2 ⟨p, i, hg⟩, hp, by simp, by simp [hid], by simp⟩
  rw [if_neg (by simpa using List.ne_nil_of_mem ht),
    Prog.bind_of_ok ((batch_ok W).2 ⟨⟨k, hk, rfl⟩, rfl⟩)] at h
  exact Prog.Errless.bind (Prog.Errless.forEach (fun _ => put_errless _ _) _) (fun _ => .pure _) _ _ _ h

/-- What updating the entries of a slate may write: entries of that slate, changed by `f`. -/
def Updated (id : Uuid) (f : TxLogEntry → TxLogEntry) (k : Key) (v : Option Serializable) : Prop :=
  ∃ t, k = .txLogEntry t.parentKeyId (f t).id ∧ v = some (.txLogEntry (f t)) ∧ t.txSlateId = some id

theorem updateEntries_writes (mask : Option SecretKey) (slate : Slate) (parent : Option Identifier)
    (f : TxLogEntry → TxLogEntry) :
    Prog.Keeps (Writes (Updated slate.id f)) (updateEntries W mask slate parent f) := fun w => by
  obtain ⟨n, l, hl, hmem⟩ := Updater.retrieveTxs_all none (some slate.id) parent false none w
  unfold updateEntries
  rw [Prog.bind_of_ok hl]
  refine Prog.Keeps.ite (fun _ => .throw _) (fun _ => ?_) w
  refine (batch_reads W mask).keeps.bind fun _ => Prog.Keeps.bind ?_ fun _ => .pure _
  refine Prog.Keeps.forEach _ fun t ht => put_writes ⟨t, rfl, rfl, ?_⟩
  have hsel := Updater.mem_selectedTxs.1 ((hmem t).1 ht)
  exact hsel.2.2.2.1 _ rfl

/-- The entries of a slate stay entries of the slate, in their accounts. -/
theorem hasEntry_of_updated {id : Uuid} {parent : Option Identifier} {f : TxLogEntry → TxLogEntry}
    {w w' : Wallet} (h : Writes (Updated id f) w w') (hf : ∀ t, (f t).txSlateId = t.txSlateId)
    (hp : ∀ t, (f t).parentKeyId = t.parentKeyId) {p : Identifier}
    {i : Nat} {t : TxLogEntry} (hg : w.db.get (.txLogEntry p i) = some (.txLogEntry t))
    (hid : t.txSlateId = some id) (hpar : t.parentKeyId = p) (hin : ∀ k, parent = some k → p = k) :
    HasEntry w'.db id parent := by
  rcases h.db (.txLogEntry p i) rfl with he | ⟨t', hkey, hv, hid'⟩
  · exact ⟨p, i, t, he.trans hg, hid, fun k hk => hpar.trans (hin k hk)⟩
  · refine ⟨p, i, f t', hv, (hf t').trans hid', fun k hk => ?_⟩
    cases hkey
    exact (hp t').trans (hin k hk)

end Tx

end EpicWallet
