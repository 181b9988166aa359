import EpicWallet.Libwallet.Proof.Accounts

/-!
# Expired transactions

A refresh reads the outstanding entries of the active account once. By the time it comes to cancel
those past their cutoff, its kernel lookups may have confirmed some of them and its scan may have
cancelled some; others, as a finalized `TxSent`, were never cancellable. `cancel_tx` refuses each of
these, and the refusal ends the refresh.

* `Owner.ready_of_beforeExpire`: what is known when the cancelling begins. Nothing before it makes an
  entry cancellable (`Settles`), so the list read at the start misses none.
* `Owner.updateWalletState_expires_iff`: the refresh ends well, with the expired entries cancelled and no
  others, iff each entry of the list that is past its cutoff can still be cancelled.
-/

namespace EpicWallet

open Lib WalletBackend

/-! ## A refresh that is left alone -/

/-- No other call switches the account. -/
def World.Calm (W : World) : Prop := ∀ t, W.switches t = []

/-- The account and the keychain are the same. -/
structure SameSession (w w' : Wallet) : Prop where
  account : w'.parentKeyId = w.parentKeyId
  keychain : w'.keychain = w.keychain
  checksum : w'.masterChecksum = w.masterChecksum

instance : Std.Refl SameSession := ⟨fun _ => ⟨rfl, rfl, rfl⟩⟩

instance : IsTrans Wallet SameSession where
  trans _ _ _ h h' := ⟨h'.account.trans h.account, h'.keychain.trans h.keychain,
    h'.checksum.trans h.checksum⟩

theorem sameSession_frees : Frees SameSession allRows where
  aside w w' h := by
    constructor <;> rw [h]
  files _ _ := ⟨rfl, rfl, rfl⟩
  puts k _ v _ w := by
    unfold put
    split <;> exact ⟨rfl, rfl, rfl⟩
  erases _ _ _ := ⟨rfl, rfl, rfl⟩

theorem SameSession.unmasked {W : World} {w w' : Wallet} (h : SameSession w w')
    (mask : Option SecretKey) : unmasked W w' mask = WalletBackend.unmasked W w mask :=
  unmasked_congr h.keychain h.checksum

/-- Nobody waits to switch the account when the lock is taken. -/
theorem World.Calm.lock {W : World} (hW : W.Calm) {R : Wallet → Wallet → Prop} [Std.Refl R]
    [IsTrans Wallet R] {S : List RowKind} (hF : Frees R S) : Prog.Keeps R (walletLock W) := by
  refine hF.nextTick.bind fun t => .ite (fun _ => .panic) fun _ => ?_
  rw [hW t]
  exact .pure _

/-! ## Entries that can be cancelled -/

/-- `cancel_tx` does not refuse the entry. -/
def Cancellable (t : TxLogEntry) : Bool :=
  !t.confirmed && (t.txType = .txSentCreated || t.txType = .txReceived)

/-- The entry's cutoff is reached. -/
def PastCutoff (tip : Nat) (t : TxLogEntry) : Bool := t.ttlCutoffHeight.any fun e => tip ≥ e

/-- The entry as `cancel_tx` saves it. -/
def TxLogEntry.cancelled (t : TxLogEntry) : TxLogEntry :=
  { t with txType := Updater.cancelledType t.txType }

theorem cancellable_iff {t : TxLogEntry} : Cancellable t = true ↔
    t.confirmed = false ∧ (t.txType = .txSentCreated ∨ t.txType = .txReceived) := by
  simp [Cancellable]

theorem outstanding_of_cancellable {t : TxLogEntry} (h : Cancellable t = true) :
    Updater.outstanding t = true := by
  obtain ⟨hc, hty | hty⟩ := cancellable_iff.1 h <;> simp [Updater.outstanding, hc, hty]

/-- An entry that is cancelled and can still be is what it was. -/
theorem cancelled_of_cancellable {t : TxLogEntry} (h : Cancellable t.cancelled = true) :
    t.cancelled = t := by
  obtain ⟨-, hty⟩ := cancellable_iff.1 h
  unfold TxLogEntry.cancelled at hty ⊢
  rcases hk : t.txType <;> simp_all [Updater.cancelledType]

/-! ### Steps that make no entry cancellable -/

/-- A log in order stays so, and the entries that can be cancelled could be before. -/
structure Settles (w w' : Wallet) : Prop where
  keyed : LogKeyed w.db → LogKeyed w'.db
  cancellable : LogKeyed w.db → ∀ p i t, entryAt w'.db p i = some t → Cancellable t = true →
    entryAt w.db p i = some t

instance : Std.Refl Settles := ⟨fun _ => ⟨id, fun _ _ _ _ h _ => h⟩⟩

instance : IsTrans Wallet Settles where
  trans _ _ _ h h' := ⟨fun hk => h'.keyed (h.keyed hk), fun hk p i t ht hc =>
    h.cancellable hk p i t (h'.cancellable (h.keyed hk) p i t ht hc) hc⟩

theorem settles_of_entries {w w' : Wallet} (h : ∀ p i, entryAt w'.db p i = entryAt w.db p i) :
    Settles w w' := by
  refine ⟨fun hk p i t ht => hk p i t ?_, fun _ p i t ht _ => ?_⟩
  · rw [← h]
    exact ht
  · rw [← h]
    exact ht

/-- All rows but the entries. -/
def rowsBesideEntries : List RowKind :=
  [.output, .history, .deriv, .height, .context, .logId, .account, .scanned, .status]

theorem entryAt_of_touches {w w' : Wallet} (h : Touches rowsBesideEntries w w') (p : Identifier)
    (i : Nat) : entryAt w'.db p i = entryAt w.db p i := by
  unfold entryAt
  rw [h.get (by simp [Key.kind, rowsBesideEntries])]

theorem settles_frees : Frees Settles rowsBesideEntries where
  aside _ _ h := settles_of_entries (entryAt_of_touches ((touches_frees _).aside _ _ h))
  files _ _ := settles_of_entries (entryAt_of_touches ((touches_frees _).files _ _))
  puts k hk v hv _ := settles_of_entries (entryAt_of_touches ((touches_frees _).puts k hk v hv _))
  erases k hk _ := settles_of_entries (entryAt_of_touches ((touches_frees _).erases k hk _))

theorem logKeyed_save {t : TxLogEntry} {p : Identifier} {w : Wallet} (hp : t.parentKeyId = p)
    (hk : LogKeyed w.db) : LogKeyed (Batch.saveTxLogEntry t p w).2.db := by
  unfold Batch.saveTxLogEntry put
  split
  · intro q j r hr
    rw [entryAt_put] at hr
    split at hr
    · next hq =>
      cases hr
      exact ⟨hp.trans hq.1.symm, hq.2.symm⟩
    · exact hk q j r hr
  · exact hk

theorem settles_save {t : TxLogEntry} {p : Identifier} {w : Wallet} (hp : t.parentKeyId = p)
    (hc : LogKeyed w.db → Cancellable t = true → entryAt w.db p t.id = some t) :
    Settles w (Batch.saveTxLogEntry t p w).2 := by
  refine ⟨logKeyed_save hp, ?_⟩
  unfold Batch.saveTxLogEntry put
  split
  · intro hk q j r hr hcr
    rw [entryAt_put] at hr
    split at hr
    · next hq =>
      cases hr
      rw [hq.1, hq.2]
      exact hc hk hcr
    · exact hr
  · exact fun _ _ _ _ hr _ => hr

/-! ### Reading the log -/

/-- No account has two entries of one number. -/
theorem txLogOf_distinct {d : Rows Key Serializable} (hk : LogKeyed d) :
    (txLogOf d).Pairwise fun a b => ¬(a.parentKeyId = b.parentKeyId ∧ a.id = b.id) := by
  unfold txLogOf rowsOf
  rw [List.pairwise_filterMap, List.pairwise_map]
  have hkeys : d.toList.Pairwise fun r r' => r.1 ≠ r'.1 := List.pairwise_map.1 d.nodup
  have hrow : ∀ r ∈ d.toList.filter fun r => r.1.asTxLogEntry, ∀ t, r.2.asTxLogEntry = some t →
      r.1 = .txLogEntry t.parentKeyId t.id := by
    rintro ⟨k, v⟩ hr t ht
    obtain ⟨hmem, hkey⟩ := List.mem_filter.1 hr
    have hg := Rows.mem_iff.1 hmem
    obtain rfl : v = .txLogEntry t := Serializable.asTxLogEntry_eq.1 ht
    cases k <;> cases hkey
    obtain ⟨rfl, rfl⟩ := hk _ _ t (entryAt_eq.2 hg)
    rfl
  refine (hkeys.filter _).imp_of_mem fun {r r'} hr hr' hne t ht t' ht' hsame => hne ?_
  rw [hrow r hr t ht, hrow r' hr' t' ht', hsame.1, hsame.2]

theorem mem_txLogOf_keyed {d : Rows Key Serializable} (hk : LogKeyed d) {t : TxLogEntry} :
    t ∈ txLogOf d ↔ entryAt d t.parentKeyId t.id = some t := by
  refine mem_txLogOf_iff.trans ⟨?_, fun h => ⟨_, _, h⟩⟩
  rintro ⟨p, i, h⟩
  obtain ⟨rfl, rfl⟩ := hk p i t h
  exact h

/-- `retrieve_txs` returns the entries selected, in some order. -/
theorem retrieveTxs_perm (txId : Option Nat) (txSlateId : Option Uuid) (parent : Option Identifier)
    (outstandingOnly : Bool) (w : Wallet) :
    ∃ n l, Updater.retrieveTxs txId txSlateId parent outstandingOnly none none none w =
      (.ok (n, n, l), w) ∧ l.Perm (Updater.selectedTxs w.db txId txSlateId parent outstandingOnly) := by
  unfold Updater.retrieveTxs
  rw [Prog.bind_of_ok (rows_apply w), Prog.bind_of_ok (Updater.paginate_all _ w)]
  refine ⟨_, _, rfl, ?_⟩
  unfold Updater.sortBy
  split <;> exact List.perm_insertionSort _ _

/-- One entry of an account, by its number. -/
theorem retrieveTxs_one {w : Wallet} (hk : LogKeyed w.db) (p : Identifier) (i : Nat) :
    ∃ n, Updater.retrieveTxs (some i) none (some p) false none none none w =
      (.ok (n, n, (entryAt w.db p i).toList), w) := by
  obtain ⟨n, l, hl, hperm⟩ := retrieveTxs_perm (some i) none (some p) false w
  refine ⟨n, ?_⟩
  rw [hl]
  suffices h : l = (entryAt w.db p i).toList by rw [h]
  have hmem : ∀ t, t ∈ l ↔ entryAt w.db p i = some t := by
    intro t
    rw [hperm.mem_iff, Updater.mem_selectedTxs, mem_txLogOf_keyed hk]
    constructor
    · rintro ⟨ht, hp, hi, -⟩
      rw [← hp p rfl, ← hi i rfl]
      exact ht
    · intro ht
      obtain ⟨rfl, rfl⟩ := hk p i t ht
      exact ⟨ht, fun _ h => Option.some.inj h, fun _ h => Option.some.inj h, by simp, by simp⟩
  have hdist : l.Pairwise fun a b => ¬(a.parentKeyId = b.parentKeyId ∧ a.id = b.id) := by
    refine (hperm.pairwise_iff fun h h' => h ⟨h'.1.symm, h'.2.symm⟩).2 ?_
    exact (txLogOf_distinct hk).filter _
  rcases l with _ | ⟨a, _ | ⟨b, l⟩⟩
  · rcases ht : entryAt w.db p i with _ | t
    · rfl
    · exact absurd ((hmem t).2 ht) (List.not_mem_nil)
  · rw [(hmem a).1 List.mem_cons_self]
    rfl
  · have ha := hk p i a ((hmem a).1 (by simp))
    have hb := hk p i b ((hmem b).1 (by simp))
    exact absurd ⟨ha.1.trans hb.1.symm, ha.2.trans hb.2.symm⟩ ((List.pairwise_cons.1 hdist).1 b (by simp))

/-! ### The scan -/

namespace Scan

variable {W : World}

theorem restoreMissingOutput_settles (hW : W.Calm) (mask : Option SecretKey) (o : OutputResult)
    (found : Rows Identifier Nat) : Prog.Keeps Settles (restoreMissingOutput W mask o found) := by
  have hF := settles_frees
  refine (hW.lock hF).bind fun _ => (calcCommitForCache_reads W _ _ _).keeps.bind fun _ =>
    (batch_reads W mask).keeps.bind fun _ => (Batch.nextTxLogId_keeps hF (by decide) _).bind
      fun logId => hF.nextTick.bind fun created => hF.nextTick.bind fun confirmed => ?_
  refine Prog.Keeps.bind (fun w => settles_save rfl fun _ hc => ?_) fun _ =>
    (Batch.save_keeps hF (by decide) (by decide) _).attempt.bind fun _ =>
      (Prog.Keeps.unwrap _).bind fun _ => (Prog.Keeps.pure _).bind fun _ => .pure _
  have hconf : true = false := (cancellable_iff.1 hc).1
  cases hconf

/-- The entry to be cancelled, if there is one, is the stored one. -/
theorem cancelledEntry_ok {p : Identifier} {id : Option Nat} {r : Option TxLogEntry} {w w' : Wallet}
    (hk : LogKeyed w.db) (h : cancelledEntry p id w = (.ok r, w')) :
    w' = w ∧ ∀ t ∈ r, ∃ t₀, entryAt w.db p t₀.id = some t₀ ∧ t = t₀.cancelled := by
  cases id with
  | none =>
    cases h
    exact ⟨rfl, fun t ht => by cases ht⟩
  | some id =>
    obtain ⟨n, hn⟩ := retrieveTxs_one hk p id
    obtain ⟨res, w₁, hres, hret⟩ := Prog.bind_ok.1 h
    rw [hn] at hres
    cases hres
    cases hret
    refine ⟨rfl, fun t ht => ?_⟩
    rcases he : entryAt w.db p id with _ | t₀
    · rw [he] at ht
      cases ht
    · rw [he] at ht
      cases ht
      refine ⟨t₀, ?_, rfl⟩
      rw [(hk p id t₀ he).2]
      exact he

theorem cancelledEntry_reads (p : Identifier) (id : Option Nat) :
    Prog.Reads (cancelledEntry p id) := by
  cases id with
  | none => exact .pure _
  | some id => exact (Updater.retrieveTxs_reads _ _ _ _ _ _ _).bind fun _ => .pure _

theorem cancelTxLogEntry_settles (hW : W.Calm) (mask : Option SecretKey) (o : OutputData) :
    Prog.Keeps Settles (cancelTxLogEntry W mask o) := by
  refine (hW.lock settles_frees).bind fun _ w => ?_
  rcases hc : cancelledEntry o.keyId.parentPath o.txLogEntry w with ⟨e | r, w₁⟩
  · rw [Prog.bind_of_error hc, (cancelledEntry_reads _ _).eq hc]
    exact Std.Refl.refl w
  rw [Prog.bind_of_ok hc, (cancelledEntry_reads _ _).eq hc]
  refine Prog.rel_bind ((batch_reads W mask).keeps w) fun b w₂ hb => ?_
  rw [(batch_reads W mask).eq hb]
  refine Prog.rel_bind ?_ fun _ w₃ _ => Std.Refl.refl w₃
  cases r with
  | none => exact Std.Refl.refl w
  | some t =>
    by_cases hk : LogKeyed w.db
    · obtain ⟨-, ht⟩ := cancelledEntry_ok hk hc
      obtain ⟨t₀, ht₀, rfl⟩ := ht t rfl
      refine settles_save (hk _ _ _ ht₀).1 fun _ hcan => ?_
      rw [cancelled_of_cancellable hcan]
      exact ht₀
    · exact ⟨fun h => absurd h hk, fun h => absurd h hk⟩

theorem scan_settles (hW : W.Calm) (mask : Option SecretKey) (delete : Bool)
    (startHeight endHeight : Nat) : Prog.Keeps Settles (scan W mask delete startHeight endHeight) :=
  scan_keeps_of settles_frees W (hW.lock settles_frees) (by decide) (by decide) (by decide) (by decide)
    (cancelTxLogEntry_settles hW mask) (restoreMissingOutput_settles hW mask) delete startHeight endHeight

end Scan

/-! ### Up to the cancelling -/

namespace Owner

variable {W : World}

theorem saveConfirmed_settles (hW : W.Calm) (mask : Option SecretKey) {parent : Identifier}
    (height : Nat) {tx : TxLogEntry} (hp : tx.parentKeyId = parent) :
    Prog.Keeps Settles (saveConfirmed W mask parent height tx) := by
  have hF := settles_frees
  refine (hW.lock hF).bind fun _ => (batch_reads W mask).keeps.bind fun _ => hF.nextTick.bind fun tick =>
    Prog.Keeps.bind (fun w => settles_save hp fun _ hc => ?_) fun _ => .pure _
  have hconf : true = false := (cancellable_iff.1 hc).1
  cases hconf

theorem lookupKernels_settles (hW : W.Calm) (mask : Option SecretKey) {parent : Identifier}
    (height : Nat) : ∀ txs : List TxLogEntry, (∀ t ∈ txs, t.parentKeyId = parent) →
      Prog.Keeps Settles (lookupKernels W mask parent height txs)
  | [], _ => .pure _
  | tx :: txs, hp => by
    have hrest := lookupKernels_settles hW mask height txs fun t ht => hp t (List.mem_cons_of_mem _ ht)
    unfold lookupKernels
    refine .ite (fun _ => hrest) fun _ => ?_
    split
    · exact hrest
    · refine settles_frees.nextTick.bind fun _ => ?_
      split
      · exact .pure _
      · exact hrest
      · exact (saveConfirmed_settles hW mask height (hp tx List.mem_cons_self)).bind fun _ => hrest

theorem updateTxsViaKernel_settles (hW : W.Calm) (mask : Option SecretKey) {txs : List TxLogEntry}
    {w : Wallet} (hp : ∀ t ∈ txs, t.parentKeyId = w.parentKeyId) :
    Settles w (updateTxsViaKernel W mask txs w).2 := by
  have hF := settles_frees
  refine Prog.rel_bind (hW.lock hF w) fun _ w₁ h₁ => ?_
  have hs := ((hW.lock sameSession_frees).rel h₁).account
  refine Prog.rel_bind (Std.Refl.refl w₁) fun parent w₂ h₂ => ?_
  cases h₂
  refine ((hW.lock hF).bind fun _ => (Updater.getChainTip_keeps hF W).attempt.bind fun r => ?_) w₁
  split
  · exact .pure _
  · exact lookupKernels_settles hW mask _ txs fun t ht => (hp t ht).trans hs.symm

theorem scanStep_settles (hW : W.Calm) (mask : Option SecretKey) (tip : Nat × String) :
    Prog.Keeps Settles (scanStep W mask tip) := by
  have hF := settles_frees
  exact (hW.lock hF).bind fun _ => (scanStart_reads tip).keeps.bind fun last =>
    (Scan.scan_settles hW mask false _ _).bind fun info => (hW.lock hF).bind fun _ =>
      (batch_reads W mask).keeps.bind fun _ => (hF.put (by decide) (by trivial)).bind fun _ =>
        (hF.put (by decide) (by trivial)).bind fun _ => .pure _

theorem scanStep_session (hW : W.Calm) (mask : Option SecretKey) (tip : Nat × String) :
    Prog.Keeps SameSession (scanStep W mask tip) := by
  have hF := sameSession_frees
  have hlock := hW.lock hF
  exact hlock.bind fun _ => (scanStart_reads tip).keeps.bind fun last =>
    (Scan.scan_keeps hF W hlock (fun k _ => mem_allRows k) mask false _ _).bind fun info =>
      hlock.bind fun _ => (batch_reads W mask).keeps.bind fun _ =>
        (hF.put (by decide) (by trivial)).bind fun _ => (hF.put (by decide) (by trivial)).bind
          fun _ => .pure _

/-- A scan that was saved opened the store. -/
theorem scanStep_opens {mask : Option SecretKey} {tip : Nat × String} {w w' : Wallet}
    (h : scanStep W mask tip w = (.ok (), w')) : ∃ k, unmasked W w' mask = .ok k := by
  have hF := sameSession_frees
  obtain ⟨_, w₁, -, h₁⟩ := Prog.bind_ok.1 h
  obtain ⟨_, w₂, -, h₂⟩ := Prog.bind_ok.1 h₁
  obtain ⟨info, w₃, -, h₃⟩ := Prog.bind_ok.1 h₂
  obtain ⟨_, w₄, -, h₄⟩ := Prog.bind_ok.1 h₃
  obtain ⟨b, w₅, hb, h₅⟩ := Prog.bind_ok.1 h₄
  obtain ⟨⟨k, hk, -⟩, rfl⟩ := (batch_ok W).1 hb
  refine ⟨k, ?_⟩
  have hsaves : Prog.Keeps SameSession (do
      Batch.saveLastScannedBlock { info with hash := tip.2 }
      Batch.saveInitStatus .initComplete
      Batch.commit) :=
    (hF.put (by decide) (by trivial)).bind fun _ => (hF.put (by decide) (by trivial)).bind fun _ => .pure _
  rw [(hsaves.rel h₅).unmasked]
  exact hk

variable (W) in
/-- A refresh up to the cancelling: the entries it read, and the tip. -/
def beforeExpire (mask : Option SecretKey) : WalletM (Option (List TxLogEntry × Nat)) := do
  match ← beforeScan W mask with
  | none => pure none
  | some (txs, tip) => do
    scanStep W mask tip
    pure (some (txs, tip.1))

variable (W) in
/-- The rest of a refresh. -/
def fromExpire (mask : Option SecretKey) : Option (List TxLogEntry × Nat) → WalletM Bool
  | none => pure false
  | some (txs, tip) => do
    Prog.forEach txs (cancelExpired W mask tip)
    pure true

variable (W) in
theorem updateWalletState_expire (mask : Option SecretKey) :
    updateWalletState W mask = beforeExpire W mask >>= fromExpire W mask := by
  rw [updateWalletState_eq]
  unfold beforeExpire
  rw [Prog.bind_assoc']
  refine congrArg _ (funext fun r => ?_)
  rcases r with _ | ⟨txs, tip⟩
  · rfl
  · show fromScan W mask (some (txs, tip)) = (scanStep W mask tip >>= fun _ => pure _) >>= _
    rw [Prog.bind_assoc']
    rfl

/-- What is known when the cancelling begins. -/
structure ReadyToExpire (W : World) (mask : Option SecretKey) (p : Identifier)
    (txs : List TxLogEntry) (w : Wallet) : Prop where
  keyed : LogKeyed w.db
  account : w.parentKeyId = p
  opens : ∃ k, unmasked W w mask = .ok k
  distinct : txs.Pairwise fun a b => a.id ≠ b.id
  complete : ∀ i t, entryAt w.db p i = some t → Cancellable t = true → t ∈ txs

theorem logOk_of_keyed {d : Rows Key Serializable} (hk : LogKeyed d) : LogOk openPolicy d :=
  ⟨fun h => hk _ _ _ h, fun h => h.elim⟩

/-- The entries read by a refresh, and the wallet before its scan. -/
theorem beforeScan_ready (hW : W.Calm) {mask : Option SecretKey} {txs : List TxLogEntry}
    {tip : Nat × String} {w w₁ : Wallet} (hk : LogKeyed w.db)
    (h : beforeScan W mask w = (.ok (some (txs, tip)), w₁)) :
    LogKeyed w₁.db ∧ SameSession w w₁ ∧ (txs.Pairwise fun a b => a.id ≠ b.id) ∧
      ∀ i t, entryAt w₁.db w.parentKeyId i = some t → Cancellable t = true → t ∈ txs := by
  have hF := sameSession_frees
  have hlock := hW.lock hF
  have hS := hW.lock settles_frees
  obtain ⟨_, s₁, l₁, h₁⟩ := Prog.bind_ok.1 h
  obtain ⟨parent, s₂, l₂, h₂⟩ := Prog.bind_ok.1 h₁
  cases l₂
  obtain ⟨_, s₃, l₃, h₃⟩ := Prog.bind_ok.1 h₂
  obtain ⟨result, s₄, l₄, h₄⟩ := Prog.bind_ok.1 h₃
  have hk₃ : LogKeyed s₃.db := (hS.rel l₃).keyed ((hS.rel l₁).keyed hk)
  have hk₄ : LogKeyed s₄.db := by
    have hl : Logged openPolicy s₃.db (updateOutputs W mask s₃).2 :=
      updateOutputs_logged (openPolicy_serves _) (logOk_of_keyed hk₃)
    rw [l₄] at hl
    exact fun _ _ _ ht => hl.ok.keyed ht
  have hses₄ : SameSession w s₄ := IsTrans.trans _ _ _ (hlock.rel l₁) (IsTrans.trans _ _ _ (hlock.rel l₃)
    ((updateOutputs_keeps hF W hlock (fun k _ => mem_allRows k) mask).rel l₄))
  cases result with
  | false => cases h₄
  | true =>
    obtain ⟨_, s₅, l₅, h₅⟩ := Prog.bind_ok.1 h₄
    obtain ⟨r, s₆, l₆, h₆⟩ := Prog.bind_ok.1 h₅
    have hk₅ := (hS.rel l₅).keyed hk₄
    have hses₅ : SameSession w s₅ := IsTrans.trans _ _ _ hses₄ (hlock.rel l₅)
    obtain ⟨n, l, hrun, hperm⟩ := retrieveTxs_perm none none (some s₁.parentKeyId) true s₅
    cases hrun.symm.trans l₆
    have hown : ∀ t ∈ l, t.parentKeyId = s₅.parentKeyId := by
      intro t ht
      rw [hses₅.account, ← (hlock.rel l₁).account]
      exact (Updater.mem_selectedTxs.1 (hperm.mem_iff.1 ht)).2.1 _ rfl
    obtain ⟨found, s₇, l₇, h₇⟩ := Prog.bind_ok.1 h₆
    have hkernel := updateTxsViaKernel_settles hW mask hown
    have hses₇ := (updateTxsViaKernel_keeps hF W hlock (mem_allRows _) mask l).rel l₇
    rw [l₇] at hkernel
    cases found with
    | false => cases h₇
    | true =>
      obtain ⟨node, s₈, l₈, h₈⟩ := Prog.bind_ok.1 h₇
      have htip := (Updater.getChainTip_keeps settles_frees W).attempt.rel l₈
      have hses₈ := (Updater.getChainTip_keeps hF W).attempt.rel l₈
      cases node with
      | error e => cases h₈
      | ok node =>
        cases h₈
        refine ⟨htip.keyed (hkernel.keyed hk₅), IsTrans.trans _ _ _ hses₅ (IsTrans.trans _ _ _ hses₇ hses₈),
          ?_, fun i t ht hc => ?_⟩
        · have hdist := (hperm.pairwise_iff fun h h' => h ⟨h'.1.symm, h'.2.symm⟩).2
            ((txLogOf_distinct hk₅).filter _)
          exact hdist.imp_of_mem fun ha hb hne hid => hne ⟨(hown _ ha).trans (hown _ hb).symm, hid⟩
        · have hold := hkernel.cancellable hk₅ _ _ t
            (htip.cancellable (hkernel.keyed hk₅) _ _ t ht hc) hc
          refine hperm.mem_iff.2 (Updater.mem_selectedTxs.2 ⟨mem_txLogOf_iff.2 ⟨_, _, hold⟩, ?_, by simp,
            by simp, fun _ => outstanding_of_cancellable hc⟩)
          intro p hp
          cases hp
          rw [(hk₅ _ _ t hold).1, (hlock.rel l₁).account]

theorem ready_of_beforeExpire (hW : W.Calm) {mask : Option SecretKey} {txs : List TxLogEntry}
    {tip : Nat} {w w₁ : Wallet} (hk : LogKeyed w.db)
    (h : beforeExpire W mask w = (.ok (some (txs, tip)), w₁)) :
    ReadyToExpire W mask w.parentKeyId txs w₁ := by
  obtain ⟨r, w₀, h₀, h₁⟩ := Prog.bind_ok.1 h
  rcases r with _ | ⟨txs, tip⟩
  · cases h₁
  obtain ⟨_, w₂, h₂, h₃⟩ := Prog.bind_ok.1 h₁
  cases h₃
  obtain ⟨hk₀, hses, hdist, hall⟩ := beforeScan_ready hW hk h₀
  have hscan := (scanStep_settles hW mask tip).rel h₂
  refine ⟨hscan.keyed hk₀, ?_, scanStep_opens h₂, hdist, fun i t ht hc => ?_⟩
  · rw [((scanStep_session hW mask tip).rel h₂).account, hses.account]
  · exact hall i t (hscan.cancellable hk₀ _ _ t ht hc) hc

end Owner

/-! ## Cancelling by number -/

namespace Tx

variable {W : World}

/-- The rows after the entry of an account is cancelled. -/
def CancelsAt (p : Identifier) (i : Nat) (d d' : Rows Key Serializable) : Prop :=
  ∀ q j, entryAt d' q j = (entryAt d q j).map fun t => if q = p ∧ j = i then t.cancelled else t

/-- An entry that is not there or cannot be cancelled is refused. -/
theorem cancelTx_refuses {mask : Option SecretKey} {p : Identifier} {i : Nat} {w : Wallet}
    (hk : LogKeyed w.db) (hn : ∀ t ∈ entryAt w.db p i, Cancellable t = false) :
    ∃ e, cancelTx W mask p (some i) none w = (.error (.err e), w) := by
  obtain ⟨n, hrun⟩ := retrieveTxs_one hk p i
  unfold cancelTx
  rw [Prog.bind_of_ok hrun]
  rcases ht : entryAt w.db p i with _ | t
  · exact ⟨_, rfl⟩
  · have hc := hn t ht
    dsimp only [Option.toList_some]
    by_cases hty : t.txType ≠ .txSentCreated ∧ t.txType ≠ .txReceived
    · rw [if_pos hty]
      exact ⟨_, rfl⟩
    · rw [if_neg hty]
      have hconf : t.confirmed = true := by
        by_contra hne
        rw [cancellable_iff.2 ⟨by simpa using hne, by tauto⟩] at hc
        cases hc
      rw [if_pos hconf]
      exact ⟨_, rfl⟩

/-- For an entry that can be cancelled, `cancel_tx` comes to the rollback. -/
theorem cancelTx_eq {mask : Option SecretKey} {p : Identifier} {i : Nat} {w : Wallet} {t : TxLogEntry}
    (hk : LogKeyed w.db) (ht : entryAt w.db p i = some t) (hc : Cancellable t = true) :
    cancelTx W mask p (some i) none w = (do
      let res ← Updater.retrieveOutputs W mask false false (some t.id) (some p) none none none
      Updater.cancelTxAndOutputs W mask t (res.2.2.map Prod.fst) p) w := by
  obtain ⟨n, hrun⟩ := retrieveTxs_one hk p i
  obtain ⟨hconf, hty⟩ := cancellable_iff.1 hc
  unfold cancelTx
  rw [Prog.bind_of_ok hrun, ht]
  dsimp only [Option.toList_some]
  rw [if_neg (by tauto), if_neg (by simp [hconf])]

theorem cancelOutput_sameLog (txId : Nat) (o : OutputData) :
    Prog.Keeps SameLog (Updater.cancelOutput txId o) :=
  Prog.Keeps.bind (.ite (fun _ => Batch.delete_keeps sameLog_frees (by decide) (by decide) _ _ _)
    fun _ => .pure _) fun _ =>
      .ite (fun _ => Batch.save_keeps sameLog_frees (by decide) (by decide) _) fun _ => .pure _

theorem cancelOutput_errless (txId : Nat) (o : OutputData) : Prog.Errless (Updater.cancelOutput txId o) :=
  .bind (.ite (Batch.delete_errless _ _ _) (.pure _)) fun _ => .ite (Batch.save_errless _) (.pure _)

theorem mapCommits_errless (k : Keychain) : ∀ l : List OutputData, Prog.Errless (Updater.mapCommits W k l)
  | [] => .pure _
  | o :: l => by
    refine Prog.Errless.bind ?_ fun _ => (mapCommits_errless k l).bind fun _ => .pure _
    unfold Updater.commitOf
    split
    · exact .unwrap _
    · exact .orPanic _

/-- With the store open, it is not refused. -/
theorem cancelTx_errless {mask : Option SecretKey} {p : Identifier} {i : Nat} {w : Wallet}
    {t : TxLogEntry} (hk : LogKeyed w.db) (hopen : ∃ k, unmasked W w mask = .ok k)
    (ht : entryAt w.db p i = some t) (hc : Cancellable t = true) (e : Error) (w' : Wallet) :
    cancelTx W mask p (some i) none w ≠ (.error (.err e), w') := by
  obtain ⟨k, hkey⟩ := hopen
  rw [cancelTx_eq hk ht hc]
  intro h
  have hread := Updater.retrieveOutputs_reads W mask false false (some t.id) (some p) none none none
  rcases Prog.bind_error.1 h with hr | ⟨res, w₁, hr, h₁⟩
  · unfold Updater.retrieveOutputs at hr
    rw [Prog.bind_of_ok (rows_apply w), Prog.bind_of_ok (Updater.paginate_all _ w),
      Prog.bind_of_ok ((keychain_ok W).2 ⟨hkey, rfl⟩)] at hr
    exact ((mapCommits_errless k _).bind fun _ => .pure _) w e w' hr
  · rw [hread.eq hr] at h₁
    unfold Updater.cancelTxAndOutputs at h₁
    rw [Prog.bind_of_ok ((batch_ok W).2 ⟨⟨k, hkey, rfl⟩, rfl⟩)] at h₁
    refine Prog.Errless.bind (Prog.Errless.forEach (fun o => cancelOutput_errless t.id o) _) (fun _ => ?_)
      w e w' h₁
    exact (put_errless _ _).bind fun _ => .pure _

/-- What it leaves of the log. -/
theorem cancelTx_cancelsAt {mask : Option SecretKey} {p : Identifier} {i : Nat} {w w' : Wallet}
    {t : TxLogEntry} (hk : LogKeyed w.db) (ht : entryAt w.db p i = some t) (hc : Cancellable t = true)
    (h : cancelTx W mask p (some i) none w = (.ok (), w')) : CancelsAt p i w.db w'.db := by
  rw [cancelTx_eq hk ht hc] at h
  obtain ⟨res, w₁, hr, h₁⟩ := Prog.bind_ok.1 h
  obtain rfl := (Updater.retrieveOutputs_reads W _ _ _ _ _ _ _ _).eq hr
  obtain ⟨_, w₂, hb, h₂⟩ := Prog.bind_ok.1 h₁
  obtain rfl := (batch_reads W mask).eq hb
  obtain ⟨_, w₃, hl, h₃⟩ := Prog.bind_ok.1 h₂
  have hsame : SameLog w₂ w₃ :=
    (Prog.Keeps.forEach _ fun o _ => cancelOutput_sameLog t.id o).rel hl
  obtain ⟨_, w₄, hp, h₄⟩ := Prog.bind_ok.1 h₃
  cases h₄
  obtain ⟨-, rfl⟩ := put_ok.1 hp
  obtain ⟨-, hid⟩ := hk p i t ht
  intro q j
  refine (entryAt_put _ _ _ _ _ _).trans ?_
  show (if q = p ∧ j = t.id then some t.cancelled else entryAt w₃.db q j) = _
  rw [hsame.entry, hid]
  by_cases hqj : q = p ∧ j = i
  · obtain ⟨rfl, rfl⟩ := hqj
    simp [ht]
  · simp [hqj]

theorem CancelsAt.keyed {p : Identifier} {i : Nat} {d d' : Rows Key Serializable}
    (h : CancelsAt p i d d') (hk : LogKeyed d) : LogKeyed d' := by
  intro q j t ht
  rw [h q j, Option.map_eq_some_iff] at ht
  obtain ⟨t₀, ht₀, rfl⟩ := ht
  have := hk q j t₀ ht₀
  split <;> exact this

end Tx

namespace Owner

variable {W : World}

/-- Those of the log's entries that can be cancelled and whose cutoff is reached are cancelled, and no
others. -/
def CancelsExpired (p : Identifier) (tip : Nat) (d d' : Rows Key Serializable) : Prop :=
  ∀ q j, entryAt d' q j = (entryAt d q j).map fun t =>
    if q = p ∧ Cancellable t = true ∧ PastCutoff tip t = true then t.cancelled else t

/-- Each of the entries past its cutoff can still be cancelled. -/
def StillCancellable (p : Identifier) (tip : Nat) (txs : List TxLogEntry) (d : Rows Key Serializable) :
    Prop :=
  ∀ t ∈ txs, PastCutoff tip t = true → ∃ r ∈ entryAt d p t.id, Cancellable r = true

theorem cancelExpired_eq (mask : Option SecretKey) (tip : Nat) (tx : TxLogEntry) :
    cancelExpired W mask tip tx = if PastCutoff tip tx = true then (do
      walletLock W
      let parent ← parentKeyId
      Tx.cancelTx W mask parent (some tx.id) none) else pure () := by
  unfold cancelExpired PastCutoff
  cases tx.ttlCutoffHeight with
  | none => rfl
  | some e => by_cases h : tip ≥ e <;> simp [h]

/-- Taking the lock, an expired entry is cancelled by its number in the account. -/
theorem cancelExpired_apply (hW : W.Calm) {mask : Option SecretKey} {tip : Nat} {tx : TxLogEntry}
    {w : Wallet} (he : PastCutoff tip tx = true) (hp : (cancelExpired W mask tip tx w).1 ≠ .error .panic) :
    ∃ w', w'.db = w.db ∧ SameSession w w' ∧
      cancelExpired W mask tip tx w = Tx.cancelTx W mask w.parentKeyId (some tx.id) none w' := by
  rw [cancelExpired_eq, if_pos he] at hp ⊢
  rcases hl : walletLock W w with ⟨e | u, w'⟩
  · rw [Prog.bind_of_error hl] at hp
    obtain rfl : e = .panic := by
      unfold walletLock at hl
      rcases Prog.bind_error.1 hl with h | ⟨t, w₁, -, h⟩
      · cases h
      · split at h
        · cases h
          rfl
        · rw [hW t] at h
          cases h
    exact absurd rfl hp
  · have hs := (hW.lock sameSession_frees).rel hl
    refine ⟨w', (walletLock_sameDb W).rel hl, hs, ?_⟩
    rw [Prog.bind_of_ok hl, ← hs.account]
    rfl

/-- One expired entry that can be cancelled is. -/
theorem cancelExpired_ok (hW : W.Calm) {mask : Option SecretKey} {tip : Nat} {tx r : TxLogEntry}
    {w : Wallet} (hk : LogKeyed w.db) (hopen : ∃ k, unmasked W w mask = .ok k)
    (he : PastCutoff tip tx = true) (hr : entryAt w.db w.parentKeyId tx.id = some r)
    (hc : Cancellable r = true) (hp : (cancelExpired W mask tip tx w).1 ≠ .error .panic) :
    ∃ w', cancelExpired W mask tip tx w = (.ok (), w') ∧ SameSession w w' ∧
      Tx.CancelsAt w.parentKeyId tx.id w.db w'.db := by
  obtain ⟨w₁, hdb, hs, happ⟩ := cancelExpired_apply hW he hp
  have hses := Tx.cancelTx_keeps sameSession_frees W (mem_allRows _) (mem_allRows _) (mem_allRows _)
    mask w.parentKeyId (some tx.id) none w₁
  rw [happ] at hp ⊢
  have hk₁ : LogKeyed w₁.db := hdb ▸ hk
  have hr₁ : entryAt w₁.db w.parentKeyId tx.id = some r := hdb ▸ hr
  have hopen₁ : ∃ k, unmasked W w₁ mask = .ok k := by
    obtain ⟨k, hkey⟩ := hopen
    exact ⟨k, (hs.unmasked mask).trans hkey⟩
  rcases hrun : Tx.cancelTx W mask w.parentKeyId (some tx.id) none w₁ with ⟨(e | -) | u, w'⟩
  · exact absurd hrun (Tx.cancelTx_errless hk₁ hopen₁ hr₁ hc e w')
  · rw [hrun] at hp
    exact absurd rfl hp
  · rw [hrun] at hses
    refine ⟨w', rfl, IsTrans.trans _ _ _ hs hses, ?_⟩
    rw [← hdb]
    exact Tx.cancelTx_cancelsAt hk₁ hr₁ hc hrun

/-- One that cannot be is refused. -/
theorem cancelExpired_refuses (hW : W.Calm) {mask : Option SecretKey} {tip : Nat} {tx : TxLogEntry}
    {w : Wallet} (hk : LogKeyed w.db) (he : PastCutoff tip tx = true)
    (hn : ∀ r ∈ entryAt w.db w.parentKeyId tx.id, Cancellable r = false)
    (hp : (cancelExpired W mask tip tx w).1 ≠ .error .panic) :
    ∃ e w', cancelExpired W mask tip tx w = (.error (.err e), w') := by
  obtain ⟨w₁, hdb, -, happ⟩ := cancelExpired_apply hW he hp
  rw [happ]
  obtain ⟨e, h⟩ := Tx.cancelTx_refuses (W := W) (p := w.parentKeyId) (hdb ▸ hk) (hdb ▸ hn)
  exact ⟨e, w₁, h⟩

theorem stillCancellable_cons {p : Identifier} {tip : Nat} {tx : TxLogEntry} {txs : List TxLogEntry}
    {d : Rows Key Serializable} : StillCancellable p tip (tx :: txs) d ↔
      (PastCutoff tip tx = true → ∃ r ∈ entryAt d p tx.id, Cancellable r = true) ∧
        StillCancellable p tip txs d := List.forall_mem_cons

/-- The entries of a number not cancelled are as they were. -/
theorem stillCancellable_tail {p : Identifier} {tip i : Nat} {txs : List TxLogEntry}
    {d d' : Rows Key Serializable} (h : Tx.CancelsAt p i d d') (hne : ∀ t ∈ txs, i ≠ t.id) :
    StillCancellable p tip txs d' ↔ StillCancellable p tip txs d := by
  have hrow : ∀ t ∈ txs, entryAt d' p t.id = entryAt d p t.id := by
    intro t ht
    rw [h p t.id]
    simp [(hne t ht).symm]
  refine forall₂_congr fun t ht => ?_
  rw [hrow t ht]

/-- The loop cancels every expired entry of the list, or is refused at the first that cannot be. -/
theorem expire_outcome (hW : W.Calm) {mask : Option SecretKey} {tip : Nat} :
    ∀ {txs : List TxLogEntry} {w : Wallet}, LogKeyed w.db → (∃ k, unmasked W w mask = .ok k) →
      (txs.Pairwise fun a b => a.id ≠ b.id) →
      (Prog.forEach txs (cancelExpired W mask tip) w).1 ≠ .error .panic →
      (StillCancellable w.parentKeyId tip txs w.db →
        ∃ w', Prog.forEach txs (cancelExpired W mask tip) w = (.ok (), w') ∧
          ∀ q j, entryAt w'.db q j = (entryAt w.db q j).map fun t =>
            if q = w.parentKeyId ∧ ∃ tx ∈ txs, tx.id = j ∧ PastCutoff tip tx = true then t.cancelled else t) ∧
      (¬StillCancellable w.parentKeyId tip txs w.db →
        ∃ e w', Prog.forEach txs (cancelExpired W mask tip) w = (.error (.err e), w'))
  | [], w, _, _, _, _ => by
    refine ⟨fun _ => ⟨w, rfl, fun q j => ?_⟩, fun h => absurd (fun t ht => by cases ht) h⟩
    simp
  | tx :: txs, w, hk, hopen, hdist, hp => by
    obtain ⟨hne, hdist⟩ := List.pairwise_cons.1 hdist
    by_cases he : PastCutoff tip tx = true
    · have hhead : (cancelExpired W mask tip tx w).1 ≠ .error .panic := by
        intro h
        apply hp
        rw [Prog.forEach, Prog.bind_of_error (Prog.run_eq h)]
      by_cases hcan : ∃ r ∈ entryAt w.db w.parentKeyId tx.id, Cancellable r = true
      · obtain ⟨r, hr, hc⟩ := hcan
        obtain ⟨w₁, hrun, hs, hrows⟩ := cancelExpired_ok hW hk hopen he hr hc hhead
        have hloop : Prog.forEach (tx :: txs) (cancelExpired W mask tip) w =
            Prog.forEach txs (cancelExpired W mask tip) w₁ := by
          rw [Prog.forEach, Prog.bind_of_ok hrun]
        have hopen₁ : ∃ k, unmasked W w₁ mask = .ok k := by
          obtain ⟨k, hkey⟩ := hopen
          exact ⟨k, (hs.unmasked mask).trans hkey⟩
        rw [hloop] at hp ⊢
        obtain ⟨hall, hstop⟩ := expire_outcome hW (hrows.keyed hk) hopen₁ hdist hp
        rw [hs.account, stillCancellable_tail hrows hne] at hall hstop
        have hcons : StillCancellable w.parentKeyId tip (tx :: txs) w.db ↔
            StillCancellable w.parentKeyId tip txs w.db :=
          stillCancellable_cons.trans (and_iff_right fun _ => ⟨r, hr, hc⟩)
        rw [hcons]
        refine ⟨fun h => ?_, hstop⟩
        obtain ⟨w', hrun', hrows'⟩ := hall h
        refine ⟨w', hrun', fun q j => ?_⟩
        rw [hrows' q j, hrows q j, Option.map_map]
        refine congrArg (fun f => (entryAt w.db q j).map f) (funext fun t => ?_)
        by_cases hq : q = w.parentKeyId <;> by_cases hj : j = tx.id
        · have hnone : ¬∃ t ∈ txs, t.id = j ∧ PastCutoff tip t = true := by
            rintro ⟨t, ht, hid, -⟩
            exact hne t ht (hj.symm.trans hid.symm)
          simp [hq, hj, he, hj ▸ hnone]
        · simp [hq, hj, Ne.symm hj]
        · simp [hq]
        · simp [hq]
      · have hnone : ∀ r ∈ entryAt w.db w.parentKeyId tx.id, Cancellable r = false :=
          fun r hr => by simpa using fun h => hcan ⟨r, hr, h⟩
        obtain ⟨e, w', hrun⟩ := cancelExpired_refuses hW hk he hnone hhead
        refine ⟨fun h => absurd (h tx List.mem_cons_self he) hcan, fun _ => ⟨e, w', ?_⟩⟩
        rw [Prog.forEach, Prog.bind_of_error hrun]
    · have hloop : Prog.forEach (tx :: txs) (cancelExpired W mask tip) w =
          Prog.forEach txs (cancelExpired W mask tip) w := by
        rw [Prog.forEach, cancelExpired_eq, if_neg he]
        rfl
      rw [hloop] at hp ⊢
      obtain ⟨hall, hstop⟩ := expire_outcome hW hk hopen hdist hp
      have hcons : StillCancellable w.parentKeyId tip (tx :: txs) w.db ↔
          StillCancellable w.parentKeyId tip txs w.db :=
        stillCancellable_cons.trans (and_iff_right fun h => absurd h he)
      rw [hcons]
      refine ⟨fun h => ?_, hstop⟩
      obtain ⟨w', hrun', hrows'⟩ := hall h
      refine ⟨w', hrun', fun q j => ?_⟩
      rw [hrows' q j]
      simp [he]

/-- With the entries of a refresh at hand, its loop cancels what it should. -/
theorem cancelsExpired_of_rows {mask : Option SecretKey} {p : Identifier} {tip : Nat}
    {txs : List TxLogEntry} {w w' : Wallet} (hready : ReadyToExpire W mask p txs w)
    (hstill : StillCancellable p tip txs w.db)
    (h : ∀ q j, entryAt w'.db q j = (entryAt w.db q j).map fun t =>
      if q = p ∧ ∃ tx ∈ txs, tx.id = j ∧ PastCutoff tip tx = true then t.cancelled else t) :
    CancelsExpired p tip w.db w'.db := by
  have hinj : ∀ a ∈ txs, ∀ b ∈ txs, a.id = b.id → a = b := fun a ha b hb =>
    List.inj_on_of_nodup_map (List.pairwise_map.2 hready.distinct) ha hb
  intro q j
  rw [h q j]
  rcases ht : entryAt w.db q j with _ | t
  · rfl
  refine congrArg some (if_congr (and_congr_right fun hq => ?_) rfl rfl)
  subst hq
  have hid := (hready.keyed _ _ t ht).2
  constructor
  · rintro ⟨tx, htx, rfl, hpast⟩
    obtain ⟨r, hr, hc⟩ := hstill tx htx hpast
    rw [ht] at hr
    cases hr
    obtain rfl := hinj t (hready.complete _ t ht hc) tx htx hid
    exact ⟨hc, hpast⟩
  · rintro ⟨hc, hpast⟩
    exact ⟨t, hready.complete j t ht hc, hid, hpast⟩

/-- A refresh during which nobody switches the account, and which is not stopped, ends without an error
and with exactly the expired entries cancelled if and only if each entry it read that is past its cutoff
can still be cancelled when the cancelling begins. -/
theorem updateWalletState_expires_iff (hW : W.Calm) {mask : Option SecretKey} {txs : List TxLogEntry}
    {tip : Nat} {w w₁ : Wallet} (hk : LogKeyed w.db)
    (hb : beforeExpire W mask w = (.ok (some (txs, tip)), w₁))
    (hp : (updateWalletState W mask w).1 ≠ .error .panic) :
    ((∀ e, (updateWalletState W mask w).1 ≠ .error (.err e)) ∧
      CancelsExpired w.parentKeyId tip w₁.db (updateWalletState W mask w).2.db) ↔
      StillCancellable w.parentKeyId tip txs w₁.db := by
  have hready := ready_of_beforeExpire hW hk hb
  have hrun : updateWalletState W mask w =
      (Prog.forEach txs (cancelExpired W mask tip) >>= fun _ => pure true) w₁ := by
    rw [updateWalletState_expire, Prog.bind_of_ok hb]
    rfl
  rw [hrun] at hp ⊢
  have hloop : (Prog.forEach txs (cancelExpired W mask tip) w₁).1 ≠ .error .panic := by
    intro h
    apply hp
    rw [Prog.bind_of_error (Prog.run_eq h)]
  obtain ⟨hall, hstop⟩ := expire_outcome hW hready.keyed hready.opens hready.distinct hloop
  rw [hready.account] at hall hstop
  constructor
  · rintro ⟨herr, -⟩
    by_contra hn
    obtain ⟨e, w', h⟩ := hstop hn
    refine herr e ?_
    rw [Prog.bind_of_error h]
  · intro hstill
    obtain ⟨w', h, hrows⟩ := hall hstill
    rw [Prog.bind_of_ok h]
    exact ⟨fun e he => (by cases he), cancelsExpired_of_rows hready hstill hrows⟩

/-! ### A payment confirmed by the refresh that would expire it -/

/-- A payment without change that is past its cutoff. -/
def expiredPayment : TxLogEntry :=
  { TxLogEntry.new defaultPath .txSentCreated 0 ⟨0⟩ with
    txSlateId := some ⟨9⟩
    amountDebited := 5
    ttlCutoffHeight := some 3
    kernelExcess := some ⟨1⟩ }

/-- A new wallet that made the payment. -/
def expiringWallet : Wallet :=
  (Batch.saveTxLogEntry expiredPayment defaultPath (Op.created ⟨7⟩ 7 .initNoScanning)).2

/-- The small world where every kernel asked for is on the chain. -/
def minedWorld : World := { World.small with kernel := fun _ _ _ _ => .ok (some ⟨.coinbase, ⟨1⟩, ⟨0⟩⟩) }

theorem expiringWallet_keyed : LogKeyed expiringWallet.db := by
  refine logKeyed_save rfl fun p i t ht => ?_
  rw [Calls.entryAt_new] at ht
  cases ht

/-- The wallet as the cancelling begins, in the small world. -/
def unminedWallet : Wallet := (beforeExpire World.small none expiringWallet).2

theorem updateWalletState_expires_small :
    (∀ e, (updateWalletState World.small none expiringWallet).1 ≠ .error (.err e)) ∧
      CancelsExpired expiringWallet.parentKeyId 10 unminedWallet.db
        (updateWalletState World.small none expiringWallet).2.db := by
  have hb : beforeExpire World.small none expiringWallet =
      (.ok (some ([expiredPayment], 10)), unminedWallet) := by
    unfold unminedWallet
    exact Prog.run_eq (by decide +kernel)
  have hp : (updateWalletState World.small none expiringWallet).1 ≠ .error .panic := by decide +kernel
  refine (updateWalletState_expires_iff (fun _ => rfl) expiringWallet_keyed hb hp).2 ?_
  intro t ht _
  obtain rfl := List.mem_singleton.1 ht
  exact ⟨expiredPayment, by decide +kernel, rfl⟩

/-- The refresh confirms the payment by its kernel, and then fails because it cannot cancel it. -/
theorem confirmed_payment_refused :
    minedWorld.Calm ∧ LogKeyed expiringWallet.db ∧
      (updateWalletState minedWorld none expiringWallet).1 = .error (.err (.transactionNotCancellable "0")) ∧
        ∃ t ∈ entryAt (updateWalletState minedWorld none expiringWallet).2.db defaultPath 0,
          t.confirmed = true :=
  ⟨fun _ => rfl, expiringWallet_keyed, by decide +kernel, by decide +kernel⟩

end Owner

end EpicWallet
