import EpicWallet.Lib.Triple
import EpicWallet.Libwallet.Proof.Touches

/-!
# The transaction log

What the calls do to the entries of the log, stated once for all invariants of it. A `Policy` says
which changes of an entry and which new entries are allowed; `Logged κ d₀` holds of a wallet whose log
came from the log of `d₀` by allowed changes. Every function that writes entries has one triple with
this assertion; the others leave the log alone (`SameLog`).
-/

namespace EpicWallet

open Lib WalletBackend

/-! ## Entries by account and number -/

/-- The entry stored under an account and a number. -/
def entryAt (d : Rows Key Serializable) (p : Identifier) (i : Nat) : Option TxLogEntry :=
  (d.get (.txLogEntry p i)).bind Serializable.asTxLogEntry

/-- The number the next entry of an account gets. -/
def logCounter (d : Rows Key Serializable) (p : Identifier) : Nat := asU32 (numericOf d (.txLogId p))

theorem entryAt_eq {d : Rows Key Serializable} {p : Identifier} {i : Nat} {t : TxLogEntry} :
    entryAt d p i = some t ↔ d.get (.txLogEntry p i) = some (.txLogEntry t) := by
  unfold entryAt
  rw [Option.bind_eq_some_iff]
  constructor
  · rintro ⟨v, hv, ht⟩
    rw [hv, Serializable.asTxLogEntry_eq.1 ht]
  · intro h
    exact ⟨_, h, rfl⟩

theorem mem_txLogOf_iff {d : Rows Key Serializable} {t : TxLogEntry} :
    t ∈ txLogOf d ↔ ∃ p i, entryAt d p i = some t := by
  simp only [mem_txLogOf, entryAt_eq]

/-! ## Policies -/

/-- Which changes of the log are allowed. With `counted`, every number in use lies below the counter
of its account, so that new entries never replace old ones. -/
structure Policy where
  change : TxLogEntry → TxLogEntry → Prop
  create : TxLogEntry → Prop
  counted : Prop
  refl : ∀ t, change t t
  trans : ∀ {a b c}, change a b → change b c → change a c
  createChange : ∀ {a b}, create a → change a b → create b

/-- Calls for account `p` may add entries, confirm and cancel. -/
structure Policy.Serves (κ : Policy) (p : Identifier) : Prop where
  create : ∀ {t}, t.parentKeyId = p → κ.create t
  replace : ¬κ.counted → ∀ {a b}, a.parentKeyId = p → b.parentKeyId = p → κ.change a b
  confirm : ∀ {t now height}, t.parentKeyId = p →
    κ.change t (Updater.confirmedEntry t now height)
  cancel : ∀ {t : TxLogEntry}, t.parentKeyId = p → t.txType = .txSentCreated ∨ t.txType = .txReceived →
    t.confirmed = false → κ.change t { t with txType := Updater.cancelledType t.txType }

/-- A refresh of account `p` adds entries without a slate, for coinbase outputs, and confirms. -/
structure Policy.Refreshes (κ : Policy) (p : Identifier) : Prop where
  create : ∀ {t}, t.parentKeyId = p → t.txSlateId = none → κ.create t
  replace : ¬κ.counted → ∀ {a b}, a.parentKeyId = p → b.parentKeyId = p → κ.change a b
  confirm : ∀ {t now height}, t.parentKeyId = p →
    κ.change t (Updater.confirmedEntry t now height)

theorem Policy.Serves.refreshes {κ : Policy} {p : Identifier} (h : κ.Serves p) : κ.Refreshes p :=
  ⟨fun hp _ => h.create hp, h.replace, h.confirm⟩

variable {κ : Policy} {d₀ : Rows Key Serializable}

/-- Every entry is stored under its own account and number. -/
structure LogOk (κ : Policy) (d : Rows Key Serializable) : Prop where
  keyed : ∀ {p i t}, entryAt d p i = some t → t.parentKeyId = p ∧ t.id = i
  below : κ.counted → ∀ {p i t}, entryAt d p i = some t → i < logCounter d p

/-- The log of `d` came from that of `d₀` by allowed changes. -/
structure Follows (κ : Policy) (d₀ d : Rows Key Serializable) : Prop where
  changed : ∀ {p i t}, entryAt d₀ p i = some t → ∃ t', entryAt d p i = some t' ∧ κ.change t t'
  created : ∀ {p i t}, entryAt d p i = some t → entryAt d₀ p i = none → κ.create t

theorem Follows.refl (κ : Policy) (d : Rows Key Serializable) : Follows κ d d :=
  ⟨fun {_ _ t} h => ⟨t, h, κ.refl t⟩, fun h hn => by rw [h] at hn; cases hn⟩

theorem Follows.trans {d d' : Rows Key Serializable} (h : Follows κ d₀ d) (h' : Follows κ d d') :
    Follows κ d₀ d' := by
  refine ⟨fun {p i t} ht => ?_, fun {p i t} ht hn => ?_⟩
  · obtain ⟨t', ht', hc⟩ := h.changed ht
    obtain ⟨t'', ht'', hc'⟩ := h'.changed ht'
    exact ⟨t'', ht'', κ.trans hc hc'⟩
  · rcases he : entryAt d p i with _ | t'
    · exact h'.created ht he
    · obtain ⟨t'', ht'', hc⟩ := h'.changed he
      rw [ht] at ht''
      cases ht''
      exact κ.createChange (h.created he hn) hc

/-- The log is well formed and came from that of `d₀`. -/
structure Logged (κ : Policy) (d₀ : Rows Key Serializable) (w : Wallet) : Prop where
  ok : LogOk κ w.db
  follows : Follows κ d₀ w.db

/-- The step keeps the log well formed and changes it as allowed. -/
def LogStep (κ : Policy) (w w' : Wallet) : Prop := ∀ d₀, Logged κ d₀ w → Logged κ d₀ w'

instance : Std.Refl (LogStep κ) := ⟨fun _ _ h => h⟩

instance : IsTrans Wallet (LogStep κ) := ⟨fun _ _ _ h h' d hw => h' d (h d hw)⟩

theorem keeps_logged {α : Type} {p : WalletM α} (h : Prog.Keeps (LogStep κ) p) :
    Prog.Triple (Logged κ d₀) p (fun _ => Logged κ d₀) (Logged κ d₀) :=
  Prog.triple_inv.2 fun w => h w d₀

theorem reads_logged {α : Type} {p : WalletM α} (h : Prog.Reads p) :
    Prog.Triple (Logged κ d₀) p (fun _ => Logged κ d₀) (Logged κ d₀) := keeps_logged h.keeps

/-! ## Steps that leave the log alone -/

/-- Entries and counters are the same. -/
structure SameLog (w w' : Wallet) : Prop where
  entry : ∀ p i, entryAt w'.db p i = entryAt w.db p i
  counter : ∀ p, logCounter w'.db p = logCounter w.db p

instance : Std.Refl SameLog := ⟨fun _ => ⟨fun _ _ => rfl, fun _ => rfl⟩⟩

instance : IsTrans Wallet SameLog where
  trans _ _ _ h h' := ⟨fun p i => (h'.entry p i).trans (h.entry p i),
    fun p => (h'.counter p).trans (h.counter p)⟩

/-- The kinds of rows that are not of the log. -/
def notLogRows : List RowKind :=
  [.output, .history, .deriv, .height, .context, .account, .scanned, .status]

theorem sameLog_of_rows {w w' : Wallet} (h : ∀ k, k.kind ∉ notLogRows → w'.db.get k = w.db.get k) :
    SameLog w w' := by
  refine ⟨fun p i => ?_, fun p => ?_⟩
  · unfold entryAt
    rw [h (.txLogEntry p i) (by simp [Key.kind, notLogRows])]
  · unfold logCounter numericOf
    rw [h (.txLogId p) (by simp [Key.kind, notLogRows])]

theorem sameLog_of_touches {w w' : Wallet} (h : Touches notLogRows w w') : SameLog w w' :=
  sameLog_of_rows h

theorem SameLog.logged {w w' : Wallet} (hs : SameLog w w') (h : Logged κ d₀ w) : Logged κ d₀ w' := by
  refine ⟨⟨fun {p i t} ht => ?_, fun hc {p i t} ht => ?_⟩, ⟨fun {p i t} ht => ?_, fun {p i t} ht hn => ?_⟩⟩
  · rw [hs.entry] at ht
    exact h.ok.keyed ht
  · rw [hs.entry] at ht
    rw [hs.counter]
    exact h.ok.below hc ht
  · rw [hs.entry]
    exact h.follows.changed ht
  · rw [hs.entry] at ht
    exact h.follows.created ht hn

theorem logStep_frees (κ : Policy) : Frees (LogStep κ) notLogRows where
  aside _ _ h _ hw := (sameLog_of_touches ((touches_frees _).aside _ _ h)).logged hw
  files _ _ _ hw := (sameLog_of_touches ((touches_frees _).files _ _)).logged hw
  puts k hk v hv _ _ hw := (sameLog_of_touches ((touches_frees _).puts k hk v hv _)).logged hw
  erases k hk _ _ hw := (sameLog_of_touches ((touches_frees _).erases k hk _)).logged hw

theorem walletLock_logStep (W : World) : Prog.Keeps (LogStep κ) (walletLock W) :=
  (walletLock_touches W (S := [])).mono fun _ _ h _ hw =>
    (sameLog_of_rows fun k _ => h k (by simp)).logged hw

/-! ## Writing entries -/

theorem entryAt_put (d : Rows Key Serializable) (p q : Identifier) (i j : Nat) (t : TxLogEntry) :
    entryAt (d.put (.txLogEntry p i) (.txLogEntry t)) q j =
      if q = p ∧ j = i then some t else entryAt d q j := by
  unfold entryAt
  rw [Rows.get_put]
  by_cases h : q = p ∧ j = i
  · obtain ⟨rfl, rfl⟩ := h
    simp [Serializable.asTxLogEntry]
  · rw [if_neg h, if_neg (by simpa using h)]

theorem logCounter_put_entry (d : Rows Key Serializable) (p q : Identifier) (i : Nat)
    (v : Serializable) : logCounter (d.put (.txLogEntry p i) v) q = logCounter d q := by
  unfold logCounter numericOf
  rw [Rows.get_put_ne _ _ (by simp)]

/-- What a write of an entry must meet: the entry is stored under its account, its number was handed
out, and what it replaces may change so. -/
theorem saveTxLogEntry_logged {t : TxLogEntry} {p : Identifier} {w : Wallet} (h : Logged κ d₀ w)
    (hp : t.parentKeyId = p) (hid : κ.counted → t.id < logCounter w.db p)
    (hold : ∀ t₀, entryAt w.db p t.id = some t₀ → κ.change t₀ t)
    (hnew : entryAt w.db p t.id = none → κ.create t) :
    Logged κ d₀ (Batch.saveTxLogEntry t p w).2 := by
  unfold Batch.saveTxLogEntry put
  split
  · dsimp only
    have hw : Follows κ w.db (w.db.put (.txLogEntry p t.id) (.txLogEntry t)) := by
      refine ⟨fun {q i t₀} ht => ?_, fun {q i t₀} ht hn => ?_⟩
      · rw [entryAt_put]
        split
        · obtain ⟨rfl, rfl⟩ := ‹q = p ∧ i = t.id›
          exact ⟨t, rfl, hold t₀ ht⟩
        · exact ⟨t₀, ht, κ.refl t₀⟩
      · rw [entryAt_put] at ht
        split at ht
        · obtain ⟨rfl, rfl⟩ := ‹q = p ∧ i = t.id›
          cases ht
          exact hnew hn
        · rw [hn] at ht
          cases ht
    refine ⟨⟨fun {q i t₀} ht => ?_, fun hc {q i t₀} ht => ?_⟩, h.follows.trans hw⟩
    · dsimp only at ht
      rw [entryAt_put] at ht
      split at ht
      · obtain ⟨rfl, rfl⟩ := ‹q = p ∧ i = t.id›
        cases ht
        exact ⟨hp, rfl⟩
      · exact h.ok.keyed ht
    · dsimp only at ht ⊢
      rw [logCounter_put_entry]
      rw [entryAt_put] at ht
      split at ht
      · obtain ⟨rfl, rfl⟩ := ‹q = p ∧ i = t.id›
        exact hid hc
      · exact h.ok.below hc ht
  · exact h

/-! ## New entries -/

/-- The number `n` was handed out for a new entry of account `p`. -/
structure Reserved (κ : Policy) (d₀ : Rows Key Serializable) (p : Identifier) (n : Nat) (w : Wallet) :
    Prop where
  logged : Logged κ d₀ w
  fresh : κ.counted → n < logCounter w.db p ∧ entryAt w.db p n = none

theorem SameLog.reserved {p : Identifier} {n : Nat} {w w' : Wallet} (hs : SameLog w w')
    (h : Reserved κ d₀ p n w) : Reserved κ d₀ p n w' := by
  refine ⟨hs.logged h.logged, fun hc => ?_⟩
  rw [hs.counter, hs.entry]
  exact h.fresh hc

theorem keeps_reserved {α : Type} {prog : WalletM α} (h : Prog.Keeps SameLog prog) {p : Identifier}
    {n : Nat} : Prog.Triple (Reserved κ d₀ p n) prog (fun _ => Reserved κ d₀ p n) (Logged κ d₀) :=
  h.triple (fun _ _ _ hw hs => hs.reserved hw) fun _ _ hw hs => hs.logged hw.logged

/-- The number `n` of account `p` is handed out: the entries stay as they were, and one counter moves on. -/
structure HandsOut (p : Identifier) (n : Nat) (w w' : Wallet) : Prop where
  number : n = logCounter w.db p
  next : logCounter w'.db p = n + 1
  entry : ∀ q i, entryAt w'.db q i = entryAt w.db q i
  counter : ∀ q, logCounter w.db q ≤ logCounter w'.db q

theorem handsOut_of_sets {p : Identifier} {n : Nat} {w w' : Wallet} (hn : n = logCounter w.db p)
    (hlt : n + 1 < u32Size) (hset : Sets (.txLogId p) (some (.numeric (n + 1))) w w') :
    HandsOut p n w w' := by
  have hself : logCounter w'.db p = n + 1 := by
    unfold logCounter numericOf
    rw [hset.get_self]
    exact Nat.mod_eq_of_lt hlt
  refine ⟨hn, hself, fun q i => ?_, fun q => ?_⟩
  · unfold entryAt
    rw [hset.get_ne (.txLogEntry q i) (by simp) rfl]
  · by_cases hq : q = p
    · subst q
      omega
    · unfold logCounter numericOf
      rw [hset.get_ne (.txLogId q) (by simpa using hq) rfl]

/-- A number is handed out, or nothing is done. -/
theorem nextTxLogId_handsOut (p : Identifier) (P : Wallet → Prop) :
    Prog.Triple P (Batch.nextTxLogId p) (fun n w' => ∃ w, P w ∧ HandsOut p n w w') P := by
  apply Prog.Triple.intro
  · intro w n w' h hrun
    obtain ⟨hn, hlt, hset⟩ := Batch.nextTxLogId_ok hrun
    exact ⟨w, h, handsOut_of_sets hn hlt hset⟩
  · intro w e w' h hrun
    rcases Prog.bind_error.1 hrun with hr | ⟨d, w₁, hr, hrest⟩
    · cases hr
    cases hr
    rcases Prog.bind_error.1 hrest with ha | ⟨n, w₂, ha, hput⟩
    · rw [(addU32_reads _ _).eq ha]
      exact h
    rw [(addU32_reads _ _).eq ha] at hput
    rcases Prog.bind_error.1 hput with hp | ⟨_, w₃, -, hpure⟩
    · unfold put at hp
      split at hp
      · cases hp
      · cases hp
        exact h
    · cases hpure

theorem logged_of_handed {p : Identifier} {n : Nat} {w w' : Wallet} (h : Logged κ d₀ w)
    (hh : HandsOut p n w w') : Reserved κ d₀ p n w' := by
  obtain ⟨hn, hself, hentry, hcounter⟩ := hh
  refine ⟨⟨⟨fun {q i t} ht => ?_, fun hc {q i t} ht => ?_⟩, ⟨fun {q i t} ht => ?_, fun {q i t} ht hnone => ?_⟩⟩,
    fun hc => ⟨by omega, ?_⟩⟩
  · rw [hentry] at ht
    exact h.ok.keyed ht
  · rw [hentry] at ht
    exact Nat.lt_of_lt_of_le (h.ok.below hc ht) (hcounter q)
  · rw [hentry]
    exact h.follows.changed ht
  · rw [hentry] at ht
    exact h.follows.created ht hnone
  · rcases he : entryAt w.db p n with _ | t
    · rw [hentry, he]
    · have := h.ok.below hc he
      omega

theorem nextTxLogId_triple (p : Identifier) :
    Prog.Triple (Logged κ d₀) (Batch.nextTxLogId p) (Reserved κ d₀ p) (Logged κ d₀) :=
  (nextTxLogId_handsOut p _).mono (fun _ h => h) (fun _ _ ⟨_, h, hh⟩ => logged_of_handed h hh) fun _ h => h

/-- A new entry under a number handed out for it. -/
theorem saveCreated_triple {t : TxLogEntry} {p : Identifier} {n : Nat} (hc : κ.create t)
    (hr : ¬κ.counted → ∀ {a b}, a.parentKeyId = p → b.parentKeyId = p → κ.change a b) (hid : t.id = n)
    (hp : t.parentKeyId = p) :
    Prog.Triple (Reserved κ d₀ p n) (Batch.saveTxLogEntry t p) (fun _ => Logged κ d₀)
      (Logged κ d₀) := by
  subst hid
  refine Prog.triple_state fun w h => ?_
  refine saveTxLogEntry_logged h.logged hp (fun hk => (h.fresh hk).1) (fun t₀ ht₀ => ?_) fun _ => hc
  by_cases hk : κ.counted
  · rw [(h.fresh hk).2] at ht₀
    cases ht₀
  · exact hr hk (h.logged.ok.keyed ht₀).1 hp

theorem saveNew_triple {t : TxLogEntry} {p : Identifier} {n : Nat} (hκ : κ.Serves p) (hid : t.id = n)
    (hp : t.parentKeyId = p) :
    Prog.Triple (Reserved κ d₀ p n) (Batch.saveTxLogEntry t p) (fun _ => Logged κ d₀)
      (Logged κ d₀) := saveCreated_triple (hκ.create hp) hκ.replace hid hp

/-! ## Entries read and written back -/

/-- The entry is stored. -/
def Stored (d : Rows Key Serializable) (t : TxLogEntry) : Prop :=
  entryAt d t.parentKeyId t.id = some t

/-- The log is as `Logged` says, and the entries of the list are stored in it. -/
structure Holding (κ : Policy) (d₀ : Rows Key Serializable) (l : List TxLogEntry) (w : Wallet) :
    Prop where
  logged : Logged κ d₀ w
  stored : ∀ t ∈ l, Stored w.db t

theorem SameLog.holding {l : List TxLogEntry} {w w' : Wallet} (hs : SameLog w w')
    (h : Holding κ d₀ l w) : Holding κ d₀ l w' := by
  refine ⟨hs.logged h.logged, fun t ht => ?_⟩
  unfold Stored
  rw [hs.entry]
  exact h.stored t ht

theorem keeps_holding {α : Type} {prog : WalletM α} (h : Prog.Keeps SameLog prog)
    {l : List TxLogEntry} :
    Prog.Triple (Holding κ d₀ l) prog (fun _ => Holding κ d₀ l) (Logged κ d₀) :=
  h.triple (fun _ _ _ hw hs => hs.holding hw) fun _ _ hw hs => hs.logged hw.logged

theorem reads_holding {α : Type} {prog : WalletM α} (h : Prog.Reads prog) {l : List TxLogEntry} :
    Prog.Triple (Holding κ d₀ l) prog (fun _ => Holding κ d₀ l) (Logged κ d₀) := keeps_holding h.keeps

theorem stored_of_mem {w : Wallet} (h : Logged κ d₀ w) {t : TxLogEntry} (ht : t ∈ txLogOf w.db) :
    Stored w.db t := by
  obtain ⟨p, i, hg⟩ := mem_txLogOf_iff.1 ht
  obtain ⟨rfl, rfl⟩ := h.ok.keyed hg
  exact hg

/-- An entry that is stored may be replaced by one it may change to. -/
theorem saveChanged {t₀ t : TxLogEntry} {w : Wallet} (h : Logged κ d₀ w) (hst : Stored w.db t₀)
    (hp : t.parentKeyId = t₀.parentKeyId) (hid : t.id = t₀.id) (hc : κ.change t₀ t) :
    Logged κ d₀ (Batch.saveTxLogEntry t t₀.parentKeyId w).2 := by
  unfold Stored at hst
  refine saveTxLogEntry_logged h hp (fun hk => ?_) (fun t₁ ht₁ => ?_) fun hn => ?_
  · rw [hid]
    exact h.ok.below hk hst
  · rw [hid, hst] at ht₁
    cases ht₁
    exact hc
  · rw [hid, hst] at hn
    cases hn

theorem saveChanged_triple {t₀ t : TxLogEntry} {p : Identifier} {l : List TxLogEntry} (hl : t₀ ∈ l)
    (hp₀ : t₀.parentKeyId = p) (hp : t.parentKeyId = p) (hid : t.id = t₀.id) (hc : κ.change t₀ t) :
    Prog.Triple (Holding κ d₀ l) (Batch.saveTxLogEntry t p) (fun _ => Logged κ d₀) (Logged κ d₀) := by
  subst hp₀
  exact Prog.triple_state fun w h => saveChanged h.logged (h.stored t₀ hl) hp hid hc

/-- The entries `retrieve_txs` returns are stored. -/
theorem retrieveTxs_triple (txId : Option Nat) (txSlateId : Option Uuid) (parent : Option Identifier)
    (outstandingOnly : Bool) (sortOrder : Option String) :
    Prog.Triple (Logged κ d₀) (Updater.retrieveTxs txId txSlateId parent outstandingOnly none none
      sortOrder) (fun r w => Holding κ d₀ r.2.2 w ∧
        ∀ t ∈ r.2.2, t ∈ Updater.selectedTxs w.db txId txSlateId parent outstandingOnly)
      (Logged κ d₀) := by
  refine (Updater.retrieveTxs_reads _ _ _ _ _ _ _).triple (fun w r h hrun => ?_) fun _ h => h
  obtain ⟨n, l, hl, hmem⟩ := Updater.retrieveTxs_all txId txSlateId parent outstandingOnly sortOrder w
  rw [hl] at hrun
  cases hrun
  refine ⟨⟨h, fun t ht => ?_⟩, fun t ht => (hmem t).1 ht⟩
  exact stored_of_mem h (Updater.mem_selectedTxs.1 ((hmem t).1 ht)).1

theorem txLogIter_triple : Prog.Triple (Logged κ d₀) txLogIter
    (fun l w => Holding κ d₀ l w ∧ l = txLogOf w.db) (Logged κ d₀) := by
  refine txLogIter_reads.triple (fun w l h hrun => ?_) fun _ h => h
  cases hrun
  exact ⟨⟨h, fun t ht => stored_of_mem h ht⟩, rfl⟩

theorem sameLog_frees : Frees SameLog notLogRows where
  aside _ _ h := sameLog_of_touches ((touches_frees _).aside _ _ h)
  files _ _ := sameLog_of_touches ((touches_frees _).files _ _)
  puts k hk v hv _ := sameLog_of_touches ((touches_frees _).puts k hk v hv _)
  erases k hk _ := sameLog_of_touches ((touches_frees _).erases k hk _)

/-! ## What a policy lets the calls do -/

/-- The entry without what is annotated once the slate comes back: messages, address, kernel and
payment proof. -/
def TxLogEntry.core (t : TxLogEntry) : TxLogEntry :=
  { t with messages := none, publicAddr := none, kernelExcess := none, paymentProof := none }

/-- The entry may be annotated. -/
def Policy.Annotates (κ : Policy) (t : TxLogEntry) : Prop :=
  ∀ t' : TxLogEntry, t'.core = t.core → κ.change t t'

/-! ## Locking and receiving -/

namespace Selection

variable (W : World)

theorem lockInput_sameLog (logId acc : Nat) (i : Identifier × Option Nat × Nat) :
    Prog.Keeps SameLog (lockInput logId acc i) :=
  (getOutput_reads _ _).keeps.orPanic.bind fun _ => (addU64_reads _ _).keeps.bind fun _ =>
    (Batch.save_keeps sameLog_frees (by decide) (by decide) _).bind fun _ => .pure _

theorem saveChange_sameLog (parent : Identifier) (height logId : Nat)
    (commits : Rows Identifier (Option String × Nat)) (t : TxLogEntry)
    (i : Identifier × Option Nat × Nat) :
    Prog.Keeps SameLog (saveChange parent height logId commits t i) :=
  (Prog.Keeps.unwrap _).bind fun _ => (addU64_reads _ _).keeps.bind fun _ =>
    (Batch.save_keeps sameLog_frees (by decide) (by decide) _).bind fun _ => .pure _

/-- A change output leaves the account and the number of the entry alone. -/
theorem saveChange_reserved {parent p : Identifier} {height logId n : Nat}
    {commits : Rows Identifier (Option String × Nat)} {t : TxLogEntry}
    {i : Identifier × Option Nat × Nat} :
    Prog.Triple (fun w => Reserved κ d₀ p n w ∧ t.id = n ∧ t.parentKeyId = p)
      (saveChange parent height logId commits t i)
      (fun t w => Reserved κ d₀ p n w ∧ t.id = n ∧ t.parentKeyId = p) (Logged κ d₀) := by
  refine .of_and fun ht => ?_
  refine (keeps_reserved (Prog.Keeps.unwrap _)).bind fun _ =>
    (keeps_reserved (addU64_reads _ _).keeps).bind fun _ => (keeps_reserved
      (Batch.save_keeps sameLog_frees (by decide) (by decide) _)).bind fun _ => .pure fun w h => ?_
  exact ⟨h, ht⟩

theorem lockRows_logged {mask : Option SecretKey} {slate : Slate} {context : Context}
    {addrTo : Option String} {k : Keychain} {commits : Rows Identifier (Option String × Nat)}
    (hκ : κ.Serves context.parentKeyId) :
    Prog.Triple (Logged κ d₀) (lockRows W mask slate context addrTo k commits)
      (fun _ => Logged κ d₀) (Logged κ d₀) := by
  refine (reads_logged (batch_reads W mask)).bind fun _ => (nextTxLogId_triple _).bind fun logId =>
    (keeps_reserved sameLog_frees.nextTick).bind fun tick => ?_
  refine (keeps_reserved (Prog.Keeps.foldlM _ _ fun _ _ _ => lockInput_sameLog _ _ _)).bind
    fun amountDebited => (keeps_reserved (storedProofInfo_reads W _ _ _).keeps).bind fun proof => ?_
  refine Prog.Triple.bind (R := fun t w => Reserved κ d₀ context.parentKeyId logId w ∧ t.id = logId ∧
    t.parentKeyId = context.parentKeyId) ?_ fun t => .of_and fun ht => ?_
  · refine (Prog.Triple.foldlM (I := fun _ t w => Reserved κ d₀ context.parentKeyId logId w ∧
      t.id = logId ∧ t.parentKeyId = context.parentKeyId) fun _ _ _ => saveChange_reserved).mono
        (fun _ h => ⟨h, rfl, rfl⟩) (fun _ _ h => h) fun _ h => h
  · obtain ⟨rfl, hp⟩ := ht
    exact (saveNew_triple hκ rfl hp).bind fun _ => (reads_logged (.pure _)).bind fun _ =>
      reads_logged (.pure _)

theorem lockTxContext_logged {mask : Option SecretKey} {slate : Slate} {context : Context}
    {addrTo : Option String}
    (hκ : κ.Serves context.parentKeyId) :
    Prog.Triple (Logged κ d₀) (lockTxContext W mask slate context addrTo) (fun _ => Logged κ d₀)
      (Logged κ d₀) :=
  (reads_logged (outputCommits_reads W mask _)).bind fun _ => (reads_logged (keychain_reads W mask)).bind
    fun _ => (lockRows_logged W hκ).bind fun _ => (reads_logged (Prog.Keeps.unwrap _)).bind fun _ =>
      keeps_logged (storeTx_keeps (logStep_frees κ) W _ _)

theorem buildRecipientOutput_logged {mask : Option SecretKey} {slate : Slate} {parent : Identifier}
    (hκ : κ.Serves parent) :
    Prog.Triple (Logged κ d₀) (buildRecipientOutput W mask slate parent) (fun _ => Logged κ d₀)
      (Logged κ d₀) := by
  refine (keeps_logged (nextChild_keeps (logStep_frees κ) W (by decide) mask).orPanic).bind fun _ =>
    (reads_logged (keychain_reads W mask)).bind fun _ => (reads_logged (Prog.Keeps.ofExcept _)).bind
      fun s => (reads_logged (keychain_reads W mask)).bind fun _ => ?_
  refine (keeps_logged ((newContext_aside W _ _ _).mono (logStep_frees κ).aside)).bind fun _ =>
    (reads_logged (calcCommitForCache_reads W _ _ _)).bind fun _ =>
      (reads_logged (batch_reads W mask)).bind fun _ => (nextTxLogId_triple _).bind fun logId => ?_
  refine (keeps_reserved sameLog_frees.nextTick).bind fun tick => (keeps_reserved
    (Batch.save_keeps sameLog_frees (by decide) (by decide) _)).bind fun _ => ?_
  refine Prog.Triple.bind (saveNew_triple hκ ?_ ?_) fun _ => (reads_logged (.pure _)).bind fun _ =>
    reads_logged (.pure _)
  · rfl
  · rfl

end Selection

/-! ## Refreshing and rolling back -/

namespace Updater

variable (W : World) {p : Identifier}

theorem cancelTxAndOutputs_logged {mask : Option SecretKey} {tx : TxLogEntry}
    {outputs : List OutputData} {l : List TxLogEntry} (htx : tx ∈ l) (hp : tx.parentKeyId = p)
    (hc : κ.change tx { tx with txType := cancelledType tx.txType }) :
    Prog.Triple (Holding κ d₀ l) (cancelTxAndOutputs W mask tx outputs p) (fun _ => Logged κ d₀)
      (Logged κ d₀) := by
  refine (reads_holding (batch_reads W mask)).bind fun _ => Prog.Triple.bind
    (keeps_holding (Prog.Keeps.forEach _ fun o _ => Prog.Keeps.bind ?_ fun _ => ?_)) fun _ =>
      Prog.Triple.bind (saveChanged_triple htx hp ?_ ?_ hc) fun _ => reads_logged (.pure _)
  · exact .ite (fun _ => Batch.delete_keeps sameLog_frees (by decide) (by decide) _ _ _)
      fun _ => .pure _
  · exact .ite (fun _ => Batch.save_keeps sameLog_frees (by decide) (by decide) _) fun _ => .pure _
  · exact hp
  · rfl

theorem confirmCoinbase_logged (hκ : κ.Refreshes p) (height : Nat) (commit : Commitment)
    (output : OutputData) :
    Prog.Triple (Logged κ d₀) (confirmCoinbase W p height commit output) (fun _ => Logged κ d₀)
      (Logged κ d₀) := by
  refine (nextTxLogId_triple p).bind fun logId => (keeps_reserved sameLog_frees.nextTick).bind
    fun _ => (keeps_reserved (Prog.Keeps.ofExcept _)).bind fun _ =>
      (keeps_reserved (Prog.Keeps.ofExcept _)).bind fun _ =>
        (keeps_reserved sameLog_frees.nextTick).bind fun _ => ?_
  exact Prog.Triple.bind (saveCreated_triple (hκ.create rfl rfl) hκ.replace rfl rfl) fun _ =>
    reads_logged (.pure _)

theorem confirmEntry_logged (hκ : κ.Refreshes p) (height : Nat) (output : OutputData) :
    Prog.Triple (Logged κ d₀) (confirmEntry W p height output) (fun _ => Logged κ d₀)
      (Logged κ d₀) := by
  refine txLogIter_triple.bind fun l => ?_
  rcases hf : l.find? fun t => decide (some t.id = output.txLogEntry ∧ t.parentKeyId = p) with _ | t
  · rw [hf]
    exact .pure fun _ h => h.1.logged
  · rw [hf]
    have hp : t.parentKeyId = p := by
      have := List.find?_some hf
      simp only [decide_eq_true_eq] at this
      exact this.2
    refine Prog.Triple.mono (P := Holding κ d₀ l) ?_ (fun _ h => h.1) (fun _ _ h => h) fun _ h => h
    refine (keeps_holding sameLog_frees.nextTick).bind fun _ => ?_
    exact saveChanged_triple (List.mem_of_find?_eq_some hf) hp hp rfl (hκ.confirm hp)

theorem confirmOutput_logged (hκ : κ.Refreshes p) (height onChain : Nat) (commit : Commitment)
    (output : OutputData) :
    Prog.Triple (Logged κ d₀) (confirmOutput W p height onChain commit output) (fun _ => Logged κ d₀)
      (Logged κ d₀) := by
  refine Prog.Triple.bind (R := fun _ => Logged κ d₀)
    (.ite (fun _ => confirmCoinbase_logged W hκ _ _ _) fun _ => reads_logged (.pure _)) fun o => ?_
  refine Prog.Triple.bind (R := fun _ => Logged κ d₀)
    (.ite (fun _ => confirmEntry_logged W hκ _ _) fun _ => reads_logged (.pure _)) fun _ => ?_
  exact reads_logged (.pure _)

theorem applyApiOutput_logged (hκ : κ.Refreshes p) (api : List (Commitment × String × Nat × Nat))
    (height : Nat) (row : Commitment × Identifier × Option Nat) :
    Prog.Triple (Logged κ d₀) (applyApiOutput W api height p row) (fun _ => Logged κ d₀)
      (Logged κ d₀) := by
  refine (keeps_logged (getOutput_reads _ _).keeps.attempt).bind fun r => ?_
  split
  · exact reads_logged (.pure _)
  · refine Prog.Triple.bind (R := fun _ => Logged κ d₀) ?_ fun _ =>
      keeps_logged (Batch.save_keeps (logStep_frees κ) (by decide) (by decide) _)
    split
    · exact confirmOutput_logged W hκ _ _ _ _
    · exact reads_logged (.pure _)

theorem refreshOutputs_logged (hκ : κ.Refreshes p) (mask : Option SecretKey) :
    Prog.Triple (Logged κ d₀) (refreshOutputs W mask p) (fun _ => Logged κ d₀) (Logged κ d₀) := by
  have hF := logStep_frees κ
  refine (keeps_logged (getNodeStatus_keeps hF W)).bind fun _ =>
    .ite (fun _ => .throw fun _ h => h) fun _ => (keeps_logged (getChainTip_keeps hF W)).bind fun tip =>
      (reads_logged (mapWalletOutputs_reads W _ _)).bind fun _ => ?_
  refine (keeps_logged hF.nextTick).bind fun _ => (reads_logged (Prog.Keeps.ofExcept _)).bind fun api => ?_
  refine Prog.Triple.bind (R := fun _ => Logged κ d₀) ?_ fun _ =>
    keeps_logged (cleanOldUnconfirmed_keeps hF W (by decide) (by decide) _ _)
  refine (reads_logged lastConfirmedHeight_reads).bind fun _ =>
    .ite (fun _ => reads_logged (.pure _)) fun _ => ?_
  refine (reads_logged (batch_reads W mask)).bind fun _ => (keeps_logged hF.nextTick).bind fun _ => ?_
  refine (Prog.Triple.forEach fun _ _ => applyApiOutput_logged W hκ _ _ _).bind fun _ => ?_
  exact (keeps_logged (Batch.saveLastConfirmedHeight_keeps hF (by decide) _ _)).bind fun _ =>
    reads_logged (.pure _)

end Updater

/-! ## Transactions -/

namespace Tx

variable (W : World) {p : Identifier}

theorem estimateSendTx_logged (hκ : κ.Refreshes p) (mask : Option SecretKey)
    (amount minimumConfirmations maxOutputs numChangeOutputs : Nat) (selectAll : Bool) :
    Prog.Triple (Logged κ d₀) (estimateSendTx W mask amount minimumConfirmations maxOutputs
      numChangeOutputs selectAll p) (fun _ => Logged κ d₀) (Logged κ d₀) :=
  (keeps_logged (Updater.getChainTip_keeps (logStep_frees κ) W)).bind fun _ =>
    (Updater.refreshOutputs_logged W hκ mask).bind fun _ =>
      (reads_logged (Selection.selectCoinsAndFee_reads W _ _ _ _ _ _ _)).bind fun _ =>
        reads_logged (.pure _)

theorem addInputsToSlate_logged (hκ : κ.Refreshes p) (mask : Option SecretKey) (slate : Slate)
    (minimumConfirmations maxOutputs numChangeOutputs : Nat) (selectAll : Bool)
    (participantId : Nat) (message : Option String) (isInitiator : Bool) :
    Prog.Triple (Logged κ d₀) (addInputsToSlate W mask slate minimumConfirmations maxOutputs
      numChangeOutputs selectAll p participantId message isInitiator) (fun _ => Logged κ d₀)
      (Logged κ d₀) := by
  refine (Updater.refreshOutputs_logged W hκ mask).bind fun _ =>
    (reads_logged (keychain_reads W mask)).bind fun _ => (keeps_logged (Selection.buildSendTx_keeps
      (logStep_frees κ) W (by decide) _ _ _ _ _ _ _ _)).bind fun _ =>
        (reads_logged (keychain_reads W mask)).bind fun _ => ?_
  exact keeps_logged (fillRounds_keeps (logStep_frees κ) W _ _ _ _ _ _ _ _)

theorem addOutputToSlate_logged (hκ : κ.Serves p)
    (mask : Option SecretKey) (slate : Slate) (participantId : Nat) (message : Option String)
    (isInitiator : Bool) :
    Prog.Triple (Logged κ d₀) (addOutputToSlate W mask slate p participantId message isInitiator)
      (fun _ => Logged κ d₀) (Logged κ d₀) := by
  refine (Selection.buildRecipientOutput_logged W hκ).bind fun _ =>
    (reads_logged (keychain_reads W mask)).bind fun _ => ?_
  exact keeps_logged (fillRounds_keeps (logStep_frees κ) W _ _ _ _ _ _ _ _)

/-- `cancel_tx` cancels an unconfirmed entry of the account it is called for. -/
theorem cancelTx_logged (hκ : κ.Serves p) (mask : Option SecretKey) (txId : Option Nat)
    (txSlateId : Option Uuid) :
    Prog.Triple (Logged κ d₀) (cancelTx W mask p txId txSlateId) (fun _ => Logged κ d₀)
      (Logged κ d₀) := by
  refine (retrieveTxs_triple txId txSlateId (some p) false none).bind fun r => ?_
  split
  · next tx hr =>
    rw [hr]
    intro w ⟨hh, hsel⟩
    have hmem := Updater.mem_selectedTxs.1 (hsel tx List.mem_cons_self)
    have hp : tx.parentKeyId = p := hmem.2.1 p rfl
    suffices h : Prog.Triple (Holding κ d₀ [tx]) _ (fun _ => Logged κ d₀) (Logged κ d₀) from h w hh
    refine .ite (fun _ => .throw fun _ h => h.logged) fun hty =>
      .ite (fun _ => .throw fun _ h => h.logged) fun hconf => ?_
    have hty' : tx.txType = .txSentCreated ∨ tx.txType = .txReceived := by
      by_contra hn
      exact hty (not_or.1 hn)
    refine (reads_holding (Updater.retrieveOutputs_reads W _ _ _ _ _ _ _ _)).bind fun _ => ?_
    exact Updater.cancelTxAndOutputs_logged W List.mem_cons_self hp
      (hκ.cancel hp hty' (by simpa using hconf))
  · exact .throw fun _ h => h.1.logged

/-- The entries of a slate may be annotated, whatever was done so far. -/
def MayAnnotate (κ : Policy) (d₀ : Rows Key Serializable) (id : Uuid) : Prop :=
  ∀ w t, Logged κ d₀ w → Stored w.db t → t.txSlateId = some id → κ.Annotates t

/-- The entries of the slate that were read earlier are stored, up to annotations. -/
def Near (id : Uuid) (l : List TxLogEntry) (w : Wallet) : Prop :=
  ∀ t ∈ l, t.txSlateId = some id ∧ ∃ t₀, Stored w.db t₀ ∧ t₀.core = t.core

theorem core_eq {a b : TxLogEntry} (h : a.core = b.core) : a.parentKeyId = b.parentKeyId ∧
    a.id = b.id ∧ a.txSlateId = b.txSlateId ∧ a.txType = b.txType ∧ a.confirmed = b.confirmed := by
  simp only [TxLogEntry.core, TxLogEntry.mk.injEq] at h
  simp only [h, and_self]

/-- Annotating one entry leaves the others as near. -/
theorem saveAnnotated {f : TxLogEntry → TxLogEntry} (hf : ∀ t, (f t).core = t.core) {id : Uuid}
    (hann : MayAnnotate κ d₀ id) {t : TxLogEntry} {l : List TxLogEntry} {w : Wallet}
    (h : Logged κ d₀ w) (hn : Near id (t :: l) w) :
    Logged κ d₀ (Batch.saveTxLogEntry (f t) t.parentKeyId w).2 ∧
      Near id l (Batch.saveTxLogEntry (f t) t.parentKeyId w).2 := by
  obtain ⟨hid, t₀, hst, hcore⟩ := hn t List.mem_cons_self
  obtain ⟨hp, hi, hs, -, -⟩ := core_eq hcore
  have hft := core_eq (hf t)
  refine ⟨?_, fun t' ht' => ?_⟩
  · rw [← hp]
    refine saveChanged h hst (hft.1.trans hp.symm) (hft.2.1.trans hi.symm) ?_
    exact hann w t₀ h hst (hs.trans hid) _ ((hf t).trans hcore.symm)
  obtain ⟨hid', t₁, hst₁, hcore₁⟩ := hn t' (List.mem_cons_of_mem _ ht')
  refine ⟨hid', ?_⟩
  unfold Batch.saveTxLogEntry put
  split
  · by_cases hkey : t₁.parentKeyId = t.parentKeyId ∧ t₁.id = (f t).id
    · -- the row just written held the entry near both
      have hsame : t₁ = t₀ := by
        unfold Stored at hst hst₁
        rw [hkey.1, hkey.2, hft.2.1, ← hp, ← hi, hst] at hst₁
        exact (Option.some.inj hst₁).symm
      refine ⟨f t, ?_, by rw [hf, ← hcore, ← hsame, hcore₁]⟩
      unfold Stored
      rw [hft.1]
      exact (entryAt_put _ _ _ _ _ _).trans (if_pos ⟨rfl, rfl⟩)
    · refine ⟨t₁, ?_, hcore₁⟩
      unfold Stored
      exact (entryAt_put _ _ _ _ _ _).trans ((if_neg hkey).trans hst₁)
  · exact ⟨t₁, hst₁, hcore₁⟩

theorem updateEntries_logged {f : TxLogEntry → TxLogEntry} (hf : ∀ t, (f t).core = t.core)
    {slate : Slate} (hann : MayAnnotate κ d₀ slate.id) (mask : Option SecretKey)
    (parent : Option Identifier) :
    Prog.Triple (Logged κ d₀) (updateEntries W mask slate parent f) (fun _ => Logged κ d₀)
      (Logged κ d₀) := by
  refine (retrieveTxs_triple none (some slate.id) parent false none).bind fun r => ?_
  refine .ite (fun _ => .throw fun _ h => h.1.logged) fun _ => ?_
  refine Prog.Triple.bind (R := fun _ w => Logged κ d₀ w ∧ Near slate.id r.2.2 w)
    ((batch_reads W mask).triple (fun w b h _ => ⟨h.1.logged, fun t ht => ?_⟩) fun _ h => h.1.logged)
    fun _ => Prog.Triple.bind (R := fun _ => Logged κ d₀) ?_ fun _ => reads_logged (.pure _)
  · obtain ⟨-, -, -, hslate, -⟩ := Updater.mem_selectedTxs.1 (h.2 t ht)
    exact ⟨hslate _ rfl, t, h.1.stored t ht, rfl⟩
  · generalize r.2.2 = l
    induction l with
    | nil => exact .pure fun _ h => h.1
    | cons t l ih =>
      refine Prog.Triple.bind (R := fun _ w => Logged κ d₀ w ∧ Near slate.id l w) ?_ fun _ => ih
      exact (Prog.triple_state fun w h => saveAnnotated hf hann h.1 h.2).mono (fun _ h => h)
        (fun _ _ h => h) fun _ h => h.1

theorem updateMessage_logged {slate : Slate} (hann : MayAnnotate κ d₀ slate.id)
    (mask : Option SecretKey) :
    Prog.Triple (Logged κ d₀) (updateMessage W mask slate) (fun _ => Logged κ d₀) (Logged κ d₀) :=
  updateEntries_logged W (f := fun t => { t with messages := some slate.participantMessages })
    (fun _ => rfl) hann mask none

theorem updatePublicAddr_logged {slate : Slate} {publicAddr : Option String}
    (hann : MayAnnotate κ d₀ slate.id) (mask : Option SecretKey) (parent : Option Identifier) :
    Prog.Triple (Logged κ d₀) (updatePublicAddr W mask slate publicAddr parent)
      (fun _ => Logged κ d₀) (Logged κ d₀) :=
  updateEntries_logged W (f := fun t => { t with publicAddr }) (fun _ => rfl) hann mask parent

theorem updateStoredTx_logged {context : Context} {slate : Slate} {isInvoiced : Bool}
    (hann : MayAnnotate κ d₀ slate.id) (mask : Option SecretKey) :
    Prog.Triple (Logged κ d₀) (updateStoredTx W mask context slate isInvoiced) (fun _ => Logged κ d₀)
      (Logged κ d₀) := by
  refine (retrieveTxs_triple none (some slate.id) none false none).bind fun r => ?_
  split
  · exact .throw fun _ h => h.1.logged
  next tx hf =>
  intro w ⟨hh, hsel⟩
  have hmem := List.mem_of_find?_eq_some hf
  have hslate := (Updater.mem_selectedTxs.1 (hsel tx hmem)).2.2.2.1 _ rfl
  have htx : κ.Annotates tx := hann w tx hh.logged (hh.stored tx hmem) hslate
  suffices h : Prog.Triple (Holding κ d₀ r.2.2) _ (fun _ => Logged κ d₀) (Logged κ d₀) from h w hh
  refine (reads_holding (Prog.Keeps.unwrap _)).bind fun slateId =>
    (keeps_holding (storeTx_keeps sameLog_frees W _ _)).bind fun _ =>
      (reads_holding (Prog.Keeps.unwrap _)).bind fun kernel => ?_
  refine Prog.Triple.bind (R := fun t w => Holding κ d₀ r.2.2 w ∧ t.core = tx.core) ?_ fun t =>
    .of_and fun ht => (reads_holding (batch_reads W mask)).bind fun _ => ?_
  · split
    · exact Prog.Triple.bind (R := fun _ => Holding κ d₀ r.2.2)
        (reads_holding (signedProofInfo_reads W _ _ _ _)) fun proof => .pure fun w h => ⟨h, rfl⟩
    · exact .pure fun w h => ⟨h, rfl⟩
  · obtain ⟨hp, hid, -⟩ := core_eq ht
    exact Prog.Triple.bind (saveChanged_triple hmem rfl hp hid (htx t ht)) fun _ =>
      reads_logged (.pure _)

/-- The entry `update_mempool_status` marks: the first of the slate in any account. -/
def firstEntry (d : Rows Key Serializable) (id : Uuid) : Option TxLogEntry :=
  (txLogOf d).find? fun e => e.txSlateId = some id

/-- The marking is saved under the active account. -/
theorem updateMempoolStatus_logged (mask : Option SecretKey) (slate : Slate) :
    Prog.Triple (fun w => Logged κ d₀ w ∧ ∀ t, firstEntry w.db slate.id = some t →
      t.parentKeyId = w.parentKeyId ∧ κ.change t { t with txType := mempoolType t.txType })
      (updateMempoolStatus W mask slate) (fun _ => Logged κ d₀) (Logged κ d₀) := by
  intro w ⟨h, hfirst⟩
  suffices hs : Prog.Triple (fun w' => w' = w) (updateMempoolStatus W mask slate)
    (fun _ => Logged κ d₀) (Logged κ d₀) from hs w rfl
  refine Prog.Triple.bind (R := fun parent w' => w' = w ∧ parent = w.parentKeyId)
    (parentKeyId_reads.triple (fun w' parent hw hrun => ?_) fun w' hw => hw ▸ h) fun parent =>
      .of_and fun hparent => ?_
  · cases hrun
    exact ⟨hw, by rw [hw]⟩
  subst hparent
  refine Prog.Triple.bind (R := fun txs w' => Holding κ d₀ txs w' ∧ txs = txLogOf w.db)
    (txLogIter_reads.triple (fun w' txs hw hrun => ?_) fun w' hw => hw ▸ h) fun txs =>
      .of_and fun htxs => ?_
  · subst hw
    cases hrun
    exact ⟨⟨h, fun t ht => stored_of_mem h ht⟩, rfl⟩
  subst htxs
  split
  · next t hf =>
    obtain ⟨hp, hc⟩ := hfirst t hf
    refine (reads_holding (batch_reads W mask)).bind fun _ => ?_
    exact Prog.Triple.bind (saveChanged_triple (List.mem_of_find?_eq_some hf) hp hp rfl hc) fun _ =>
      reads_logged (.pure _)
  · exact .pure fun _ h => h.logged

/-! ### The slate keeps its id -/

theorem completeTx_id {mask : Option SecretKey} {slate slate' : Slate} {participantId : Nat}
    {context : Context} {w w' : Wallet}
    (h : completeTx W mask slate participantId context w = (.ok slate', w')) : slate'.id = slate.id := by
  obtain ⟨_, _, -, h⟩ := Prog.bind_ok.1 h
  obtain ⟨s, _, hfill, h⟩ := Prog.bind_ok.1 h
  obtain ⟨_, _, -, h⟩ := Prog.bind_ok.1 h
  rw [Slate.finalize_id W h, Slate.fillRound2_id W hfill]

theorem addOutputToSlate_id {mask : Option SecretKey} {slate : Slate} {parent : Identifier}
    {participantId : Nat} {message : Option String} {isInitiator : Bool} {r : Slate × Context}
    {w w' : Wallet} (h : addOutputToSlate W mask slate parent participantId message isInitiator w =
      (.ok r, w')) : r.1.id = slate.id := by
  obtain ⟨⟨s, key, context⟩, _, hb, h⟩ := Prog.bind_ok.1 h
  obtain ⟨logId, hrows⟩ := Selection.buildRecipientOutput_ok W hb
  obtain ⟨_, _, -, h⟩ := Prog.bind_ok.1 h
  obtain ⟨⟨s₁, sec⟩, _, hf, h⟩ := Prog.bind_ok.1 h
  rw [← hrows.slateId, ← Slate.fillRound1_id W hf]
  dsimp only at h
  split at h
  · cases h
    rfl
  · obtain ⟨_, _, -, h⟩ := Prog.bind_ok.1 h
    obtain ⟨s₂, _, hf₂, h⟩ := Prog.bind_ok.1 h
    cases h
    exact Slate.fillRound2_id W hf₂

end Tx

end EpicWallet
