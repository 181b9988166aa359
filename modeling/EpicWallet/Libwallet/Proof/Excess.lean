import EpicWallet.Libwallet.Proof.Interleave

/-!
# The excess stored for a slate

The steps of a payment store the excess of its kernel in a log entry, computed from the slate as it is
then. `markAt id` is what an entry of slate `id` has of this: its side and the excess.

* `Slate.finalize_kernel`: finalizing writes the excess of the slate's transaction in its one kernel.
* `keeping id`: the policy of the steps that leave the marks of a slate alone.
* `receiveTx_marks`, `txLockOutputs_marks`, `finalizeTx_marks`: the marks the calls make and change.
-/

namespace EpicWallet

open Lib WalletBackend

/-! ## The transaction of a slate -/

/-- A library that builds on a transaction keeps its offset. -/
def World.KeepsOffset (W : World) : Prop :=
  ∀ {tx elems k tx' b}, W.partialTransaction tx elems k = .ok (tx', b) → tx'.offset = tx.offset

/-- The two worlds have the same curve and transaction libraries. -/
structure World.SameCurve (W W' : World) : Prop where
  sumCommitments : W'.sumCommitments = W.sumCommitments
  totalFee : W'.totalFee = W.totalFee
  secretKey : W'.secretKey = W.secretKey
  commitBlind : W'.commitBlind = W.commitBlind
  commitSum : W'.commitSum = W.commitSum

namespace Slate

variable {W : World}

/-- The excess depends on the transaction only. -/
theorem calcExcess_congr {s s' : Slate} (h : s'.tx = s.tx) : s'.calcExcess W = s.calcExcess W := by
  unfold calcExcess
  rw [h]

theorem calcExcess_sameCurve {W' : World} (h : W.SameCurve W') (s : Slate) :
    s.calcExcess W' = s.calcExcess W := by
  unfold calcExcess
  rw [h.sumCommitments, h.totalFee, h.secretKey, h.commitBlind, h.commitSum]

theorem addTransactionElements_offset (hW : W.KeepsOffset) {s s' : Slate} {k : Keychain}
    {elems : List Append} {b : BlindingFactor}
    (h : s.addTransactionElements W k elems = .ok (s', b)) : s'.tx.offset = s.tx.offset := by
  unfold addTransactionElements at h
  dsimp only at h
  rcases ht : W.partialTransaction (s.updateKernel W).tx elems k with e | ⟨tx, blind⟩
  · rw [ht] at h
    cases h
  · rw [ht] at h
    cases h
    show tx.offset = (s.updateKernel W).tx.offset
    exact hW ht

theorem addParticipantInfo_tx {s s' : Slate} {secKey secNonce : SecretKey} {id : Nat}
    {partSig : Option Signature} {message : Option String} {w w' : Wallet}
    (h : addParticipantInfo W s secKey secNonce id partSig message w = (.ok s', w')) :
    s'.tx = s.tx := by
  obtain ⟨_, _, -, h⟩ := Prog.bind_ok.1 h
  obtain ⟨_, _, -, h⟩ := Prog.bind_ok.1 h
  obtain ⟨_, _, -, h⟩ := Prog.bind_ok.1 h
  cases h
  rfl

/-- Round 1 leaves a transaction with an offset alone. -/
theorem fillRound1_tx {s s' : Slate} {k : Keychain} {secKey secNonce sec : SecretKey}
    {participantId : Nat} {message : Option String} {w w' : Wallet} (ho : s.tx.offset ≠ .zero)
    (h : fillRound1 W s k secKey secNonce participantId message w = (.ok (s', sec), w')) :
    s'.tx = s.tx := by
  obtain ⟨⟨s₁, sec₁⟩, w₁, hg, h⟩ := Prog.bind_ok.1 h
  rw [if_neg ho] at hg
  cases hg
  obtain ⟨s₂, w₂, ha, h⟩ := Prog.bind_ok.1 h
  cases h
  exact addParticipantInfo_tx ha

/-- After round 1 the transaction has an offset. -/
theorem fillRound1_offset (hkey : ∀ t, W.newSecretKey t ≠ ⟨0⟩) {s s' : Slate} {k : Keychain}
    {secKey secNonce sec : SecretKey} {participantId : Nat} {message : Option String} {w w' : Wallet}
    (h : fillRound1 W s k secKey secNonce participantId message w = (.ok (s', sec), w')) :
    s'.tx.offset ≠ .zero := by
  obtain ⟨⟨s₁, sec₁⟩, w₁, hg, h⟩ := Prog.bind_ok.1 h
  obtain ⟨s₂, w₂, ha, h⟩ := Prog.bind_ok.1 h
  cases h
  rw [addParticipantInfo_tx ha]
  split at hg
  · obtain ⟨t, _, -, hg⟩ := Prog.bind_ok.1 hg
    obtain ⟨_, _, -, hg⟩ := Prog.bind_ok.1 hg
    obtain ⟨_, _, -, hg⟩ := Prog.bind_ok.1 hg
    cases hg
    intro hz
    have hraw : (W.newSecretKey t).raw = 0 := congrArg BlindingFactor.raw hz
    exact hkey t (congrArg SecretKey.mk hraw)
  · next ho =>
    cases hg
    exact ho

theorem fillRound2_tx {s s' : Slate} {secKey secNonce : SecretKey} {participantId : Nat}
    {w w' : Wallet} (h : fillRound2 W s secKey secNonce participantId w = (.ok s', w')) :
    s'.tx = s.tx := by
  obtain ⟨_, _, -, h⟩ := Prog.bind_ok.1 h
  obtain ⟨_, _, -, h⟩ := Prog.bind_ok.1 h
  obtain ⟨_, _, -, h⟩ := Prog.bind_ok.1 h
  obtain ⟨_, _, -, h⟩ := Prog.bind_ok.1 h
  obtain ⟨_, _, -, h⟩ := Prog.bind_ok.1 h
  obtain ⟨_, _, -, h⟩ := Prog.bind_ok.1 h
  obtain ⟨_, _, -, h⟩ := Prog.bind_ok.1 h
  obtain ⟨_, _, -, h⟩ := Prog.bind_ok.1 h
  cases h
  rfl

/-- The one kernel of a finalized transaction has the excess computed from the slate. -/
theorem finalizeTransaction_kernel {s s' : Slate} {sig : Signature} {w w' : Wallet}
    (h : finalizeTransaction W s sig w = (.ok s', w')) :
    ∃ kernel, s'.tx.kernels = [kernel] ∧ s.calcExcess W = .ok kernel.excess := by
  obtain ⟨_, _, -, h⟩ := Prog.bind_ok.1 h
  obtain ⟨excess, _, hx, h⟩ := Prog.bind_ok.1 h
  obtain ⟨hx, -⟩ := Prog.ofExcept_eq_ok.1 hx
  rcases hk : s.tx.kernels with _ | ⟨kernel, _ | ⟨k, l⟩⟩
  · rw [hk] at h
    cases h
  · rw [hk] at h
    obtain ⟨_, _, -, h⟩ := Prog.bind_ok.1 h
    obtain ⟨_, _, -, h⟩ := Prog.bind_ok.1 h
    cases h
    exact ⟨_, rfl, hx⟩
  · rw [hk] at h
    cases h

theorem finalize_kernel {s s' : Slate} {w w' : Wallet} (h : finalize W s w = (.ok s', w')) :
    ∃ kernel, s'.tx.kernels = [kernel] ∧ s.calcExcess W = .ok kernel.excess := by
  obtain ⟨sig, _, -, h⟩ := Prog.bind_ok.1 h
  exact finalizeTransaction_kernel h

end Slate

namespace Tx

variable {W : World}

/-- The kernel of a completed transaction has the excess of the slate that came back. -/
theorem completeTx_kernel {mask : Option SecretKey} {slate slate' : Slate} {participantId : Nat}
    {context : Context} {w w' : Wallet}
    (h : completeTx W mask slate participantId context w = (.ok slate', w')) :
    ∃ kernel, slate'.tx.kernels = [kernel] ∧ slate.calcExcess W = .ok kernel.excess := by
  obtain ⟨_, _, -, h⟩ := Prog.bind_ok.1 h
  obtain ⟨s, _, hf, h⟩ := Prog.bind_ok.1 h
  obtain ⟨_, _, -, h⟩ := Prog.bind_ok.1 h
  obtain ⟨kernel, hk, hx⟩ := Slate.finalize_kernel h
  exact ⟨kernel, hk, (Slate.calcExcess_congr (Slate.fillRound2_tx hf)).symm.trans hx⟩

end Tx

/-! ## The entries of a slate -/

/-- The entry records a payment made, not one received. -/
def TxLogEntryType.isSend : TxLogEntryType → Bool
  | .txSentCreated | .txSent | .txSentMempool | .txSentCancelled => true
  | _ => false

/-- What an exchange needs of an entry: where it belongs, the side it is of and the excess stored. -/
structure Mark where
  parentKeyId : Identifier
  id : Nat
  isSend : Bool
  kernelExcess : Option Commitment
deriving DecidableEq

/-- The mark of an entry, if it is one of slate `id`. -/
def markOf (id : Uuid) (t : TxLogEntry) : Option Mark :=
  if t.txSlateId = some id then some ⟨t.parentKeyId, t.id, t.txType.isSend, t.kernelExcess⟩ else none

def markAt (id : Uuid) (d : Rows Key Serializable) (p : Identifier) (n : Nat) : Option Mark :=
  (entryAt d p n).bind (markOf id)

/-- Steps that leave the marks of slate `id` as they are: its entries may be confirmed, cancelled or
annotated, and entries of other slates added. -/
def keeping (id : Uuid) : Policy where
  change a b := markOf id b = markOf id a
  create t := markOf id t = none
  counted := True
  refl _ := rfl
  trans h h' := h'.trans h
  createChange h h' := h'.trans h

theorem markOf_confirmedEntry (id : Uuid) (t : TxLogEntry) (now : DateTime) (height : Nat) :
    markOf id (Updater.confirmedEntry t now height) = markOf id t := by
  have hty : (Updater.confirmedEntry t now height).txType.isSend = t.txType.isSend := by
    show TxLogEntryType.isSend (if _ then _ else _) = _
    split
    · next h => rcases h with h | h <;> rw [h] <;> rfl
    · rfl
  unfold markOf
  rw [hty]
  rfl

theorem keeping_refreshes (id : Uuid) (p : Identifier) : (keeping id).Refreshes p where
  create _ h := if_neg (by rw [h]; exact fun h => nomatch h)
  replace h := absurd trivial h
  confirm _ := markOf_confirmedEntry id _ _ _

variable {id : Uuid}

theorem markAt_of_logged {d : Rows Key Serializable} {w : Wallet} (h : Logged (keeping id) d w)
    (p : Identifier) (n : Nat) : markAt id w.db p n = markAt id d p n := by
  unfold markAt
  rcases hd : entryAt d p n with _ | t
  · rcases hw : entryAt w.db p n with _ | t
    · rfl
    · exact h.follows.created hw hd
  · obtain ⟨t', ht', hc⟩ := h.follows.changed hd
    rw [ht']
    exact hc

theorem markAt_of_sameLog {w w' : Wallet} (h : SameLog w w') (p : Identifier) (n : Nat) :
    markAt id w'.db p n = markAt id w.db p n := by
  unfold markAt
  rw [h.entry]

theorem markAt_eq_some {d : Rows Key Serializable} {p : Identifier} {n : Nat} {m : Mark} :
    markAt id d p n = some m ↔ ∃ t, entryAt d p n = some t ∧ t.txSlateId = some id ∧
      m = ⟨t.parentKeyId, t.id, t.txType.isSend, t.kernelExcess⟩ := by
  unfold markAt markOf
  rw [Option.bind_eq_some_iff]
  simp only [Option.ite_none_right_eq_some, Option.some.injEq, eq_comm (b := m)]

/-- The log of slate `id` is that of `d` with the mark `m` under account `p` and number `n`. -/
structure Marks (id : Uuid) (d : Rows Key Serializable) (p : Identifier) (n : Nat) (m : Mark)
    (w : Wallet) : Prop where
  ok : LogOk (keeping id) w.db
  marks : ∀ q j, markAt id w.db q j = if q = p ∧ j = n then some m else markAt id d q j

theorem Marks.logged {d : Rows Key Serializable} {p : Identifier} {n : Nat} {m : Mark}
    {w w' : Wallet} (h : Marks id d p n m w) (hl : Logged (keeping id) w.db w') :
    Marks id d p n m w' :=
  ⟨hl.ok, fun q j => (markAt_of_logged hl q j).trans (h.marks q j)⟩

theorem Marks.after {d : Rows Key Serializable} {p : Identifier} {n : Nat} {m : Mark}
    {w w' : Wallet} (hl : Logged (keeping id) d w) (h : Marks id w.db p n m w') :
    Marks id d p n m w' :=
  ⟨h.ok, fun q j => by rw [h.marks, markAt_of_logged hl]⟩

theorem logged_refl {κ : Policy} {w : Wallet} (h : LogOk κ w.db) : Logged κ w.db w :=
  ⟨h, .refl κ _⟩

/-- An entry of the slate that was saved under a number handed out. -/
theorem saveTxLogEntry_marks {t : TxLogEntry} {p : Identifier} {m : Mark} {w w' : Wallet}
    (h : LogOk (keeping id) w.db) (hp : t.parentKeyId = p) (hlt : t.id < logCounter w.db p)
    (hm : markOf id t = some m) (hs : Batch.saveTxLogEntry t p w = (.ok (), w')) :
    Marks id w.db p t.id m w' := by
  obtain ⟨-, rfl⟩ := put_ok.1 hs
  refine ⟨⟨fun {q j t'} ht => ?_, fun _ {q j t'} ht => ?_⟩, fun q j => ?_⟩
  · dsimp only at ht
    rw [entryAt_put] at ht
    split at ht
    · obtain ⟨rfl, rfl⟩ := ‹q = p ∧ j = t.id›
      cases ht
      exact ⟨hp, rfl⟩
    · exact h.keyed ht
  · dsimp only at ht ⊢
    rw [logCounter_put_entry]
    rw [entryAt_put] at ht
    split at ht
    · obtain ⟨rfl, rfl⟩ := ‹q = p ∧ j = t.id›
      exact hlt
    · exact h.below trivial ht
  · unfold markAt
    dsimp only
    rw [entryAt_put]
    split
    · exact hm
    · rfl

/-- A new entry of the slate, under a number handed out for it. -/
theorem saveCreated_marks {d : Rows Key Serializable} {t : TxLogEntry} {p : Identifier} {n : Nat}
    {m : Mark} {w w' : Wallet} (h : Reserved (keeping id) d p n w) (hid : t.id = n)
    (hp : t.parentKeyId = p) (hm : markOf id t = some m)
    (hs : Batch.saveTxLogEntry t p w = (.ok (), w')) :
    markAt id d p n = none ∧ Marks id d p n m w' := by
  subst hid
  obtain ⟨hlt, hnone⟩ := h.fresh trivial
  refine ⟨?_, (saveTxLogEntry_marks h.logged.ok hp hlt hm hs).after h.logged⟩
  rw [← markAt_of_logged h.logged]
  unfold markAt
  rw [hnone]
  rfl

/-! ## Locking and receiving -/

namespace Selection

variable {W : World}

/-- A locking that returned added one entry for the slate, with the excess of the slate it was given. -/
theorem lockRows_marks {mask : Option SecretKey} {slate : Slate} {context : Context}
    {addrTo : Option String} {k : Keychain} {commits : Rows Identifier (Option String × Nat)}
    {t : TxLogEntry} {w w' : Wallet} (hok : LogOk (keeping slate.id) w.db)
    (h : lockRows W mask slate context addrTo k commits w = (.ok t, w')) :
    ∃ p n, markAt slate.id w.db p n = none ∧
      Marks slate.id w.db p n ⟨p, n, true, (slate.calcExcess W).toOption⟩ w' := by
  have h₀ := logged_refl hok
  obtain ⟨b, w₁, hb, g₁⟩ := Prog.bind_ok.1 h
  obtain rfl := (batch_reads W mask).eq hb
  obtain ⟨n, w₂, hid, g₂⟩ := Prog.bind_ok.1 g₁
  have h₂ := (nextTxLogId_triple context.parentKeyId).ok h₀ hid
  obtain ⟨tick, w₃, ht, g₃⟩ := Prog.bind_ok.1 g₂
  have h₃ := (keeps_reserved sameLog_frees.nextTick).ok h₂ ht
  obtain ⟨debited, w₄, hl, g₄⟩ := Prog.bind_ok.1 g₃
  have h₄ := (keeps_reserved (Prog.Keeps.foldlM _ _ fun _ _ _ => lockInput_sameLog _ _ _)).ok h₃ hl
  obtain ⟨proof, w₅, hp, g₅⟩ := Prog.bind_ok.1 g₄
  obtain rfl := (storedProofInfo_reads W _ _ _).eq hp
  obtain ⟨t', w₆, hc, g₆⟩ := Prog.bind_ok.1 g₅
  have h₆ := (keeps_reserved (Prog.Keeps.foldlM _ _ fun _ _ _ => saveChange_sameLog _ _ _ _ _ _)).ok h₄ hc
  obtain ⟨⟨⟩, w₇, hs, g₇⟩ := Prog.bind_ok.1 g₆
  cases g₇
  have he := (saveChanges_ok hc).entry
  refine ⟨context.parentKeyId, n, saveCreated_marks h₆ ?_ ?_ ?_ hs⟩
  · rw [he]
    rfl
  · rw [he]
    rfl
  · rw [he]
    exact if_pos rfl

theorem lockTxContext_marks {mask : Option SecretKey} {slate : Slate} {context : Context}
    {addrTo : Option String} {w w' : Wallet} (hok : LogOk (keeping slate.id) w.db)
    (h : lockTxContext W mask slate context addrTo w = (.ok (), w')) :
    ∃ p n, markAt slate.id w.db p n = none ∧
      Marks slate.id w.db p n ⟨p, n, true, (slate.calcExcess W).toOption⟩ w' := by
  obtain ⟨commits, w₁, hc, g₁⟩ := Prog.bind_ok.1 h
  obtain rfl := (outputCommits_reads W mask _).eq hc
  obtain ⟨k, w₂, hk, g₂⟩ := Prog.bind_ok.1 g₁
  obtain rfl := (keychain_reads W mask).eq hk
  obtain ⟨t, w₃, hr, g₃⟩ := Prog.bind_ok.1 g₂
  obtain ⟨p, n, hnone, hm⟩ := lockRows_marks hok hr
  obtain ⟨slateId, w₄, hu, g₄⟩ := Prog.bind_ok.1 g₃
  obtain ⟨-, rfl⟩ := Prog.unwrap_eq_ok.1 hu
  have hl := (keeps_logged (storeTx_keeps (logStep_frees (keeping slate.id)) W slateId slate.tx)).ok
    (logged_refl hm.ok) g₄
  exact ⟨p, n, hnone, hm.logged hl⟩

/-- A recipient output that was built added one entry for the slate, with the excess of the slate it
returned. -/
theorem buildRecipientOutput_marks {mask : Option SecretKey} {slate : Slate} {parent : Identifier}
    {r : Slate × Identifier × Context} {w w' : Wallet} (hok : LogOk (keeping slate.id) w.db)
    (h : buildRecipientOutput W mask slate parent w = (.ok r, w')) :
    ∃ n b elems k, slate.addTransactionElements W k elems = .ok (r.1, b) ∧
      markAt slate.id w.db parent n = none ∧
      Marks slate.id w.db parent n ⟨parent, n, false, (r.1.calcExcess W).toOption⟩ w' := by
  have h₀ := logged_refl hok
  have hF := logStep_frees (keeping slate.id)
  obtain ⟨key, w₁, hkey, g₁⟩ := Prog.bind_ok.1 h
  have h₁ := (keeps_logged (nextChild_keeps hF W (by decide) mask).orPanic).ok h₀ hkey
  obtain ⟨k, w₂, hk, g₂⟩ := Prog.bind_ok.1 g₁
  obtain rfl := (keychain_reads W mask).eq hk
  obtain ⟨⟨s, blinding⟩, w₃, hs, g₃⟩ := Prog.bind_ok.1 g₂
  obtain ⟨hadd, rfl⟩ := Prog.ofExcept_eq_ok.1 hs
  obtain ⟨k', w₄, hk', g₄⟩ := Prog.bind_ok.1 g₃
  obtain rfl := (keychain_reads W mask).eq hk'
  obtain ⟨ctx, w₅, hctx, g₅⟩ := Prog.bind_ok.1 g₄
  have h₅ := (keeps_logged ((newContext_aside W _ _ _).mono hF.aside)).ok h₁ hctx
  obtain ⟨commit, w₆, hc, g₆⟩ := Prog.bind_ok.1 g₅
  obtain rfl := (calcCommitForCache_reads W _ _ _).eq hc
  obtain ⟨b, w₇, hb, g₇⟩ := Prog.bind_ok.1 g₆
  obtain rfl := (batch_reads W mask).eq hb
  obtain ⟨n, w₈, hid, g₈⟩ := Prog.bind_ok.1 g₇
  have h₈ := (nextTxLogId_triple parent).ok h₅ hid
  obtain ⟨tick, w₉, ht, g₉⟩ := Prog.bind_ok.1 g₈
  have h₉ := (keeps_reserved sameLog_frees.nextTick).ok h₈ ht
  obtain ⟨⟨⟩, w₁₀, ho, g₁₀⟩ := Prog.bind_ok.1 g₉
  have h₁₀ := (keeps_reserved (Batch.save_keeps sameLog_frees (by decide) (by decide) _)).ok h₉ ho
  obtain ⟨⟨⟩, w₁₁, he, g₁₁⟩ := Prog.bind_ok.1 g₁₀
  cases g₁₁
  refine ⟨n, blinding, _, k, hadd, saveCreated_marks h₁₀ rfl rfl ?_ he⟩
  rw [← Slate.addTransactionElements_id W hadd]
  exact if_pos rfl

end Selection

/-! ## Annotating and finalizing -/

namespace Tx

variable {W : World}

/-- Annotating the entries of a slate keeps their marks. -/
theorem updateEntries_keeping {d : Rows Key Serializable} {f : TxLogEntry → TxLogEntry}
    (hf : ∀ t, (f t).parentKeyId = t.parentKeyId ∧ (f t).id = t.id)
    (hm : ∀ id t, markOf id (f t) = markOf id t) (mask : Option SecretKey) (slate : Slate)
    (parent : Option Identifier) :
    Prog.Triple (Logged (keeping slate.id) d) (updateEntries W mask slate parent f)
      (fun _ => Logged (keeping slate.id) d) (Logged (keeping slate.id) d) := by
  refine (retrieveTxs_triple none (some slate.id) parent false none).bind fun r => ?_
  refine .ite (fun _ => .throw fun _ h => h.1.logged) fun _ => ?_
  -- the marks of the entries read are those stored, before and after each of them is saved
  refine Prog.Triple.bind (R := fun _ w => Logged (keeping slate.id) d w ∧ ∀ t ∈ r.2.2,
      t.txSlateId = some slate.id ∧
        markAt slate.id w.db t.parentKeyId t.id = markOf slate.id t)
    ((batch_reads W mask).triple (fun w b h _ => ⟨h.1.logged, fun t ht => ?_⟩) fun _ h => h.1.logged)
    fun _ => Prog.Triple.bind (R := fun _ => Logged (keeping slate.id) d) ?_ fun _ =>
      reads_logged (.pure _)
  · obtain ⟨-, -, -, hslate, -⟩ := Updater.mem_selectedTxs.1 (h.2 t ht)
    refine ⟨hslate _ rfl, ?_⟩
    unfold markAt
    rw [h.1.stored t ht]
    rfl
  · generalize r.2.2 = l
    induction l with
    | nil => exact .pure fun _ h => h.1
    | cons t l ih =>
      refine Prog.Triple.bind (R := fun _ w => Logged (keeping slate.id) d w ∧ ∀ t ∈ l,
        t.txSlateId = some slate.id ∧
          markAt slate.id w.db t.parentKeyId t.id = markOf slate.id t) ?_ fun _ => ih
      refine (Prog.triple_state fun w h => ?_).mono (fun _ h => h) (fun _ _ h => h) fun _ h => h.1
      obtain ⟨hid, hmark⟩ := h.2 t List.mem_cons_self
      have hsome : markOf slate.id t = some ⟨t.parentKeyId, t.id, t.txType.isSend, t.kernelExcess⟩ :=
        if_pos hid
      have hsaved : Logged (keeping slate.id) w.db
          (Batch.saveTxLogEntry (f t) t.parentKeyId w).2 := by
        obtain ⟨t₀, ht₀, -, -⟩ := markAt_eq_some.1 (hmark.trans hsome)
        refine saveTxLogEntry_logged (logged_refl h.1.ok) (hf t).1 (fun hc => ?_) (fun t₁ ht₁ => ?_)
          fun hn => ?_
        · rw [(hf t).2]
          exact h.1.ok.below hc ht₀
        · rw [(hf t).2, ht₀] at ht₁
          cases ht₁
          unfold markAt at hmark
          rw [ht₀] at hmark
          exact (hm _ t).trans hmark.symm
        · rw [(hf t).2, ht₀] at hn
          cases hn
      refine ⟨⟨hsaved.ok, h.1.follows.trans hsaved.follows⟩, fun t' ht' => ?_⟩
      rw [markAt_of_logged hsaved]
      exact h.2 t' (List.mem_cons_of_mem _ ht')

theorem updateMessage_keeping {d : Rows Key Serializable} (mask : Option SecretKey) (slate : Slate) :
    Prog.Triple (Logged (keeping slate.id) d) (updateMessage W mask slate)
      (fun _ => Logged (keeping slate.id) d) (Logged (keeping slate.id) d) :=
  updateEntries_keeping (f := fun t => { t with messages := some slate.participantMessages })
    (fun _ => ⟨rfl, rfl⟩) (fun _ _ => rfl) mask slate none

theorem updatePublicAddr_keeping {d : Rows Key Serializable} (mask : Option SecretKey)
    (slate : Slate) (publicAddr : Option String) (parent : Option Identifier) :
    Prog.Triple (Logged (keeping slate.id) d) (updatePublicAddr W mask slate publicAddr parent)
      (fun _ => Logged (keeping slate.id) d) (Logged (keeping slate.id) d) :=
  updateEntries_keeping (f := fun t => { t with publicAddr }) (fun _ => ⟨rfl, rfl⟩) (fun _ _ => rfl)
    mask slate parent

/-- The entry that is updated is of the side that finalizes. -/
theorem isSend_of_isStoredEntry {isInvoiced : Bool} {t : TxLogEntry}
    (h : isStoredEntry isInvoiced t = true) : t.txType.isSend = !isInvoiced := by
  unfold isStoredEntry at h
  cases isInvoiced <;> cases hty : t.txType <;> rw [hty] at h <;> first | rfl | cases h

/-- Updating the stored transaction writes the excess of the first kernel in one entry of the slate, of
the side that finalizes. -/
theorem updateStoredTx_marks {mask : Option SecretKey} {context : Context} {slate : Slate}
    {isInvoiced : Bool} {w w' : Wallet} (hok : LogOk (keeping slate.id) w.db)
    (h : updateStoredTx W mask context slate isInvoiced w = (.ok (), w')) :
    ∃ p n m kernel, slate.tx.kernels[0]? = some kernel ∧ m.isSend = !isInvoiced ∧
      markAt slate.id w.db p n = some m ∧
      Marks slate.id w.db p n { m with kernelExcess := some kernel.excess } w' := by
  have h₀ := logged_refl hok
  obtain ⟨r, w₁, hr, g₁⟩ := Prog.bind_ok.1 h
  obtain ⟨h₁, hsel⟩ := (retrieveTxs_triple none (some slate.id) none false none).ok h₀ hr
  rcases hf : r.2.2.find? (isStoredEntry isInvoiced) with _ | tx
  · rw [hf] at g₁
    cases g₁
  rw [hf] at g₁
  have hmem := List.mem_of_find?_eq_some hf
  have hslate := (Updater.mem_selectedTxs.1 (hsel tx hmem)).2.2.2.1 _ rfl
  have hside := isSend_of_isStoredEntry (List.find?_some hf)
  obtain ⟨slateId, w₂, hu, g₂⟩ := Prog.bind_ok.1 g₁
  obtain ⟨-, rfl⟩ := Prog.unwrap_eq_ok.1 hu
  obtain ⟨⟨⟩, w₃, hst, g₃⟩ := Prog.bind_ok.1 g₂
  have h₃ := (keeps_holding (storeTx_keeps sameLog_frees W slateId slate.tx)).ok h₁ hst
  obtain ⟨kernel, w₄, hk, g₄⟩ := Prog.bind_ok.1 g₃
  obtain ⟨hkernel, rfl⟩ := Prog.unwrap_eq_ok.1 hk
  obtain ⟨t, w₅, ht, g₅⟩ := Prog.bind_ok.1 g₄
  -- the proof record is not part of the mark
  have htx : w₅ = w₄ ∧ t.parentKeyId = tx.parentKeyId ∧ t.id = tx.id ∧ markOf slate.id t =
      some ⟨tx.parentKeyId, tx.id, tx.txType.isSend, some kernel.excess⟩ := by
    rcases hpay : slate.paymentProof with _ | p
    · simp only [hpay] at ht
      cases ht
      exact ⟨rfl, rfl, rfl, if_pos hslate⟩
    · simp only [hpay] at ht
      obtain ⟨proof, w₆, hp, g⟩ := Prog.bind_ok.1 ht
      obtain rfl := (signedProofInfo_reads W _ _ _ _).eq hp
      cases g
      exact ⟨rfl, rfl, rfl, if_pos hslate⟩
  obtain ⟨rfl, hpar, hid, hmark⟩ := htx
  obtain ⟨b, w₆, hb, g₆⟩ := Prog.bind_ok.1 g₅
  obtain rfl := (batch_reads W mask).eq hb
  obtain ⟨⟨⟩, w₇, hs, g₇⟩ := Prog.bind_ok.1 g₆
  cases g₇
  have hstored : Stored w₆.db tx := h₃.stored tx hmem
  have hlt : t.id < logCounter w₆.db tx.parentKeyId := by
    rw [hid]
    exact h₃.logged.ok.below trivial hstored
  have hmarks := (saveTxLogEntry_marks h₃.logged.ok hpar hlt hmark hs).after h₃.logged
  refine ⟨tx.parentKeyId, tx.id, ⟨tx.parentKeyId, tx.id, tx.txType.isSend, tx.kernelExcess⟩, kernel,
    hkernel, hside, ?_, hid ▸ hmarks⟩
  rw [← markAt_of_logged h₃.logged]
  exact markAt_eq_some.2 ⟨tx, hstored, hslate, rfl⟩

/-! ## The slates of the steps -/

theorem addInputsToSlate_id {mask : Option SecretKey} {slate : Slate}
    {minimumConfirmations maxOutputs numChangeOutputs : Nat} {selectAll : Bool}
    {parent : Identifier} {participantId : Nat} {message : Option String} {isInitiator : Bool}
    {r : Slate × Context} {w w' : Wallet}
    (h : addInputsToSlate W mask slate minimumConfirmations maxOutputs numChangeOutputs selectAll
      parent participantId message isInitiator w = (.ok r, w')) : r.1.id = slate.id := by
  obtain ⟨_, _, -, h⟩ := Prog.bind_ok.1 h
  obtain ⟨k, _, -, h⟩ := Prog.bind_ok.1 h
  obtain ⟨⟨s₁, context⟩, _, hb, h⟩ := Prog.bind_ok.1 h
  obtain ⟨_, _, -, h⟩ := Prog.bind_ok.1 h
  obtain ⟨⟨s₂, sec⟩, _, hf, h⟩ := Prog.bind_ok.1 h
  have hbuilt : s₁.id = slate.id := by
    obtain ⟨_, _, -, hb⟩ := Prog.bind_ok.1 hb
    obtain ⟨⟨s, b⟩, _, hs, hb⟩ := Prog.bind_ok.1 hb
    obtain ⟨_, _, -, hb⟩ := Prog.bind_ok.1 hb
    obtain ⟨_, _, -, hb⟩ := Prog.bind_ok.1 hb
    cases hb
    have hadd := Slate.addTransactionElements_id W (Prog.ofExcept_eq_ok.1 hs).1
    exact hadd
  rw [← hbuilt, ← Slate.fillRound1_id W hf]
  dsimp only at h
  split at h
  · cases h
    rfl
  · obtain ⟨_, _, -, h⟩ := Prog.bind_ok.1 h
    obtain ⟨s₃, _, hf₂, h⟩ := Prog.bind_ok.1 h
    cases h
    exact Slate.fillRound2_id W hf₂

/-- The slate of a party that starts an exchange has an offset. -/
theorem addInputsToSlate_offset (hkey : ∀ t, W.newSecretKey t ≠ ⟨0⟩) {mask : Option SecretKey}
    {slate : Slate} {minimumConfirmations maxOutputs numChangeOutputs : Nat} {selectAll : Bool}
    {parent : Identifier} {participantId : Nat} {message : Option String} {r : Slate × Context}
    {w w' : Wallet}
    (h : addInputsToSlate W mask slate minimumConfirmations maxOutputs numChangeOutputs selectAll
      parent participantId message true w = (.ok r, w')) : r.1.tx.offset ≠ .zero := by
  obtain ⟨_, _, -, h⟩ := Prog.bind_ok.1 h
  obtain ⟨k, _, -, h⟩ := Prog.bind_ok.1 h
  obtain ⟨⟨s₁, context⟩, _, -, h⟩ := Prog.bind_ok.1 h
  obtain ⟨_, _, -, h⟩ := Prog.bind_ok.1 h
  obtain ⟨⟨s₂, sec⟩, _, hf, h⟩ := Prog.bind_ok.1 h
  cases h
  exact Slate.fillRound1_offset hkey hf

/-- The party that answers stores the excess of the slate it returns, if the slate it got has an
offset. -/
theorem addOutputToSlate_marks {mask : Option SecretKey} {slate : Slate} {parent : Identifier}
    {participantId : Nat} {message : Option String} {isInitiator : Bool} {r : Slate × Context}
    {w w' : Wallet} (hok : LogOk (keeping slate.id) w.db)
    (h : addOutputToSlate W mask slate parent participantId message isInitiator w = (.ok r, w')) :
    ∃ n excess, markAt slate.id w.db parent n = none ∧
      Marks slate.id w.db parent n ⟨parent, n, false, excess⟩ w' ∧
      (W.KeepsOffset → slate.tx.offset ≠ .zero → excess = (r.1.calcExcess W).toOption) := by
  obtain ⟨⟨s₁, key, context⟩, w₁, hb, g₁⟩ := Prog.bind_ok.1 h
  obtain ⟨n, b, elems, k', hadd, hnone, hm⟩ := Selection.buildRecipientOutput_marks hok hb
  obtain ⟨k, w₂, hk, g₂⟩ := Prog.bind_ok.1 g₁
  obtain rfl := (keychain_reads W mask).eq hk
  have hl := (keeps_logged (fillRounds_keeps (logStep_frees (keeping slate.id)) W _ _ _ _ _ _ _ _)).ok
    (logged_refl hm.ok) g₂
  refine ⟨n, _, hnone, hm.logged hl, fun hW ho => ?_⟩
  have ho₁ : s₁.tx.offset ≠ .zero := by rwa [Slate.addTransactionElements_offset hW hadd]
  obtain ⟨⟨s₂, sec⟩, w₃, hf, g₃⟩ := Prog.bind_ok.1 g₂
  have htx : r.1.tx = s₂.tx := by
    dsimp only at g₃
    split at g₃
    · cases g₃
      rfl
    · obtain ⟨_, _, -, g₄⟩ := Prog.bind_ok.1 g₃
      obtain ⟨s₃, _, hf₂, g₅⟩ := Prog.bind_ok.1 g₄
      cases g₅
      exact Slate.fillRound2_tx hf₂
  rw [Slate.calcExcess_congr (htx.trans (Slate.fillRound1_tx ho₁ hf))]

end Tx

/-! ## The calls -/

section
variable {W : World}

theorem initSendTx_offset (hkey : ∀ t, W.newSecretKey t ≠ ⟨0⟩) {mask : Option SecretKey}
    {args : InitTxArgs} (he : args.estimateOnly ≠ some true) {slate : Slate} {w w' : Wallet}
    (h : Owner.initSendTx W mask args w = (.ok slate, w')) : slate.tx.offset ≠ .zero := by
  obtain ⟨parent, _, -, h⟩ := Prog.bind_ok.1 h
  obtain ⟨message, _, -, h⟩ := Prog.bind_ok.1 h
  obtain ⟨s, _, -, h⟩ := Prog.bind_ok.1 h
  rw [if_neg he] at h
  obtain ⟨⟨s₁, context⟩, _, ha, h⟩ := Prog.bind_ok.1 h
  obtain ⟨⟨s₂, context'⟩, _, hp, h⟩ := Prog.bind_ok.1 h
  obtain ⟨_, _, -, h⟩ := Prog.bind_ok.1 h
  have htx : s₂.tx = s₁.tx := by
    rcases ha : args.paymentProofRecipientAddress with _ | a
    · simp only [Owner.addProofInfo, ha] at hp
      cases hp
      rfl
    · simp only [Owner.addProofInfo, ha] at hp
      obtain ⟨_, _, -, hp⟩ := Prog.bind_ok.1 hp
      obtain ⟨_, _, -, hp⟩ := Prog.bind_ok.1 hp
      cases hp
      rfl
  have hslate : slate.tx = s₂.tx := by
    cases h
    unfold withOrigVersion
    split
    · rfl
    · rfl
  rw [hslate, htx]
  exact Tx.addInputsToSlate_offset hkey ha

theorem receiveTx_marks {mask : Option SecretKey} {slate slate' : Slate}
    {dest message addr : Option String} {w w' : Wallet} (hok : LogOk (keeping slate.id) w.db)
    (hW : W.KeepsOffset) (ho : slate.tx.offset ≠ .zero)
    (h : Foreign.receiveTx W mask slate dest message addr w = (.ok slate', w')) :
    slate'.id = slate.id ∧ ∃ p n, markAt slate.id w.db p n = none ∧
      Marks slate.id w.db p n ⟨p, n, false, (slate'.calcExcess W).toOption⟩ w' := by
  obtain ⟨⟨⟩, w₁, ht, g₁⟩ := Prog.bind_ok.1 h
  obtain rfl := (checkTtl_reads slate).eq ht
  obtain ⟨parent, w₂, hp, g₂⟩ := Prog.bind_ok.1 g₁
  obtain rfl := (accountNamed_reads dest).eq hp
  obtain ⟨r, w₃, hr, g₃⟩ := Prog.bind_ok.1 g₂
  obtain rfl := (Updater.retrieveTxs_reads _ _ _ _ _ _ _).eq hr
  split at g₃
  · cases g₃
  obtain ⟨m, w₄, hmsg, g₄⟩ := Prog.bind_ok.1 g₃
  obtain rfl := (truncateMessage_reads message).eq hmsg
  obtain ⟨⟨s, context⟩, w₅, ha, g₅⟩ := Prog.bind_ok.1 g₄
  obtain ⟨n, excess, hnone, hm, hex⟩ := Tx.addOutputToSlate_marks hok ha
  have hid : s.id = slate.id := Tx.addOutputToSlate_id W ha
  obtain ⟨⟨⟩, w₆, hu, g₆⟩ := Prog.bind_ok.1 g₅
  obtain ⟨⟨⟩, w₇, ha', g₇⟩ := Prog.bind_ok.1 g₆
  have h₇ : Logged (keeping slate.id) w₅.db w₇ := by
    rw [← hid]
    have h₆ := (Tx.updateMessage_keeping mask s).ok (logged_refl (hid ▸ hm.ok)) hu
    exact (Tx.updatePublicAddr_keeping mask s addr (some parent)).ok h₆ ha'
  obtain ⟨k, w₈, hk, g₈⟩ := Prog.bind_ok.1 g₇
  obtain rfl := (keychain_reads W mask).eq hk
  obtain ⟨e, w₉, he, g₉⟩ := Prog.bind_ok.1 g₈
  obtain ⟨-, rfl⟩ := Prog.ofExcept_eq_ok.1 he
  have hsigned : w' = w₉ ∧ slate'.id = s.id ∧ slate'.tx = s.tx := by
    refine ⟨(Foreign.signProof_reads W _ _ _ _).eq g₉, ?_⟩
    rcases hpay : s.paymentProof with _ | pay
    · simp only [Foreign.signProof, hpay] at g₉
      cases g₉
      exact ⟨rfl, rfl⟩
    · simp only [Foreign.signProof, hpay] at g₉
      obtain ⟨_, _, -, g₁₀⟩ := Prog.bind_ok.1 g₉
      cases g₁₀
      exact ⟨rfl, rfl⟩
  obtain ⟨rfl, hid', htx⟩ := hsigned
  refine ⟨hid'.trans hid, parent, n, hnone, ?_⟩
  rw [Slate.calcExcess_congr htx, ← hex hW ho]
  exact hm.logged h₇

theorem issueInvoiceTx_marks {mask : Option SecretKey} {args : IssueInvoiceTxArgs} {slate : Slate}
    {w w' : Wallet} (hok : LogOk (keeping slate.id) w.db)
    (h : Owner.issueInvoiceTx W mask args w = (.ok slate, w')) :
    ∃ p n excess, Marks slate.id w.db p n ⟨p, n, false, excess⟩ w' := by
  have hF := logStep_frees (keeping slate.id)
  obtain ⟨parent, w₁, hp, g₁⟩ := Prog.bind_ok.1 h
  obtain rfl := (accountNamed_reads _).eq hp
  obtain ⟨message, w₂, hmsg, g₂⟩ := Prog.bind_ok.1 g₁
  obtain rfl := (truncateMessage_reads _).eq hmsg
  obtain ⟨s, w₃, hs, g₃⟩ := Prog.bind_ok.1 g₂
  have h₃ := (keeps_logged (Tx.newTxSlate_keeps hF W _ _ _)).ok (logged_refl hok) hs
  obtain ⟨⟨s₁, context⟩, w₄, ha, g₄⟩ := Prog.bind_ok.1 g₃
  obtain ⟨⟨⟩, w₅, hc, g₅⟩ := Prog.bind_ok.1 g₄
  have hid : slate.id = s.id := by
    cases g₅
    rw [← Tx.addOutputToSlate_id W ha]
    unfold withOrigVersion
    split
    · rfl
    · rfl
  have hw : w' = w₅ := by
    cases g₅
    rfl
  obtain ⟨n, excess, -, hm, -⟩ := Tx.addOutputToSlate_marks (hid ▸ h₃.ok) ha
  rw [← hid] at hm
  have h₅ := (keeps_logged (Owner.saveContext_keeps hF W (by decide) _ _ _ _)).ok (logged_refl hm.ok) hc
  rw [hw]
  exact ⟨parent, n, excess, (hm.after h₃).logged h₅⟩

theorem processInvoiceTx_id {mask : Option SecretKey} {slate slate' : Slate} {args : InitTxArgs}
    {w w' : Wallet} (h : Owner.processInvoiceTx W mask slate args w = (.ok slate', w')) :
    slate'.id = slate.id := by
  obtain ⟨_, _, -, h⟩ := Prog.bind_ok.1 h
  obtain ⟨_, _, -, h⟩ := Prog.bind_ok.1 h
  obtain ⟨_, _, -, h⟩ := Prog.bind_ok.1 h
  split at h
  · cases h
  obtain ⟨_, _, -, h⟩ := Prog.bind_ok.1 h
  obtain ⟨tip, _, -, h⟩ := Prog.bind_ok.1 h
  obtain ⟨s, _, hu, h⟩ := Prog.bind_ok.1 h
  obtain ⟨⟨s₁, context⟩, _, ha, h⟩ := Prog.bind_ok.1 h
  obtain ⟨_, _, -, h⟩ := Prog.bind_ok.1 h
  have hs : s.id = slate.id := by
    rcases ht : args.ttlBlocks with _ | b
    · simp only [Owner.updateHeights, ht] at hu
      cases hu
      rfl
    · simp only [Owner.updateHeights, ht] at hu
      obtain ⟨_, _, -, hu⟩ := Prog.bind_ok.1 hu
      cases hu
      rfl
  cases h
  rw [← hs, ← Tx.addInputsToSlate_id ha]
  unfold withOrigVersion
  split
  · rfl
  · rfl

theorem txLockOutputs_marks {mask : Option SecretKey} {slate : Slate} {participantId : Nat}
    {addrTo : Option String} {w w' : Wallet} (hok : LogOk (keeping slate.id) w.db)
    (h : Owner.txLockOutputs W mask slate participantId addrTo w = (.ok (), w')) :
    ∃ p n, markAt slate.id w.db p n = none ∧
      Marks slate.id w.db p n ⟨p, n, true, (slate.calcExcess W).toOption⟩ w' := by
  obtain ⟨context, w₁, hc, g₁⟩ := Prog.bind_ok.1 h
  obtain rfl := (getPrivateContext_reads W _ _ _).eq hc
  exact Selection.lockTxContext_marks hok g₁

/-- The common end of both finalizations: the stored transaction, the messages and the context. -/
theorem finalized_marks {mask : Option SecretKey} {context : Context} {slate : Slate}
    {isInvoiced : Bool} {participantId : Nat} {w w₁ w₂ w' : Wallet}
    (hok : LogOk (keeping slate.id) w.db)
    (hs : Tx.updateStoredTx W mask context slate isInvoiced w = (.ok (), w₁))
    (hm : Tx.updateMessage W mask slate w₁ = (.ok (), w₂))
    (hd : Owner.deleteContext W mask slate.id participantId w₂ = (.ok (), w')) :
    ∃ p n m kernel, slate.tx.kernels[0]? = some kernel ∧ m.isSend = !isInvoiced ∧
      markAt slate.id w.db p n = some m ∧
      Marks slate.id w.db p n { m with kernelExcess := some kernel.excess } w' := by
  obtain ⟨p, n, m, kernel, hk, hside, hmark, hw₁⟩ := Tx.updateStoredTx_marks hok hs
  have h₂ := (Tx.updateMessage_keeping mask slate).ok (logged_refl hw₁.ok) hm
  have h₃ := (keeps_logged (Owner.deleteContext_keeps (logStep_frees (keeping slate.id)) W (by decide)
    _ _ _)).ok h₂ hd
  exact ⟨p, n, m, kernel, hk, hside, hmark, hw₁.logged h₃⟩

/-- What a finalization that returned did: its transaction has one kernel, with the excess of the slate
that came back, and one entry of the side that finalizes got it. -/
structure Finalized (W : World) (slate slate' : Slate) (isSend : Bool) (w w' : Wallet) : Prop where
  id : slate'.id = slate.id
  marks : ∃ kernel p n m, slate'.tx.kernels = [kernel] ∧ slate.calcExcess W = .ok kernel.excess ∧
    m.isSend = isSend ∧ markAt slate.id w.db p n = some m ∧
    Marks slate.id w.db p n { m with kernelExcess := some kernel.excess } w'

theorem finalizeTx_marks {mask : Option SecretKey} {slate slate' : Slate} {w w' : Wallet}
    (hok : LogOk (keeping slate.id) w.db)
    (h : Owner.finalizeTx W mask slate w = (.ok slate', w')) :
    Finalized W slate slate' true w w' := by
  obtain ⟨⟨⟩, w₁, ht, g₁⟩ := Prog.bind_ok.1 h
  obtain rfl := (checkTtl_reads slate).eq ht
  obtain ⟨context, w₂, hc, g₂⟩ := Prog.bind_ok.1 g₁
  obtain rfl := (getPrivateContext_reads W _ _ _).eq hc
  obtain ⟨parent, w₃, hp, g₃⟩ := Prog.bind_ok.1 g₂
  obtain rfl := parentKeyId_reads.eq hp
  obtain ⟨sl, w₄, hcomp, g₄⟩ := Prog.bind_ok.1 g₃
  have hid := Tx.completeTx_id W hcomp
  obtain ⟨kernel, hk, hx⟩ := Tx.completeTx_kernel hcomp
  have h₄ := (keeps_logged ((Tx.completeTx_aside W mask slate 0 context).mono
    (logStep_frees (keeping slate.id)).aside)).ok (logged_refl hok) hcomp
  obtain ⟨⟨⟩, w₅, hv, g₅⟩ := Prog.bind_ok.1 g₄
  obtain rfl := (Tx.verifySlatePaymentProof_reads W _ _ _ _).eq hv
  obtain ⟨⟨⟩, w₆, hs, g₆⟩ := Prog.bind_ok.1 g₅
  obtain ⟨⟨⟩, w₇, hm, g₇⟩ := Prog.bind_ok.1 g₆
  obtain ⟨⟨⟩, w₈, hd, g₈⟩ := Prog.bind_ok.1 g₇
  cases g₈
  obtain ⟨p, n, m, kernel', hk', hside, hmark, hmarks⟩ := finalized_marks (hid ▸ h₄.ok) hs hm hd
  rw [hk] at hk'
  cases hk'
  rw [hid] at hmark hmarks
  refine ⟨hid, kernel, p, n, m, hk, hx, hside, ?_, hmarks.after h₄⟩
  rw [← markAt_of_logged h₄]
  exact hmark

theorem finalizeInvoiceTx_marks {mask : Option SecretKey} {slate slate' : Slate} {w w' : Wallet}
    (hok : LogOk (keeping slate.id) w.db)
    (h : Foreign.finalizeInvoiceTx W mask slate w = (.ok slate', w')) :
    Finalized W slate slate' false w w' := by
  obtain ⟨⟨⟩, w₁, ht, g₁⟩ := Prog.bind_ok.1 h
  obtain rfl := (checkTtl_reads slate).eq ht
  obtain ⟨context, w₂, hc, g₂⟩ := Prog.bind_ok.1 g₁
  obtain rfl := (getPrivateContext_reads W _ _ _).eq hc
  obtain ⟨sl, w₄, hcomp, g₄⟩ := Prog.bind_ok.1 g₂
  have hid := Tx.completeTx_id W hcomp
  obtain ⟨kernel, hk, hx⟩ := Tx.completeTx_kernel hcomp
  have h₄ := (keeps_logged ((Tx.completeTx_aside W mask slate 1 context).mono
    (logStep_frees (keeping slate.id)).aside)).ok (logged_refl hok) hcomp
  obtain ⟨⟨⟩, w₆, hs, g₆⟩ := Prog.bind_ok.1 g₄
  obtain ⟨⟨⟩, w₇, hm, g₇⟩ := Prog.bind_ok.1 g₆
  obtain ⟨⟨⟩, w₈, hd, g₈⟩ := Prog.bind_ok.1 g₇
  cases g₈
  obtain ⟨p, n, m, kernel', hk', hside, hmark, hmarks⟩ := finalized_marks (hid ▸ h₄.ok) hs hm hd
  rw [hk] at hk'
  cases hk'
  rw [hid] at hmark hmarks
  refine ⟨hid, kernel, p, n, m, hk, hx, hside, ?_, hmarks.after h₄⟩
  rw [← markAt_of_logged h₄]
  exact hmark

end

end EpicWallet
