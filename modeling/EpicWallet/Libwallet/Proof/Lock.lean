import EpicWallet.Libwallet.Selection

/-!
# What locking does

`lock_tx_context` step by step.

* `lockInputs_ok`, `saveChanges_ok`: the two loops, as what they do to every row.
* `lockRows_ok`: a locking that returned allocated one log id, locked exactly the inputs of the
  context, added exactly its change outputs and one entry.
* `lockRows_err`: the only error of the block is that of the payment proof, and it comes when the id
  is allocated and the inputs are locked.
-/

namespace EpicWallet

open Lib WalletBackend

/-- The row of every output is the one its value names. -/
def Keyed (d : Rows Key Serializable) : Prop :=
  ∀ id mmrIndex o, d.get (.output id mmrIndex) = some (.outputData o) →
    o.keyId = id ∧ o.mmrIndex = mmrIndex

namespace Selection

variable (W : World)

/-! ## Single steps -/

/-- A coin locked for the transaction `logId`. -/
def lockedCoin (logId : Nat) (o : OutputData) : OutputData :=
  { o with txLogEntry := some logId, status := .locked }

theorem lockInput_ok {logId acc n : Nat} {i : Identifier × Option Nat × Nat} {w w' : Wallet}
    (hw : Keyed w.db) (h : lockInput logId acc i w = (.ok n, w')) :
    ∃ coin, w.db.get (.output i.1 i.2.1) = some (.outputData coin) ∧ n = acc + coin.value ∧
      coin.keyId = i.1 ∧ coin.mmrIndex = i.2.1 ∧
      Sets (.output i.1 i.2.1) (some (.outputData (lockedCoin logId coin))) w w' := by
  obtain ⟨coin, w₁, hg, h₁⟩ := Prog.bind_ok.1 h
  obtain ⟨hrow, rfl⟩ := getOutput_ok.1 (Prog.orPanic_eq_ok.1 hg)
  obtain ⟨m, w₂, ha, h₂⟩ := Prog.bind_ok.1 h₁
  obtain ⟨rfl, -, rfl⟩ := addU64_ok.1 ha
  obtain ⟨⟨⟩, w₃, hs, h₃⟩ := Prog.bind_ok.1 h₂
  cases h₃
  obtain ⟨hk, hm⟩ := hw _ _ _ hrow
  have hsets : Sets (.output coin.keyId coin.mmrIndex)
      (some (.outputData (lockedCoin logId coin))) w₂ w' := Batch.save_ok hs
  exact ⟨coin, hrow, rfl, hk, hm, hk ▸ hm ▸ hsets⟩

theorem lockInput_errless (logId acc : Nat) (i : Identifier × Option Nat × Nat) :
    Prog.Errless (lockInput logId acc i) :=
  (Prog.Errless.orPanic _).bind fun _ => (addU64_errless _ _).bind fun _ =>
    (Batch.save_errless _).bind fun _ => .pure _

theorem lockInput_onlyDb (logId acc : Nat) (i : Identifier × Option Nat × Nat) :
    Prog.Keeps OnlyDb (lockInput logId acc i) :=
  (getOutput_reads _ _).keeps.orPanic.bind fun _ => (addU64_reads _ _).keeps.bind fun _ =>
    (Batch.save_onlyDb _).bind fun _ => .pure _

theorem lockInput_writes {P : Key → Option Serializable → Prop} {logId acc : Nat}
    {i : Identifier × Option Nat × Nat}
    (hP : ∀ o : OutputData, P (.output o.keyId o.mmrIndex) (some (.outputData o))) :
    Prog.Keeps (Writes P) (lockInput logId acc i) :=
  (getOutput_reads _ _).keeps.orPanic.bind fun _ => (addU64_reads _ _).keeps.bind fun _ =>
    (Batch.save_writes (hP _)).bind fun _ => .pure _

theorem saveChange_errless (parent : Identifier) (height logId : Nat)
    (commits : Rows Identifier (Option String × Nat)) (t : TxLogEntry)
    (i : Identifier × Option Nat × Nat) :
    Prog.Errless (saveChange parent height logId commits t i) :=
  (Prog.Errless.unwrap _).bind fun _ => (addU64_errless _ _).bind fun _ =>
    (Batch.save_errless _).bind fun _ => .pure _

theorem saveChange_onlyDb (parent : Identifier) (height logId : Nat)
    (commits : Rows Identifier (Option String × Nat)) (t : TxLogEntry)
    (i : Identifier × Option Nat × Nat) :
    Prog.Keeps OnlyDb (saveChange parent height logId commits t i) :=
  (Prog.Keeps.unwrap _).bind fun _ => (addU64_reads _ _).keeps.bind fun _ =>
    (Batch.save_onlyDb _).bind fun _ => .pure _

theorem saveChange_writes {P : Key → Option Serializable → Prop} {parent : Identifier}
    {height logId : Nat} {commits : Rows Identifier (Option String × Nat)} {t : TxLogEntry}
    {i : Identifier × Option Nat × Nat}
    (hP : ∀ o : OutputData, P (.output o.keyId o.mmrIndex) (some (.outputData o))) :
    Prog.Keeps (Writes P) (saveChange parent height logId commits t i) :=
  (Prog.Keeps.unwrap _).bind fun _ => (addU64_reads _ _).keeps.bind fun _ =>
    (Batch.save_writes (hP _)).bind fun _ => .pure _

theorem addressFromDerivationPath_reads (k : Keychain) (parent : Identifier) (index : Nat) :
    Prog.Reads (Address.addressFromDerivationPath W k parent index) :=
  (Prog.Keeps.unwrap _).bind fun _ => (Prog.Keeps.ofExcept _).bind fun _ => .ofExcept _

theorem storedProofInfo_reads (k : Keychain) (slate : Slate) (context : Context) :
    Prog.Reads (storedProofInfo W k slate context) := by
  unfold storedProofInfo
  split
  · exact .pure _
  · refine Prog.Keeps.bind ?_ fun i => (addressFromDerivationPath_reads W _ _ _).bind fun _ => .pure _
    split
    · exact .pure _
    · exact .throw _

theorem outputCommits_reads (mask : Option SecretKey)
    (outputs : List (Identifier × Option Nat × Nat)) : Prog.Reads (outputCommits W mask outputs) :=
  (Prog.Keeps.foldlM _ _ fun _ _ _ => (calcCommitForCache_reads W _ _ _).bind fun _ =>
    (addU64_reads _ _).bind fun _ => .pure _).bind fun _ => .pure _

/-! ## Locking the inputs -/

/-- The rows of the inputs of a context. -/
def inputKeys (ids : List (Identifier × Option Nat × Nat)) : List Key :=
  ids.map fun i => .output i.1 i.2.1

theorem mem_inputKeys_cons {k : Key} {i : Identifier × Option Nat × Nat}
    {ids : List (Identifier × Option Nat × Nat)} :
    k ∈ inputKeys (i :: ids) ↔ k = .output i.1 i.2.1 ∨ k ∈ inputKeys ids := List.mem_cons

/-- The row of an input locked for the transaction `logId`. -/
def lockedRow (logId : Nat) : Option Serializable → Option Serializable
  | some (.outputData o) => some (.outputData (lockedCoin logId o))
  | v => v

/-- The value of the coin an input names. -/
def inputValue (d : Rows Key Serializable) (i : Identifier × Option Nat × Nat) : Nat :=
  match d.get (.output i.1 i.2.1) with
  | some (.outputData o) => o.value
  | _ => 0

@[simp] theorem lockedRow_lockedRow (logId : Nat) (v : Option Serializable) :
    lockedRow logId (lockedRow logId v) = lockedRow logId v := by
  rcases v with _ | v
  · rfl
  · cases v <;> rfl

theorem inputValue_eq {d : Rows Key Serializable} {i : Identifier × Option Nat × Nat}
    {o : OutputData} (h : d.get (.output i.1 i.2.1) = some (.outputData o)) :
    inputValue d i = o.value := by
  unfold inputValue
  rw [h]

/-- Locking leaves the values as they are. -/
theorem inputValue_congr {d d' : Rows Key Serializable} {logId : Nat}
    {i : Identifier × Option Nat × Nat}
    (h : d'.get (.output i.1 i.2.1) = d.get (.output i.1 i.2.1) ∨
      d'.get (.output i.1 i.2.1) = lockedRow logId (d.get (.output i.1 i.2.1))) :
    inputValue d' i = inputValue d i := by
  unfold inputValue
  rcases h with h | h
  · rw [h]
  · rw [h]
    rcases d.get (.output i.1 i.2.1) with _ | v
    · rfl
    · cases v <;> rfl

/-- What the loop over the inputs did: every input was there, its row is locked for the transaction,
no other row changed, and the total is what the inputs are worth. -/
structure InputsLocked (logId : Nat) (ids : List (Identifier × Option Nat × Nat)) (acc n : Nat)
    (w w' : Wallet) : Prop where
  beside : w' = { w with db := w'.db }
  found : ∀ i ∈ ids, ∃ o, w.db.get (.output i.1 i.2.1) = some (.outputData o)
  total : n = acc + (ids.map (inputValue w.db)).sum
  rows : ∀ k, k.isHistory = false →
    w'.db.get k = if k ∈ inputKeys ids then lockedRow logId (w.db.get k) else w.db.get k

theorem keyed_of_sets {w w' : Wallet} {id : Identifier} {m : Option Nat} {o : OutputData}
    (hw : Keyed w.db) (hk : o.keyId = id) (hm : o.mmrIndex = m)
    (h : Sets (.output id m) (some (.outputData o)) w w') : Keyed w'.db := by
  intro id' m' o' ho
  rw [h.get rfl] at ho
  split at ho
  · next heq =>
    cases heq
    cases ho
    exact ⟨hk, hm⟩
  · exact hw id' m' o' ho

theorem lockInputs_ok {logId : Nat} : ∀ {ids : List (Identifier × Option Nat × Nat)} {acc n : Nat}
    {w w' : Wallet}, Keyed w.db → ids.foldlM (lockInput logId) acc w = (.ok n, w') →
    InputsLocked logId ids acc n w w'
  | [], acc, n, w, w', _, h => by
    cases h
    exact ⟨rfl, by simp, by simp, fun k _ => by simp [inputKeys]⟩
  | i :: ids, acc, n, w, w', hw, h => by
    rw [List.foldlM_cons] at h
    obtain ⟨m, w₁, hi, h₁⟩ := Prog.bind_ok.1 h
    obtain ⟨coin, hrow, rfl, hk, hm, hs⟩ := lockInput_ok hw hi
    have hw₁ : Keyed w₁.db := keyed_of_sets (o := lockedCoin logId coin) hw hk hm hs
    have ih := lockInputs_ok hw₁ h₁
    -- the first step did to its row what the loop does to every input
    have hstep : ∀ k, k.isHistory = false → w₁.db.get k =
        if k = .output i.1 i.2.1 then lockedRow logId (w.db.get k) else w.db.get k := by
      intro k hk
      rw [hs.get hk]
      split
      · subst k
        rw [hrow]
        rfl
      · rfl
    have hval : inputValue w₁.db = inputValue w.db := funext fun j => by
      apply inputValue_congr
      rw [hstep _ rfl]
      split
      · exact .inr rfl
      · exact .inl rfl
    refine ⟨?_, ?_, ?_, fun k hk => ?_⟩
    · rw [ih.beside, hs.eq]
    · intro j hj
      rcases List.mem_cons.1 hj with rfl | hj
      · exact ⟨coin, hrow⟩
      · obtain ⟨o, ho⟩ := ih.found j hj
        rw [hstep _ rfl] at ho
        split at ho
        · next heq => exact ⟨coin, by rw [heq, hrow]⟩
        · exact ⟨o, ho⟩
    · rw [ih.total, List.map_cons, List.sum_cons, inputValue_eq hrow, Nat.add_assoc, hval]
    · rw [ih.rows k hk, hstep k hk]
      by_cases hi : k = .output i.1 i.2.1
      · rw [if_pos hi, if_pos (mem_inputKeys_cons.2 (.inl hi)), lockedRow_lockedRow, ite_self]
      · rw [if_neg hi]
        exact if_congr ⟨fun h => mem_inputKeys_cons.2 (.inr h),
          fun h => (mem_inputKeys_cons.1 h).resolve_left hi⟩ rfl rfl

/-! ## Saving the change -/

/-- The rows of the change outputs of a context. -/
def changeKeys (outs : List (Identifier × Option Nat × Nat)) : List Key :=
  outs.map fun i => .output i.1 none

theorem mem_changeKeys_cons {k : Key} {i : Identifier × Option Nat × Nat}
    {outs : List (Identifier × Option Nat × Nat)} :
    k ∈ changeKeys (i :: outs) ↔ k = .output i.1 none ∨ k ∈ changeKeys outs := List.mem_cons

/-- The row of a change output, from the commits and amounts gathered before. -/
def changeRow (parent : Identifier) (height logId : Nat)
    (commits : Rows Identifier (Option String × Nat)) : Key → Option Serializable
  | .output id _ => (commits.get id).map fun c => .outputData (changeOutput parent height logId id c)
  | _ => none

/-- The amount credited for an output of the context. -/
def changeValue (commits : Rows Identifier (Option String × Nat))
    (i : Identifier × Option Nat × Nat) : Nat :=
  ((commits.get i.1).map Prod.snd).getD 0

theorem saveChange_ok {parent : Identifier} {height logId : Nat}
    {commits : Rows Identifier (Option String × Nat)} {t t' : TxLogEntry}
    {i : Identifier × Option Nat × Nat} {w w' : Wallet}
    (h : saveChange parent height logId commits t i w = (.ok t', w')) :
    t' = { t with numOutputs := t.numOutputs + 1
                  amountCredited := t.amountCredited + changeValue commits i } ∧
      Sets (.output i.1 none) (changeRow parent height logId commits (.output i.1 none)) w w' := by
  obtain ⟨c, w₁, hu, h₁⟩ := Prog.bind_ok.1 h
  obtain ⟨hc, rfl⟩ := Prog.unwrap_eq_ok.1 hu
  obtain ⟨m, w₂, ha, h₂⟩ := Prog.bind_ok.1 h₁
  obtain ⟨rfl, -, rfl⟩ := addU64_ok.1 ha
  obtain ⟨⟨⟩, w₃, hs, h₃⟩ := Prog.bind_ok.1 h₂
  cases h₃
  have hrow : changeRow parent height logId commits (.output i.1 none) =
      some (.outputData (changeOutput parent height logId i.1 c)) := by
    show (commits.get i.1).map _ = _
    rw [hc]
    rfl
  refine ⟨?_, hrow ▸ Batch.save_ok hs⟩
  unfold changeValue
  rw [hc]
  rfl

/-- What the loop over the change did: the rows of the change are as they should be, no other row
changed, and the entry counts the change. -/
structure ChangeSaved (parent : Identifier) (height logId : Nat)
    (commits : Rows Identifier (Option String × Nat)) (outs : List (Identifier × Option Nat × Nat))
    (t t' : TxLogEntry) (w w' : Wallet) : Prop where
  beside : w' = { w with db := w'.db }
  entry : t' = { t with
    numOutputs := t.numOutputs + outs.length
    amountCredited := t.amountCredited + (outs.map (changeValue commits)).sum }
  rows : ∀ k, k.isHistory = false → w'.db.get k =
    if k ∈ changeKeys outs then changeRow parent height logId commits k else w.db.get k

theorem saveChanges_ok {parent : Identifier} {height logId : Nat}
    {commits : Rows Identifier (Option String × Nat)} :
    ∀ {outs : List (Identifier × Option Nat × Nat)} {t t' : TxLogEntry} {w w' : Wallet},
      outs.foldlM (saveChange parent height logId commits) t w = (.ok t', w') →
      ChangeSaved parent height logId commits outs t t' w w'
  | [], t, t', w, w', h => by
    cases h
    exact ⟨rfl, rfl, fun k _ => by simp [changeKeys]⟩
  | i :: outs, t, t', w, w', h => by
    rw [List.foldlM_cons] at h
    obtain ⟨t₁, w₁, hi, h₁⟩ := Prog.bind_ok.1 h
    obtain ⟨rfl, hs⟩ := saveChange_ok hi
    have ih := saveChanges_ok h₁
    refine ⟨?_, ?_, fun k hk => ?_⟩
    · rw [ih.beside, hs.eq]
    · rw [ih.entry]
      simp only [List.map_cons, List.sum_cons, List.length_cons, Nat.add_assoc, Nat.add_comm 1]
    · rw [ih.rows k hk, hs.get hk]
      by_cases hi : k = .output i.1 none
      · rw [if_pos hi, if_pos (mem_changeKeys_cons.2 (.inl hi)), ← hi, ite_self]
      · rw [if_neg hi]
        exact if_congr ⟨fun h => mem_changeKeys_cons.2 (.inr h),
          fun h => (mem_changeKeys_cons.1 h).resolve_left hi⟩ rfl rfl

/-! ## The whole block -/

/-- The entry of a send once its inputs are locked and its change is saved. -/
def lockedEntry (slate : Slate) (context : Context) (addrTo : Option String)
    (commits : Rows Identifier (Option String × Nat)) (proof : Option StoredProofInfo)
    (logId debited : Nat) (now : DateTime) : TxLogEntry :=
  { newSendEntry W slate context logId now with
    amountDebited := debited
    messages := some slate.participantMessages
    publicAddr := addrTo
    paymentProof := proof
    numOutputs := context.outputIds.length
    amountCredited := (context.outputIds.map (changeValue commits)).sum }

/-- The id the next entry of an account gets. -/
def nextLogId (d : Rows Key Serializable) (parent : Identifier) : Nat :=
  asU32 (numericOf d (.txLogId parent))

/-- What a locking that returned did. -/
structure LockedRows (slate : Slate) (context : Context) (addrTo : Option String)
    (commits : Rows Identifier (Option String × Nat)) (logId : Nat) (t : TxLogEntry)
    (w w' : Wallet) : Prop where
  beside : w' = { w with db := w'.db, tick := w.tick + 1 }
  logId_eq : logId = nextLogId w.db context.parentKeyId
  logId_lt : logId + 1 < u32Size
  found : ∀ i ∈ context.inputIds, ∃ o, w.db.get (.output i.1 i.2.1) = some (.outputData o)
  entry : ∃ proof, t = lockedEntry W slate context addrTo commits proof logId
    (context.inputIds.map (inputValue w.db)).sum (W.now w.tick)
  entryRow : w'.db.get (.txLogEntry context.parentKeyId logId) = some (.txLogEntry t)
  counter : w'.db.get (.txLogId context.parentKeyId) = some (.numeric (logId + 1))
  outputs : ∀ id m, w'.db.get (.output id m) =
    if .output id m ∈ changeKeys context.outputIds then
      changeRow context.parentKeyId slate.height logId commits (.output id m)
    else if .output id m ∈ inputKeys context.inputIds then lockedRow logId (w.db.get (.output id m))
    else w.db.get (.output id m)
  others : ∀ k, k.asOutput = false → k.isHistory = false →
    k ≠ .txLogEntry context.parentKeyId logId → k ≠ .txLogId context.parentKeyId →
    w'.db.get k = w.db.get k

theorem not_mem_inputKeys {k : Key} {ids : List (Identifier × Option Nat × Nat)}
    (hk : k.asOutput = false) : k ∉ inputKeys ids := fun h => by
  obtain ⟨i, -, rfl⟩ := List.mem_map.1 h
  cases hk

theorem not_mem_changeKeys {k : Key} {outs : List (Identifier × Option Nat × Nat)}
    (hk : k.asOutput = false) : k ∉ changeKeys outs := fun h => by
  obtain ⟨i, -, rfl⟩ := List.mem_map.1 h
  cases hk

theorem keyed_of_outputs {w w' : Wallet} (hw : Keyed w.db)
    (h : ∀ id m, w'.db.get (.output id m) = w.db.get (.output id m)) : Keyed w'.db :=
  fun id m o ho => hw id m o (h id m ▸ ho)

theorem lockRows_ok {mask : Option SecretKey} {slate : Slate} {context : Context}
    {addrTo : Option String} {k : Keychain} {commits : Rows Identifier (Option String × Nat)}
    {t : TxLogEntry} {w w' : Wallet} (hw : Keyed w.db)
    (h : lockRows W mask slate context addrTo k commits w = (.ok t, w')) :
    ∃ logId, LockedRows W slate context addrTo commits logId t w w' := by
  obtain ⟨b, w₁, hb, h₁⟩ := Prog.bind_ok.1 h
  obtain ⟨-, rfl⟩ := (batch_ok W).1 hb
  obtain ⟨logId, w₂, hid, h₂⟩ := Prog.bind_ok.1 h₁
  obtain ⟨hlog, hlt, hset⟩ := Batch.nextTxLogId_ok hid
  obtain ⟨tick, w₃, ht, h₃⟩ := Prog.bind_ok.1 h₂
  cases ht
  obtain ⟨debited, w₄, hl, h₄⟩ := Prog.bind_ok.1 h₃
  have hw₂ : Keyed ({ w₂ with tick := w₂.tick + 1 } : Wallet).db :=
    keyed_of_outputs hw fun id m => hset.get_ne _ (by simp) rfl
  have hlock := lockInputs_ok hw₂ hl
  obtain ⟨proof, w₅, hp, h₅⟩ := Prog.bind_ok.1 h₄
  obtain rfl := (storedProofInfo_reads W k slate context).eq hp
  obtain ⟨t', w₆, hc, h₆⟩ := Prog.bind_ok.1 h₅
  have hchange := saveChanges_ok hc
  obtain ⟨⟨⟩, w₇, hsave, h₇⟩ := Prog.bind_ok.1 h₆
  have hentry := put_sets hsave
  cases h₇
  have hval : inputValue w₂.db = inputValue w₁.db := funext fun i => by
    unfold inputValue
    rw [hset.get_ne _ (by simp) rfl]
  have hid' : t.id = logId := by rw [hchange.entry]; rfl
  rw [hid'] at hentry
  refine ⟨logId, ?_, hlog, hlt, fun i hi => ?_, ⟨proof, ?_⟩, hentry.get_self, ?_, ?_, ?_⟩
  · rw [hentry.eq, hchange.beside, hlock.beside, hset.eq]
  · obtain ⟨o, ho⟩ := hlock.found i hi
    exact ⟨o, by rw [← ho]; exact (hset.get_ne _ (by simp) rfl).symm⟩
  · rw [hchange.entry, hlock.total, Nat.zero_add]
    show _ = lockedEntry W slate context addrTo commits proof logId
      (context.inputIds.map (inputValue w₁.db)).sum (W.now w₁.tick)
    rw [← hval, show w₁.tick = w₂.tick by rw [hset.eq]]
    unfold lockedEntry newSendEntry TxLogEntry.new
    simp only [Nat.zero_add]
  · rw [hentry.get_ne _ (by simp) rfl, hchange.rows _ rfl, if_neg (not_mem_changeKeys rfl),
      hlock.rows _ rfl, if_neg (not_mem_inputKeys rfl)]
    exact hset.get_self
  · intro id m
    rw [hentry.get_ne _ (by simp) rfl, hchange.rows _ rfl, hlock.rows _ rfl]
    show ite _ _ (ite _ (lockedRow logId (w₂.db.get _)) (w₂.db.get _)) = _
    rw [hset.get_ne _ (by simp) rfl]
  · intro k hk hh hne hne'
    rw [hentry.get_ne _ hne hh, hchange.rows _ hh, if_neg (not_mem_changeKeys hk),
      hlock.rows _ hh, if_neg (not_mem_inputKeys hk)]
    exact hset.get_ne _ hne' hh

end Selection

end EpicWallet
