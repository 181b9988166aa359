import EpicWallet.Lib.Views
import EpicWallet.Libwallet.Proof.Collect
import EpicWallet.Libwallet.Proof.LiveOutputs
import EpicWallet.Libwallet.Proof.Restore

/-!
# What a scan makes of the outputs

A scan compares the outputs of the chain with the wallet's and writes each output back as it was read,
with its old MMR index. Where no key is used twice (`OneCoin`), what is stored under a key afterwards is
a function of the wallet's output with that key and of the chain's (`Scan.scan_outputs`).

* `Scan.shown_repaired_iff`: when that function leaves the chain's output once, and unspent.
* `Scan.scan_mirrors`: the scan of a range against an honest node.
-/

namespace EpicWallet

open Lib WalletBackend

/-! ## What is stored under a key -/

/-- Outputs of one key, by MMR index. -/
abbrev Slots := Option Nat → Option OutputData

namespace Slots

def empty : Slots := fun _ => none

def put (c : Slots) (o : OutputData) : Slots := Function.update c o.mmrIndex (some o)

def drop (c : Slots) (m : Option Nat) : Slots := Function.update c m none

/-- The output alone. -/
def only (o : OutputData) : Slots := empty.put o

@[simp] theorem put_apply (c : Slots) (o : OutputData) (m : Option Nat) :
    c.put o m = if m = o.mmrIndex then some o else c m := by
  unfold put
  rw [Function.update_apply]

@[simp] theorem drop_apply (c : Slots) (m m' : Option Nat) :
    c.drop m m' = if m' = m then none else c m' := by
  unfold drop
  rw [Function.update_apply]

@[simp] theorem empty_apply (m : Option Nat) : empty m = none := rfl

theorem only_apply (o : OutputData) (m : Option Nat) :
    only o m = if m = o.mmrIndex then some o else none := put_apply empty o m

end Slots

/-- The outputs stored under a key. -/
def slots (id : Identifier) (w : Wallet) : Slots :=
  fun m => (w.db.get (.output id m)).bind Serializable.asOutputData

theorem slots_eq_some {id : Identifier} {w : Wallet} {m : Option Nat} {o : OutputData} :
    slots id w m = some o ↔ w.db.get (.output id m) = some (.outputData o) := by
  unfold slots
  simp only [Option.bind_eq_some_iff, Serializable.asOutputData_eq]
  constructor
  · rintro ⟨_, h, rfl⟩
    exact h
  · exact fun h => ⟨_, h, rfl⟩

theorem slots_congr {id : Identifier} {w w' : Wallet}
    (h : ∀ m, w'.db.get (.output id m) = w.db.get (.output id m)) : slots id w' = slots id w := by
  funext m
  unfold slots
  rw [h]

theorem slots_of_touches {S : List RowKind} (hS : .output ∉ S) {id : Identifier} {w w' : Wallet}
    (h : Touches S w w') : slots id w' = slots id w := slots_congr fun _ => h.get hS

theorem unseen_of_touches {α : Type} {S : List RowKind} (hS : .output ∉ S) {id : Identifier}
    {p : WalletM α} (h : Prog.Keeps (Touches S) p) : Prog.Unseen (slots id) p :=
  fun _ _ _ hrun => slots_of_touches hS (h.rel hrun)

theorem unseen_of_reads {α : Type} {id : Identifier} {p : WalletM α} (h : Prog.Reads p) :
    Prog.Unseen (slots id) p := fun s a t hrun => by
  have := h s
  rw [hrun] at this
  rw [this]

theorem Batch.save_slots {o : OutputData} {id : Identifier} (h : o.keyId = id) :
    Prog.Turns (slots id) (fun c c' => c' = c.put o) (Batch.save o) := by
  intro w _ w' hrun
  have hset := Batch.save_ok hrun
  funext m
  unfold slots
  rw [hset.get rfl, Slots.put_apply]
  by_cases hm : m = o.mmrIndex
  · rw [if_pos (by rw [h, hm]), if_pos hm]
    rfl
  · rw [if_neg (by simp [hm]), if_neg hm]

theorem Batch.save_unseen {o : OutputData} {id : Identifier} (h : o.keyId ≠ id) :
    Prog.Unseen (slots id) (Batch.save o) := by
  intro w _ w' hrun
  have hset := Batch.save_ok hrun
  exact slots_congr fun m => hset.get_ne _ (by simp [Ne.symm h]) rfl

theorem Batch.delete_slots (id : Identifier) (m txId : Option Nat) :
    Prog.Turns (slots id) (fun c c' => c' = c.drop m) (Batch.delete id m txId) := by
  intro w _ w' hrun
  have hset := Batch.delete_ok hrun
  funext m'
  unfold slots
  rw [hset.get rfl, Slots.drop_apply]
  by_cases hm : m' = m
  · rw [if_pos (by rw [hm]), if_pos hm]
    rfl
  · rw [if_neg (by simp [hm]), if_neg hm]

theorem Batch.delete_unseen {id id' : Identifier} (h : id' ≠ id) (m txId : Option Nat) :
    Prog.Unseen (slots id) (Batch.delete id' m txId) := by
  intro w _ w' hrun
  have hset := Batch.delete_ok hrun
  exact slots_congr fun m => hset.get_ne _ (by simp [Ne.symm h]) rfl

/-! ## The steps of a scan -/

namespace Scan

open Prog

section
variable {id : Identifier}

/-- What is stored under the key once the MMR index of its output is set. -/
def reindexed (s : OutputData) (i : Nat) (c : Slots) : Slots :=
  if s.mmrIndex = some i then c
  else (if s.mmrIndex = none then c.drop none else c).put { s with mmrIndex := some i }

variable (W : World) (mask : Option SecretKey)

theorem walletLock_unseen : Unseen (slots id) (walletLock W) :=
  unseen_of_touches (S := []) (by decide) (walletLock_touches W)

theorem batch_unseen : Unseen (slots id) (batch W mask) := unseen_of_reads (batch_reads W mask)

theorem cancelTxLogEntry_unseen (o : OutputData) :
    Unseen (slots id) (cancelTxLogEntry W mask o) :=
  unseen_of_touches (S := [.entry]) (by decide)
    (cancelTxLogEntry_keeps (touches_frees _) W (walletLock_touches W) (by decide) mask o)

theorem updateMmrIndex_slots {s : OutputData} (h : s.keyId = id) (i : Nat) :
    Turns (slots id) (fun c c' => c' = reindexed s i c) (updateMmrIndex W mask s i) := by
  unfold updateMmrIndex reindexed
  by_cases hi : s.mmrIndex = some i
  · rw [if_neg (not_not.2 hi)]
    simp only [if_pos hi]
    exact (Unseen.pure ()).turns
  · rw [if_pos hi]
    simp only [if_neg hi]
    refine .after (walletLock_unseen W) fun _ => .after (batch_unseen W mask) fun _ => ?_
    have hsave := Batch.save_slots (o := { s with mmrIndex := some i }) h
    rcases hm : s.mmrIndex with _ | j
    · intro w _ w' hrun
      obtain ⟨_, w₁, hdelete, hrun⟩ := bind_ok.1 hrun
      rw [Option.isNone_none, if_pos rfl, h] at hdelete
      rw [if_pos rfl, ← Batch.delete_slots id none _ _ _ _ hdelete]
      exact hsave.before (fun _ => .pure ()) _ _ _ hrun
    · rw [Option.isNone_some, if_neg (by decide)]
      simp only [reduceCtorEq, if_false]
      exact .after (.pure ()) fun _ => hsave.before fun _ => .pure ()

theorem updateMmrIndex_unseen {s : OutputData} (h : s.keyId ≠ id) (i : Nat) :
    Unseen (slots id) (updateMmrIndex W mask s i) := by
  unfold updateMmrIndex
  split
  · refine (walletLock_unseen W).bind fun _ => (batch_unseen W mask).bind fun _ => Unseen.bind ?_ fun _ =>
      (Batch.save_unseen (o := { s with mmrIndex := some i }) h).bind fun _ => .pure ()
    split
    · exact Batch.delete_unseen h _ _
    · exact .pure ()
  · exact .pure ()

theorem markUnspent_slots {o : OutputData} (h : o.keyId = id) :
    Turns (slots id) (fun c c' => c' = c.put { o with status := .unspent }) (markUnspent W mask o) :=
  .after (cancelTxLogEntry_unseen W mask _) fun _ => .after (walletLock_unseen W) fun _ =>
    .after (batch_unseen W mask) fun _ =>
      (Batch.save_slots (o := { o with status := .unspent }) h).before fun _ => .pure ()

theorem markUnspent_unseen {o : OutputData} (h : o.keyId ≠ id) :
    Unseen (slots id) (markUnspent W mask o) :=
  (cancelTxLogEntry_unseen W mask _).bind fun _ => (walletLock_unseen W).bind fun _ =>
    (batch_unseen W mask).bind fun _ =>
      (Batch.save_unseen (o := { o with status := .unspent }) h).bind fun _ => .pure ()

theorem deleteUnconfirmed_slots {o : OutputData} (h : o.keyId = id) :
    Turns (slots id) (fun c c' => c' = c.drop o.mmrIndex) (deleteUnconfirmed W mask o) := by
  refine .after (cancelTxLogEntry_unseen W mask _) fun _ => .after (walletLock_unseen W) fun _ =>
    .after (batch_unseen W mask) fun _ => ?_
  rw [h]
  exact (Batch.delete_slots id _ _).before fun _ => .pure ()

theorem deleteUnconfirmed_unseen {o : OutputData} (h : o.keyId ≠ id) :
    Unseen (slots id) (deleteUnconfirmed W mask o) :=
  (cancelTxLogEntry_unseen W mask _).bind fun _ => (walletLock_unseen W).bind fun _ =>
    (batch_unseen W mask).bind fun _ => (Batch.delete_unseen h _ _).bind fun _ => .pure ()

/-- The steps of a restoration that come before the output is stored. -/
theorem nextTxLogId_unseen (p : Identifier) : Unseen (slots id) (Batch.nextTxLogId p) :=
  unseen_of_touches (S := [.logId]) (by decide)
    (Batch.nextTxLogId_keeps (touches_frees _) (by decide) p)

theorem saveTxLogEntry_unseen (t : TxLogEntry) (p : Identifier) :
    Unseen (slots id) (Batch.saveTxLogEntry t p) :=
  unseen_of_touches (S := [.entry]) (by decide)
    (Batch.saveTxLogEntry_keeps (touches_frees _) (by decide) t p)

theorem nextTick_unseen : Unseen (slots id) nextTick :=
  unseen_of_touches (S := []) (by decide) (touches_frees []).nextTick

theorem restoreMissingOutput_slots {output : OutputResult} (h : output.keyId = id)
    (found : Rows Identifier Nat) :
    Turns (slots id) (fun c c' => ∃ commit n,
      c' = c.put (restoredOutput output output.keyId.parentPath commit n))
      (restoreMissingOutput W mask output found) := by
  rw [restoreMissingOutput_eq]
  refine .after (walletLock_unseen W) fun _ => .after (unseen_of_reads (calcCommitForCache_reads W _ _ _))
    fun commit => .after (batch_unseen W mask) fun _ => .after (nextTxLogId_unseen _) fun logId =>
      .after nextTick_unseen fun _ => .after nextTick_unseen fun _ =>
        .after (saveTxLogEntry_unseen _ _) fun _ => ?_
  have hsave := (Batch.save_slots
    (o := restoredOutput output output.keyId.parentPath commit logId) h).attempt (Batch.save_errless _)
  exact (hsave.mono fun _ _ hc => ⟨commit, logId, hc⟩).before fun _ =>
    (Unseen.pure ()).bind fun _ => .pure _

theorem restoreMissingOutput_unseen {output : OutputResult} (h : output.keyId ≠ id)
    (found : Rows Identifier Nat) :
    Unseen (slots id) (restoreMissingOutput W mask output found) := by
  rw [restoreMissingOutput_eq]
  refine (walletLock_unseen W).bind fun _ => (unseen_of_reads (calcCommitForCache_reads W _ _ _)).bind
    fun commit => (batch_unseen W mask).bind fun _ => (nextTxLogId_unseen _).bind fun logId =>
      nextTick_unseen.bind fun _ => nextTick_unseen.bind fun _ =>
        (saveTxLogEntry_unseen _ _).bind fun _ => ?_
  have hsave := (Batch.save_unseen
    (o := restoredOutput output output.keyId.parentPath commit logId) h).attempt (Batch.save_errless _)
  exact hsave.bind fun _ => (Unseen.pure ()).bind fun _ => .pure _

theorem restorePath_unseen (accounts : List Identifier) (acct : Nat) (found : Identifier × Nat) :
    Unseen (slots id) (restorePath W mask accounts acct found) :=
  unseen_of_touches (S := [.account, .deriv]) (by decide)
    (restorePath_keeps (touches_frees _) W (walletLock_touches W) (by decide) (by decide) mask accounts
      acct found)

end

/-! ### Comparing the lists -/

/-- The wallet's output with the commitment of one of the chain. -/
def pairOf (outs : List (OutputData × Commitment)) (r : OutputResult) : Option OutputData :=
  (outs.find? fun wo => wo.2 = r.commit).map Prod.fst

/-- The wallet's outputs of a status that the chain has. -/
def pairsOf (outs : List (OutputData × Commitment)) (status : OutputStatus) (l : List OutputResult) :
    List OutputData := (l.filterMap (pairOf outs)).filter fun s => s.status = status

variable (W : World) (mask : Option SecretKey)

/-- What the comparison does about an output of the chain. -/
def matchOne (outs : List (OutputData × Commitment)) (r : OutputResult) : WalletM Unit :=
  match pairOf outs r with
  | some s => updateMmrIndex W mask s r.mmrIndex
  | none => pure ()

variable {W mask}

theorem matchOutputs_ok {outs : List (OutputData × Commitment)} :
    ∀ {l : List OutputResult} {res : List OutputResult × List OutputData × List OutputData}
      {w w' : Wallet}, matchOutputs W mask outs l w = (.ok res, w') →
        forEach l (matchOne W mask outs) w = (.ok (), w') ∧
          res = (l.filter fun r => (pairOf outs r).isNone, pairsOf outs .spent l, pairsOf outs .locked l)
  | [], res, w, w', h => by
    cases h
    exact ⟨rfl, rfl⟩
  | r :: l, res, w, w', h => by
    unfold matchOutputs at h
    unfold forEach matchOne pairsOf
    rcases hpair : outs.find? fun wo => wo.2 = r.commit with _ | s
    · have hnone : pairOf outs r = none := by
        unfold pairOf
        rw [hpair]
        rfl
      rw [hpair] at h
      obtain ⟨⟨missing, spent, locked⟩, w₁, hrest, hpure⟩ := bind_ok.1 h
      cases hpure
      obtain ⟨hrun, heq⟩ := matchOutputs_ok hrest
      obtain ⟨rfl, rfl, rfl⟩ : _ ∧ _ ∧ _ := by simpa using heq
      refine ⟨?_, ?_⟩
      · rw [hnone]
        exact bind_ok.2 ⟨(), w, rfl, hrun⟩
      · simp [hnone, pairsOf]
    · have hsome : pairOf outs r = some s.1 := by
        unfold pairOf
        rw [hpair]
        rfl
      rw [hpair] at h
      obtain ⟨_, w₁, hupdate, h⟩ := bind_ok.1 h
      obtain ⟨⟨missing, spent, locked⟩, w₂, hrest, hpure⟩ := bind_ok.1 h
      cases hpure
      obtain ⟨hrun, heq⟩ := matchOutputs_ok hrest
      obtain ⟨rfl, rfl, rfl⟩ : _ ∧ _ ∧ _ := by simpa using heq
      refine ⟨?_, ?_⟩
      · rw [hsome]
        exact bind_ok.2 ⟨(), w₁, hupdate, hrun⟩
      · simp [hsome, pairsOf, List.filter_cons]

/-! ### What the passes do under one key -/

/-- The wallet's outputs, as they were listed, are paired with those of the chain by their keys. -/
structure Paired (w : Wallet) (outs : List (OutputData × Commitment)) (l : List OutputResult) : Prop where
  pair : ∀ r ∈ l, ∀ s, pairOf outs r = some s ↔ s ∈ outputsOf w.db ∧ s.keyId = r.keyId
  listed : ∀ s, s ∈ outs.map Prod.fst ↔ s ∈ outputsOf w.db

/-- The wallet's output with a key, and the chain's. -/
structure Meets (w : Wallet) (l : List OutputResult) (id : Identifier) (here : Option OutputData)
    (there : Option OutputResult) : Prop where
  here : ∀ s, here = some s ↔ s ∈ outputsOf w.db ∧ s.keyId = id
  there : ∀ r, there = some r ↔ r ∈ l ∧ r.keyId = id

section
variable {w : Wallet} {outs : List (OutputData × Commitment)} {l : List OutputResult} {id : Identifier}
  {here : Option OutputData} {there : Option OutputResult}

/-- An output of the chain with the key has the wallet's as its pair. -/
theorem Meets.pair (hm : Meets w l id here there) (hp : Paired w outs l) {r : OutputResult}
    (hr : r ∈ l) (hkey : r.keyId = id) : pairOf outs r = here := by
  apply Option.ext
  intro s
  rw [hp.pair r hr s, hm.here s, hkey]

theorem mem_pairsOf {status : OutputStatus} {s : OutputData} :
    s ∈ pairsOf outs status l ↔ (∃ r ∈ l, pairOf outs r = some s) ∧ s.status = status := by
  unfold pairsOf
  simp

/-- The keys of a pair are the same. -/
theorem Paired.key (hp : Paired w outs l) {r : OutputResult} (hr : r ∈ l) {s : OutputData}
    (hs : pairOf outs r = some s) : s.keyId = r.keyId := ((hp.pair r hr s).1 hs).2

def compared : Option OutputData → Option OutputResult → Slots → Slots
  | some s, some r, c => reindexed s r.mmrIndex c
  | _, _, c => c

/-- The chain's output marked unspent, if the wallet's had the status. -/
def revived (status : OutputStatus) : Option OutputData → Option OutputResult → Slots → Slots
  | some s, some _, c => if s.status = status then c.put { s with status := .unspent } else c
  | _, _, c => c

def discarded : Option OutputData → Slots → Slots
  | some s, c => if s.status = .unconfirmed then c.drop s.mmrIndex else c
  | none, c => c

theorem reindexed_again (s : OutputData) (i : Nat) (c : Slots) :
    reindexed s i (reindexed s i c) = reindexed s i c := by
  funext m
  unfold reindexed
  split_ifs
  · rfl
  · simp only [Slots.put_apply, Slots.drop_apply]
    grind
  · simp only [Slots.put_apply]
    grind

theorem put_again (c : Slots) {o o' : OutputData} (h : o'.mmrIndex = o.mmrIndex) :
    (c.put o).put o' = c.put o' := by
  funext m
  simp only [Slots.put_apply, h]
  split_ifs <;> rfl

theorem drop_again (c : Slots) (m : Option Nat) : (c.drop m).drop m = c.drop m := by
  funext m'
  simp only [Slots.drop_apply]
  split_ifs <;> rfl

/-- A change that is the same when it is done again. -/
theorem trans_of_again {g : Slots → Slots} (hg : ∀ c, g (g c) = g c) :
    ∀ x y z : Slots, y = g x → z = g y → z = g x := by
  rintro x _ _ rfl rfl
  exact hg x

variable (W : World) (mask : Option SecretKey)

theorem matchAll_turns (hm : Meets w l id here there) (hp : Paired w outs l) :
    Turns (slots id) (fun c c' => c' = compared here there c) (forEach l (matchOne W mask outs)) := by
  have haside : ∀ r ∈ l, r.keyId ≠ id ∨ here = none → Unseen (slots id) (matchOne W mask outs r) := by
    intro r hr hcase
    unfold matchOne
    rcases hpair : pairOf outs r with _ | s
    · exact .pure ()
    · refine updateMmrIndex_unseen W mask ?_ _
      rw [hp.key hr hpair]
      rcases hcase with hkey | hnone
      · exact hkey
      · intro hkey
        rw [hm.pair hp hr hkey, hnone] at hpair
        cases hpair
  rcases here with _ | s
  · exact (forEach_unseen fun r hr => haside r hr (.inr rfl)).turns
  rcases there with _ | r
  · refine (forEach_unseen fun r hr => haside r hr (.inl fun hkey => ?_)).turns
    have := (hm.there r).2 ⟨hr, hkey⟩
    cases this
  · obtain ⟨hr, hkey⟩ := (hm.there r).1 rfl
    have hpair := hm.pair hp hr hkey
    refine forEach_seen (trans_of_again (reindexed_again s r.mmrIndex)) (b := r) ?_ (fun r' hr' => ?_) hr
    · unfold matchOne
      rw [hpair]
      exact updateMmrIndex_slots W mask ((hp.key hr hpair).trans hkey) _
    · by_cases hkey' : r'.keyId = id
      · exact .inl (Option.some.inj ((hm.there r').2 ⟨hr', hkey'⟩)).symm
      · exact .inr (haside r' hr' (.inl hkey'))

theorem markAll_turns (hm : Meets w l id here there) (hp : Paired w outs l) (status : OutputStatus) :
    Turns (slots id) (fun c c' => c' = revived status here there c)
      (forEach (pairsOf outs status l) (markUnspent W mask)) := by
  have hseen : ∀ s ∈ pairsOf outs status l, s.keyId = id → here = some s ∧ s.status = status ∧
      ∃ r, there = some r := by
    intro s hs hkey
    obtain ⟨⟨r, hr, hpair⟩, hst⟩ := mem_pairsOf.1 hs
    have hrkey : r.keyId = id := (hp.key hr hpair).symm.trans hkey
    exact ⟨(hm.pair hp hr hrkey).symm.trans hpair, hst, r, (hm.there r).2 ⟨hr, hrkey⟩⟩
  have haside : (∀ s ∈ pairsOf outs status l, s.keyId ≠ id) →
      Unseen (slots id) (forEach (pairsOf outs status l) (markUnspent W mask)) := fun h =>
    forEach_unseen fun s hs => markUnspent_unseen W mask (h s hs)
  rcases here with _ | s
  · refine (haside fun s hs hkey => ?_).turns
    have := (hseen s hs hkey).1
    cases this
  rcases there with _ | r
  · refine (haside fun s hs hkey => ?_).turns
    obtain ⟨-, -, r, hr⟩ := hseen s hs hkey
    cases hr
  obtain ⟨hr, hkey⟩ := (hm.there r).1 rfl
  have hpair := hm.pair hp hr hkey
  by_cases hst : s.status = status
  · simp only [revived, if_pos hst]
    refine forEach_seen (trans_of_again fun c => put_again c rfl) (b := s)
      (markUnspent_slots W mask ((hp.key hr hpair).trans hkey)) (fun s' hs' => ?_)
      (mem_pairsOf.2 ⟨⟨r, hr, hpair⟩, hst⟩)
    by_cases hkey' : s'.keyId = id
    · exact .inl (Option.some.inj (hseen s' hs' hkey').1).symm
    · exact .inr (markUnspent_unseen W mask hkey')
  · simp only [revived, if_neg hst]
    refine (haside fun s' hs' hkey' => hst ?_).turns
    obtain ⟨hs, hst', -⟩ := hseen s' hs' hkey'
    rw [Option.some.inj hs]
    exact hst'

theorem restoreAll_turns (hm : Meets w l id here there) (hp : Paired w outs l)
    (found : Rows Identifier Nat) :
    Turns (slots id) (fun c c' => match here, there with
      | none, some r => ∃ commit n, c' = c.put (restoredOutput r r.keyId.parentPath commit n)
      | _, _ => c' = c)
      ((l.filter fun r => (pairOf outs r).isNone).foldlM
        (fun found m => restoreMissingOutput W mask m found) found) := by
  have hmem : ∀ r, r ∈ (l.filter fun r => (pairOf outs r).isNone) ↔ r ∈ l ∧ pairOf outs r = none := by
    intro r
    rw [List.mem_filter, Option.isNone_iff_eq_none]
  have haside : (∀ r, r ∈ l → r.keyId = id → pairOf outs r ≠ none) → Unseen (slots id)
      ((l.filter fun r => (pairOf outs r).isNone).foldlM
        (fun found m => restoreMissingOutput W mask m found) found) := fun h =>
    foldlM_unseen _ fun r hr found => restoreMissingOutput_unseen W mask
      (fun hkey => h r ((hmem r).1 hr).1 hkey ((hmem r).1 hr).2) found
  rcases here with _ | s
  · rcases there with _ | r
    · refine (haside fun r hr hkey => ?_).turns
      have := (hm.there r).2 ⟨hr, hkey⟩
      cases this
    · obtain ⟨hr, hkey⟩ := (hm.there r).1 rfl
      refine foldlM_seen ?_ (b := r) (fun found => restoreMissingOutput_slots W mask hkey found) _
        (fun r' hr' => ?_) ((hmem r).2 ⟨hr, hm.pair hp hr hkey⟩)
      · rintro x _ _ ⟨_, _, rfl⟩ ⟨commit, n, rfl⟩
        exact ⟨commit, n, put_again x rfl⟩
      · by_cases hkey' : r'.keyId = id
        · exact .inl (Option.some.inj ((hm.there r').2 ⟨((hmem r').1 hr').1, hkey'⟩)).symm
        · exact .inr fun found => restoreMissingOutput_unseen W mask hkey' found
  · refine (haside fun r hr hkey hnone => ?_).turns
    rw [hm.pair hp hr hkey] at hnone
    cases hnone

theorem discardAll_turns (hm : Meets w l id here there) (hp : Paired w outs l) :
    Turns (slots id) (fun c c' => c' = discarded here c)
      (forEach ((outs.map Prod.fst).filter fun o => o.status = .unconfirmed)
        (deleteUnconfirmed W mask)) := by
  have hmem : ∀ s, s ∈ ((outs.map Prod.fst).filter fun o => o.status = .unconfirmed) ↔
      s ∈ outputsOf w.db ∧ s.status = .unconfirmed := by
    intro s
    rw [List.mem_filter, hp.listed, decide_eq_true_eq]
  have haside : (∀ s, s ∈ outputsOf w.db → s.keyId = id → s.status ≠ .unconfirmed) →
      Unseen (slots id) (forEach ((outs.map Prod.fst).filter fun o => o.status = .unconfirmed)
        (deleteUnconfirmed W mask)) := fun h => forEach_unseen fun s hs =>
    deleteUnconfirmed_unseen W mask fun hkey => h s ((hmem s).1 hs).1 hkey ((hmem s).1 hs).2
  rcases here with _ | s
  · refine (haside fun s hs hkey => ?_).turns
    have := (hm.here s).2 ⟨hs, hkey⟩
    cases this
  obtain ⟨hs, hkey⟩ := (hm.here s).1 rfl
  by_cases hst : s.status = .unconfirmed
  · simp only [discarded, if_pos hst]
    refine forEach_seen (trans_of_again fun c => drop_again c s.mmrIndex) (b := s)
      (deleteUnconfirmed_slots W mask hkey) (fun s' hs' => ?_) ((hmem s).2 ⟨hs, hst⟩)
    by_cases hkey' : s'.keyId = id
    · exact .inl (Option.some.inj ((hm.here s').2 ⟨((hmem s').1 hs').1, hkey'⟩)).symm
    · exact .inr (deleteUnconfirmed_unseen W mask hkey')
  · simp only [discarded, if_neg hst]
    refine (haside fun s' hs' hkey' => ?_).turns
    rw [← Option.some.inj ((hm.here s').2 ⟨hs', hkey'⟩)]
    exact hst

end

/-! ### What a scan leaves under one key -/

/-- What a scan makes of the outputs under a key, restoring aside. -/
def scanned (delete : Bool) (here : Option OutputData) (there : Option OutputResult) (c : Slots) :
    Slots :=
  let c := revived .spent here there (compared here there c)
  if delete then discarded here (revived .locked here there c) else c

@[simp] theorem scanned_none (delete : Bool) (there : Option OutputResult) (c : Slots) :
    scanned delete none there c = c := by
  unfold scanned
  split <;> rfl

/-- An output alone, unspent, at an index and with a value. -/
def Shows (c : Slots) (i v : Nat) : Prop :=
  ∃ o, c = Slots.only o ∧ o.mmrIndex = some i ∧ o.status = .unspent ∧ o.value = v

/-- A scan sets the wallet's output right: it has the index of the chain's and is unspent, or marked as a
scan marks back; or it has no index yet and is unspent. -/
def Mends (delete : Bool) (s : OutputData) (i : Nat) : Prop :=
  s.mmrIndex = some i ∧ (s.status = .unspent ∨ s.status = .spent ∨ delete = true ∧ s.status = .locked) ∨
    s.mmrIndex = none ∧ s.status = .unspent

section
variable {delete : Bool} {s : OutputData} {r : OutputResult}

theorem Shows.at {c : Slots} {i v : Nat} (h : Shows c i v) {m : Option Nat} {o : OutputData}
    (ho : c m = some o) : m = some i ∧ o.status = .unspent ∧ o.value = v := by
  obtain ⟨a, rfl, hi, hst, hv⟩ := h
  rw [Slots.only_apply] at ho
  split at ho
  · cases ho
    exact ⟨by rw [← hi]; assumption, hst, hv⟩
  · cases ho

theorem put_only {o o' : OutputData} (h : o'.mmrIndex = o.mmrIndex) :
    (Slots.only o).put o' = Slots.only o' := put_again Slots.empty h

/-- With the index of the chain's output, all that is stored is stored there. -/
theorem shows_same (hi : s.mmrIndex = some r.mmrIndex) :
    Shows (scanned delete (some s) (some r) (Slots.only s)) r.mmrIndex s.value ↔
      s.status = .unspent ∨ s.status = .spent ∨ delete = true ∧ s.status = .locked := by
  have hcompared : compared (some s) (some r) (Slots.only s) = Slots.only s := if_pos hi
  have hshown : ∀ o : OutputData, o.mmrIndex = s.mmrIndex → o.value = s.value →
      (Shows (Slots.only o) r.mmrIndex s.value ↔ o.status = .unspent) := fun o ho hv =>
    ⟨fun h => (h.at (m := o.mmrIndex) (o := o) (by rw [Slots.only_apply, if_pos rfl])).2.1,
      fun hst => ⟨o, rfl, ho.trans hi, hst, hv⟩⟩
  unfold scanned
  rw [hcompared]
  rcases hst : s.status with _ | _ | _ | _ | _
  case unconfirmed =>
    have hempty : ¬Shows ((Slots.only s).drop s.mmrIndex) r.mmrIndex s.value := by
      rintro ⟨o, heq, -⟩
      have := congrFun heq o.mmrIndex
      rw [Slots.drop_apply, Slots.only_apply, Slots.only_apply, if_pos rfl] at this
      split_ifs at this
    cases delete <;> simp [revived, discarded, hst, hempty, hshown]
  all_goals cases delete <;> simp [revived, discarded, hst, put_only, hshown]

/-- With another index, the chain's gets a copy with the status the output had. -/
theorem scanned_copy (hi : s.mmrIndex ≠ some r.mmrIndex) (c : Slots) :
    scanned delete (some s) (some r) c (some r.mmrIndex) =
      some { s with mmrIndex := some r.mmrIndex } := by
  have hcompared : compared (some s) (some r) c (some r.mmrIndex) =
      some { s with mmrIndex := some r.mmrIndex } := by
    show reindexed s r.mmrIndex c (some r.mmrIndex) = _
    unfold reindexed
    rw [if_neg hi, Slots.put_apply, if_pos rfl]
  have hrevived : ∀ st (c : Slots), revived st (some s) (some r) c (some r.mmrIndex) =
      c (some r.mmrIndex) := fun st c => by
    simp only [revived]
    split
    · rw [Slots.put_apply, if_neg hi.symm]
    · rfl
  have hdiscarded : ∀ c : Slots, discarded (some s) c (some r.mmrIndex) = c (some r.mmrIndex) :=
    fun c => by
      simp only [discarded]
      split
      · rw [Slots.drop_apply, if_neg hi.symm]
      · rfl
  unfold scanned
  cases delete
  · exact (hrevived _ _).trans hcompared
  · exact (hdiscarded _).trans ((hrevived _ _).trans ((hrevived _ _).trans hcompared))

/-- A scan that leaves an unspent output changes its index only. -/
theorem scanned_unspent (hst : s.status = .unspent) (c : Slots) :
    scanned delete (some s) (some r) c = reindexed s r.mmrIndex c := by
  unfold scanned
  cases delete <;> simp [compared, revived, discarded, hst]

theorem shows_other (hi : s.mmrIndex ≠ some r.mmrIndex) :
    Shows (scanned delete (some s) (some r) (Slots.only s)) r.mmrIndex s.value ↔
      s.mmrIndex = none ∧ s.status = .unspent := by
  constructor
  · intro h
    have hst : s.status = .unspent := (h.at (scanned_copy hi _)).2.1
    refine ⟨?_, hst⟩
    rw [scanned_unspent hst] at h
    -- the old row would be there besides the copy
    by_contra hnone
    have hold : reindexed s r.mmrIndex (Slots.only s) s.mmrIndex = some s := by
      unfold reindexed
      rw [if_neg hi, if_neg hnone, Slots.put_apply, if_neg hi, Slots.only_apply, if_pos rfl]
    exact hi (h.at hold).1
  · rintro ⟨hnone, hst⟩
    rw [scanned_unspent hst]
    refine ⟨{ s with mmrIndex := some r.mmrIndex }, ?_, rfl, hst, rfl⟩
    funext m
    unfold reindexed
    rw [if_neg hi, if_pos hnone, Slots.put_apply, Slots.only_apply]
    split
    · rfl
    · rw [Slots.drop_apply, Slots.only_apply, hnone]
      split <;> rfl

theorem shows_scanned_iff :
    Shows (scanned delete (some s) (some r) (Slots.only s)) r.mmrIndex s.value ↔
      Mends delete s r.mmrIndex := by
  unfold Mends
  by_cases hi : s.mmrIndex = some r.mmrIndex
  · rw [shows_same hi]
    simp [hi]
  · rw [shows_other hi]
    simp [hi]

end

/-! ### Whole scans -/

section
variable {W : World} {mask : Option SecretKey} {delete : Bool} {start stop : Nat} {w w' : Wallet}
  {info : ScannedBlockInfo} {l : List OutputResult} {outs : List (OutputData × Commitment)}
  {id : Identifier} {here : Option OutputData} {there : Option OutputResult}

/-- What is stored under the key before a scan. -/
def slotsOf : Option OutputData → Slots
  | some s => .only s
  | none => .empty

/-- What is stored under the key after a scan. -/
def Leaves (delete : Bool) : Option OutputData → Option OutputResult → Slots → Prop
  | none, some r, c => ∃ commit n, c = .only (restoredOutput r r.keyId.parentPath commit n)
  | here, there, c => c = scanned delete here there (slotsOf here)

/-- The passes of a scan, once both lists are there. -/
def passes (W : World) (mask : Option SecretKey) (delete : Bool) (outs : List (OutputData × Commitment))
    (l : List OutputResult) : WalletM Unit := do
  forEach l (matchOne W mask outs)
  forEach (pairsOf outs .spent l) (markUnspent W mask)
  restoreFrom W mask delete (outs.map Prod.fst) (pairsOf outs .locked l)
    (l.filter fun r => (pairOf outs r).isNone) Rows.empty

theorem restoreParents_turns (hm : Meets w l id here there) (hp : Paired w outs l)
    (found : Rows Identifier Nat) :
    Turns (slots id)
      (fun c c' => c' = if delete then discarded here (revived .locked here there c) else c)
      (restoreParents W mask delete (outs.map Prod.fst) (pairsOf outs .locked l) found) := by
  have hrest : Unseen (slots id) (do
      walletLock W
      let accounts ← acctPathIter
      let tick ← nextTick
      let _ ← (W.mapOrder tick found.toList).foldlM
        (restorePath W mask (accounts.map (·.path))) accounts.length
      pure () : WalletM Unit) :=
    (walletLock_unseen W).bind fun _ => (unseen_of_reads acctPathIter_reads).bind fun _ =>
      nextTick_unseen.bind fun _ => (foldlM_unseen _ fun f _ n => restorePath_unseen W mask _ n f).bind
        fun _ => .pure ()
  intro s _ t hrun
  obtain ⟨_, s₁, hpasses, hlast⟩ := bind_ok.1 hrun
  rw [hrest _ _ _ hlast]
  cases delete
  · cases hpasses
    rfl
  · obtain ⟨_, s₂, hlocked, hdiscard⟩ := bind_ok.1 hpasses
    rw [discardAll_turns W mask hm hp _ _ _ hdiscard, markAll_turns W mask hm hp .locked _ _ _ hlocked]
    rfl

theorem passes_leave (hm : Meets w l id here there) (hp : Paired w outs l) {v v' : Wallet}
    (hv : slots id v = slotsOf here) (h : passes W mask delete outs l v = (.ok (), v')) :
    Leaves delete here there (slots id v') := by
  obtain ⟨_, v₁, hmatch, h⟩ := bind_ok.1 h
  obtain ⟨_, v₂, hspent, h⟩ := bind_ok.1 h
  obtain ⟨found, v₃, hmissing, hparents⟩ := bind_ok.1 h
  have h₁ := matchAll_turns W mask hm hp _ _ _ hmatch
  have h₂ := markAll_turns W mask hm hp .spent _ _ _ hspent
  have h₃ := restoreAll_turns W mask hm hp Rows.empty _ _ _ hmissing
  have h₄ := restoreParents_turns hm hp found _ _ _ hparents
  rw [h₁, hv] at h₂
  rcases here with _ | s
  · rcases there with _ | r
    · simp only [revived, discarded, compared, ite_self] at h₂ h₃ h₄
      show _ = scanned _ _ _ _
      rw [h₄, h₃, h₂, scanned_none]
    · obtain ⟨commit, n, h₃⟩ := h₃
      simp only [revived, discarded, compared, ite_self] at h₂ h₄
      exact ⟨commit, n, by rw [h₄, h₃, h₂]; rfl⟩
  · have h₃ : slots id v₃ = slots id v₂ := by cases there <;> exact h₃
    show _ = scanned _ _ _ _
    rw [h₄, h₃, h₂]
    rfl

/-- A scan that returned made its passes, over the chain's outputs and the wallet's. -/
theorem scan_passes (h : scan W mask delete start stop w = (.ok info, w')) :
    ∃ tick k range l last outs w₁ w₂ w₃, unmasked W w mask = .ok k ∧
      W.pmmrIndices tick start (some stop) = .ok range ∧
      collectChainOutputs W k range.1 (some range.2) w₁ = (.ok (l, last), w₂) ∧
      Updater.retrieveOutputs W mask true false none none none none none w₃ = (.ok outs, w₃) ∧
      SameButAccount w w₃ ∧ passes W mask delete outs.2.2 l w₃ = (.ok (), w') := by
  rw [scan_eq] at h
  obtain ⟨⟨_, outputs, missing, locked⟩, w₇, hbefore, h₀⟩ := bind_ok.1 h
  obtain ⟨_, w₈, hrestore, hpure⟩ := bind_ok.1 h₀
  cases hpure
  obtain ⟨_, w₁, hlock₁, h₁⟩ := bind_ok.1 hbefore
  obtain ⟨k, w₂, hkeychain, h₂⟩ := bind_ok.1 h₁
  obtain ⟨hk, rfl⟩ := (keychain_ok W).1 hkeychain
  obtain ⟨tick, w₃, htick, h₃⟩ := bind_ok.1 h₂
  obtain ⟨range, w₄, hindices, h₄⟩ := bind_ok.1 h₃
  obtain ⟨hrange, rfl⟩ := ofExcept_eq_ok.1 hindices
  obtain ⟨⟨l, last⟩, w₅, hcollect, h₅⟩ := bind_ok.1 h₄
  obtain ⟨_, w₆, hlock₂, h₆⟩ := bind_ok.1 h₅
  obtain ⟨outs, v, houts, h₇⟩ := bind_ok.1 h₆
  obtain rfl := (Updater.retrieveOutputs_reads W _ _ _ _ _ _ _ _).eq houts
  obtain ⟨⟨missing', spent, locked'⟩, v₁, hmatch, h₈⟩ := bind_ok.1 h₇
  obtain ⟨_, v₂, hspent, hpure⟩ := bind_ok.1 h₈
  cases hpure
  obtain ⟨hpairs, heq⟩ := matchOutputs_ok hmatch
  obtain ⟨rfl, rfl, rfl⟩ : _ ∧ _ ∧ _ := by simpa using heq
  have hlock := walletLock_sameButAccount W
  have hsame₁ := hlock.rel hlock₁
  have hsame : SameButAccount w v := calc
    SameButAccount w w₂ := hsame₁
    SameButAccount w₂ w₄ := sameButAccount_frees.nextTick.rel htick
    SameButAccount w₄ w₅ := (collectFrom_keeps sameButAccount_frees W _ _ _ _).rel hcollect
    SameButAccount w₅ v := hlock.rel hlock₂
  rw [unmasked_congr hsame₁.keychain hsame₁.checksum] at hk
  exact ⟨tick, k, range, l, last, outs, _, _, v, hk, hrange, hcollect, houts, hsame, bind_ok.2 ⟨(), _, hpairs, bind_ok.2 ⟨(), _, hspent, hrestore⟩⟩⟩

/-! ### Against the chain -/

/-- The node knows the index range of the heights, and answers each query for a part of it by a page. -/
structure Honest (W : World) (c : Chain) (start stop lo hi : Nat) : Prop where
  range : ∀ tick, W.pmmrIndices tick start (some stop) = .ok (lo, hi)
  serves : Serves W c (some hi)
  nonempty : lo ≤ hi
  fits : hi < u64Size
  rounds : hi - lo < W.patience
  readable : ∀ k, ∀ o ∈ c.inRange lo hi, Readable W k o

/-- The outputs of the range that are the keychain's. -/
def foundIn (W : World) (c : Chain) (k : Keychain) (lo hi : Nat) : List OutputResult :=
  (c.inRange lo hi).filterMap (owned W k)

/-- No key is used twice, by the wallet or on the chain, and an output of the wallet and one of the chain
have the same commitment if they have the same key, and only then. -/
structure OneCoin (W : World) (mask : Option SecretKey) (w : Wallet) (found : List OutputResult) :
    Prop where
  keyed : Keyed w.db
  wallet : ∀ o ∈ outputsOf w.db, ∀ o' ∈ outputsOf w.db, o.keyId = o'.keyId → o = o'
  chain : ∀ r ∈ found, ∀ r' ∈ found, r.keyId = r'.keyId → r = r'
  same : ∀ o ∈ outputsOf w.db, ∀ r ∈ found,
    outputCommit W w mask o = some r.commit ↔ o.keyId = r.keyId
  value : ∀ o ∈ outputsOf w.db, ∀ r ∈ found, o.keyId = r.keyId → o.value = r.value

theorem mapCommits_commit {k : Keychain} (hk : unmasked W w mask = .ok k) :
    ∀ {os : List OutputData} {res : List (OutputData × Commitment)} {v v' : Wallet},
      Updater.mapCommits W k os v = (.ok res, v') → ∀ p ∈ res, outputCommit W w mask p.1 = some p.2
  | [], res, v, v', h, p, hp => by
    cases h
    cases hp
  | o :: os, res, v, v', h, p, hp => by
    obtain ⟨c, v₁, hcommit, h₁⟩ := bind_ok.1 h
    obtain ⟨rest, v₂, hrest, h₂⟩ := bind_ok.1 h₁
    cases h₂
    rcases List.mem_cons.1 hp with rfl | hp
    · exact Updater.commitOf_ok hk hcommit
    · exact mapCommits_commit hk hrest p hp

theorem OneCoin.paired {found : List OutputResult} (hc : OneCoin W mask w found)
    (hl : ∀ r, r ∈ l ↔ r ∈ found) {v v' : Wallet} {n m : Nat} (hv : SameButAccount w v)
    (h : Updater.retrieveOutputs W mask true false none none none none none v = (.ok (n, m, outs), v')) :
    Paired w outs l := by
  have hlisted : ∀ s, s ∈ outs.map Prod.fst ↔ s ∈ outputsOf w.db := by
    intro s
    rw [Updater.retrieveOutputs_ok W h s, Updater.mem_selectedOutputs, hv.db]
    simp
  have hcommits : ∀ p ∈ outs, outputCommit W w mask p.1 = some p.2 := by
    obtain ⟨d, v₁, hrows, h₁⟩ := bind_ok.1 h
    obtain ⟨page, v₂, hpage, h₂⟩ := bind_ok.1 h₁
    obtain ⟨k, v₃, hkeychain, h₃⟩ := bind_ok.1 h₂
    obtain ⟨res, v₄, hres, hpure⟩ := bind_ok.1 h₃
    cases hpure
    have hk := ((keychain_ok W).1 hkeychain).1
    rw [(Updater.paginate_reads _ _ _).eq hpage, rows_reads.eq hrows] at hk
    rw [unmasked_congr hv.keychain hv.checksum] at hk
    exact mapCommits_commit hk hres
  refine ⟨fun r hr s => ?_, hlisted⟩
  have hfound := (hl r).1 hr
  constructor
  · intro hpair
    obtain ⟨p, hp, rfl⟩ := Option.map_eq_some_iff.1 hpair
    have hmem := (hlisted p.1).1 (List.mem_map_of_mem (List.mem_of_find?_eq_some hp))
    have heq : p.2 = r.commit := by simpa using List.find?_some hp
    refine ⟨hmem, (hc.same p.1 hmem r hfound).1 ?_⟩
    rw [hcommits p (List.mem_of_find?_eq_some hp), heq]
  · rintro ⟨hmem, hkey⟩
    obtain ⟨p, hp, rfl⟩ := List.mem_map.1 ((hlisted s).2 hmem)
    have heq : p.2 = r.commit :=
      Option.some.inj ((hcommits p hp).symm.trans ((hc.same p.1 hmem r hfound).2 hkey))
    have hsome : (outs.find? fun wo => wo.2 = r.commit).isSome := by
      rw [List.find?_isSome]
      exact ⟨p, hp, by simpa using heq⟩
    obtain ⟨q, hq⟩ := Option.isSome_iff_exists.1 hsome
    have hqmem := (hlisted q.1).1 (List.mem_map_of_mem (List.mem_of_find?_eq_some hq))
    have hqeq : q.2 = r.commit := by simpa using List.find?_some hq
    have hqkey : q.1.keyId = r.keyId := (hc.same q.1 hqmem r hfound).1 (by
      rw [hcommits q (List.mem_of_find?_eq_some hq), hqeq])
    unfold pairOf
    rw [hq, Option.map_some, hc.wallet q.1 hqmem p.1 hmem (hqkey.trans hkey.symm)]

theorem OneCoin.meets {found : List OutputResult} (hc : OneCoin W mask w found)
    (hl : ∀ r, r ∈ l ↔ r ∈ found) (id : Identifier) : ∃ here there, Meets w l id here there := by
  have hhere : ∃ here : Option OutputData, ∀ s, here = some s ↔ s ∈ outputsOf w.db ∧ s.keyId = id := by
    by_cases h : ∃ s ∈ outputsOf w.db, s.keyId = id
    · obtain ⟨s, hs, hkey⟩ := h
      refine ⟨some s, fun s' => ⟨?_, fun hs' => ?_⟩⟩
      · rintro ⟨⟩
        exact ⟨hs, hkey⟩
      · rw [hc.wallet s hs s' hs'.1 (hkey.trans hs'.2.symm)]
    · exact ⟨none, fun s => ⟨nofun, fun hs => absurd ⟨s, hs⟩ h⟩⟩
  have hthere : ∃ there : Option OutputResult, ∀ r, there = some r ↔ r ∈ l ∧ r.keyId = id := by
    by_cases h : ∃ r ∈ l, r.keyId = id
    · obtain ⟨r, hr, hkey⟩ := h
      refine ⟨some r, fun r' => ⟨?_, fun hr' => ?_⟩⟩
      · rintro ⟨⟩
        exact ⟨hr, hkey⟩
      · rw [hc.chain r ((hl r).1 hr) r' ((hl r').1 hr'.1) (hkey.trans hr'.2.symm)]
    · exact ⟨none, fun r => ⟨nofun, fun hr => absurd ⟨r, hr⟩ h⟩⟩
  exact ⟨hhere.choose, hthere.choose, hhere.choose_spec, hthere.choose_spec⟩

theorem Meets.slots (hm : Meets w l id here there) (hk : Keyed w.db) :
    slots id w = slotsOf here := by
  funext m
  apply Option.ext
  intro o
  rw [slots_eq_some]
  rcases here with _ | s
  · refine iff_of_false (fun ho => ?_) fun hnone => by cases hnone
    have := (hm.here o).2 ⟨mem_outputsOf.2 ⟨id, m, ho⟩, (hk id m o ho).1⟩
    cases this
  · obtain ⟨hs, hkey⟩ := (hm.here s).1 rfl
    have hrow := hk.stored hs
    show _ ↔ Slots.only s m = some o
    rw [Slots.only_apply]
    constructor
    · intro ho
      obtain ⟨hid, hmmr⟩ := hk id m o ho
      obtain rfl := Option.some.inj ((hm.here o).2 ⟨mem_outputsOf.2 ⟨id, m, ho⟩, hid⟩)
      rw [if_pos hmmr.symm]
    · split
      · intro hsame
        cases hsame
        rwa [← hkey, ‹m = _›]
      · intro hnone
        cases hnone

/-- The outputs collected are those of the chain. -/
theorem collected_mem {c : Chain} {lo hi last : Nat} {k : Keychain} (hnode : Honest W c start stop lo hi)
    {v v' : Wallet} (h : collectChainOutputs W k lo (some hi) v = (.ok (l, last), v')) (r : OutputResult) :
    r ∈ l ↔ r ∈ foundIn W c k lo hi := by
  obtain ⟨found, v'', hrun, hperm, -⟩ := collectChainOutputs_complete W c k lo (some hi) v hnode.serves
    hnode.fits hnode.nonempty (hnode.readable k) hnode.rounds
  rw [hrun] at h
  cases h
  exact hperm.mem_iff

/-- What is stored under a key after a scan. -/
theorem scan_leaves {c : Chain} {lo hi : Nat} {k : Keychain} (hnode : Honest W c start stop lo hi)
    (hk : unmasked W w mask = .ok k) (hc : OneCoin W mask w (foundIn W c k lo hi))
    (h : scan W mask delete start stop w = (.ok info, w')) :
    ∃ l, (∀ r, r ∈ l ↔ r ∈ foundIn W c k lo hi) ∧
      ∀ id here there, Meets w l id here there → Leaves delete here there (slots id w') := by
  obtain ⟨tick, k', range, l, last, outs, w₁, w₂, w₃, hk', hrange, hcollect, houts, hsame, hpasses⟩ :=
    scan_passes h
  obtain rfl := Except.ok.inj (hk.symm.trans hk')
  obtain rfl := Except.ok.inj ((hnode.range tick).symm.trans hrange)
  have hl := collected_mem hnode hcollect
  refine ⟨l, hl, fun id here there hm => ?_⟩
  have hstart : slots id w₃ = slotsOf here := by
    rw [← hm.slots hc.keyed]
    exact slots_congr fun m => by rw [hsame.db]
  exact passes_leave hm (hc.paired hl hsame houts) hstart hpasses

/-- After a scan against an honest node an output of the chain that is the wallet's is stored once, unspent,
at its index and with its value, exactly if the wallet's output with its key can be set right; of the
wallet's other outputs only unconfirmed ones are deleted, if asked for, and nothing else is stored. -/
theorem scan_mirrors {c : Chain} {lo hi : Nat} {k : Keychain} (hnode : Honest W c start stop lo hi)
    (hk : unmasked W w mask = .ok k) (hc : OneCoin W mask w (foundIn W c k lo hi))
    (h : scan W mask delete start stop w = (.ok info, w')) :
    (∀ r ∈ foundIn W c k lo hi, Shows (slots r.keyId w') r.mmrIndex r.value ↔
      ∀ s ∈ outputsOf w.db, s.keyId = r.keyId → Mends delete s r.mmrIndex) ∧
    (∀ s ∈ outputsOf w.db, (∀ r ∈ foundIn W c k lo hi, r.keyId ≠ s.keyId) → slots s.keyId w' =
      if delete = true ∧ s.status = .unconfirmed then .empty else .only s) ∧
    ∀ id, (∀ s ∈ outputsOf w.db, s.keyId ≠ id) → (∀ r ∈ foundIn W c k lo hi, r.keyId ≠ id) →
      slots id w' = .empty := by
  obtain ⟨l, hl, hleaves⟩ := scan_leaves hnode hk hc h
  refine ⟨fun r hr => ?_, fun s hs hnone => ?_, fun id hnos hnor => ?_⟩
  · obtain ⟨here, there, hm⟩ := hc.meets hl r.keyId
    have hleft := hleaves _ _ _ hm
    obtain rfl := (hm.there r).2 ⟨(hl r).2 hr, rfl⟩
    rcases here with _ | s
    · obtain ⟨commit, n, heq⟩ := hleft
      refine iff_of_true ⟨_, heq, rfl, rfl, rfl⟩ fun s hs hkey => ?_
      have := (hm.here s).2 ⟨hs, hkey⟩
      cases this
    · obtain ⟨hs, hkey⟩ := (hm.here s).1 rfl
      have heq : slots r.keyId w' = scanned delete (some s) (some r) (Slots.only s) := hleft
      rw [heq, ← hc.value s hs r hr hkey, shows_scanned_iff]
      refine ⟨fun hmends s' hs' hkey' => ?_, fun hall => hall s hs hkey⟩
      rwa [← Option.some.inj ((hm.here s').2 ⟨hs', hkey'⟩)]
  · obtain ⟨here, there, hm⟩ := hc.meets hl s.keyId
    have hleft := hleaves _ _ _ hm
    obtain rfl := (hm.here s).2 ⟨hs, rfl⟩
    rcases there with _ | r
    · have heq : slots s.keyId w' = scanned delete (some s) none (Slots.only s) := hleft
      rw [heq]
      have hempty : (Slots.only s).drop s.mmrIndex = Slots.empty := by
        funext m
        rw [Slots.drop_apply, Slots.only_apply]
        split <;> rfl
      cases delete <;> simp [scanned, compared, revived, discarded, hempty]
    · obtain ⟨hr, hkey⟩ := (hm.there r).1 rfl
      exact absurd hkey (hnone r ((hl r).1 hr))
  · obtain ⟨here, there, hm⟩ := hc.meets hl id
    have hleft := hleaves _ _ _ hm
    rcases here with _ | s
    · rcases there with _ | r
      · exact hleft.trans (scanned_none delete none Slots.empty)
      · obtain ⟨hr, hkey⟩ := (hm.there r).1 rfl
        exact absurd hkey (hnor r ((hl r).1 hr))
    · obtain ⟨hs, hkey⟩ := (hm.here s).1 rfl
      exact absurd hkey (hnos s hs)

end

/-! ### A small chain -/

open World

/-- A key of the default account. -/
def keyOf (n : Nat) : Identifier := .derive 3 0 0 n 0

/-- Two outputs of the wallet, at the indices 1 and 3. -/
def twoOutputs : Chain where
  unspent := [⟨smallCommit 5 (keyOf 0), ⟨0⟩, false, 1, 1⟩, ⟨smallCommit 7 (keyOf 1), ⟨0⟩, false, 2, 3⟩]
  highest := 3
  once := by decide

/-- A node with these outputs, which retrieves two indices at a time. -/
def mirrorWorld : World :=
  { small with
    rewind := fun _ _ c _ => .ok (if c = smallCommit 5 (keyOf 0) then some (5, keyOf 0, .regular)
      else some (7, keyOf 1, .regular))
    pmmrIndices := fun _ _ _ => .ok (1, 3)
    outputsByPmmrIndex := fun _ start stop _ =>
      let last := min (start + 1) (twoOutputs.stopOf stop)
      .ok (twoOutputs.stopOf stop, last, twoOutputs.inRange start last) }

def coinAt (n value : Nat) (mmrIndex : Option Nat) (status : OutputStatus) : OutputData where
  rootKeyId := defaultPath
  keyId := keyOf n
  nChild := n
  mmrIndex
  commit := none
  value
  status
  height := 1
  lockHeight := 1
  isCoinbase := false
  txLogEntry := none

/-- A wallet with the first of them wrongly marked spent, without the second, and with one of its own that
never came. -/
def staleWallet : Wallet :=
  { opened ⟨7⟩ 7 with
    db := (Rows.put (.put .empty (.output (keyOf 0) (some 1)) (.outputData (coinAt 0 5 (some 1) .spent)))
      (.output (keyOf 2) none) (.outputData (coinAt 2 9 none .unconfirmed))) }

theorem staleWallet_keyed : Keyed staleWallet.db := by
  intro id m o h
  change (Rows.put _ _ _).get _ = _ at h
  rw [Rows.get_put, Rows.get_put] at h
  split at h
  · cases h
    simp_all [coinAt]
  · split at h
    · cases h
      simp_all [coinAt]
    · cases h

theorem mirrorWorld_honest : Honest mirrorWorld twoOutputs 1 2 1 3 where
  range _ := rfl
  serves _ start hstart := ⟨min (start + 1) 3, _, rfl, by
    change start ≤ 3 at hstart
    omega, by
    show min (start + 1) 3 ≤ 3
    omega, .refl _⟩
  nonempty := by decide
  fits := by decide
  rounds := by decide
  readable k o ho := by
    have hmem := (Chain.mem_inRange.1 ho).1
    rcases List.mem_cons.1 hmem with rfl | hmem
    · exact ⟨⟨_, rfl⟩, nofun⟩
    · obtain rfl := List.mem_singleton.1 hmem
      exact ⟨⟨_, rfl⟩, nofun⟩

theorem staleWallet_oneCoin :
    OneCoin mirrorWorld none staleWallet (foundIn mirrorWorld twoOutputs ⟨7⟩ 1 3) where
  keyed := staleWallet_keyed
  wallet := by decide +kernel
  chain := by decide +kernel
  same := by decide +kernel
  value := by decide +kernel

/-- The scan sets the first output right, restores the second and deletes the third. -/
theorem scan_mirrors_stale :
    ∃ w', scan mirrorWorld none true 1 2 staleWallet = (.ok ⟨2, "", 1, 3⟩, w') ∧
      Shows (slots (keyOf 0) w') 1 5 ∧ Shows (slots (keyOf 1) w') 3 7 ∧
      slots (keyOf 2) w' = Slots.empty := by
  have hrun : scan mirrorWorld none true 1 2 staleWallet = (.ok ⟨2, "", 1, 3⟩, _) :=
    Prog.run_eq (by decide +kernel)
  obtain ⟨hshown, hothers, -⟩ := scan_mirrors mirrorWorld_honest
    (show unmasked mirrorWorld staleWallet none = .ok ⟨7⟩ by decide) staleWallet_oneCoin hrun
  refine ⟨_, hrun, (hshown _ (show (⟨smallCommit 5 (keyOf 0), keyOf 0, 0, 1, 5, 1, 1, false⟩ :
    OutputResult) ∈ _ by decide)).2 ?_, (hshown _ (show (⟨smallCommit 7 (keyOf 1), keyOf 1, 1, 3, 7, 2, 2,
    false⟩ : OutputResult) ∈ _ by decide)).2 ?_, ?_⟩
  · unfold Mends
    decide +kernel
  · unfold Mends
    decide +kernel
  · exact hothers (coinAt 2 9 none .unconfirmed) (by decide +kernel) (by decide +kernel)

end Scan

end EpicWallet
