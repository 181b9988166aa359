import EpicWallet.Lib.Total
import EpicWallet.Libwallet.Proof.Touches

/-!
# Where the backend does not panic

A write panics where the value carries an apostrophe, which ends the text of the statement, and a counter
of the backend panics at its bound. `Roomy` says that neither can happen for a number of further outputs;
saving an output uses up one of them (`Batch.save_total`). That every row is sound is kept by every write
(`soundRows_frees`).
-/

namespace EpicWallet

open Lib WalletBackend

/-- Every row holds what may be written under its key: a value of its kind, without an apostrophe. -/
def SoundRows (d : Rows Key Serializable) : Prop := ∀ k v, d.get k = some v → k.Fits v ∧ v.Plain

theorem SoundRows.put {d : Rows Key Serializable} (h : SoundRows d) {k : Key} {v : Serializable}
    (hk : k.Fits v) (hv : v.Plain) : SoundRows (d.put k v) := by
  intro k' v' hrow
  rw [Rows.get_put] at hrow
  split_ifs at hrow with hkey
  · cases hrow
    exact ⟨hkey ▸ hk, hv⟩
  · exact h k' v' hrow

theorem SoundRows.erase {d : Rows Key Serializable} (h : SoundRows d) (k : Key) :
    SoundRows (d.erase k) := by
  intro k' v' hrow
  rw [Rows.get_erase] at hrow
  split_ifs at hrow
  exact h k' v' hrow

theorem soundRows_frees (S : List RowKind) : Frees (Prog.Inv fun w => SoundRows w.db) S where
  aside w w' h hw := by
    show SoundRows w'.db
    rw [h.db]
    exact hw
  files _ _ hw := hw
  puts k _ v hv w hw := by
    unfold put
    split_ifs with hp
    · exact SoundRows.put hw hv hp
    · exact hw
  erases k _ _ hw := SoundRows.erase hw k

theorem numeric_plain (n : Nat) : (Serializable.numeric n).Plain := by
  simp [Serializable.Plain, Serializable.strings]

theorem hexDigits_plain (k n : Nat) : '\'' ∉ hexDigits k n := by
  induction k generalizing n with
  | zero => exact List.not_mem_nil
  | succ k ih =>
    have hdigit : ∀ d < 16, Nat.digitChar d ≠ '\'' := by decide
    have hlast := hdigit (n % 16) (Nat.mod_lt n (by omega))
    simp [hexDigits, ih, hlast.symm]

/-- A slate id is written without an apostrophe. -/
theorem txFileName_plain (u : Uuid) : PlainText (txFileName u) := by
  simp [PlainText, txFileName, Uuid.display, hexDigits_plain]

section
variable {W : World} {P : Wallet → Prop} {mask : Option SecretKey}

theorem keychain_total : Prog.Total P (keychain W mask) fun _ => P := by
  intro w hw
  rw [keychain_apply]
  rcases unmasked W w mask with e | k
  · trivial
  · exact hw

theorem batch_total : Prog.Total P (batch W mask) fun _ => P :=
  keychain_total.bind fun _ => .pure fun _ h => h

theorem calcCommitForCache_total (amount : Nat) (id : Identifier) :
    Prog.Total P (calcCommitForCache W mask amount id) fun c w =>
      P w ∧ ∃ commit, c = some (W.commitmentToHex commit) :=
  keychain_total.bind fun _ => Prog.Total.bind (R := fun _ => P) (.ofExcept fun _ _ h _ => h)
    fun c => .pure fun _ hw => ⟨hw, c, rfl⟩

theorem storeTx_total {slateId : Uuid} {tx : Transaction} :
    Prog.Total (fun _ => True) (storeTx W slateId tx) fun _ _ => True :=
  Prog.Total.bind (R := fun _ _ => True) (.of_ok fun w _ => ⟨w.tick, _, rfl, trivial⟩) fun _ =>
    Prog.Total.bind (R := fun _ _ => True) (.ofExcept fun _ _ _ _ => trivial) fun _ =>
      .of_ok fun _ _ => ⟨(), _, rfl, trivial⟩

end

theorem put_total {P : Wallet → Prop} {Q : Unit → Wallet → Prop} {k : Key} {v : Serializable}
    (h : ∀ w, P w → v.Plain ∧ Q () { w with db := w.db.put k v }) : Prog.Total P (put k v) Q :=
  .of_ok fun w hw => ⟨(), _, put_ok.2 ⟨(h w hw).1, rfl⟩, (h w hw).2⟩

/-- The output history has room for `n` more, and every row is sound. -/
structure Roomy (n : Nat) (w : Wallet) : Prop where
  history : asU32 (numericOf w.db .outputHistoryId) + n < u32Size
  sound : SoundRows w.db

theorem Roomy.mono {n m : Nat} {w : Wallet} (h : Roomy n w) (hm : m ≤ n) : Roomy m w :=
  ⟨by have := h.history; omega, h.sound⟩

/-- A write of another row. -/
theorem Roomy.put {n : Nat} {w : Wallet} (h : Roomy n w) {k : Key} {v : Serializable} (hf : k.Fits v)
    (hv : v.Plain) (hk : k ≠ .outputHistoryId) : Roomy n { w with db := w.db.put k v } := by
  refine ⟨?_, h.sound.put hf hv⟩
  have hsame : numericOf (w.db.put k v) .outputHistoryId = numericOf w.db .outputHistoryId := by
    unfold numericOf
    rw [Rows.get_put_ne _ _ hk.symm]
  rw [hsame]
  exact h.history

/-- What is stored under the key of an output can be read as one. -/
theorem getOutput_ne_panic {id : Identifier} {m : Option Nat} {w w' : Wallet} (hw : SoundRows w.db) :
    getOutput id m w ≠ (.error .panic, w') := by
  intro h
  unfold getOutput at h
  rw [Prog.bind_of_ok (rows_apply w)] at h
  rcases hrow : w.db.get (.output id m) with _ | v
  · rw [hrow] at h
    cases h
  · rw [hrow] at h
    have hfits := (hw _ _ hrow).1
    cases v with
    | outputData o => cases h
    | _ => exact hfits

namespace Batch

theorem nextTxLogId_of_lt {parent : Identifier} {w : Wallet}
    (h : asU32 (numericOf w.db (.txLogId parent)) + 1 < u32Size) :
    nextTxLogId parent w = (.ok (asU32 (numericOf w.db (.txLogId parent))), { w with
      db := w.db.put (.txLogId parent) (.numeric (asU32 (numericOf w.db (.txLogId parent)) + 1)) }) := by
  unfold nextTxLogId
  rw [Prog.bind_of_ok (rows_apply w), Prog.bind_of_ok (addU32_ok.2 ⟨rfl, h, rfl⟩),
    Prog.bind_of_ok (put_ok.2 ⟨numeric_plain _, rfl⟩)]
  rfl

theorem saveOutputHistory_total {n : Nat} {o : OutputData} (ho : (Serializable.outputData o).Plain) :
    Prog.Total (Roomy (n + 1)) (saveOutputHistory o) fun _ => Roomy n := by
  apply Prog.Total.of_ok
  intro w hw
  unfold saveOutputHistory
  rw [Prog.bind_of_ok (rows_apply w)]
  by_cases hreg : registered w.db o = true
  · rw [if_pos hreg]
    exact ⟨(), w, rfl, hw.mono (Nat.le_succ n)⟩
  · rw [if_neg hreg]
    have hroom := hw.history
    -- the counter is not at its bound, so an id is handed out
    obtain ⟨last, hlast⟩ : ∃ last, last = asU32 (numericOf w.db .outputHistoryId) := ⟨_, rfl⟩
    have hnext : nextOutputHistoryId w =
        (.ok last, { w with db := w.db.put .outputHistoryId (.numeric (last + 1)) }) := by
      unfold nextOutputHistoryId
      rw [Prog.bind_of_ok (rows_apply w), ← hlast,
        Prog.bind_of_ok (addU32_ok.2 ⟨rfl, by omega, rfl⟩),
        Prog.bind_of_ok (put_ok.2 ⟨numeric_plain _, rfl⟩)]
      rfl
    have hcount : numericOf (w.db.put .outputHistoryId (.numeric (last + 1))) .outputHistoryId =
        last + 1 := by
      unfold numericOf
      rw [Rows.get_put_self]
    have hroom' : Roomy n { w with db := w.db.put .outputHistoryId (.numeric (last + 1)) } := by
      refine ⟨?_, hw.sound.put trivial (numeric_plain _)⟩
      rw [hcount]
      unfold asU32
      rw [Nat.mod_eq_of_lt (by omega)]
      omega
    rw [Prog.bind_of_ok (Prog.attempt_of_ok hnext)]
    exact ⟨(), _, put_ok.2 ⟨ho, rfl⟩, hroom'.put trivial ho (by simp)⟩

theorem savePrevious_total {n : Nat} (o : OutputData) :
    Prog.Total (Roomy (n + 1)) (savePrevious o) fun _ => Roomy n := by
  refine Prog.Total.bind (R := fun r w => Roomy (n + 1) w ∧
    ∀ p, r = .ok p → (Serializable.outputData p).Plain) ?_ fun r => ?_
  · refine Prog.Total.attempt (Q := fun p w => Roomy (n + 1) w ∧ (Serializable.outputData p).Plain) ?_
      (getOutput_reads _ _) (fun p w h => ⟨h.1, ?_⟩) fun e w h => ⟨h, ?_⟩
    · refine .intro (fun w p w' hw hget => ?_) fun w w' hw hget => ?_
      · obtain ⟨hrow, rfl⟩ := getOutput_ok.1 hget
        exact ⟨hw, (hw.sound _ _ hrow).2⟩
      · exact getOutput_ne_panic hw.sound hget
    · intro p' hp
      cases hp
      exact h.2
    · intro p' hp
      cases hp
  · cases r with
    | ok p =>
      refine Prog.Total.of_and fun hp => .ite (fun _ => saveOutputHistory_total (hp p rfl)) fun _ => ?_
      exact .pure fun w h => h.mono (Nat.le_succ n)
    | error e => exact .pure fun w h => h.1.mono (Nat.le_succ n)

/-- Saving an output takes the room of one. -/
theorem save_total {n : Nat} {o : OutputData} (ho : (Serializable.outputData o).Plain) :
    Prog.Total (Roomy (n + 1)) (save o) fun _ => Roomy n :=
  (savePrevious_total o).bind fun _ => put_total fun _ hw =>
    ⟨ho, hw.put ⟨rfl, rfl⟩ ho (by simp)⟩

end Batch

end EpicWallet
