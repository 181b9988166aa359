import EpicWallet.Impls.Proof.Room
import EpicWallet.Libwallet.Proof.Change
import EpicWallet.Libwallet.Proof.Inputs
import EpicWallet.Libwallet.Proof.Release
import EpicWallet.Libwallet.Proof.Restore

/-!
# A prepared send

`init_send_tx` selects the coins of a send, derives the keys of its change and keeps both in a context;
`tx_lock_outputs` locks what the context names, with the slate that came back.

* `Owner.initSendTx_prepares`: what the context holds (`Prepared`).
* `Owner.txLockOutputs_total`: locking a context whose coins are there panics only where the log ids of
  the account are used up.
* `Op.locked_of_prepared`: in any interleaving that leaves its coins, the send can be locked, and it locks
  these coins.
* `Op.balance_of_reply`: what it debits and credits is what was selected, whatever slate came back.
-/

namespace EpicWallet

open Lib WalletBackend

/-! ## The keys of the change -/

theorem Identifier.child_inj {p id : Identifier} {n m : Nat} (hn : p.child n = some id)
    (hm : p.child m = some id) : n = m := by
  obtain ⟨depth, p0, p1, p2, p3⟩ := p
  unfold Identifier.child Identifier.setPath at hn hm
  rcases depth with _ | _ | _ | _ | depth <;> simp_all <;> grind

namespace Selection

variable {W : World}

/-- The key is a child of the active account that was not handed out in `w`. -/
def FreshKey (w : Wallet) (id : Identifier) : Prop :=
  ∃ n, childIndex w.db w.parentKeyId ≤ n ∧ w.parentKeyId.child n = some id

/-- The keys of the change outputs are new, each another. -/
theorem changeAmounts_keys {mask : Option SecretKey} {part rest n : Nat} {xs : List Nat}
    {l : List (Nat × Identifier × Option Nat)} {w w' : Wallet}
    (h : changeAmounts W mask part rest n xs w = (.ok l, w')) :
    (l.map (·.2.1)).Nodup ∧ ∀ a ∈ l, FreshKey w a.2.1 := by
  induction xs generalizing l w with
  | nil =>
    cases h
    exact ⟨List.nodup_nil, fun _ ha => absurd ha List.not_mem_nil⟩
  | cons x xs ih =>
    obtain ⟨amount, w₁, hamount, h₁⟩ := Prog.bind_ok.1 h
    have hread : Prog.Reads (if x = n - 1 then addU64 part rest else pure part : WalletM Nat) :=
      .ite (fun _ => addU64_reads _ _) fun _ => .pure _
    obtain rfl := hread.eq hamount
    obtain ⟨key, w₂, hkey, h₂⟩ := Prog.bind_ok.1 h₁
    obtain ⟨l', w₃, hrest, h₃⟩ := Prog.bind_ok.1 h₂
    cases h₃
    have hnext := Prog.orPanic_eq_ok.1 hkey
    obtain ⟨i, hi, hlt, hchild, hsets⟩ := nextChild_ok W hnext
    have hparent : w₂.parentKeyId = w₁.parentKeyId := by rw [hsets.eq]
    have hindex : childIndex w₂.db w₂.parentKeyId = i + 1 := by
      unfold childIndex numericOf
      rw [hparent, hsets.get_self]
      exact Nat.mod_eq_of_lt hlt
    obtain ⟨hnodup, hfresh⟩ := ih hrest
    -- what is derived later has a larger number
    have hlater : ∀ a ∈ l', ∃ m, i < m ∧ w₁.parentKeyId.child m = some a.2.1 := by
      intro a ha
      obtain ⟨m, hm, hc⟩ := hfresh a ha
      exact ⟨m, by omega, hparent ▸ hc⟩
    have hfirst : childIndex w₁.db w₁.parentKeyId = i := hi.symm
    constructor
    · rw [List.map_cons, List.nodup_cons]
      refine ⟨fun hmem => ?_, hnodup⟩
      obtain ⟨a, ha, hkeyeq⟩ := List.mem_map.1 hmem
      obtain ⟨m, hm, hc⟩ := hlater a ha
      have hsame := Identifier.child_inj hchild (hkeyeq ▸ hc)
      omega
    · intro a ha
      rcases List.mem_cons.1 ha with rfl | ha
      · exact ⟨i, by omega, hchild⟩
      · obtain ⟨m, hm, hc⟩ := hlater a ha
        exact ⟨m, by omega, hc⟩

theorem inputsAndChange_keys {coins : List OutputData} {mask : Option SecretKey} {amount fee n : Nat}
    {r : List Append × List (Nat × Identifier × Option Nat)} {w w' : Wallet}
    (h : inputsAndChange W coins mask amount fee n w = (.ok r, w')) :
    (r.2.map (·.2.1)).Nodup ∧ ∀ a ∈ r.2, FreshKey w a.2.1 := by
  obtain ⟨total, w₁, htotal, h₁⟩ := Prog.bind_ok.1 h
  obtain ⟨-, -, rfl⟩ := sumU64_ok htotal
  obtain ⟨rest, w₂, hsub, h₂⟩ := Prog.bind_ok.1 h₁
  obtain ⟨-, -, rfl⟩ := subU64_ok.1 hsub
  obtain ⟨change, w₃, hsub', h₃⟩ := Prog.bind_ok.1 h₂
  obtain ⟨-, -, rfl⟩ := subU64_ok.1 hsub'
  dsimp only at h₃
  split_ifs at h₃ with hzero hparts
  · cases h₃
    exact ⟨List.nodup_nil, fun _ ha => absurd ha List.not_mem_nil⟩
  · cases h₃
  · obtain ⟨l, w₄, hl, h₄⟩ := Prog.bind_ok.1 h₃
    cases h₄
    exact changeAmounts_keys hl

theorem selectCoinsAndFee_amount (amount height m maxOutputs changeOutputs : Nat) (selectAll : Bool)
    (parent : Identifier) : Prog.Returns (selectCoinsAndFee W amount height m maxOutputs changeOutputs
      selectAll parent) fun r => r.2.2.1 = amount := by
  refine .next fun _ => .next fun total => .next fun _ => ?_
  refine .ite (fun _ => .throw _) fun _ => .ite (fun _ => .throw _) fun _ =>
    .ite (fun _ => .pure rfl) fun _ => ?_
  exact .next fun _ => .next fun _ => .pure rfl

/-- What the context of a send holds: coins worth the amount, the fee and the change, and keys for the
change that no coin has. -/
structure Prepared (amount fee numChange : Nat) (c : Context) : Prop where
  covers : amount + fee ≤ c.inputTotal
  total_lt : c.inputTotal < u64Size
  change : c.inputTotal = amount + fee ∧ c.outputIds = [] ∨
    0 < (c.inputTotal - amount - fee) / numChange ∧
      c.outputIds.map (·.2.2) = shares (c.inputTotal - amount - fee) numChange
  keys : (c.outputIds.map Prod.fst).Nodup
  apart : ∀ a ∈ c.outputIds, ∀ i ∈ c.inputIds, a.1 ≠ i.1

theorem Prepared.congr {amount fee n : Nat} {c c' : Context} (h : Prepared amount fee n c)
    (hin : c'.inputIds = c.inputIds) (hout : c'.outputIds = c.outputIds) : Prepared amount fee n c' := by
  have htotal : c'.inputTotal = c.inputTotal := congrArg (fun l => (l.map (·.2.2)).sum) hin
  exact ⟨htotal ▸ h.covers, htotal ▸ h.total_lt, by rw [htotal, hout]; exact h.change, hout ▸ h.keys,
    by rw [hin, hout]; exact h.apart⟩

/-- A key not handed out yet is the key of no output. -/
theorem FreshKey.ne {w : Wallet} {id : Identifier} (h : FreshKey w id)
    (hw : Owner.Settled w) {o : OutputData} (ho : o ∈ outputsOf w.db) : id ≠ o.keyId := by
  obtain ⟨n, hn, hchild⟩ := h
  obtain ⟨hlast, hparent⟩ := child_path hw.active hchild
  intro heq
  have hissued : Issued w.db o.keyId := (hw.outputs o ho).2.resolve_right (Scan.not_pendingOf_nil _)
  unfold Issued at hissued
  rw [← heq, hlast, hparent] at hissued
  omega

/-- The context of a send that was built. -/
theorem buildSendTx_prepares {k : Keychain} {mask : Option SecretKey} {s : Slate}
    {m maxOutputs changeOutputs : Nat} {selectAll : Bool} {parent : Identifier} {r : Slate × Context}
    {w w' : Wallet} (ha : s.amount < u64Size) (hw : Owner.Settled w)
    (h : buildSendTx W k mask s m maxOutputs changeOutputs selectAll parent w = (.ok r, w')) :
    Prepared s.amount r.1.fee changeOutputs r.2 ∧ r.2.paymentProofDerivationIndex = none := by
  obtain ⟨⟨elems, inputs, amounts, fee⟩, w₁, hsel, h₁⟩ := Prog.bind_ok.1 h
  obtain ⟨⟨coins, total, amount, fee'⟩, w₂, hcoins, hparts⟩ := Prog.bind_ok.1 hsel
  obtain ⟨⟨parts, amounts'⟩, w₃, hchange, hend⟩ := Prog.bind_ok.1 hparts
  cases hend
  have hsub := selectCoinsAndFee_subset ha hcoins
  have hamount : amount = s.amount := selectCoinsAndFee_amount _ _ _ _ _ _ _ _ _ _ hcoins
  obtain rfl := (selectCoinsAndFee_reads W _ _ _ _ _ _ _).eq hcoins
  obtain ⟨⟨s', blinding⟩, w₄, hadd, h₂⟩ := Prog.bind_ok.1 h₁
  obtain ⟨hadd, -⟩ := Prog.ofExcept_eq_ok.1 hadd
  obtain ⟨c, w₅, hc, h₃⟩ := Prog.bind_ok.1 h₂
  obtain ⟨⟨⟩, w₆, -, h₄⟩ := Prog.bind_ok.1 h₃
  cases h₄
  obtain ⟨key, w₇, -, hnew⟩ := Prog.bind_ok.1 hc
  obtain ⟨tick, w₈, -, hnew⟩ := Prog.bind_ok.1 hnew
  cases hnew
  have htotal : (contextOf (.new key (W.newSecretKey tick) parent 0) fee inputs amounts).inputTotal =
      value inputs := by
    unfold Context.inputTotal value
    rw [contextOf_eq]
    exact congrArg List.sum (List.map_map ..)
  have houts : (contextOf (.new key (W.newSecretKey tick) parent 0) fee inputs amounts).outputIds =
      amounts.map fun a => (a.2.1, a.2.2, a.1) := by
    rw [contextOf_eq]
    rfl
  obtain ⟨hcovers, hrest⟩ := inputsAndChange_ok hchange
  obtain ⟨hvalue, -⟩ := inputsAndChange_runs_iff.1 ⟨_, _, hchange⟩
  obtain ⟨hkeys, hfresh⟩ := inputsAndChange_keys hchange
  rw [← hamount, show s'.fee = fee from (addTransactionElements_head hadd).fee]
  refine ⟨⟨htotal ▸ hcovers, htotal ▸ hvalue, ?_, ?_, ?_⟩, by rw [contextOf_eq]; rfl⟩
  · rw [htotal, houts, List.map_map]
    exact hrest.imp (fun h => ⟨h.1, by rw [h.2]; rfl⟩) fun h => ⟨h.1, h.2⟩
  · rw [houts, List.map_map]
    exact hkeys
  · intro a hmem i hi
    rw [houts] at hmem
    obtain ⟨a, ham, rfl⟩ := List.mem_map.1 hmem
    rw [contextOf_eq] at hi
    obtain ⟨o, ho, rfl⟩ := List.mem_map.1 hi
    exact (hfresh a ham).ne hw (mem_eligibleOutputs.1 (hsub ho)).1

end Selection

theorem Address.depth_lt_of_address {W : World} {k : Keychain} {p : Identifier} {index : Nat}
    {key : SecretKey} {w w' : Wallet}
    (h : Address.addressFromDerivationPath W k p index w = (.ok key, w')) : p.depth < 4 := by
  obtain ⟨id, w₁, hpath, -⟩ := Prog.bind_ok.1 h
  have hset := (Prog.unwrap_eq_ok.1 hpath).1
  unfold Identifier.setPath at hset
  dsimp only at hset
  split at hset <;> first | omega | cases hset

theorem Address.address_total {W : World} {k : Keychain} {p : Identifier} (hp : p.depth < 4)
    (index : Nat) {P : Wallet → Prop} :
    Prog.Total P (Address.addressFromDerivationPath W k p index) fun _ => P := by
  have hset : ∃ id, ({ p with p1 := 1, depth := p.depth + 1 } : Identifier).setPath p.depth index =
      some id := by
    obtain ⟨depth, p0, p1, p2, p3⟩ := p
    rcases depth with _ | _ | _ | _ | depth
    · exact ⟨_, rfl⟩
    · exact ⟨_, rfl⟩
    · exact ⟨_, rfl⟩
    · exact ⟨_, rfl⟩
    · dsimp only at hp
      omega
  obtain ⟨id, hid⟩ := hset
  exact Prog.Total.bind (R := fun _ => P) (.unwrap fun w hw => ⟨id, hid, hw⟩) fun _ =>
    Prog.Total.bind (R := fun _ => P) (.ofExcept fun _ _ h _ => h) fun _ =>
      .ofExcept fun _ _ h _ => h

/-- The account of a context that asks for a payment proof has an address. -/
theorem Owner.addProofInfo_depth {W : World} {mask : Option SecretKey} {parent : Identifier}
    {recipient : Option DalekPublicKey} {s : Slate} {c : Context} {r : Slate × Context} {w w' : Wallet}
    (hc : c.paymentProofDerivationIndex = none)
    (h : Owner.addProofInfo W mask parent recipient s c w = (.ok r, w'))
    (hr : r.2.paymentProofDerivationIndex ≠ none) : parent.depth < 4 := by
  cases recipient with
  | none =>
    cases h
    exact absurd hc hr
  | some a =>
    obtain ⟨k, w₁, -, h₁⟩ := Prog.bind_ok.1 h
    obtain ⟨key, w₂, hkey, -⟩ := Prog.bind_ok.1 h₁
    exact Address.depth_lt_of_address hkey

/-- What the context of a send that was started holds. -/
theorem Owner.initSendTx_prepares {W : World} {mask : Option SecretKey} {args : InitTxArgs} {s : Slate}
    {w w' : Wallet} (ha : args.amount < u64Size) (hargs : args.estimateOnly ≠ some true)
    (hw : Owner.Settled w) (h : Owner.initSendTx W mask args w = (.ok s, w')) :
    ∃ c w₀, Owner.saveContext W mask s.id 0 c w₀ = (.ok (), w') ∧
      c.parentKeyId = accountOf w args.srcAcctName ∧
      Selection.Picks w'.db s.height args.minimumConfirmations c ∧
      Selection.Prepared args.amount s.fee args.numChangeOutputs c ∧
      (c.paymentProofDerivationIndex ≠ none → c.parentKeyId.depth < 4) := by
  obtain ⟨c, w₂, hsave, hparent, hpicks⟩ := Owner.initSendTx_selects ha hargs h
  obtain ⟨message, s₀, r, c', w₁, w₂', hnew, hadd, ⟨q, hproof, hhead⟩, hsave'⟩ :=
    Owner.initSendTx_ok hargs h
  obtain rfl : c = c' := by
    have hread := (getPrivateContext_of_saveContext hsave ⟨rfl, rfl, rfl⟩).2
    have hread' := (getPrivateContext_of_saveContext hsave' ⟨rfl, rfl, rfl⟩).2
    cases hread.symm.trans hread'
    rfl
  obtain ⟨-, -, -, hamount⟩ := newTxSlate_returns _ _ _ _ _ _ hnew
  obtain ⟨k, s₁, c₁, w₃, w₄, hrefresh, hbuild, hfilled, hr, -⟩ := Tx.addInputsToSlate_ok hadd
  have hkeys : Owner.Settled w₃ :=
    (Updater.refreshOutputs_keyStep W mask _).rel hrefresh _ _
      ((Tx.newTxSlate_keeps keyStep_frees W _ _ _).rel hnew _ _ hw)
  obtain ⟨hprep, hindex⟩ := Selection.buildSendTx_prepares (hamount ▸ ha) hkeys hbuild
  obtain ⟨hproved, -, hc⟩ := Owner.addProofInfo_coins _ _ _ _ _ _ _ _ hproof
  dsimp only at hprep hindex hproved hc
  rw [hr] at hc
  have hfee : s.fee = s₁.fee := hhead.fee.trans (hproved.fee.trans hfilled.fee)
  refine ⟨c, w₂, hsave, hparent, hpicks, ?_, fun hne => ?_⟩
  · rw [hfee, ← hamount]
    exact hprep.congr (by rw [hc]) (by rw [hc])
  · rw [hparent]
    exact Owner.addProofInfo_depth (by rw [hr]; exact hindex) hproof hne

/-! ## Where locking does not panic -/

theorem SoundRows.keyed {d : Rows Key Serializable} (h : SoundRows d) : Keyed d :=
  fun _ _ _ ho => (h _ _ ho).1

namespace Selection

variable {W : World}

theorem lockedCoin_plain {o : OutputData} (h : (Serializable.outputData o).Plain) (logId : Nat) :
    (Serializable.outputData (lockedCoin logId o)).Plain := h

theorem lockInput_total {logId acc n : Nat} {i : Identifier × Option Nat × Nat} {coin : OutputData} :
    Prog.Total (fun w => Roomy (n + 1) w ∧ w.db.get (.output i.1 i.2.1) = some (.outputData coin) ∧
      acc + coin.value < u64Size) (lockInput logId acc i) fun _ => Roomy n := by
  refine Prog.Total.bind (R := fun o w => (Roomy (n + 1) w ∧ acc + coin.value < u64Size) ∧
    o = coin ∧ (Serializable.outputData coin).Plain) (.orPanic fun w hw => ?_) fun o => ?_
  · exact ⟨coin, w, getOutput_ok.2 ⟨hw.2.1, rfl⟩, ⟨hw.1, hw.2.2⟩, rfl, (hw.1.sound _ _ hw.2.1).2⟩
  refine Prog.Total.of_and fun ho => ?_
  obtain ⟨rfl, hplain⟩ := ho
  refine Prog.Total.bind (R := fun _ => Roomy (n + 1)) (.of_ok fun w hw => ?_) fun _ => ?_
  · exact ⟨_, w, addU64_ok.2 ⟨rfl, hw.2, rfl⟩, hw.1⟩
  · exact (Batch.save_total (o := lockedCoin logId o) (lockedCoin_plain hplain logId)).bind
      fun _ => .pure fun _ hw => hw

/-- The inputs left can be locked: they are there, and their sum fits. -/
structure LockReady (room : Nat) (l : List (Identifier × Option Nat × Nat)) (acc : Nat) (w : Wallet) :
    Prop where
  roomy : Roomy (l.length + room) w
  found : ∀ i ∈ l, ∃ o, w.db.get (.output i.1 i.2.1) = some (.outputData o) ∧ o.value = i.2.2
  sum : acc + (l.map (·.2.2)).sum < u64Size

theorem lockReady_step {logId acc room : Nat} {i : Identifier × Option Nat × Nat}
    {l : List (Identifier × Option Nat × Nat)} :
    Prog.Total (LockReady room (i :: l) acc) (lockInput logId acc i) (LockReady room l) := by
  have hrun : ∀ w, LockReady room (i :: l) acc w → ∃ coin, (Roomy (l.length + room + 1) w ∧
      w.db.get (.output i.1 i.2.1) = some (.outputData coin) ∧ acc + coin.value < u64Size) ∧
      coin.value = i.2.2 := by
    intro w hw
    obtain ⟨coin, hrow, hvalue⟩ := hw.found i List.mem_cons_self
    have hsum := hw.sum
    rw [List.map_cons, List.sum_cons] at hsum
    exact ⟨coin, ⟨hw.roomy.mono (by rw [List.length_cons]; omega), hrow, by omega⟩, hvalue⟩
  refine .intro (fun w m w' hw h => ?_) fun w w' hw h => ?_
  · obtain ⟨coin, hready, hvalue⟩ := hrun w hw
    obtain ⟨coin', hrow, rfl, -, -, hsets⟩ := lockInput_ok hw.roomy.sound.keyed h
    cases hready.2.1.symm.trans hrow
    refine ⟨lockInput_total.ok hready h, fun j hj => ?_, ?_⟩
    · obtain ⟨o, ho, hvalue'⟩ := hw.found j (List.mem_cons_of_mem _ hj)
      rw [hsets.get rfl]
      split_ifs with hsame
      · refine ⟨_, rfl, ?_⟩
        rw [hsame, hrow] at ho
        cases ho
        exact hvalue'
      · exact ⟨o, ho, hvalue'⟩
    · have hsum := hw.sum
      rw [List.map_cons, List.sum_cons] at hsum
      omega
  · obtain ⟨coin, hready, -⟩ := hrun w hw
    exact lockInput_total.ne_panic hready h

/-- The change outputs left can be saved: their commits were computed, and their sum fits. -/
structure ChangeReady (commits : Rows Identifier (Option String × Nat))
    (l : List (Identifier × Option Nat × Nat)) (t : TxLogEntry) : Prop where
  found : ∀ i ∈ l, ∃ c, commits.get i.1 = some (c, i.2.2) ∧ ∀ s ∈ c.toList, PlainText s
  sum : t.amountCredited + (l.map (·.2.2)).sum < u64Size
  plain : (Serializable.txLogEntry t).Plain

theorem changeReady_step {parent : Identifier} {height logId : Nat}
    {commits : Rows Identifier (Option String × Nat)} {t : TxLogEntry}
    {i : Identifier × Option Nat × Nat} {l : List (Identifier × Option Nat × Nat)} :
    Prog.Total (fun w => Roomy (i :: l).length w ∧ ChangeReady commits (i :: l) t)
      (saveChange parent height logId commits t i)
      fun t' w => Roomy l.length w ∧ ChangeReady commits l t' := by
  refine .of_and fun hready => ?_
  obtain ⟨c, hrow, hplain⟩ := hready.found i List.mem_cons_self
  have hsum := hready.sum
  rw [List.map_cons, List.sum_cons] at hsum
  refine Prog.Total.bind (R := fun c' w => Roomy (l.length + 1) w ∧ c' = (c, i.2.2))
    (.unwrap fun w hw => ⟨_, hrow, hw, rfl⟩) fun c' => .of_and fun hc => ?_
  subst hc
  refine Prog.Total.bind (R := fun m w => Roomy (l.length + 1) w ∧ m = t.amountCredited + i.2.2)
    (.of_ok fun w hw => ⟨_, w, addU64_ok.2 ⟨rfl, by dsimp only; omega, rfl⟩, hw, rfl⟩)
    fun m => .of_and fun hm => ?_
  have hsaved : (Serializable.outputData (changeOutput parent height logId i.1 (c, i.2.2))).Plain :=
    hplain
  refine (Batch.save_total hsaved).bind fun _ => .pure fun w hw =>
    ⟨hw, fun j hj => ?_, ?_, hready.plain⟩
  · exact hready.found j (List.mem_cons_of_mem _ hj)
  · dsimp only
    omega

/-- The commits of the change are computed, each under its key. -/
theorem outputCommits_total {mask : Option SecretKey} {outs : List (Identifier × Option Nat × Nat)}
    {P : Wallet → Prop} (hkeys : (outs.map Prod.fst).Nodup) (hsum : (outs.map (·.2.2)).sum < u64Size) :
    Prog.Total P (outputCommits W mask outs) fun commits w => P w ∧ ∀ i ∈ outs,
      ∃ commit, commits.get i.1 = some (some (W.commitmentToHex commit), i.2.2) := by
  -- of the outputs, those not left have their commits
  refine Prog.Total.bind (R := fun r w => P w ∧ ∀ i ∈ outs,
    ∃ commit, r.1.get i.1 = some (some (W.commitmentToHex commit), i.2.2)) ?_ fun r => .pure fun _ h => h
  refine (Prog.Total.foldlM (I := fun l (r : Rows Identifier (Option String × Nat) × Nat) w =>
    P w ∧ l ⊆ outs ∧ r.2 + (l.map (·.2.2)).sum < u64Size ∧ ∀ i ∈ outs, i ∉ l →
      ∃ commit, r.1.get i.1 = some (some (W.commitmentToHex commit), i.2.2)) (fun o l r => ?_) outs
    (Rows.empty, 0)).mono (fun w hw => ⟨hw, fun _ h => h, by omega, fun i hi hn => absurd hi hn⟩)
    fun r w h => ⟨h.1, fun i hi => h.2.2.2 i hi List.not_mem_nil⟩
  refine (calcCommitForCache_total o.2.2 o.1).bind fun c w hw => ?_
  obtain ⟨⟨hP, hsub, hless, hdone⟩, commit, rfl⟩ := hw
  rw [List.map_cons, List.sum_cons] at hless
  rw [Prog.bind_of_ok (addU64_ok.2 ⟨rfl, by omega, rfl⟩)]
  refine ⟨hP, fun i hi => hsub (List.mem_cons_of_mem _ hi), by dsimp only; omega, fun i hi hn => ?_⟩
  have hout := hsub List.mem_cons_self
  by_cases hkey : i.1 = o.1
  · obtain rfl := List.inj_on_of_nodup_map hkeys hi hout hkey
    exact ⟨commit, Rows.get_put_self ..⟩
  · have hne : i ≠ o := fun h => hkey (congrArg Prod.fst h)
    obtain ⟨commit', hrow⟩ := hdone i hi (by simp [hn, hne])
    exact ⟨commit', (Rows.get_put_ne _ _ hkey).trans hrow⟩

theorem storedProofInfo_total {k : Keychain} {slate : Slate} {c : Context} {P : Wallet → Prop}
    (hdepth : c.paymentProofDerivationIndex ≠ none → c.parentKeyId.depth < 4) :
    Prog.Total P (storedProofInfo W k slate c) fun _ => P := by
  unfold storedProofInfo
  rcases slate.paymentProof with _ | p
  · exact .pure fun _ h => h
  rcases hindex : c.paymentProofDerivationIndex with _ | i
  · exact fun _ _ => trivial
  · exact Prog.Total.bind (R := fun j w => P w) (.pure fun _ h => h) fun j =>
      (Address.address_total (hdepth (by rw [hindex]; nofun)) j).bind fun key => .pure fun _ h => h

/-- What locking needs of the wallet, the context and the slate. -/
structure Lockable (W : World) (c : Context) (r : Slate) (addrTo : Option String) (w : Wallet) :
    Prop where
  roomy : Roomy (c.inputIds.length + c.outputIds.length) w
  found : ∀ i ∈ c.inputIds, ∃ o, w.db.get (.output i.1 i.2.1) = some (.outputData o) ∧ o.value = i.2.2
  inputs : c.inputTotal < u64Size
  outputs : c.outputTotal < u64Size
  keys : (c.outputIds.map Prod.fst).Nodup
  depth : c.paymentProofDerivationIndex ≠ none → c.parentKeyId.depth < 4
  logId : nextLogId w.db c.parentKeyId + 1 < u32Size
  commits : ∀ c, PlainText (W.commitmentToHex c)
  messages : ∀ s ∈ r.participantMessages.strings ++ addrTo.toList, PlainText s

theorem newSendEntry_plain {c : Context} {r : Slate} {addrTo : Option String} {logId debited : Nat}
    {now : DateTime} {proof : Option StoredProofInfo}
    (h : ∀ s ∈ r.participantMessages.strings ++ addrTo.toList, PlainText s) :
    (Serializable.txLogEntry { newSendEntry W r c logId now with
      amountDebited := debited
      messages := some r.participantMessages
      publicAddr := addrTo
      paymentProof := proof }).Plain := by
  intro s hs
  have hcases : s ∈ r.participantMessages.strings ∨ s = txFileName r.id ∨ s ∈ addrTo.toList := by
    simpa [Serializable.strings, newSendEntry] using hs
  rcases hcases with hs | rfl | hs
  · exact h s (List.mem_append_left _ hs)
  · exact txFileName_plain r.id
  · exact h s (List.mem_append_right _ hs)

theorem lockRows_total {mask : Option SecretKey} {r : Slate} {c : Context} {addrTo : Option String}
    {k : Keychain} {commits : Rows Identifier (Option String × Nat)} {w₀ : Wallet}
    (h : Lockable W c r addrTo w₀) (hcommits : ∀ i ∈ c.outputIds, ∃ commit,
      commits.get i.1 = some (some (W.commitmentToHex commit), i.2.2)) :
    Prog.Total (· = w₀) (lockRows W mask r c addrTo k commits) fun _ _ => True := by
  refine batch_total.bind fun _ => ?_
  refine Prog.Total.bind (R := fun n w => LockReady c.outputIds.length c.inputIds 0 w)
    (.of_ok ?_) fun logId => ?_
  · rintro w rfl
    refine ⟨_, _, Batch.nextTxLogId_of_lt h.logId,
      h.roomy.put trivial (numeric_plain _) (by simp), fun i hi => ?_, ?_⟩
    · rw [Rows.get_put_ne _ _ (by simp)]
      exact h.found i hi
    · have hsum := h.inputs
      unfold Context.inputTotal at hsum
      omega
  refine Prog.Total.bind (R := fun _ => LockReady c.outputIds.length c.inputIds 0)
    (.of_ok fun w hw => ⟨w.tick, _, rfl, ?_⟩) fun tick => ?_
  · exact ⟨⟨hw.roomy.history, hw.roomy.sound⟩, hw.found, hw.sum⟩
  refine (Prog.Total.foldlM (fun i l a => lockReady_step) c.inputIds 0).bind fun debited => ?_
  refine Prog.Total.bind (R := fun _ w => Roomy c.outputIds.length w)
    (storedProofInfo_total h.depth |>.mono ?_ fun _ _ hw => hw) fun proof => ?_
  · intro w hw
    exact hw.roomy.mono (by simp)
  refine Prog.Total.bind (R := fun t w => Roomy 0 w ∧ ChangeReady commits [] t)
    ((Prog.Total.foldlM (I := fun l t w => Roomy l.length w ∧ ChangeReady commits l t)
      (fun i l t => changeReady_step) c.outputIds _).mono (fun w hw => ⟨hw, fun i hi => ?_, ?_, ?_⟩)
      fun _ _ hw => hw) fun t => .of_and fun ht => ?_
  · obtain ⟨commit, hrow⟩ := hcommits i hi
    refine ⟨_, hrow, fun s hs => ?_⟩
    rw [Option.toList_some, List.mem_singleton] at hs
    exact hs ▸ h.commits commit
  · have hsum := h.outputs
    unfold Context.outputTotal at hsum
    show 0 + _ < _
    omega
  · exact newSendEntry_plain h.messages
  · exact Prog.Total.bind (R := fun _ _ => True) (put_total fun w hw => ⟨ht.plain, trivial⟩) fun _ =>
      .pure fun _ _ => trivial

end Selection

/-- Locking a context whose coins are there does not panic. -/
theorem Owner.txLockOutputs_total {W : World} {mask : Option SecretKey} {r : Slate} {c : Context}
    {addrTo : Option String} {w : Wallet} (hc : getPrivateContext W mask r.id 0 w = (.ok c, w))
    (h : Selection.Lockable W c r addrTo w) (w' : Wallet) :
    Owner.txLockOutputs W mask r 0 addrTo w ≠ (.error .panic, w') := by
  unfold Owner.txLockOutputs
  rw [Prog.bind_of_ok hc]
  have hsum := h.outputs
  unfold Context.outputTotal at hsum
  refine Prog.Total.ne_panic (P := (· = w)) (Q := fun _ _ => True) ?_ rfl
  refine (Selection.outputCommits_total h.keys hsum).bind fun commits => .of_and fun hcommits => ?_
  refine keychain_total.bind fun k => ?_
  refine Prog.Total.bind (R := fun t _ => t.txSlateId = some r.id)
    (.intro (fun s t s' hs hrun => ?_) fun s s' hs => ?_) fun t => ?_
  · obtain ⟨n, hlocked⟩ := Selection.lockRows_ok W (hs ▸ h.roomy.sound.keyed) hrun
    obtain ⟨proof, rfl⟩ := hlocked.entry
    rfl
  · exact (Selection.lockRows_total h hcommits).ne_panic hs
  · refine Prog.Total.bind (R := fun _ _ => True) (.unwrap fun s hs => ⟨_, hs, trivial⟩) fun _ =>
      storeTx_total

/-! ## Between the two calls -/

/-- The change is no more than what is left of the coins. -/
theorem Selection.sum_shares_le {c n : Nat} (hpart : 0 < c / n) : (shares c n).sum ≤ c := by
  have hn : 0 < n := Nat.pos_of_ne_zero fun hzero => by
    rw [hzero, Nat.div_zero] at hpart
    omega
  have hdiv : n * (c / n) + c % n = c := Nat.div_add_mod c n
  have hmod : (n * (c / n) + c % n) % (c / n) = c % n % (c / n) := Nat.mul_add_mod_self_right ..
  have hle : c % n % (c / n) ≤ c % n := Nat.mod_le ..
  rw [hdiv] at hmod
  rw [sum_shares hn]
  omega

theorem Selection.Prepared.outputTotal_le {amount fee n : Nat} {c : Context}
    (h : Selection.Prepared amount fee n c) : amount + fee + c.outputTotal ≤ c.inputTotal := by
  have hcovers := h.covers
  unfold Context.outputTotal
  obtain ⟨-, hnone⟩ | ⟨hpart, hshares⟩ := h.change
  · rw [hnone]
    simpa using hcovers
  · rw [hshares]
    have hle := Selection.sum_shares_le hpart
    omega

/-- Each coin of the context `c` is in `d` what it was in `d₀`. -/
def Selection.Finds (c : Context) (d₀ d : Rows Key Serializable) : Prop :=
  ∀ i ∈ c.inputIds, ∃ o o', d₀.get (.output i.1 i.2.1) = some (.outputData o) ∧ o.value = i.2.2 ∧
    o.SameCoin o' ∧ d.get (.output i.1 i.2.1) = some (.outputData o')

/-- The coins of the context `c`, as they stood in `d₀`, are locked for entry `n`, and of the other outputs
only its change is new. -/
structure Selection.LocksCoins (c : Context) (n : Nat) (d₀ d d' : Rows Key Serializable) : Prop where
  coins : ∀ i ∈ c.inputIds, ∃ o o', d₀.get (.output i.1 i.2.1) = some (.outputData o) ∧
    o.SameCoin o' ∧ d.get (.output i.1 i.2.1) = some (.outputData o') ∧
    d'.get (.output i.1 i.2.1) = some (.outputData (Selection.lockedCoin n o'))
  others : ∀ id m, Key.output id m ∉ Selection.inputKeys c.inputIds →
    Key.output id m ∉ Selection.changeKeys c.outputIds → d'.get (.output id m) = d.get (.output id m)

/-- What may make the locking of a slate panic: a log id or a record of the output history beyond the
bound of its counter, or a text with an apostrophe. -/
def Selection.Exhausted (c : Context) (r : Slate) (addrTo : Option String) (d : Rows Key Serializable) :
    Prop :=
  u32Size ≤ Selection.nextLogId d c.parentKeyId + 1 ∨
    u32Size ≤ asU32 (numericOf d .outputHistoryId) + (c.inputIds.length + c.outputIds.length) ∨
    ∃ text ∈ r.participantMessages.strings ++ addrTo.toList, ¬PlainText text

section
variable {W : World} {c : Context} {r : Slate} {addrTo : Option String}
  {commits : Rows Identifier (Option String × Nat)} {n : Nat} {t : TxLogEntry} {w w' : Wallet}
  {d₀ : Rows Key Serializable}

theorem Selection.locksCoins_of_locked (h : Selection.LockedRows W r c addrTo commits n t w w')
    (hfinds : Selection.Finds c d₀ w.db) (hapart : ∀ a ∈ c.outputIds, ∀ i ∈ c.inputIds, a.1 ≠ i.1) :
    Selection.LocksCoins c n d₀ w.db w'.db := by
  refine ⟨fun i hi => ?_, fun id m hin hch => ?_⟩
  · obtain ⟨o, o', ho, -, hsame, ho'⟩ := hfinds i hi
    have hchange : Key.output i.1 i.2.1 ∉ Selection.changeKeys c.outputIds := by
      intro hmem
      obtain ⟨a, ha, heq⟩ := List.mem_map.1 hmem
      exact hapart a ha i hi (Key.output.inj heq).1
    have hinput : Key.output i.1 i.2.1 ∈ Selection.inputKeys c.inputIds := List.mem_map_of_mem hi
    refine ⟨o, o', ho, hsame, ho', ?_⟩
    rw [h.outputs, if_neg hchange, if_pos hinput, ho']
    rfl
  · rw [h.outputs, if_neg hch, if_neg hin]

/-- What is debited is what the coins were worth. -/
theorem Selection.Finds.debited (h : Selection.Finds c d₀ w.db) :
    (c.inputIds.map (Selection.inputValue w.db)).sum = c.inputTotal := by
  unfold Context.inputTotal
  refine congrArg List.sum (List.map_congr_left fun i hi => ?_)
  obtain ⟨o, o', -, hvalue, hsame, ho'⟩ := h i hi
  rw [Selection.inputValue_eq ho', hsame.value, hvalue]

/-- What is credited is what the change is worth. -/
theorem Selection.credited_of_commits (h : ∀ i ∈ c.outputIds, ∃ commit,
    commits.get i.1 = some (some (W.commitmentToHex commit), i.2.2)) :
    (c.outputIds.map (Selection.changeValue commits)).sum = c.outputTotal := by
  unfold Context.outputTotal
  refine congrArg List.sum (List.map_congr_left fun i hi => ?_)
  obtain ⟨commit, hrow⟩ := h i hi
  unfold Selection.changeValue
  rw [hrow]
  rfl

end

/-- The coins are worth the amount, the fee and the change, exactly if there is no change or its division
leaves less than a part. -/
theorem Selection.Prepared.total_eq_iff {c : Context} {amount fee n : Nat}
    (h : Selection.Prepared amount fee n c) :
    c.inputTotal = amount + fee + c.outputTotal ↔ c.inputTotal = amount + fee ∨
      (c.inputTotal - amount - fee) % n < (c.inputTotal - amount - fee) / n := by
  have hcovers := h.covers
  unfold Context.outputTotal
  obtain ⟨hexact, hnone⟩ | ⟨hpart, hshares⟩ := h.change
  · rw [hnone]
    simp [hexact]
  · have hne : c.inputTotal ≠ amount + fee := fun hexact => by
      rw [show c.inputTotal - amount - fee = 0 by omega, Nat.zero_div] at hpart
      omega
    rw [hshares, ← sum_shares_eq_iff hpart]
    omega

namespace Op

variable {W : World}

/-- The keychain of a wallet stays, whatever its calls do. -/
theorem keychain_of_run {x y : Calls} {ok : Act → Wallet → Prop} (h : Pool.Run (sections W) ok x y)
    (hx : ∀ p ∈ x.progs, p.Each (Orderly W)) : y.state.keychain = x.state.keychain ∧
      y.state.masterChecksum = x.state.masterChecksum := by
  have hF : Frees (Prog.Inv fun w : Wallet => w.keychain = x.state.keychain ∧
      w.masterChecksum = x.state.masterChecksum) allRows := by
    refine ⟨fun w w' hw hi => ?_, fun _ _ hi => hi, fun k _ v _ w hi => ?_, fun _ _ _ hi => hi⟩
    · rw [hw]
      exact hi
    · unfold put
      split_ifs <;> exact hi
  exact (inv_of_run hF (fun _ _ hi => hi) h hx ⟨rfl, rfl⟩).1

section
variable {mask : Option SecretKey} {args : InitTxArgs} {s : Slate} {w w₁ : Wallet}
  (hkeys : Owner.Settled w) (hrows : SoundRows w.db) (ha : args.amount < u64Size)
  (hargs : args.estimateOnly ≠ some true) (hs : Owner.initSendTx W mask args w = (.ok s, w₁))

include hkeys hrows ha hargs hs

/-- A send that was started, after any interleaving of calls that leaves its coins and its context. -/
theorem finds_of_run : ∃ c, getPrivateContext W mask s.id 0 w₁ = (.ok c, w₁) ∧
    Selection.Picks w₁.db s.height args.minimumConfirmations c ∧
    Selection.Prepared args.amount s.fee args.numChangeOutputs c ∧
    (c.paymentProofDerivationIndex ≠ none → c.parentKeyId.depth < 4) ∧
    ∀ x y : Calls, x.state = w₁ → (∀ p ∈ x.progs, p.Each (Orderly W)) →
      Pool.Run (sections W) (Act.LeavesInputs c.inputIds W) x y →
      y.state.db.get (.privateTxContext s.id 0) = w₁.db.get (.privateTxContext s.id 0) →
      getPrivateContext W mask s.id 0 y.state = (.ok c, y.state) ∧ SoundRows y.state.db ∧
        Selection.Finds c w₁.db y.state.db := by
  obtain ⟨c, w₀, hsave, -, hpicks, hprep, hdepth⟩ := Owner.initSendTx_prepares ha hargs hkeys hs
  refine ⟨c, (getPrivateContext_of_saveContext hsave ⟨rfl, rfl, rfl⟩).2, hpicks, hprep, hdepth, ?_⟩
  intro x y hx hprogs hrun hctx
  subst hx
  have hsound₁ : SoundRows x.state.db :=
    (Owner.initSendTx_keeps W (soundRows_frees _) mask args).rel hs hrows
  have hpicked : ∀ i ∈ c.inputIds, ∃ o, x.state.db.get (.output i.1 i.2.1) = some (.outputData o) ∧
      o.value = i.2.2 := by
    intro i hi
    obtain ⟨o, ho, rfl⟩ := hpicks i hi
    exact ⟨o, hsound₁.keyed.stored (Selection.mem_eligibleOutputs.1 ho).1, rfl⟩
  have hkept : InputsKept c.inputIds x.state.db y.state := by
    refine inputs_of_run hrun hprogs ⟨hsound₁.keyed, fun i hi => ?_⟩
    obtain ⟨o, ho, -⟩ := hpicked i hi
    exact ⟨o, o, ho, ho, .refl o⟩
  obtain ⟨hkeychain, hchecksum⟩ := keychain_of_run hrun hprogs
  refine ⟨(getPrivateContext_of_saveContext hsave ⟨hctx, hkeychain, hchecksum⟩).2,
    (inv_of_run (soundRows_frees _) (fun _ _ hi => hi) hrun hprogs hsound₁).1, fun i hi => ?_⟩
  obtain ⟨o, ho, hvalue⟩ := hpicked i hi
  obtain ⟨a, b, hrow, hrow', hsame⟩ := hkept.inputs i hi
  cases ho.symm.trans hrow
  exact ⟨o, b, ho, hvalue, hsame, hrow'⟩

/-- A send that was started can be locked after any interleaving of calls that leaves its coins and its
context, with any slate of its id: it panics only where a counter is exhausted or a text has an apostrophe,
and if it succeeds, it locks the coins that were selected, and no other. -/
theorem locked_of_prepared (hhex : ∀ c, PlainText (W.commitmentToHex c)) :
    ∃ c, getPrivateContext W mask s.id 0 w₁ = (.ok c, w₁) ∧
      Selection.Picks w₁.db s.height args.minimumConfirmations c ∧
      ∀ x y : Calls, x.state = w₁ → (∀ p ∈ x.progs, p.Each (Orderly W)) →
        Pool.Run (sections W) (Act.LeavesInputs c.inputIds W) x y →
        y.state.db.get (.privateTxContext s.id 0) = w₁.db.get (.privateTxContext s.id 0) →
        ∀ r addrTo, r.id = s.id →
          (∀ w', Owner.txLockOutputs W mask r 0 addrTo y.state = (.error .panic, w') →
            Selection.Exhausted c r addrTo y.state.db) ∧
          ∀ w', Owner.txLockOutputs W mask r 0 addrTo y.state = (.ok (), w') →
            Selection.LocksCoins c (Selection.nextLogId y.state.db c.parentKeyId) w₁.db y.state.db
              w'.db := by
  obtain ⟨c, hc₁, hpicks, hprep, hdepth, hfinds⟩ := finds_of_run hkeys hrows ha hargs hs
  refine ⟨c, hc₁, hpicks, fun x y hx hprogs hrun hctx r addrTo hr => ?_⟩
  obtain ⟨hc, hsound, hcoins⟩ := hfinds x y hx hprogs hrun hctx
  rw [← hr] at hc
  refine ⟨fun w' hpanic => ?_, fun w' hlock => ?_⟩
  · by_contra hroom
    unfold Selection.Exhausted at hroom
    push Not at hroom
    obtain ⟨hlog, hhistory, htexts⟩ := hroom
    have houtputs := hprep.outputTotal_le
    have htotal := hprep.total_lt
    refine Owner.txLockOutputs_total hc ⟨⟨hhistory, hsound⟩, fun i hi => ?_, htotal, by omega,
      hprep.keys, hdepth, hlog, hhex, htexts⟩ w' hpanic
    obtain ⟨o, o', -, hvalue, hsame, ho'⟩ := hcoins i hi
    exact ⟨o', ho', hsame.value.trans hvalue⟩
  · obtain ⟨commits, t, w₂, -, hlocked, hdb, -⟩ := Owner.txLockOutputs_ok hsound.keyed hc hlock
    rw [hdb]
    exact Selection.locksCoins_of_locked hlocked hcoins hprep.apart

/-- Whatever slate of its id came back to a send that was started, its entry debits what the coins were
worth that were selected and credits the change derived with them. These are at least the amount and fee
agreed on at the start apart, and exactly that unless the division of the change loses some; but the fee
recorded is that of the slate that came back. -/
theorem balance_of_reply : ∃ c, getPrivateContext W mask s.id 0 w₁ = (.ok c, w₁) ∧
    ∀ x y : Calls, x.state = w₁ → (∀ p ∈ x.progs, p.Each (Orderly W)) →
      Pool.Run (sections W) (Act.LeavesInputs c.inputIds W) x y →
      y.state.db.get (.privateTxContext s.id 0) = w₁.db.get (.privateTxContext s.id 0) →
      ∀ r addrTo w', r.id = s.id → Owner.txLockOutputs W mask r 0 addrTo y.state = (.ok (), w') →
        ∃ t, entryAt w'.db c.parentKeyId (Selection.nextLogId y.state.db c.parentKeyId) = some t ∧
          t.txType = .txSentCreated ∧ t.txSlateId = some s.id ∧ t.fee = some r.fee ∧
          t.amountDebited = c.inputTotal ∧ t.amountCredited = c.outputTotal ∧
          args.amount + s.fee + t.amountCredited ≤ t.amountDebited ∧
          (t.amountDebited = args.amount + s.fee + t.amountCredited ↔
            c.inputTotal = args.amount + s.fee ∨
              (c.inputTotal - args.amount - s.fee) % args.numChangeOutputs <
                (c.inputTotal - args.amount - s.fee) / args.numChangeOutputs) := by
  obtain ⟨c, hc₁, -, hprep, -, hfinds⟩ := finds_of_run hkeys hrows ha hargs hs
  refine ⟨c, hc₁, fun x y hx hprogs hrun hctx r addrTo w' hr hlock => ?_⟩
  obtain ⟨hc, hsound, hcoins⟩ := hfinds x y hx hprogs hrun hctx
  rw [← hr] at hc
  obtain ⟨commits, t, w₂, hcommits, hlocked, hdb, -⟩ := Owner.txLockOutputs_ok hsound.keyed hc hlock
  obtain ⟨hentry, -, htype, hslate, -⟩ := hlocked.cancellable
  have hle := hprep.outputTotal_le
  have htotal := hprep.total_lt
  have houtputs : c.outputTotal < u64Size := by omega
  have hcredited : ∀ i ∈ c.outputIds, ∃ commit,
      commits.get i.1 = some (some (W.commitmentToHex commit), i.2.2) :=
    ((Selection.outputCommits_total (P := fun _ => True) hprep.keys houtputs).ok trivial hcommits).2
  obtain ⟨proof, ht⟩ := hlocked.entry
  have hdebit : t.amountDebited = c.inputTotal := by
    rw [ht]
    exact hcoins.debited
  have hcredit : t.amountCredited = c.outputTotal := by
    rw [ht]
    exact Selection.credited_of_commits hcredited
  refine ⟨t, hdb ▸ hentry, htype, hr ▸ hslate, by rw [ht]; rfl, hdebit, hcredit, by omega, ?_⟩
  rw [hdebit, hcredit]
  exact hprep.total_eq_iff

end

open World

/-- A new wallet with a reward of the small world that was refreshed. -/
def rewarded : Wallet :=
  (Owner.updateOutputs small none
    (Foreign.buildCoinbase small none ⟨0, 1, none⟩ (created ⟨7⟩ 7 .initNoScanning)).2).2

theorem settled_rewarded : Owner.Settled rewarded :=
  Owner.keeps_settled (Owner.updateOutputs_keyStep small none) _
    (Owner.keeps_settled (Updater.receiveReward_keyStep small none ⟨0, 1, none⟩ _ _) _
      (settled_created ⟨7⟩ 7 .initNoScanning))

/-- A payment is started. -/
def prepared : Except (Fault Error) Slate × Wallet := Owner.initSendTx small none payFive rewarded

def preparedSlate : Slate := slateOr emptySlate prepared

/-- An account is created. -/
def meanwhile (w : Wallet) : Wallet := (createAccountPath none "b").run small w

theorem soundRows_created (k : Keychain) (checksum : Nat) (status : WalletInitStatus) :
    SoundRows (created k checksum status).db := by
  intro key v h
  unfold created opened at h
  rw [Rows.get_put, Rows.get_put] at h
  split_ifs at h with hstatus haccount
  · cases hstatus
    cases h
    exact ⟨trivial, fun _ hs => absurd hs List.not_mem_nil⟩
  · cases haccount
    cases h
    exact ⟨trivial, by decide⟩
  · cases h

/-- A reward that is refreshed. -/
theorem soundRows_reward {w : Wallet} (hw : SoundRows w.db) : SoundRows
    (Owner.updateOutputs W none (Foreign.buildCoinbase W none ⟨0, 1, none⟩ w).2).2.db := by
  have hreward : SoundRows (Foreign.buildCoinbase W none ⟨0, 1, none⟩ w).2.db :=
    Updater.receiveReward_keeps (soundRows_frees allRows) W (mem_allRows _) (mem_allRows _)
      (mem_allRows _) none ⟨0, 1, none⟩ _ _ w hw
  exact Owner.updateOutputs_framed none _ (soundRows_frees _) (fun _ _ h => h) _ hreward

theorem soundRows_rewarded : SoundRows rewarded.db := by
  unfold rewarded
  exact soundRows_reward (soundRows_created ⟨7⟩ 7 .initNoScanning)

/-- A call alone. -/
theorem run_call (ok : Act → Wallet → Prop) {op : Op} (hsec : op.sections W =
    .sec (.call op) (op.prog W) .done) (w : Wallet) (hok : ok (.call op) w) :
    Pool.Run (sections W) ok ⟨w, []⟩ ⟨op.run W w, Pool.left .done (op.prog W w).1⟩ := by
  have hbegun : Pool.Run (sections W) ok ⟨w, []⟩ ⟨w, [op.sections W]⟩ := Pool.Run.refl.start op
  rw [hsec] at hbegun
  have hstep := @Pool.Step.act _ _ _ _ (sections W) w [] [] _ (.call op) (op.prog W) .done
  rw [List.append_nil, List.nil_append] at hstep
  exact .tail hbegun hstep fun a ha => by cases ha; exact hok

theorem small_hex (c : Commitment) : PlainText (small.commitmentToHex c) := by
  intro hc
  have hmem : '\'' ∈ (String.ofList (Nat.toDigits 10 c.raw)).toList := hc
  rw [String.toList_ofList] at hmem
  have hdigit : Char.isDigit '\'' = true := Nat.isDigit_of_mem_toDigits (by decide) (by decide) hmem
  exact absurd hdigit (by decide)

theorem locked_of_prepared_small :
    ∃ c, getPrivateContext small none preparedSlate.id 0 prepared.2 = (.ok c, prepared.2) ∧
      Selection.LocksCoins c (Selection.nextLogId (meanwhile prepared.2).db c.parentKeyId) prepared.2.db
        (meanwhile prepared.2).db
        (Owner.txLockOutputs small none preparedSlate 0 none (meanwhile prepared.2)).2.db := by
  have hlocks (w₁ : Wallet) (hs : Owner.initSendTx small none payFive rewarded = (.ok preparedSlate, w₁))
      (hctx : (meanwhile w₁).db.get (.privateTxContext preparedSlate.id 0) =
        w₁.db.get (.privateTxContext preparedSlate.id 0))
      (hl : (Owner.txLockOutputs small none preparedSlate 0 none (meanwhile w₁)).1 = .ok ()) :
      ∃ c, getPrivateContext small none preparedSlate.id 0 w₁ = (.ok c, w₁) ∧
        Selection.LocksCoins c (Selection.nextLogId (meanwhile w₁).db c.parentKeyId) w₁.db
          (meanwhile w₁).db
          (Owner.txLockOutputs small none preparedSlate 0 none (meanwhile w₁)).2.db := by
    obtain ⟨c, hc, -, hlocks⟩ :=
      locked_of_prepared settled_rewarded soundRows_rewarded (by decide) (by decide) hs small_hex
    have hrun := run_call (Act.LeavesInputs c.inputIds small)
      (show (createAccountPath none "b").sections small = _ from rfl) w₁ trivial
    exact ⟨c, hc, (hlocks _ _ rfl (fun _ hp => absurd hp List.not_mem_nil) hrun hctx preparedSlate none
      rfl).2 _ (Prog.run_eq hl)⟩
  exact hlocks prepared.2 (Prog.run_eq (by decide +kernel)) (by decide +kernel) (by decide +kernel)

/-- The slate with another fee. -/
def refee (s : Slate) (fee : Nat) : Slate := { s with fee }

theorem balance_of_reply_small :
    ∃ c t, getPrivateContext small none preparedSlate.id 0 prepared.2 = (.ok c, prepared.2) ∧
      entryAt (Owner.txLockOutputs small none (refee preparedSlate 1) 0 none (meanwhile prepared.2)).2.db
        c.parentKeyId (Selection.nextLogId (meanwhile prepared.2).db c.parentKeyId) = some t ∧
      t.fee = some 1 ∧ payFive.amount + preparedSlate.fee + t.amountCredited ≤ t.amountDebited := by
  have hbalance (s : Slate) (w₁ : Wallet)
      (hs : Owner.initSendTx small none payFive rewarded = (.ok s, w₁))
      (hctx : (meanwhile w₁).db.get (.privateTxContext s.id 0) = w₁.db.get (.privateTxContext s.id 0))
      (hl : (Owner.txLockOutputs small none (refee s 1) 0 none (meanwhile w₁)).1 = .ok ()) :
      ∃ c t, getPrivateContext small none s.id 0 w₁ = (.ok c, w₁) ∧
        entryAt (Owner.txLockOutputs small none (refee s 1) 0 none (meanwhile w₁)).2.db c.parentKeyId
          (Selection.nextLogId (meanwhile w₁).db c.parentKeyId) = some t ∧
        t.fee = some 1 ∧ payFive.amount + s.fee + t.amountCredited ≤ t.amountDebited := by
    obtain ⟨c, hc, hreply⟩ :=
      balance_of_reply settled_rewarded soundRows_rewarded (by decide) (by decide) hs
    have hrun := run_call (Act.LeavesInputs c.inputIds small)
      (show (createAccountPath none "b").sections small = _ from rfl) w₁ trivial
    obtain ⟨t, hentry, -, -, hfee, -, -, hle, -⟩ := hreply _ _ rfl
      (fun _ hp => absurd hp List.not_mem_nil) hrun hctx (refee s 1) none _ rfl (Prog.run_eq hl)
    exact ⟨c, t, hc, hentry, hfee, hle⟩
  exact hbalance preparedSlate prepared.2 (Prog.run_eq (by decide +kernel)) (by decide +kernel)
    (by decide +kernel)

end Op

end EpicWallet
