import EpicWallet.Libwallet.Proof.Change

/-!
# The fee both parties check

The sender fixes the fee from the numbers of coins and change outputs it plans; each later step recomputes
it from the transaction (`Slate.check_fees`). The slate passes each time (`checkFees_selected`), whichever
party adds its elements first: the fee is the one of the transaction's own body, or that of a transaction
with more outputs.
-/

namespace EpicWallet

open Lib WalletBackend

/-- Whether an element adds an output. -/
def Append.isOutput : Append → Bool
  | .output _ _ => true
  | _ => false

/-- What building does to the body of a transaction: each element adds an input or an output, and the fee
is the one its kernels carry. -/
structure World.BuildsBody (W : World) : Prop where
  emptyKernel : ∀ f, (W.emptyKernel f).features = f
  totalFee : ∀ tx, W.totalFee tx = (tx.kernels.map fun k => World.featuresFee k.features).sum
  kernels : ∀ {tx elems k tx' b}, W.partialTransaction tx elems k = .ok (tx', b) → tx'.kernels = tx.kernels
  inputs : ∀ {tx elems k tx' b}, W.partialTransaction tx elems k = .ok (tx', b) →
    tx'.inputs.length = tx.inputs.length + elems.countP (!·.isOutput)
  outputs : ∀ {tx elems k tx' b}, W.partialTransaction tx elems k = .ok (tx', b) →
    tx'.outputs.length = tx.outputs.length + elems.countP (·.isOutput)

namespace Slate

variable {W : World}

/-! ## The rounds -/

/-- The same transaction but for its offset, the same amount and fee. -/
structure SameBody (s s' : Slate) : Prop where
  inputs : s'.tx.inputs = s.tx.inputs
  outputs : s'.tx.outputs = s.tx.outputs
  kernels : s'.tx.kernels = s.tx.kernels
  amount : s'.amount = s.amount
  fee : s'.fee = s.fee

theorem SameBody.trans {s s' s'' : Slate} (h : s.SameBody s') (h' : s'.SameBody s'') : s.SameBody s'' :=
  ⟨h'.inputs.trans h.inputs, h'.outputs.trans h.outputs, h'.kernels.trans h.kernels,
    h'.amount.trans h.amount, h'.fee.trans h.fee⟩

/-- A party's signing round. -/
inductive Round (W : World) : Slate → Slate → Prop
  | first {s s' k secKey secNonce id message secKey' w w'}
      (h : fillRound1 W s k secKey secNonce id message w = (.ok (s', secKey'), w')) : Round W s s'
  | second {s s' secKey secNonce id w w'}
      (h : fillRound2 W s secKey secNonce id w = (.ok s', w')) : Round W s s'

theorem fillRound1_sameBody {s s' : Slate} {k : Keychain} {secKey secNonce secKey' : SecretKey} {id : Nat}
    {message : Option String} {w w' : Wallet}
    (h : fillRound1 W s k secKey secNonce id message w = (.ok (s', secKey'), w')) : s.SameBody s' := by
  obtain ⟨⟨s₁, sec₁⟩, w₁, hoffset, h₁⟩ := Prog.bind_ok.1 h
  have hfirst : s.SameBody s₁ := by
    split at hoffset
    · obtain ⟨_, _, -, h₂⟩ := Prog.bind_ok.1 hoffset
      obtain ⟨_, _, -, h₃⟩ := Prog.bind_ok.1 h₂
      obtain ⟨_, _, -, h₄⟩ := Prog.bind_ok.1 h₃
      cases h₄
      exact ⟨rfl, rfl, rfl, rfl, rfl⟩
    · cases hoffset
      exact ⟨rfl, rfl, rfl, rfl, rfl⟩
  obtain ⟨s₂, w₂, hinfo, h₂⟩ := Prog.bind_ok.1 h₁
  cases h₂
  obtain ⟨_, _, -, h₃⟩ := Prog.bind_ok.1 hinfo
  obtain ⟨_, _, -, h₄⟩ := Prog.bind_ok.1 h₃
  obtain ⟨_, _, -, h₅⟩ := Prog.bind_ok.1 h₄
  cases h₅
  exact hfirst.trans ⟨rfl, rfl, rfl, rfl, rfl⟩

theorem fillRound2_sameBody {s s' : Slate} {secKey secNonce : SecretKey} {id : Nat} {w w' : Wallet}
    (h : fillRound2 W s secKey secNonce id w = (.ok s', w')) : s.SameBody s' := by
  obtain ⟨_, _, -, h₁⟩ := Prog.bind_ok.1 h
  obtain ⟨_, _, -, h₂⟩ := Prog.bind_ok.1 h₁
  obtain ⟨_, _, -, h₃⟩ := Prog.bind_ok.1 h₂
  obtain ⟨_, _, -, h₄⟩ := Prog.bind_ok.1 h₃
  obtain ⟨_, _, -, h₅⟩ := Prog.bind_ok.1 h₄
  obtain ⟨_, _, -, h₆⟩ := Prog.bind_ok.1 h₅
  obtain ⟨_, _, -, h₇⟩ := Prog.bind_ok.1 h₆
  obtain ⟨_, _, -, h₈⟩ := Prog.bind_ok.1 h₇
  cases h₈
  exact ⟨rfl, rfl, rfl, rfl, rfl⟩

theorem rounds_sameBody {s s' : Slate} (h : Relation.ReflTransGen (Round W) s s') : s.SameBody s' := by
  induction h with
  | refl => exact ⟨rfl, rfl, rfl, rfl, rfl⟩
  | tail _ hround ih =>
    refine ih.trans ?_
    cases hround with
    | first h => exact fillRound1_sameBody h
    | second h => exact fillRound2_sameBody h

/-! ## The body of a slate -/

/-- A party adds elements to `s`, and after some rounds the slate is `s'`. -/
def Adds (W : World) (elems : List Append) (s s' : Slate) : Prop :=
  ∃ k s₁ b, s.addTransactionElements W k elems = .ok (s₁, b) ∧ Relation.ReflTransGen (Round W) s₁ s'

/-- What adding elements makes of the body. -/
structure Added (W : World) (elems : List Append) (s s' : Slate) : Prop where
  inputs : s'.tx.inputs.length = s.tx.inputs.length + elems.countP (!·.isOutput)
  outputs : s'.tx.outputs.length = s.tx.outputs.length + elems.countP (·.isOutput)
  kernels : s'.tx.kernels.length = 1
  totalFee : W.totalFee s'.tx = s.fee
  amount : s'.amount = s.amount
  fee : s'.fee = s.fee

theorem Adds.added (hW : W.BuildsBody) {elems : List Append} {s s' : Slate} (h : Adds W elems s s') :
    Added W elems s s' := by
  obtain ⟨k, s₁, b, hadd, hrounds⟩ := h
  have hsame := rounds_sameBody hrounds
  unfold addTransactionElements at hadd
  dsimp only at hadd
  rcases ht : W.partialTransaction (s.updateKernel W).tx elems k with e | ⟨tx, blind⟩
  · rw [ht] at hadd
    cases hadd
  · rw [ht] at hadd
    cases hadd
    have hinputs := hW.inputs ht
    have houtputs := hW.outputs ht
    have hkernels : s'.tx.kernels = [W.emptyKernel s.kernelFeatures] :=
      hsame.kernels.trans (hW.kernels ht)
    refine ⟨?_, ?_, ?_, ?_, hsame.amount, hsame.fee⟩
    · rw [hsame.inputs]
      exact hinputs
    · rw [hsame.outputs]
      exact houtputs
    · rw [hkernels]
      rfl
    · rw [hW.totalFee, hkernels, List.map_singleton, List.sum_singleton, hW.emptyKernel]
      exact featuresFee_kernelFeatures s

/-- What `check_fees` lets pass. -/
theorem checkFees_of_le {s : Slate} (hfee : W.totalFee s.tx = s.fee)
    (hle : W.txFee s.tx.inputs.length s.tx.outputs.length s.tx.kernels.length ≤ s.fee)
    (htotal : s.amount + s.fee < u64Size) (w : Wallet) : checkFees W s w = (.ok (), w) := by
  unfold checkFees
  rw [hfee, if_neg (by omega), Prog.bind_of_ok (addU64_ok.2 ⟨rfl, htotal, rfl⟩), if_neg (by omega)]
  rfl

end Slate

namespace Selection

/-! ## The fee that was selected -/

section
variable {W : World} {amount currentHeight minimumConfirmations maxOutputs n : Nat} {selectAll : Bool}
  {parentKeyId : Identifier} {mask : Option SecretKey} {w w' : Wallet} {coins : List OutputData}
  {total amount' fee : Nat} {parts : List Append} {amounts : List (Nat × Identifier × Option Nat)}

theorem inputsAndChange_parts (h : inputsAndChange W coins mask amount fee n w = (.ok (parts, amounts), w')) :
    parts = coins.map inputPart ++ amounts.map fun a => Append.output a.1 a.2.1 := by
  obtain ⟨total, w₁, -, h₁⟩ := Prog.bind_ok.1 h
  obtain ⟨rest, w₂, -, h₂⟩ := Prog.bind_ok.1 h₁
  obtain ⟨change, w₃, -, h₃⟩ := Prog.bind_ok.1 h₂
  dsimp only at h₃
  split_ifs at h₃
  · cases h₃
    exact (List.append_nil _).symm
  · cases h₃
  · obtain ⟨l, w₄, -, h₄⟩ := Prog.bind_ok.1 h₃
    cases h₄
    rfl

theorem countP_inputPart (coins : List OutputData) :
    (coins.map inputPart).countP (·.isOutput) = 0 ∧
      (coins.map inputPart).countP (!·.isOutput) = coins.length := by
  have hpart (o : OutputData) : (inputPart o).isOutput = false := by
    unfold inputPart
    split_ifs
    · rfl
    · rfl
  induction coins with
  | nil => exact ⟨rfl, rfl⟩
  | cons o coins ih =>
    rw [List.map_cons, List.countP_cons, List.countP_cons, hpart, ih.1, ih.2]
    exact ⟨rfl, rfl⟩

theorem countP_outputPart (amounts : List (Nat × Identifier × Option Nat)) :
    (amounts.map fun a => Append.output a.1 a.2.1).countP (·.isOutput) = amounts.length ∧
      (amounts.map fun a => Append.output a.1 a.2.1).countP (!·.isOutput) = 0 := by
  induction amounts with
  | nil => exact ⟨rfl, rfl⟩
  | cons a amounts ih =>
    rw [List.map_cons, List.countP_cons, List.countP_cons, ih.1, ih.2]
    exact ⟨rfl, rfl⟩

/-- The fee is enough for the coins, the change outputs and one output more. -/
theorem txFee_le_selected (hfee : ∀ i o o', o ≤ o' → W.txFee i o 1 ≤ W.txFee i o' 1)
    (ha : amount < u64Size)
    (hcoins : (selectCoinsAndFee W amount currentHeight minimumConfirmations maxOutputs n selectAll parentKeyId
      w).1 = .ok (coins, total, amount', fee))
    (hparts : (inputsAndChange W coins mask amount' fee n w').1 = .ok (parts, amounts)) :
    amount' = amount ∧ W.txFee coins.length (amounts.length + 1) 1 ≤ fee := by
  obtain ⟨-, hchange⟩ := inputsAndChange_ok (Prod.ext hparts rfl)
  have hcount : amounts.length ≤ n ∧ (value coins = amount' + fee → amounts.length = 0) := by
    rcases hchange with ⟨-, rfl⟩ | ⟨hpart, hshares⟩
    · exact ⟨Nat.zero_le _, fun _ => rfl⟩
    · have hlength := congrArg List.length hshares
      unfold shares at hlength
      rw [List.length_map, List.length_map, List.length_range] at hlength
      refine ⟨hlength.le, fun hexact => ?_⟩
      rw [show value coins - amount' - fee = 0 by omega, Nat.zero_div] at hpart
      exact absurd hpart (Nat.lt_irrefl 0)
  obtain ⟨first, -, ⟨-, hr⟩ | ⟨-, -, hr⟩ | ⟨hexact, hr⟩ | ⟨-, last, -, hlast⟩⟩ :=
    selectCoinsAndFee_cases rfl ha (Prod.ext hcoins rfl) nofun
  · cases hr
  · cases hr
  · cases hr
    rw [hcount.2 hexact]
    exact ⟨rfl, le_rfl⟩
  · obtain ⟨-, hr⟩ | ⟨-, -, hr⟩ := hlast
    · cases hr
      exact ⟨rfl, hfee _ _ _ (Nat.succ_le_succ hcount.1)⟩
    · cases hr

/-- In the send flow the payer adds its coins and change to a new slate, and then the receiver its output;
in the invoice flow it is the other way round. From then on the slate passes `check_fees`. -/
theorem checkFees_selected (hW : W.BuildsBody)
    (hfee : ∀ i o o', o ≤ o' → W.txFee i o 1 ≤ W.txFee i o' 1) (ha : amount < u64Size)
    (hcoins : (selectCoinsAndFee W amount currentHeight minimumConfirmations maxOutputs n selectAll parentKeyId
      w).1 = .ok (coins, total, amount', fee))
    (hparts : (inputsAndChange W coins mask amount' fee n w').1 = .ok (parts, amounts)) :
    (∀ (s s₁ s₂ : Slate) (keyId : Identifier), s.tx = Transaction.empty → s.amount = amount → s.fee = fee →
      s.Adds W parts s₁ → s₁.Adds W [.output s₁.amount keyId] s₂ →
      ∀ v, s₂.checkFees W v = (.ok (), v)) ∧
    (∀ (s s₁ s₂ : Slate) (keyId : Identifier), s.tx = Transaction.empty → s.amount = amount →
      s.Adds W [.output s.amount keyId] s₁ → Slate.Adds W parts { s₁ with fee } s₂ →
      ∀ v, s₂.checkFees W v = (.ok (), v)) := by
  obtain ⟨rfl, hle⟩ := txFee_le_selected hfee ha hcoins hparts
  have htotal : amount' + fee < u64Size := by
    obtain ⟨hvalue, hcovers, -⟩ := inputsAndChange_runs_iff.1 ⟨_, _, Prod.ext hparts rfl⟩
    omega
  have hinputs : parts.countP (!·.isOutput) = coins.length := by
    rw [inputsAndChange_parts (Prod.ext hparts rfl), List.countP_append, (countP_inputPart coins).2,
      (countP_outputPart amounts).2, Nat.add_zero]
  have houtputs : parts.countP (·.isOutput) = amounts.length := by
    rw [inputsAndChange_parts (Prod.ext hparts rfl), List.countP_append, (countP_inputPart coins).1,
      (countP_outputPart amounts).1, Nat.zero_add]
  constructor
  · intro s s₁ s₂ keyId hempty hamount hsfee hadds hadds' v
    have hpayer := hadds.added hW
    have hreceiver := hadds'.added hW
    have hfee₂ : s₂.fee = fee := hreceiver.fee.trans (hpayer.fee.trans hsfee)
    have hin : s₂.tx.inputs.length = coins.length := by
      rw [hreceiver.inputs, hpayer.inputs, hinputs, hempty]
      exact Nat.zero_add _
    have hout : s₂.tx.outputs.length = amounts.length + 1 := by
      rw [hreceiver.outputs, hpayer.outputs, houtputs, hempty]
      exact congrArg (· + 1) (Nat.zero_add _)
    refine Slate.checkFees_of_le (hreceiver.totalFee.trans hreceiver.fee.symm) ?_ ?_ v
    · rw [hin, hout, hreceiver.kernels, hfee₂]
      exact hle
    · rw [hfee₂, hreceiver.amount, hpayer.amount, hamount]
      exact htotal
  · intro s s₁ s₂ keyId hempty hamount hadds hadds' v
    have hissuer := hadds.added hW
    have hpayer := hadds'.added hW
    have hfee₂ : s₂.fee = fee := hpayer.fee
    have hin : s₂.tx.inputs.length = coins.length := by
      rw [hpayer.inputs, hinputs]
      show s₁.tx.inputs.length + coins.length = coins.length
      rw [hissuer.inputs, hempty]
      exact Nat.zero_add _
    have hout : s₂.tx.outputs.length = amounts.length + 1 := by
      rw [hpayer.outputs, houtputs]
      show s₁.tx.outputs.length + amounts.length = amounts.length + 1
      rw [hissuer.outputs, hempty]
      exact Nat.add_comm 1 _
    refine Slate.checkFees_of_le (hpayer.totalFee.trans hfee₂.symm) ?_ ?_ v
    · rw [hin, hout, hpayer.kernels, hfee₂]
      exact hle
    · rw [hfee₂, hpayer.amount]
      show s₁.amount + fee < u64Size
      rw [hissuer.amount, hamount]
      exact htotal

end

/-! ## A payment of 10 -/

theorem smallAppend_body (elems : List Append) (tx : Transaction) :
    (elems.foldl World.smallAppend tx).kernels = tx.kernels ∧
      (elems.foldl World.smallAppend tx).inputs.length =
        tx.inputs.length + elems.countP (!·.isOutput) ∧
      (elems.foldl World.smallAppend tx).outputs.length =
        tx.outputs.length + elems.countP (·.isOutput) := by
  induction elems generalizing tx with
  | nil => exact ⟨rfl, rfl, rfl⟩
  | cons e elems ih =>
    obtain ⟨hkernels, hinputs, houtputs⟩ := ih (World.smallAppend tx e)
    rw [List.foldl_cons, hkernels, hinputs, houtputs, List.countP_cons, List.countP_cons]
    cases e with
    | input v id => exact ⟨rfl, by simp [World.smallAppend, Append.isOutput]; omega, rfl⟩
    | coinbaseInput v id => exact ⟨rfl, by simp [World.smallAppend, Append.isOutput]; omega, rfl⟩
    | output v id => exact ⟨rfl, rfl, by simp [World.smallAppend, Append.isOutput]; omega⟩

theorem small_buildsBody : World.small.BuildsBody where
  emptyKernel _ := rfl
  totalFee _ := rfl
  kernels h := by
    cases h
    exact (smallAppend_body _ _).1
  inputs h := by
    cases h
    exact (smallAppend_body _ _).2.1
  outputs h := by
    cases h
    exact (smallAppend_body _ _).2.2

/-- What the payer adds: its three coins, and a change of 16. -/
def tenParts : List Append :=
  [.input 3 ⟨3, 0, 0, 0, 0⟩, .input 9 ⟨3, 0, 0, 1, 0⟩, .input 20 ⟨3, 0, 0, 2, 0⟩,
    .output 16 ⟨3, 0, 0, 0, 0⟩]

/-- The slate with what a party adds. -/
def withElements (elems : List Append) (s : Slate) : Slate :=
  { s with tx := elems.foldl World.smallAppend (s.updateKernel World.small).tx }

theorem adds_withElements (elems : List Append) (s : Slate) :
    s.Adds World.small elems (withElements elems s) :=
  ⟨⟨7⟩, _, _, rfl, .refl⟩

def tenSent : Slate :=
  withElements [.output 10 ⟨3, 0, 0, 0, 0⟩]
    (withElements tenParts { World.emptySlate with amount := 10, fee := 6 })

theorem checkFees_selected_ten :
    tenSent.checkFees World.small World.funded = (.ok (), World.funded) :=
  (checkFees_selected small_buildsBody small_txFee_le (by decide)
    (by decide : (selectCoinsAndFee World.small 10 10 1 500 1 false defaultPath
      (purse [3, 9, 20])).1 = .ok ([coin 0 3, coin 1 9, coin 2 20], 32, 10, 6))
    (by decide : (inputsAndChange World.small [coin 0 3, coin 1 9, coin 2 20] none 10 6 1
      (purse [3, 9, 20])).1 = .ok (tenParts, [(16, ⟨3, 0, 0, 0, 0⟩, none)]))).1
    { World.emptySlate with amount := 10, fee := 6 } _ tenSent ⟨3, 0, 0, 0, 0⟩ rfl rfl rfl
    (adds_withElements _ _) (adds_withElements _ _) World.funded

end Selection

end EpicWallet
