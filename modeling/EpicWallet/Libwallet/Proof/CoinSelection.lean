import EpicWallet.Lib.Ordered
import EpicWallet.Libwallet.Proof.Selecting

/-!
# What coin selection promises

* `selectCoinsAndFee_coins`: the coins are different outputs that may be spent and cover the amount with
  the fee; it gives up only where all eligible outputs together do not.
* `not_retries_reselect`: where the fee does not rise with the inputs, it selects again at most once.
* `loopEnds_iff`: the loop ends, unless the sum of all eligible outputs overflows.
* `limited_iff`: when more coins are returned than the limit only in need. Selecting again starts from the
  smallest outputs, with no limit.
-/

namespace EpicWallet

open Lib WalletBackend

/-! ## Different outputs -/

/-- The coins are outputs of the database, no output twice. -/
def Distinct (d : Rows Key Serializable) (coins : List OutputData) : Prop :=
  ∃ rows : List (Key × OutputData), (rows.map Prod.fst).Nodup ∧ rows.map Prod.snd = coins ∧
    ∀ r ∈ rows, r.1.asOutput = true ∧ d.get r.1 = some (.outputData r.2)

theorem distinct_outputsOf (d : Rows Key Serializable) : Distinct d (outputsOf d) := by
  refine ⟨(d.toList.filter fun r => r.1.asOutput).filterMap fun r =>
    r.2.asOutputData.map fun o => (r.1, o), ?_, ?_, ?_⟩
  · rw [List.Nodup, List.pairwise_map, List.pairwise_filterMap]
    have hkeys := List.pairwise_map.1 d.nodup
    refine (hkeys.filter _).imp fun hne b hb b' hb' => ?_
    obtain ⟨o, -, rfl⟩ := Option.map_eq_some_iff.1 hb
    obtain ⟨o', -, rfl⟩ := Option.map_eq_some_iff.1 hb'
    exact hne
  · unfold outputsOf rowsOf
    rw [List.map_filterMap, List.filterMap_map]
    refine List.filterMap_congr fun r _ => ?_
    rw [Option.map_map]
    exact Option.map_id' ..
  · intro r hr
    obtain ⟨row, hrow, hr'⟩ := List.mem_filterMap.1 hr
    obtain ⟨o, ho, rfl⟩ := Option.map_eq_some_iff.1 hr'
    obtain ⟨hmem, hkey⟩ := List.mem_filter.1 hrow
    refine ⟨hkey, ?_⟩
    rw [← Serializable.asOutputData_eq.1 ho]
    exact Rows.mem_iff.1 hmem

theorem Distinct.subperm {d : Rows Key Serializable} {l coins : List OutputData} (h : Distinct d l)
    (hcoins : coins.Subperm l) : Distinct d coins := by
  obtain ⟨rows, hnodup, rfl, hrows⟩ := h
  obtain ⟨l', hperm, hsub⟩ := hcoins
  obtain ⟨rows', hrows', rfl⟩ := List.sublist_map_iff.1 hsub
  have hcomp : Relation.Comp (· = List.map Prod.snd ·) (·.Perm ·) coins rows' := by
    rw [List.eq_map_comp_perm]
    exact hperm.symm
  obtain ⟨chosen, rfl, hchosen⟩ := hcomp
  refine ⟨chosen, ?_, rfl, fun r hr => hrows r (hrows'.subset (hchosen.subset hr))⟩
  exact (hchosen.map Prod.fst).nodup_iff.2 (hnodup.sublist (hrows'.map Prod.fst))

namespace Selection

/-- The outputs of the account that may be spent. -/
theorem mem_eligibleOutputs {d : Rows Key Serializable} {currentHeight minimumConfirmations : Nat}
    {parentKeyId : Identifier} {o : OutputData} :
    o ∈ eligibleOutputs d currentHeight minimumConfirmations parentKeyId ↔
      o ∈ outputsOf d ∧ o.rootKeyId = parentKeyId ∧
        o.eligibleToSpend currentHeight minimumConfirmations = true := by
  unfold eligibleOutputs
  rw [(List.perm_insertionSort _ _).mem_iff, List.mem_filter]
  simp

theorem eligibleOutputs_subperm (d : Rows Key Serializable) (currentHeight minimumConfirmations : Nat)
    (parentKeyId : Identifier) :
    (eligibleOutputs d currentHeight minimumConfirmations parentKeyId).Subperm (outputsOf d) := by
  unfold eligibleOutputs
  exact (List.perm_insertionSort _ _).subperm.trans List.filter_sublist.subperm

/-- Selecting as many coins as are eligible selects them all. -/
theorem value_of_length {coins eligible : List OutputData} (h : coins.Subperm eligible)
    (hlength : coins.length = eligible.length) : value coins = value eligible :=
  value_perm (h.perm_of_length_le hlength.ge)

/-! ## Sound and complete -/

section
variable (W : World) {amount currentHeight minimumConfirmations maxOutputs changeOutputs : Nat}
  {selectAll : Bool} {parentKeyId : Identifier} {w : Wallet}

/-- The coins are different, may be spent, and cover the amount with the fee. -/
structure Spendable (d : Rows Key Serializable) (amount currentHeight minimumConfirmations : Nat)
    (parentKeyId : Identifier) (coins : List OutputData) (total fee : Nat) : Prop where
  distinct : Distinct d coins
  parent : ∀ o ∈ coins, o.rootKeyId = parentKeyId
  eligible : ∀ o ∈ coins, o.eligibleToSpend currentHeight minimumConfirmations = true
  total_eq : total = value coins
  covers : amount + fee ≤ total

theorem spendable_of_subperm {coins : List OutputData}
    (h : coins.Subperm (eligibleOutputs w.db currentHeight minimumConfirmations parentKeyId)) {fee : Nat}
    (hcovers : amount + fee ≤ value coins) :
    Spendable w.db amount currentHeight minimumConfirmations parentKeyId coins (value coins) fee where
  distinct := (distinct_outputsOf w.db).subperm (h.trans (eligibleOutputs_subperm ..))
  parent := fun _ ho => (mem_eligibleOutputs.1 (h.subset ho)).2.1
  eligible := fun _ ho => (mem_eligibleOutputs.1 (h.subset ho)).2.2
  total_eq := rfl
  covers := hcovers

/-- What is returned covers the amount with the fee; what fails could not have been covered. -/
theorem selectCoinsAndFee_coins (hfee : ∀ i o o', o ≤ o' → W.txFee i o 1 ≤ W.txFee i o' 1)
    (hpos : 1 ≤ amount) (ha : amount < u64Size) :
    (∀ coins total amount' fee,
      (selectCoinsAndFee W amount currentHeight minimumConfirmations maxOutputs changeOutputs selectAll
        parentKeyId w).1 = .ok (coins, total, amount', fee) →
      amount' = amount ∧
        Spendable w.db amount currentHeight minimumConfirmations parentKeyId coins total fee) ∧
    (∀ available availableDisp required requiredDisp,
      (selectCoinsAndFee W amount currentHeight minimumConfirmations maxOutputs changeOutputs selectAll
        parentKeyId w).1 = .error (.err (.notEnoughFunds available availableDisp required requiredDisp)) →
      value (eligibleOutputs w.db currentHeight minimumConfirmations parentKeyId) <
        amount + W.txFee (eligibleOutputs w.db currentHeight minimumConfirmations parentKeyId).length
          (changeOutputs + 1) 1) := by
  constructor
  · intro coins total amount' fee h
    obtain ⟨first, hfirst, ⟨-, hr⟩ | ⟨-, -, hr⟩ | ⟨hexact, hr⟩ | ⟨-, last, hvisits, hlast⟩⟩ :=
      selectCoinsAndFee_cases (W := W) rfl ha (Prod.ext h rfl) nofun
    · cases hr
    · cases hr
    · cases hr
      exact ⟨rfl, spendable_of_subperm (chosen_subperm hfirst) hexact.ge⟩
    · obtain ⟨henough, hr⟩ | ⟨-, -, hr⟩ := hlast
      · cases hr
        exact ⟨rfl, spendable_of_subperm (hvisits.subperm (chosen_subperm hfirst)) henough⟩
      · cases hr
  · intro available availableDisp required requiredDisp h
    obtain ⟨first, hfirst, ⟨hzero, -⟩ | ⟨hshort, hall, -⟩ | ⟨-, hr⟩ | ⟨-, last, hvisits, hlast⟩⟩ :=
      selectCoinsAndFee_cases (W := W) rfl ha (Prod.ext h rfl) (by rintro ⟨⟩)
    · have hless := value_chosen_lt hfirst (by omega)
      omega
    · have hvalue := value_of_length (chosen_subperm hfirst) hall
      have hmore := hfee first.length 1 (changeOutputs + 1) (Nat.le_add_left _ _)
      unfold needed at hshort
      rw [← hall, ← hvalue]
      omega
    · cases hr
    · obtain ⟨-, hr⟩ | ⟨hshort, hall, -⟩ := hlast
      · cases hr
      · have hvalue := value_of_length (hvisits.subperm (chosen_subperm hfirst)) hall
        rw [← hall, ← hvalue]
        exact hshort

end

/-- An unspent coin of the account. -/
def coin (nChild value : Nat) : OutputData :=
  ⟨defaultPath, ⟨3, 0, 0, nChild, 0⟩, nChild, none, none, value, .unspent, 1, 0, false, none⟩

/-- A wallet with coins of these values. -/
def purse (values : List Nat) : Wallet :=
  { opened ⟨7⟩ 7 with
    db := values.zipIdx.foldl (fun d v =>
      d.put (.output (coin v.2 v.1).keyId none) (.outputData (coin v.2 v.1))) (opened ⟨7⟩ 7).db }

theorem small_txFee_le (i o o' : Nat) (h : o ≤ o') : World.small.txFee i o 1 ≤ World.small.txFee i o' 1 := by
  show max 1 (4 * o + 1 - i) ≤ max 1 (4 * o' + 1 - i)
  omega

/-- Three coins are spent for a payment of 10, since two do not pay the fee too; they do not suffice for a
payment of 40. -/
theorem selectCoinsAndFee_coins_purse :
    Spendable (purse [3, 9, 20]).db 10 10 1 defaultPath [coin 0 3, coin 1 9, coin 2 20] 32 6 ∧
      value (eligibleOutputs (purse [3, 9, 20]).db 10 1 defaultPath) < 40 +
        World.small.txFee (eligibleOutputs (purse [3, 9, 20]).db 10 1 defaultPath).length 2 1 :=
  ⟨((selectCoinsAndFee_coins World.small small_txFee_le (by decide) (by decide)).1 _ _ 10 _
      (by decide : (selectCoinsAndFee World.small 10 10 1 500 1 false defaultPath
        (purse [3, 9, 20])).1 = .ok ([coin 0 3, coin 1 9, coin 2 20], 32, 10, 6))).2,
    (selectCoinsAndFee_coins World.small small_txFee_le (by decide) (by decide)).2 32 "32" 42 "42"
      (by decide : (selectCoinsAndFee World.small 40 10 1 500 1 false defaultPath
        (purse [3, 9, 20])).1 = .error (.err (.notEnoughFunds 32 "32" 42 "42")))⟩

/-! ## One retry -/

theorem ordered_eligibleOutputs (d : Rows Key Serializable) (currentHeight minimumConfirmations : Nat)
    (parentKeyId : Identifier) :
    Ordered.By (·.value) (eligibleOutputs d currentHeight minimumConfirmations parentKeyId) := by
  have : Std.Total fun a b : OutputData => a.value ≤ b.value := ⟨fun a b => Nat.le_total _ _⟩
  have : IsTrans OutputData fun a b => a.value ≤ b.value := ⟨fun a b c => Nat.le_trans⟩
  exact List.pairwise_insertionSort _ _

/-- The last coin taken was needed. -/
theorem value_dropLast_lt {amount selected : Nat} {l : List OutputData}
    (h : takeWhileBelow amount selected l ≠ []) :
    selected + value (takeWhileBelow amount selected l).dropLast < amount := by
  induction l generalizing selected with
  | nil => exact absurd rfl h
  | cons o l ih =>
    rw [takeWhileBelow] at h ⊢
    by_cases hs : selected < amount
    · rw [if_pos hs]
      by_cases hrest : takeWhileBelow amount (selected + o.value) l = []
      · rw [hrest]
        exact hs
      · rw [List.dropLast_cons_of_ne_nil hrest, value_cons, ← Nat.add_assoc]
        exact ih hrest
    · rw [if_neg hs] at h
      exact absurd rfl h

/-- As long as the amount is not reached, coins are taken. -/
theorem lt_length_takeWhileBelow {amount selected k : Nat} {l : List OutputData} (hk : k < l.length)
    (h : selected + value (l.take k) < amount) : k < (takeWhileBelow amount selected l).length := by
  induction l generalizing selected k with
  | nil => cases hk
  | cons o l ih =>
    have hs : selected < amount := by omega
    rw [takeWhileBelow, if_pos hs, List.length_cons]
    rcases k with _ | k
    · exact Nat.succ_pos _
    · rw [List.take_succ_cons, value_cons, ← Nat.add_assoc] at h
      exact Nat.succ_lt_succ (ih (Nat.lt_of_succ_lt_succ hk) h)

theorem candidates_false {maxOutputs : Nat} {eligible : List OutputData} {c : List OutputData × Bool}
    (h : c ∈ candidates maxOutputs false eligible) : c.2 = false := by
  unfold candidates at h
  split_ifs at h
  · rcases List.mem_append.1 h with hwindow | hlast
    · obtain ⟨l, -, rfl⟩ := List.mem_map.1 hwindow
      rfl
    · rw [List.mem_singleton.1 hlast]
  · rw [List.mem_singleton.1 h]

section
variable {W : World} {amount maxOutputs numOutputs : Nat} {selectAll : Bool}
  {eligible coins : List OutputData}

/-- Coins taken from the smallest on are the most that are needed. -/
theorem length_le_takeWhileBelow {target : Nat} {c : List OutputData}
    (hordered : Ordered.By (·.value) eligible) (hc : c.Sublist eligible) (htarget : amount ≤ target) :
    (takeWhileBelow amount 0 c).length ≤ (takeWhileBelow target 0 eligible).length := by
  by_cases hnil : takeWhileBelow amount 0 c = []
  · rw [hnil]
    exact Nat.zero_le _
  have hpos : 0 < (takeWhileBelow amount 0 c).length := List.length_pos_iff.2 hnil
  have hsub : (takeWhileBelow amount 0 c).Sublist eligible :=
    (takeWhileBelow_isPrefixOf amount 0 c).sublist.trans hc
  have hleast := Ordered.sum_take_le hordered ((List.dropLast_sublist _).trans hsub)
  have hlast := value_dropLast_lt hnil
  rw [List.length_dropLast] at hleast
  have hlength := hsub.length_le
  have hless : 0 + value (eligible.take ((takeWhileBelow amount 0 c).length - 1)) < target := by
    unfold value at hlast ⊢
    omega
  have hmore := lt_length_takeWhileBelow (by omega) hless
  omega

/-- Selecting again for the fee too takes no fewer coins. -/
theorem length_le_reselect (hordered : Ordered.By (·.value) eligible)
    (h : chosen amount maxOutputs selectAll eligible = some coins) :
    coins.length ≤ (reselect W amount numOutputs selectAll eligible coins).length := by
  have hall : coins.length ≤ eligible.length := (chosen_subperm h).length_le
  have hamount : amount ≤ needed W amount numOutputs coins := Nat.le_add_right _ _
  unfold reselect
  by_cases henough : needed W amount numOutputs coins ≤ value eligible
  · rw [if_pos henough]
    cases selectAll with
    | true => exact hall
    | false =>
      rcases chosen_cases h with ⟨c, hc, -, hcoins⟩ | ⟨hnone, -⟩
      · have hmem := List.mem_of_find?_eq_some hc
        rw [candidates_false hmem] at hcoins
        have hle := length_le_takeWhileBelow hordered (candidates_sublist hmem) hamount
        rwa [hcoins] at hle ⊢
      · obtain ⟨b, hmem⟩ := eligible_mem_candidates maxOutputs false eligible
        exact absurd (hamount.trans henough) (Nat.not_le.2 (value_lt_of_not_covering hnone _ hmem))
  · rw [if_neg henough, List.length_reverse]
    exact hall

/-- The loop selects again at most once. -/
theorem not_retries_reselect (hfee : ∀ i i' o, i ≤ i' → W.txFee i' o 1 ≤ W.txFee i o 1)
    (hordered : Ordered.By (·.value) eligible)
    (h : chosen amount maxOutputs selectAll eligible = some coins) :
    ¬Retries W amount numOutputs eligible (reselect W amount numOutputs selectAll eligible coins) :=
  fun hretries => Nat.not_lt.2 (hfee _ _ numOutputs (length_le_reselect hordered h))
    (fee_lt_of_retries hretries)

/-- The loop overflows only where it adds up all eligible outputs. -/
theorem fits_iff (hfee : ∀ i i' o, i ≤ i' → W.txFee i' o 1 ≤ W.txFee i o 1)
    (hordered : Ordered.By (·.value) eligible)
    (h : chosen amount maxOutputs selectAll eligible = some coins)
    (hneeded : needed W amount numOutputs coins < u64Size) :
    Fits W amount numOutputs selectAll eligible coins ↔
      (Retries W amount numOutputs eligible coins → value eligible < u64Size) := by
  by_cases hretries : Retries W amount numOutputs eligible coins
  · have hless : needed W amount numOutputs (reselect W amount numOutputs selectAll eligible coins) ≤
        needed W amount numOutputs coins :=
      Nat.add_le_add_left (hfee _ _ _ (length_le_reselect hordered h)) _
    rw [fits_of_retries hretries, fits_of_ends (not_retries_reselect hfee hordered h)]
    exact ⟨fun hfits _ => hfits.2.1, fun hvalue => ⟨hneeded, hvalue hretries, by omega⟩⟩
  · rw [fits_of_ends hretries]
    exact ⟨fun _ hr => absurd hr hretries, fun _ => hneeded⟩

end

/-! ## The loop ends -/

section
variable (W : World) (amount currentHeight minimumConfirmations changeOutputs : Nat) (selectAll : Bool)
  (parentKeyId : Identifier)

/-- The loop as it is entered with the first selection. -/
def feeLoop (available : Nat) (coins : List OutputData) (rounds : Nat) :
    WalletM (List OutputData × Nat × Nat) :=
  selectMore W amount currentHeight minimumConfirmations available (changeOutputs + 1) selectAll parentKeyId
    rounds coins (value coins) (amount + W.txFee coins.length (changeOutputs + 1) 1)
    (W.txFee coins.length (changeOutputs + 1) 1)

/-- Coins, or `NotEnoughFunds`. -/
def Answers (r : Except (Fault Error) (List OutputData × Nat × Nat)) : Prop :=
  (∃ a, r = .ok a) ∨ ∃ available availableDisp required requiredDisp,
    r = .error (.err (.notEnoughFunds available availableDisp required requiredDisp))

/-- After finitely many rounds the loop answers. -/
def LoopEnds (available : Nat) (coins : List OutputData) (w : Wallet) : Prop :=
  ∃ rounds, ∀ rounds' ≥ rounds, Answers (feeLoop W amount currentHeight minimumConfirmations changeOutputs
    selectAll parentKeyId available coins rounds' w).1

variable {W amount currentHeight minimumConfirmations changeOutputs selectAll parentKeyId}

theorem not_answers_panic : ¬Answers (.error .panic) := by
  rintro (⟨a, h⟩ | ⟨_, _, _, _, h⟩)
  · cases h
  · cases h

theorem chosen_of_selectCoins (ha : amount < u64Size) {maxOutputs available : Nat}
    {coins : List OutputData} {w : Wallet}
    (h : (selectCoins amount currentHeight minimumConfirmations maxOutputs selectAll parentKeyId w).1 =
      .ok (available, coins)) :
    available = (eligibleOutputs w.db currentHeight minimumConfirmations parentKeyId).length ∧
      chosen amount maxOutputs selectAll
        (eligibleOutputs w.db currentHeight minimumConfirmations parentKeyId) = some coins := by
  rw [selectCoins_apply ha] at h
  rcases hchosen : chosen amount maxOutputs selectAll
    (eligibleOutputs w.db currentHeight minimumConfirmations parentKeyId) with _ | first
  · rw [hchosen] at h
    cases h
  · rw [hchosen] at h
    cases h
    exact ⟨rfl, rfl⟩

section
variable {eligible coins : List OutputData} {w : Wallet}
  (he : eligibleOutputs w.db currentHeight minimumConfirmations parentKeyId = eligible)

include he

theorem loopEnds_of_fits (h : Fits W amount (changeOutputs + 1) selectAll eligible coins) :
    LoopEnds W amount currentHeight minimumConfirmations changeOutputs selectAll parentKeyId
      eligible.length coins w := by
  refine ⟨eligible.length + 2, fun rounds hrounds => ?_⟩
  have hdearer : dearer W (changeOutputs + 1) eligible coins ≤ eligible.length := dearer_le coins
  have henough : dearer W (changeOutputs + 1) eligible coins + 1 < rounds := by omega
  obtain ⟨last, -, hrun⟩ := selectMore_of_fits he h henough
  unfold feeLoop
  unfold needed at hrun
  rw [hrun]
  dsimp only
  split_ifs
  · exact .inl ⟨_, rfl⟩
  · exact .inr ⟨_, _, _, _, rfl⟩

theorem not_loopEnds_of_not_fits (hneeded : needed W amount (changeOutputs + 1) coins < u64Size)
    (h : ¬Fits W amount (changeOutputs + 1) selectAll eligible coins) :
    ¬LoopEnds W amount currentHeight minimumConfirmations changeOutputs selectAll parentKeyId
      eligible.length coins w := by
  rintro ⟨rounds, hends⟩
  have hrun := selectMore_of_not_fits (w := w) he hneeded h rounds
  have hlast := hends rounds le_rfl
  unfold feeLoop at hlast
  unfold needed at hrun
  rw [hrun] at hlast
  exact not_answers_panic hlast

end

/-- The loop that is entered ends, exactly if it need not add up all eligible outputs or their sum fits into
64 bits. -/
theorem loopEnds_iff (hfee : ∀ i i' o, i ≤ i' → W.txFee i' o 1 ≤ W.txFee i o 1) (ha : amount < u64Size)
    {maxOutputs available : Nat} {coins : List OutputData} {w : Wallet}
    (hfirst : (selectCoins amount currentHeight minimumConfirmations maxOutputs selectAll parentKeyId w).1 =
      .ok (available, coins))
    (henter : amount + W.txFee coins.length (changeOutputs + 1) 1 < u64Size) :
    LoopEnds W amount currentHeight minimumConfirmations changeOutputs selectAll parentKeyId available coins
        w ↔
      (value coins < amount + W.txFee coins.length (changeOutputs + 1) 1 → coins.length ≠ available →
        value (eligibleOutputs w.db currentHeight minimumConfirmations parentKeyId) < u64Size) := by
  obtain ⟨rfl, hchosen⟩ := chosen_of_selectCoins ha hfirst
  have hfits := fits_iff hfee (ordered_eligibleOutputs ..) hchosen henter
  constructor
  · intro hends hshort hlength
    by_contra hvalue
    exact not_loopEnds_of_not_fits rfl henter (fun h => hvalue (hfits.1 h ⟨hshort, hlength⟩)) hends
  · intro h
    exact loopEnds_of_fits rfl (hfits.2 fun hretries => h hretries.1 hretries.2)

end

theorem small_txFee_antitone (i i' o : Nat) (h : i ≤ i') :
    World.small.txFee i' o 1 ≤ World.small.txFee i o 1 := by
  show max 1 (4 * o + 1 - i') ≤ max 1 (4 * o + 1 - i)
  omega

/-- The three coins of the purse are added up, and suffice. -/
theorem loopEnds_purse :
    LoopEnds World.small 10 10 1 1 false defaultPath 3 [coin 0 3, coin 1 9] (purse [3, 9, 20]) :=
  (loopEnds_iff small_txFee_antitone (by decide) (by decide : (selectCoins 10 10 1 500 false
    defaultPath (purse [3, 9, 20])).1 = .ok (3, [coin 0 3, coin 1 9])) (by decide)).2
      fun _ _ => by decide

/-- A slate that pays the amount. -/
def gift (n amount : Nat) : Slate := { World.emptySlate with id := ⟨n⟩, amount }

/-- A wallet that received 5 and twice 2 to the power of 63. -/
def gifted : Wallet :=
  (Foreign.receiveTx World.small none (gift 3 (2 ^ 63)) none none none
    (Foreign.receiveTx World.small none (gift 2 (2 ^ 63)) none none none
      (Foreign.receiveTx World.small none (gift 1 5) none none none (opened ⟨7⟩ 7)).2).2).2

/-- What the wallet received and may spend with no confirmation. -/
def gifts : List OutputData := eligibleOutputs gifted.db 10 0 defaultPath

theorem selectCoins_gifted :
    (selectCoins 5 10 0 1 false defaultPath gifted).1 = .ok (3, gifts.take 1) := by decide

/-- One output of 5 covers the payment and not its fee; adding up the others too overflows. -/
theorem not_loopEnds :
    ¬∀ (W : World) (amount currentHeight minimumConfirmations changeOutputs maxOutputs : Nat)
      (selectAll : Bool) (parentKeyId : Identifier) (w : Wallet) (available : Nat) (coins : List OutputData),
      (∀ i i' o, i ≤ i' → W.txFee i' o 1 ≤ W.txFee i o 1) → amount < u64Size →
      (selectCoins amount currentHeight minimumConfirmations maxOutputs selectAll parentKeyId w).1 =
        .ok (available, coins) →
      amount + W.txFee coins.length (changeOutputs + 1) 1 < u64Size →
      LoopEnds W amount currentHeight minimumConfirmations changeOutputs selectAll parentKeyId available coins
        w := by
  intro h
  have hends := h World.small 5 10 0 1 1 false defaultPath gifted 3 (gifts.take 1) small_txFee_antitone
    (by decide) selectCoins_gifted (by decide)
  have hneeded : needed World.small 5 2 (gifts.take 1) < u64Size := by decide
  have hretries : Retries World.small 5 2 gifts (gifts.take 1) := by decide
  have hvalue : ¬value gifts < u64Size := by decide
  have hlength : gifts.length = 3 := by decide
  rw [← hlength] at hends
  exact not_loopEnds_of_not_fits rfl hneeded (fun hfits => hvalue ((hfits _ .here).2 hretries)) hends

/-! ## The limit -/

/-- Where the first outputs suffice, no more are taken. -/
theorem length_takeWhileBelow_le {amount selected k : Nat} {l : List OutputData}
    (h : amount ≤ selected + value (l.take k)) : (takeWhileBelow amount selected l).length ≤ k := by
  induction l generalizing selected k with
  | nil => exact Nat.zero_le _
  | cons o l ih =>
    rw [takeWhileBelow]
    by_cases hs : selected < amount
    · rw [if_pos hs, List.length_cons]
      rcases k with _ | k
      · rw [List.take_zero, value_nil] at h
        omega
      · rw [List.take_succ_cons, value_cons, ← Nat.add_assoc] at h
        exact Nat.succ_le_succ (ih h)
    · rw [if_neg hs]
      exact Nat.zero_le _

section
variable (W : World) (amount changeOutputs maxOutputs : Nat) (eligible : List OutputData)

/-- So many of the outputs cover the amount and the fee with change. -/
def SomeCover : Prop :=
  ∃ s : List OutputData, s.Subperm eligible ∧ s.length ≤ maxOutputs ∧
    amount + W.txFee s.length (changeOutputs + 1) 1 ≤ value s

/-- More coins than the limit are returned only if no so many outputs would do. -/
def Limited (coins : List OutputData) : Prop :=
  maxOutputs < coins.length → ¬SomeCover W amount changeOutputs maxOutputs eligible

variable {W amount changeOutputs maxOutputs eligible}

/-- The largest outputs are worth the most. -/
theorem value_le_drop (hordered : Ordered.By (·.value) eligible) {s : List OutputData}
    (hs : s.Subperm eligible) (hlength : s.length ≤ maxOutputs) (hmany : maxOutputs ≤ eligible.length) :
    value s ≤ value (eligible.drop (eligible.length - maxOutputs)) := by
  obtain ⟨s', hperm, hsub⟩ := hs
  have hlargest := Ordered.sum_le_sum_drop hordered hsub (hperm.length_eq.trans_le hlength) hmany
  exact (value_perm hperm).symm.trans_le hlargest

/-- The largest outputs are the best. -/
theorem someCover_iff (hfee : ∀ i i' o, i ≤ i' → W.txFee i' o 1 ≤ W.txFee i o 1)
    (hordered : Ordered.By (·.value) eligible) (hmany : maxOutputs ≤ eligible.length) :
    SomeCover W amount changeOutputs maxOutputs eligible ↔
      amount + W.txFee maxOutputs (changeOutputs + 1) 1 ≤
        value (eligible.drop (eligible.length - maxOutputs)) := by
  constructor
  · rintro ⟨s, hsub, hlength, hcovers⟩
    have hlargest := value_le_drop hordered hsub hlength hmany
    have hless := hfee _ _ (changeOutputs + 1) hlength
    omega
  · intro hcovers
    have hlength : (eligible.drop (eligible.length - maxOutputs)).length = maxOutputs := by
      rw [List.length_drop]
      omega
    refine ⟨_, (List.drop_sublist _ _).subperm, hlength.le, ?_⟩
    rwa [hlength]

/-- The first set that suffices is a window, with those before it short, or all outputs, with the last window
short. -/
theorem covering_cases {c : List OutputData × Bool}
    (h : covering amount maxOutputs false eligible = some c) :
    (∃ i, c.1 = (eligible.drop i).take maxOutputs ∧
        ∀ j < i, value ((eligible.drop j).take maxOutputs) < amount) ∨
      c.1 = eligible ∧ maxOutputs < eligible.length ∧
        value (eligible.drop (eligible.length - maxOutputs)) < amount := by
  unfold covering candidates at h
  by_cases hmany : maxOutputs < eligible.length
  · rw [if_pos hmany, List.find?_append] at h
    rcases hwindow : ((windows maxOutputs eligible).map (·, false)).find?
      fun c => decide (amount ≤ value c.1) with _ | c'
    · right
      rw [hwindow, Option.none_or] at h
      have hshort := List.find?_eq_none.1 hwindow
      have hmem : (eligible.drop (eligible.length - maxOutputs), false) ∈
          (windows maxOutputs eligible).map (·, false) := by
        refine List.mem_map.2 ⟨_, List.mem_map.2 ⟨eligible.length - maxOutputs, ?_, rfl⟩, ?_⟩
        · rw [List.mem_range]
          omega
        · rw [List.take_of_length_le (by rw [List.length_drop]; omega)]
      rw [List.mem_singleton.1 (List.mem_of_find?_eq_some h)]
      exact ⟨rfl, hmany, by simpa using hshort _ hmem⟩
    · left
      rw [hwindow] at h
      cases h
      unfold windows at hwindow
      rw [List.map_map, List.find?_map] at hwindow
      obtain ⟨i, hi, rfl⟩ := Option.map_eq_some_iff.1 hwindow
      obtain ⟨-, -, hearlier⟩ := List.find?_range_eq_some.1 hi
      exact ⟨i, rfl, fun j hj => by simpa using hearlier j hj⟩
  · rw [if_neg hmany] at h
    rw [List.mem_singleton.1 (List.mem_of_find?_eq_some h)]
    exact .inl ⟨0, (List.take_of_length_le (Nat.not_lt.1 hmany)).symm, fun j hj => by omega⟩

/-- The first selection exceeds the limit only where the largest outputs fall short. -/
theorem chosen_length_le {first : List OutputData}
    (h : chosen amount maxOutputs false eligible = some first) :
    first.length ≤ maxOutputs ∨ value (eligible.drop (eligible.length - maxOutputs)) < amount := by
  rcases chosen_cases h with ⟨c, hc, -, rfl⟩ | ⟨-, rfl⟩
  · rcases covering_cases hc with ⟨i, hwindow, -⟩ | ⟨-, -, hshort⟩
    · left
      rw [hwindow]
      exact (pick_sublist _ _ _).length_le.trans (List.length_take_le _ _)
    · exact .inr hshort
  · exact .inl (List.length_take_le _ _)

/-- The first selection keeps to the limit. -/
theorem limited_chosen {first : List OutputData}
    (hfee : ∀ i i' o, i ≤ i' → W.txFee i' o 1 ≤ W.txFee i o 1)
    (hordered : Ordered.By (·.value) eligible)
    (h : chosen amount maxOutputs false eligible = some first) :
    Limited W amount changeOutputs maxOutputs eligible first := by
  intro hmore
  have hmany : maxOutputs < eligible.length :=
    Nat.lt_of_lt_of_le hmore (chosen_subperm h).length_le
  rw [someCover_iff hfee hordered hmany.le]
  rcases chosen_length_le h with hlength | hshort
  · omega
  · omega

/-- The second selection keeps to it if the smallest outputs do, or the largest do not. -/
theorem limited_reselect_iff {first : List OutputData}
    (hfee : ∀ i i' o, i ≤ i' → W.txFee i' o 1 ≤ W.txFee i o 1)
    (hordered : Ordered.By (·.value) eligible) (hmany : maxOutputs < eligible.length) :
    Limited W amount changeOutputs maxOutputs eligible
        (reselect W amount (changeOutputs + 1) false eligible first) ↔
      needed W amount (changeOutputs + 1) first ≤ value (eligible.take maxOutputs) ∨
        value (eligible.drop (eligible.length - maxOutputs)) <
          amount + W.txFee maxOutputs (changeOutputs + 1) 1 := by
  have hlength : maxOutputs < (reselect W amount (changeOutputs + 1) false eligible first).length ↔
      value (eligible.take maxOutputs) < needed W amount (changeOutputs + 1) first := by
    unfold reselect
    by_cases henough : needed W amount (changeOutputs + 1) first ≤ value eligible
    · rw [if_pos henough]
      constructor
      · intro hmore
        by_contra hless
        have hcovers : needed W amount (changeOutputs + 1) first ≤ 0 + value (eligible.take maxOutputs) := by
          omega
        exact Nat.not_lt.2 (length_takeWhileBelow_le hcovers) hmore
      · intro hless
        exact lt_length_takeWhileBelow hmany ((Nat.zero_add _).trans_lt hless)
    · rw [if_neg henough, List.length_reverse]
      have hsome := value_sublist (List.take_sublist maxOutputs eligible)
      exact ⟨fun _ => by omega, fun _ => hmany⟩
  unfold Limited
  rw [hlength, someCover_iff hfee hordered hmany.le, Nat.not_le, ← Nat.not_le]
  exact Decidable.imp_iff_not_or.trans (or_congr_left not_not)

end

section
variable {W : World} {amount currentHeight minimumConfirmations maxOutputs changeOutputs : Nat}
  {parentKeyId : Identifier} {w : Wallet}

/-- The selection pays its fee, without change or with it. -/
def PaysFee (W : World) (amount changeOutputs : Nat) (coins : List OutputData) : Prop :=
  value coins = amount + W.txFee coins.length 1 1 ∨
    amount + W.txFee coins.length (changeOutputs + 1) 1 ≤ value coins

/-- What is returned is the first selection if that pays its fee, else the second. -/
theorem selectCoinsAndFee_returned (hfee : ∀ i i' o, i ≤ i' → W.txFee i' o 1 ≤ W.txFee i o 1)
    (ha : amount < u64Size) {available : Nat} {first coins : List OutputData} {total amount' fee : Nat}
    (hfirst : (selectCoins amount currentHeight minimumConfirmations maxOutputs false parentKeyId w).1 =
      .ok (available, first))
    (h : (selectCoinsAndFee W amount currentHeight minimumConfirmations maxOutputs changeOutputs false
      parentKeyId w).1 = .ok (coins, total, amount', fee)) :
    PaysFee W amount changeOutputs first ∧ coins = first ∨
      ¬PaysFee W amount changeOutputs first ∧ coins = reselect W amount (changeOutputs + 1) false
        (eligibleOutputs w.db currentHeight minimumConfirmations parentKeyId) first := by
  obtain ⟨-, hchosen⟩ := chosen_of_selectCoins ha hfirst
  obtain ⟨first', hfirst', ⟨-, hr⟩ | ⟨-, -, hr⟩ | ⟨hexact, hr⟩ | ⟨hexact, last, hvisits, hlast⟩⟩ :=
    selectCoinsAndFee_cases rfl ha (Prod.ext h rfl) nofun
  · cases hr
  · cases hr
  · cases hchosen.symm.trans hfirst'
    cases hr
    exact .inl ⟨.inl hexact, rfl⟩
  · cases hchosen.symm.trans hfirst'
    obtain ⟨henough, hr⟩ | ⟨-, -, hr⟩ := hlast
    · cases hr
      cases hvisits with
      | here => exact .inl ⟨.inr henough, rfl⟩
      | next hretries hrest =>
        cases hrest with
        | here => exact .inr ⟨fun hpays => hpays.elim hexact (Nat.not_le.2 hretries.1), rfl⟩
        | next hagain _ => exact absurd hagain (not_retries_reselect hfee (ordered_eligibleOutputs ..) hchosen)
    · cases hr

/-- The limit is exceeded in need only, exactly if the first selection pays its fee, no more outputs are
eligible, the smallest so many cover the amount with its fee, or the largest so many do not cover the
amount with theirs. -/
theorem limited_iff (hfee : ∀ i i' o, i ≤ i' → W.txFee i' o 1 ≤ W.txFee i o 1)
    (ha : amount < u64Size) {available : Nat} {first coins : List OutputData} {total amount' fee : Nat}
    (hfirst : (selectCoins amount currentHeight minimumConfirmations maxOutputs false parentKeyId w).1 =
      .ok (available, first))
    (h : (selectCoinsAndFee W amount currentHeight minimumConfirmations maxOutputs changeOutputs false
      parentKeyId w).1 = .ok (coins, total, amount', fee)) :
    Limited W amount changeOutputs maxOutputs
        (eligibleOutputs w.db currentHeight minimumConfirmations parentKeyId) coins ↔
      PaysFee W amount changeOutputs first ∨ available ≤ maxOutputs ∨
        amount + W.txFee first.length (changeOutputs + 1) 1 ≤
          value ((eligibleOutputs w.db currentHeight minimumConfirmations parentKeyId).take maxOutputs) ∨
        value ((eligibleOutputs w.db currentHeight minimumConfirmations parentKeyId).drop
          (available - maxOutputs)) < amount + W.txFee maxOutputs (changeOutputs + 1) 1 := by
  obtain ⟨rfl, hchosen⟩ := chosen_of_selectCoins ha hfirst
  have hordered := ordered_eligibleOutputs w.db currentHeight minimumConfirmations parentKeyId
  rcases selectCoinsAndFee_returned hfee ha hfirst h with ⟨hpays, rfl⟩ | ⟨hnot, rfl⟩
  · exact ⟨fun _ => .inl hpays, fun _ => limited_chosen hfee hordered hchosen⟩
  · by_cases hmany : maxOutputs <
      (eligibleOutputs w.db currentHeight minimumConfirmations parentKeyId).length
    · rw [limited_reselect_iff hfee hordered hmany]
      exact ⟨fun hor => .inr (.inr hor), fun hor =>
        (hor.resolve_left hnot).resolve_left (Nat.not_le.2 hmany)⟩
    · exact ⟨fun _ => .inr (.inl (Nat.not_lt.1 hmany)), fun _ hmore =>
        absurd (hmore.trans_le (reselect_length first)) hmany⟩

end

/-- Three coins are spent under a limit of two: the two largest do not pay the fee too. -/
theorem limited_purse :
    Limited World.small 25 1 2 (eligibleOutputs (purse [3, 9, 20]).db 10 1 defaultPath)
      [coin 0 3, coin 1 9, coin 2 20] :=
  (limited_iff small_txFee_antitone (by decide)
    (by decide : (selectCoins 25 10 1 2 false defaultPath (purse [3, 9, 20])).1 =
      .ok (3, [coin 1 9, coin 2 20]))
    (by decide : (selectCoinsAndFee World.small 25 10 1 2 1 false defaultPath
      (purse [3, 9, 20])).1 = .ok ([coin 0 3, coin 1 9, coin 2 20], 32, 25, 6))).2
    (.inr (.inr (.inr (by decide))))

/-- The coin of 20 alone would do for a payment of 5, but both are spent. -/
theorem not_limited :
    ¬∀ (W : World) (amount currentHeight minimumConfirmations maxOutputs changeOutputs : Nat)
      (parentKeyId : Identifier) (w : Wallet) (coins : List OutputData) (total amount' fee : Nat),
      (∀ i i' o, i ≤ i' → W.txFee i' o 1 ≤ W.txFee i o 1) → amount < u64Size → 1 ≤ maxOutputs →
      (selectCoinsAndFee W amount currentHeight minimumConfirmations maxOutputs changeOutputs false
        parentKeyId w).1 = .ok (coins, total, amount', fee) →
      Limited W amount changeOutputs maxOutputs
        (eligibleOutputs w.db currentHeight minimumConfirmations parentKeyId) coins := by
  intro h
  have hlimited := h World.small 5 10 1 1 1 defaultPath (purse [5, 20]) [coin 0 5, coin 1 20] 25 5 7
    small_txFee_antitone (by decide) (by decide) (by decide)
  refine hlimited (by decide) ⟨[coin 1 20], ?_, by decide, by decide⟩
  have heligible : eligibleOutputs (purse [5, 20]).db 10 1 defaultPath = [coin 0 5, coin 1 20] := by
    decide
  rw [heligible]
  exact (List.sublist_cons_self _ _).subperm

end Selection

end EpicWallet
