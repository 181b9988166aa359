import Mathlib.Algebra.Order.BigOperators.Group.List
import Mathlib.Data.Finset.Card
import Mathlib.Data.Finset.Range
import EpicWallet.Libwallet.Owner

/-!
# Coin selection as a function

What `select_coins` and the loop of `select_coins_and_fee` compute, as functions of the eligible outputs
(`selectCoins_apply`, `selectMore_apply`). Each round of the loop that goes on asks for more than the one
before, since it chose coins with a higher fee; so the loop ends after as many rounds as there are eligible
outputs, and two (`selectMore_ends`).
-/

namespace EpicWallet

open Lib WalletBackend

namespace Selection

/-- The value of some coins. -/
def value (l : List OutputData) : Nat := (l.map (·.value)).sum

@[simp] theorem value_nil : value [] = 0 := rfl

@[simp] theorem value_cons (o : OutputData) (l : List OutputData) : value (o :: l) = o.value + value l := by
  simp [value]

theorem value_perm {l l' : List OutputData} (h : l.Perm l') : value l = value l' :=
  (h.map _).sum_eq

theorem value_sublist {l l' : List OutputData} (h : l.Sublist l') : value l ≤ value l' :=
  (h.map _).sum_le_sum fun _ _ => Nat.zero_le _

/-! ## Sums -/

theorem foldlM_addU64 (l : List Nat) (a : Nat) (w : Wallet) (ha : a < u64Size) :
    l.foldlM addU64 a w =
      if a + l.sum < u64Size then (.ok (a + l.sum), w) else (.error .panic, w) := by
  induction l generalizing a with
  | nil => simp [ha]
  | cons n l ih =>
    rw [List.foldlM_cons, List.sum_cons]
    by_cases hn : a + n < u64Size
    · have hadd : addU64 a n w = (.ok (a + n), w) := by
        unfold addU64
        rw [if_pos hn]
        rfl
      rw [Prog.bind_of_ok hadd, ih (a + n) hn, Nat.add_assoc]
    · have hadd : addU64 a n w = (.error .panic, w) := by
        unfold addU64
        rw [if_neg hn]
        rfl
      rw [Prog.bind_of_error hadd, if_neg (by omega)]

theorem sumU64_apply (l : List OutputData) (w : Wallet) :
    sumU64 (l.map (·.value)) w =
      if value l < u64Size then (.ok (value l), w) else (.error .panic, w) := by
  unfold sumU64
  rw [foldlM_addU64 _ 0 w (by decide), Nat.zero_add]
  rfl

theorem addU64_apply (a b : Nat) (w : Wallet) :
    addU64 a b w = if a + b < u64Size then (.ok (a + b), w) else (.error .panic, w) := by
  unfold addU64
  split_ifs
  · rfl
  · rfl

/-! ## The coins taken -/

theorem takeWhileBelow_isPrefixOf (amount selected : Nat) (l : List OutputData) :
    takeWhileBelow amount selected l <+: l := by
  induction l generalizing selected with
  | nil => exact List.prefix_refl _
  | cons o l ih =>
    rw [takeWhileBelow]
    by_cases h : selected < amount
    · rw [if_pos h]
      exact (List.prefix_cons_inj o).2 (ih _)
    · rw [if_neg h]
      exact List.nil_prefix

theorem takeWhileBelow_covers {amount selected : Nat} {l : List OutputData}
    (h : amount ≤ selected + value l) : amount ≤ selected + value (takeWhileBelow amount selected l) := by
  induction l generalizing selected with
  | nil => exact h
  | cons o l ih =>
    rw [takeWhileBelow]
    by_cases hs : selected < amount
    · rw [if_pos hs, value_cons, ← Nat.add_assoc]
      rw [value_cons, ← Nat.add_assoc] at h
      exact ih h
    · rw [if_neg hs]
      omega

/-- What `select_from` takes of outputs that suffice. -/
def pick (amount : Nat) (selectAll : Bool) (outputs : List OutputData) : List OutputData :=
  if selectAll then outputs else takeWhileBelow amount 0 outputs

theorem pick_sublist (amount : Nat) (selectAll : Bool) (l : List OutputData) :
    (pick amount selectAll l).Sublist l := by
  unfold pick
  split_ifs
  · exact List.Sublist.refl l
  · exact (takeWhileBelow_isPrefixOf amount 0 l).sublist

theorem pick_covers {amount : Nat} {selectAll : Bool} {l : List OutputData} (h : amount ≤ value l) :
    amount ≤ value (pick amount selectAll l) := by
  unfold pick
  split_ifs
  · exact h
  · have hcovers : amount ≤ 0 + value (takeWhileBelow amount 0 l) :=
      takeWhileBelow_covers (h.trans_eq (Nat.zero_add _).symm)
    rwa [Nat.zero_add] at hcovers

theorem selectFrom_apply (amount : Nat) (selectAll : Bool) (l : List OutputData) (w : Wallet) :
    selectFrom amount selectAll l w =
      if value l < u64Size then
        (.ok (if amount ≤ value l then some (pick amount selectAll l) else none), w)
      else (.error .panic, w) := by
  unfold selectFrom
  by_cases h : value l < u64Size
  · have hsum : sumU64 (l.map (·.value)) w = (.ok (value l), w) := by rw [sumU64_apply, if_pos h]
    rw [Prog.bind_of_ok hsum, if_pos h]
    rfl
  · have hsum : sumU64 (l.map (·.value)) w = (.error .panic, w) := by rw [sumU64_apply, if_neg h]
    rw [Prog.bind_of_error hsum, if_neg h]

/-! ## `select_coins` -/

/-- The sets of outputs that are tried, each with whether all of it is taken. -/
def candidates (maxOutputs : Nat) (selectAll : Bool) (eligible : List OutputData) :
    List (List OutputData × Bool) :=
  if eligible.length > maxOutputs then
    (windows maxOutputs eligible).map (·, selectAll) ++ [(eligible, false)]
  else [(eligible, selectAll)]

/-- The first set that suffices. -/
def covering (amount maxOutputs : Nat) (selectAll : Bool) (eligible : List OutputData) :
    Option (List OutputData × Bool) :=
  (candidates maxOutputs selectAll eligible).find? fun c => amount ≤ value c.1

/-- What is taken of a set that suffices; `none` is an overflow. -/
def taken (amount : Nat) (c : List OutputData × Bool) : Option (List OutputData) :=
  if value c.1 < u64Size then some (pick amount c.2 c.1) else none

/-- The coins `select_coins` returns; `none` is a panic. -/
def chosen (amount maxOutputs : Nat) (selectAll : Bool) (eligible : List OutputData) :
    Option (List OutputData) :=
  if maxOutputs = 0 ∧ eligible ≠ [] then none
  else (covering amount maxOutputs selectAll eligible).elim (some (eligible.reverse.take maxOutputs))
    (taken amount)

/-- A panic, for `none`. -/
def orFault {α : Type} (o : Option α) (w : Wallet) : Except (Fault Error) α × Wallet :=
  (o.elim (.error .panic) .ok, w)

theorem selectFrom_of_covers {amount : Nat} {selectAll : Bool} {l : List OutputData}
    (h : amount ≤ value l) (w : Wallet) :
    selectFrom amount selectAll l w = orFault ((taken amount (l, selectAll)).map some) w := by
  rw [selectFrom_apply]
  unfold taken orFault
  dsimp only
  by_cases hv : value l < u64Size
  · rw [if_pos hv, if_pos hv, if_pos h]
    rfl
  · rw [if_neg hv, if_neg hv]
    rfl

theorem selectFrom_of_short {amount : Nat} (ha : amount < u64Size) {selectAll : Bool}
    {l : List OutputData} (h : ¬amount ≤ value l) (w : Wallet) :
    selectFrom amount selectAll l w = (.ok none, w) := by
  rw [selectFrom_apply, if_pos (by omega), if_neg h]

theorem orFault_bind {α β : Type} {p : WalletM α} {f : α → WalletM β} {o : Option α} {w : Wallet}
    (h : p w = orFault o w) : (p >>= f) w = o.elim (.error .panic, w) fun a => f a w := by
  rcases o with _ | a
  · exact Prog.bind_of_error h
  · exact Prog.bind_of_ok h

section
variable {amount : Nat} (ha : amount < u64Size) (selectAll : Bool)

include ha

theorem selectFromWindows_apply (l : List (List OutputData)) (w : Wallet) :
    selectFromWindows amount selectAll l w =
      orFault ((l.find? fun c => amount ≤ value c).elim (some none) fun c =>
        (taken amount (c, selectAll)).map some) w := by
  induction l with
  | nil => rfl
  | cons c l ih =>
    unfold selectFromWindows
    by_cases hc : amount ≤ value c
    · rw [List.find?_cons_of_pos (by simpa using hc), orFault_bind (selectFrom_of_covers hc w)]
      dsimp only [Option.elim]
      rcases taken amount (c, selectAll) with _ | coins
      · rfl
      · rfl
    · rw [List.find?_cons_of_neg (by simpa using hc), Prog.bind_of_ok (selectFrom_of_short ha hc w)]
      exact ih

theorem selectEnough_apply (maxOutputs : Nat) (eligible : List OutputData) (w : Wallet) :
    selectEnough amount maxOutputs selectAll eligible w =
      orFault (if maxOutputs = 0 ∧ eligible ≠ [] then none
        else (covering amount maxOutputs selectAll eligible).elim (some none) fun c =>
          (taken amount c).map some) w := by
  have hlast (b : Bool) : selectFrom amount b eligible w =
      orFault (([(eligible, b)].find? fun c => amount ≤ value c.1).elim (some none) fun c =>
        (taken amount c).map some) w := by
    by_cases hc : amount ≤ value eligible
    · rw [List.find?_cons_of_pos (by simpa using hc), selectFrom_of_covers hc]
      rfl
    · rw [List.find?_cons_of_neg (by simpa using hc), selectFrom_of_short ha hc]
      rfl
  unfold selectEnough covering candidates
  by_cases hmany : eligible.length > maxOutputs
  · rw [if_pos hmany, if_pos hmany]
    have hne : eligible ≠ [] := List.length_pos_iff.1 (Nat.zero_lt_of_lt hmany)
    by_cases hzero : maxOutputs = 0
    · rw [if_pos hzero, if_pos ⟨hzero, hne⟩]
      rfl
    · rw [if_neg hzero, if_neg fun h => hzero h.1, List.find?_append, List.find?_map]
      have hwindows := selectFromWindows_apply ha selectAll (windows maxOutputs eligible) w
      rw [orFault_bind hwindows]
      rcases hfind : (windows maxOutputs eligible).find? fun c => amount ≤ value c with _ | c
      · have hnone : (windows maxOutputs eligible).find?
            ((fun c => decide (amount ≤ value c.1)) ∘ (·, selectAll)) = none := hfind
        rw [hnone]
        exact hlast false
      · have hsome : (windows maxOutputs eligible).find?
            ((fun c => decide (amount ≤ value c.1)) ∘ (·, selectAll)) = some c := hfind
        rw [hsome]
        dsimp only [Option.elim, Option.map, Option.or]
        rcases taken amount (c, selectAll) with _ | coins
        · rfl
        · rfl
  · rw [if_neg hmany, if_neg hmany, hlast selectAll]
    have hnot : ¬(maxOutputs = 0 ∧ eligible ≠ []) := by
      rintro ⟨rfl, hne⟩
      exact hmany (List.length_pos_iff.2 hne)
    rw [if_neg hnot]

theorem selectCoins_apply (currentHeight minimumConfirmations maxOutputs : Nat) (parentKeyId : Identifier)
    (w : Wallet) :
    selectCoins amount currentHeight minimumConfirmations maxOutputs selectAll parentKeyId w =
      orFault ((chosen amount maxOutputs selectAll
          (eligibleOutputs w.db currentHeight minimumConfirmations parentKeyId)).map fun coins =>
        ((eligibleOutputs w.db currentHeight minimumConfirmations parentKeyId).length, coins)) w := by
  unfold selectCoins chosen
  rw [Prog.bind_of_ok (rows_apply w), orFault_bind (selectEnough_apply ha selectAll maxOutputs _ w)]
  split_ifs
  · rfl
  · rcases covering amount maxOutputs selectAll
      (eligibleOutputs w.db currentHeight minimumConfirmations parentKeyId) with _ | c
    · rfl
    · dsimp only [Option.elim]
      rcases taken amount c with _ | coins
      · rfl
      · rfl

end

/-- All eligible outputs are the last set that is tried. -/
theorem value_lt_of_not_covering {amount maxOutputs : Nat} {selectAll : Bool} {eligible : List OutputData}
    (h : covering amount maxOutputs selectAll eligible = none) :
    ∀ c ∈ candidates maxOutputs selectAll eligible, value c.1 < amount := by
  intro c hc
  have := List.find?_eq_none.1 h c hc
  simpa using this

theorem eligible_mem_candidates (maxOutputs : Nat) (selectAll : Bool) (eligible : List OutputData) :
    ∃ b, (eligible, b) ∈ candidates maxOutputs selectAll eligible := by
  unfold candidates
  split_ifs
  · exact ⟨false, List.mem_append_right _ (List.mem_singleton.2 rfl)⟩
  · exact ⟨selectAll, List.mem_singleton.2 rfl⟩

theorem candidates_sublist {maxOutputs : Nat} {selectAll : Bool} {eligible : List OutputData}
    {c : List OutputData × Bool} (h : c ∈ candidates maxOutputs selectAll eligible) :
    c.1.Sublist eligible := by
  unfold candidates windows at h
  split_ifs at h
  · rcases List.mem_append.1 h with hwindow | hlast
    · obtain ⟨l, hl, rfl⟩ := List.mem_map.1 hwindow
      obtain ⟨i, -, rfl⟩ := List.mem_map.1 hl
      exact (List.take_sublist _ _).trans (List.drop_sublist _ _)
    · rw [List.mem_singleton.1 hlast]
  · rw [List.mem_singleton.1 h]

section
variable {amount maxOutputs : Nat} {selectAll : Bool} {eligible coins : List OutputData}

/-- The coins chosen are taken from a set that suffices, or are the largest where none does. -/
theorem chosen_cases (h : chosen amount maxOutputs selectAll eligible = some coins) :
    (∃ c, covering amount maxOutputs selectAll eligible = some c ∧ value c.1 < u64Size ∧
        coins = pick amount c.2 c.1) ∨
      covering amount maxOutputs selectAll eligible = none ∧ coins = eligible.reverse.take maxOutputs := by
  unfold chosen at h
  split_ifs at h
  rcases hcovering : covering amount maxOutputs selectAll eligible with _ | c
  · rw [hcovering] at h
    exact .inr ⟨rfl, (Option.some.inj h).symm⟩
  · rw [hcovering] at h
    change taken amount c = some coins at h
    unfold taken at h
    split_ifs at h with hvalue
    exact .inl ⟨c, rfl, hvalue, (Option.some.inj h).symm⟩

theorem chosen_subperm (h : chosen amount maxOutputs selectAll eligible = some coins) :
    coins.Subperm eligible := by
  rcases chosen_cases h with ⟨c, hc, -, rfl⟩ | ⟨-, rfl⟩
  · have hmem := List.mem_of_find?_eq_some hc
    exact ((pick_sublist _ _ _).trans (candidates_sublist hmem)).subperm
  · exact (List.take_sublist _ _).subperm.trans (List.reverse_perm eligible).subperm

theorem value_subperm {l l' : List OutputData} (h : l.Subperm l') : value l ≤ value l' := by
  obtain ⟨l'', hperm, hsub⟩ := h
  exact (value_perm hperm).symm.le.trans (value_sublist hsub)

theorem chosen_value_lt (ha : amount < u64Size)
    (h : chosen amount maxOutputs selectAll eligible = some coins) : value coins < u64Size := by
  rcases chosen_cases h with ⟨c, -, hvalue, rfl⟩ | ⟨hnone, -⟩
  · exact Nat.lt_of_le_of_lt (value_sublist (pick_sublist _ _ _)) hvalue
  · obtain ⟨b, hmem⟩ := eligible_mem_candidates maxOutputs selectAll eligible
    have hless := value_lt_of_not_covering hnone _ hmem
    have hle := value_subperm (chosen_subperm h)
    dsimp only at hless
    omega

/-- Where no set suffices, the coins chosen do not either. -/
theorem value_chosen_lt (h : chosen amount maxOutputs selectAll eligible = some coins)
    (hless : value coins < amount) : value eligible < amount := by
  rcases chosen_cases h with ⟨c, hc, -, rfl⟩ | ⟨hnone, -⟩
  · have hcovers : amount ≤ value c.1 := by simpa using List.find?_some hc
    exact absurd (pick_covers hcovers) (Nat.not_le.2 hless)
  · obtain ⟨b, hmem⟩ := eligible_mem_candidates maxOutputs selectAll eligible
    exact value_lt_of_not_covering hnone _ hmem

end

/-! ## The loop -/

section
variable (W : World) (amount numOutputs : Nat) (selectAll : Bool) (eligible : List OutputData)

/-- The amount with the fee of spending these coins. -/
def needed (coins : List OutputData) : Nat := amount + W.txFee coins.length numOutputs 1

/-- The coins the next round chooses, where sums do not overflow. -/
def reselect (coins : List OutputData) : List OutputData :=
  if needed W amount numOutputs coins ≤ value eligible then
    pick (needed W amount numOutputs coins) selectAll eligible
  else eligible.reverse

/-- The loop goes on with these coins. -/
def Retries (coins : List OutputData) : Prop :=
  value coins < needed W amount numOutputs coins ∧ coins.length ≠ eligible.length

instance (coins : List OutputData) : Decidable (Retries W amount numOutputs eligible coins) :=
  inferInstanceAs (Decidable (_ ∧ _))

/-- The coins after at most so many rounds. -/
def settle : Nat → List OutputData → List OutputData
  | 0, coins => coins
  | rounds + 1, coins =>
    if Retries W amount numOutputs eligible coins then
      settle rounds (reselect W amount numOutputs selectAll eligible coins)
    else coins

/-- The selections the loop goes through, where sums do not overflow. -/
inductive Visits : List OutputData → List OutputData → Prop
  | here {coins} : Visits coins coins
  | next {coins coins'} (retries : Retries W amount numOutputs eligible coins)
      (rest : Visits (reselect W amount numOutputs selectAll eligible coins) coins') : Visits coins coins'

/-- What the loop adds up from these coins on fits into 64 bits. -/
def Fits (coins : List OutputData) : Prop :=
  ∀ coins', Visits W amount numOutputs selectAll eligible coins coins' →
    needed W amount numOutputs coins' < u64Size ∧
      (Retries W amount numOutputs eligible coins' → value eligible < u64Size)

variable {W amount numOutputs selectAll eligible}

theorem fits_of_ends {coins : List OutputData} (h : ¬Retries W amount numOutputs eligible coins) :
    Fits W amount numOutputs selectAll eligible coins ↔ needed W amount numOutputs coins < u64Size := by
  constructor
  · intro hfits
    exact (hfits coins .here).1
  · intro hneeded coins' hvisits
    cases hvisits with
    | here => exact ⟨hneeded, fun hr => absurd hr h⟩
    | next retries rest => exact absurd retries h

theorem fits_of_retries {coins : List OutputData} (h : Retries W amount numOutputs eligible coins) :
    Fits W amount numOutputs selectAll eligible coins ↔
      needed W amount numOutputs coins < u64Size ∧ value eligible < u64Size ∧
        Fits W amount numOutputs selectAll eligible
          (reselect W amount numOutputs selectAll eligible coins) := by
  constructor
  · intro hfits
    exact ⟨(hfits coins .here).1, (hfits coins .here).2 h, fun coins' hv => hfits coins' (.next h hv)⟩
  · rintro ⟨hneeded, hvalue, hrest⟩ coins' hvisits
    cases hvisits with
    | here => exact ⟨hneeded, fun _ => hvalue⟩
    | next retries rest => exact hrest coins' rest

/-! ## The loop ends -/

/-- A selection that does not end the loop has a higher fee than the one before. -/
theorem fee_lt_of_retries {coins : List OutputData} (h : Retries W amount numOutputs eligible
    (reselect W amount numOutputs selectAll eligible coins)) :
    W.txFee coins.length numOutputs 1 <
      W.txFee (reselect W amount numOutputs selectAll eligible coins).length numOutputs 1 := by
  unfold reselect at h ⊢
  by_cases henough : needed W amount numOutputs coins ≤ value eligible
  · rw [if_pos henough] at h ⊢
    have hcovers : amount + W.txFee coins.length numOutputs 1 ≤
        value (pick (needed W amount numOutputs coins) selectAll eligible) := pick_covers henough
    have hless : value (pick (needed W amount numOutputs coins) selectAll eligible) < amount +
        W.txFee (pick (needed W amount numOutputs coins) selectAll eligible).length numOutputs 1 := h.1
    omega
  · rw [if_neg henough] at h
    exact absurd (List.length_reverse ..) h.2

theorem reselect_length (coins : List OutputData) :
    (reselect W amount numOutputs selectAll eligible coins).length ≤ eligible.length := by
  unfold reselect
  split_ifs
  · exact (pick_sublist _ _ _).length_le
  · rw [List.length_reverse]

/-- The numbers of coins whose fee is higher. -/
def dearer (W : World) (numOutputs : Nat) (eligible coins : List OutputData) : Nat :=
  ((Finset.range eligible.length).filter fun n =>
    W.txFee coins.length numOutputs 1 < W.txFee n numOutputs 1).card

theorem dearer_le (coins : List OutputData) : dearer W numOutputs eligible coins ≤ eligible.length :=
  (Finset.card_filter_le _ _).trans_eq (Finset.card_range _)

theorem dearer_lt_of_retries {coins : List OutputData} (h : Retries W amount numOutputs eligible
    (reselect W amount numOutputs selectAll eligible coins)) :
    dearer W numOutputs eligible (reselect W amount numOutputs selectAll eligible coins) <
      dearer W numOutputs eligible coins := by
  have hfee := fee_lt_of_retries h
  have hlength : (reselect W amount numOutputs selectAll eligible coins).length < eligible.length :=
    Nat.lt_of_le_of_ne (reselect_length coins) h.2
  refine Finset.card_lt_card ((Finset.ssubset_iff_of_subset fun n hn => ?_).2
    ⟨(reselect W amount numOutputs selectAll eligible coins).length, ?_, ?_⟩)
  · obtain ⟨hmem, hn⟩ := Finset.mem_filter.1 hn
    exact Finset.mem_filter.2 ⟨hmem, hfee.trans hn⟩
  · exact Finset.mem_filter.2 ⟨Finset.mem_range.2 hlength, hfee⟩
  · intro hmem
    exact Nat.lt_irrefl _ (Finset.mem_filter.1 hmem).2

theorem settle_of_ends {coins : List OutputData} (h : ¬Retries W amount numOutputs eligible coins)
    (rounds : Nat) : settle W amount numOutputs selectAll eligible rounds coins = coins := by
  cases rounds with
  | zero => rfl
  | succ rounds =>
    rw [settle]
    exact if_neg h

/-- With enough rounds the loop ends. -/
theorem settle_ends {rounds : Nat} {coins : List OutputData}
    (h : dearer W numOutputs eligible coins < rounds) :
    ¬Retries W amount numOutputs eligible
      (settle W amount numOutputs selectAll eligible rounds coins) := by
  induction rounds generalizing coins with
  | zero => cases h
  | succ rounds ih =>
    rw [settle]
    by_cases hretries : Retries W amount numOutputs eligible coins
    · rw [if_pos hretries]
      by_cases hnext : Retries W amount numOutputs eligible
        (reselect W amount numOutputs selectAll eligible coins)
      · exact ih (Nat.lt_of_lt_of_le (dearer_lt_of_retries hnext) (Nat.le_of_lt_succ h))
      · rw [settle_of_ends hnext]
        exact hnext
    · rw [if_neg hretries]
      exact hretries

theorem value_reselect_le (coins : List OutputData) :
    value (reselect W amount numOutputs selectAll eligible coins) ≤ value eligible := by
  unfold reselect
  split_ifs
  · exact value_sublist (pick_sublist _ _ _)
  · exact (value_perm (List.reverse_perm eligible)).le

/-- With no limit all eligible outputs are the one set that is tried. -/
theorem chosen_unlimited {target : Nat} (h : target < u64Size) :
    chosen target eligible.length selectAll eligible =
      if value eligible < u64Size then
        some (if target ≤ value eligible then pick target selectAll eligible else eligible.reverse)
      else none := by
  have hnonempty : ¬(eligible.length = 0 ∧ eligible ≠ []) := fun hcon =>
    hcon.2 (List.length_eq_zero_iff.1 hcon.1)
  unfold chosen covering candidates
  rw [if_neg hnonempty, if_neg (Nat.lt_irrefl _)]
  by_cases henough : target ≤ value eligible
  · rw [List.find?_cons_of_pos (by simpa using henough)]
    show taken target (eligible, selectAll) = _
    unfold taken
    rw [if_pos henough]
  · rw [List.find?_cons_of_neg (by simpa using henough), if_pos (by omega), if_neg henough]
    show some (eligible.reverse.take eligible.length) = _
    rw [List.take_of_length_le (List.length_reverse ..).le]

end

section
variable {W : World} {amount numOutputs currentHeight minimumConfirmations : Nat} {selectAll : Bool}
  {parentKeyId : Identifier} {w : Wallet} {eligible : List OutputData}
  (he : eligibleOutputs w.db currentHeight minimumConfirmations parentKeyId = eligible)

include he

/-- A round that goes on. -/
theorem selectMore_of_retries {coins : List OutputData} (h : Retries W amount numOutputs eligible coins)
    (hneeded : needed W amount numOutputs coins < u64Size) (rounds : Nat) :
    selectMore W amount currentHeight minimumConfirmations eligible.length numOutputs selectAll parentKeyId
        (rounds + 1) coins (value coins) (needed W amount numOutputs coins)
        (W.txFee coins.length numOutputs 1) w =
      if value eligible < u64Size ∧
          needed W amount numOutputs (reselect W amount numOutputs selectAll eligible coins) < u64Size then
        selectMore W amount currentHeight minimumConfirmations eligible.length numOutputs selectAll
          parentKeyId rounds (reselect W amount numOutputs selectAll eligible coins)
          (value (reselect W amount numOutputs selectAll eligible coins))
          (needed W amount numOutputs (reselect W amount numOutputs selectAll eligible coins))
          (W.txFee (reselect W amount numOutputs selectAll eligible coins).length numOutputs 1) w
      else (.error .panic, w) := by
  have hcoins := selectCoins_apply hneeded selectAll currentHeight minimumConfirmations eligible.length
    parentKeyId w
  rw [he, chosen_unlimited hneeded] at hcoins
  conv_lhs => unfold selectMore
  rw [if_pos h.1]
  dsimp only
  rw [if_neg h.2, orFault_bind hcoins]
  by_cases hvalue : value eligible < u64Size
  · rw [if_pos hvalue]
    show (sumU64 ((reselect W amount numOutputs selectAll eligible coins).map (·.value)) >>= fun total =>
      addU64 amount (W.txFee (reselect W amount numOutputs selectAll eligible coins).length numOutputs 1) >>=
        fun amountWithFee => selectMore W amount currentHeight minimumConfirmations eligible.length numOutputs
          selectAll parentKeyId rounds (reselect W amount numOutputs selectAll eligible coins) total
          amountWithFee
          (W.txFee (reselect W amount numOutputs selectAll eligible coins).length numOutputs 1)) w = _
    have hsum : sumU64 ((reselect W amount numOutputs selectAll eligible coins).map (·.value)) w =
        (.ok (value (reselect W amount numOutputs selectAll eligible coins)), w) := by
      rw [sumU64_apply, if_pos (Nat.lt_of_le_of_lt (value_reselect_le coins) hvalue)]
    rw [Prog.bind_of_ok hsum]
    by_cases hnext : needed W amount numOutputs (reselect W amount numOutputs selectAll eligible coins) <
      u64Size
    · have hadd : addU64 amount (W.txFee (reselect W amount numOutputs selectAll eligible coins).length
          numOutputs 1) w = (.ok (needed W amount numOutputs
            (reselect W amount numOutputs selectAll eligible coins)), w) := by
        rw [addU64_apply]
        exact if_pos hnext
      rw [Prog.bind_of_ok hadd, if_pos ⟨hvalue, hnext⟩]
    · have hadd : addU64 amount (W.txFee (reselect W amount numOutputs selectAll eligible coins).length
          numOutputs 1) w = (.error .panic, w) := by
        rw [addU64_apply]
        exact if_neg hnext
      rw [Prog.bind_of_error hadd, if_neg fun hboth => hnext hboth.2]
  · rw [if_neg hvalue, if_neg fun hboth => hvalue hboth.1]
    rfl

omit he in
/-- A round that ends the loop. -/
theorem selectMore_of_ends {coins : List OutputData} (h : ¬Retries W amount numOutputs eligible coins)
    (rounds : Nat) :
    selectMore W amount currentHeight minimumConfirmations eligible.length numOutputs selectAll parentKeyId
        (rounds + 1) coins (value coins) (needed W amount numOutputs coins)
        (W.txFee coins.length numOutputs 1) w =
      (if needed W amount numOutputs coins ≤ value coins then
          .ok (coins, value coins, W.txFee coins.length numOutputs 1)
        else .error (.err (notEnoughFunds W (value coins) (needed W amount numOutputs coins))), w) := by
  unfold selectMore
  by_cases hshort : value coins < needed W amount numOutputs coins
  · have hall : coins.length = eligible.length := by
      by_contra hne
      exact h ⟨hshort, hne⟩
    rw [if_pos hshort, if_neg (Nat.not_le.2 hshort)]
    dsimp only
    rw [if_pos hall]
    rfl
  · rw [if_neg hshort, if_pos (Nat.not_lt.1 hshort)]
    rfl

/-- What the loop returns, if it does. -/
theorem selectMore_visits {coins : List OutputData} (hneeded : needed W amount numOutputs coins < u64Size)
    {rounds : Nat} {r : Except (Fault Error) (List OutputData × Nat × Nat)} {w' : Wallet}
    (h : selectMore W amount currentHeight minimumConfirmations eligible.length numOutputs selectAll
      parentKeyId rounds coins (value coins) (needed W amount numOutputs coins)
      (W.txFee coins.length numOutputs 1) w = (r, w')) (hr : r ≠ .error .panic) :
    ∃ last, Visits W amount numOutputs selectAll eligible coins last ∧
      (needed W amount numOutputs last ≤ value last ∧
          r = .ok (last, value last, W.txFee last.length numOutputs 1) ∨
        value last < needed W amount numOutputs last ∧ last.length = eligible.length ∧
          r = .error (.err (notEnoughFunds W (value last) (needed W amount numOutputs last)))) := by
  induction rounds generalizing coins with
  | zero =>
    unfold selectMore at h
    by_cases hshort : value coins < needed W amount numOutputs coins
    · rw [if_pos hshort] at h
      exact absurd (Prod.mk.inj h).1.symm hr
    · rw [if_neg hshort] at h
      exact ⟨coins, .here, .inl ⟨Nat.not_lt.1 hshort, (Prod.mk.inj h).1.symm⟩⟩
  | succ rounds ih =>
    by_cases hretries : Retries W amount numOutputs eligible coins
    · rw [selectMore_of_retries he hretries hneeded] at h
      by_cases hboth : value eligible < u64Size ∧
        needed W amount numOutputs (reselect W amount numOutputs selectAll eligible coins) < u64Size
      · rw [if_pos hboth] at h
        obtain ⟨last, hvisits, hlast⟩ := ih hboth.2 h
        exact ⟨last, .next hretries hvisits, hlast⟩
      · rw [if_neg hboth] at h
        exact absurd (Prod.mk.inj h).1.symm hr
    · rw [selectMore_of_ends hretries] at h
      by_cases henough : needed W amount numOutputs coins ≤ value coins
      · rw [if_pos henough] at h
        exact ⟨coins, .here, .inl ⟨henough, (Prod.mk.inj h).1.symm⟩⟩
      · rw [if_neg henough] at h
        have hall : coins.length = eligible.length := by
          by_contra hne
          exact hretries ⟨Nat.not_le.1 henough, hne⟩
        exact ⟨coins, .here, .inr ⟨Nat.not_le.1 henough, hall, (Prod.mk.inj h).1.symm⟩⟩

/-- What the loop returns with enough rounds, where nothing overflows. -/
theorem selectMore_of_fits {coins : List OutputData}
    (hfits : Fits W amount numOutputs selectAll eligible coins) {rounds : Nat} (hrounds : dearer W numOutputs eligible coins + 1 < rounds) :
    ∃ last, last = settle W amount numOutputs selectAll eligible rounds coins ∧
      selectMore W amount currentHeight minimumConfirmations eligible.length numOutputs selectAll parentKeyId
          rounds coins (value coins) (needed W amount numOutputs coins)
          (W.txFee coins.length numOutputs 1) w =
        (if needed W amount numOutputs last ≤ value last then
            .ok (last, value last, W.txFee last.length numOutputs 1)
          else .error (.err (notEnoughFunds W (value last) (needed W amount numOutputs last))), w) := by
  refine ⟨_, rfl, ?_⟩
  induction rounds generalizing coins with
  | zero => cases hrounds
  | succ rounds ih =>
    by_cases hretries : Retries W amount numOutputs eligible coins
    · obtain ⟨hneeded, hvalue, hrest⟩ := (fits_of_retries hretries).1 hfits
      rw [selectMore_of_retries he hretries hneeded, if_pos ⟨hvalue, (hrest _ .here).1⟩, settle,
        if_pos hretries]
      by_cases hnext : Retries W amount numOutputs eligible
        (reselect W amount numOutputs selectAll eligible coins)
      · have hless := dearer_lt_of_retries hnext
        exact ih hrest (by omega)
      · obtain ⟨r, rfl⟩ : ∃ r, rounds = r + 1 := ⟨rounds - 1, by omega⟩
        rw [settle_of_ends hnext]
        exact selectMore_of_ends hnext r
    · rw [settle_of_ends hretries]
      exact selectMore_of_ends hretries rounds

/-- Where something overflows, the loop panics. -/
theorem selectMore_of_not_fits {coins : List OutputData}
    (hneeded : needed W amount numOutputs coins < u64Size)
    (hfits : ¬Fits W amount numOutputs selectAll eligible coins) (rounds : Nat) :
    selectMore W amount currentHeight minimumConfirmations eligible.length numOutputs selectAll parentKeyId
        rounds coins (value coins) (needed W amount numOutputs coins)
        (W.txFee coins.length numOutputs 1) w = (.error .panic, w) := by
  have hretries : Retries W amount numOutputs eligible coins := by
    by_contra hends
    exact hfits ((fits_of_ends hends).2 hneeded)
  induction rounds generalizing coins with
  | zero =>
    unfold selectMore
    rw [if_pos hretries.1]
    rfl
  | succ rounds ih =>
    rw [selectMore_of_retries he hretries hneeded]
    by_cases hboth : value eligible < u64Size ∧
      needed W amount numOutputs (reselect W amount numOutputs selectAll eligible coins) < u64Size
    · rw [if_pos hboth]
      have hrest : ¬Fits W amount numOutputs selectAll eligible
          (reselect W amount numOutputs selectAll eligible coins) := fun hrest =>
        hfits ((fits_of_retries hretries).2 ⟨hneeded, hboth.1, hrest⟩)
      refine ih hboth.2 hrest ?_
      by_contra hends
      exact hrest ((fits_of_ends hends).2 hboth.2)
    · rw [if_neg hboth]

end

/-! ## `select_coins_and_fee` -/

section
variable {W : World} {amount currentHeight minimumConfirmations maxOutputs changeOutputs : Nat}
  {selectAll : Bool} {parentKeyId : Identifier} {w : Wallet} {eligible : List OutputData}
  (he : eligibleOutputs w.db currentHeight minimumConfirmations parentKeyId = eligible)
  (ha : amount < u64Size)

include he ha

theorem selectCoinsAndFee_of_panic (h : chosen amount maxOutputs selectAll eligible = none) :
    selectCoinsAndFee W amount currentHeight minimumConfirmations maxOutputs changeOutputs selectAll
      parentKeyId w = (.error .panic, w) := by
  have hcoins := selectCoins_apply ha selectAll currentHeight minimumConfirmations maxOutputs parentKeyId w
  rw [he, h] at hcoins
  exact Prog.bind_of_error hcoins

/-- From the first selection on. -/
theorem selectCoinsAndFee_of_chosen {first : List OutputData}
    (h : chosen amount maxOutputs selectAll eligible = some first) :
    selectCoinsAndFee W amount currentHeight minimumConfirmations maxOutputs changeOutputs selectAll
        parentKeyId w =
      if needed W amount 1 first < u64Size then
        if value first = 0 then
          (.error (.err (notEnoughFunds W 0 (needed W amount 1 first))), w)
        else if value first < needed W amount 1 first ∧ first.length = eligible.length then
          (.error (.err (notEnoughFunds W (value first) (needed W amount 1 first))), w)
        else if value first = needed W amount 1 first then
          (.ok (first, value first, amount, W.txFee first.length 1 1), w)
        else if needed W amount (changeOutputs + 1) first < u64Size then
          (selectMore W amount currentHeight minimumConfirmations eligible.length (changeOutputs + 1) selectAll
              parentKeyId W.patience first (value first) (needed W amount (changeOutputs + 1) first)
              (W.txFee first.length (changeOutputs + 1) 1) >>= fun r => pure (r.1, r.2.1, amount, r.2.2)) w
        else (.error .panic, w)
      else (.error .panic, w) := by
  have hcoins := selectCoins_apply ha selectAll currentHeight minimumConfirmations maxOutputs parentKeyId w
  rw [he, h] at hcoins
  have hsum : sumU64 (first.map (·.value)) w = (.ok (value first), w) := by
    rw [sumU64_apply, if_pos (chosen_value_lt ha h)]
  unfold selectCoinsAndFee
  rw [Prog.bind_of_ok hcoins]
  dsimp only
  rw [Prog.bind_of_ok hsum]
  by_cases hfirst : needed W amount 1 first < u64Size
  · have hadd : addU64 amount (W.txFee first.length 1 1) w = (.ok (needed W amount 1 first), w) := by
      rw [addU64_apply]
      exact if_pos hfirst
    rw [Prog.bind_of_ok hadd, if_pos hfirst]
    split_ifs with hzero hall hexact hmore
    · rfl
    · rfl
    · rfl
    · have hadd : addU64 amount (W.txFee first.length (changeOutputs + 1) 1) w =
          (.ok (needed W amount (changeOutputs + 1) first), w) := by
        rw [addU64_apply]
        exact if_pos hmore
      exact Prog.bind_of_ok hadd
    · have hadd : addU64 amount (W.txFee first.length (changeOutputs + 1) 1) w = (.error .panic, w) := by
        rw [addU64_apply]
        exact if_neg hmore
      exact Prog.bind_of_error hadd
  · have hadd : addU64 amount (W.txFee first.length 1 1) w = (.error .panic, w) := by
      rw [addU64_apply]
      exact if_neg hfirst
    rw [Prog.bind_of_error hadd, if_neg hfirst]

/-- What `select_coins_and_fee` returns, if it does. -/
theorem selectCoinsAndFee_cases
    {r : Except (Fault Error) (List OutputData × Nat × Nat × Nat)} {w' : Wallet}
    (h : selectCoinsAndFee W amount currentHeight minimumConfirmations maxOutputs changeOutputs selectAll
      parentKeyId w = (r, w')) (hr : r ≠ .error .panic) :
    ∃ first, chosen amount maxOutputs selectAll eligible = some first ∧
      (value first = 0 ∧ r = .error (.err (notEnoughFunds W 0 (needed W amount 1 first))) ∨
        value first < needed W amount 1 first ∧ first.length = eligible.length ∧
          r = .error (.err (notEnoughFunds W (value first) (needed W amount 1 first))) ∨
        value first = needed W amount 1 first ∧
          r = .ok (first, value first, amount, W.txFee first.length 1 1) ∨
        value first ≠ needed W amount 1 first ∧
          ∃ last, Visits W amount (changeOutputs + 1) selectAll eligible first last ∧
            (needed W amount (changeOutputs + 1) last ≤ value last ∧
                r = .ok (last, value last, amount, W.txFee last.length (changeOutputs + 1) 1) ∨
              value last < needed W amount (changeOutputs + 1) last ∧ last.length = eligible.length ∧
                r = .error (.err (notEnoughFunds W (value last)
                  (needed W amount (changeOutputs + 1) last))))) := by
  rcases hchosen : chosen amount maxOutputs selectAll eligible with _ | first
  · rw [selectCoinsAndFee_of_panic he ha hchosen] at h
    exact absurd (Prod.mk.inj h).1.symm hr
  refine ⟨first, rfl, ?_⟩
  rw [selectCoinsAndFee_of_chosen he ha hchosen] at h
  split_ifs at h with hfirst hzero hall hexact hmore
  · exact .inl ⟨hzero, (Prod.mk.inj h).1.symm⟩
  · exact .inr (.inl ⟨hall.1, hall.2, (Prod.mk.inj h).1.symm⟩)
  · exact .inr (.inr (.inl ⟨hexact, (Prod.mk.inj h).1.symm⟩))
  · refine .inr (.inr (.inr ⟨hexact, ?_⟩))
    rcases hloop : selectMore W amount currentHeight minimumConfirmations eligible.length (changeOutputs + 1)
      selectAll parentKeyId W.patience first (value first) (needed W amount (changeOutputs + 1) first)
      (W.txFee first.length (changeOutputs + 1) 1) w with ⟨f | s, w''⟩
    · rw [Prog.bind_of_error hloop] at h
      obtain ⟨rfl, -⟩ := Prod.mk.inj h
      have hf : (Except.error f : Except (Fault Error) (List OutputData × Nat × Nat)) ≠ .error .panic :=
        fun hcon => hr (congrArg Except.error (Except.error.inj hcon))
      obtain ⟨last, hvisits, ⟨-, hlast⟩ | ⟨hshort, hlength, hlast⟩⟩ := selectMore_visits he hmore hloop hf
      · cases hlast
      · exact ⟨last, hvisits, .inr ⟨hshort, hlength, congrArg Except.error (Except.error.inj hlast)⟩⟩
    · rw [Prog.bind_of_ok hloop] at h
      obtain ⟨rfl, -⟩ := Prod.mk.inj h
      obtain ⟨last, hvisits, ⟨henough, hlast⟩ | ⟨-, -, hlast⟩⟩ := selectMore_visits he hmore hloop nofun
      · cases hlast
        exact ⟨last, hvisits, .inl ⟨henough, rfl⟩⟩
      · cases hlast
  · exact absurd (Prod.mk.inj h).1.symm hr
  · exact absurd (Prod.mk.inj h).1.symm hr

end

theorem Visits.subperm {W : World} {amount numOutputs : Nat} {selectAll : Bool}
    {eligible coins last : List OutputData} (h : Visits W amount numOutputs selectAll eligible coins last)
    (hcoins : coins.Subperm eligible) : last.Subperm eligible := by
  induction h with
  | here => exact hcoins
  | next retries rest ih =>
    refine ih ?_
    unfold reselect
    split_ifs
    · exact (pick_sublist _ _ _).subperm
    · exact (List.reverse_perm eligible).subperm

end Selection

end EpicWallet
