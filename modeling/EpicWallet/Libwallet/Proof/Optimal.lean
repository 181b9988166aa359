import Mathlib.Data.List.MinMax
import EpicWallet.Libwallet.Proof.Change

/-!
# One selection is optimal

`select_coins` looks at the windows of the eligible outputs, the smallest first, and then at all of them.
What it finds is the best of all sets of outputs (`Optimal`): within the limit if any set within it
suffices, and with a largest coin as small as can be.

* `optimal_of_chosen`: what is chosen is optimal.
* `selectsOptimally_iff`: coins are chosen, unless adding up the first set that suffices overflows.
-/

namespace EpicWallet

open Lib WalletBackend

namespace Selection

section
variable (amount maxOutputs : Nat) (eligible coins : List OutputData)

/-- At most so many of the eligible coins cover the amount. -/
def Suffices (s : List OutputData) : Prop :=
  s.Subperm eligible ∧ s.length ≤ maxOutputs ∧ amount ≤ value s

/-- The value of the largest coin. -/
def largest (l : List OutputData) : Nat := (l.map (·.value)).foldr max 0

/-- The coins ascend and cover the amount, and with the largest of them dropped they do not. -/
structure Tight : Prop where
  ordered : Ordered.By (·.value) coins
  covers : amount ≤ value coins
  short : ∀ k < coins.length, value (coins.take k) < amount

/-- The coins are the largest, as many as are allowed. -/
structure Greatest : Prop where
  length : coins.length = min maxOutputs eligible.length
  rest : ∃ rest, (coins ++ rest).Perm eligible ∧ ∀ o ∈ coins, ∀ o' ∈ rest, o'.value ≤ o.value

/-- What one selection promises, of the eligible coins in ascending order. -/
structure Optimal : Prop where
  within : (∃ s, Suffices amount maxOutputs eligible s) →
    Suffices amount maxOutputs eligible coins ∧ Tight amount coins ∧
      ∀ s, Suffices amount maxOutputs eligible s → largest coins ≤ largest s
  extended : (¬∃ s, Suffices amount maxOutputs eligible s) → amount ≤ value eligible →
    coins <+: eligible ∧ Tight amount coins
  short : value eligible < amount → Greatest maxOutputs eligible coins

end

section
variable {amount maxOutputs : Nat} {eligible coins : List OutputData}

/-! ## Prefixes -/

theorem tight_takeWhileBelow {c : List OutputData} (hordered : Ordered.By (·.value) c)
    (hcovers : amount ≤ value c) : Tight amount (takeWhileBelow amount 0 c) where
  ordered := hordered.sublist (takeWhileBelow_isPrefixOf amount 0 c).sublist
  covers := show amount ≤ value (pick amount false c) from pick_covers hcovers
  short k hk := by
    have hne : takeWhileBelow amount 0 c ≠ [] := List.ne_nil_of_length_pos (Nat.zero_lt_of_lt hk)
    have hlast := value_dropLast_lt hne
    rw [Nat.zero_add, List.dropLast_eq_take] at hlast
    have hinit := List.take_prefix_take_left (l := takeWhileBelow amount 0 c) (Nat.le_sub_one_of_lt hk)
    exact (value_sublist hinit.sublist).trans_lt hlast

/-! ## Windows -/

theorem le_largest {l : List OutputData} {o : OutputData} (ho : o ∈ l) : o.value ≤ largest l :=
  List.le_max_of_le (List.mem_map_of_mem ho) (Nat.le_refl o.value)

theorem largest_le {l : List OutputData} {n : Nat} (h : ∀ o ∈ l, o.value ≤ n) : largest l ≤ n := by
  refine List.max_le_of_forall_le _ _ fun v hv => ?_
  obtain ⟨o, ho, rfl⟩ := List.mem_map.1 hv
  exact h o ho

/-- Coins less than the one at `n` are worth no more than the window that ends before it. -/
theorem value_le_window (hordered : Ordered.By (·.value) eligible) {s : List OutputData}
    (hs : s.Subperm eligible) (hlength : s.length ≤ maxOutputs) {n : Nat} (hn : n < eligible.length)
    (hless : ∀ o ∈ s, o.value < eligible[n].value) :
    value s ≤ value ((eligible.drop (n - maxOutputs)).take (n - (n - maxOutputs))) := by
  obtain ⟨s', hperm, hsub⟩ := hs
  have hbefore := Ordered.sum_le_sum_before hordered hsub hn (fun o ho => hless o (hperm.subset ho))
    (hperm.length_eq.trans_le hlength)
  rw [List.drop_take] at hbefore
  exact (value_perm hperm).symm.trans_le hbefore

theorem exists_take_of_prefix {l : List OutputData} (h : coins <+: l.take maxOutputs) :
    ∃ k ≤ maxOutputs, k ≤ l.length ∧ coins = l.take k := by
  have hlimit : coins.length ≤ maxOutputs := h.length_le.trans (List.length_take_le _ _)
  have hlength : coins.length ≤ l.length := (h.sublist.trans (List.take_sublist _ _)).length_le
  have htake := List.prefix_iff_eq_take.1 h
  rw [List.take_take, Nat.min_eq_left hlimit] at htake
  exact ⟨coins.length, hlimit, hlength, htake⟩

/-- The exchange: of coins that are all less than the last one taken of the first window that suffices, no
set within the limit does. -/
theorem largest_window_le (hordered : Ordered.By (·.value) eligible) {i : Nat}
    (hinit : coins <+: (eligible.drop i).take maxOutputs) (htight : Tight amount coins)
    (hearlier : ∀ j < i, value ((eligible.drop j).take maxOutputs) < amount) {s : List OutputData}
    (hs : Suffices amount maxOutputs eligible s) : largest coins ≤ largest s := by
  obtain ⟨k, hk, hlength, rfl⟩ := exists_take_of_prefix hinit
  rcases k with _ | k
  · exact Nat.zero_le _
  rw [List.length_drop] at hlength
  have hn : i + k < eligible.length := by omega
  have hlast : ∀ o ∈ (eligible.drop i).take (k + 1), o.value ≤ eligible[i + k].value := by
    intro o ho
    rw [List.take_drop] at ho
    exact Ordered.le_of_mem_take hordered hn (List.mem_of_mem_drop ho)
  have hreach : eligible[i + k].value ≤ largest s := by
    by_contra hless
    obtain ⟨hsub, hlimit, hcovers⟩ := hs
    have hle := value_le_window hordered hsub hlimit hn fun o ho =>
      (le_largest ho).trans_lt (Nat.not_le.1 hless)
    have hwindow : value ((eligible.drop (i + k - maxOutputs)).take (i + k - (i + k - maxOutputs))) <
        amount := by
      rcases Nat.eq_zero_or_pos i with rfl | hi
      · -- the coins taken of the first window, but the last
        have hfirst := htight.short k (by rw [List.length_take, List.length_drop]; omega)
        rw [List.take_take, Nat.min_eq_left (Nat.le_succ k)] at hfirst
        rwa [show 0 + k - maxOutputs = 0 by omega, Nat.sub_zero, Nat.zero_add]
      · have hwithin := List.take_prefix_take_left (l := eligible.drop (i + k - maxOutputs))
          (by omega : i + k - (i + k - maxOutputs) ≤ maxOutputs)
        exact (value_sublist hwithin.sublist).trans_lt (hearlier _ (by omega))
    omega
  exact largest_le fun o ho => (hlast o ho).trans hreach

/-! ## The three cases -/

/-- No set within the limit covers what the largest coins do not. -/
theorem not_suffices_of_short (hordered : Ordered.By (·.value) eligible)
    (hmany : maxOutputs ≤ eligible.length)
    (hshort : value (eligible.drop (eligible.length - maxOutputs)) < amount) :
    ¬∃ s, Suffices amount maxOutputs eligible s := by
  rintro ⟨s, hsub, hlength, hcovers⟩
  exact Nat.not_lt.2 (hcovers.trans (value_le_drop hordered hsub hlength hmany)) hshort

/-- The first window that suffices. -/
theorem optimal_window (hordered : Ordered.By (·.value) eligible) {i : Nat}
    (hinit : coins <+: (eligible.drop i).take maxOutputs) (htight : Tight amount coins)
    (hearlier : ∀ j < i, value ((eligible.drop j).take maxOutputs) < amount) :
    Optimal amount maxOutputs eligible coins := by
  have hsub : coins.Sublist eligible :=
    hinit.sublist.trans ((List.take_sublist _ _).trans (List.drop_sublist _ _))
  have hsuffices : Suffices amount maxOutputs eligible coins :=
    ⟨hsub.subperm, hinit.length_le.trans (List.length_take_le _ _), htight.covers⟩
  exact {
    within := fun _ => ⟨hsuffices, htight, fun s hs => largest_window_le hordered hinit htight hearlier hs⟩
    extended := fun hnone => absurd ⟨coins, hsuffices⟩ hnone
    short := fun hless => absurd (htight.covers.trans (value_sublist hsub)) (Nat.not_le.2 hless) }

/-- All eligible coins, where no window suffices. -/
theorem optimal_extended (hordered : Ordered.By (·.value) eligible) (hmany : maxOutputs ≤ eligible.length)
    (hinit : coins <+: eligible) (htight : Tight amount coins)
    (hshort : value (eligible.drop (eligible.length - maxOutputs)) < amount) :
    Optimal amount maxOutputs eligible coins where
  within h := absurd h (not_suffices_of_short hordered hmany hshort)
  extended _ _ := ⟨hinit, htight⟩
  short h := absurd (htight.covers.trans (value_sublist hinit.sublist)) (Nat.not_le.2 h)

/-- The largest coins, where all together do not suffice. -/
theorem optimal_short (hordered : Ordered.By (·.value) eligible) (hshort : value eligible < amount) :
    Optimal amount maxOutputs eligible (eligible.reverse.take maxOutputs) where
  within := fun ⟨_, hsub, _, hcovers⟩ =>
    absurd (hcovers.trans (value_subperm hsub)) (Nat.not_le.2 hshort)
  extended _ hcovers := absurd hcovers (Nat.not_le.2 hshort)
  short _ := by
    have hdescending : (eligible.reverse).Pairwise fun a b => b.value ≤ a.value :=
      List.pairwise_reverse.2 hordered
    rw [← List.take_append_drop maxOutputs eligible.reverse] at hdescending
    refine ⟨by rw [List.length_take, List.length_reverse], eligible.reverse.drop maxOutputs, ?_,
      (List.pairwise_append.1 hdescending).2.2⟩
    rw [List.take_append_drop]
    exact List.reverse_perm eligible

/-- What is chosen is optimal. -/
theorem optimal_of_chosen (hordered : Ordered.By (·.value) eligible)
    (h : chosen amount maxOutputs false eligible = some coins) :
    Optimal amount maxOutputs eligible coins := by
  rcases chosen_cases h with ⟨c, hc, -, rfl⟩ | ⟨hnone, rfl⟩
  · have hmem := List.mem_of_find?_eq_some hc
    have hcovers : amount ≤ value c.1 := by simpa using List.find?_some hc
    have hinit := takeWhileBelow_isPrefixOf amount 0 c.1
    have htight := tight_takeWhileBelow (hordered.sublist (candidates_sublist hmem)) hcovers
    rw [candidates_false hmem]
    show Optimal amount maxOutputs eligible (takeWhileBelow amount 0 c.1)
    rcases covering_cases hc with ⟨i, hwindow, hearlier⟩ | ⟨hall, hmany, hshort⟩
    · exact optimal_window hordered (hinit.trans (hwindow ▸ List.prefix_refl _)) htight hearlier
    · exact optimal_extended hordered hmany.le (hinit.trans (hall ▸ List.prefix_refl _)) htight hshort
  · obtain ⟨b, hmem⟩ := eligible_mem_candidates maxOutputs false eligible
    exact optimal_short hordered (value_lt_of_not_covering hnone _ hmem)

end

/-! ## `select_coins` -/

/-- The smallest coins first, coins are returned, and they are optimal. -/
def SelectsOptimally (amount currentHeight minimumConfirmations maxOutputs : Nat)
    (parentKeyId : Identifier) (w : Wallet) : Prop :=
  ∃ available coins, (selectCoins amount currentHeight minimumConfirmations maxOutputs false parentKeyId
      w).1 = .ok (available, coins) ∧
    Optimal amount maxOutputs (eligibleOutputs w.db currentHeight minimumConfirmations parentKeyId) coins

/-- Optimal coins are returned, exactly if the first set that suffices can be added up. -/
theorem selectsOptimally_iff {amount : Nat} (ha : amount < u64Size)
    (currentHeight minimumConfirmations maxOutputs : Nat) (parentKeyId : Identifier) (w : Wallet) :
    SelectsOptimally amount currentHeight minimumConfirmations maxOutputs parentKeyId w ↔
      WindowsFit amount maxOutputs false
        (eligibleOutputs w.db currentHeight minimumConfirmations parentKeyId) := by
  rw [← chosen_ne_none_iff]
  constructor
  · rintro ⟨available, coins, hcoins, -⟩
    exact ⟨coins, (chosen_of_selectCoins ha hcoins).2⟩
  · rintro ⟨coins, hchosen⟩
    have hcoins := selectCoins_apply ha false currentHeight minimumConfirmations maxOutputs parentKeyId w
    rw [hchosen] at hcoins
    exact ⟨_, coins, congrArg Prod.fst hcoins, optimal_of_chosen (ordered_eligibleOutputs ..) hchosen⟩

theorem selectsOptimally_iff_purse : SelectsOptimally 10 10 1 2 defaultPath (purse [3, 9, 20]) := by
  refine (selectsOptimally_iff (by decide) 10 1 2 defaultPath (purse [3, 9, 20])).2 ⟨nofun, ?_⟩
  intro c hc
  have hwindow : covering 10 2 false (eligibleOutputs (purse [3, 9, 20]).db 10 1 defaultPath) =
      some ([coin 0 3, coin 1 9], false) := by decide
  obtain rfl := Option.some.inj (hwindow.symm.trans hc)
  decide

/-- The output of 2 to the power of 63 covers a payment of 6, but adding up all three overflows. -/
theorem not_selectsOptimally :
    ¬∀ (amount currentHeight minimumConfirmations maxOutputs : Nat) (parentKeyId : Identifier) (w : Wallet),
      amount < u64Size → 1 ≤ maxOutputs → 1 ≤ amount →
      SelectsOptimally amount currentHeight minimumConfirmations maxOutputs parentKeyId w := by
  intro h
  obtain ⟨available, coins, hcoins, -⟩ := h 6 10 0 3 defaultPath gifted (by decide) (by decide) (by decide)
  have hpanic : (selectCoins 6 10 0 3 false defaultPath gifted).1 = .error .panic := by decide
  rw [hpanic] at hcoins
  cases hcoins

end Selection

end EpicWallet
