import EpicWallet.Libwallet.Proof.CoinSelection

/-!
# What the wallet shows of itself

The balances of `retrieve_info` and the pages of `retrieve_outputs` and `retrieve_txs`.

* `retrieveInfo_shows`: each total is the value of the outputs of one bucket, what is shown as spendable is
  the value of the outputs coin selection may choose.
* `retrieve_pages`: a page is the part of the list the offset and the limit say, unless the offset is past
  the end and no limit is given, or the two overflow together.
-/

namespace EpicWallet

open Lib WalletBackend Selection

namespace Updater

/-! ## Balances -/

/-- Where `retrieve_info` counts an output. -/
inductive Bucket where
  | immature
  | awaitingConfirmation
  | spendable
  | awaitingFinalization
  | locked
deriving DecidableEq

def bucketOf (currentHeight minimumConfirmations : Nat) (o : OutputData) : Option Bucket :=
  match o.status with
  | .unspent =>
    if o.isCoinbase ∧ o.lockHeight > currentHeight then some .immature
    else if o.numConfirmations currentHeight < minimumConfirmations then some .awaitingConfirmation
    else some .spendable
  | .unconfirmed =>
    if o.isCoinbase then none
    else if minimumConfirmations = 0 then some .awaitingConfirmation
    else some .awaitingFinalization
  | .locked => some .locked
  | .spent => none
  | .deleted => none

/-- The value of the outputs in a bucket. -/
def shown (h m : Nat) (b : Bucket) (l : List OutputData) : Nat :=
  value (l.filter (bucketOf h m · = some b))

/-- What an output adds to a bucket. -/
def share (h m : Nat) (b : Bucket) (o : OutputData) : Nat :=
  if bucketOf h m o = some b then o.value else 0

theorem shown_concat (h m : Nat) (b : Bucket) (l : List OutputData) (o : OutputData) :
    shown h m b (l ++ [o]) = shown h m b l + share h m b o := by
  unfold shown share value
  rw [List.filter_append, List.map_append, List.sum_append]
  by_cases hb : bucketOf h m o = some b
  · simp [hb]
  · simp [hb]

namespace InfoTotals

/-- The totals of some outputs. -/
def of (h m : Nat) (l : List OutputData) : InfoTotals where
  unspent := shown h m .spendable l
  immature := shown h m .immature l
  awaitingFinalization := shown h m .awaitingFinalization l
  unconfirmed := shown h m .awaitingConfirmation l
  locked := shown h m .locked l
  unspentUnconfirmed := shown h m .awaitingConfirmation (l.filter (·.status = .unspent))

/-- The totals with one output more. -/
def put (h m : Nat) (s : InfoTotals) (o : OutputData) : InfoTotals where
  unspent := s.unspent + share h m .spendable o
  immature := s.immature + share h m .immature o
  awaitingFinalization := s.awaitingFinalization + share h m .awaitingFinalization o
  unconfirmed := s.unconfirmed + share h m .awaitingConfirmation o
  locked := s.locked + share h m .locked o
  unspentUnconfirmed := s.unspentUnconfirmed +
    if o.status = .unspent then share h m .awaitingConfirmation o else 0

theorem of_concat (h m : Nat) (l : List OutputData) (o : OutputData) :
    of h m (l ++ [o]) = (of h m l).put h m o := by
  unfold of put
  simp only [shown_concat, List.filter_append]
  by_cases ho : o.status = .unspent
  · simp [ho, shown_concat]
  · simp [ho]

structure Fits (s : InfoTotals) : Prop where
  unspent : s.unspent < u64Size
  immature : s.immature < u64Size
  awaitingFinalization : s.awaitingFinalization < u64Size
  unconfirmed : s.unconfirmed < u64Size
  locked : s.locked < u64Size
  unspentUnconfirmed : s.unspentUnconfirmed < u64Size

theorem fits_of_put {h m : Nat} {s : InfoTotals} {o : OutputData} (hs : (s.put h m o).Fits) : s.Fits where
  unspent := Nat.lt_of_le_of_lt (Nat.le_add_right _ _) hs.unspent
  immature := Nat.lt_of_le_of_lt (Nat.le_add_right _ _) hs.immature
  awaitingFinalization := Nat.lt_of_le_of_lt (Nat.le_add_right _ _) hs.awaitingFinalization
  unconfirmed := Nat.lt_of_le_of_lt (Nat.le_add_right _ _) hs.unconfirmed
  locked := Nat.lt_of_le_of_lt (Nat.le_add_right _ _) hs.locked
  unspentUnconfirmed := Nat.lt_of_le_of_lt (Nat.le_add_right _ _) hs.unspentUnconfirmed

end InfoTotals

theorem InfoTotals.fits_iff {s : InfoTotals} : s.Fits ↔ s.unspent < u64Size ∧ s.immature < u64Size ∧
    s.awaitingFinalization < u64Size ∧ s.unconfirmed < u64Size ∧ s.locked < u64Size ∧
    s.unspentUnconfirmed < u64Size :=
  ⟨fun ⟨a, b, c, d, e, f⟩ => ⟨a, b, c, d, e, f⟩, fun ⟨a, b, c, d, e, f⟩ => ⟨a, b, c, d, e, f⟩⟩

theorem addU64_bind_ok {α : Type} {a b : Nat} {f : Nat → WalletM α} {r : α} {w w' : Wallet} :
    (addU64 a b >>= f) w = (.ok r, w') ↔ a + b < u64Size ∧ f (a + b) w = (.ok r, w') := by
  rw [Prog.bind_ok]
  constructor
  · rintro ⟨n, w₁, hadd, h⟩
    obtain ⟨rfl, hlt, rfl⟩ := addU64_ok.1 hadd
    exact ⟨hlt, h⟩
  · rintro ⟨hlt, h⟩
    exact ⟨_, _, addU64_ok.2 ⟨rfl, hlt, rfl⟩, h⟩

/-- One round of the loop, on totals that fit. -/
theorem addInfo_ok {h m : Nat} {s s' : InfoTotals} {o : OutputData} {w w' : Wallet} (hs : s.Fits) :
    addInfo h m s o w = (.ok s', w') ↔ s' = s.put h m o ∧ (s.put h m o).Fits ∧ w' = w := by
  obtain ⟨h1, h2, h3, h4, h5, h6⟩ := hs
  obtain ⟨u, i, f, c, k, uc⟩ := s
  dsimp only at h1 h2 h3 h4 h5 h6
  rw [InfoTotals.fits_iff, @eq_comm _ s', @eq_comm _ w']
  unfold addInfo InfoTotals.put share bucketOf
  -- only the total of the output's own bucket grows
  rcases o.status <;> dsimp only
  · by_cases hcoinbase : o.isCoinbase
    · simp [hcoinbase, h1, h2, h3, h4, h5, h6]
    · by_cases hzero : m = 0
      · simp [hcoinbase, hzero, addU64_bind_ok, -bind_pure_comp, h1, h2, h3, h5, h6]
        tauto
      · simp [hcoinbase, hzero, addU64_bind_ok, -bind_pure_comp, h1, h2, h4, h5, h6]
        tauto
  · by_cases hmature : o.isCoinbase ∧ o.lockHeight > h
    · simp [hmature, addU64_bind_ok, -bind_pure_comp, h1, h3, h4, h5, h6]
      tauto
    · by_cases hconfirmed : o.numConfirmations h < m
      · simp only [if_neg hmature, if_pos hconfirmed]
        simp [addU64_bind_ok, -bind_pure_comp, h1, h2, h3, h5]
        tauto
      · simp only [if_neg hmature, if_neg hconfirmed]
        simp [addU64_bind_ok, -bind_pure_comp, h2, h3, h4, h5, h6]
        tauto
  · simp [addU64_bind_ok, -bind_pure_comp, h1, h2, h3, h4, h6]
    tauto
  · simp [h1, h2, h3, h4, h5, h6]
  · simp [h1, h2, h3, h4, h5, h6]

theorem foldlM_addInfo {h m : Nat} {l : List OutputData} {s : InfoTotals} {w w' : Wallet} :
    l.foldlM (addInfo h m) InfoTotals.zero w = (.ok s, w') ↔
      s = InfoTotals.of h m l ∧ (InfoTotals.of h m l).Fits ∧ w' = w := by
  induction l using List.reverseRecOn generalizing s w' with
  | nil =>
    have hzero : InfoTotals.zero.Fits := InfoTotals.fits_iff.2 (by decide)
    constructor
    · intro hrun
      cases hrun
      exact ⟨rfl, hzero, rfl⟩
    · rintro ⟨rfl, -, rfl⟩
      rfl
  | append_singleton l o ih =>
    rw [List.foldlM_append, Prog.bind_ok, InfoTotals.of_concat]
    have hone : ∀ s₁, [o].foldlM (addInfo h m) s₁ = addInfo h m s₁ o := fun s₁ => by
      rw [List.foldlM_cons]
      exact bind_pure _
    constructor
    · rintro ⟨s₁, w₁, hrun, hlast⟩
      obtain ⟨rfl, hfits, rfl⟩ := ih.1 hrun
      rw [hone] at hlast
      exact (addInfo_ok hfits).1 hlast
    · rintro ⟨rfl, hfits, rfl⟩
      have hfits' := InfoTotals.fits_of_put hfits
      refine ⟨_, _, ih.2 ⟨rfl, hfits', rfl⟩, ?_⟩
      rw [hone]
      exact (addInfo_ok hfits').2 ⟨rfl, hfits, rfl⟩

/-- The totals that make up the balance are of the unspent and the locked outputs. -/
theorem total_of (h m : Nat) (l : List OutputData) :
    shown h m .spendable l + shown h m .immature l + shown h m .locked l +
        shown h m .awaitingConfirmation (l.filter (·.status = .unspent)) =
      value (l.filter fun o => o.status = .unspent ∨ o.status = .locked) := by
  have hof : ∀ o : OutputData, share h m .spendable o + share h m .immature o + share h m .locked o +
      (if o.status = .unspent then share h m .awaitingConfirmation o else 0) =
        if o.status = .unspent ∨ o.status = .locked then o.value else 0 := by
    intro o
    unfold share bucketOf
    rcases hst : o.status <;> dsimp only
    · split_ifs <;> simp_all
    · split_ifs <;> simp_all
    · simp
    · simp
    · simp
  induction l using List.reverseRecOn with
  | nil => rfl
  | append_singleton l o ih =>
    have hone := hof o
    rw [List.filter_append, List.filter_append, shown_concat, shown_concat, shown_concat]
    unfold value at ih ⊢
    rw [List.map_append, List.sum_append, ← ih]
    by_cases ho : o.status = .unspent
    · simp only [ho] at hone ⊢
      simp [shown_concat, ho] at hone ⊢
      omega
    · simp [ho] at hone ⊢
      split_ifs at hone ⊢
      · simp_all
        omega
      · simp_all

/-- No output is counted in two buckets. -/
theorem buckets_subperm (h m : Nat) (l : List OutputData) :
    (l.filter (bucketOf h m · = some .immature) ++ l.filter (bucketOf h m · = some .awaitingConfirmation) ++
      l.filter (bucketOf h m · = some .spendable) ++ l.filter (bucketOf h m · = some .locked)).Subperm
        (l.filter (·.status ≠ .spent)) := by
  have hcount : ∀ (b : Bucket) (o : OutputData), (l.filter (bucketOf h m · = some b)).count o =
      if bucketOf h m o = some b then l.count o else 0 := by
    intro b o
    by_cases hb : bucketOf h m o = some b
    · rw [if_pos hb, List.count_filter (by simpa using hb)]
    · rw [if_neg hb, List.count_eq_zero]
      simp [hb]
  rw [List.subperm_ext_iff]
  intro o ho
  have hlive : o.status ≠ .spent := by
    rintro hspent
    have hnone : bucketOf h m o = none := by
      unfold bucketOf
      rw [hspent]
    simp [hnone] at ho
  rw [List.count_append, List.count_append, List.count_append, hcount, hcount, hcount, hcount,
    List.count_filter (by simpa using hlive)]
  rcases bucketOf h m o with _ | b
  · simp
  · cases b <;> simp

/-- What may be spent is what is shown as spendable. -/
theorem eligibleToSpend_iff {h m : Nat} (hm : 1 ≤ m) {o : OutputData}
    (hlock : o.isCoinbase = false → o.lockHeight ≤ h) :
    o.eligibleToSpend h m = true ↔ bucketOf h m o = some .spendable := by
  unfold OutputData.eligibleToSpend bucketOf
  rcases hst : o.status <;> dsimp only
  · split_ifs <;> simp_all
  · rcases hc : o.isCoinbase
    · have hle : o.lockHeight ≤ h := hlock hc
      simp [hle]
    · simp
      split_ifs <;> simp_all
  · simp
  · simp
  · simp

/-- Four numbers added up one after the other. -/
theorem addU64_four_ok {α : Type} {a b c d : Nat} {f : Nat → WalletM α} {r : α} {w w' : Wallet} :
    (addU64 a b >>= fun n => addU64 n c >>= fun n => addU64 n d >>= f) w = (.ok r, w') ↔
      a + b + c + d < u64Size ∧ f (a + b + c + d) w = (.ok r, w') := by
  simp only [addU64_bind_ok]
  constructor
  · rintro ⟨-, -, hlt, hf⟩
    exact ⟨hlt, hf⟩
  · rintro ⟨hlt, hf⟩
    exact ⟨by omega, by omega, hlt, hf⟩

theorem retrieveInfo_ok {parentKeyId : Identifier} {m : Nat} {info : WalletInfo} {w w' : Wallet} :
    let h := numericOf w.db (.confirmedHeight w.parentKeyId)
    let outputs := (outputsOf w.db).filter (·.rootKeyId = parentKeyId)
    let total := value (outputs.filter fun o => o.status = .unspent ∨ o.status = .locked)
    retrieveInfo parentKeyId m w = (.ok info, w') ↔
      info =
        { lastConfirmedHeight := h
          minimumConfirmations := m
          total
          amountAwaitingFinalization := shown h m .awaitingFinalization outputs
          amountAwaitingConfirmation := shown h m .awaitingConfirmation outputs
          amountImmature := shown h m .immature outputs
          amountCurrentlySpendable := shown h m .spendable outputs
          amountLocked := shown h m .locked outputs } ∧
      (InfoTotals.of h m outputs).Fits ∧ total < u64Size ∧ w' = w := by
  intro h outputs total
  have htotal : (InfoTotals.of h m outputs).unspent + (InfoTotals.of h m outputs).immature +
      (InfoTotals.of h m outputs).locked + (InfoTotals.of h m outputs).unspentUnconfirmed = total :=
    total_of h m outputs
  have hheight : lastConfirmedHeight w = (.ok h, w) := rfl
  unfold retrieveInfo
  rw [Prog.bind_of_ok hheight, Prog.bind_of_ok (rows_apply w), Prog.bind_ok]
  constructor
  · rintro ⟨s, w₁, hfold, hrest⟩
    obtain ⟨rfl, hfits, rfl⟩ := foldlM_addInfo.1 hfold
    obtain ⟨hlt, hend⟩ := addU64_four_ok.1 hrest
    change (InfoTotals.of h m outputs).unspent + (InfoTotals.of h m outputs).immature +
      (InfoTotals.of h m outputs).locked + (InfoTotals.of h m outputs).unspentUnconfirmed < u64Size at hlt
    cases hend
    refine ⟨?_, hfits, htotal ▸ hlt, rfl⟩
    rw [← htotal]
    rfl
  · rintro ⟨rfl, hfits, hlt, rfl⟩
    refine ⟨_, _, foldlM_addInfo.2 ⟨rfl, hfits, rfl⟩, addU64_four_ok.2 ⟨?_, ?_⟩⟩
    · exact lt_of_eq_of_lt htotal hlt
    · rw [← htotal]
      rfl

/-- Values that together fit do so in every bucket. -/
theorem fits_of_value {h m : Nat} {l : List OutputData} (hl : value l < u64Size) :
    (InfoTotals.of h m l).Fits := by
  have hbucket : ∀ (b : Bucket) (l' : List OutputData), l'.Sublist l → shown h m b l' < u64Size :=
    fun b l' hsub => Nat.lt_of_le_of_lt (value_sublist ((List.filter_sublist).trans hsub)) hl
  exact
    { unspent := hbucket _ l (List.Sublist.refl l)
      immature := hbucket _ l (List.Sublist.refl l)
      awaitingFinalization := hbucket _ l (List.Sublist.refl l)
      unconfirmed := hbucket _ l (List.Sublist.refl l)
      locked := hbucket _ l (List.Sublist.refl l)
      unspentUnconfirmed := hbucket _ _ List.filter_sublist }

/-- What is shown as spendable are the outputs coin selection chooses from, no output is counted twice, and
the total is that of the unspent and the locked outputs; the summary is there if the values fit. -/
theorem retrieveInfo_shows (parentKeyId : Identifier) {m : Nat} (hm : 1 ≤ m) (w : Wallet) :
    let outputs := (outputsOf w.db).filter (·.rootKeyId = parentKeyId)
    (∀ info w', retrieveInfo parentKeyId m w = (.ok info, w') →
      w' = w ∧ lastConfirmedHeight w = (.ok info.lastConfirmedHeight, w) ∧
      ((∀ o ∈ outputs, o.isCoinbase = false → o.lockHeight ≤ info.lastConfirmedHeight) →
        info.amountCurrentlySpendable = value (eligibleOutputs w.db info.lastConfirmedHeight m parentKeyId)) ∧
      (∃ immature awaiting spendable locked : List OutputData,
        (immature ++ awaiting ++ spendable ++ locked).Subperm (outputs.filter (·.status ≠ .spent)) ∧
        info.amountImmature = value immature ∧ info.amountAwaitingConfirmation = value awaiting ∧
        info.amountCurrentlySpendable = value spendable ∧ info.amountLocked = value locked) ∧
      info.total = value (outputs.filter fun o => o.status = .unspent ∨ o.status = .locked)) ∧
    (value outputs < u64Size → ∃ info, retrieveInfo parentKeyId m w = (.ok info, w)) := by
  intro outputs
  constructor
  · intro info w' hrun
    obtain ⟨rfl, -, -, rfl⟩ := retrieveInfo_ok.1 hrun
    refine ⟨rfl, rfl, fun hlock => ?_, ?_, rfl⟩
    · have hsame : outputs.filter (bucketOf (numericOf w'.db (.confirmedHeight w'.parentKeyId)) m · =
            some .spendable) = (outputsOf w'.db).filter fun out => out.rootKeyId = parentKeyId ∧
          out.eligibleToSpend (numericOf w'.db (.confirmedHeight w'.parentKeyId)) m = true := by
        rw [List.filter_filter]
        refine List.filter_congr fun o ho => ?_
        by_cases hroot : o.rootKeyId = parentKeyId
        · have hmem : o ∈ outputs := List.mem_filter.2 ⟨ho, by simpa using hroot⟩
          simp [hroot, eligibleToSpend_iff hm (hlock o hmem)]
        · simp [hroot]
      show value _ = value _
      rw [hsame]
      exact (value_perm (List.perm_insertionSort _ _)).symm
    · exact ⟨_, _, _, _, buckets_subperm _ m outputs, rfl, rfl, rfl, rfl⟩
  · intro hfits
    exact ⟨_, retrieveInfo_ok.2 ⟨rfl, fits_of_value hfits,
      Nat.lt_of_le_of_lt (value_sublist List.filter_sublist) hfits, rfl⟩⟩

/-- Three coins are shown with their value. -/
theorem retrieveInfo_shows_purse : ∃ info,
    retrieveInfo defaultPath 1 (purse [3, 9, 20]) = (.ok info, purse [3, 9, 20]) ∧ info.total = 32 := by
  have hvalue : value ((outputsOf (purse [3, 9, 20]).db).filter (·.rootKeyId = defaultPath)) < u64Size := by
    decide
  obtain ⟨info, hrun⟩ := (retrieveInfo_shows defaultPath (by decide : 1 ≤ 1) (purse [3, 9, 20])).2 hvalue
  have hshown := (retrieveInfo_shows defaultPath (by decide : 1 ≤ 1) (purse [3, 9, 20])).1 info _ hrun
  refine ⟨info, hrun, hshown.2.2.2.2.trans ?_⟩
  decide

/-! ## Pages -/

section
variable {α : Type}

/-- The part of a list that is a page. -/
def page (limit offset : Option Nat) (l : List α) : List α :=
  limit.elim (l.drop (offset.getD 0)) fun n => (l.drop (offset.getD 0)).take n

/-- The page is found without a fault: without a limit the offset is within the list, and with one they add
up. -/
def PageFits (limit offset : Option Nat) (length : Nat) : Prop :=
  limit.elim (offset.getD 0 ≤ length) fun n => offset.getD 0 + n < u64Size

theorem paginate_of_fits {limit offset : Option Nat} {l : List α} (h : PageFits limit offset l.length)
    (w : Wallet) : paginate limit offset l w = (.ok (page limit offset l), w) := by
  unfold paginate
  cases limit with
  | none =>
    have hstart : offset.getD 0 ≤ l.length := h
    refine (Prog.bind_of_ok (Prog.pure_apply l.length w)).trans ?_
    refine (Prog.bind_of_ok (subU64_ok.2 ⟨rfl, hstart, rfl⟩)).trans ?_
    rw [List.take_of_length_le (by rw [List.length_drop])]
    rfl
  | some n =>
    have hsum : offset.getD 0 + n < u64Size := h
    refine (Prog.bind_of_ok (addU64_ok.2 ⟨rfl, hsum, rfl⟩)).trans ?_
    refine (Prog.bind_of_ok (subU64_ok.2 ⟨rfl, Nat.le_add_right _ _, rfl⟩)).trans ?_
    rw [Nat.add_sub_cancel_left]
    rfl

theorem paginate_of_not_fits {limit offset : Option Nat} {l : List α}
    (h : ¬PageFits limit offset l.length) (w : Wallet) :
    paginate limit offset l w = (.error .panic, w) := by
  unfold paginate
  cases limit with
  | none =>
    have hstart : ¬offset.getD 0 ≤ l.length := h
    have hsub : subU64 l.length (offset.getD 0) w = (.error .panic, w) := by
      unfold subU64
      rw [if_neg hstart]
      rfl
    refine (Prog.bind_of_ok (Prog.pure_apply l.length w)).trans ?_
    exact Prog.bind_of_error hsub
  | some n =>
    have hsum : ¬offset.getD 0 + n < u64Size := h
    have hadd : addU64 (offset.getD 0) n w = (.error .panic, w) := by
      unfold addU64
      rw [if_neg hsum]
      rfl
    exact Prog.bind_of_error hadd

/-- The pages of `n` from the start on are the start of the list. -/
theorem flatMap_page (n : Nat) (l : List α) (k : Nat) :
    (List.range k).flatMap (fun i => page (some n) (some (i * n)) l) = l.take (k * n) := by
  induction k with
  | zero => simp
  | succ k ih =>
    rw [List.range_succ, List.flatMap_append, ih, List.flatMap_singleton, Nat.succ_mul, List.take_add]
    rfl

/-- The order that is asked for; anything but "asc" is descending. -/
def InOrder (sortOrder : Option String) (key : α → Int) (l : List α) : Prop :=
  l.Pairwise fun a b => if sortOrder.getD "asc" = "asc" then key a ≤ key b else key b ≤ key a

theorem sortBy_inOrder (sortOrder : Option String) (key : α → Int) (l : List α) :
    InOrder sortOrder key (sortBy sortOrder key l) ∧ (sortBy sortOrder key l).Perm l := by
  unfold InOrder sortBy
  split
  · rename_i hasc
    simp only [hasc]
    have : Std.Total fun a b : α => key a ≤ key b := ⟨fun a b => Int.le_total _ _⟩
    have : IsTrans α fun a b => key a ≤ key b := ⟨fun a b c => Int.le_trans⟩
    exact ⟨List.pairwise_insertionSort _ l, List.perm_insertionSort _ l⟩
  · simp only
    have : Std.Total fun a b : α => key b ≤ key a := ⟨fun a b => Int.le_total _ _⟩
    have : IsTrans α fun a b => key b ≤ key a := ⟨fun a b c h h' => Int.le_trans h' h⟩
    exact ⟨List.pairwise_insertionSort _ l, List.perm_insertionSort _ l⟩

end

/-- A page of the log or of the outputs is the part of the filtered and sorted list that was asked for,
exactly if the numbers of the page fit; and the pages make up the list. -/
theorem retrieve_pages (W : World) (limit offset : Option Nat) (sortOrder : Option String) (w : Wallet) :
    (∀ txId txSlateId parentKeyId outstandingOnly,
      let selected := selectedTxs w.db txId txSlateId parentKeyId outstandingOnly
      let l := sortBy sortOrder (fun t => t.creationTs.nanos) selected
      InOrder sortOrder (fun t => t.creationTs.nanos) l ∧ l.Perm selected ∧
      (retrieveTxs txId txSlateId parentKeyId outstandingOnly limit offset sortOrder w =
          (.ok ((page limit offset l).length, l.length, page limit offset l), w) ↔
        PageFits limit offset l.length)) ∧
    (∀ mask showSpent showFullHistory txId parentKeyId,
      let selected := selectedOutputs w.db showSpent showFullHistory txId parentKeyId
      let l := sortBy sortOrder (fun out => out.height) selected
      let run := retrieveOutputs W mask showSpent showFullHistory txId parentKeyId limit offset sortOrder w
      InOrder sortOrder (fun out => out.height) l ∧ l.Perm selected ∧
      (∀ k res, keychain W mask w = (.ok k, w) → mapCommits W k (page limit offset l) w = (.ok res, w) →
        res.map Prod.fst = page limit offset l ∧
        (run = (.ok ((page limit offset l).length, l.length, res), w) ↔ PageFits limit offset l.length)) ∧
      (¬PageFits limit offset l.length → run = (.error .panic, w))) ∧
    ∀ (α : Type) (n : Nat) (l : List α), 0 < n →
      (List.range (l.length / n + 1)).flatMap (fun i => page (some n) (some (i * n)) l) = l := by
  refine ⟨fun txId txSlateId parentKeyId outstandingOnly => ?_,
    fun mask showSpent showFullHistory txId parentKeyId => ?_, fun α n l hn => ?_⟩
  · intro selected l
    refine ⟨(sortBy_inOrder _ _ _).1, (sortBy_inOrder _ _ _).2, ?_⟩
    unfold retrieveTxs
    rw [Prog.bind_of_ok (rows_apply w)]
    constructor
    · intro hrun
      by_contra hfits
      rw [Prog.bind_of_error (paginate_of_not_fits hfits w)] at hrun
      cases hrun
    · intro hfits
      exact Prog.bind_of_ok (paginate_of_fits hfits w)
  · intro selected l run
    have hpanic : ¬PageFits limit offset l.length → run = (.error .panic, w) := fun hfits =>
      (Prog.bind_of_ok (rows_apply w)).trans (Prog.bind_of_error (paginate_of_not_fits hfits w))
    refine ⟨(sortBy_inOrder _ _ _).1, (sortBy_inOrder _ _ _).2, fun k res hk hres => ?_, hpanic⟩
    refine ⟨mapCommits_fst W hres, fun hrun => ?_, fun hfits => ?_⟩
    · by_contra hfits
      rw [hpanic hfits] at hrun
      cases hrun
    · refine (Prog.bind_of_ok (rows_apply w)).trans ?_
      refine (Prog.bind_of_ok (paginate_of_fits hfits w)).trans ?_
      exact (Prog.bind_of_ok hk).trans (Prog.bind_of_ok hres)
  · rw [flatMap_page]
    have hlt := Nat.lt_div_mul_add hn (a := l.length)
    exact List.take_of_length_le (by rw [Nat.succ_mul]; omega)

/-- Past the end of a list an offset without a limit is no empty page. -/
theorem retrieve_beyond :
    ¬(retrieveTxs none none none false none (some 1) none (purse []) =
      (.ok (0, 0, page none (some 1) []), purse [])) ∧
    ¬(retrieveOutputs World.small none true false none none none (some 4) none (purse [3, 9, 20]) =
      (.ok (0, 3, []), purse [3, 9, 20])) := by
  have hlog : (retrieveTxs none none none false none (some 1) none (purse [])).1.toOption.isNone := by
    decide
  have houtputs : (retrieveOutputs World.small none true false none none none (some 4) none
      (purse [3, 9, 20])).1.toOption.isNone := by
    decide
  refine ⟨fun h => ?_, fun h => ?_⟩
  · rw [h] at hlog
    cases hlog
  · rw [h] at houtputs
    cases houtputs

end Updater

end EpicWallet
