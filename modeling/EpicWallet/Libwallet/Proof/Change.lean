import EpicWallet.Libwallet.Proof.ChildIndex
import EpicWallet.Libwallet.Proof.CoinSelection

/-!
# The change of a send

What `inputs_and_change` returns (`inputsAndChange_ok`) and when it panics (`inputsAndChange_runs_iff`).
The change is split into parts of equal size and the remainder is added to the last; but the remainder is
taken of the division by the size of a part, so some change is lost where that is too small
(`conserves_iff`).
-/

namespace EpicWallet

open Lib WalletBackend

/-! ## Fresh keys -/

/-- The next `n` child keys of the account can be derived. -/
structure Derivable (W : World) (mask : Option SecretKey) (w : Wallet) (n : Nat) : Prop where
  depth : w.parentKeyId.depth < 4
  unmask : ∃ k, unmasked W w mask = .ok k
  index : childIndex w.db w.parentKeyId + n < u32Size

theorem exists_child {p : Identifier} (h : p.depth < 4) (n : Nat) : ∃ id, p.child n = some id := by
  obtain ⟨depth, p0, p1, p2, p3⟩ := p
  unfold Identifier.child
  rcases depth with _ | _ | _ | _ | depth
  · exact ⟨_, rfl⟩
  · exact ⟨_, rfl⟩
  · exact ⟨_, rfl⟩
  · exact ⟨_, rfl⟩
  · exact absurd h (by dsimp only; omega)

theorem depth_lt_of_child {p id : Identifier} {n : Nat} (h : p.child n = some id) : p.depth < 4 := by
  obtain ⟨depth, p0, p1, p2, p3⟩ := p
  unfold Identifier.child at h
  rcases depth with _ | _ | _ | _ | depth
  · exact (by decide : 0 < 4)
  · exact (by decide : 1 < 4)
  · exact (by decide : 2 < 4)
  · exact (by decide : 3 < 4)
  · cases h

section
variable {W : World} {mask : Option SecretKey} {w w' : Wallet} {id : Identifier}

theorem nextChild_of_derivable {n : Nat} (h : Derivable W mask w (n + 1)) :
    ∃ id w', nextChild W mask w = (.ok id, w') := by
  obtain ⟨k, hk⟩ := h.unmask
  obtain ⟨id, hid⟩ := exists_child h.depth (childIndex w.db w.parentKeyId)
  have hindex : childIndex w.db w.parentKeyId + 1 < u32Size := by
    have := h.index
    omega
  have hplain : (Serializable.numeric (childIndex w.db w.parentKeyId + 1)).Plain := fun _ hs => by cases hs
  obtain ⟨w', hput⟩ : ∃ w', put (.deriv w.parentKeyId)
      (.numeric (childIndex w.db w.parentKeyId + 1)) w = (.ok (), w') := ⟨_, put_ok.2 ⟨hplain, rfl⟩⟩
  refine ⟨id, w', Prog.bind_ok.2 ⟨w.parentKeyId, w, rfl, ?_⟩⟩
  refine Prog.bind_ok.2 ⟨childIndex w.db w.parentKeyId, w, rfl, ?_⟩
  refine Prog.bind_ok.2 ⟨id, w, Prog.unwrap_eq_ok.2 ⟨hid, rfl⟩, ?_⟩
  refine Prog.bind_ok.2 ⟨_, w, addU32_ok.2 ⟨rfl, hindex, rfl⟩, ?_⟩
  refine Prog.bind_ok.2 ⟨⟨some k⟩, w, (batch_ok W).2 ⟨⟨k, hk, rfl⟩, rfl⟩, ?_⟩
  exact Prog.bind_ok.2 ⟨(), w', hput, rfl⟩

theorem derivable_of_nextChild (h : nextChild W mask w = (.ok id, w')) : Derivable W mask w 1 := by
  obtain ⟨n, hn, hindex, hchild, -⟩ := nextChild_ok W h
  subst hn
  refine ⟨depth_lt_of_child hchild, ?_, hindex⟩
  obtain ⟨_, _, hp, h⟩ := Prog.bind_ok.1 h
  cases hp
  obtain ⟨_, _, hi, h⟩ := Prog.bind_ok.1 h
  cases hi
  obtain ⟨_, _, hc, h⟩ := Prog.bind_ok.1 h
  obtain ⟨-, rfl⟩ := Prog.unwrap_eq_ok.1 hc
  obtain ⟨_, _, ha, h⟩ := Prog.bind_ok.1 h
  obtain ⟨-, -, rfl⟩ := addU32_ok.1 ha
  obtain ⟨_, _, hb, -⟩ := Prog.bind_ok.1 h
  obtain ⟨⟨k, hk, -⟩, -⟩ := (batch_ok W).1 hb
  exact ⟨k, hk⟩

/-- A derived key is one less to derive. -/
theorem derivable_step (h : nextChild W mask w = (.ok id, w')) (n : Nat) :
    Derivable W mask w' n ↔ Derivable W mask w (n + 1) := by
  have hfirst := derivable_of_nextChild h
  have hwrites := (nextChild_writes W (P := fun _ _ => True) (fun _ _ => trivial)).rel h
  have hunmask := unmasked_of_writes W hwrites mask
  obtain ⟨i, hi, hindex, -, hsets⟩ := nextChild_ok W h
  have hnext : childIndex w'.db w'.parentKeyId = childIndex w.db w.parentKeyId + 1 := by
    rw [hwrites.parentKeyId]
    unfold childIndex numericOf
    rw [hsets.get_self]
    show asU32 (i + 1) = _
    rw [show asU32 (i + 1) = i + 1 from Nat.mod_eq_of_lt hindex, hi]
    rfl
  constructor
  · intro hd
    refine ⟨hfirst.depth, hfirst.unmask, ?_⟩
    have := hd.index
    omega
  · intro hd
    refine ⟨hwrites.parentKeyId ▸ hd.depth, hunmask ▸ hd.unmask, ?_⟩
    have := hd.index
    omega

end

/-! ## The parts -/

namespace Selection

section
variable {W : World} {mask : Option SecretKey} {partChange remainderChange n : Nat}

theorem changeAmounts_ok {xs : List Nat} {l : List (Nat × Identifier × Option Nat)} {w w' : Wallet}
    (h : changeAmounts W mask partChange remainderChange n xs w = (.ok l, w')) :
    l.map Prod.fst = xs.map fun x => if x = n - 1 then partChange + remainderChange else partChange := by
  induction xs generalizing l w with
  | nil =>
    cases h
    rfl
  | cons x xs ih =>
    obtain ⟨changeAmount, w₁, hamount, h⟩ := Prog.bind_ok.1 h
    obtain ⟨changeKey, w₂, -, h⟩ := Prog.bind_ok.1 h
    obtain ⟨rest, w₃, hrest, h⟩ := Prog.bind_ok.1 h
    cases h
    rw [List.map_cons, List.map_cons, ih hrest]
    congr 1
    by_cases hx : x = n - 1
    · rw [if_pos hx] at hamount ⊢
      exact (addU64_ok.1 hamount).1
    · rw [if_neg hx] at hamount ⊢
      cases hamount
      rfl

/-- The amounts are derived exactly if there are keys for all of them. -/
theorem changeAmounts_runs_iff (hsum : partChange + remainderChange < u64Size) {xs : List Nat}
    {w : Wallet} :
    (∃ l w', changeAmounts W mask partChange remainderChange n xs w = (.ok l, w')) ↔
      xs = [] ∨ Derivable W mask w xs.length := by
  induction xs generalizing w with
  | nil => exact ⟨fun _ => .inl rfl, fun _ => ⟨[], w, rfl⟩⟩
  | cons x xs ih =>
    have hamount : ∃ a, (if x = n - 1 then addU64 partChange remainderChange else pure partChange) w =
        (.ok a, w) := by
      by_cases hx : x = n - 1
      · rw [if_pos hx]
        exact ⟨_, addU64_ok.2 ⟨rfl, hsum, rfl⟩⟩
      · rw [if_neg hx]
        exact ⟨_, rfl⟩
    obtain ⟨a, hamount⟩ := hamount
    constructor
    · rintro ⟨l, w', h⟩
      right
      obtain ⟨_, w₁, ha, h⟩ := Prog.bind_ok.1 h
      cases hamount.symm.trans ha
      obtain ⟨_, w₂, hkey, h⟩ := Prog.bind_ok.1 h
      obtain ⟨_, w₃, hrest, -⟩ := Prog.bind_ok.1 h
      have hchild := Prog.orPanic_eq_ok.1 hkey
      rcases ih.1 ⟨_, _, hrest⟩ with rfl | hd
      · exact derivable_of_nextChild hchild
      · exact (derivable_step hchild _).1 hd
    · rintro (h | h)
      · cases h
      · obtain ⟨id, w₁, hchild⟩ := nextChild_of_derivable h
        obtain ⟨rest, w₂, hrest⟩ := ih.2 (.inr ((derivable_step hchild _).2 h))
        refine ⟨(a, id, none) :: rest, w₂, Prog.bind_ok.2 ⟨a, w, hamount, ?_⟩⟩
        refine Prog.bind_ok.2 ⟨id, w₁, Prog.orPanic_eq_ok.2 hchild, ?_⟩
        exact Prog.bind_ok.2 ⟨rest, w₂, hrest, rfl⟩

theorem changeAmounts_errless (xs : List Nat) :
    Prog.Errless (changeAmounts W mask partChange remainderChange n xs) := by
  induction xs with
  | nil => exact .pure _
  | cons x xs ih =>
    exact Prog.Errless.bind (.ite (addU64_errless _ _) (.pure _)) fun _ =>
      (Prog.Errless.orPanic _).bind fun _ => ih.bind fun _ => .pure _

end

/-! ## `inputs_and_change` -/

section
variable {W : World} {mask : Option SecretKey} {coins : List OutputData} {amount fee n : Nat}

/-- The sizes of the parts of the change `c`. -/
def shares (c n : Nat) : List Nat :=
  (List.range n).map fun x => if x = n - 1 then c / n + c % (c / n) else c / n

theorem sum_shares {c n : Nat} (hn : 0 < n) : (shares c n).sum = n * (c / n) + c % (c / n) := by
  obtain ⟨m, rfl⟩ := Nat.exists_eq_succ_of_ne_zero hn.ne'
  have hfirst : ∀ x ∈ List.range m, (if x = m + 1 - 1 then c / (m + 1) + c % (c / (m + 1)) else
      c / (m + 1)) = c / (m + 1) := fun x hx => if_neg (List.mem_range.1 hx).ne
  unfold shares
  rw [List.range_succ, List.map_append, List.map_congr_left hfirst, List.sum_append, List.map_const',
    List.length_range, List.sum_replicate, List.map_singleton, List.sum_singleton,
    if_pos (Nat.add_sub_cancel m 1).symm, Nat.succ_mul, Nat.add_assoc]
  rfl

/-- Nothing is lost of the change, exactly if what the division leaves is less than a part. -/
theorem sum_shares_eq_iff {c n : Nat} (hpart : 0 < c / n) : (shares c n).sum = c ↔ c % n < c / n := by
  have hn : 0 < n := Nat.pos_of_ne_zero fun hzero => by
    rw [hzero, Nat.div_zero] at hpart
    exact Nat.lt_irrefl 0 hpart
  have hdiv : n * (c / n) + c % n = c := Nat.div_add_mod c n
  -- the remainder by the size of a part is the remainder of what the division leaves
  have hmod : (n * (c / n) + c % n) % (c / n) = c % n % (c / n) := Nat.mul_add_mod_self_right ..
  rw [hdiv] at hmod
  rw [sum_shares hn]
  constructor
  · intro hsum
    have hless : c % (c / n) < c / n := Nat.mod_lt _ hpart
    omega
  · intro hless
    rw [hmod, Nat.mod_eq_of_lt hless]
    exact hdiv

theorem share_pos {c n a : Nat} (hpart : 0 < c / n) (h : a ∈ shares c n) : 0 < a := by
  obtain ⟨x, -, rfl⟩ := List.mem_map.1 h
  split_ifs
  · omega
  · exact hpart

/-- The last part is no larger than the change. -/
theorem part_add_rem_lt {c n : Nat} (hpart : 0 < c / n) (hc : c < u64Size) :
    c / n + c % (c / n) < u64Size := by
  have hdiv := Nat.div_add_mod c (c / n)
  have hone : 1 ≤ c / (c / n) := Nat.div_pos (Nat.div_le_self _ _) hpart
  have hmul : c / n * 1 ≤ c / n * (c / (c / n)) := Nat.mul_le_mul_left _ hone
  omega

theorem sumU64_ok {total : Nat} {w w' : Wallet}
    (h : sumU64 (coins.map (·.value)) w = (.ok total, w')) :
    total = value coins ∧ value coins < u64Size ∧ w' = w := by
  rw [sumU64_apply] at h
  by_cases hvalue : value coins < u64Size
  · rw [if_pos hvalue] at h
    cases h
    exact ⟨rfl, hvalue, rfl⟩
  · rw [if_neg hvalue] at h
    cases h

/-- What `inputs_and_change` returns. -/
theorem inputsAndChange_ok {parts : List Append} {amounts : List (Nat × Identifier × Option Nat)}
    {w w' : Wallet} (h : inputsAndChange W coins mask amount fee n w = (.ok (parts, amounts), w')) :
    amount + fee ≤ value coins ∧ (value coins = amount + fee ∧ amounts = [] ∨
      0 < (value coins - amount - fee) / n ∧
        amounts.map Prod.fst = shares (value coins - amount - fee) n) := by
  obtain ⟨total, w₁, htotal, h₁⟩ := Prog.bind_ok.1 h
  obtain ⟨rfl, -, rfl⟩ := sumU64_ok htotal
  obtain ⟨rest, w₂, hsub, h₂⟩ := Prog.bind_ok.1 h₁
  obtain ⟨rfl, hamount, rfl⟩ := subU64_ok.1 hsub
  obtain ⟨change, w₃, hsub', h₃⟩ := Prog.bind_ok.1 h₂
  obtain ⟨rfl, hfee, rfl⟩ := subU64_ok.1 hsub'
  refine ⟨by omega, ?_⟩
  dsimp only at h₃
  split_ifs at h₃ with hzero hparts
  · cases h₃
    exact .inl ⟨by omega, rfl⟩
  · cases h₃
  · obtain ⟨l, w₄, hl, h₄⟩ := Prog.bind_ok.1 h₃
    cases h₄
    exact .inr ⟨Nat.pos_of_ne_zero fun hcon => hparts (.inr hcon), changeAmounts_ok hl⟩

/-- When `inputs_and_change` returns. -/
theorem inputsAndChange_runs_iff {w : Wallet} :
    (∃ r w', inputsAndChange W coins mask amount fee n w = (.ok r, w')) ↔
      value coins < u64Size ∧ amount + fee ≤ value coins ∧ (value coins = amount + fee ∨
        0 < n ∧ n ≤ value coins - amount - fee ∧ Derivable W mask w n) := by
  constructor
  · rintro ⟨r, w', h⟩
    obtain ⟨total, w₁, htotal, h₁⟩ := Prog.bind_ok.1 h
    obtain ⟨rfl, hvalue, rfl⟩ := sumU64_ok htotal
    obtain ⟨rest, w₂, hsub, h₂⟩ := Prog.bind_ok.1 h₁
    obtain ⟨rfl, hamount, rfl⟩ := subU64_ok.1 hsub
    obtain ⟨change, w₃, hsub', h₃⟩ := Prog.bind_ok.1 h₂
    obtain ⟨rfl, hfee, rfl⟩ := subU64_ok.1 hsub'
    refine ⟨hvalue, by omega, ?_⟩
    dsimp only at h₃
    split_ifs at h₃ with hzero hparts
    · exact .inl (by omega)
    · cases h₃
    · right
      obtain ⟨hn, hpart⟩ := not_or.1 hparts
      obtain ⟨l, w₄, hl, -⟩ := Prog.bind_ok.1 h₃
      have hsum := part_add_rem_lt (Nat.pos_of_ne_zero hpart) (Nat.lt_of_le_of_lt (by omega) hvalue)
      refine ⟨Nat.pos_of_ne_zero hn, Nat.not_lt.1 fun hless => hpart (Nat.div_eq_of_lt hless), ?_⟩
      rcases (changeAmounts_runs_iff hsum).1 ⟨l, w₄, hl⟩ with hnil | hd
      · exact absurd (List.range_eq_nil.1 hnil) hn
      · rwa [List.length_range] at hd
  · rintro ⟨hvalue, hcovers, hrest⟩
    have htotal : sumU64 (coins.map (·.value)) w = (.ok (value coins), w) := by
      rw [sumU64_apply, if_pos hvalue]
    suffices hbody : ∃ r w', (if value coins - amount - fee = 0 then pure (coins.map inputPart, [])
        else if n = 0 ∨ (value coins - amount - fee) / n = 0 then Prog.panic
        else changeAmounts W mask ((value coins - amount - fee) / n)
            ((value coins - amount - fee) % ((value coins - amount - fee) / n)) n (List.range n) >>=
          fun amounts => pure (coins.map inputPart ++ amounts.map fun a => Append.output a.1 a.2.1, amounts))
        w = (.ok r, w') by
      obtain ⟨r, w', hbody⟩ := hbody
      refine ⟨r, w', Prog.bind_ok.2 ⟨_, w, htotal, ?_⟩⟩
      refine Prog.bind_ok.2 ⟨_, w, subU64_ok.2 ⟨rfl, by omega, rfl⟩, ?_⟩
      exact Prog.bind_ok.2 ⟨_, w, subU64_ok.2 ⟨rfl, by omega, rfl⟩, hbody⟩
    rcases hrest with hexact | ⟨hn, hmany, hd⟩
    · rw [if_pos (by omega)]
      exact ⟨_, _, rfl⟩
    · have hpart : 0 < (value coins - amount - fee) / n := Nat.div_pos hmany hn
      have hsum := part_add_rem_lt hpart (Nat.lt_of_le_of_lt (by omega) hvalue)
      have hkeys : List.range n = [] ∨ Derivable W mask w (List.range n).length :=
        .inr (by rwa [List.length_range])
      obtain ⟨l, w', hl⟩ := (changeAmounts_runs_iff hsum).2 hkeys
      rw [if_neg (by omega), if_neg (not_or.2 ⟨hn.ne', hpart.ne'⟩)]
      exact ⟨_, w', Prog.bind_ok.2 ⟨l, w', hl, rfl⟩⟩

theorem inputsAndChange_errless : Prog.Errless (inputsAndChange W coins mask amount fee n) :=
  (sumU64_errless _).bind fun _ => (subU64_errless _ _).bind fun _ => (subU64_errless _ _).bind fun _ =>
    .ite (.pure _) (.ite .panic ((changeAmounts_errless _).bind fun _ => .pure _))

end

/-! ## What the change is worth -/

/-- The change outputs hold what the coins are worth besides the amount and the fee. -/
structure Conserves (coins : List OutputData) (amount fee n : Nat)
    (amounts : List (Nat × Identifier × Option Nat)) : Prop where
  sum : (amounts.map Prod.fst).sum + amount + fee = value coins
  positive : ∀ a ∈ amounts, 0 < a.1
  count : amounts.length = if value coins = amount + fee then 0 else n

/-- The change conserves the value, exactly if there is none or what its division leaves is less than a
part. -/
theorem conserves_iff {W : World} {mask : Option SecretKey} {coins : List OutputData} {amount fee n : Nat}
    {w : Wallet} {parts : List Append} {amounts : List (Nat × Identifier × Option Nat)}
    (h : (inputsAndChange W coins mask amount fee n w).1 = .ok (parts, amounts)) :
    Conserves coins amount fee n amounts ↔ value coins = amount + fee ∨
      (value coins - amount - fee) % n < (value coins - amount - fee) / n := by
  obtain ⟨hcovers, ⟨hexact, rfl⟩ | ⟨hpart, hamounts⟩⟩ := inputsAndChange_ok (Prod.ext h rfl)
  · refine ⟨fun _ => .inl hexact, fun _ => ⟨?_, fun _ ha => absurd ha List.not_mem_nil, (if_pos hexact).symm⟩⟩
    rw [List.map_nil, List.sum_nil]
    omega
  · have hchange : value coins ≠ amount + fee := fun hexact => by
      rw [show value coins - amount - fee = 0 by omega, Nat.zero_div] at hpart
      exact Nat.lt_irrefl 0 hpart
    have hsum := sum_shares_eq_iff hpart
    constructor
    · intro hconserves
      right
      have hall := hconserves.sum
      rw [hamounts] at hall
      exact hsum.1 (by omega)
    · intro hor
      have hless := hsum.2 (hor.resolve_left hchange)
      refine ⟨?_, fun a ha => ?_, ?_⟩
      · rw [hamounts]
        omega
      · exact share_pos hpart (hamounts ▸ List.mem_map_of_mem ha)
      · rw [if_neg hchange, ← List.length_map Prod.fst, hamounts]
        unfold shares
        rw [List.length_map, List.length_range]

/-- A change of 16 is split into two outputs of 8. -/
theorem conserves_sixteen :
    Conserves [coin 0 32] 10 6 2 [(8, ⟨3, 0, 0, 0, 0⟩, none), (8, ⟨3, 0, 0, 1, 0⟩, none)] :=
  (conserves_iff (by decide :
    (inputsAndChange World.small [coin 0 32] none 10 6 2 (purse [])).1 =
      .ok ([.input 32 ⟨3, 0, 0, 0, 0⟩, .output 8 ⟨3, 0, 0, 0, 0⟩, .output 8 ⟨3, 0, 0, 1, 0⟩],
        [(8, ⟨3, 0, 0, 0, 0⟩, none), (8, ⟨3, 0, 0, 1, 0⟩, none)]))).2 (.inr (by decide))

/-- Of a change of 11 in four outputs two are lost: they are 2, 2, 2 and 3. -/
theorem not_conserves :
    ¬∀ (W : World) (mask : Option SecretKey) (coins : List OutputData) (amount fee n : Nat) (w : Wallet)
      (parts : List Append) (amounts : List (Nat × Identifier × Option Nat)),
      amount + fee ≤ value coins → 1 ≤ n →
      (inputsAndChange W coins mask amount fee n w).1 = .ok (parts, amounts) →
      Conserves coins amount fee n amounts := by
  intro h
  have hconserves := h World.small none [coin 0 31] 15 5 4 (purse [])
    [.input 31 ⟨3, 0, 0, 0, 0⟩, .output 2 ⟨3, 0, 0, 0, 0⟩, .output 2 ⟨3, 0, 0, 1, 0⟩,
      .output 2 ⟨3, 0, 0, 2, 0⟩, .output 3 ⟨3, 0, 0, 3, 0⟩]
    [(2, ⟨3, 0, 0, 0, 0⟩, none), (2, ⟨3, 0, 0, 1, 0⟩, none), (2, ⟨3, 0, 0, 2, 0⟩, none),
      (3, ⟨3, 0, 0, 3, 0⟩, none)] (by decide) (by decide) (by decide)
  exact absurd hconserves.sum (by decide)

/-! ## Faults -/

/-- `select_coins` has a window to look through, and the first outputs that suffice do not overflow. -/
def WindowsFit (amount maxOutputs : Nat) (selectAll : Bool) (eligible : List OutputData) : Prop :=
  (maxOutputs = 0 → eligible = []) ∧
    ∀ c, covering amount maxOutputs selectAll eligible = some c → value c.1 < u64Size

/-- What is added up from the first selection on fits into 64 bits: the amount and its fee, and all
eligible outputs where it selects again. -/
def FeesFit (W : World) (amount changeOutputs : Nat) (eligible first : List OutputData) : Prop :=
  amount + W.txFee first.length 1 1 < u64Size ∧
    (value first ≠ 0 →
      ¬(value first < amount + W.txFee first.length 1 1 ∧ first.length = eligible.length) →
      value first ≠ amount + W.txFee first.length 1 1 →
      amount + W.txFee first.length (changeOutputs + 1) 1 < u64Size ∧
        (Retries W amount (changeOutputs + 1) eligible first → value eligible < u64Size))

/-- The change can be divided and has keys, where there is any. -/
def ChangeFits (W : World) (mask : Option SecretKey) (coins : List OutputData) (amount fee n : Nat)
    (w : Wallet) : Prop :=
  value coins < u64Size ∧ amount + fee ≤ value coins ∧ (value coins = amount + fee ∨
    0 < n ∧ n ≤ value coins - amount - fee ∧ Derivable W mask w n)

theorem chosen_ne_none_iff {amount maxOutputs : Nat} {selectAll : Bool} {eligible : List OutputData} :
    (∃ first, chosen amount maxOutputs selectAll eligible = some first) ↔
      WindowsFit amount maxOutputs selectAll eligible := by
  unfold chosen WindowsFit
  by_cases hzero : maxOutputs = 0 ∧ eligible ≠ []
  · rw [if_pos hzero]
    exact ⟨fun ⟨_, h⟩ => (by cases h), fun h => absurd (h.1 hzero.1) hzero.2⟩
  · rw [if_neg hzero]
    have hwindow : maxOutputs = 0 → eligible = [] := fun h => by_contra fun hne => hzero ⟨h, hne⟩
    rcases hcovering : covering amount maxOutputs selectAll eligible with _ | c
    · exact ⟨fun _ => ⟨hwindow, fun _ hc => by cases hc⟩, fun _ => ⟨_, rfl⟩⟩
    · show (∃ first, taken amount c = some first) ↔ _
      unfold taken
      by_cases hvalue : value c.1 < u64Size
      · rw [if_pos hvalue]
        exact ⟨fun _ => ⟨hwindow, fun _ hc => Option.some.inj hc ▸ hvalue⟩, fun _ => ⟨_, rfl⟩⟩
      · rw [if_neg hvalue]
        exact ⟨fun ⟨_, h⟩ => (by cases h), fun h => absurd (h.2 c rfl) hvalue⟩

section
variable {W : World} {amount currentHeight minimumConfirmations maxOutputs changeOutputs : Nat}
  {selectAll : Bool} {parentKeyId : Identifier} {w : Wallet} {eligible first : List OutputData}
  (he : eligibleOutputs w.db currentHeight minimumConfirmations parentKeyId = eligible)

include he

theorem selectCoins_runs_iff (ha : amount < u64Size) :
    (selectCoins amount currentHeight minimumConfirmations maxOutputs selectAll parentKeyId w).1 ≠
        .error .panic ↔ WindowsFit amount maxOutputs selectAll eligible := by
  rw [selectCoins_apply ha, he, ← chosen_ne_none_iff]
  rcases chosen amount maxOutputs selectAll eligible with _ | first
  · exact ⟨fun h => absurd rfl h, fun ⟨_, h⟩ => by cases h⟩
  · exact ⟨fun _ => ⟨first, rfl⟩, fun _ => nofun⟩

/-- With two rounds the loop answers, where nothing overflows. -/
theorem selectMore_runs_iff (hfee : ∀ i i' o, i ≤ i' → W.txFee i' o 1 ≤ W.txFee i o 1)
    (hordered : Ordered.By (·.value) eligible)
    (hfirst : chosen amount maxOutputs selectAll eligible = some first)
    (hneeded : needed W amount (changeOutputs + 1) first < u64Size) {rounds : Nat} (hrounds : 2 ≤ rounds) :
    (selectMore W amount currentHeight minimumConfirmations eligible.length (changeOutputs + 1) selectAll
        parentKeyId rounds first (value first) (needed W amount (changeOutputs + 1) first)
        (W.txFee first.length (changeOutputs + 1) 1) w).1 ≠ .error .panic ↔
      (Retries W amount (changeOutputs + 1) eligible first → value eligible < u64Size) := by
  have hends {coins : List OutputData} (h : ¬Retries W amount (changeOutputs + 1) eligible coins) (r : Nat) :
      (selectMore W amount currentHeight minimumConfirmations eligible.length (changeOutputs + 1) selectAll
        parentKeyId (r + 1) coins (value coins) (needed W amount (changeOutputs + 1) coins)
        (W.txFee coins.length (changeOutputs + 1) 1) w).1 ≠ .error .panic := by
    rw [selectMore_of_ends h r]
    dsimp only
    split_ifs <;> nofun
  rw [← fits_iff hfee hordered hfirst hneeded]
  constructor
  · intro hrun
    by_contra hfits
    exact hrun (congrArg Prod.fst (selectMore_of_not_fits he hneeded hfits rounds))
  · intro hfits
    obtain ⟨r, rfl⟩ : ∃ r, rounds = r + 2 := ⟨rounds - 2, by omega⟩
    by_cases hretries : Retries W amount (changeOutputs + 1) eligible first
    · obtain ⟨-, hvalue, hrest⟩ := (fits_of_retries hretries).1 hfits
      rw [selectMore_of_retries he hretries hneeded, if_pos ⟨hvalue, (hrest _ .here).1⟩]
      exact hends (not_retries_reselect hfee hordered hfirst) r
    · exact hends hretries (r + 1)

theorem selectCoinsAndFee_runs_iff (hfee : ∀ i i' o, i ≤ i' → W.txFee i' o 1 ≤ W.txFee i o 1)
    (ha : amount < u64Size) (hpatience : 2 ≤ W.patience)
    (hfirst : chosen amount maxOutputs selectAll eligible = some first) :
    (selectCoinsAndFee W amount currentHeight minimumConfirmations maxOutputs changeOutputs selectAll
        parentKeyId w).1 ≠ .error .panic ↔ FeesFit W amount changeOutputs eligible first := by
  have hordered : Ordered.By (·.value) eligible := he ▸ ordered_eligibleOutputs ..
  rw [selectCoinsAndFee_of_chosen he ha hfirst]
  show _ ↔ needed W amount 1 first < u64Size ∧ (value first ≠ 0 →
    ¬(value first < needed W amount 1 first ∧ first.length = eligible.length) →
    value first ≠ needed W amount 1 first → needed W amount (changeOutputs + 1) first < u64Size ∧ _)
  split_ifs with hneeded hzero hall hexact hmore
  · exact ⟨fun _ => ⟨hneeded, fun h => absurd hzero h⟩, fun _ => nofun⟩
  · exact ⟨fun _ => ⟨hneeded, fun _ h => absurd hall h⟩, fun _ => nofun⟩
  · exact ⟨fun _ => ⟨hneeded, fun _ _ h => absurd hexact h⟩, fun _ => nofun⟩
  · have hloop := selectMore_runs_iff he hfee hordered hfirst hmore hpatience
    rcases hrun : selectMore W amount currentHeight minimumConfirmations eligible.length (changeOutputs + 1)
      selectAll parentKeyId W.patience first (value first) (needed W amount (changeOutputs + 1) first)
      (W.txFee first.length (changeOutputs + 1) 1) w with ⟨f | r, w'⟩
    · rw [hrun] at hloop
      rw [Prog.bind_of_error hrun]
      have hsame : (Except.error f : Except (Fault Error) (List OutputData × Nat × Nat × Nat)) ≠
          .error .panic ↔ (Except.error f : Except (Fault Error) (List OutputData × Nat × Nat)) ≠
          .error .panic := by
        simp
      rw [hsame, hloop]
      exact ⟨fun h => ⟨hneeded, fun _ _ _ => ⟨hmore, h⟩⟩, fun h => (h.2 hzero hall hexact).2⟩
    · rw [hrun] at hloop
      rw [Prog.bind_of_ok hrun]
      exact ⟨fun _ => ⟨hneeded, fun _ _ _ => ⟨hmore, hloop.1 nofun⟩⟩, fun _ => nofun⟩
  · exact ⟨fun h => absurd rfl h, fun h => absurd (h.2 hzero hall hexact).1 hmore⟩
  · exact ⟨fun h => absurd rfl h, fun h => absurd h.1 hneeded⟩

end

end Selection

end EpicWallet
