import EpicWallet.Lib.Bits
import EpicWallet.Libwallet.Crypto

/-!
# What `from_hex` reads

`fromHex_toHex`: bytes that were written are read back, unless there are none. `fromHex_exact`: which texts
are read as an optional `0x` and pairs of digits.
-/

namespace EpicWallet

open Lib

/-! ## Slices of a text of one-byte characters -/

theorem byteLen_ascii {s : List Char} (h : ∀ c ∈ s, c.utf8Size = 1) : byteLen s = s.length := by
  unfold byteLen
  induction s with
  | nil => rfl
  | cons c s ih =>
    rw [List.map_cons, List.sum_cons, h c List.mem_cons_self, ih fun d hd => h d (List.mem_cons_of_mem c hd),
      List.length_cons]
    omega

theorem splitAtByte_ascii {s : List Char} (h : ∀ c ∈ s, c.utf8Size = 1) {n : Nat} (hn : n ≤ s.length) :
    splitAtByte n s = some (s.take n, s.drop n) := by
  induction s generalizing n with
  | nil =>
    obtain rfl : n = 0 := Nat.le_zero.1 hn
    simp [splitAtByte]
  | cons c s ih =>
    cases n with
    | zero => simp [splitAtByte]
    | succ n =>
      have hc : c.utf8Size = 1 := h c List.mem_cons_self
      have hrest := ih (fun d hd => h d (List.mem_cons_of_mem c hd)) (Nat.le_of_succ_le_succ hn)
      rw [splitAtByte, if_pos (by omega), hc, Nat.add_sub_cancel, hrest]
      rfl

theorem slice_ascii {s : List Char} (h : ∀ c ∈ s, c.utf8Size = 1) {a b : Nat} (hab : a ≤ b)
    (hb : b ≤ s.length) : slice s a b = .ok ((s.take b).drop a) := by
  unfold slice
  have hbefore : ∀ c ∈ s.take b, c.utf8Size = 1 := fun c hc => h c (List.mem_of_mem_take hc)
  rw [if_neg (Nat.not_lt.2 hab), splitAtByte_ascii h hb]
  show (Checked.unwrap (splitAtByte a (s.take b)) >>= fun p => pure p.2) = _
  rw [splitAtByte_ascii hbefore (by rw [List.length_take]; omega)]
  rfl

/-! ## Hexadecimal -/

/-- A digit of a byte: one byte itself, no space, and read back. -/
theorem digitChar_byte {n : Nat} (h : n < 16) :
    (Nat.digitChar n).utf8Size = 1 ∧ isWhitespace (Nat.digitChar n) = false ∧ Nat.digitChar n ≠ 'x' := by
  have hall : ∀ n < 16, (Nat.digitChar n).utf8Size = 1 ∧ isWhitespace (Nat.digitChar n) = false ∧
      Nat.digitChar n ≠ 'x' := by decide
  exact hall n h

theorem readByte_hexDigits {b : Nat} (h : b < 256) : readByte (hexDigits 2 b) = some b := by
  have hall : ∀ b < 256, readByte (hexDigits 2 b) = some b := by decide +kernel
  exact hall b h

theorem mem_toHex {bytes : List Nat} {c : Char} (h : c ∈ toHex bytes) :
    ∃ n < 16, c = Nat.digitChar n := by
  obtain ⟨b, -, hc⟩ := List.mem_flatMap.1 h
  have hdigits : hexDigits 2 b = [Nat.digitChar (b / 16 % 16), Nat.digitChar (b % 16)] := rfl
  rw [hdigits] at hc
  rcases List.mem_cons.1 hc with rfl | hc
  · exact ⟨_, Nat.mod_lt _ (by omega), rfl⟩
  · exact ⟨_, Nat.mod_lt _ (by omega), List.mem_singleton.1 hc⟩

theorem toHex_utf8Size {bytes : List Nat} : ∀ c ∈ toHex bytes, c.utf8Size = 1 := by
  intro c hc
  obtain ⟨n, hn, rfl⟩ := mem_toHex hc
  exact (digitChar_byte hn).1

theorem length_toHex (bytes : List Nat) : (toHex bytes).length = 2 * bytes.length := by
  induction bytes with
  | nil => rfl
  | cons b bytes ih =>
    have hcons : toHex (b :: bytes) = hexDigits 2 b ++ toHex bytes := rfl
    have htwo : (hexDigits 2 b).length = 2 := rfl
    rw [hcons, List.length_append, ih, htwo, List.length_cons]
    omega

/-- The digits of one byte among the others. -/
theorem toHex_part {bytes : List Nat} {i : Nat} (h : i < bytes.length) :
    ((toHex bytes).take (2 * i + 2)).drop (2 * i) = hexDigits 2 bytes[i] := by
  induction bytes generalizing i with
  | nil => cases h
  | cons b bytes ih =>
    have hcons : toHex (b :: bytes) =
      Nat.digitChar (b / 16 % 16) :: Nat.digitChar (b % 16) :: toHex bytes := rfl
    rw [hcons]
    cases i with
    | zero => rfl
    | succ i => exact ih (Nat.lt_of_succ_lt_succ h)

theorem trim_of_none {s : List Char} (h : ∀ c ∈ s, isWhitespace c = false) : trim s = s := by
  have hdrop {l : List Char} (hl : ∀ c ∈ l, isWhitespace c = false) : l.dropWhile isWhitespace = l := by
    cases l with
    | nil => rfl
    | cons c l => rw [List.dropWhile_cons, hl c List.mem_cons_self, if_neg nofun]
  unfold trim
  rw [hdrop h, hdrop fun c hc => h c (List.mem_reverse.1 hc), List.reverse_reverse]

theorem mapM_ok {α β : Type} {f : α → Checked β} {g : α → β} {l : List α} (h : ∀ a ∈ l, f a = .ok (g a)) :
    l.mapM f = .ok (l.map g) := by
  induction l with
  | nil => rfl
  | cons a l ih =>
    rw [List.mapM_cons, h a List.mem_cons_self, ih fun b hb => h b (List.mem_cons_of_mem a hb)]
    rfl

theorem splitPairs_toHex {bytes : List Nat} (h : bytes ≠ []) :
    splitPairs (toHex bytes) = .ok (bytes.map (hexDigits 2)) := by
  have hpos : 0 < bytes.length := List.length_pos_iff.2 h
  have hlen := length_toHex bytes
  unfold splitPairs
  rw [byteLen_ascii toHex_utf8Size, hlen, if_neg (by omega),
    show (2 * bytes.length - 2 + 1) / 2 + 1 = bytes.length by omega]
  have hpart : ∀ i ∈ List.range bytes.length, slice (toHex bytes) (2 * i) (2 * i + 2) =
      .ok (hexDigits 2 (bytes.getD i 0)) := by
    intro i hi
    have hi : i < bytes.length := List.mem_range.1 hi
    rw [slice_ascii toHex_utf8Size (by omega) (by omega), toHex_part hi, List.getD_eq_getElem?_getD,
      List.getElem?_eq_getElem hi]
    rfl
  rw [mapM_ok hpart]
  refine congrArg _ (List.ext_getElem (by simp) fun i hi hi' => ?_)
  simp at hi hi' ⊢
  rw [List.getElem?_eq_getElem hi']
  rfl

theorem fromHex_toHex {bytes : List Nat} (hne : bytes ≠ []) (hbytes : ∀ b ∈ bytes, b < 256) :
    fromHex (toHex bytes) = .ok bytes := by
  have hpos : 0 < bytes.length := List.length_pos_iff.2 hne
  have hlen := length_toHex bytes
  have hhead : (toHex bytes).take 2 ≠ ['0', 'x'] := by
    intro hcon
    have hmem : 'x' ∈ toHex bytes := List.mem_of_mem_take (hcon ▸ by simp : 'x' ∈ (toHex bytes).take 2)
    obtain ⟨n, hn, hx⟩ := mem_toHex hmem
    exact (digitChar_byte hn).2.2 hx.symm
  have hspace : ∀ c ∈ toHex bytes, isWhitespace c = false := by
    intro c hc
    obtain ⟨n, hn, rfl⟩ := mem_toHex hc
    exact (digitChar_byte hn).2.1
  have hread : ∀ part ∈ bytes.map (hexDigits 2),
      Checked.orElse CryptoError.numberParsing (readByte part) = .ok ((readByte part).getD 0) := by
    intro part hpart
    obtain ⟨b, hb, rfl⟩ := List.mem_map.1 hpart
    rw [readByte_hexDigits (hbytes b hb)]
    rfl
  have hback : (bytes.map (hexDigits 2)).map (fun part => (readByte part).getD 0) = bytes := by
    rw [List.map_map]
    conv_rhs => rw [← List.map_id bytes]
    refine List.map_congr_left fun b hb => ?_
    show (readByte (hexDigits 2 b)).getD 0 = b
    rw [readByte_hexDigits (hbytes b hb)]
    rfl
  unfold fromHex
  rw [byteLen_ascii toHex_utf8Size, hlen, if_neg (by omega),
    slice_ascii toHex_utf8Size (Nat.zero_le 2) (by omega), List.drop_zero]
  show ((if (toHex bytes).take 2 = ['0', 'x'] then slice (toHex bytes) 2 (2 * bytes.length)
    else pure (toHex bytes)) >>= fun hexTrim => splitPairs (trim hexTrim) >>= fun parts =>
      parts.mapM fun b => Checked.orElse CryptoError.numberParsing (readByte b)) = _
  rw [if_neg hhead]
  show (splitPairs (trim (toHex bytes)) >>= fun parts =>
      parts.mapM fun b => Checked.orElse CryptoError.numberParsing (readByte b)) = _
  rw [trim_of_none hspace, splitPairs_toHex hne]
  show (bytes.map (hexDigits 2)).mapM (fun b => Checked.orElse CryptoError.numberParsing (readByte b)) = _
  rw [mapM_ok hread, hback]

/-! ## Pieces of two bytes -/

@[simp] theorem byteLen_nil : byteLen [] = 0 := rfl

@[simp] theorem byteLen_cons (c : Char) (s : List Char) : byteLen (c :: s) = c.utf8Size + byteLen s := by
  simp [byteLen]

theorem splitAtByte_cons {c : Char} {n : Nat} (h : c.utf8Size ≤ n) (s : List Char) :
    splitAtByte n (c :: s) = (splitAtByte (n - c.utf8Size) s).map fun p => (c :: p.1, p.2) := by
  have hpos := c.utf8Size_pos
  obtain ⟨n, rfl⟩ : ∃ k, n = k + 1 := ⟨n - 1, by omega⟩
  rw [splitAtByte, if_pos h]

/-- A character across the byte. -/
theorem splitAtByte_across {c : Char} {n : Nat} (hn : 0 < n) (h : n < c.utf8Size) (s : List Char) :
    splitAtByte n (c :: s) = none := by
  obtain ⟨n, rfl⟩ : ∃ k, n = k + 1 := ⟨n - 1, by omega⟩
  rw [splitAtByte, if_neg (by omega)]

theorem splitAtByte_nil {n : Nat} (hn : 0 < n) : splitAtByte n [] = none := by
  obtain ⟨n, rfl⟩ : ∃ k, n = k + 1 := ⟨n - 1, by omega⟩
  rw [splitAtByte]

@[simp] theorem splitAtByte_zero (s : List Char) : splitAtByte 0 s = some ([], s) := by
  cases s <;> simp [splitAtByte]

@[simp] theorem splitAtByte_byteLen : ∀ s : List Char, splitAtByte (byteLen s) s = some (s, [])
  | [] => splitAtByte_zero []
  | c :: s => by
    rw [byteLen_cons, splitAtByte_cons (Nat.le_add_right _ _), Nat.add_sub_cancel_left, splitAtByte_byteLen s]
    rfl

/-- A slice after the first character. -/
theorem slice_cons (c : Char) (s : List Char) (a b : Nat) :
    slice (c :: s) (c.utf8Size + a) (c.utf8Size + b) = slice s a b := by
  unfold slice
  rw [splitAtByte_cons (Nat.le_add_right _ _), Nat.add_sub_cancel_left]
  by_cases hab : b < a
  · rw [if_pos hab, if_pos (by omega)]
  rw [if_neg hab, if_neg (by omega)]
  cases splitAtByte b s with
  | none => rfl
  | some p =>
    show Checked.unwrap (splitAtByte (c.utf8Size + a) (c :: p.1)) >>= _ =
      Checked.unwrap (splitAtByte a p.1) >>= _
    rw [splitAtByte_cons (Nat.le_add_right _ _), Nat.add_sub_cancel_left]
    cases splitAtByte a p.1 <;> rfl

/-- A text in pieces of two bytes each, if no character lies across two of them. -/
def pieces : List Char → Option (List (List Char))
  | [] => some []
  | [c] => if c.utf8Size = 2 then some [[c]] else none
  | c :: d :: s =>
    if c.utf8Size = 2 then (pieces (d :: s)).map ([c] :: ·)
    else if c.utf8Size = 1 ∧ d.utf8Size = 1 then (pieces s).map ([c, d] :: ·)
    else none

/-- The first piece, and the others. -/
theorem slices_cons {s : List Char} {n : Nat} {f : Nat → Checked (List Char)} {part : List Char}
    (hfirst : slice s 0 2 = .ok part) (hrest : ∀ i, slice s (2 * (i + 1)) (2 * (i + 1) + 2) = f i) :
    (List.range (n + 1)).mapM (fun i => slice s (2 * i) (2 * i + 2)) =
      (List.range n).mapM f >>= fun parts => pure (part :: parts) := by
  have hsame : (fun i => slice s (2 * i) (2 * i + 2)) ∘ Nat.succ = f := funext hrest
  rw [List.range_succ_eq_map, List.mapM_cons, List.mapM_map, hsame]
  show slice s 0 2 >>= _ = _
  rw [hfirst]
  rfl

theorem slices_panic {s : List Char} {n : Nat} (hfirst : slice s 0 2 = Checked.panic) :
    (List.range (n + 1)).mapM (fun i => slice s (2 * i) (2 * i + 2)) = Checked.panic := by
  rw [List.range_succ_eq_map, List.mapM_cons]
  show slice s 0 2 >>= _ = _
  rw [hfirst]
  rfl

theorem slice_first {s part rest : List Char} (h : splitAtByte 2 s = some (part, rest)) :
    slice s 0 2 = .ok part := by
  unfold slice
  rw [if_neg (by decide), h]
  show Checked.unwrap (splitAtByte 0 part) >>= _ = _
  rw [splitAtByte_zero]
  rfl

theorem slice_first_panic {s : List Char} (h : splitAtByte 2 s = none) : slice s 0 2 = Checked.panic := by
  unfold slice
  rw [h]
  rfl

/-- The pieces, the number of which is half of the bytes, rounded up. -/
theorem slices_eq (s : List Char) :
    (List.range ((byteLen s + 1) / 2)).mapM (fun i => slice s (2 * i) (2 * i + 2)) =
      Checked.unwrap (pieces s) := by
  fun_induction pieces s with
  | case1 => rfl
  | case2 c hc =>
    rw [byteLen_cons, hc]
    have hfirst : splitAtByte 2 [c] = some ([c], []) := by
      rw [splitAtByte_cons (by omega), hc, Nat.sub_self, splitAtByte_zero]
      rfl
    exact slices_cons (n := 0) (slice_first hfirst) fun i => rfl
  | case3 c hc =>
    have hpos := c.utf8Size_pos
    obtain ⟨n, hn⟩ : ∃ n, (byteLen [c] + 1) / 2 = n + 1 := by
      refine ⟨(c.utf8Size - 1) / 2, ?_⟩
      rw [byteLen_cons, byteLen_nil]
      omega
    rw [hn]
    refine slices_panic (slice_first_panic ?_)
    rcases Nat.lt_or_gt_of_ne hc with hc | hc
    · rw [splitAtByte_cons (by omega), splitAtByte_nil (by omega)]
      rfl
    · exact splitAtByte_across (by decide) hc []
  | case4 c d s hc ih =>
    rw [byteLen_cons, hc, show (2 + byteLen (d :: s) + 1) / 2 = (byteLen (d :: s) + 1) / 2 + 1 by omega]
    have hfirst : splitAtByte 2 (c :: d :: s) = some ([c], d :: s) := by
      rw [splitAtByte_cons (by omega), hc, Nat.sub_self, splitAtByte_zero]
      rfl
    have hrest : ∀ i, slice (c :: d :: s) (2 * (i + 1)) (2 * (i + 1) + 2) =
        slice (d :: s) (2 * i) (2 * i + 2) := fun i => by
      have hshift := slice_cons c (d :: s) (2 * i) (2 * i + 2)
      rw [hc] at hshift
      rw [← hshift]
      congr 1 <;> omega
    rw [slices_cons (slice_first hfirst) hrest, ih]
    cases pieces (d :: s) <;> rfl
  | case5 c d s hc hcd ih =>
    rw [byteLen_cons, byteLen_cons, hcd.1, hcd.2,
      show (1 + (1 + byteLen s) + 1) / 2 = (byteLen s + 1) / 2 + 1 by omega]
    have hfirst : splitAtByte 2 (c :: d :: s) = some ([c, d], s) := by
      rw [splitAtByte_cons (by omega), hcd.1, splitAtByte_cons (by omega), hcd.2, Nat.sub_self,
        splitAtByte_zero]
      rfl
    have hrest : ∀ i, slice (c :: d :: s) (2 * (i + 1)) (2 * (i + 1) + 2) =
        slice s (2 * i) (2 * i + 2) := fun i => by
      have hshift := slice_cons d s (2 * i) (2 * i + 2)
      have hshift' := slice_cons c (d :: s) (d.utf8Size + 2 * i) (d.utf8Size + (2 * i + 2))
      rw [hshift, hcd.1, hcd.2] at hshift'
      rw [← hshift']
      congr 1 <;> omega
    rw [slices_cons (slice_first hfirst) hrest, ih]
    cases pieces s <;> rfl
  | case6 c d s hc hcd =>
    have hpos := c.utf8Size_pos
    have hpos' := d.utf8Size_pos
    obtain ⟨n, hn⟩ : ∃ n, (byteLen (c :: d :: s) + 1) / 2 = n + 1 := by
      refine ⟨(byteLen (c :: d :: s) - 1) / 2, ?_⟩
      rw [byteLen_cons]
      omega
    rw [hn]
    refine slices_panic (slice_first_panic ?_)
    rcases Nat.lt_or_gt_of_ne hc with hc | hc
    · rw [splitAtByte_cons (by omega), show 2 - c.utf8Size = 1 by omega,
        splitAtByte_across (by decide) (by omega)]
      rfl
    · exact splitAtByte_across (by decide) hc _

theorem splitPairs_eq (s : List Char) :
    splitPairs s = if byteLen s < 2 then Checked.panic else Checked.unwrap (pieces s) := by
  unfold splitPairs
  by_cases hshort : byteLen s < 2
  · rw [if_pos hshort, if_pos hshort]
  · rw [if_neg hshort, if_neg hshort, ← slices_eq,
      show (byteLen s - 2 + 1) / 2 + 1 = (byteLen s + 1) / 2 by omega]

theorem pieces_flatten {s : List Char} {ps : List (List Char)} (h : pieces s = some ps) : ps.flatten = s := by
  fun_induction pieces s generalizing ps with
  | case1 =>
    cases h
    rfl
  | case2 c hc =>
    cases h
    rfl
  | case3 c hc => cases h
  | case4 c d s hc ih =>
    obtain ⟨rest, hrest, rfl⟩ := Option.map_eq_some_iff.1 h
    rw [List.flatten_cons, ih hrest]
    rfl
  | case5 c d s hc hcd ih =>
    obtain ⟨rest, hrest, rfl⟩ := Option.map_eq_some_iff.1 h
    rw [List.flatten_cons, ih hrest]
    rfl
  | case6 c d s hc hcd => cases h

theorem mem_of_piece {s p : List Char} {ps : List (List Char)} {c : Char} (h : pieces s = some ps)
    (hp : p ∈ ps) (hc : p.head? = some c) : c ∈ s := by
  rw [← pieces_flatten h]
  exact List.mem_flatten.2 ⟨p, hp, List.mem_of_mem_head? hc⟩

theorem byteLen_pieces {s : List Char} {ps : List (List Char)} (h : pieces s = some ps) :
    byteLen s = 2 * ps.length := by
  fun_induction pieces s generalizing ps with
  | case1 =>
    cases h
    rfl
  | case2 c hc =>
    cases h
    simp [hc]
  | case3 c hc => cases h
  | case4 c d s hc ih =>
    obtain ⟨rest, hrest, rfl⟩ := Option.map_eq_some_iff.1 h
    rw [byteLen_cons, hc, ih hrest, List.length_cons]
    omega
  | case5 c d s hc hcd ih =>
    obtain ⟨rest, hrest, rfl⟩ := Option.map_eq_some_iff.1 h
    rw [byteLen_cons, byteLen_cons, hcd.1, hcd.2, ih hrest, List.length_cons]
    omega
  | case6 c d s hc hcd => cases h

/-! ## The texts that are read -/

/-- The text after an optional `0x`. -/
def hexBody (s : List Char) : List Char := if ['0', 'x'].isPrefixOf s then s.drop 2 else s

/-- Pairs of hexadecimal digits as bytes. -/
def readHex : List Char → Option (List Nat)
  | [] => some []
  | [_] => none
  | c :: d :: s => do
    let high ← hexValue c
    let low ← hexValue d
    let rest ← readHex s
    pure ((16 * high + low) :: rest)

/-- A digit is one byte, no space and no sign. -/
theorem hexValue_some {c : Char} (h : (hexValue c).isSome) :
    c.utf8Size = 1 ∧ isWhitespace c = false ∧ c ≠ '+' := by
  have hlt : c.toNat < 103 := by
    have hle {d : Char} (hd : c ≤ d) : c.toNat ≤ d.toNat := hd
    unfold hexValue at h
    split_ifs at h with h1 h2 h3
    · exact Nat.lt_of_le_of_lt (hle h1.2) (by decide)
    · exact Nat.lt_of_le_of_lt (hle h2.2) (by decide)
    · exact Nat.lt_of_le_of_lt (hle h3.2) (by decide)
    · cases h
  have hall : ∀ n < 103, (hexValue (Char.ofNat n)).isSome → (Char.ofNat n).utf8Size = 1 ∧
      isWhitespace (Char.ofNat n) = false ∧ Char.ofNat n ≠ '+' := by decide
  have := hall c.toNat hlt
  rw [Char.ofNat_toNat] at this
  exact this h

theorem readHex_digits {s : List Char} {b : List Nat} (h : readHex s = some b) :
    (∀ c ∈ s, (hexValue c).isSome) ∧ s.length = 2 * b.length := by
  fun_induction readHex s generalizing b with
  | case1 =>
    cases h
    simp
  | case2 c => cases h
  | case3 c d s ih =>
    obtain ⟨high, hhigh, h⟩ := Option.bind_eq_some_iff.1 h
    obtain ⟨low, hlow, h⟩ := Option.bind_eq_some_iff.1 h
    obtain ⟨rest, hrest, h⟩ := Option.bind_eq_some_iff.1 h
    cases h
    obtain ⟨hdigits, hlen⟩ := ih hrest
    refine ⟨fun e he => ?_, by simp [hlen]; omega⟩
    rcases List.mem_cons.1 he with rfl | he
    · rw [hhigh]
      rfl
    rcases List.mem_cons.1 he with rfl | he
    · rw [hlow]
      rfl
    · exact hdigits e he

theorem readByte_two {c d : Char} (hc : c ≠ '+') :
    readByte [c, d] = (hexValue c).bind fun high => (hexValue d).map fun low => 16 * high + low := by
  unfold readByte
  split
  · rename_i h
    cases h
  · rename_i h
    cases h
  · rename_i h
    exact absurd (List.cons.inj h).1 hc
  · simp only [List.foldlM_cons, List.foldlM_nil]
    cases hexValue c with
    | none => rfl
    | some high =>
      cases hexValue d with
      | none => rfl
      | some low => simp

/-- The pieces of a text without signs are its bytes. -/
theorem mapM_readByte {s : List Char} {ps : List (List Char)} (h : pieces s = some ps)
    (hplus : ∀ p ∈ ps, p.head? ≠ some '+') : ps.mapM readByte = readHex s := by
  have hwide {c : Char} (hc : c.utf8Size = 2) : hexValue c = none := by
    by_contra hsome
    have := (hexValue_some (Option.isSome_iff_ne_none.2 hsome)).1
    omega
  fun_induction pieces s generalizing ps with
  | case1 =>
    cases h
    rfl
  | case2 c hc =>
    cases h
    rw [List.mapM_cons]
    show hexValue c >>= _ = _
    rw [hwide hc]
    rfl
  | case3 c hc => cases h
  | case4 c d s hc ih =>
    obtain ⟨rest, hrest, rfl⟩ := Option.map_eq_some_iff.1 h
    rw [List.mapM_cons]
    show hexValue c >>= _ = hexValue c >>= _
    rw [hwide hc]
    rfl
  | case5 c d s hc hcd ih =>
    obtain ⟨rest, hrest, rfl⟩ := Option.map_eq_some_iff.1 h
    have hne : c ≠ '+' := fun heq => hplus _ List.mem_cons_self (congrArg some heq)
    rw [List.mapM_cons, readByte_two hne, ih hrest fun p hp => hplus p (List.mem_cons_of_mem _ hp)]
    show ((hexValue c).bind fun high => (hexValue d).map fun low => 16 * high + low) >>= _ =
      hexValue c >>= _
    cases hexValue c with
    | none => rfl
    | some high =>
      cases hexValue d with
      | none => rfl
      | some low => rfl
  | case6 c d s hc hcd => cases h

theorem mapM_orElse {ps : List (List Char)} (e : CryptoError) :
    (ps.mapM fun b => Checked.orElse e (readByte b)) = Checked.orElse e (ps.mapM readByte) := by
  induction ps with
  | nil => rfl
  | cons p ps ih =>
    rw [List.mapM_cons, List.mapM_cons, ih]
    cases readByte p with
    | none => rfl
    | some n => cases ps.mapM readByte <;> rfl

theorem splitAtByte_append {s : List Char} : ∀ {n : Nat} {before after : List Char},
    splitAtByte n s = some (before, after) → s = before ++ after := by
  induction s with
  | nil =>
    intro n before after h
    cases n with
    | zero =>
      cases (splitAtByte_zero []).symm.trans h
      rfl
    | succ n =>
      rw [splitAtByte_nil (by omega)] at h
      cases h
  | cons c s ih =>
    intro n before after h
    rcases Nat.eq_zero_or_pos n with rfl | hn
    · cases (splitAtByte_zero (c :: s)).symm.trans h
      rfl
    · by_cases hc : c.utf8Size ≤ n
      · rw [splitAtByte_cons hc] at h
        obtain ⟨p, hp, heq⟩ := Option.map_eq_some_iff.1 h
        cases heq
        rw [ih hp]
        rfl
      · rw [splitAtByte_across hn (by omega)] at h
        cases h

/-- An even text whose second byte ends a character: what is left of a prefix is cut and read. -/
theorem fromHex_eq {s part rest : List Char} (heven : byteLen s % 2 = 0)
    (hsplit : splitAtByte 2 s = some (part, rest)) :
    fromHex s = splitPairs (trim (hexBody s)) >>= fun ps =>
      Checked.orElse .numberParsing (ps.mapM readByte) := by
  have happend := splitAtByte_append hsplit
  have hbody : (if part = ['0', 'x'] then slice s 2 (byteLen s) else pure s) = .ok (hexBody s) := by
    by_cases hpart : part = ['0', 'x']
    · have hpre : ['0', 'x'].isPrefixOf s = true := by
        rw [happend, hpart]
        rfl
      have hlong : ¬byteLen s < 2 := by
        have hsize : '0'.utf8Size = 1 ∧ 'x'.utf8Size = 1 := ⟨rfl, rfl⟩
        rw [happend, hpart]
        simp only [List.cons_append, byteLen_cons, hsize]
        omega
      unfold hexBody slice
      rw [if_pos hpart, if_pos hpre, if_neg hlong, splitAtByte_byteLen]
      show Checked.unwrap (splitAtByte 2 s) >>= _ = _
      rw [hsplit, happend, hpart]
      rfl
    · have hpre : ¬['0', 'x'].isPrefixOf s = true := by
        intro hpre
        obtain ⟨t, ht⟩ := List.isPrefixOf_iff_prefix.1 hpre
        have hzero : splitAtByte 2 s = some (['0', 'x'], t) := by
          rw [← ht]
          show splitAtByte 2 ('0' :: 'x' :: t) = _
          rw [splitAtByte_cons (by decide), splitAtByte_cons (by decide)]
          show ((splitAtByte 0 t).map _).map _ = _
          rw [splitAtByte_zero]
          rfl
        rw [hsplit] at hzero
        cases hzero
        exact hpart rfl
      unfold hexBody
      rw [if_neg hpart, if_neg hpre]
      rfl
  unfold fromHex
  rw [if_neg (by omega), slice_first hsplit]
  show (if part = ['0', 'x'] then slice s 2 (byteLen s) else pure s) >>= _ = _
  rw [hbody]
  show (splitPairs (trim (hexBody s)) >>= fun parts =>
    parts.mapM fun b => Checked.orElse .numberParsing (readByte b)) = _
  congr 1
  funext ps
  exact mapM_orElse _

/-- The texts `from_hex` treats as texts of digits: of odd length, or with a boundary after two bytes and
more than a prefix and space, in pieces of two bytes; if all pieces are numbers, there is no space around
them and none has a sign. -/
def HexClean (s : List Char) : Prop :=
  byteLen s % 2 = 1 ∨ splitAtByte 2 s ≠ none ∧ ∃ ps, ps ≠ [] ∧ pieces (trim (hexBody s)) = some ps ∧
    ((∀ p ∈ ps, (readByte p).isSome) → trim (hexBody s) = hexBody s ∧ ∀ p ∈ ps, p.head? ≠ some '+')

theorem byteLen_hexBody (s : List Char) : byteLen s % 2 = byteLen (hexBody s) % 2 := by
  unfold hexBody
  split_ifs with hpre
  · obtain ⟨t, rfl⟩ := List.isPrefixOf_iff_prefix.1 hpre
    show byteLen ('0' :: 'x' :: t) % 2 = byteLen t % 2
    rw [byteLen_cons, byteLen_cons, show Char.utf8Size '0' = 1 from rfl, show Char.utf8Size 'x' = 1 from rfl]
    omega
  · rfl

/-- `from_hex` reads what was written unless that is empty, and reads a text as an optional prefix and pairs
of digits exactly if it is a clean one. -/
theorem fromHex_exact (b : List Nat) (s : List Char) :
    ((∀ x ∈ b, x < 256) → (fromHex (toHex b) = .ok b ↔ b ≠ [])) ∧
    (fromHex s = Checked.orElse .numberParsing (readHex (hexBody s)) ↔ HexClean s) := by
  refine ⟨fun hb => ⟨?_, fun hne => fromHex_toHex hne hb⟩, ?_⟩
  · rintro hok rfl
    have hpanic : fromHex (toHex []) = Checked.panic := by
      show (slice [] 0 2 >>= _) = _
      rw [slice_first_panic (splitAtByte_nil (by decide))]
      rfl
    rw [hpanic] at hok
    cases hok
  have hread {b : List Nat} (h : readHex (hexBody s) = some b) :
      byteLen (hexBody s) % 2 = 0 ∧ trim (hexBody s) = hexBody s ∧ ∀ c ∈ hexBody s, c ≠ '+' := by
    obtain ⟨hdigits, hlen⟩ := readHex_digits h
    refine ⟨?_, trim_of_none fun c hc => (hexValue_some (hdigits c hc)).2.1,
      fun c hc => (hexValue_some (hdigits c hc)).2.2⟩
    rw [byteLen_ascii fun c hc => (hexValue_some (hdigits c hc)).1, hlen]
    omega
  have hpanic {x : Checked (List Nat)} (h : x = Checked.panic) :
      x ≠ Checked.orElse .numberParsing (readHex (hexBody s)) := by
    rw [h]
    cases readHex (hexBody s) <;> exact nofun
  rcases Nat.mod_two_eq_zero_or_one (byteLen s) with heven | hodd
  swap
  · refine ⟨fun _ => .inl hodd, fun _ => ?_⟩
    have hnone : readHex (hexBody s) = none := by
      by_contra hne
      obtain ⟨b, hb⟩ := Option.ne_none_iff_exists'.1 hne
      have := byteLen_hexBody s
      have := (hread hb).1
      omega
    rw [hnone]
    unfold fromHex
    rw [if_pos hodd]
    rfl
  have hclean : HexClean s ↔ splitAtByte 2 s ≠ none ∧ ∃ ps, ps ≠ [] ∧ pieces (trim (hexBody s)) = some ps ∧
      ((∀ p ∈ ps, (readByte p).isSome) → trim (hexBody s) = hexBody s ∧ ∀ p ∈ ps, p.head? ≠ some '+') :=
    or_iff_right (by omega)
  rw [hclean]
  rcases hsplit : splitAtByte 2 s with _ | ⟨part, rest⟩
  · refine ⟨fun h => absurd h (hpanic ?_), fun h => absurd rfl h.1⟩
    unfold fromHex
    rw [if_neg (by omega), slice_first_panic hsplit]
    rfl
  rw [fromHex_eq heven hsplit, splitPairs_eq]
  by_cases hshort : byteLen (trim (hexBody s)) < 2
  · rw [if_pos hshort]
    refine ⟨fun h => absurd h (hpanic rfl), ?_⟩
    rintro ⟨-, ps, hne, hps, -⟩
    have := byteLen_pieces hps
    have := List.length_pos_iff.2 hne
    omega
  rw [if_neg hshort]
  rcases hps : pieces (trim (hexBody s)) with _ | ps
  · refine ⟨fun h => absurd h (hpanic rfl), ?_⟩
    rintro ⟨-, ps, -, hcon, -⟩
    cases hcon
  have hne : ps ≠ [] := by
    rintro rfl
    have := byteLen_pieces hps
    simp at this
    omega
  show Checked.orElse .numberParsing (ps.mapM readByte) = _ ↔ _
  constructor
  · intro heq
    refine ⟨nofun, ps, hne, rfl, fun hall => ?_⟩
    obtain ⟨b, hb⟩ := Option.isSome_iff_exists.1 (mapM_isSome_iff.2 hall)
    rw [hb] at heq
    rcases hbody : readHex (hexBody s) with _ | b'
    · rw [hbody] at heq
      cases heq
    · obtain ⟨-, htrim, hplus⟩ := hread hbody
      exact ⟨htrim, fun p hp hhead => hplus _ (htrim ▸ mem_of_piece hps hp hhead) rfl⟩
  · rintro ⟨-, ps', -, hps', hall⟩
    obtain rfl := Option.some.inj hps'
    rcases hmap : ps.mapM readByte with _ | b
    · have hnone : readHex (hexBody s) = none := by
        by_contra hsome
        obtain ⟨b, hb⟩ := Option.ne_none_iff_exists'.1 hsome
        obtain ⟨-, htrim, hplus⟩ := hread hb
        rw [htrim] at hps
        have hsame : ps.mapM readByte = readHex (hexBody s) :=
          mapM_readByte hps fun p hp hhead => hplus _ (mem_of_piece hps hp hhead) rfl
        rw [hmap, hb] at hsame
        cases hsame
      rw [hnone]
    · obtain ⟨htrim, hplus⟩ := hall (mapM_isSome_iff.1 (Option.isSome_of_eq_some hmap))
      rw [htrim] at hps
      rw [← mapM_readByte hps hplus, hmap]

/-- The bytes of an empty text are not read back, and a sign is read as part of a byte. -/
theorem fromHex_sign :
    ¬fromHex (toHex []) = .ok [] ∧ fromHex ['+', 'f'] = .ok [15] ∧ readHex (hexBody ['+', 'f']) = none := by
  decide +kernel

end EpicWallet
