import EpicWallet.Lib.Radix
import EpicWallet.Libwallet.Crypto

/-!
# Base 58 is exact

Bytes are zeros and the bytes of a number; their text is as many ones and the digits of that number
(`toBase58_eq`, `fromBase58_spell`).

* `base58_exact`: bytes are read back, a text that is read is written back, and no buffer is too small.
* `rejects_iff`: which texts are decoded without a panic.
-/

namespace EpicWallet

open Lib

namespace Base58

/-! ## The digits of bytes -/

/-- The character of a digit. -/
def alphabet (d : Nat) : Char := ALPHABET.getD d '1'

/-- The text of bytes that are `zeros` zeros and the bytes of a number. -/
def spell (zeros n : Nat) : List Char := List.replicate zeros '1' ++ (radix 58 n).map alphabet

/-- Room for another byte above digits that are zero but for the last: then that is zero too. -/
theorem ofDigits_eq_zero : ∀ {digits : List Nat}, (∀ d ∈ digits.dropLast, d = 0) →
    256 * Nat.ofDigits 58 digits < 58 ^ digits.length → Nat.ofDigits 58 digits = 0
  | [], _, _ => rfl
  | [d], _, hfits => by
    rw [Nat.ofDigits_singleton] at hfits ⊢
    have hlt : 256 * d < 58 := hfits
    omega
  | d :: d' :: ds, hzero, hfits => by
    obtain rfl : d = 0 := hzero d (by simp)
    rw [Nat.ofDigits_cons, List.length_cons, Nat.pow_succ] at hfits
    have hrest : Nat.ofDigits 58 (d' :: ds) = 0 :=
      ofDigits_eq_zero (fun e he => hzero e (List.mem_cons_of_mem 0 he)) (by simp at hfits ⊢; omega)
    rw [Nat.ofDigits_cons, hrest]

/-- One byte more: the digits, lowest first, of 256 times the number and the byte, if that is not too large
for them. What is not passed in any case is zero, but for the last digit. -/
theorem carryLoop_spec {digits : List Nat} {left carry : Nat} (hne : digits ≠ [])
    (hdigits : ∀ d ∈ digits, d < 58) (hzero : ∀ d ∈ (digits.drop left).dropLast, d = 0)
    (hfits : carry + 256 * Nat.ofDigits 58 digits < 58 ^ digits.length) :
    ∃ digits' left', carryLoop digits left carry = some (digits', left') ∧
      digits'.length = digits.length ∧ (∀ d ∈ digits', d < 58) ∧
      Nat.ofDigits 58 digits' = carry + 256 * Nat.ofDigits 58 digits ∧
      ∀ d ∈ (digits'.drop left').dropLast, d = 0 := by
  fun_induction carryLoop digits left carry with
  | case1 => exact absurd rfl hne
  | case2 d left =>
    rw [Nat.ofDigits_singleton] at hfits
    obtain rfl : d = 0 := by simp at hfits; omega
    exact ⟨_, _, rfl, rfl, hdigits, by simp, by simp⟩
  | case3 d left carry hcarry hcut =>
    rw [Nat.ofDigits_singleton] at hfits
    obtain rfl : d = 0 := by simp at hfits; omega
    refine ⟨_, _, rfl, rfl, ?_, ?_, by simp⟩
    · intro e he
      rw [List.mem_singleton.1 he]
      exact Nat.mod_lt _ (by decide)
    · rw [Nat.ofDigits_singleton, Nat.ofDigits_singleton]
      omega
  | case4 d left carry hcarry hcut =>
    rw [Nat.ofDigits_singleton] at hfits
    simp at hfits
    omega
  | case5 d d' ds left carry hstop =>
    obtain ⟨rfl, rfl⟩ := hstop
    have hlast : ∀ e ∈ (d :: d' :: ds).dropLast, e = 0 := hzero
    have hnone := ofDigits_eq_zero hlast (by omega)
    exact ⟨_, _, rfl, rfl, hdigits, by omega, hzero⟩
  | case6 d d' ds left carry hgo ih =>
    rw [Nat.ofDigits_cons, List.length_cons, Nat.pow_succ] at hfits
    have hzero' : ∀ e ∈ ((d' :: ds).drop (left - 1)).dropLast, e = 0 := by
      rcases left with _ | left
      · exact fun e he => hzero e (List.mem_cons_of_mem d he)
      · exact hzero
    obtain ⟨digits', left', hrun, hlen, hlt, hvalue, hrest⟩ := ih (by simp)
      (fun e he => hdigits e (List.mem_cons_of_mem d he)) hzero' (by simp at hfits ⊢; omega)
    refine ⟨(carry + 256 * d) % 58 :: digits', left' + 1, by rw [hrun]; rfl, by simp [hlen], ?_, ?_, hrest⟩
    · intro e he
      rcases List.mem_cons.1 he with rfl | he
      · exact Nat.mod_lt _ (by decide)
      · exact hlt e he
    · rw [Nat.ofDigits_cons, Nat.ofDigits_cons, hvalue]
      omega

theorem pushBytes_spec {bytes digits : List Nat} {left : Nat} (hne : digits ≠ [])
    (hdigits : ∀ d ∈ digits, d < 58) (hzero : ∀ d ∈ (digits.drop left).dropLast, d = 0)
    (hfits : Nat.ofDigits 58 digits * 256 ^ bytes.length + ofRadix 256 bytes < 58 ^ digits.length) :
    ∃ digits', pushBytes bytes digits left = some digits' ∧ (∀ d ∈ digits', d < 58) ∧
      Nat.ofDigits 58 digits' = Nat.ofDigits 58 digits * 256 ^ bytes.length + ofRadix 256 bytes := by
  induction bytes generalizing digits left with
  | nil => exact ⟨digits, rfl, hdigits, by simp⟩
  | cons b bytes ih =>
    have hstep : Nat.ofDigits 58 digits * 256 ^ (b :: bytes).length + ofRadix 256 (b :: bytes) =
        (b + 256 * Nat.ofDigits 58 digits) * 256 ^ bytes.length + ofRadix 256 bytes := by
      rw [ofRadix_cons, List.length_cons]
      ring
    rw [hstep] at hfits ⊢
    have hone : b + 256 * Nat.ofDigits 58 digits < 58 ^ digits.length :=
      Nat.lt_of_le_of_lt ((Nat.le_mul_of_pos_right _ (Nat.pow_pos (by decide))).trans
        (Nat.le_add_right _ _)) hfits
    obtain ⟨digits', left', hrun, hlen, hlt, hvalue, hrest⟩ := carryLoop_spec hne hdigits hzero hone
    have hne' : digits' ≠ [] := List.length_pos_iff.1 (hlen ▸ List.length_pos_iff.2 hne)
    rw [← hvalue, ← hlen] at hfits
    obtain ⟨digits'', hrun', hlt', hvalue'⟩ := ih hne' hlt hrest hfits
    refine ⟨digits'', ?_, hlt', hvalue ▸ hvalue'⟩
    show (carryLoop digits left b).bind _ = _
    rw [hrun]
    exact hrun'

/-- The digits are enough for the bytes: `138 / 100` is more than the logarithm of 256 to base 58. -/
theorem pow_bytes_lt (n : Nat) : 256 ^ n < 58 ^ (n * 138 / 100 + 1) := by
  have hrest : ∀ r < 50, 256 ^ r < 58 ^ (r * 138 / 100 + 1) := by decide
  have hfifty : 256 ^ 50 ≤ 58 ^ 69 := by norm_num
  calc 256 ^ n = (256 ^ 50) ^ (n / 50) * 256 ^ (n % 50) := by
        rw [← Nat.pow_mul, ← Nat.pow_add, Nat.div_add_mod]
    _ < (58 ^ 69) ^ (n / 50) * 58 ^ (n % 50 * 138 / 100 + 1) :=
        Nat.mul_lt_mul_of_le_of_lt (Nat.pow_le_pow_left hfifty _) (hrest _ (Nat.mod_lt _ (by decide)))
          (Nat.pow_pos (Nat.pow_pos (by decide)))
    _ = 58 ^ (n * 138 / 100 + 1) := by
        rw [← Nat.pow_mul, ← Nat.pow_add]
        congr 1
        omega

/-- The text of bytes; the buffer is never too small. -/
theorem toBase58_eq {bytes : List Nat} (hbytes : ∀ b ∈ bytes, b < 256) :
    toBase58 bytes = some (spell (zeros bytes) (ofRadix 256 bytes)) := by
  let size := (bytes.length - zeros bytes) * 138 / 100 + 1
  have hrest : ∀ b ∈ bytes.drop (zeros bytes), b < 256 := fun b hb => hbytes b (List.mem_of_mem_drop hb)
  have hvalue : ofRadix 256 (bytes.drop (zeros bytes)) = ofRadix 256 bytes := by
    rw [drop_zeros (by decide) hbytes, ofRadix_radix]
  have hzero : Nat.ofDigits 58 (List.replicate size 0) = 0 := Nat.ofDigits_replicate_zero
  have hfits : Nat.ofDigits 58 (List.replicate size 0) * 256 ^ (bytes.drop (zeros bytes)).length +
      ofRadix 256 (bytes.drop (zeros bytes)) < 58 ^ (List.replicate size 0).length := by
    rw [hzero, Nat.zero_mul, Nat.zero_add, List.length_replicate]
    refine Nat.lt_trans (ofRadix_lt (by decide) hrest) ?_
    rw [List.length_drop]
    exact pow_bytes_lt _
  have hclear : ∀ d ∈ ((List.replicate size 0).drop 0).dropLast, d = 0 := fun d hd =>
    List.eq_of_mem_replicate (List.mem_of_mem_dropLast hd)
  obtain ⟨digits, hrun, hdigits, hnumber⟩ := pushBytes_spec (by simp) (by simp) hclear hfits
  rw [hzero, Nat.zero_mul, Nat.zero_add, hvalue] at hnumber
  have hdrop : digits.reverse.dropWhile (· = 0) = radix 58 (ofRadix 256 bytes) := by
    rw [dropWhile_zero (by decide) fun d hd => hdigits d (List.mem_reverse.1 hd)]
    unfold ofRadix
    rw [List.reverse_reverse, hnumber]
    rfl
  unfold toBase58
  show (pushBytes (bytes.drop (zeros bytes)) (List.replicate size 0) 0).bind _ = _
  rw [hrun]
  show some (List.replicate (zeros bytes) '1' ++ (digits.reverse.dropWhile (· = 0)).map alphabet) = _
  rw [hdrop]
  rfl

/-! ## The number of a text -/

theorem digit_of_not_lt {b : Nat} (h : ¬b < 128) : digit b = none := by
  have hlen : B58_DIGITS_MAP.length = 128 := rfl
  unfold digit
  rw [List.getD_eq_getElem?_getD, List.getElem?_eq_none (by omega)]
  rfl

/-- The map of the digits against the alphabet. -/
theorem digit_table : (∀ b < 128, ∀ d ∈ digit b, d < 58 ∧ alphabet d = Char.ofNat b) ∧
    ∀ d < 58, digit (alphabet d).toNat = some d := by
  decide +kernel

/-- A byte with a digit is the character of it. -/
theorem digit_some {b d : Nat} (h : digit b = some d) : b < 128 ∧ d < 58 ∧ alphabet d = Char.ofNat b := by
  by_cases hb : b < 128
  · exact ⟨hb, digit_table.1 b hb d h⟩
  · rw [digit_of_not_lt hb] at h
    cases h

theorem digit_alphabet {d : Nat} (h : d < 58) : digit (alphabet d).toNat = some d := digit_table.2 d h

/-- The digits of a text. -/
def readDigits (text : List Char) : Option (List Nat) := text.mapM fun c => digit c.toNat

theorem readDigits_cons {c : Char} {text : List Char} {ds : List Nat} :
    readDigits (c :: text) = some ds ↔
      ∃ d rest, digit c.toNat = some d ∧ readDigits text = some rest ∧ ds = d :: rest := by
  unfold readDigits
  rw [List.mapM_cons]
  cases digit c.toNat with
  | none => simp
  | some d =>
    cases text.mapM fun c => digit c.toNat with
    | none => simp
    | some rest => simp [eq_comm]

/-- What is read is what was written. -/
theorem readDigits_some {text : List Char} {ds : List Nat} (h : readDigits text = some ds) :
    ds.map alphabet = text ∧ ∀ d ∈ ds, d < 58 := by
  induction text generalizing ds with
  | nil =>
    cases h
    simp
  | cons c text ih =>
    obtain ⟨d, rest, hd, hrest, rfl⟩ := readDigits_cons.1 h
    obtain ⟨-, hlt, hchar⟩ := digit_some hd
    obtain ⟨hmap, hall⟩ := ih hrest
    rw [Char.ofNat_toNat] at hchar
    rw [List.map_cons, hchar, hmap]
    exact ⟨rfl, List.forall_mem_cons.2 ⟨hlt, hall⟩⟩

theorem readDigits_map {ds : List Nat} (h : ∀ d ∈ ds, d < 58) : readDigits (ds.map alphabet) = some ds := by
  induction ds with
  | nil => rfl
  | cons d ds ih =>
    exact readDigits_cons.2 ⟨d, ds, digit_alphabet (h d List.mem_cons_self),
      ih fun e he => h e (List.mem_cons_of_mem d he), rfl⟩

/-- One digit more: the number times 58 and the digit, with what is carried out above the limbs. -/
theorem pushDigit_spec {out : List Nat} {c : Nat} (hout : ∀ l ∈ out, l < 2 ^ 32) (hc : c < 64) :
    (pushDigit out c).1.length = out.length ∧ (∀ l ∈ (pushDigit out c).1, l < 2 ^ 32) ∧
      (pushDigit out c).2 < 64 ∧
      ofRadix (2 ^ 32) (pushDigit out c).1 + (pushDigit out c).2 * (2 ^ 32) ^ out.length =
        ofRadix (2 ^ 32) out * 58 + c := by
  induction out with
  | nil => exact ⟨rfl, by simp [pushDigit], hc, by simp [pushDigit]⟩
  | cons limb out ih =>
    obtain ⟨hlen, hlt, hcarry, hvalue⟩ := ih fun l hl => hout l (List.mem_cons_of_mem limb hl)
    have hlimb : limb < 2 ^ 32 := hout limb List.mem_cons_self
    have hstep : pushDigit (limb :: out) c =
        ((limb * 58 + (pushDigit out c).2) % 2 ^ 32 :: (pushDigit out c).1,
          (limb * 58 + (pushDigit out c).2) / 2 ^ 32 % 64) := rfl
    have hhigh : (limb * 58 + (pushDigit out c).2) / 2 ^ 32 < 64 := by omega
    rw [hstep]
    dsimp only
    rw [Nat.mod_eq_of_lt hhigh]
    refine ⟨by simp [hlen], List.forall_mem_cons.2 ⟨Nat.mod_lt _ (by decide), hlt⟩, hhigh, ?_⟩
    rw [ofRadix_cons, ofRadix_cons, hlen, List.length_cons]
    have hdiv := Nat.mod_add_div (limb * 58 + (pushDigit out c).2) (2 ^ 32)
    calc (limb * 58 + (pushDigit out c).2) % 2 ^ 32 * (2 ^ 32) ^ out.length +
          ofRadix (2 ^ 32) (pushDigit out c).1 +
          (limb * 58 + (pushDigit out c).2) / 2 ^ 32 * (2 ^ 32) ^ (out.length + 1)
        = ((limb * 58 + (pushDigit out c).2) % 2 ^ 32 +
            2 ^ 32 * ((limb * 58 + (pushDigit out c).2) / 2 ^ 32)) * (2 ^ 32) ^ out.length +
          ofRadix (2 ^ 32) (pushDigit out c).1 := by ring
      _ = limb * 58 * (2 ^ 32) ^ out.length +
          (ofRadix (2 ^ 32) (pushDigit out c).1 + (pushDigit out c).2 * (2 ^ 32) ^ out.length) := by
        rw [hdiv]
        ring
      _ = (limb * (2 ^ 32) ^ out.length + ofRadix (2 ^ 32) out) * 58 + c := by
        rw [hvalue]
        ring

theorem utf8_cons_ascii {c : Char} (h : IsAscii c) (text : List Char) :
    utf8 (c :: text) = c.toNat :: utf8 text := by
  have hlt : c.toNat < 256 := Nat.lt_trans h (by decide)
  unfold utf8
  rw [List.flatMap_cons, utf8EncodeChar_ascii h, List.map_append, List.map_singleton,
    UInt8.toNat_ofNat_of_lt' hlt]
  rfl

theorem utf8_cons_other {c : Char} (h : ¬IsAscii c) (text : List Char) :
    ∃ b bytes, utf8 (c :: text) = b :: bytes ∧ 128 ≤ b := by
  have hother := utf8EncodeChar_other h
  rcases hc : String.utf8EncodeChar c with _ | ⟨b, bytes⟩
  · have hlen := String.length_utf8EncodeChar c
    have hpos := c.utf8Size_pos
    rw [hc] at hlen
    simp at hlen
    omega
  · refine ⟨b.toNat, (bytes.map (·.toNat)) ++ utf8 text, ?_, hother b (hc ▸ List.mem_cons_self)⟩
    unfold utf8
    rw [List.flatMap_cons, hc, List.map_append, List.map_cons]
    rfl

/-- One character more in the loop. -/
theorem pushDigits_cons {c : Char} {d : Nat} (hd : digit c.toNat = some d) (text : List Char) (i : Nat)
    (out : List Nat) : pushDigits (utf8 (c :: text)) i out =
      if (pushDigit out d).2 ≠ 0 then Checked.fail .invalidBase58Length
      else pushDigits (utf8 text) (i + 1) (pushDigit out d).1 := by
  have hlt := (digit_some hd).1
  rw [utf8_cons_ascii hlt, pushDigits, if_neg (by omega), hd]

theorem pushDigits_ok {text : List Char} {ds : List Nat} {i : Nat} {out : List Nat}
    (h : readDigits text = some ds) (hout : ∀ l ∈ out, l < 2 ^ 32)
    (hfits : ofRadix (2 ^ 32) out * 58 ^ ds.length + ofRadix 58 ds < (2 ^ 32) ^ out.length) :
    ∃ out', pushDigits (utf8 text) i out = .ok out' ∧ out'.length = out.length ∧
      (∀ l ∈ out', l < 2 ^ 32) ∧
      ofRadix (2 ^ 32) out' = ofRadix (2 ^ 32) out * 58 ^ ds.length + ofRadix 58 ds := by
  induction text generalizing ds i out with
  | nil =>
    cases h
    exact ⟨out, rfl, rfl, hout, by simp⟩
  | cons c text ih =>
    obtain ⟨d, rest, hd, hrest, rfl⟩ := readDigits_cons.1 h
    have hdigit := (digit_some hd).2.1
    obtain ⟨hlen, hlimbs, -, hvalue⟩ := pushDigit_spec hout (Nat.lt_trans hdigit (by decide))
    have hstep : ofRadix (2 ^ 32) out * 58 ^ (d :: rest).length + ofRadix 58 (d :: rest) =
        (ofRadix (2 ^ 32) out * 58 + d) * 58 ^ rest.length + ofRadix 58 rest := by
      rw [ofRadix_cons, List.length_cons]
      ring
    rw [hstep] at hfits ⊢
    have hnone : (pushDigit out d).2 = 0 := by
      have hone : ofRadix (2 ^ 32) out * 58 + d < (2 ^ 32) ^ out.length :=
        Nat.lt_of_le_of_lt ((Nat.le_mul_of_pos_right _ (Nat.pow_pos (by decide))).trans
          (Nat.le_add_right _ _)) hfits
      rcases Nat.eq_zero_or_pos (pushDigit out d).2 with hzero | hpos
      · exact hzero
      · have := Nat.le_mul_of_pos_left ((2 ^ 32) ^ out.length) hpos
        omega
    rw [hnone, Nat.zero_mul, Nat.add_zero] at hvalue
    rw [← hvalue] at hfits ⊢
    rw [← hlen] at hfits ⊢
    rw [pushDigits_cons hd, if_neg (not_not.2 hnone)]
    exact ih hrest hlimbs hfits

theorem pushDigits_fail {text : List Char} {i : Nat} {out : List Nat} (hout : ∀ l ∈ out, l < 2 ^ 32)
    (h : ∀ ds, readDigits text = some ds →
      (2 ^ 32) ^ out.length ≤ ofRadix (2 ^ 32) out * 58 ^ ds.length + ofRadix 58 ds) :
    ∃ e, pushDigits (utf8 text) i out = Checked.fail e := by
  induction text generalizing i out with
  | nil =>
    have hlt := ofRadix_lt (by decide) hout
    have hle := h [] rfl
    rw [List.length_nil, Nat.pow_zero, Nat.mul_one, ofRadix_nil, Nat.add_zero] at hle
    exact absurd hle (Nat.not_le.2 hlt)
  | cons c text ih =>
    rcases hd : digit c.toNat with _ | d
    · by_cases hc : IsAscii c
      · refine ⟨.invalidBase58Character (Char.ofNat c.toNat) i, ?_⟩
        have hlt : c.toNat < 128 := hc
        rw [utf8_cons_ascii hc, pushDigits, if_neg (by omega), hd]
      · obtain ⟨b, bytes, hutf, hb⟩ := utf8_cons_other hc text
        exact ⟨.invalidBase58Character (Char.ofNat b) i, by rw [hutf, pushDigits, if_pos hb]⟩
    rw [pushDigits_cons hd]
    by_cases hcarry : (pushDigit out d).2 = 0
    · obtain ⟨hlen, hlimbs, -, hvalue⟩ := pushDigit_spec hout
        (Nat.lt_trans (digit_some hd).2.1 (by decide))
      rw [hcarry, Nat.zero_mul, Nat.add_zero] at hvalue
      rw [if_neg (not_not.2 hcarry)]
      refine ih hlimbs fun rest hrest => ?_
      have hle := h (d :: rest) (readDigits_cons.2 ⟨d, rest, hd, hrest, rfl⟩)
      rw [hlen, hvalue]
      refine hle.trans (le_of_eq ?_)
      rw [ofRadix_cons, List.length_cons]
      ring
    · exact ⟨_, if_pos hcarry⟩

theorem flatMap_limbBytes {out : List Nat} (hout : ∀ l ∈ out, l < 2 ^ 32) :
    (out.flatMap limbBytes).length = 4 * out.length ∧ (∀ b ∈ out.flatMap limbBytes, b < 256) ∧
      ofRadix 256 (out.flatMap limbBytes) = ofRadix (2 ^ 32) out := by
  induction out with
  | nil => exact ⟨rfl, by simp, rfl⟩
  | cons l out ih =>
    obtain ⟨hlen, hbytes, hvalue⟩ := ih fun x hx => hout x (List.mem_cons_of_mem l hx)
    have hl : l < 2 ^ 32 := hout l List.mem_cons_self
    have hfour : ofRadix 256 (limbBytes l) = l := by
      simp only [limbBytes, ofRadix_cons, ofRadix_nil, List.length_cons, List.length_nil]
      omega
    have hlt : ∀ b ∈ limbBytes l, b < 256 := by
      intro b hb
      simp only [limbBytes, List.mem_cons, List.not_mem_nil, or_false] at hb
      omega
    rw [List.flatMap_cons, List.length_append, hlen, List.length_cons]
    refine ⟨by rw [show (limbBytes l).length = 4 from rfl]; omega, ?_, ?_⟩
    · exact fun b hb => (List.mem_append.1 hb).elim (hlt b) (hbytes b)
    · rw [ofRadix_append, hfour, hvalue, hlen, ofRadix_cons, Nat.pow_mul, show 256 ^ 4 = 2 ^ 32 from rfl]

/-- The ones in front. -/
def ones (text : List Char) : Nat := (text.takeWhile (· = '1')).length

theorem utf8_drop_ones (text : List Char) :
    (utf8 text).drop (ones text) = utf8 (text.dropWhile (· = '1')) := by
  induction text with
  | nil => rfl
  | cons c text ih =>
    unfold ones at ih ⊢
    by_cases hc : c = '1'
    · rw [List.takeWhile_cons_of_pos (by simpa using hc), List.dropWhile_cons_of_pos (by simpa using hc),
        List.length_cons, utf8_cons_ascii (hc ▸ by decide), List.drop_succ_cons, ih]
    · rw [List.takeWhile_cons_of_neg (by simpa using hc), List.dropWhile_cons_of_neg (by simpa using hc)]
      rfl

/-- What is read of a text of digits whose number fits: a panic if there are more ones than zeros before the
number in the buffer. -/
theorem fromBase58_digits {text : List Char} {ds : List Nat}
    (h : readDigits (text.dropWhile (· = '1')) = some ds) (hfits : ofRadix 58 ds < 256 ^ 132) :
    fromBase58 text = if 132 < ones text + (radix 256 (ofRadix 58 ds)).length then Checked.panic
      else .ok (List.replicate (ones text) 0 ++ radix 256 (ofRadix 58 ds)) := by
  have hzero : ofRadix (2 ^ 32) (List.replicate 33 0) = 0 := ofRadix_replicate_zero 33
  have hpow : (2 ^ 32) ^ (List.replicate 33 0).length = 256 ^ 132 := by
    rw [List.length_replicate]
    norm_num
  have hlow : ∀ l ∈ List.replicate 33 0, l < 2 ^ 32 := fun l hl => by
    rw [List.eq_of_mem_replicate hl]
    decide
  obtain ⟨out, hrun, hlen, hlimbs, hvalue⟩ := pushDigits_ok (i := ones text) h hlow
    (by rw [hpow, hzero, Nat.zero_mul, Nat.zero_add]; exact hfits)
  rw [hzero, Nat.zero_mul, Nat.zero_add] at hvalue
  obtain ⟨hbin, hbytes, hnumber⟩ := flatMap_limbBytes hlimbs
  rw [hvalue] at hnumber
  have hsplit := eq_zeros_radix (by decide) hbytes
  rw [hnumber] at hsplit
  have hcount : zeros (out.flatMap limbBytes) + (radix 256 (ofRadix 58 ds)).length = 132 := by
    have := congrArg List.length hsplit
    rw [hbin, hlen, List.length_append, List.length_replicate, List.length_replicate] at this
    omega
  unfold fromBase58
  show (pushDigits ((utf8 text).drop (ones text)) (ones text) (List.replicate 33 0) >>= fun out =>
    if zeros (out.flatMap limbBytes) < ones text then Checked.panic
    else pure ((out.flatMap limbBytes).drop (zeros (out.flatMap limbBytes) - ones text))) = _
  rw [utf8_drop_ones, hrun]
  show (if zeros (out.flatMap limbBytes) < ones text then Checked.panic
    else pure ((out.flatMap limbBytes).drop (zeros (out.flatMap limbBytes) - ones text))) = _
  by_cases hones : 132 < ones text + (radix 256 (ofRadix 58 ds)).length
  · rw [if_pos hones, if_pos (by omega)]
  · rw [if_neg hones, if_neg (by omega), hsplit, zeros_append_radix,
      List.drop_append_of_le_length (by rw [List.length_replicate]; omega), List.drop_replicate]
    have : zeros (out.flatMap limbBytes) - (zeros (out.flatMap limbBytes) - ones text) = ones text := by
      omega
    rw [this]
    rfl

theorem fromBase58_fail {text : List Char}
    (h : ∀ ds, readDigits (text.dropWhile (· = '1')) = some ds → 256 ^ 132 ≤ ofRadix 58 ds) :
    ∃ e, fromBase58 text = Checked.fail e := by
  have hzero : ofRadix (2 ^ 32) (List.replicate 33 0) = 0 := ofRadix_replicate_zero 33
  have hpow : (2 ^ 32) ^ (List.replicate 33 0).length = 256 ^ 132 := by
    rw [List.length_replicate]
    norm_num
  have hlow : ∀ l ∈ List.replicate 33 0, l < 2 ^ 32 := fun l hl => by
    rw [List.eq_of_mem_replicate hl]
    decide
  obtain ⟨e, hrun⟩ : ∃ e, pushDigits (utf8 (text.dropWhile (· = '1'))) (ones text)
      (List.replicate 33 0) = Checked.fail e :=
    pushDigits_fail hlow fun ds hds => by
      rw [hpow, hzero, Nat.zero_mul, Nat.zero_add]
      exact h ds hds
  refine ⟨e, ?_⟩
  unfold fromBase58
  show (pushDigits ((utf8 text).drop (ones text)) (ones text) (List.replicate 33 0) >>= _) = _
  rw [utf8_drop_ones, hrun]
  rfl

/-! ## There and back -/

theorem alphabet_eq_one {d : Nat} (h : d < 58) : alphabet d = '1' ↔ d = 0 := by
  constructor
  · intro hone
    have hd := digit_alphabet h
    rw [hone] at hd
    exact (Option.some.inj hd).symm
  · rintro rfl
    rfl

/-- The ones of a text that is spelt, and its digits. -/
theorem spell_parts (k n : Nat) :
    ones (spell k n) = k ∧ (spell k n).dropWhile (· = '1') = (radix 58 n).map alphabet := by
  unfold ones spell
  induction k with
  | zero =>
    rw [List.replicate_zero, List.nil_append]
    rcases h : radix 58 n with _ | ⟨d, l⟩
    · exact ⟨rfl, rfl⟩
    · have hone : alphabet d ≠ '1' := fun hone => head_radix h
        ((alphabet_eq_one (radix_lt (by decide) (h ▸ List.mem_cons_self))).1 hone)
      rw [List.map_cons, List.takeWhile_cons_of_neg (by simpa using hone),
        List.dropWhile_cons_of_neg (by simpa using hone)]
      exact ⟨rfl, rfl⟩
  | succ k ih =>
    rw [List.replicate_succ, List.cons_append, List.takeWhile_cons_of_pos (by simp),
      List.dropWhile_cons_of_pos (by simp), List.length_cons, ih.1, ih.2]
    exact ⟨rfl, rfl⟩

/-- A text of digits is spelt by its ones and its number. -/
theorem spell_of_digits {text : List Char} {ds : List Nat}
    (h : readDigits (text.dropWhile (· = '1')) = some ds) : text = spell (ones text) (ofRadix 58 ds) := by
  obtain ⟨hmap, hlt⟩ := readDigits_some h
  have hzeros : zeros ds = 0 := by
    rcases ds with _ | ⟨d, ds⟩
    · rfl
    · have hd : d ≠ 0 := by
        rintro rfl
        have hne : text.dropWhile (· = '1') ≠ [] := by
          rw [← hmap]
          simp
        have hhead := List.head_dropWhile_not (fun c => decide (c = '1')) hne
        have hcon : (text.dropWhile (· = '1')).head hne = '1' := by
          simp only [← hmap]
          rfl
        rw [hcon] at hhead
        cases hhead
      unfold zeros
      rw [List.takeWhile_cons_of_neg (by simpa using hd)]
      rfl
  have hones : text.takeWhile (· = '1') = List.replicate (ones text) '1' :=
    List.eq_replicate_iff.2 ⟨rfl, fun c hc => by simpa using List.mem_takeWhile_imp hc⟩
  unfold spell
  rw [radix_ofRadix (by decide) hlt hzeros, hmap, ← hones, List.takeWhile_append_dropWhile]

/-- What is read of a text that is spelt. -/
theorem fromBase58_spell {k n : Nat} (hn : n < 256 ^ 132) : fromBase58 (spell k n) =
    if 132 < k + (radix 256 n).length then Checked.panic
    else .ok (List.replicate k 0 ++ radix 256 n) := by
  obtain ⟨hones, hdrop⟩ := spell_parts k n
  have hread : readDigits ((spell k n).dropWhile (· = '1')) = some (radix 58 n) := by
    rw [hdrop]
    exact readDigits_map fun d hd => radix_lt (by decide) hd
  have hrun := fromBase58_digits hread (by rw [ofRadix_radix]; exact hn)
  rw [hones, ofRadix_radix] at hrun
  exact hrun

theorem bytes_zeros_radix (k n : Nat) : ∀ b ∈ List.replicate k 0 ++ radix 256 n, b < 256 := by
  intro b hb
  rcases List.mem_append.1 hb with hb | hb
  · rw [List.eq_of_mem_replicate hb]
    decide
  · exact radix_lt (by decide) hb

theorem toBase58_zeros_radix (k n : Nat) :
    toBase58 (List.replicate k 0 ++ radix 256 n) = some (spell k n) := by
  rw [toBase58_eq (bytes_zeros_radix k n), zeros_append_radix, ofRadix_pad, ofRadix_radix]

/-- A text is spelt by a number that fits, and read as that, or it is refused. -/
theorem fromBase58_cases (text : List Char) :
    (∃ k n, text = spell k n ∧ n < 256 ^ 132) ∨ ∃ e, fromBase58 text = Checked.fail e := by
  by_cases h : ∃ ds, readDigits (text.dropWhile (· = '1')) = some ds ∧ ofRadix 58 ds < 256 ^ 132
  · obtain ⟨ds, hds, hlt⟩ := h
    exact .inl ⟨_, _, spell_of_digits hds, hlt⟩
  · exact .inr (fromBase58_fail fun ds hds => Nat.le_of_not_lt fun hlt => h ⟨ds, hds, hlt⟩)

theorem fromBase58_toBase58 {b : List Nat} (hlen : b.length ≤ 132) (hb : ∀ x ∈ b, x < 256) {s : List Char}
    (h : toBase58 b = some s) : fromBase58 s = .ok b := by
  rw [toBase58_eq hb] at h
  obtain rfl := Option.some.inj h
  have hsplit := eq_zeros_radix (by decide) hb
  have hcount := congrArg List.length hsplit
  rw [List.length_append, List.length_replicate] at hcount
  have hn : ofRadix 256 b < 256 ^ 132 := (length_radix_le (by decide)).1 (by omega)
  rw [fromBase58_spell hn, if_neg (by omega), ← hsplit]

/-- What was read are at most 132 bytes, and is written as it was. -/
theorem fromBase58_ok {s : List Char} {b : List Nat} (h : fromBase58 s = .ok b) :
    toBase58 b = some s ∧ b.length ≤ 132 ∧ ∀ x ∈ b, x < 256 := by
  rcases fromBase58_cases s with ⟨k, n, rfl, hn⟩ | ⟨e, he⟩
  · rw [fromBase58_spell hn] at h
    split_ifs at h with hlong
    · cases h
    · obtain rfl := Except.ok.inj h
      refine ⟨toBase58_zeros_radix k n, ?_, bytes_zeros_radix k n⟩
      rw [List.length_append, List.length_replicate]
      omega
  · rw [he] at h
    cases h

/-- Bytes that fit are read back, a text that is read is written back, and the buffer of the digits is never
too small. -/
theorem base58_exact :
    (∀ b : List Nat, b.length ≤ 132 → (∀ x ∈ b, x < 256) →
      ∃ s, toBase58 b = some s ∧ fromBase58 s = .ok b) ∧
    (∀ s b, fromBase58 s = .ok b → toBase58 b = some s) ∧
    ∀ b : List Nat, (∀ x ∈ b, x < 256) → (toBase58 b).isSome := by
  refine ⟨fun b hlen hb => ?_, fun s b h => (fromBase58_ok h).1, fun b hb => ?_⟩
  · exact ⟨_, toBase58_eq hb, fromBase58_toBase58 hlen hb (toBase58_eq hb)⟩
  · rw [toBase58_eq hb]
    rfl

/-- Texts of 132 bytes and less are read back. -/
theorem base58_exact_zero :
    ∃ s, toBase58 [0, 1] = some s ∧ fromBase58 s = .ok [0, 1] :=
  base58_exact.1 [0, 1] (by decide) (by decide)

/-! ## Panics -/

/-- What is checked and has more before the checksum than nothing, but less than the version. -/
def ShortPayload (K : CryptoLib) (versionBytes : Nat) (b : List Nat) : Prop :=
  5 ≤ b.length ∧ b.length ≤ 132 ∧
    (doubleSha256 K (b.take (b.length - 4))).take 4 = b.drop (b.length - 4) ∧ b.length - 4 < versionBytes

theorem fromBase58_panic_iff (s : List Char) : fromBase58 s = Checked.panic ↔
    ∃ b, (∀ x ∈ b, x < 256) ∧ toBase58 b = some s ∧ 132 < b.length ∧
      (b.dropWhile (· = 0)).length ≤ 132 := by
  constructor
  · intro h
    rcases fromBase58_cases s with ⟨k, n, rfl, hn⟩ | ⟨e, he⟩
    · rw [fromBase58_spell hn] at h
      split_ifs at h with hlong
      · refine ⟨_, bytes_zeros_radix k n, toBase58_zeros_radix k n, ?_, ?_⟩
        · rw [List.length_append, List.length_replicate]
          exact hlong
        · rw [dropWhile_zero (by decide) (bytes_zeros_radix k n), ofRadix_pad, ofRadix_radix]
          exact (length_radix_le (by decide)).2 hn
      · cases h
    · rw [he] at h
      cases h
  · rintro ⟨b, hb, hspell, hlong, hshort⟩
    rw [toBase58_eq hb] at hspell
    obtain rfl := Option.some.inj hspell
    have hsplit := eq_zeros_radix (by decide) hb
    have hcount := congrArg List.length hsplit
    rw [List.length_append, List.length_replicate] at hcount
    rw [dropWhile_zero (by decide) hb] at hshort
    rw [fromBase58_spell ((length_radix_le (by decide)).1 hshort), if_pos (by omega)]

theorem fromBase58_ne_panic_iff (s : List Char) : fromBase58 s ≠ Checked.panic ↔
    ∀ b, (∀ x ∈ b, x < 256) → toBase58 b = some s →
      b.length ≤ 132 ∨ 132 < (b.dropWhile (· = 0)).length := by
  rw [ne_eq, fromBase58_panic_iff]
  constructor
  · intro h b hb hspell
    by_contra hcon
    exact h ⟨b, hb, hspell, by omega, by omega⟩
  · rintro h ⟨b, hb, hspell, hlong, hshort⟩
    have := h b hb hspell
    omega

theorem fromBase58Check_ne_panic_iff (K : CryptoLib) (s : List Char) (versionBytes : Nat) :
    fromBase58Check K s versionBytes ≠ Checked.panic ↔
      ∀ b, (∀ x ∈ b, x < 256) → toBase58 b = some s →
        (b.length ≤ 132 ∨ 132 < (b.dropWhile (· = 0)).length) ∧ ¬ShortPayload K versionBytes b := by
  have hplain := fromBase58_ne_panic_iff s
  rcases hrun : fromBase58 s with (e | _) | b
  · -- refused: no bytes that fit have this text
    have hcheck : fromBase58Check K s versionBytes = Checked.fail e := by
      unfold fromBase58Check
      rw [hrun]
      rfl
    have hread := hplain.1 (by rw [hrun]; exact nofun)
    refine ⟨fun _ b hb hspell => ⟨hread b hb hspell, fun hpayload => ?_⟩,
      fun _ => by rw [hcheck]; exact nofun⟩
    rw [fromBase58_toBase58 hpayload.2.1 hb hspell] at hrun
    cases hrun
  · have hcheck : fromBase58Check K s versionBytes = Checked.panic := by
      unfold fromBase58Check
      rw [hrun]
      rfl
    refine ⟨fun h => absurd hcheck h, fun h => ?_⟩
    exact absurd hrun (hplain.2 fun b hb hspell => (h b hb hspell).1)
  · obtain ⟨hspell, hlen, hb⟩ := fromBase58_ok hrun
    have hread := hplain.1 (by rw [hrun]; exact nofun)
    have hunique : ∀ b', (∀ x ∈ b', x < 256) → toBase58 b' = some s → b'.length ≤ 132 → b' = b := by
      intro b' hb' hspell' hlen'
      rw [fromBase58_toBase58 hlen' hb' hspell'] at hrun
      exact Except.ok.inj hrun
    have hcheck : fromBase58Check K s versionBytes = Checked.panic ↔ ShortPayload K versionBytes b := by
      unfold fromBase58Check ShortPayload
      rw [hrun]
      show (if b.length < 5 then Checked.fail .invalidBase58Checksum
        else if (doubleSha256 K (b.take (b.length - 4))).take 4 ≠ b.drop (b.length - 4) then
          Checked.fail .invalidBase58Checksum
        else if (b.take (b.length - 4)).length < versionBytes then Checked.panic
        else pure ((b.take (b.length - 4)).take versionBytes, (b.take (b.length - 4)).drop versionBytes)) =
        Checked.panic ↔ _
      rw [List.length_take, Nat.min_eq_left (Nat.sub_le _ _)]
      split_ifs with hshort hsum hversion
      · exact ⟨nofun, fun h => absurd h.1 (by omega)⟩
      · exact ⟨nofun, fun h => absurd h.2.2.1 hsum⟩
      · exact ⟨fun _ => ⟨by omega, hlen, not_not.1 hsum, hversion⟩, fun _ => rfl⟩
      · exact ⟨nofun, fun h => absurd h.2.2.2 hversion⟩
    rw [ne_eq, hcheck]
    constructor
    · intro hpayload b' hb' hspell'
      refine ⟨hread b' hb' hspell', fun hcon => ?_⟩
      rw [hunique b' hb' hspell' hcon.2.1] at hcon
      exact hpayload hcon
    · exact fun h => (h b hb hspell).2

/-- Decoding panics on the texts of more than 132 bytes of which at most 132 follow the zeros, and with a
check also on those of a payload shorter than the version. -/
theorem rejects_iff (K : CryptoLib) (s : List Char) (versionBytes : Nat) :
    (fromBase58 s ≠ Checked.panic ↔
      ∀ b, (∀ x ∈ b, x < 256) → toBase58 b = some s →
        b.length ≤ 132 ∨ 132 < (b.dropWhile (· = 0)).length) ∧
    (fromBase58Check K s versionBytes ≠ Checked.panic ↔
      ∀ b, (∀ x ∈ b, x < 256) → toBase58 b = some s →
        (b.length ≤ 132 ∨ 132 < (b.dropWhile (· = 0)).length) ∧ ¬ShortPayload K versionBytes b) :=
  ⟨fromBase58_ne_panic_iff s, fromBase58Check_ne_panic_iff K s versionBytes⟩

/-- A hundred and thirty-three ones, and one byte with its checksum where a version of two is wanted. -/
theorem rejects_not :
    fromBase58 (List.replicate 133 '1') = Checked.panic ∧
      toBase58 [7, 224, 224, 224, 224] = some ['t', 'Z', '7', 'a', '7', 'H'] ∧
      fromBase58Check CryptoLib.small ['t', 'Z', '7', 'a', '7', 'H'] 2 = Checked.panic := by
  decide +kernel

end Base58

end EpicWallet
