import Mathlib.Algebra.Order.Ring.Nat
import Mathlib.Data.List.TakeWhile
import Mathlib.Data.Nat.Digits.Lemmas
import Mathlib.Tactic.Ring

/-!
# Numbers by their digits, highest first

`ofRadix b l` is the number with the digits `l`, and `radix b n` are the digits of a number, without zeros
in front. Digits without zeros in front are those of their number (`radix_ofRadix`), and any digits below
the base are zeros and those of their number (`eq_zeros_radix`).
-/

namespace EpicWallet.Lib

/-- The number with these digits. -/
def ofRadix (b : Nat) (l : List Nat) : Nat := Nat.ofDigits b l.reverse

/-- The digits of a number. -/
def radix (b n : Nat) : List Nat := (Nat.digits b n).reverse

/-- The zeros in front. -/
def zeros (l : List Nat) : Nat := (l.takeWhile (· = 0)).length

variable {b : Nat}

@[simp] theorem ofRadix_nil : ofRadix b [] = 0 := rfl

theorem ofRadix_append (l r : List Nat) :
    ofRadix b (l ++ r) = ofRadix b l * b ^ r.length + ofRadix b r := by
  unfold ofRadix
  rw [List.reverse_append, Nat.ofDigits_append, List.length_reverse]
  ring

theorem ofRadix_singleton (d : Nat) : ofRadix b [d] = d := Nat.ofDigits_singleton

theorem ofRadix_cons (d : Nat) (l : List Nat) : ofRadix b (d :: l) = d * b ^ l.length + ofRadix b l := by
  rw [← List.singleton_append, ofRadix_append, ofRadix_singleton]

theorem ofRadix_lt (hb : 1 < b) {l : List Nat} (h : ∀ d ∈ l, d < b) : ofRadix b l < b ^ l.length := by
  rw [← List.length_reverse]
  exact Nat.ofDigits_lt_base_pow_length hb fun d hd => h d (List.mem_reverse.1 hd)

@[simp] theorem ofRadix_replicate_zero (n : Nat) : ofRadix b (List.replicate n 0) = 0 := by
  unfold ofRadix
  rw [List.reverse_replicate, Nat.ofDigits_replicate_zero]

@[simp] theorem ofRadix_radix (n : Nat) : ofRadix b (radix b n) = n := by
  unfold ofRadix radix
  rw [List.reverse_reverse, Nat.ofDigits_digits]

theorem radix_lt (hb : 1 < b) {n d : Nat} (h : d ∈ radix b n) : d < b :=
  Nat.digits_lt_base hb (List.mem_reverse.1 h)

/-- No digit in front is zero. -/
theorem head_radix {n d : Nat} {l : List Nat} (h : radix b n = d :: l) : d ≠ 0 := by
  rintro rfl
  have hrev : Nat.digits b n = l.reverse ++ [0] := by
    rw [← List.reverse_reverse (Nat.digits b n)]
    show (radix b n).reverse = _
    rw [h, List.reverse_cons]
  have hne : Nat.digits b n ≠ [] := by
    rw [hrev]
    simp
  have hn : n ≠ 0 := fun hn => hne (by rw [hn, Nat.digits_zero])
  have hlast := Nat.getLast_digit_ne_zero b hn
  simp only [hrev, List.getLast_append_singleton] at hlast
  exact hlast rfl

@[simp] theorem zeros_radix (n : Nat) : zeros (radix b n) = 0 := by
  unfold zeros
  rcases h : radix b n with _ | ⟨d, l⟩
  · rfl
  · rw [List.takeWhile_cons_of_neg (by simpa using head_radix h)]
    rfl

/-- Digits without zeros in front are those of their number. -/
theorem radix_ofRadix (hb : 1 < b) {l : List Nat} (h : ∀ d ∈ l, d < b) (hzeros : zeros l = 0) :
    radix b (ofRadix b l) = l := by
  unfold radix ofRadix
  rw [Nat.digits_ofDigits b hb _ (fun d hd => h d (List.mem_reverse.1 hd)), List.reverse_reverse]
  intro hne hlast
  rcases l with _ | ⟨d, l⟩
  · exact hne rfl
  · rw [List.getLast_reverse] at hlast
    obtain rfl : d = 0 := hlast
    simp [zeros] at hzeros

theorem takeWhile_zero (l : List Nat) : l.takeWhile (· = 0) = List.replicate (zeros l) 0 :=
  List.eq_replicate_iff.2 ⟨rfl, fun d hd => by simpa using List.mem_takeWhile_imp hd⟩

theorem zeros_dropWhile (l : List Nat) : zeros (l.dropWhile (· = 0)) = 0 := by
  induction l with
  | nil => rfl
  | cons d l ih =>
    by_cases hd : d = 0
    · rw [List.dropWhile_cons_of_pos (by simpa using hd)]
      exact ih
    · rw [List.dropWhile_cons_of_neg (by simpa using hd)]
      unfold zeros
      rw [List.takeWhile_cons_of_neg (by simpa using hd)]
      rfl

theorem zeros_append_dropWhile (l : List Nat) : List.replicate (zeros l) 0 ++ l.dropWhile (· = 0) = l := by
  rw [← takeWhile_zero, List.takeWhile_append_dropWhile]

/-- A number with zeros in front. -/
theorem ofRadix_pad (k : Nat) (l : List Nat) : ofRadix b (List.replicate k 0 ++ l) = ofRadix b l := by
  rw [ofRadix_append, ofRadix_replicate_zero, Nat.zero_mul, Nat.zero_add]

theorem dropWhile_zero (hb : 1 < b) {l : List Nat} (h : ∀ d ∈ l, d < b) :
    l.dropWhile (· = 0) = radix b (ofRadix b l) := by
  have hnumber : ofRadix b (l.dropWhile (· = 0)) = ofRadix b l := by
    conv_rhs => rw [← zeros_append_dropWhile l]
    rw [ofRadix_pad]
  rw [← hnumber,
    radix_ofRadix hb (fun d hd => h d ((List.dropWhile_suffix _).subset hd)) (zeros_dropWhile l)]

/-- Digits below the base are zeros and the digits of their number. -/
theorem eq_zeros_radix (hb : 1 < b) {l : List Nat} (h : ∀ d ∈ l, d < b) :
    l = List.replicate (zeros l) 0 ++ radix b (ofRadix b l) := by
  rw [← dropWhile_zero hb h, zeros_append_dropWhile]

theorem drop_zeros (hb : 1 < b) {l : List Nat} (h : ∀ d ∈ l, d < b) :
    l.drop (zeros l) = radix b (ofRadix b l) := by
  have hdrop : (List.replicate (zeros l) 0 ++ l.dropWhile (· = 0)).drop (zeros l) = l.dropWhile (· = 0) :=
    List.drop_left' List.length_replicate
  rw [zeros_append_dropWhile] at hdrop
  rw [hdrop, dropWhile_zero hb h]

theorem zeros_append_radix (k n : Nat) : zeros (List.replicate k 0 ++ radix b n) = k := by
  induction k with
  | zero => exact zeros_radix n
  | succ k ih =>
    unfold zeros at ih ⊢
    rw [List.replicate_succ, List.cons_append, List.takeWhile_cons_of_pos (by simp), List.length_cons, ih]

theorem length_radix_le (hb : 1 < b) {n k : Nat} : (radix b n).length ≤ k ↔ n < b ^ k := by
  unfold radix
  rw [List.length_reverse, Nat.digits_length_le_iff hb]

end EpicWallet.Lib
