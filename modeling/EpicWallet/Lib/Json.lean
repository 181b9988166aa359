import Mathlib.Tactic.Common
import Mathlib.Data.List.Basic

/-!
# JSON with unsigned numbers

The JSON values an unsigned-integer serializer emits, their compact text and a reader that allows
white space between tokens.

* `read_render`: the reader returns the value whose text it is given.
* `render_mapStr`: a change of apostrophes in the text (`TextMap`) is the text of the value with
  its strings changed.
* `apostrophe_mem_render`: the text contains an apostrophe exactly when a string of the value does.

Numbers are naturals; the reader rejects signs, fractions and exponents, and the escapes of
surrogate pairs, none of which the printer writes.
-/

namespace EpicWallet.Lib

inductive Json where
  | null
  | bool (b : Bool)
  | num (n : Nat)
  | str (s : String)
  | arr (l : List Json)
  | obj (l : List (String × Json))

namespace Json

/-! ## Text of a value -/

def hexDigit (n : Nat) : Char := "0123456789abcdef".toList.getD n '0'

/-- The text of one character of a string. -/
def escapeChar (c : Char) : List Char :=
  if c = '"' then ['\\', '"']
  else if c = '\\' then ['\\', '\\']
  else if c = '\n' then ['\\', 'n']
  else if c = '\r' then ['\\', 'r']
  else if c = '\t' then ['\\', 't']
  else if c.toNat = 8 then ['\\', 'b']
  else if c.toNat = 12 then ['\\', 'f']
  else if c.toNat < 32 then ['\\', 'u', '0', '0', hexDigit (c.toNat / 16), hexDigit (c.toNat % 16)]
  else [c]

def escape (l : List Char) : List Char := l.flatMap escapeChar

def renderStr (s : String) : List Char := '"' :: (escape s.toList ++ ['"'])

mutual

/-- The compact text of a value. -/
def render : Json → List Char
  | .null => "null".toList
  | .bool true => "true".toList
  | .bool false => "false".toList
  | .num n => Nat.toDigits 10 n
  | .str s => renderStr s
  | .arr l => '[' :: (renderElems l ++ [']'])
  | .obj l => '{' :: (renderFields l ++ ['}'])

def renderElems : List Json → List Char
  | [] => []
  | [j] => render j
  | j :: l => render j ++ ',' :: renderElems l

def renderFields : List (String × Json) → List Char
  | [] => []
  | [(k, j)] => renderStr k ++ ':' :: render j
  | (k, j) :: l => renderStr k ++ ':' :: (render j ++ ',' :: renderFields l)

end

theorem renderElems_cons (j : Json) {l : List Json} (h : l ≠ []) :
    renderElems (j :: l) = render j ++ ',' :: renderElems l := by
  rw [renderElems]
  simpa using h

theorem renderFields_cons (k : String) (j : Json) {l : List (String × Json)} (h : l ≠ []) :
    renderFields ((k, j) :: l) = renderStr k ++ ':' :: (render j ++ ',' :: renderFields l) := by
  rw [renderFields]
  simpa using h

/-! ## Reading -/

def hexVal (c : Char) : Option Nat :=
  if '0' ≤ c ∧ c ≤ '9' then some (c.toNat - 48)
  else if 'a' ≤ c ∧ c ≤ 'f' then some (c.toNat - 87)
  else if 'A' ≤ c ∧ c ≤ 'F' then some (c.toNat - 55)
  else none

/-- The character with code `abcd` in hexadecimal, outside the surrogates. -/
def hexChar (a b c d : Char) : Option Char := do
  let n := ((← hexVal a) * 16 + (← hexVal b)) * 256 + ((← hexVal c) * 16 + (← hexVal d))
  if n.isValidChar then some (Char.ofNat n) else none

def unescape (c : Char) : Option Char :=
  if c = '"' ∨ c = '\\' ∨ c = '/' then some c
  else if c = 'n' then some '\n'
  else if c = 'r' then some '\r'
  else if c = 't' then some '\t'
  else if c = 'b' then some (Char.ofNat 8)
  else if c = 'f' then some (Char.ofNat 12)
  else none

/-- The characters of a string up to its closing quote, and the rest of the text. -/
def readChars : List Char → Option (List Char × List Char)
  | [] => none
  | c :: r =>
    if c = '"' then some ([], r)
    else if c = '\\' then
      match r with
      | [] => none
      | 'u' :: a :: b :: x :: y :: r' =>
        (hexChar a b x y).bind fun c => (readChars r').map fun p => (c :: p.1, p.2)
      | e :: r' => (unescape e).bind fun c => (readChars r').map fun p => (c :: p.1, p.2)
    else if c.toNat < 32 then none
    else (readChars r).map fun p => (c :: p.1, p.2)

def readStr : List Char → Option (String × List Char)
  | '"' :: r => (readChars r).map fun p => (String.ofList p.1, p.2)
  | _ => none

def skipWs : List Char → List Char
  | [] => []
  | c :: r => if c = ' ' ∨ c = '\n' ∨ c = '\r' ∨ c = '\t' then skipWs r else c :: r

/-- A number has no leading zero. -/
def readNum (l : List Char) : Option (Nat × List Char) :=
  let ds := l.takeWhile Char.isDigit
  if ds = [] ∨ (ds.head? = some '0' ∧ ds.length ≠ 1) then none
  else some (Nat.ofDigitChars 10 ds 0, l.dropWhile Char.isDigit)

mutual

/-- A value and the rest of the text; the fuel bounds the nesting and the number of elements. -/
def readValue : Nat → List Char → Option (Json × List Char)
  | 0, _ => none
  | n + 1, l =>
    match skipWs l with
    | 'n' :: 'u' :: 'l' :: 'l' :: r => some (.null, r)
    | 't' :: 'r' :: 'u' :: 'e' :: r => some (.bool true, r)
    | 'f' :: 'a' :: 'l' :: 's' :: 'e' :: r => some (.bool false, r)
    | '"' :: r => (readStr ('"' :: r)).map fun p => (.str p.1, p.2)
    | '[' :: r =>
      match skipWs r with
      | ']' :: r' => some (.arr [], r')
      | r' => (readElems n r').map fun p => (.arr p.1, p.2)
    | '{' :: r =>
      match skipWs r with
      | '}' :: r' => some (.obj [], r')
      | r' => (readFields n r').map fun p => (.obj p.1, p.2)
    | r => (readNum r).map fun p => (.num p.1, p.2)

def readElems : Nat → List Char → Option (List Json × List Char)
  | 0, _ => none
  | n + 1, l =>
    (readValue n l).bind fun (j, r) =>
      match skipWs r with
      | ']' :: r => some ([j], r)
      | ',' :: r => (readElems n r).map fun p => (j :: p.1, p.2)
      | _ => none

def readFields : Nat → List Char → Option (List (String × Json) × List Char)
  | 0, _ => none
  | n + 1, l =>
    (readStr (skipWs l)).bind fun (k, r) =>
      match skipWs r with
      | ':' :: r =>
        (readValue n r).bind fun (j, r) =>
          match skipWs r with
          | '}' :: r => some ([(k, j)], r)
          | ',' :: r => (readFields n r).map fun p => ((k, j) :: p.1, p.2)
          | _ => none
      | _ => none

end

/-- The value of a whole text. -/
def read (l : List Char) : Option Json :=
  (readValue (l.length + 1) l).bind fun (j, r) => if skipWs r = [] then some j else none

/-! ## The reader undoes the printer -/

theorem hexChar_control : ∀ n < 32,
    hexChar '0' '0' (hexDigit (n / 16)) (hexDigit (n % 16)) = some (Char.ofNat n) := by
  decide

theorem readChars_escapeChar (c : Char) (l : List Char) :
    readChars (escapeChar c ++ l) = (readChars l).map fun p => (c :: p.1, p.2) := by
  have h8 : c.toNat = 8 → Char.ofNat 8 = c := fun h => h ▸ Char.ofNat_toNat c
  have h12 : c.toNat = 12 → Char.ofNat 12 = c := fun h => h ▸ Char.ofNat_toNat c
  unfold escapeChar
  split_ifs with h1 h2 h3 h4 h5 h6 h7 hc
  · subst h1; simp [readChars, unescape]
  · subst h2; simp [readChars, unescape]
  · subst h3; simp [readChars, unescape]
  · subst h4; simp [readChars, unescape]
  · subst h5; simp [readChars, unescape]
  · rw [← h8 h6]; simp [readChars, unescape]
  · rw [← h12 h7]; simp [readChars, unescape]
  · simp [readChars, hexChar_control _ hc, Char.ofNat_toNat]
  · rw [List.singleton_append, readChars.eq_def]
    simp only [if_neg h1, if_neg h2, if_neg hc]

theorem readChars_escape (l r : List Char) : readChars (escape l ++ '"' :: r) = some (l, r) := by
  induction l with
  | nil => rw [readChars.eq_def]; rfl
  | cons c l ih =>
    rw [escape, List.flatMap_cons, List.append_assoc, readChars_escapeChar, ← escape, ih]
    rfl

theorem readStr_renderStr (s : String) (r : List Char) :
    readStr (renderStr s ++ r) = some (s, r) := by
  simp [renderStr, readStr, readChars_escape]

/-- The text `r` does not continue a number. -/
def EndsNum (r : List Char) : Prop := ∀ c, r.head? = some c → c.isDigit = false

theorem endsNum_cons {c : Char} (h : c.isDigit = false) (r : List Char) : EndsNum (c :: r) := by
  intro d hd
  cases hd
  exact h

theorem endsNum_nil : EndsNum [] := by simp [EndsNum]

/-- The digits of a number: a first digit, which is `0` only for zero itself. -/
theorem toDigits_cons (n : Nat) : ∃ c l, Nat.toDigits 10 n = c :: l ∧ c.isDigit = true ∧
    (c = '0' → l = []) := by
  induction n using Nat.strongRecOn with
  | _ n ih =>
    rw [Nat.toDigits_eq_if (by decide)]
    split
    · exact ⟨_, [], rfl, Nat.isDigit_of_mem_toDigits (b := 10) (n := n) (by decide) (by decide)
        (by simp [Nat.toDigits_of_lt_base ‹n < 10›]), fun _ => rfl⟩
    · obtain ⟨c, l, h, hd, h0⟩ := ih (n / 10) (by omega)
      refine ⟨c, l ++ [(n % 10).digitChar], by simp [h], hd, fun hc => ?_⟩
      have hl : l = [] := h0 hc
      subst hc hl
      have := Nat.ofDigitChars_ten_toDigits (n := n / 10)
      rw [h] at this
      simp [Nat.ofDigitChars] at this
      omega

theorem readNum_toDigits (n : Nat) {r : List Char} (hr : EndsNum r) :
    readNum (Nat.toDigits 10 n ++ r) = some (n, r) := by
  have hall : ∀ c ∈ Nat.toDigits 10 n, c.isDigit = true := fun c hc =>
    Nat.isDigit_of_mem_toDigits (b := 10) (by decide) (by decide) hc
  have htr : r.takeWhile Char.isDigit = [] ∧ r.dropWhile Char.isDigit = r := by
    cases r with
    | nil => simp
    | cons c r => simp [hr c rfl]
  have ht : (Nat.toDigits 10 n ++ r).takeWhile Char.isDigit = Nat.toDigits 10 n := by
    rw [List.takeWhile_append_of_pos hall, htr.1, List.append_nil]
  have hd : (Nat.toDigits 10 n ++ r).dropWhile Char.isDigit = r := by
    rw [List.dropWhile_append_of_pos hall, htr.2]
  obtain ⟨c, l, h, -, h0⟩ := toDigits_cons n
  have hz : ¬(Nat.toDigits 10 n = [] ∨
      (Nat.toDigits 10 n).head? = some '0' ∧ (Nat.toDigits 10 n).length ≠ 1) := by
    rw [h]
    rintro (h' | ⟨h', hl⟩)
    · cases h'
    · exact hl (by simp [h0 (by simpa using h')])
  unfold readNum
  simp only [ht, hd, if_neg hz, Nat.ofDigitChars_ten_toDigits]

/-- Reading what starts with a digit reads a number. -/
theorem readValue_digit {n : Nat} {c : Char} {l : List Char} (hc : c.isDigit = true) :
    readValue (n + 1) (c :: l) = (readNum (c :: l)).map fun p => (.num p.1, p.2) := by
  have hws : skipWs (c :: l) = c :: l := by
    unfold skipWs
    rw [if_neg]
    rintro (rfl | rfl | rfl | rfl) <;> simp at hc
  rw [readValue, hws]
  split <;> simp_all

mutual

/-- Fuel enough to read a value. -/
def need : Json → Nat
  | .arr l => 1 + needElems l
  | .obj l => 1 + needFields l
  | _ => 1

def needElems : List Json → Nat
  | [] => 0
  | j :: l => 1 + need j + needElems l

def needFields : List (String × Json) → Nat
  | [] => 0
  | (_, j) :: l => 1 + need j + needFields l

end

mutual

theorem need_le (j : Json) : need j ≤ (render j).length := by
  match j with
  | .null => decide
  | .bool true => decide
  | .bool false => decide
  | .num n => exact Nat.length_toDigits_pos
  | .str s => simp [need, render, renderStr]
  | .arr l => have := needElems_le l; simp [need, render]; omega
  | .obj l => have := needFields_le l; simp [need, render]; omega

theorem needElems_le (l : List Json) : needElems l ≤ (renderElems l).length + 1 := by
  match l with
  | [] => simp [needElems]
  | [j] => have := need_le j; simp [needElems, renderElems]; omega
  | j :: k :: l =>
    have := need_le j
    have := needElems_le (k :: l)
    rw [needElems]
    simp [renderElems] at this ⊢
    omega

theorem needFields_le (l : List (String × Json)) :
    needFields l ≤ (renderFields l).length + 1 := by
  match l with
  | [] => simp [needFields]
  | [(s, j)] => have := need_le j; simp [needFields, renderFields]; omega
  | (s, j) :: k :: l =>
    have := need_le j
    have := needFields_le (k :: l)
    rw [needFields]
    simp [renderFields] at this ⊢
    omega

end

/-- No value's text starts with white space or closes a bracket. -/
theorem render_head (j : Json) : ∃ c l, render j = c :: l ∧ (∀ r, skipWs (c :: r) = c :: r) ∧
    c ≠ ']' := by
  match j with
  | .null => exact ⟨'n', _, rfl, fun _ => by simp [skipWs], by decide⟩
  | .bool true => exact ⟨'t', _, rfl, fun _ => by simp [skipWs], by decide⟩
  | .bool false => exact ⟨'f', _, rfl, fun _ => by simp [skipWs], by decide⟩
  | .num n =>
    obtain ⟨c, l, h, hd, -⟩ := toDigits_cons n
    refine ⟨c, l, h, fun r => ?_, by rintro rfl; simp at hd⟩
    unfold skipWs
    rw [if_neg]
    rintro (rfl | rfl | rfl | rfl) <;> simp at hd
  | .str s => exact ⟨'"', _, rfl, fun _ => by simp [skipWs], by decide⟩
  | .arr l => exact ⟨'[', _, rfl, fun _ => by simp [skipWs], by decide⟩
  | .obj l => exact ⟨'{', _, rfl, fun _ => by simp [skipWs], by decide⟩

theorem renderElems_head {l : List Json} (hl : l ≠ []) : ∃ c r, renderElems l = c :: r ∧
    (∀ r, skipWs (c :: r) = c :: r) ∧ c ≠ ']' := by
  match l with
  | [j] => exact render_head j
  | j :: k :: l =>
    obtain ⟨c, r, h, hc⟩ := render_head j
    exact ⟨c, r ++ ',' :: renderElems (k :: l), by simp [renderElems, h], hc⟩

theorem renderFields_head {l : List (String × Json)} (hl : l ≠ []) : ∃ r,
    renderFields l = '"' :: r := by
  match l with
  | [(k, j)] => exact ⟨_, rfl⟩
  | (k, j) :: k' :: l => exact ⟨_, rfl⟩

theorem skipWs_renderStr (s : String) (r : List Char) :
    skipWs (renderStr s ++ r) = renderStr s ++ r := by
  simp [renderStr, skipWs]

theorem skipWs_of_ne {c : Char} (h : c ≠ ' ' ∧ c ≠ '\n' ∧ c ≠ '\r' ∧ c ≠ '\t') (r : List Char) :
    skipWs (c :: r) = c :: r := by
  simp [skipWs, h]

theorem readValue_arr {n : Nat} {c : Char} {l : List Char} (hw : ∀ r, skipWs (c :: r) = c :: r)
    (hc : c ≠ ']') :
    readValue (n + 1) ('[' :: c :: l) =
      (readElems n (c :: l)).map fun p => (.arr p.1, p.2) := by
  rw [readValue, skipWs_of_ne (by decide)]
  simp only [hw]
  split
  · simp_all
  · rfl

theorem readValue_obj {n : Nat} {l : List Char} :
    readValue (n + 1) ('{' :: '"' :: l) =
      (readFields n ('"' :: l)).map fun p => (.obj p.1, p.2) := by
  rw [readValue, skipWs_of_ne (by decide)]
  simp [skipWs_of_ne]

mutual

theorem readValue_render (j : Json) {n : Nat} {r : List Char} (hn : need j ≤ n)
    (hr : EndsNum r) : readValue n (render j ++ r) = some (j, r) := by
  obtain ⟨n, rfl⟩ : ∃ m, n = m + 1 := by
    refine ⟨n - 1, ?_⟩
    have : 1 ≤ need j := by cases j <;> simp [need]
    omega
  match j with
  | .null => simp [render, readValue, skipWs]
  | .bool true => simp [render, readValue, skipWs]
  | .bool false => simp [render, readValue, skipWs]
  | .num k =>
    obtain ⟨c, l, h, hd, -⟩ := toDigits_cons k
    have := readNum_toDigits k hr
    rw [h, List.cons_append] at this
    rw [render, h, List.cons_append, readValue_digit hd, this]
    rfl
  | .str s =>
    have := readStr_renderStr s r
    simp only [renderStr, List.cons_append] at this
    simp only [render, renderStr, List.cons_append]
    rw [readValue, skipWs_of_ne (by decide)]
    simpa using this
  | .arr [] => simp [render, renderElems, readValue, skipWs]
  | .arr (a :: l) =>
    obtain ⟨c, t, h, hw, hc⟩ := renderElems_head (l := a :: l) (by simp)
    have := readElems_render (a :: l) (n := n) (r := r) (by simp) (by simp [need] at hn; omega)
    rw [h, List.cons_append] at this
    rw [render, h]
    simp only [List.cons_append, List.append_assoc, List.nil_append]
    rw [readValue_arr hw hc, this]
    rfl
  | .obj [] => simp [render, renderFields, readValue, skipWs]
  | .obj (a :: l) =>
    obtain ⟨t, h⟩ := renderFields_head (l := a :: l) (by simp)
    have := readFields_render (a :: l) (n := n) (r := r) (by simp) (by simp [need] at hn; omega)
    rw [h, List.cons_append] at this
    rw [render, h]
    simp only [List.cons_append, List.append_assoc, List.nil_append]
    rw [readValue_obj, this]
    rfl

theorem readElems_render (l : List Json) {n : Nat} {r : List Char} (hl : l ≠ [])
    (hn : needElems l ≤ n) : readElems n (renderElems l ++ ']' :: r) = some (l, r) := by
  obtain ⟨n, rfl⟩ : ∃ m, n = m + 1 := by
    refine ⟨n - 1, ?_⟩
    have : 1 ≤ needElems l := by cases l <;> simp [needElems] at hl ⊢; omega
    omega
  match l with
  | [j] =>
    have := readValue_render j (n := n) (r := ']' :: r) (by simp [needElems] at hn; omega)
      (endsNum_cons (by decide) _)
    rw [renderElems, readElems, this]
    simp [skipWs_of_ne]
  | j :: k :: l =>
    rw [needElems] at hn
    have h1 := readValue_render j (n := n) (r := ',' :: (renderElems (k :: l) ++ ']' :: r))
      (by omega) (endsNum_cons (by decide) _)
    have h2 := readElems_render (k :: l) (n := n) (r := r) (by simp) (by omega)
    rw [renderElems, readElems, List.append_assoc, List.cons_append, h1]
    · simp [skipWs_of_ne, h2]
    · simp

theorem readFields_render (l : List (String × Json)) {n : Nat} {r : List Char} (hl : l ≠ [])
    (hn : needFields l ≤ n) : readFields n (renderFields l ++ '}' :: r) = some (l, r) := by
  obtain ⟨n, rfl⟩ : ∃ m, n = m + 1 := by
    refine ⟨n - 1, ?_⟩
    have : 1 ≤ needFields l := by cases l <;> simp [needFields] at hl ⊢; omega
    omega
  match l with
  | [(s, j)] =>
    have := readValue_render j (n := n) (r := '}' :: r) (by simp [needFields] at hn; omega)
      (endsNum_cons (by decide) _)
    rw [renderFields, readFields, List.append_assoc, skipWs_renderStr, readStr_renderStr]
    simp [skipWs_of_ne, this]
  | (s, j) :: k :: l =>
    rw [needFields] at hn
    have h1 := readValue_render j (n := n) (r := ',' :: (renderFields (k :: l) ++ '}' :: r))
      (by omega) (endsNum_cons (by decide) _)
    have h2 := readFields_render (k :: l) (n := n) (r := r) (by simp) (by omega)
    rw [renderFields, readFields, List.append_assoc, skipWs_renderStr, readStr_renderStr]
    · simp only [List.cons_append, List.append_assoc, Option.bind_some,
        skipWs_of_ne (c := ':') (by decide), h1, skipWs_of_ne (c := ',') (by decide), h2]
      rfl
    · simp

end

/-- Reading a value's text gives the value. -/
theorem read_render (j : Json) : read (render j) = some j := by
  have h := readValue_render j (n := (render j).length + 1) (r := [])
    (Nat.le_succ_of_le (need_le j)) endsNum_nil
  rw [List.append_nil] at h
  rw [read, h]
  rfl

/-! ## Apostrophes

JSON's own syntax has none, so the apostrophes of a text are those of the strings. -/

/-- No apostrophe in the text. -/
def PlainChars (l : List Char) : Prop := '\'' ∉ l

instance (l : List Char) : Decidable (PlainChars l) := inferInstanceAs (Decidable (_ ∉ _))

mutual

/-- The strings of a value, keys included. -/
def strs : Json → List String
  | .str s => [s]
  | .arr l => elemStrs l
  | .obj l => fieldStrs l
  | _ => []

def elemStrs : List Json → List String
  | [] => []
  | j :: l => strs j ++ elemStrs l

def fieldStrs : List (String × Json) → List String
  | [] => []
  | (k, j) :: l => k :: (strs j ++ fieldStrs l)

end

/-- No string of the value contains an apostrophe. -/
def Plain (j : Json) : Prop := ∀ s ∈ j.strs, PlainChars s.toList

theorem plainChars_escapeChar {c : Char} (h : c ≠ '\'') : PlainChars (escapeChar c) := by
  have hex : ∀ n < 16, hexDigit n ≠ '\'' := by decide
  unfold escapeChar PlainChars
  split_ifs with _ _ _ _ _ _ _ hc
  all_goals first | decide | skip
  · simp [(hex (c.toNat / 16) (by omega)).symm, (hex (c.toNat % 16) (by omega)).symm]
  · simpa using h.symm

theorem escapeChar_apostrophe : escapeChar '\'' = ['\''] := by decide

theorem plainChars_escape {l : List Char} : PlainChars (escape l) ↔ PlainChars l := by
  unfold PlainChars escape
  rw [List.mem_flatMap, not_iff_not]
  constructor
  · rintro ⟨c, hc, hm⟩
    by_cases h : c = '\''
    · exact h ▸ hc
    · exact absurd hm (plainChars_escapeChar h)
  · exact fun h => ⟨_, h, by simp [escapeChar_apostrophe]⟩

theorem plainChars_renderStr {s : String} : PlainChars (renderStr s) ↔ PlainChars s.toList := by
  rw [← plainChars_escape (l := s.toList)]
  simp [PlainChars, renderStr]

theorem plainChars_toDigits (n : Nat) : PlainChars (Nat.toDigits 10 n) := fun h =>
  absurd (Nat.isDigit_of_mem_toDigits (b := 10) (by decide) (by decide) h) (by decide)

mutual

/-- The text has an apostrophe exactly when a string of the value has one. -/
theorem plainChars_render (j : Json) : PlainChars (render j) ↔ Plain j := by
  match j with
  | .null => simp [render, Plain, strs]; decide
  | .bool true => simp [render, Plain, strs]; decide
  | .bool false => simp [render, Plain, strs]; decide
  | .num n => simp [render, Plain, strs, plainChars_toDigits]
  | .str s => simpa [render, Plain, strs] using plainChars_renderStr
  | .arr l => simpa [render, Plain, strs, PlainChars] using plainChars_renderElems l
  | .obj l => simpa [render, Plain, strs, PlainChars] using plainChars_renderFields l

theorem plainChars_renderElems (l : List Json) :
    PlainChars (renderElems l) ↔ ∀ s ∈ elemStrs l, PlainChars s.toList := by
  match l with
  | [] => simp [renderElems, elemStrs, PlainChars]
  | [j] => simpa [renderElems, elemStrs, Plain] using plainChars_render j
  | j :: k :: l =>
    have h1 := plainChars_render j
    have h2 := plainChars_renderElems (k :: l)
    rw [renderElems, elemStrs]
    · simp only [PlainChars, Plain, List.mem_append, List.mem_cons] at h1 h2 ⊢
      grind
    · simp

theorem plainChars_renderFields (l : List (String × Json)) :
    PlainChars (renderFields l) ↔ ∀ s ∈ fieldStrs l, PlainChars s.toList := by
  match l with
  | [] => simp [renderFields, fieldStrs, PlainChars]
  | [(s, j)] =>
    have h1 := plainChars_render j
    have h2 := plainChars_renderStr (s := s)
    simp only [renderFields, fieldStrs, PlainChars, Plain, List.mem_append, List.mem_cons,
      List.append_nil] at h1 h2 ⊢
    grind
  | (s, j) :: k :: l =>
    have h1 := plainChars_render j
    have h2 := plainChars_renderFields (k :: l)
    have h3 := plainChars_renderStr (s := s)
    rw [renderFields, fieldStrs]
    · simp only [PlainChars, Plain, List.mem_append, List.mem_cons] at h1 h2 h3 ⊢
      grind
    · simp

end

/-- A change of text that works on runs of apostrophes and copies every other character. -/
structure TextMap where
  map : List Char → List Char
  nil : map [] = []
  split : ∀ x c y, c ≠ '\'' → map (x ++ c :: y) = map x ++ c :: map y
  escape : ∀ l, map (Json.escape l) = Json.escape (map l)

namespace TextMap

variable (f : TextMap)

def mapString (s : String) : String := String.ofList (f.map s.toList)

theorem cons {c : Char} (h : c ≠ '\'') (l : List Char) : f.map (c :: l) = c :: f.map l := by
  simpa [f.nil] using f.split [] c l h

theorem append {x : List Char} (h : PlainChars x) (y : List Char) :
    f.map (x ++ y) = x ++ f.map y := by
  induction x with
  | nil => rfl
  | cons c x ih =>
    have hc : c ≠ '\'' ∧ PlainChars x := by simpa [PlainChars, eq_comm] using h
    rw [List.cons_append, f.cons hc.1, ih hc.2, List.cons_append]

theorem renderStr (s : String) (r : List Char) :
    f.map (Json.renderStr s ++ r) = Json.renderStr (f.mapString s) ++ f.map r := by
  simp only [Json.renderStr, List.cons_append, List.append_assoc, List.nil_append]
  rw [f.cons (by decide), f.split _ _ _ (by decide), f.escape]
  simp [mapString]

theorem mapString_plain {s : String} (h : PlainChars s.toList) : f.mapString s = s := by
  have := f.append h []
  rw [f.nil, List.append_nil] at this
  simp [mapString, this]

end TextMap

mutual

/-- The value with `f` applied to its strings. -/
def mapStr (f : TextMap) : Json → Json
  | .str s => .str (f.mapString s)
  | .arr l => .arr (mapElems f l)
  | .obj l => .obj (mapFields f l)
  | j => j

def mapElems (f : TextMap) : List Json → List Json
  | [] => []
  | j :: l => mapStr f j :: mapElems f l

def mapFields (f : TextMap) : List (String × Json) → List (String × Json)
  | [] => []
  | (k, j) :: l => (f.mapString k, mapStr f j) :: mapFields f l

end

mutual

theorem render_mapStr_append (f : TextMap) (j : Json) (r : List Char) :
    f.map (render j ++ r) = render (mapStr f j) ++ f.map r := by
  match j with
  | .null => exact f.append (by decide) r
  | .bool true => exact f.append (by decide) r
  | .bool false => exact f.append (by decide) r
  | .num n => exact f.append (plainChars_toDigits n) r
  | .str s => exact f.renderStr s r
  | .arr l =>
    simp only [render, mapStr, List.cons_append, List.append_assoc, List.nil_append]
    rw [f.cons (by decide), renderElems_map f l, f.cons (by decide)]
  | .obj l =>
    simp only [render, mapStr, List.cons_append, List.append_assoc, List.nil_append]
    rw [f.cons (by decide), renderFields_map f l, f.cons (by decide)]

theorem renderElems_map (f : TextMap) (l : List Json) (r : List Char) :
    f.map (renderElems l ++ r) = renderElems (mapElems f l) ++ f.map r := by
  match l with
  | [] => rfl
  | [j] => exact render_mapStr_append f j r
  | j :: k :: l =>
    rw [mapElems, renderElems_cons j (by simp),
      renderElems_cons (mapStr f j) (by simp [mapElems])]
    simp only [List.cons_append, List.append_assoc]
    rw [render_mapStr_append f j, f.cons (by decide), renderElems_map f (k :: l) r]

theorem renderFields_map (f : TextMap) (l : List (String × Json)) (r : List Char) :
    f.map (renderFields l ++ r) = renderFields (mapFields f l) ++ f.map r := by
  match l with
  | [] => rfl
  | [(s, j)] =>
    simp only [renderFields, mapFields, List.cons_append, List.append_assoc]
    rw [f.renderStr, f.cons (by decide), render_mapStr_append f j]
  | (s, j) :: k :: l =>
    rw [mapFields, renderFields_cons s j (by simp),
      renderFields_cons _ (mapStr f j) (by simp [mapFields])]
    simp only [List.cons_append, List.append_assoc]
    rw [f.renderStr, f.cons (by decide), render_mapStr_append f j, f.cons (by decide),
      renderFields_map f (k :: l) r]

end

/-- A change of apostrophes in the text of a value is the text of the changed value. -/
theorem render_mapStr (f : TextMap) (j : Json) : f.map (render j) = render (mapStr f j) := by
  have := render_mapStr_append f j []
  rwa [f.nil, List.append_nil, List.append_nil] at this

mutual

theorem mapStr_plain (f : TextMap) (j : Json) (h : Plain j) : mapStr f j = j := by
  match j with
  | .null => rfl
  | .bool _ => rfl
  | .num _ => rfl
  | .str s => rw [mapStr, f.mapString_plain (h s (by simp [strs]))]
  | .arr l => rw [mapStr, mapElems_plain f l (by simpa [Plain, strs] using h)]
  | .obj l => rw [mapStr, mapFields_plain f l (by simpa [Plain, strs] using h)]

theorem mapElems_plain (f : TextMap) (l : List Json)
    (h : ∀ s ∈ elemStrs l, PlainChars s.toList) : mapElems f l = l := by
  match l with
  | [] => rfl
  | j :: l =>
    rw [mapElems, mapStr_plain f j fun s hs => h s (by simp [elemStrs, hs]),
      mapElems_plain f l fun s hs => h s (by simp [elemStrs, hs])]

theorem mapFields_plain (f : TextMap) (l : List (String × Json))
    (h : ∀ s ∈ fieldStrs l, PlainChars s.toList) : mapFields f l = l := by
  match l with
  | [] => rfl
  | (k, j) :: l =>
    rw [mapFields, mapStr_plain f j fun s hs => h s (by simp [fieldStrs, hs]),
      mapFields_plain f l fun s hs => h s (by simp [fieldStrs, hs]),
      f.mapString_plain (h k (by simp [fieldStrs]))]

end

end Json

end EpicWallet.Lib
