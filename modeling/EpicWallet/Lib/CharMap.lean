import EpicWallet.Lib.Json

/-!
# JSON text whose other characters are replaced

`CharMap` replaces the characters that are not ASCII by others that are not. JSON's own syntax is ASCII,
so the text of a value with its characters replaced is the text of the value with those of its strings
replaced (`render_replace`), and a value whose strings are ASCII stays as it is (`replace_ascii`).
-/

namespace EpicWallet.Lib

/-- A character of ASCII. -/
def IsAscii (c : Char) : Prop := c.toNat < 128

instance (c : Char) : Decidable (IsAscii c) := inferInstanceAs (Decidable (_ < _))

instance (l : List Char) : Decidable (∀ c ∈ l, IsAscii c) := List.decidableBAll IsAscii l

theorem isAscii_of_all {l : List Char} (h : l.all (fun c => decide (IsAscii c)) = true) :
    ∀ c ∈ l, IsAscii c := fun c hc => of_decide_eq_true (List.all_eq_true.1 h c hc)

theorem utf8EncodeChar_ascii {c : Char} (h : IsAscii c) :
    String.utf8EncodeChar c = [UInt8.ofNat c.toNat] := by
  unfold IsAscii at h
  unfold String.utf8EncodeChar
  exact if_pos (Nat.le_of_lt_succ h)

theorem utf8EncodeChar_other {c : Char} (h : ¬IsAscii c) :
    ∀ b ∈ String.utf8EncodeChar c, 128 ≤ b.toNat := by
  unfold IsAscii at h
  change ¬c.val.toNat < 128 at h
  intro b hb
  unfold String.utf8EncodeChar at hb
  dsimp only at hb
  split_ifs at hb
  all_goals
    simp only [List.mem_cons, List.not_mem_nil, or_false] at hb
  · omega
  · rcases hb with rfl | rfl <;> simp <;> omega
  · rcases hb with rfl | rfl | rfl <;> simp <;> omega
  · rcases hb with rfl | rfl | rfl | rfl <;> simp <;> omega

structure CharMap where
  map : Char → List Char
  ascii : ∀ c, IsAscii c → map c = [c]
  other : ∀ c, ¬IsAscii c → ∀ d ∈ map c, ¬IsAscii d

namespace Json

/-- Every string of the value is ASCII. -/
def Ascii (j : Json) : Prop := ∀ s ∈ j.strs, ∀ c ∈ s.toList, IsAscii c

theorem isAscii_escapeChar {c d : Char} (h : IsAscii c) (hd : d ∈ escapeChar c) : IsAscii d := by
  have hex : ∀ n < 16, IsAscii (hexDigit n) := by decide
  have h0 : ∀ d ∈ ['\\', 'u', '0', '0'], IsAscii d := isAscii_of_all (by decide)
  unfold escapeChar at hd
  split_ifs at hd with h1 h2 h3 h4 h5 h6 h7 h8
  · exact isAscii_of_all (by decide) d hd
  · exact isAscii_of_all (by decide) d hd
  · exact isAscii_of_all (by decide) d hd
  · exact isAscii_of_all (by decide) d hd
  · exact isAscii_of_all (by decide) d hd
  · exact isAscii_of_all (by decide) d hd
  · exact isAscii_of_all (by decide) d hd
  · rcases List.mem_append.1 (show d ∈ ['\\', 'u', '0', '0'] ++ _ from hd) with hd | hd
    · exact h0 d hd
    · simp only [List.mem_cons, List.not_mem_nil, or_false] at hd
      rcases hd with rfl | rfl
      · exact hex _ (by omega)
      · exact hex _ (by omega)
  · rw [List.mem_singleton.1 hd]
    exact h

theorem escapeChar_of_not_isAscii {c : Char} (h : ¬IsAscii c) : escapeChar c = [c] := by
  have hne : ∀ d, IsAscii d → c ≠ d := fun d hd heq => h (heq ▸ hd)
  unfold IsAscii at h
  unfold escapeChar
  rw [if_neg (hne _ (by decide)), if_neg (hne _ (by decide)), if_neg (hne _ (by decide)),
    if_neg (hne _ (by decide)), if_neg (hne _ (by decide)), if_neg (by omega), if_neg (by omega),
    if_neg (by omega)]

theorem escape_of_not_isAscii : ∀ {l : List Char}, (∀ c ∈ l, ¬IsAscii c) → escape l = l
  | [], _ => rfl
  | c :: l, h => by
    show escapeChar c ++ escape l = _
    rw [escapeChar_of_not_isAscii (h c List.mem_cons_self),
      escape_of_not_isAscii fun d hd => h d (List.mem_cons_of_mem c hd)]
    rfl

theorem isAscii_toDigits (n : Nat) : ∀ c ∈ Nat.toDigits 10 n, IsAscii c := fun c hc => by
  have hd := Nat.isDigit_of_mem_toDigits (b := 10) (by decide) (by decide) hc
  simp only [Char.isDigit, Bool.and_eq_true, decide_eq_true_eq] at hd
  have h9 : c.toNat ≤ '9'.toNat := hd.2
  exact Nat.lt_of_le_of_lt h9 (by decide)

end Json

namespace CharMap

open Json

variable (f : CharMap)

/-- A text with its characters replaced. -/
def apply (l : List Char) : List Char := l.flatMap f.map

@[simp] theorem apply_nil : f.apply [] = [] := rfl

theorem apply_cons (c : Char) (l : List Char) : f.apply (c :: l) = f.map c ++ f.apply l := rfl

theorem apply_append (l r : List Char) : f.apply (l ++ r) = f.apply l ++ f.apply r :=
  List.flatMap_append

theorem apply_ascii : ∀ {l : List Char}, (∀ c ∈ l, IsAscii c) → f.apply l = l
  | [], _ => rfl
  | c :: l, h => by
    rw [apply_cons, f.ascii c (h c List.mem_cons_self),
      apply_ascii fun d hd => h d (List.mem_cons_of_mem c hd)]
    rfl

theorem apply_cons_ascii {c : Char} (h : IsAscii c) (l : List Char) :
    f.apply (c :: l) = c :: f.apply l := by
  rw [apply_cons, f.ascii c h]
  rfl

theorem apply_escape : ∀ l : List Char, f.apply (escape l) = escape (f.apply l)
  | [] => rfl
  | c :: l => by
    show f.apply (escapeChar c ++ escape l) = escape (f.map c ++ f.apply l)
    rw [apply_append, apply_escape l]
    show _ = (f.map c ++ f.apply l).flatMap escapeChar
    rw [List.flatMap_append]
    congr 1
    by_cases hc : IsAscii c
    · rw [f.apply_ascii fun d hd => isAscii_escapeChar hc hd, f.ascii c hc]
      exact (List.append_nil _).symm
    · rw [escapeChar_of_not_isAscii hc]
      exact (List.append_nil _).trans (escape_of_not_isAscii (f.other c hc)).symm

def mapString (s : String) : String := String.ofList (f.apply s.toList)

theorem mapString_ascii {s : String} (h : ∀ c ∈ s.toList, IsAscii c) : f.mapString s = s := by
  unfold mapString
  rw [f.apply_ascii h, String.ofList_toList]

theorem apply_renderStr (s : String) : f.apply (renderStr s) = renderStr (f.mapString s) := by
  unfold renderStr mapString
  have hquote : f.apply ['"'] = ['"'] := f.apply_ascii (isAscii_of_all (by decide))
  rw [f.apply_cons_ascii (by decide), apply_append, apply_escape, String.toList_ofList, hquote]

mutual

/-- The value with its strings replaced. -/
def replace : Json → Json
  | .str s => .str (f.mapString s)
  | .arr l => .arr (replaceElems l)
  | .obj l => .obj (replaceFields l)
  | j => j

def replaceElems : List Json → List Json
  | [] => []
  | j :: l => replace j :: replaceElems l

def replaceFields : List (String × Json) → List (String × Json)
  | [] => []
  | (k, j) :: l => (f.mapString k, replace j) :: replaceFields l

end

mutual

theorem render_replace (j : Json) : f.apply (render j) = render (f.replace j) := by
  match j with
  | .null => exact f.apply_ascii (isAscii_of_all (by decide))
  | .bool true => exact f.apply_ascii (isAscii_of_all (by decide))
  | .bool false => exact f.apply_ascii (isAscii_of_all (by decide))
  | .num n => exact f.apply_ascii (isAscii_toDigits n)
  | .str s => exact f.apply_renderStr s
  | .arr l =>
    simp only [render, replace]
    rw [f.apply_cons_ascii (by decide), apply_append, renderElems_replace l,
      f.apply_ascii (isAscii_of_all (by decide))]
  | .obj l =>
    simp only [render, replace]
    rw [f.apply_cons_ascii (by decide), apply_append, renderFields_replace l,
      f.apply_ascii (isAscii_of_all (by decide))]

theorem renderElems_replace (l : List Json) :
    f.apply (renderElems l) = renderElems (f.replaceElems l) := by
  match l with
  | [] => rfl
  | [j] => exact render_replace j
  | j :: k :: l =>
    rw [replaceElems, renderElems_cons j (by simp),
      renderElems_cons (f.replace j) (by simp [replaceElems]), apply_append, render_replace j,
      f.apply_cons_ascii (by decide), renderElems_replace (k :: l)]

theorem renderFields_replace (l : List (String × Json)) :
    f.apply (renderFields l) = renderFields (f.replaceFields l) := by
  match l with
  | [] => rfl
  | [(s, j)] =>
    simp only [renderFields, replaceFields]
    rw [apply_append, f.apply_renderStr, f.apply_cons_ascii (by decide), render_replace j]
  | (s, j) :: k :: l =>
    rw [replaceFields, renderFields_cons s j (by simp),
      renderFields_cons _ (f.replace j) (by simp [replaceFields]), apply_append, f.apply_renderStr,
      f.apply_cons_ascii (by decide), apply_append, render_replace j, f.apply_cons_ascii (by decide),
      renderFields_replace (k :: l)]

end

/-- The text read after the characters were replaced. -/
theorem read_apply (j : Json) : Json.read (f.apply (render j)) = some (f.replace j) := by
  rw [render_replace, read_render]

mutual

theorem replace_ascii (j : Json) (h : Ascii j) : f.replace j = j := by
  match j with
  | .null => rfl
  | .bool _ => rfl
  | .num _ => rfl
  | .str s => rw [replace, f.mapString_ascii (h s (by simp [strs]))]
  | .arr l => rw [replace, replaceElems_ascii l (by simpa [Ascii, strs] using h)]
  | .obj l => rw [replace, replaceFields_ascii l (by simpa [Ascii, strs] using h)]

theorem replaceElems_ascii (l : List Json)
    (h : ∀ s ∈ elemStrs l, ∀ c ∈ s.toList, IsAscii c) : f.replaceElems l = l := by
  match l with
  | [] => rfl
  | j :: l =>
    rw [replaceElems, replace_ascii j fun s hs => h s (by simp [elemStrs, hs]),
      replaceElems_ascii l fun s hs => h s (by simp [elemStrs, hs])]

theorem replaceFields_ascii (l : List (String × Json))
    (h : ∀ s ∈ fieldStrs l, ∀ c ∈ s.toList, IsAscii c) : f.replaceFields l = l := by
  match l with
  | [] => rfl
  | (k, j) :: l =>
    rw [replaceFields, replace_ascii j fun s hs => h s (by simp [fieldStrs, hs]),
      replaceFields_ascii l fun s hs => h s (by simp [fieldStrs, hs]),
      f.mapString_ascii (h k (by simp [fieldStrs]))]

end

/-- The fields with their values replaced keep their names if these are ASCII. -/
theorem lookup_replaceFields (key : String) : ∀ {l : List (String × Json)},
    (∀ e ∈ l, ∀ c ∈ e.1.toList, IsAscii c) →
      (f.replaceFields l).lookup key = (l.lookup key).map f.replace
  | [], _ => rfl
  | (k, j) :: l, h => by
    have ih := lookup_replaceFields key fun e he => h e (List.mem_cons_of_mem _ he)
    rw [replaceFields, f.mapString_ascii (h (k, j) List.mem_cons_self), List.lookup_cons,
      List.lookup_cons, ih]
    cases key == k <;> rfl

theorem replaceElems_eq : ∀ l : List Json, f.replaceElems l = l.map f.replace
  | [] => rfl
  | j :: l => by rw [replaceElems, replaceElems_eq l, List.map_cons]

theorem replace_arr (l : List Json) : f.replace (.arr l) = .arr (l.map f.replace) := by
  rw [replace, replaceElems_eq]

/-- An object whose names are ASCII keeps them. -/
theorem replace_obj (names : List String) {l : List (String × Json)} (hl : l.map Prod.fst = names)
    (hnames : names.all (fun k => k.toList.all fun c => decide (IsAscii c)) = true) :
    f.replace (.obj l) = .obj (l.map fun e => (e.1, f.replace e.2)) := by
  rw [replace]
  congr 1
  induction l generalizing names with
  | nil => rfl
  | cons e l ih =>
    subst hl
    rw [List.map_cons, List.all_cons, Bool.and_eq_true] at hnames
    rw [replaceFields, f.mapString_ascii (isAscii_of_all hnames.1), ih _ rfl hnames.2, List.map_cons]

end CharMap

end EpicWallet.Lib
