import Mathlib.Tactic.Common
import Mathlib.Data.List.Basic
import EpicWallet.Lib.Rows

/-!
# SQL text: lexing, statements and engines

The part of SQL a key-value store writes: how a statement text splits into tokens, the statements
themselves with their effect on one table with a unique column, and what it means for a database
to execute such a text.

* `lexAt_append`: lexing a concatenation runs the lexer through the first part.
* `run_str`, `run_dq`: text without the closing quote stays inside a literal.
* `lexAt_tail_some`: when the text after an embedded value has one apostrophe and balanced double
  quotes, the whole text lexes only if the value leaves the lexer inside the `'…'` literal.
* `undouble_of_run`: if it does so without closing a literal, the literal read is the value with
  every pair of apostrophes read as one; it differs from the value unless that has no apostrophe.

In a `'…'` literal `''` is one apostrophe; a `"…"` token is an identifier or, where no column has
that name, a string.
-/

namespace EpicWallet.Lib.Sql

abbrev Text := List Char

/-! ## Tokens -/

inductive Token where
  | word (s : Text)
  | str (s : Text)
  | dq (s : Text)
  | punct (c : Char)
deriving DecidableEq

/-- Where the lexer stands, with the characters of the token it is in. The states `strQ` and `dqQ`
have just read a quote that closes the literal unless another one follows. -/
inductive LexState where
  | start
  | word (s : Text)
  | str (s : Text)
  | strQ (s : Text)
  | dq (s : Text)
  | dqQ (s : Text)
deriving DecidableEq

def isWordChar (c : Char) : Bool := c.isAlphanum || c = '_'

def isSpace (c : Char) : Bool := c = ' ' || c = '\n' || c = '\t' || c = '\r'

/-- A character outside any token. -/
def fresh (c : Char) : List Token × LexState :=
  if c = '\'' then ([], .str [])
  else if c = '"' then ([], .dq [])
  else if isSpace c then ([], .start)
  else if isWordChar c then ([], .word [c])
  else ([.punct c], .start)

/-- One character: the tokens it completes and the state after it. -/
def next : LexState → Char → List Token × LexState
  | .start, c => fresh c
  | .word s, c =>
    if isWordChar c then ([], .word (s ++ [c])) else (.word s :: (fresh c).1, (fresh c).2)
  | .str s, c => if c = '\'' then ([], .strQ s) else ([], .str (s ++ [c]))
  | .strQ s, c =>
    if c = '\'' then ([], .str (s ++ ['\''])) else (.str s :: (fresh c).1, (fresh c).2)
  | .dq s, c => if c = '"' then ([], .dqQ s) else ([], .dq (s ++ [c]))
  | .dqQ s, c =>
    if c = '"' then ([], .dq (s ++ ['"'])) else (.dq s :: (fresh c).1, (fresh c).2)

/-- The end of the text; an open literal is an error. -/
def finish : LexState → Option (List Token)
  | .start => some []
  | .word s => some [.word s]
  | .str _ => none
  | .strQ s => some [.str s]
  | .dq _ => none
  | .dqQ s => some [.dq s]

/-- Reads a text: the tokens completed and the state after it. -/
def run (st : LexState) : Text → List Token × LexState
  | [] => ([], st)
  | c :: r =>
    let p := next st c
    let q := run p.2 r
    (p.1 ++ q.1, q.2)

/-- The tokens of a text read from `st`. -/
def lexAt (st : LexState) (l : Text) : Option (List Token) :=
  (finish (run st l).2).map ((run st l).1 ++ ·)

def lex (l : Text) : Option (List Token) := lexAt .start l

theorem run_append (st : LexState) (l r : Text) :
    run st (l ++ r) = ((run st l).1 ++ (run (run st l).2 r).1, (run (run st l).2 r).2) := by
  induction l generalizing st with
  | nil => rfl
  | cons c l ih => simp only [List.cons_append, run, ih, List.append_assoc]

theorem lexAt_append (st : LexState) (l r : Text) :
    lexAt st (l ++ r) = (lexAt (run st l).2 r).map ((run st l).1 ++ ·) := by
  unfold lexAt
  rw [run_append, Option.map_map]
  congr 1
  funext t
  simp

theorem lexAt_cons (st : LexState) (c : Char) (r : Text) :
    lexAt st (c :: r) = (lexAt (next st c).2 r).map ((next st c).1 ++ ·) := by
  have := lexAt_append st [c] r
  simpa [run] using this

theorem run_str {l : Text} (h : '\'' ∉ l) (s : Text) : run (.str s) l = ([], .str (s ++ l)) := by
  induction l generalizing s with
  | nil => simp [run]
  | cons c l ih =>
    have hc : c ≠ '\'' ∧ '\'' ∉ l := by simpa [eq_comm] using h
    simp [run, next, hc.1, ih hc.2]

theorem run_dq {l : Text} (h : '"' ∉ l) (s : Text) : run (.dq s) l = ([], .dq (s ++ l)) := by
  induction l generalizing s with
  | nil => simp [run]
  | cons c l ih =>
    have hc : c ≠ '"' ∧ '"' ∉ l := by simpa [eq_comm] using h
    simp [run, next, hc.1, ih hc.2]

theorem run_word {l : Text} (h : ∀ c ∈ l, isWordChar c = true) (s : Text) :
    run (.word s) l = ([], .word (s ++ l)) := by
  induction l generalizing s with
  | nil => simp [run]
  | cons c l ih =>
    have hc : isWordChar c = true := h c (by simp)
    simp [run, next, hc, ih fun d hd => h d (by simp [hd])]

/-- `Runs st l ts st'`: reading `l` from `st` completes the tokens `ts` and ends in `st'`. -/
def Runs (st : LexState) (l : Text) (ts : List Token) (st' : LexState) : Prop :=
  run st l = (ts, st')

instance (st : LexState) (l : Text) (ts : List Token) (st' : LexState) :
    Decidable (Runs st l ts st') :=
  inferInstanceAs (Decidable (run st l = (ts, st')))

theorem Runs.append {st st' st'' : LexState} {l l' : Text} {ts ts' : List Token}
    (h : Runs st l ts st') (h' : Runs st' l' ts' st'') : Runs st (l ++ l') (ts ++ ts') st'' := by
  simp only [Runs] at *
  rw [run_append, h, h']

theorem Runs.of_eq {st st' : LexState} {l : Text} {ts ts' : List Token} (h : Runs st l ts st')
    (e : ts = ts') : Runs st l ts' st' := e ▸ h

theorem Runs.lexAt {st st' : LexState} {l : Text} {ts ts' : List Token} (h : Runs st l ts st')
    (hf : finish st' = some ts') : lexAt st l = some (ts ++ ts') := by
  simp only [Runs] at h
  simp [Sql.lexAt, h, hf]

theorem Runs.lexAt_append {st st' : LexState} {l : Text} {ts : List Token} (h : Runs st l ts st')
    (r : Text) : Sql.lexAt st (l ++ r) = (Sql.lexAt st' r).map (ts ++ ·) := by
  simp only [Runs] at h
  rw [Sql.lexAt_append, h]

/-! ## A value embedded between apostrophes -/

/-- In a literal that no apostrophe closes, the text never ends. -/
theorem lexAt_str_none {l : Text} (h : '\'' ∉ l) (s : Text) : lexAt (.str s) l = none := by
  simp [lexAt, run_str h, finish]

/-- States outside a `"…"` literal. -/
def LexState.OutsideDq : LexState → Prop
  | .dq _ => False
  | _ => True

theorem next_outside {st : LexState} {c : Char} (ho : st.OutsideDq) (hs : ∀ s, st ≠ .str s)
    (hc : c ≠ '\'') (hd : c ≠ '"') :
    (next st c).2.OutsideDq ∧ ∀ s, (next st c).2 ≠ .str s := by
  have hf : (fresh c).2.OutsideDq ∧ ∀ s, (fresh c).2 ≠ .str s := by
    unfold fresh
    rw [if_neg hc, if_neg hd]
    split_ifs <;> simp [LexState.OutsideDq]
  cases st with
  | start => exact hf
  | word s =>
    simp only [next]
    split_ifs
    · simp [LexState.OutsideDq]
    · exact hf
  | str s => exact absurd rfl (hs s)
  | strQ s => simpa [next, hc] using hf
  | dq s => exact ho.elim
  | dqQ s => simpa [next, hd] using hf

/-- A text without apostrophes that opens one more `"…"` literal than it closes does not lex:
inside one with an even number of double quotes to come, or outside with an odd number. -/
theorem lexAt_parity : ∀ {l : Text} {st : LexState}, '\'' ∉ l → (∀ s, st ≠ .str s) →
    (st.OutsideDq ↔ l.count '"' % 2 = 1) → lexAt st l = none
  | [], st, _, _, hp => by
    cases st <;> simp_all [LexState.OutsideDq, lexAt, run, finish]
  | c :: l, st, h, hs, hp => by
    have hc : c ≠ '\'' ∧ '\'' ∉ l := by simpa [eq_comm] using h
    rw [lexAt_cons, Option.map_eq_none_iff]
    by_cases hd : c = '"'
    · subst hd
      rw [List.count_cons_self] at hp
      cases st with
      | str s => exact absurd rfl (hs s)
      | dq s =>
        refine lexAt_parity hc.2 (by simp [next]) ?_
        simp [LexState.OutsideDq, next] at hp ⊢
        omega
      | _ =>
        have hw : isWordChar '"' = false := by decide
        refine lexAt_parity hc.2 (by simp [next, fresh, hw]) ?_
        simp [LexState.OutsideDq, next, fresh, hw] at hp ⊢
        omega
    · rw [List.count_cons_of_ne hd] at hp
      cases st with
      | dq s =>
        refine lexAt_parity hc.2 (by simp [next, hd]) ?_
        simpa [LexState.OutsideDq, next, hd] using hp
      | str s => exact absurd rfl (hs s)
      | _ =>
        have ho := next_outside (c := c) (by simp [LexState.OutsideDq]) hs hc.1 hd
        exact lexAt_parity hc.2 ho.2 (iff_of_true ho.1 (hp.1 trivial))

/-- After an apostrophe followed by text with no other one and balanced double quotes, a state
other than `'…'` never completes. -/
theorem lexAt_tail_some {q : Text} (hq : '\'' ∉ q) (hd : q.count '"' % 2 = 0) {st : LexState}
    {ts : List Token} (h : lexAt st ('\'' :: q) = some ts) : ∃ s, st = .str s := by
  cases st with
  | str s => exact ⟨s, rfl⟩
  | dq s =>
    rw [lexAt_cons, Option.map_eq_some_iff] at h
    obtain ⟨_, h, -⟩ := h
    rw [lexAt_parity hq (by simp [next]) (by simp [next, LexState.OutsideDq, hd])] at h
    cases h
  | strQ s =>
    rw [lexAt_cons] at h
    simp [next, lexAt_str_none hq] at h
  | _ =>
    rw [lexAt_cons] at h
    simp [next, fresh, isWordChar, lexAt_str_none hq] at h

/-! ## Pairs of apostrophes -/

/-- The text with each pair of apostrophes read as one. -/
def undouble : Text → Text
  | '\'' :: '\'' :: r => '\'' :: undouble r
  | c :: r => c :: undouble r
  | [] => []

theorem undouble_cons {c : Char} (h : c ≠ '\'') (r : Text) : undouble (c :: r) = c :: undouble r := by
  rw [undouble.eq_def]
  split <;> simp_all

/-- An apostrophe that no other follows is kept. -/
theorem undouble_single {r : Text} (h : r.head? ≠ some '\'') :
    undouble ('\'' :: r) = '\'' :: undouble r := by
  rw [undouble.eq_def]
  split
  · simp_all
  · rename_i hc
    obtain ⟨rfl, rfl⟩ := List.cons.inj hc
    rfl
  · simp_all

theorem undouble_append_plain {x : Text} (h : '\'' ∉ x) (y : Text) :
    undouble (x ++ y) = x ++ undouble y := by
  induction x with
  | nil => rfl
  | cons c x ih =>
    have hc : c ≠ '\'' ∧ '\'' ∉ x := by simpa [eq_comm] using h
    rw [List.cons_append, undouble_cons hc.1, ih hc.2, List.cons_append]

/-- Another character separates the pairs before it from those after it. -/
theorem undouble_split {c : Char} (h : c ≠ '\'') (x y : Text) :
    undouble (x ++ c :: y) = undouble x ++ c :: undouble y := by
  fun_induction undouble x with
  | case1 r ih => simp only [List.cons_append, undouble, ih]
  | case2 d r hd ih =>
    rw [List.cons_append, List.cons_append, ← ih]
    by_cases hq : d = '\''
    · subst hq
      refine undouble_single ?_
      cases r with
      | nil => simpa using h
      | cons e r => intro he; exact hd r rfl (by simpa using he)
    · exact undouble_cons hq _
  | case3 => rw [List.nil_append, undouble_cons h, List.nil_append]

theorem undouble_length (l : Text) : (undouble l).length ≤ l.length := by
  fun_induction undouble l with
  | case1 r ih => simp only [List.length_cons]; omega
  | case2 c r _ ih => simpa using ih
  | case3 => simp

/-- A text that the lexer reads inside a `'…'` literal without closing it: what was read, and
that it is a different text when there is an apostrophe in it. -/
theorem undouble_of_run : ∀ {l : Text} {a s : Text}, run (.str a) l = ([], .str s) →
    s = a ++ undouble l ∧ ('\'' ∈ l → (undouble l).length < l.length)
  | [], a, s, h => by
    simp only [run, Prod.mk.injEq, LexState.str.injEq, true_and] at h
    simp [undouble, h]
  | [c], a, s, h => by
    by_cases hc : c = '\''
    · subst hc; simp [run, next] at h
    · simp only [run, next, hc, if_false, List.append_nil, Prod.mk.injEq, LexState.str.injEq,
        true_and] at h
      rw [undouble_cons hc]
      simp [undouble, ← h, Ne.symm hc]
  | c :: d :: r, a, s, h => by
    by_cases hc : c = '\''
    · subst hc
      by_cases hd : d = '\''
      · subst hd
        simp only [run, next, if_true, List.nil_append] at h
        obtain ⟨hs, -⟩ := undouble_of_run (l := r) h
        have := undouble_length r
        refine ⟨by simp [hs, undouble], fun _ => ?_⟩
        simp [undouble]
        omega
      · simp [run, next, hd] at h
    · have h' : run (.str (a ++ [c])) (d :: r) = ([], .str s) := by
        rw [run] at h
        simpa only [next, if_neg hc, List.nil_append] using h
      obtain ⟨hs, hl⟩ := undouble_of_run h'
      rw [undouble_cons hc]
      refine ⟨by simp [hs], fun hm => ?_⟩
      have := hl (by simpa [Ne.symm hc] using hm)
      simp only [List.length_cons] at this ⊢
      omega

end EpicWallet.Lib.Sql
