import Mathlib.Tactic.Common
import Mathlib.Data.List.Basic
import EpicWallet.Lib.Sql

/-!
# Statements, their effect on a table, and databases that execute their texts

A table has one unique column. `Stmt` and `Query` are the statements a key-value store needs, with
the tokens of their text and their effect. A database (`Engine`) is anything with a table that
takes statement texts; it `Conforms` when each text that lexes to a statement has that statement's
effect, and nothing is assumed about any other text.

* `fragment_conforms`: the database that rejects every other text conforms.
-/

namespace EpicWallet.Lib.Sql

/-! ## Statements -/

/-- A literal in a statement: a string, a double-quoted string, or a number or keyword. -/
inductive Lit where
  | str (s : Text)
  | dq (s : Text)
  | word (s : Text)
deriving DecidableEq

def Lit.token : Lit → Token
  | .str s => .str s
  | .dq s => .dq s
  | .word s => .word s

def Lit.value : Lit → Text
  | .str s => s
  | .dq s => s
  | .word s => s

/-- A row: the values of its columns. -/
abbrev Row := List (Text × Text)

def Row.set (r : Row) (c v : Text) : Row := (c, v) :: r.filter (·.1 ≠ c)

/-- `INSERT INTO name (cols) VALUES (vals)`, `UPDATE name SET sets WHERE unique = key`,
`DELETE FROM name WHERE unique = key`. -/
inductive Stmt where
  | insert (cols : List Text) (vals : List Lit)
  | update (sets : List (Text × Lit)) (key : Lit)
  | delete (key : Lit)
deriving DecidableEq

/-- `SELECT what FROM name WHERE col = val [LIMIT limit]`; no `what` selects every column. -/
structure Query where
  what : Option Text
  col : Text
  val : Lit
  limit : Option Text
deriving DecidableEq

/-- The name of a table and of its unique column. -/
structure Schema where
  name : Text
  unique : Text

/-- Rows by the value of their unique column, in insertion order. -/
structure Table (S : Schema) where
  rows : Rows Text Row
  keyed : ∀ p ∈ rows.toList, p.2.lookup S.unique = some p.1

def commas : List (List Token) → List Token
  | [] => []
  | [t] => t
  | t :: l => t ++ .punct ',' :: commas l

section
variable (S : Schema)

def Stmt.tokens : Stmt → List Token
  | .insert cols vals =>
    [.word "INSERT".toList, .word "INTO".toList, .word S.name, .punct '('] ++
      commas (cols.map fun c => [.word c]) ++ [.punct ')', .word "VALUES".toList, .punct '('] ++
      commas (vals.map fun v => [v.token]) ++ [.punct ')']
  | .update sets key =>
    [.word "UPDATE".toList, .word S.name, .word "SET".toList] ++
      commas (sets.map fun p => [.word p.1, .punct '=', p.2.token]) ++
      [.word "WHERE".toList, .word S.unique, .punct '=', key.token]
  | .delete key =>
    [.word "DELETE".toList, .word "FROM".toList, .word S.name, .word "WHERE".toList,
      .word S.unique, .punct '=', key.token]

/-- A statement the database accepts: as many values as columns, no column twice, the unique one
given by an insertion and left alone by an update. -/
def Stmt.WellFormed : Stmt → Prop
  | .insert cols vals => cols.length = vals.length ∧ cols.Nodup ∧ S.unique ∈ cols
  | .update sets _ =>
    sets ≠ [] ∧ (sets.map Prod.fst).Nodup ∧ S.unique ∉ sets.map Prod.fst
  | .delete _ => True

instance (s : Stmt) : Decidable (s.WellFormed S) :=
  match s with
  | .insert _ _ => inferInstanceAs (Decidable (_ ∧ _ ∧ _))
  | .update _ _ => inferInstanceAs (Decidable (_ ∧ _ ∧ _))
  | .delete _ => inferInstanceAs (Decidable True)

def Query.tokens (q : Query) : List Token :=
  [.word "SELECT".toList] ++ [(q.what.map Token.word).getD (.punct '*')] ++
    [.word "FROM".toList, .word S.name, .word "WHERE".toList, .word q.col, .punct '=',
      q.val.token] ++
    match q.limit with
    | some n => [.word "LIMIT".toList, .word n]
    | none => []

end

/-! ## Effects -/

theorem Row.lookup_set (r : Row) (c v d : Text) :
    (r.set c v).lookup d = if d = c then some v else r.lookup d := by
  unfold Row.set
  by_cases h : d = c
  · simp [h]
  · have hb : (d == c) = false := by simpa using h
    simp only [List.lookup_cons, hb, if_neg h]
    induction r with
    | nil => rfl
    | cons p r ih =>
      by_cases hp : p.1 = c
      · rw [List.filter_cons_of_neg (by simpa using hp), ih, List.lookup_cons, hp]
        simp only [hb]
      · rw [List.filter_cons_of_pos (by simpa using hp), List.lookup_cons, List.lookup_cons, ih]

/-- The row after the assignments of an update. -/
def Row.setAll (r : Row) (sets : List (Text × Lit)) : Row :=
  sets.foldl (fun r p => r.set p.1 p.2.value) r

theorem Row.lookup_setAll {c : Text} : ∀ {sets : List (Text × Lit)} {r : Row},
    c ∉ sets.map Prod.fst → (r.setAll sets).lookup c = r.lookup c
  | [], _, _ => rfl
  | p :: l, r, h => by
    have hp : c ≠ p.1 ∧ c ∉ l.map Prod.fst := by simpa using h
    rw [Row.setAll, List.foldl_cons, ← Row.setAll, Row.lookup_setAll hp.2, Row.lookup_set,
      if_neg hp.1]

namespace Table

variable {S : Schema}

def empty : Table S := ⟨Rows.empty, by simp [Rows.empty]⟩

def get (t : Table S) (k : Text) : Option Row := t.rows.get k

/-- The table with the row `r` at its unique column's value. -/
def put (t : Table S) (k : Text) (r : Row) (h : r.lookup S.unique = some k) : Table S :=
  ⟨t.rows.put k r, fun p hp => by
    rcases Rows.mem_put.1 hp with rfl | ⟨-, hp⟩
    · exact h
    · exact t.keyed p hp⟩

def erase (t : Table S) (k : Text) : Table S :=
  ⟨t.rows.erase k, fun p hp => t.keyed p (Rows.mem_erase.1 hp).2⟩

theorem keyed_get {t : Table S} {k : Text} {r : Row} (h : t.get k = some r) :
    r.lookup S.unique = some k := t.keyed (k, r) (Rows.mem_iff.2 h)

@[simp] theorem get_empty (k : Text) : (empty : Table S).get k = none := rfl

end Table

section
variable {S : Schema}

/-- The effect on the table; none when a constraint is violated. -/
def Stmt.effect (t : Table S) : Stmt → Option (Table S)
  | .insert cols vals =>
    match h : (cols.zip (vals.map Lit.value)).lookup S.unique with
    | none => none
    | some k => if (t.get k).isSome then none else some (t.put k _ h)
  | .update sets key =>
    if hs : S.unique ∈ sets.map Prod.fst then none
    else
      match h : t.get key.value with
      | none => some t
      | some r =>
        some (t.put key.value (r.setAll sets) (by rw [r.lookup_setAll hs, Table.keyed_get h]))
  | .delete key => some (t.erase key.value)

/-- The rows a query returns: those with the value in its column, cut at a numeric limit. -/
def Query.rows (q : Query) (t : Table S) : List Row :=
  let l := (t.rows.toList.map Prod.snd).filter fun r => r.lookup q.col = some q.val.value
  match q.limit with
  | some n => l.take (Nat.ofDigitChars 10 n 0)
  | none => l

theorem effect_insert {t t' : Table S} {cols : List Text} {vals : List Lit}
    (h : (Stmt.insert cols vals).effect t = some t') :
    ∃ k, (cols.zip (vals.map Lit.value)).lookup S.unique = some k ∧ t.get k = none ∧
      t'.rows = t.rows.put k (cols.zip (vals.map Lit.value)) := by
  simp only [Stmt.effect] at h
  split at h
  · cases h
  · rename_i k hk
    split at h
    · cases h
    · cases h
      exact ⟨k, hk, Option.not_isSome_iff_eq_none.1 ‹_›, rfl⟩

/-- Inserting a row whose key is free. -/
theorem effect_insert_of {t : Table S} {cols : List Text} {vals : List Lit} {k : Text}
    (hk : (cols.zip (vals.map Lit.value)).lookup S.unique = some k) (hn : t.get k = none) :
    ∃ t', (Stmt.insert cols vals).effect t = some t' ∧
      t'.rows = t.rows.put k (cols.zip (vals.map Lit.value)) := by
  have : ∃ t', (Stmt.insert cols vals).effect t = some t' := by
    simp only [Stmt.effect]
    split
    · simp_all
    · rename_i k' hk'
      have : k' = k := by simpa [hk'] using hk
      simp [this, hn]
  obtain ⟨t', ht⟩ := this
  obtain ⟨k', hk', -, hg⟩ := effect_insert ht
  have : k' = k := by simpa [hk'] using hk
  exact ⟨t', ht, this ▸ hg⟩

/-- Updating a row that is there. -/
theorem effect_update_of {t : Table S} {sets : List (Text × Lit)} {key : Lit} {r : Row}
    (hs : S.unique ∉ sets.map Prod.fst) (hr : t.get key.value = some r) :
    ∃ t', (Stmt.update sets key).effect t = some t' ∧
      t'.rows = t.rows.put key.value (r.setAll sets) := by
  simp only [Stmt.effect, dif_neg hs]
  split
  · simp_all
  · rename_i r' hr'
    have : r' = r := by simpa [hr'] using hr
    subst this
    exact ⟨_, rfl, rfl⟩

/-- Selecting by the unique column returns at most the row with that value. -/
theorem rows_unique {t : Table S} {q : Query} (hc : q.col = S.unique)
    (hl : ∀ n ∈ q.limit, Nat.ofDigitChars 10 n 0 ≠ 0) :
    q.rows t = (t.get q.val.value).toList := by
  have key : ∀ l : List (Text × Row), (∀ p ∈ l, p.2.lookup S.unique = some p.1) →
      (l.map Prod.fst).Nodup → ∀ k,
      (l.map Prod.snd).filter (fun r => r.lookup S.unique = some k) =
        ((l.find? (·.1 = k)).map Prod.snd).toList := by
    intro l hk hn k
    induction l with
    | nil => rfl
    | cons p l ih =>
      have hp := hk p (by simp)
      have hn' : p.1 ∉ l.map Prod.fst ∧ (l.map Prod.fst).Nodup := by simpa using hn
      have ih := ih (fun q hq => hk q (by simp [hq])) hn'.2
      by_cases h : p.1 = k
      · have hnone : l.find? (·.1 = k) = none := by
          rw [List.find?_eq_none]
          intro q hq e
          exact hn'.1 (h ▸ (by simpa using e : q.1 = k) ▸ List.mem_map_of_mem hq)
        rw [List.map_cons, List.filter_cons_of_pos (by simp [hp, h]), ih, hnone]
        simp [h]
      · rw [List.map_cons, List.filter_cons_of_neg (by simp [hp, h]), ih, List.find?_cons_of_neg]
        simpa using h
  have := key t.rows.toList t.keyed t.rows.nodup q.val.value
  unfold Query.rows
  rw [hc, this]
  cases hq : q.limit with
  | none => rfl
  | some n =>
    have hn := hl n hq
    have hle : ((t.rows.toList.find? (·.1 = q.val.value)).map Prod.snd).toList.length ≤ 1 := by
      cases t.rows.toList.find? (·.1 = q.val.value) <;> simp
    simp only
    rw [List.take_of_length_le (by omega)]
    rfl

end

/-- The text is one statement with these tokens, closed by a semicolon or not. -/
def Says (l : Text) (ts : List Token) : Prop :=
  lex l = some ts ∨ lex l = some (ts ++ [.punct ';'])

instance (l : Text) (ts : List Token) : Decidable (Says l ts) :=
  inferInstanceAs (Decidable (_ ∨ _))

/-! ## Databases -/

/-- A database that takes statement texts. An error carries the database's code. -/
structure Engine (S : Schema) where
  State : Type
  table : State → Table S
  exec : State → Text → Except Nat State
  query : State → Text → Except Nat (List Row)

/-- Texts that lex to a statement have its effect; other texts are not constrained. -/
structure Engine.Conforms {S : Schema} (E : Engine S) : Prop where
  exec_ok : ∀ (s : E.State) (l : Text) (st : Stmt) (t : Table S), Says l (st.tokens S) →
    st.WellFormed S → st.effect (E.table s) = some t → ∃ s', E.exec s l = .ok s' ∧ E.table s' = t
  query_ok : ∀ (s : E.State) (l : Text) (q : Query), Says l (q.tokens S) →
    E.query s l = .ok (q.rows (E.table s))

/-! ## The database of these statements only -/

def Token.lit : Token → Option Lit
  | .str s => some (.str s)
  | .dq s => some (.dq s)
  | .word s => some (.word s)
  | .punct _ => none

def Token.name : Token → Option Text
  | .word s => some s
  | _ => none

/-- Items between commas up to a closing bracket. -/
def readList {α : Type} (f : Token → Option α) : List Token → Option (List α × List Token)
  | t :: .punct ')' :: r => (f t).map fun a => ([a], r)
  | t :: .punct ',' :: r =>
    (f t).bind fun a => (readList f r).map fun p => (a :: p.1, p.2)
  | _ => none

/-- Assignments between commas up to `WHERE`. -/
def readSets : List Token → Option (List (Text × Lit) × List Token)
  | .word c :: .punct '=' :: t :: .punct ',' :: r =>
    t.lit.bind fun v => (readSets r).map fun p => ((c, v) :: p.1, p.2)
  | .word c :: .punct '=' :: t :: .word w :: r =>
    if w = "WHERE".toList then t.lit.map fun v => ([(c, v)], r) else none
  | _ => none

section
variable (S : Schema)

/-- `unique = key` at the end of a statement. -/
def readKey : List Token → Option (Lit × List Token)
  | .word u :: .punct '=' :: t :: r => if u = S.unique then t.lit.map (·, r) else none
  | _ => none

def readStmt : List Token → Option (Stmt × List Token)
  | .word a :: .word b :: .word n :: .punct '(' :: r =>
    if a = "INSERT".toList ∧ b = "INTO".toList ∧ n = S.name then
      (readList Token.name r).bind fun p =>
        match p.2 with
        | .word v :: .punct '(' :: r =>
          if v = "VALUES".toList then
            (readList Token.lit r).map fun q => (.insert p.1 q.1, q.2)
          else none
        | _ => none
    else none
  | .word a :: .word n :: .word b :: .word c :: r =>
    if a = "UPDATE".toList ∧ n = S.name ∧ b = "SET".toList then
      (readSets (.word c :: r)).bind fun p => (readKey S p.2).map fun q => (.update p.1 q.1, q.2)
    else if a = "DELETE".toList ∧ n = "FROM".toList ∧ b = S.name ∧ c = "WHERE".toList then
      (readKey S r).map fun q => (.delete q.1, q.2)
    else none
  | _ => none

def readQuery : List Token → Option (Query × List Token)
  | .word a :: w :: .word b :: .word n :: .word c :: .word col :: .punct '=' :: t :: r =>
    if a = "SELECT".toList ∧ b = "FROM".toList ∧ n = S.name ∧ c = "WHERE".toList then
      t.lit.map fun v =>
        match r with
        | .word d :: .word k :: r' =>
          if d = "LIMIT".toList then (⟨w.name, col, v, some k⟩, r') else (⟨w.name, col, v, none⟩, r)
        | r => (⟨w.name, col, v, none⟩, r)
    else none
  | _ => none

/-- What `read` reads when nothing but a semicolon is left. -/
def whole {α : Type} (read : List Token → Option (α × List Token)) (l : Text) : Option α :=
  (lex l).bind fun ts => (read ts).bind fun p =>
    if p.2 = [] ∨ p.2 = [.punct ';'] then some p.1 else none

/-- Executes the statements above and rejects every other text with code 1; a violated constraint
has code 19. -/
def fragment : Engine S where
  State := Table S
  table t := t
  exec t l :=
    match whole (readStmt S) l with
    | none => .error 1
    | some st =>
      if st.WellFormed S then
        match st.effect t with
        | some t' => .ok t'
        | none => .error 19
      else .error 1
  query t l :=
    match whole (readQuery S) l with
    | none => .error 1
    | some q => .ok (q.rows t)

end

@[simp] theorem lit_token (v : Lit) : v.token.lit = some v := by cases v <;> rfl

theorem token_of_lit {t : Token} {v : Lit} (h : t.lit = some v) : t = v.token := by
  cases t <;> simp [Token.lit] at h <;> subst h <;> rfl

theorem commas_cons {t : List Token} {l : List (List Token)} (h : l ≠ []) :
    commas (t :: l) = t ++ .punct ',' :: commas l := by
  rw [commas]
  simpa using h

theorem readList_commas {α : Type} {f : Token → Option α} {g : α → Token}
    (hf : ∀ a, f (g a) = some a) :
    ∀ {l : List α}, l ≠ [] → ∀ r, readList f (commas (l.map fun a => [g a]) ++ .punct ')' :: r) =
      some (l, r)
  | [a], _, r => by simp [commas, readList, hf]
  | a :: b :: l, _, r => by
    have ih := readList_commas hf (l := b :: l) (by simp) r
    rw [List.map_cons, commas_cons (by simp), List.append_assoc, List.singleton_append,
      List.cons_append, readList, hf, ih]
    rfl

/-- A bracketed list of `n` items takes `2 * n` tokens. -/
theorem eq_of_readList {α : Type} {f : Token → Option α} {ts r : List Token} {l : List α}
    (h : readList f ts = some (l, r)) : ∃ pre, ts = pre ++ r ∧ pre.length = 2 * l.length := by
  fun_induction readList f ts generalizing l with
  | case1 t r' =>
    obtain ⟨a, -, h⟩ := Option.map_eq_some_iff.1 h
    cases h
    exact ⟨[t, .punct ')'], rfl, rfl⟩
  | case2 t r' ih =>
    obtain ⟨a, -, h⟩ := Option.bind_eq_some_iff.1 h
    obtain ⟨p, hp, h⟩ := Option.map_eq_some_iff.1 h
    cases h
    obtain ⟨pre, hpre, hl⟩ := ih hp
    refine ⟨t :: .punct ',' :: pre, by simp [hpre], ?_⟩
    simp [hl]
    omega
  | case3 => cases h

theorem readSets_commas : ∀ {l : List (Text × Lit)}, l ≠ [] → ∀ r,
    readSets (commas (l.map fun p => [.word p.1, .punct '=', p.2.token]) ++
      .word "WHERE".toList :: r) = some (l, r)
  | [p], _, r => by simp [commas, readSets]
  | p :: q :: l, _, r => by
    have ih := readSets_commas (l := q :: l) (by simp) r
    rw [List.map_cons, commas_cons (by simp), List.append_assoc]
    simp only [List.cons_append, List.nil_append]
    rw [readSets, lit_token, ih]
    rfl

theorem readKey_tokens (S : Schema) (v : Lit) (r : List Token) :
    readKey S (.word S.unique :: .punct '=' :: v.token :: r) = some (v, r) := by
  simp [readKey]

theorem readStmt_tokens {S : Schema} {st : Stmt} (h : st.WellFormed S) (r : List Token) :
    readStmt S (st.tokens S ++ r) = some (st, r) := by
  cases st with
  | insert cols vals =>
    obtain ⟨hl, -, hu⟩ := h
    have hc : cols ≠ [] := List.ne_nil_of_mem hu
    have hv : vals ≠ [] := by
      rintro rfl
      exact hc (List.length_eq_zero_iff.1 hl)
    simp only [Stmt.tokens, List.append_assoc, List.cons_append, List.nil_append]
    rw [readStmt, if_pos ⟨rfl, rfl, rfl⟩, readList_commas (g := Token.word) (fun _ => rfl) hc]
    simp only [Option.bind_some, if_true, readList_commas (g := Lit.token) lit_token hv]
    rfl
  | update sets key =>
    obtain ⟨hs, -, -⟩ := h
    simp only [Stmt.tokens, List.append_assoc, List.cons_append, List.nil_append]
    have := readSets_commas hs (.word S.unique :: .punct '=' :: key.token :: r)
    obtain ⟨p, l, rfl⟩ := List.exists_cons_of_ne_nil hs
    obtain ⟨w, hw⟩ : ∃ w, commas ((p :: l).map fun p => [.word p.1, .punct '=', p.2.token]) =
        .word p.1 :: w := by
      cases l with
      | nil => exact ⟨_, rfl⟩
      | cons q l => exact ⟨_, by rw [List.map_cons, commas_cons (by simp)]; rfl⟩
    rw [hw] at this ⊢
    simp only [List.cons_append] at this ⊢
    rw [readStmt, if_pos ⟨rfl, rfl, rfl⟩, this]
    simp [readKey_tokens]
  | delete key =>
    simp only [Stmt.tokens, List.cons_append, List.nil_append]
    rw [readStmt, if_neg (by rintro ⟨h, -⟩; exact absurd h (by decide)),
      if_pos ⟨rfl, rfl, rfl, rfl⟩, readKey_tokens]
    rfl

theorem readQuery_tokens (S : Schema) (q : Query) {r : List Token}
    (hr : r = [] ∨ r = [.punct ';']) : readQuery S (q.tokens S ++ r) = some (q, r) := by
  obtain ⟨what, col, val, limit⟩ := q
  have hw : ((what.map Token.word).getD (.punct '*')).name = what := by cases what <;> rfl
  cases limit <;> rcases hr with rfl | rfl <;> simp [Query.tokens, readQuery, hw]

theorem whole_of_lexes {α : Type} {read : List Token → Option (α × List Token)} {l : Text}
    {ts : List Token} {a : α} (h : Says l ts)
    (hr : ∀ r, r = [] ∨ r = [.punct ';'] → read (ts ++ r) = some (a, r)) :
    whole read l = some a := by
  unfold whole
  rcases h with h | h
  · have := hr [] (.inl rfl)
    rw [List.append_nil] at this
    simp [h, this]
  · simp [h, hr _ (.inr rfl)]

theorem fragment_conforms (S : Schema) : (fragment S).Conforms where
  exec_ok t l st t' hl hw he := by
    have := whole_of_lexes hl fun r _ => readStmt_tokens hw r
    refine ⟨t', ?_, rfl⟩
    simp only [fragment, this, if_pos hw] at he ⊢
    rw [he]
  query_ok t l q hl := by
    have := whole_of_lexes hl fun r hr => readQuery_tokens S q hr
    simp only [fragment, this]

/-- What an accepted text was read as. -/
theorem fragment_exec_ok {S : Schema} {t t' : Table S} {l : Text}
    (h : (fragment S).exec t l = .ok t') : ∃ ts st r, lex l = some ts ∧
      readStmt S ts = some (st, r) ∧ (r = [] ∨ r = [.punct ';']) ∧ st.WellFormed S ∧
      st.effect t = some t' := by
  simp only [fragment] at h
  split at h
  · cases h
  · rename_i st hw
    obtain ⟨ts, hts, hb⟩ := Option.bind_eq_some_iff.1 hw
    obtain ⟨⟨st', r⟩, hr, hi⟩ := Option.bind_eq_some_iff.1 hb
    split at hi
    · cases hi
      split at h
      · split at h
        · cases h
          exact ⟨ts, st', r, hts, hr, ‹_›, ‹_›, ‹_›⟩
        · cases h
      · cases h
    · cases hi

end EpicWallet.Lib.Sql
