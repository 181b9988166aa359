import Mathlib.Tactic.Common
import EpicWallet.Lib.Prog
import EpicWallet.Lib.SqlEngine
import EpicWallet.Impls.Serialization

/-!
# The SQLite store

`impls/src/backends/db.rs`: each operation formats the text of a statement and hands it to the
database. The value of a row is the JSON text of the stored value, placed between apostrophes as it
is; the key is the debug text of its bytes, between double quotes.

* `insertText_lexes`, `updateText_lexes`: for a value without apostrophes the text `put` builds is one
  statement, for every kind of value, whether or not the key is there.
* `put_get`: on any database that lexes statements in the standard way, such a value is stored, read
  back unchanged, and no other key is affected.
* `plain_of_roundTrip`: a value with an apostrophe has no such guarantee.
* `roundTrip_iff`: the two together.

The database is a parameter (`Engine`), as are the byte keys: they start with one of the prefixes of
`lmdb.rs`.
-/

namespace EpicWallet.Db

open Lib Lib.Sql

/-- The table `data`, whose column `key` is unique. -/
def schema : Schema := ⟨"data".toList, "key".toList⟩

/-! ## Keys -/

/-- The prefixes of the keys in `lmdb.rs`. -/
def prefixes : List Char := "hjodcptialw".toList

/-- A key of the store: a prefix and more bytes. -/
structure StoreKey where
  head : Char
  head_mem : head ∈ prefixes
  tail : List UInt8

def StoreKey.bytes (k : StoreKey) : List UInt8 := k.head.toNat.toUInt8 :: k.tail

def joinBytes : List UInt8 → Text
  | [] => []
  | [b] => Nat.toDigits 10 b.toNat
  | b :: l => Nat.toDigits 10 b.toNat ++ ',' :: ' ' :: joinBytes l

/-- `{:?}` of the bytes of a key. -/
def keyText (k : StoreKey) : Text := '[' :: (joinBytes k.bytes ++ [']'])

/-! ## Statement texts -/

/-- `{}` of an optional log id, empty when there is none. -/
def entryText : Option Nat → Text
  | some entry => Nat.toDigits 10 entry
  | none => []

def boolText (b : Bool) : Text := (if b then "true" else "false").toList

def insertText (key : StoreKey) (value_s : Text) : Serializable → Text
  | .txLogEntry t =>
    "INSERT INTO data\n\t\t\t\t\t\t".toList ++
      "(key, data, prefix, q_tx_id, q_confirmed, q_tx_status)".toList ++
      "\n\t\t\t\t\tVALUES\n\t\t\t\t\t\t(\"".toList ++ keyText key ++ "\", '".toList ++ value_s ++ "'".toList ++
      ", \"".toList ++ [key.head] ++ "\", ".toList ++
      Nat.toDigits 10 t.id ++ ", ".toList ++ boolText t.confirmed ++ ", \"".toList ++
      t.txType.display.toList ++ "\");\n\t\t\t\t".toList
  | .outputData o =>
    "INSERT INTO data\n\t\t\t\t\t\t(key, data, prefix, q_tx_id, q_tx_status)".toList ++
      "\n\t\t\t\t\tVALUES\n\t\t\t\t\t\t(\"".toList ++ keyText key ++ "\", '".toList ++ value_s ++ "'".toList ++
      ", \"".toList ++ [key.head] ++ "\", \"".toList ++ entryText o.txLogEntry ++ "\", \"".toList ++ o.status.display.toList ++
      "\")\n\t\t\t\t".toList
  | _ =>
    "INSERT INTO data\n\t\t\t\t\t\t(key, data, prefix)".toList ++
      "\n\t\t\t\t\tVALUES\n\t\t\t\t\t\t(\"".toList ++ keyText key ++ "\", '".toList ++ value_s ++ "'".toList ++
      ", \"".toList ++ [key.head] ++ "\");\n\t\t\t\t".toList

def updateText (key : StoreKey) (value_s : Text) : Serializable → Text
  | .txLogEntry t =>
    "UPDATE data\n\t\t\t\t\t\tSET\n\t\t\t\t\t\t\tdata = '".toList ++ value_s ++
      "',\n\t\t\t\t\t\t\tq_tx_id = ".toList ++ Nat.toDigits 10 t.id ++
      ",\n\t\t\t\t\t\t\tq_confirmed = ".toList ++ boolText t.confirmed ++
      ",\n\t\t\t\t\t\t\tq_tx_status = \"".toList ++ t.txType.display.toList ++
      "\"\n\t\t\t\t\t\tWHERE\n\t\t\t\t\t\t\tkey = \"".toList ++ keyText key ++
      "\";\n\t\t\t\t\t".toList
  | .outputData o =>
    "UPDATE data\n\t\t\t\t\t\tSET\n\t\t\t\t\t\t\tdata = '".toList ++ value_s ++
      "',\n\t\t\t\t\t\t\tq_tx_id = \"".toList ++ entryText o.txLogEntry ++
      "\",\n\t\t\t\t\t\t\tq_tx_status = \"".toList ++ o.status.display.toList ++
      "\"\n\t\t\t\t\t\tWHERE\n\t\t\t\t\t\t\tkey = \"".toList ++ keyText key ++
      "\";\n\t\t\t\t\t".toList
  | _ =>
    "UPDATE data\n\t\t\t\t\t\tSET\n\t\t\t\t\t\t\tdata = '".toList ++ value_s ++
      "'\n\t\t\t\t\t\tWHERE\n\t\t\t\t\t\t\tkey = \"".toList ++ keyText key ++
      "\";\n\t\t\t\t\t".toList

def getText (key : StoreKey) : Text :=
  "\n\t\t\tSELECT\n\t\t\t\tdata\n\t\t\tFROM\n\t\t\t\tdata\n\t\t\tWHERE\n\t\t\t\tkey = \"".toList ++
    keyText key ++ "\"\n\t\t\tLIMIT 1;\n\t\t\t".toList

def existsText (key : StoreKey) : Text :=
  "\n\t\t\tSELECT\n\t\t\t\t*\n\t\t\tFROM\n\t\t\t\tdata\n\t\t\tWHERE\n\t\t\t\tkey = \"".toList ++
    keyText key ++ "\"\n\t\t\tLIMIT 1;\n\t\t\t".toList

/-- `from` is a one-byte prefix. -/
def iterText (frm : Char) : Text :=
  "\n\t\t\tSELECT\n\t\t\t\tdata\n\t\t\tFROM\n\t\t\t\tdata\n\t\t\tWHERE\n\t\t\t\tprefix = \"".toList ++
    [frm] ++ "\";\n\t\t\t".toList

def deleteText (key : StoreKey) : Text :=
  "\n\t\tDELETE\n\t\tFROM\n\t\t\tdata\n\t\tWHERE\n\t\t\tkey = \"".toList ++ keyText key ++
    "\"\n\t\t".toList

/-! ## Operations

The state is the database's; an error is its code. -/

section
variable (C : Codecs) (E : Engine schema)

/-- `self.db.prepare(query).unwrap()`: the rows of a query. -/
def prepare (query : Text) : Prog E.State Nat (List Row) := do
  let s ← Prog.get
  Prog.orPanic (Prog.ofExcept (E.query s query))

/-- `ser::deserialize(row.read("data")).unwrap()`. -/
def readData (row : Row) : Prog E.State Nat Serializable :=
  Prog.unwrap ((row.lookup "data".toList).bind (deserialize C))

def get (key : StoreKey) : Prog E.State Nat (Option Serializable) := do
  let rows ← prepare E (getText key)
  match rows.head? with
  | some row => some <$> readData C E row
  | none => pure none

def exists' (key : StoreKey) : Prog E.State Nat Bool := do
  let rows ← prepare E (existsText key)
  pure rows.head?.isSome

def iter (frm : Char) : Prog E.State Nat (List Serializable) := do
  let rows ← prepare E (iterText frm)
  rows.mapM (readData C E)

/-- A statement is retried while the database is busy (code 5), `left` times. -/
def executeLoop (statement : Text) : Nat → Prog E.State Nat Unit
  | 0 => fun s =>
    match E.exec s statement with
    | .ok s' => (.ok (), s')
    | .error c => (.error (.err c), s)
  | left + 1 => fun s =>
    match E.exec s statement with
    | .ok s' => (.ok (), s')
    | .error c => if c = 5 then executeLoop statement left s else (.error (.err c), s)

def sqliteMaxRetries : Nat := 3

def execute (statement : Text) : Prog E.State Nat Unit :=
  executeLoop E statement sqliteMaxRetries

/-- Inserts the row, or updates it when the key is there; any error is a panic. -/
def put (key : StoreKey) (value : Serializable) : Prog E.State Nat Unit := do
  let value_s := serialize C value
  let query := if ← exists' E key then updateText key value_s value
    else insertText key value_s value
  Prog.orPanic (execute E query)

def delete (key : StoreKey) : Prog E.State Nat Unit := execute E (deleteText key)

end

/-! ## Keys and texts between quotes -/

theorem joinBytes_chars : ∀ {l : List UInt8} {c : Char}, c ∈ joinBytes l →
    c.isDigit = true ∨ c = ',' ∨ c = ' '
  | [], _, h => by simp [joinBytes] at h
  | [b], _, h => .inl (Nat.isDigit_of_mem_toDigits (b := 10) (by decide) (by decide) h)
  | b :: b' :: l, c, h => by
    rw [joinBytes] at h
    · simp only [List.mem_append, List.mem_cons] at h
      rcases h with h | h | h | h
      · exact .inl (Nat.isDigit_of_mem_toDigits (b := 10) (by decide) (by decide) h)
      · exact .inr (.inl h)
      · exact .inr (.inr h)
      · exact joinBytes_chars h
    · simp

theorem keyText_chars {k : StoreKey} {c : Char} (h : c ∈ keyText k) : c ≠ '"' ∧ c ≠ '\'' := by
  simp only [keyText, List.mem_cons, List.mem_append, List.not_mem_nil, or_false] at h
  rcases h with rfl | h | rfl
  · decide
  · rcases joinBytes_chars h with h | rfl | rfl
    · exact ⟨by rintro rfl; simp at h, by rintro rfl; simp at h⟩
    · decide
    · decide
  · decide

theorem toDigits_filter (n : Nat) : (Nat.toDigits 10 n).filter (· ≠ ' ') = Nat.toDigits 10 n := by
  rw [List.filter_eq_self]
  intro c hc
  have := Nat.isDigit_of_mem_toDigits (b := 10) (by decide) (by decide) hc
  have : c ≠ ' ' := by rintro rfl; simp at this
  simpa using this

/-- Without its spaces the debug text of the bytes is the JSON text of their list. -/
theorem joinBytes_filter : ∀ l : List UInt8, (joinBytes l).filter (· ≠ ' ') =
    Json.renderElems (l.map fun b => .num b.toNat)
  | [] => rfl
  | [b] => by simpa [joinBytes, Json.renderElems, Json.render] using toDigits_filter b.toNat
  | b :: b' :: l => by
    have ih := joinBytes_filter (b' :: l)
    rw [joinBytes, List.map_cons, Json.renderElems_cons _ (by simp), List.filter_append,
      toDigits_filter, List.filter_cons_of_pos (by decide), List.filter_cons_of_neg (by decide), ih,
      Json.render]
    simp

/-- Different keys have different texts. -/
theorem keyText_injective {k k' : StoreKey} (h : keyText k = keyText k') : k = k' := by
  have hj : joinBytes k.bytes = joinBytes k'.bytes := by simpa [keyText] using h
  have hr : Json.render (.arr (k.bytes.map fun b => .num b.toNat)) =
      Json.render (.arr (k'.bytes.map fun b => .num b.toNat)) := by
    simp only [Json.render, ← joinBytes_filter, hj]
  have hb : k.bytes = k'.bytes := by
    have := congrArg Json.read hr
    rw [Json.read_render, Json.read_render] at this
    have hm : k.bytes.map UInt8.toNat = k'.bytes.map UInt8.toNat := by
      have := congrArg (List.map fun j => (readNat j).getD 0) (Json.arr.inj (Option.some.inj this))
      simpa [readNat, Function.comp_def] using this
    exact List.map_injective_iff.2 (fun a b => UInt8.toNat_inj.1) hm
  obtain ⟨hh, ht⟩ : k.head.toNat.toUInt8 = k'.head.toNat.toUInt8 ∧ k.tail = k'.tail := by
    simpa [StoreKey.bytes] using hb
  have hp : prefixes.all (fun c => prefixes.all fun d =>
      decide (c.toNat.toUInt8 = d.toNat.toUInt8 → c = d)) = true := by decide +kernel
  obtain ⟨c, hc, t⟩ := k
  obtain ⟨c', hc', t'⟩ := k'
  have hcd := of_decide_eq_true (List.all_eq_true.1 (List.all_eq_true.1 hp c hc) c' hc')
  cases hcd hh
  cases ht
  rfl

theorem head_chars (k : StoreKey) : k.head ≠ '"' ∧ k.head ≠ '\'' := by
  have h : prefixes.all (fun c => decide (c ≠ '"' ∧ c ≠ '\'')) = true := by decide
  exact of_decide_eq_true (List.all_eq_true.1 h k.head k.head_mem)

theorem entryText_chars {o : Option Nat} {c : Char} (h : c ∈ entryText o) :
    c ≠ '"' ∧ c ≠ '\'' := by
  cases o with
  | none => cases h
  | some n =>
    have := Nat.isDigit_of_mem_toDigits (b := 10) (by decide) (by decide) h
    exact ⟨by rintro rfl; simp at this, by rintro rfl; simp at this⟩

theorem txType_chars (t : TxLogEntryType) :
    '"' ∉ t.display.toList ∧ '\'' ∉ t.display.toList := by
  cases t <;> decide

theorem status_chars (s : OutputStatus) : '"' ∉ s.display.toList ∧ '\'' ∉ s.display.toList := by
  cases s <;> decide

theorem runs_key (k : StoreKey) : Runs (.dq []) (keyText k) [] (.dq (keyText k)) :=
  run_dq (fun h => (keyText_chars h).1 rfl) []

theorem runs_head (k : StoreKey) : Runs (.dq []) [k.head] [] (.dq [k.head]) :=
  run_dq (by simpa [eq_comm] using (head_chars k).1) []

theorem runs_digits (n : Nat) : Runs .start (Nat.toDigits 10 n) [] (.word (Nat.toDigits 10 n)) := by
  have hd : ∀ c ∈ Nat.toDigits 10 n, isWordChar c = true ∧ c ≠ '\'' ∧ c ≠ '"' ∧
      isSpace c = false := by
    intro c hc
    have := Nat.isDigit_of_mem_toDigits (b := 10) (by decide) (by decide) hc
    refine ⟨by simp [isWordChar, Char.isAlphanum, this], ?_, ?_, ?_⟩
    · rintro rfl; simp at this
    · rintro rfl; simp at this
    · simp only [isSpace, Bool.or_eq_false_iff, decide_eq_false_iff_not]
      refine ⟨⟨⟨?_, ?_⟩, ?_⟩, ?_⟩ <;> rintro rfl <;> simp at this
  obtain ⟨c, l, h, -⟩ := Json.toDigits_cons n
  rw [h] at hd ⊢
  obtain ⟨hw, hq, hdq, hs⟩ := hd c (by simp)
  have hl := run_word (l := l) (fun d hd' => (hd d (by simp [hd'])).1) [c]
  simp [Runs, run, next, fresh, hq, hdq, hs, hw, hl]

theorem runs_bool (b : Bool) : Runs .start (boolText b) [] (.word (boolText b)) := by
  cases b <;> rfl

theorem runs_entry (o : Option Nat) : Runs (.dq []) (entryText o) [] (.dq (entryText o)) :=
  run_dq (fun h => (entryText_chars h).1 rfl) []

theorem runs_txType (t : TxLogEntryType) :
    Runs (.dq []) t.display.toList [] (.dq t.display.toList) :=
  run_dq (txType_chars t).1 []

theorem runs_status (s : OutputStatus) :
    Runs (.dq []) s.display.toList [] (.dq s.display.toList) :=
  run_dq (status_chars s).1 []

/-! ## What the texts say -/

def insertCols : Serializable → List Text
  | .txLogEntry _ => ["key".toList, "data".toList, "prefix".toList, "q_tx_id".toList,
      "q_confirmed".toList, "q_tx_status".toList]
  | .outputData _ => ["key".toList, "data".toList, "prefix".toList, "q_tx_id".toList,
      "q_tx_status".toList]
  | _ => ["key".toList, "data".toList, "prefix".toList]

/-- The values after `key` and `data`. -/
def insertVals (key : StoreKey) : Serializable → List Lit
  | .txLogEntry t => [.dq [key.head], .word (Nat.toDigits 10 t.id), .word (boolText t.confirmed),
      .dq t.txType.display.toList]
  | .outputData o => [.dq [key.head], .dq (entryText o.txLogEntry), .dq o.status.display.toList]
  | _ => [.dq [key.head]]

def insertStmt (key : StoreKey) (data : Text) (v : Serializable) : Stmt :=
  .insert (insertCols v) (.dq (keyText key) :: .str data :: insertVals key v)

/-- The assignments after `data`. -/
def updateSets : Serializable → List (Text × Lit)
  | .txLogEntry t => [("q_tx_id".toList, .word (Nat.toDigits 10 t.id)),
      ("q_confirmed".toList, .word (boolText t.confirmed)),
      ("q_tx_status".toList, .dq t.txType.display.toList)]
  | .outputData o => [("q_tx_id".toList, .dq (entryText o.txLogEntry)),
      ("q_tx_status".toList, .dq o.status.display.toList)]
  | _ => []

def updateStmt (key : StoreKey) (data : Text) (v : Serializable) : Stmt :=
  .update (("data".toList, .str data) :: updateSets v) (.dq (keyText key))

/-- The insertion of an output has no semicolon. -/
def semicolon : Serializable → List Token
  | .outputData _ => []
  | _ => [.punct ';']

/-- The tokens before the value of an insertion, up to the key and its comma. -/
def insertHead (key : StoreKey) (v : Serializable) : List Token :=
  [.word "INSERT".toList, .word "INTO".toList, .word "data".toList, .punct '('] ++
    commas ((insertCols v).map fun c => [.word c]) ++
    [.punct ')', .word "VALUES".toList, .punct '(', .dq (keyText key), .punct ',']

/-- The tokens after the value of an insertion. -/
def insertTail (key : StoreKey) (v : Serializable) : List Token :=
  .punct ',' :: commas ((insertVals key v).map fun l => [l.token]) ++ .punct ')' :: semicolon v

theorem insertStmt_tokens (key : StoreKey) (data : Text) (v : Serializable) :
    (insertStmt key data v).tokens schema ++ semicolon v =
      insertHead key v ++ .str data :: insertTail key v := by
  cases v <;> rfl

/-- No apostrophe and `n` double quotes. -/
def Quotes (n : Nat) (l : Text) : Prop := '\'' ∉ l ∧ l.count '"' = n

theorem Quotes.append {n m : Nat} {l l' : Text} (h : Quotes n l) (h' : Quotes m l') :
    Quotes (n + m) (l ++ l') :=
  ⟨by simpa using ⟨h.1, h'.1⟩, by rw [List.count_append, h.2, h'.2]⟩

theorem Quotes.even {n : Nat} {l : Text} (h : Quotes n l) (hn : n % 2 = 0) :
    l.count '"' % 2 = 0 := h.2 ▸ hn

theorem quotes_zero {l : Text} (h : ∀ c ∈ l, c ≠ '"' ∧ c ≠ '\'') : Quotes 0 l :=
  ⟨fun hm => (h _ hm).2 rfl, List.count_eq_zero.2 fun hm => (h _ hm).1 rfl⟩

theorem quotes_digits (n : Nat) : Quotes 0 (Nat.toDigits 10 n) :=
  quotes_zero fun _ h => entryText_chars (o := some n) h

theorem quotes_entry (o : Option Nat) : Quotes 0 (entryText o) := quotes_zero fun _ => entryText_chars

theorem quotes_head (k : StoreKey) : Quotes 0 [k.head] :=
  quotes_zero fun c h => by rw [List.mem_singleton.1 h]; exact head_chars k

theorem quotes_bool (b : Bool) : Quotes 0 (boolText b) := by cases b <;> exact ⟨by decide, by decide⟩

theorem quotes_txType (t : TxLogEntryType) : Quotes 0 t.display.toList :=
  ⟨(txType_chars t).2, List.count_eq_zero.2 (txType_chars t).1⟩

theorem quotes_status (s : OutputStatus) : Quotes 0 s.display.toList :=
  ⟨(status_chars s).2, List.count_eq_zero.2 (status_chars s).1⟩

/-- An insertion's text around its value: what stands before it opens a `'…'` literal; what stands
after it has one apostrophe, balanced double quotes, and after the literal the tokens of the
remaining values. -/
structure InsertParts (key : StoreKey) (v : Serializable) (head tail : Text) : Prop where
  text : ∀ data, insertText key data v = head ++ (data ++ ("'".toList ++ tail))
  head_runs : Runs .start head (insertHead key v) (.str [])
  no_apostrophe : '\'' ∉ tail
  balanced : tail.count '"' % 2 = 0
  tail_lex : ∀ s, lexAt (.strQ s) tail = some (.str s :: insertTail key v)

theorem quote_append (l : Text) : "'".toList ++ l = '\'' :: l := rfl

theorem runs_insert : Runs .start "INSERT INTO data\n\t\t\t\t\t\t".toList
    [.word "INSERT".toList, .word "INTO".toList, .word "data".toList] .start := rfl

theorem runs_values : Runs .start "\n\t\t\t\t\tVALUES\n\t\t\t\t\t\t(\"".toList
    [.word "VALUES".toList, .punct '('] (.dq []) := rfl

theorem runs_toData (key : StoreKey) :
    Runs (.dq (keyText key)) "\", '".toList [.dq (keyText key), .punct ','] (.str []) := rfl

theorem runs_comma_dq (s : Text) : Runs (.strQ s) ", \"".toList [.str s, .punct ','] (.dq []) := rfl

theorem insertText_txLogEntry (key : StoreKey) (t : TxLogEntry) :
    ∃ head tail, InsertParts key (.txLogEntry t) head tail := by
  have cols : Runs .start "(key, data, prefix, q_tx_id, q_confirmed, q_tx_status)".toList
      (.punct '(' :: commas (["key".toList, "data".toList, "prefix".toList, "q_tx_id".toList,
        "q_confirmed".toList, "q_tx_status".toList].map fun c => [.word c]) ++ [.punct ')'])
      .start := by decide
  have t2 : Runs (.dq [key.head]) "\", ".toList [.dq [key.head], .punct ','] .start := rfl
  have t3 : ∀ w, Runs (.word w) ", ".toList [.word w, .punct ','] .start := fun _ => rfl
  have t4 : ∀ w, Runs (.word w) ", \"".toList [.word w, .punct ','] (.dq []) := fun _ => rfl
  have t5 : ∀ w, Runs (.dq w) "\");\n\t\t\t\t".toList [.dq w, .punct ')', .punct ';'] .start :=
    fun _ => rfl
  have q1 : Quotes 1 ", \"".toList := ⟨by decide, by decide⟩
  have q2 : Quotes 1 "\", ".toList := ⟨by decide, by decide⟩
  have q3 : Quotes 0 ", ".toList := ⟨by decide, by decide⟩
  have q5 : Quotes 1 "\");\n\t\t\t\t".toList := ⟨by decide, by decide⟩
  have hq := (((((((q1.append (quotes_head key)).append q2).append (quotes_digits t.id)).append
    q3).append (quotes_bool t.confirmed)).append q1).append (quotes_txType t.txType)).append q5
  have head := (((runs_insert.append cols).append runs_values).append (runs_key key)).append
    (runs_toData key)
  refine ⟨_, _, InsertParts.mk (fun data => ?_) (head.of_eq ?_) hq.1 (hq.even rfl) fun s => ?_⟩
  · unfold insertText
    simp only [List.append_assoc]
  · simp only [insertHead, insertCols, commas, List.map_cons, List.map_nil, List.cons_append,
      List.nil_append]
  · have := ((((((((runs_comma_dq s).append (runs_head key)).append t2).append
      (runs_digits t.id)).append (t3 _)).append (runs_bool t.confirmed)).append (t4 _)).append
      (runs_txType t.txType)).append (t5 _)
    rw [this.lexAt rfl]
    simp only [insertTail, insertVals, commas, Lit.token, semicolon, List.map_cons, List.map_nil,
      List.cons_append, List.nil_append, List.append_nil]

theorem insertText_outputData (key : StoreKey) (o : OutputData) :
    ∃ head tail, InsertParts key (.outputData o) head tail := by
  have cols : Runs .start "INSERT INTO data\n\t\t\t\t\t\t(key, data, prefix, q_tx_id, q_tx_status)".toList
      ([.word "INSERT".toList, .word "INTO".toList, .word "data".toList, .punct '('] ++
        commas (["key".toList, "data".toList, "prefix".toList, "q_tx_id".toList,
          "q_tx_status".toList].map fun c => [.word c]) ++ [.punct ')'])
      .start := by decide
  have t2 : ∀ w, Runs (.dq w) "\", \"".toList [.dq w, .punct ','] (.dq []) := fun _ => rfl
  have t5 : ∀ w, Runs (.dq w) "\")\n\t\t\t\t".toList [.dq w, .punct ')'] .start := fun _ => rfl
  have q1 : Quotes 1 ", \"".toList := ⟨by decide, by decide⟩
  have q2 : Quotes 2 "\", \"".toList := ⟨by decide, by decide⟩
  have q5 : Quotes 1 "\")\n\t\t\t\t".toList := ⟨by decide, by decide⟩
  have hq := (((((q1.append (quotes_head key)).append q2).append (quotes_entry o.txLogEntry)).append
    q2).append (quotes_status o.status)).append q5
  have head := ((cols.append runs_values).append (runs_key key)).append (runs_toData key)
  refine ⟨_, _, InsertParts.mk (fun data => ?_) (head.of_eq ?_) hq.1 (hq.even rfl) fun s => ?_⟩
  · unfold insertText
    simp only [List.append_assoc]
  · simp only [insertHead, insertCols, commas, List.map_cons, List.map_nil, List.cons_append,
      List.nil_append]
  · have := ((((((runs_comma_dq s).append (runs_head key)).append (t2 _)).append
      (runs_entry o.txLogEntry)).append (t2 _)).append (runs_status o.status)).append (t5 _)
    rw [this.lexAt rfl]
    simp only [insertTail, insertVals, commas, Lit.token, semicolon, List.map_cons, List.map_nil,
      List.cons_append, List.nil_append, List.append_nil]

/-- The other kinds of values have no queriable columns. -/
theorem insertText_other (key : StoreKey) (v : Serializable)
    (ht : ∀ data, insertText key data v =
      "INSERT INTO data\n\t\t\t\t\t\t(key, data, prefix)".toList ++
      "\n\t\t\t\t\tVALUES\n\t\t\t\t\t\t(\"".toList ++ keyText key ++ "\", '".toList ++ data ++
      "'".toList ++ ", \"".toList ++ [key.head] ++ "\");\n\t\t\t\t".toList)
    (hc : insertCols v = ["key".toList, "data".toList, "prefix".toList])
    (hv : insertVals key v = [.dq [key.head]]) (hs : semicolon v = [.punct ';']) :
    ∃ head tail, InsertParts key v head tail := by
  have cols : Runs .start "INSERT INTO data\n\t\t\t\t\t\t(key, data, prefix)".toList
      ([.word "INSERT".toList, .word "INTO".toList, .word "data".toList, .punct '('] ++
        commas (["key".toList, "data".toList, "prefix".toList].map fun c => [.word c]) ++ [.punct ')'])
      .start := by decide
  have t5 : ∀ w, Runs (.dq w) "\");\n\t\t\t\t".toList [.dq w, .punct ')', .punct ';'] .start :=
    fun _ => rfl
  have q1 : Quotes 1 ", \"".toList := ⟨by decide, by decide⟩
  have q5 : Quotes 1 "\");\n\t\t\t\t".toList := ⟨by decide, by decide⟩
  have hq := (q1.append (quotes_head key)).append q5
  have head := ((cols.append runs_values).append (runs_key key)).append (runs_toData key)
  refine ⟨_, _, InsertParts.mk (fun data => ?_) (head.of_eq ?_) hq.1 (hq.even rfl) fun s => ?_⟩
  · rw [ht]
    simp only [List.append_assoc]
  · simp only [insertHead, hc, commas, List.map_cons, List.map_nil, List.cons_append,
      List.nil_append]
  · have := ((runs_comma_dq s).append (runs_head key)).append (t5 _)
    rw [this.lexAt rfl]
    simp only [insertTail, hv, commas, Lit.token, hs, List.map_cons, List.map_nil,
      List.cons_append, List.nil_append, List.append_nil]

theorem insertText_parts (key : StoreKey) (v : Serializable) :
    ∃ head tail, InsertParts key v head tail := by
  cases v with
  | txLogEntry t => exact insertText_txLogEntry key t
  | outputData o => exact insertText_outputData key o
  | acctPathMapping a => exact insertText_other key _ (fun _ => rfl) rfl rfl rfl
  | scannedBlockInfo b => exact insertText_other key _ (fun _ => rfl) rfl rfl rfl
  | walletInitStatus w => exact insertText_other key _ (fun _ => rfl) rfl rfl rfl
  | context c => exact insertText_other key _ (fun _ => rfl) rfl rfl rfl
  | numeric n => exact insertText_other key _ (fun _ => rfl) rfl rfl rfl

/-- For a value without apostrophes the insertion's text is the insertion of it. -/
theorem insertText_lexes (key : StoreKey) {data : Text} (h : '\'' ∉ data) (v : Serializable) :
    Says (insertText key data v) ((insertStmt key data v).tokens schema) := by
  obtain ⟨head, tail, p⟩ := insertText_parts key v
  have hl : lex (insertText key data v) = some ((insertStmt key data v).tokens schema ++
      semicolon v) := by
    rw [p.text, lex, p.head_runs.lexAt_append, Runs.lexAt_append (run_str h []), lexAt_append]
    change Option.map _ (Option.map _ (Option.map _ (lexAt (.strQ data) tail))) = _
    rw [p.tail_lex, insertStmt_tokens]
    rfl
  rcases v with _ | _ | _ | _ | _ | _ | _ <;> first
    | exact .inr hl
    | exact .inl (hl.trans (by rw [semicolon, List.append_nil]))

theorem runs_update : Runs .start "UPDATE data\n\t\t\t\t\t\tSET\n\t\t\t\t\t\t\tdata = '".toList
    [.word "UPDATE".toList, .word "data".toList, .word "SET".toList, .word "data".toList, .punct '=']
    (.str []) := by decide

/-- For a value without apostrophes the update's text is the update of its row. -/
theorem updateText_lexes (key : StoreKey) {data : Text} (h : '\'' ∉ data) (v : Serializable) :
    Says (updateText key data v) ((updateStmt key data v).tokens schema) := by
  have hd : Runs (.str []) data [] (.str data) := run_str h []
  have close : ∀ w, Runs (.dq w) "\";\n\t\t\t\t\t".toList [.dq w, .punct ';'] .start := fun _ => rfl
  have whereKey : ∀ w, Runs (.dq w) "\"\n\t\t\t\t\t\tWHERE\n\t\t\t\t\t\t\tkey = \"".toList
      [.dq w, .word "WHERE".toList, .word "key".toList, .punct '='] (.dq []) := fun _ => rfl
  have other : Runs (.str data) "'\n\t\t\t\t\t\tWHERE\n\t\t\t\t\t\t\tkey = \"".toList
      [.str data, .word "WHERE".toList, .word "key".toList, .punct '='] (.dq []) := rfl
  cases v with
  | txLogEntry t =>
    have t1 : Runs (.str data) "',\n\t\t\t\t\t\t\tq_tx_id = ".toList
        [.str data, .punct ',', .word "q_tx_id".toList, .punct '='] .start := rfl
    have t2 : ∀ w, Runs (.word w) ",\n\t\t\t\t\t\t\tq_confirmed = ".toList
        [.word w, .punct ',', .word "q_confirmed".toList, .punct '='] .start := fun _ => rfl
    have t3 : ∀ w, Runs (.word w) ",\n\t\t\t\t\t\t\tq_tx_status = \"".toList
        [.word w, .punct ',', .word "q_tx_status".toList, .punct '='] (.dq []) := fun _ => rfl
    exact .inr ((((((((((((runs_update.append hd).append t1).append (runs_digits t.id)).append
      (t2 _)).append (runs_bool t.confirmed)).append (t3 _)).append (runs_txType t.txType)).append
      (whereKey _)).append (runs_key key)).append (close _)).lexAt rfl))
  | outputData o =>
    have t1 : Runs (.str data) "',\n\t\t\t\t\t\t\tq_tx_id = \"".toList
        [.str data, .punct ',', .word "q_tx_id".toList, .punct '='] (.dq []) := rfl
    have t2 : ∀ w, Runs (.dq w) "\",\n\t\t\t\t\t\t\tq_tx_status = \"".toList
        [.dq w, .punct ',', .word "q_tx_status".toList, .punct '='] (.dq []) := fun _ => rfl
    exact .inr ((((((((((runs_update.append hd).append t1).append (runs_entry o.txLogEntry)).append
      (t2 _)).append (runs_status o.status)).append (whereKey _)).append (runs_key key)).append
      (close _)).lexAt rfl))
  | _ =>
    exact .inr ((((((runs_update.append hd).append other).append (runs_key key)).append
      (close _)).lexAt rfl))

def getQuery (key : StoreKey) : Query :=
  ⟨some "data".toList, "key".toList, .dq (keyText key), some "1".toList⟩

def existsQuery (key : StoreKey) : Query :=
  ⟨none, "key".toList, .dq (keyText key), some "1".toList⟩

def iterQuery (frm : Char) : Query := ⟨some "data".toList, "prefix".toList, .dq [frm], none⟩

theorem getText_lexes (key : StoreKey) : Says (getText key) ((getQuery key).tokens schema) := by
  have h1 : Runs .start
      "\n\t\t\tSELECT\n\t\t\t\tdata\n\t\t\tFROM\n\t\t\t\tdata\n\t\t\tWHERE\n\t\t\t\tkey = \"".toList
      [.word "SELECT".toList, .word "data".toList, .word "FROM".toList, .word "data".toList,
        .word "WHERE".toList, .word "key".toList, .punct '='] (.dq []) := by decide
  have h2 : ∀ w, Runs (.dq w) "\"\n\t\t\tLIMIT 1;\n\t\t\t".toList
      [.dq w, .word "LIMIT".toList, .word "1".toList, .punct ';'] .start := fun _ => rfl
  exact .inr (((h1.append (runs_key key)).append (h2 _)).lexAt rfl)

theorem existsText_lexes (key : StoreKey) :
    Says (existsText key) ((existsQuery key).tokens schema) := by
  have h1 : Runs .start
      "\n\t\t\tSELECT\n\t\t\t\t*\n\t\t\tFROM\n\t\t\t\tdata\n\t\t\tWHERE\n\t\t\t\tkey = \"".toList
      [.word "SELECT".toList, .punct '*', .word "FROM".toList, .word "data".toList,
        .word "WHERE".toList, .word "key".toList, .punct '='] (.dq []) := by decide
  have h2 : ∀ w, Runs (.dq w) "\"\n\t\t\tLIMIT 1;\n\t\t\t".toList
      [.dq w, .word "LIMIT".toList, .word "1".toList, .punct ';'] .start := fun _ => rfl
  exact .inr (((h1.append (runs_key key)).append (h2 _)).lexAt rfl)

theorem iterText_lexes {frm : Char} (h : frm ≠ '"') :
    Says (iterText frm) ((iterQuery frm).tokens schema) := by
  have h1 : Runs .start
      "\n\t\t\tSELECT\n\t\t\t\tdata\n\t\t\tFROM\n\t\t\t\tdata\n\t\t\tWHERE\n\t\t\t\tprefix = \"".toList
      [.word "SELECT".toList, .word "data".toList, .word "FROM".toList, .word "data".toList,
        .word "WHERE".toList, .word "prefix".toList, .punct '='] (.dq []) := by decide
  have h2 : ∀ w, Runs (.dq w) "\";\n\t\t\t".toList [.dq w, .punct ';'] .start := fun _ => rfl
  exact .inr (((h1.append (run_dq (by simpa using h.symm) [])).append (h2 _)).lexAt rfl)

theorem deleteText_lexes (key : StoreKey) :
    Says (deleteText key) ((Stmt.delete (.dq (keyText key))).tokens schema) := by
  have h1 : Runs .start "\n\t\tDELETE\n\t\tFROM\n\t\t\tdata\n\t\tWHERE\n\t\t\tkey = \"".toList
      [.word "DELETE".toList, .word "FROM".toList, .word "data".toList,
        .word "WHERE".toList, .word "key".toList, .punct '='] (.dq []) := by decide
  have h2 : ∀ w, Runs (.dq w) "\"\n\t\t".toList [.dq w] .start := fun _ => rfl
  exact .inl (((h1.append (runs_key key)).append (h2 _)).lexAt rfl)

/-! ## What the operations do

On a database that executes the statements the texts say. -/

section
variable {C : Codecs} {E : Engine schema} (hE : E.Conforms)
include hE

theorem prepare_of_lexes {query : Text} {q : Query} (h : Says query (q.tokens schema))
    (s : E.State) : prepare E query s = (.ok (q.rows (E.table s)), s) := by
  simp [prepare, Prog.bind_apply, Prog.orPanic, hE.query_ok s query q h]

theorem get_eq (key : StoreKey) (s : E.State) :
    get C E key s = match (E.table s).get (keyText key) with
      | none => (.ok none, s)
      | some row => (some <$> readData C E row) s := by
  rw [get, Prog.bind_of_ok (prepare_of_lexes hE (getText_lexes key) s),
    rows_unique rfl (by rintro _ ⟨⟩; decide)]
  show (match ((E.table s).get (keyText key)).toList.head? with
    | some row => some <$> readData C E row
    | none => pure none) s = _
  cases (E.table s).get (keyText key) <;> rfl

theorem exists_eq (key : StoreKey) (s : E.State) :
    exists' E key s = (.ok ((E.table s).get (keyText key)).isSome, s) := by
  rw [exists', Prog.bind_of_ok (prepare_of_lexes hE (existsText_lexes key) s),
    rows_unique rfl (by rintro _ ⟨⟩; decide)]
  show (Except.ok ((E.table s).get (keyText key)).toList.head?.isSome, s) = _
  cases (E.table s).get (keyText key) <;> rfl

theorem execute_of_lexes {text : Text} {st : Stmt} {s : E.State} {t : Table schema}
    (h : Says text (st.tokens schema)) (hw : st.WellFormed schema)
    (he : st.effect (E.table s) = some t) :
    ∃ s', execute E text s = (.ok (), s') ∧ E.table s' = t := by
  obtain ⟨s', hx, ht⟩ := hE.exec_ok s text st t h hw he
  exact ⟨s', by simp only [execute, sqliteMaxRetries, executeLoop, hx], ht⟩

omit hE in
theorem insertStmt_wellFormed (key : StoreKey) (data : Text) (v : Serializable) :
    (insertStmt key data v).WellFormed schema := by
  have hc : (insertCols v).Nodup ∧ schema.unique ∈ insertCols v := by
    have : insertCols v = ["key".toList, "data".toList, "prefix".toList, "q_tx_id".toList,
          "q_confirmed".toList, "q_tx_status".toList] ∨
        insertCols v = ["key".toList, "data".toList, "prefix".toList, "q_tx_id".toList,
          "q_tx_status".toList] ∨
        insertCols v = ["key".toList, "data".toList, "prefix".toList] := by
      rcases v with _ | _ | _ | _ | _ | _ | _ <;> simp [insertCols]
    rcases this with h | h | h <;> rw [h] <;> decide
  exact ⟨by rcases v with _ | _ | _ | _ | _ | _ | _ <;> rfl, hc⟩

omit hE in
theorem updateStmt_wellFormed (key : StoreKey) (data : Text) (v : Serializable) :
    (updateStmt key data v).WellFormed schema := by
  have : (("data".toList, Lit.str data) :: updateSets v).map Prod.fst =
        ["data".toList, "q_tx_id".toList, "q_confirmed".toList, "q_tx_status".toList] ∨
      (("data".toList, Lit.str data) :: updateSets v).map Prod.fst =
        ["data".toList, "q_tx_id".toList, "q_tx_status".toList] ∨
      (("data".toList, Lit.str data) :: updateSets v).map Prod.fst = ["data".toList] := by
    rcases v with _ | _ | _ | _ | _ | _ | _ <;> simp [updateSets]
  refine ⟨by simp, ?_⟩
  rcases this with h | h | h <;> rw [h] <;> decide

/-- The row an insertion writes. -/
def insertRow (key : StoreKey) (data : Text) (v : Serializable) : Row :=
  (insertCols v).zip ((.dq (keyText key) :: .str data :: insertVals key v).map Lit.value)

omit hE in
theorem insertRow_lookup (key : StoreKey) (data : Text) (v : Serializable) :
    (insertRow key data v).lookup "key".toList = some (keyText key) ∧
      (insertRow key data v).lookup "data".toList = some data ∧
      (insertRow key data v).lookup "prefix".toList = some [key.head] := by
  rcases v with _ | _ | _ | _ | _ | _ | _ <;> exact ⟨rfl, rfl, rfl⟩

omit hE in
theorem updateRow_lookup (row : Row) (data : Text) (v : Serializable) :
    (row.setAll (("data".toList, .str data) :: updateSets v)).lookup "data".toList = some data ∧
      (row.setAll (("data".toList, .str data) :: updateSets v)).lookup "prefix".toList =
        row.lookup "prefix".toList := by
  have hd : "data".toList ∉ (updateSets v).map Prod.fst := by
    have : (updateSets v).map Prod.fst ⊆
        ["q_tx_id".toList, "q_confirmed".toList, "q_tx_status".toList] := by
      rcases v with _ | _ | _ | _ | _ | _ | _ <;> simp [updateSets]
    exact fun h => absurd (this h) (by decide)
  have hp : "prefix".toList ∉ (("data".toList, Lit.str data) :: updateSets v).map Prod.fst := by
    have : (("data".toList, Lit.str data) :: updateSets v).map Prod.fst ⊆
        ["data".toList, "q_tx_id".toList, "q_confirmed".toList, "q_tx_status".toList] := by
      rcases v with _ | _ | _ | _ | _ | _ | _ <;> simp [updateSets]
    exact fun h => absurd (this h) (by decide)
  refine ⟨?_, Row.lookup_setAll hp⟩
  rw [Row.setAll, List.foldl_cons, ← Row.setAll, Row.lookup_setAll hd, Row.lookup_set, if_pos rfl]
  rfl

/-- Storing a value without apostrophes: it succeeds, and the rows are those before with the value's
text at the key. -/
theorem put_of_plain (key : StoreKey) {v : Serializable} (hv : v.Plain) (s : E.State) :
    ∃ s' row, put C E key v s = (.ok (), s') ∧
      (E.table s').rows = (E.table s).rows.put (keyText key) row ∧
      row.lookup "data".toList = some (serialize C v) ∧
      row.lookup "prefix".toList = match (E.table s).get (keyText key) with
        | none => some [key.head]
        | some old => old.lookup "prefix".toList := by
  have ht : '\'' ∉ serialize C v := (plainChars_serialize C v).2 hv
  unfold put
  rw [Prog.bind_of_ok (exists_eq hE key s)]
  rcases hg : (E.table s).get (keyText key) with _ | row
  · obtain ⟨hk, hd, hp⟩ := insertRow_lookup key (serialize C v) v
    obtain ⟨t, he, hr⟩ := effect_insert_of hk hg
    obtain ⟨s', hx, rfl⟩ := execute_of_lexes hE (insertText_lexes key ht v)
      (insertStmt_wellFormed key _ v) he
    exact ⟨s', _, by simp [Prog.orPanic, hx], hr, hd, hp⟩
  · obtain ⟨hd, hp⟩ := updateRow_lookup row (serialize C v) v
    have hw := updateStmt_wellFormed key (serialize C v) v
    have hg' : (E.table s).get (Lit.dq (keyText key)).value = some row := hg
    obtain ⟨t, he, hr⟩ := effect_update_of hw.2.2 hg'
    obtain ⟨s', hx, rfl⟩ := execute_of_lexes hE (updateText_lexes key ht v) hw he
    exact ⟨s', _, by simp [Prog.orPanic, hx], hr, hd, hp⟩

theorem get_congr {key : StoreKey} {s s' : E.State}
    (h : (E.table s').get (keyText key) = (E.table s).get (keyText key)) :
    (get C E key s').1 = (get C E key s).1 := by
  rw [get_eq hE, get_eq hE, h]
  cases hr : (E.table s).get (keyText key) with
  | none => rfl
  | some row =>
    simp only [readData, map_eq_pure_bind, Prog.bind_apply]
    cases (row.lookup "data".toList).bind (deserialize C) <;> rfl

theorem get_of_row {key : StoreKey} {s : E.State} {row : Row} {v : Serializable}
    (h : (E.table s).get (keyText key) = some row)
    (hd : (row.lookup "data".toList).bind (deserialize C) = some v) :
    get C E key s = (.ok (some v), s) := by
  rw [get_eq hE, h]
  simp only [readData, map_eq_pure_bind, Prog.bind_apply, hd, Prog.unwrap_some, Prog.pure_apply]

end

/-! ## Round trip -/

/-- Storing `v` under any key, in any state, succeeds, is read back as `v`, and leaves what every
other key reads. -/
def RoundTrip (C : Codecs) (E : Engine schema) (v : Serializable) : Prop :=
  ∀ (s : E.State) (key : StoreKey), ∃ s', put C E key v s = (.ok (), s') ∧
    get C E key s' = (.ok (some v), s') ∧
    ∀ key' ≠ key, (get C E key' s').1 = (get C E key' s).1

theorem roundTrip_of_plain {C : Codecs} {E : Engine schema} (hE : E.Conforms) {v : Serializable}
    (hv : v.Plain) : RoundTrip C E v := by
  intro s key
  obtain ⟨s', row, hput, hrows, hd, -⟩ := put_of_plain (C := C) hE key hv s
  refine ⟨s', hput, get_of_row hE (?_ : _ = some row) ?_, fun key' hne => get_congr hE ?_⟩
  · rw [Table.get, hrows, Rows.get_put_self]
  · rw [hd, Option.bind_some, deserialize_serialize]
  · rw [Table.get, hrows, Rows.get_put_ne _ _ fun h => hne (keyText_injective h)]
    rfl

/-! ## A value with an apostrophe

On an empty table `put` inserts. Reading the insertion's text as a statement forces every apostrophe
of the value to be one of a pair, and a pair is stored as one apostrophe. -/

theorem undouble_escape (l : List Char) : undouble (Json.escape l) = Json.escape (undouble l) := by
  have hcons : ∀ c r, Json.escape (c :: r) = Json.escapeChar c ++ Json.escape r := fun _ _ => rfl
  fun_induction undouble l with
  | case1 r ih => rw [hcons, hcons, hcons, Json.escapeChar_apostrophe, ← ih]; rfl
  | case2 c r hc ih =>
    rw [hcons, hcons, ← ih]
    by_cases hq : c = '\''
    · subst hq
      rw [Json.escapeChar_apostrophe]
      refine undouble_single ?_
      cases r with
      | nil => simp [Json.escape]
      | cons d r =>
        have hd : d ≠ '\'' := fun h => hc r rfl (by rw [h])
        rw [hcons]
        intro h
        have hp := Json.plainChars_escapeChar hd
        cases he : Json.escapeChar d with
        | nil => exact absurd he (by unfold Json.escapeChar; split_ifs <;> simp)
        | cons e w =>
          rw [he] at h hp
          exact hp (by simp_all)
    · exact undouble_append_plain (Json.plainChars_escapeChar hq) _
  | case3 => rfl

/-- Reading pairs of apostrophes as one is a change of apostrophes. -/
def undoubleMap : Json.TextMap where
  map := undouble
  nil := rfl
  split x _ y hc := undouble_split hc x y
  escape := undouble_escape

theorem insertHead_eq (key : StoreKey) (v : Serializable) : insertHead key v =
    [Token.word "INSERT".toList, Token.word "INTO".toList, Token.word "data".toList, Token.punct '('] ++
      (commas ((insertCols v).map fun c => [Token.word c]) ++ Token.punct ')' ::
        [Token.word "VALUES".toList, Token.punct '(', Token.dq (keyText key), Token.punct ',']) := by
  rw [insertHead, List.append_assoc]

theorem insertTail_length (key : StoreKey) (v : Serializable) :
    (insertTail key v).length + 3 = 2 * (insertCols v).length + (semicolon v).length := by
  rcases v with _ | _ | _ | _ | _ | _ | _ <;> rfl

/-- Reading an insertion's tokens with `mid` before its value: since the number of values is fixed
by the columns, nothing may stand there. -/
theorem mid_eq_nil {key : StoreKey} {v : Serializable} {mid : List Token} {s : Text} {st : Stmt}
    {r : List Token}
    (hr : readStmt schema (insertHead key v ++ (mid ++ .str s :: insertTail key v)) = some (st, r))
    (hs : r = [] ∨ r = [.punct ';']) (hw : st.WellFormed schema) : mid = [] := by
  have hc : insertCols v ≠ [] := by rcases v with _ | _ | _ | _ | _ | _ | _ <;> simp [insertCols]
  rw [insertHead_eq, List.append_assoc, List.append_assoc] at hr
  simp only [List.cons_append, List.nil_append] at hr
  rw [readStmt, if_pos ⟨rfl, rfl, rfl⟩,
    readList_commas (f := Token.name) (g := Token.word) (fun _ => rfl) hc] at hr
  simp only [Option.bind_some, if_true] at hr
  obtain ⟨⟨vals, r'⟩, hv, he⟩ := Option.map_eq_some_iff.1 hr
  obtain ⟨rfl, rfl⟩ := Prod.mk.inj he
  obtain ⟨pre, hpre, hlen⟩ := eq_of_readList hv
  have hl := congrArg List.length hpre
  have ht := insertTail_length key v
  have hvl : (insertCols v).length = vals.length := hw.1
  simp only [List.length_cons, List.length_append] at hl
  have hcount : mid.length + (semicolon v).length = r'.length := by
    omega
  rcases hs with rfl | rfl
  · rw [List.length_nil] at hcount
    exact List.length_eq_zero_iff.1 (by omega)
  · cases hsemi : semicolon v with
    | cons a l =>
      rw [hsemi] at hcount
      simp only [List.length_cons, List.length_nil] at hcount
      exact List.length_eq_zero_iff.1 (by omega)
    | nil =>
      -- without a semicolon of its own the text ends with a bracket
      cases v with
      | outputData o =>
        have := congrArg List.getLast? hpre
        simp [insertTail, insertVals, commas, semicolon, List.getLast?_cons, List.getLast?_append]
          at this
      | _ => cases hsemi

/-- A text `put` builds is accepted only if it inserts the value with its pairs of apostrophes read
as one, and each apostrophe is one of a pair. -/
theorem insertText_read {key : StoreKey} {v : Serializable} {data : Text} {ts : List Token}
    {st : Stmt} {r : List Token} (hl : lex (insertText key data v) = some ts)
    (hr : readStmt schema ts = some (st, r)) (hs : r = [] ∨ r = [.punct ';'])
    (hw : st.WellFormed schema) :
    st = insertStmt key (undouble data) v ∧
      ('\'' ∈ data → (undouble data).length < data.length) := by
  obtain ⟨head, tail, p⟩ := insertText_parts key v
  -- the value must leave the lexer inside the literal
  rw [p.text, lex, p.head_runs.lexAt_append, lexAt_append, Option.map_map] at hl
  obtain ⟨us, hu, rfl⟩ := Option.map_eq_some_iff.1 hl
  obtain ⟨s, hst⟩ := lexAt_tail_some p.no_apostrophe p.balanced hu
  have hus : us = .str s :: insertTail key v := by
    rw [hst] at hu
    change lexAt _ ('\'' :: tail) = _ at hu
    rw [lexAt_cons] at hu
    change Option.map _ (lexAt (.strQ s) tail) = _ at hu
    rw [p.tail_lex] at hu
    exact (Option.some.inj hu).symm
  subst hus
  have hmid := mid_eq_nil hr hs hw
  have hrun : run (.str []) data = ([], .str s) := Prod.ext hmid hst
  obtain ⟨hsd, hlen⟩ := undouble_of_run hrun
  rw [List.nil_append] at hsd
  subst hsd
  refine ⟨?_, hlen⟩
  simp only [Function.comp_apply, hmid, List.nil_append, ← insertStmt_tokens] at hr
  rw [readStmt_tokens (insertStmt_wellFormed key _ v)] at hr
  exact (Prod.mk.inj (Option.some.inj hr)).1.symm

theorem exec_of_execute {E : Engine schema} {text : Text} {s s' : E.State}
    (h : execute E text s = (.ok (), s')) : E.exec s text = .ok s' := by
  have loop : ∀ left, executeLoop E text left s = (.ok (), s') → E.exec s text = .ok s' := by
    intro left
    induction left with
    | zero =>
      intro h
      simp only [executeLoop] at h
      split at h <;> simp_all
    | succ left ih =>
      intro h
      simp only [executeLoop] at h
      split at h
      · simp_all
      · split at h
        · exact ih h
        · simp at h
  exact loop _ h

/-- Under a key that is not there `put` executes the insertion's text. -/
theorem exec_of_put {C : Codecs} {E : Engine schema} (hE : E.Conforms) {key : StoreKey}
    {v : Serializable} {s s' : E.State} (hn : (E.table s).get (keyText key) = none)
    (h : put C E key v s = (.ok (), s')) :
    E.exec s (insertText key (serialize C v) v) = .ok s' := by
  unfold put at h
  rw [Prog.bind_of_ok (exists_eq hE key s), hn] at h
  change Prog.orPanic (execute E (insertText key (serialize C v) v)) s = (.ok (), s') at h
  unfold Prog.orPanic at h
  split at h
  · rename_i hx
    cases h
    exact exec_of_execute hx
  · cases h

/-- A value that every database executing statements in the standard way stores and reads back,
already from the empty table, carries no apostrophe. -/
theorem plain_of_roundTrip {C : Codecs} {v : Serializable}
    (h : RoundTrip C (fragment schema) v) : v.Plain := by
  rw [← plainChars_serialize C]
  intro hq
  let key : StoreKey := ⟨'a', by decide, []⟩
  let s : (fragment schema).State := Table.empty
  obtain ⟨s', hput, hget, -⟩ := h s key
  obtain ⟨ts, st, r, hl, hr, hs, hw, he⟩ :=
    fragment_exec_ok (exec_of_put (fragment_conforms schema) rfl hput)
  obtain ⟨rfl, hlen⟩ := insertText_read hl hr hs hw
  obtain ⟨k, hk, -, hrows⟩ := effect_insert he
  obtain ⟨hk', hd, -⟩ := insertRow_lookup key (undouble (serialize C v)) v
  obtain rfl : k = keyText key := Option.some.inj (hk.symm.trans hk')
  -- what is read back is the value with its apostrophes changed
  have hrow : ((fragment schema).table s').get (keyText key) =
      some (insertRow key (undouble (serialize C v)) v) := by
    rw [Table.get, show ((fragment schema).table s').rows = _ from hrows, Rows.get_put_self]
    rfl
  have hun : undouble (serialize C v) = serialize C (v.mapStrings undoubleMap) :=
    map_serialize C undoubleMap v
  have hread := get_of_row (C := C) (fragment_conforms schema) hrow
    (by rw [hd, Option.bind_some, hun, deserialize_serialize])
  have hv : v.mapStrings undoubleMap = v := by
    rw [hget] at hread
    simpa using hread.symm
  have := hlen hq
  rw [hun, hv] at this
  omega

/-- Values of the libraries written as numbers. -/
def numCodec {α : Type} (raw : α → Nat) (mk : Nat → α) (h : ∀ a, mk (raw a) = a) : Codec α where
  enc a := .num (raw a)
  dec j := (readNat j).map mk
  dec_enc a := by simp [h]
  enc_ne_null _ := by simp
  plain _ := plain_num _

def dateTimeRaw (t : DateTime) : Json := .arr [.num t.nanos.toNat, .num (-t.nanos).toNat]

def dateTimeOfRaw : Json → Option DateTime
  | .arr [.num n, .num m] => some ⟨Int.subNatNat n m⟩
  | _ => none

theorem identifierRaw_ne_null (i : Identifier) : identifierRaw i ≠ .null := fun h => by cases h

theorem dateTimeRaw_ne_null (t : DateTime) : dateTimeRaw t ≠ .null := fun h => by cases h

theorem identifierRaw_plain (i : Identifier) : (identifierRaw i).Plain := by
  simp [identifierRaw, plain_arr, plain_num]

theorem dateTimeOfRaw_raw (t : DateTime) : dateTimeOfRaw (dateTimeRaw t) = some t := by
  have h : Int.subNatNat t.nanos.toNat (-t.nanos).toNat = t.nanos := by
    rw [Int.subNatNat_eq_coe]
    omega
  exact congrArg (fun k => some (DateTime.mk k)) h

theorem dateTimeRaw_plain (t : DateTime) : (dateTimeRaw t).Plain := by
  simp [dateTimeRaw, plain_arr, plain_num]

def rawCodecs : Codecs where
  identifier := ⟨identifierRaw, identifierOfRaw, identifierOfRaw_raw, identifierRaw_ne_null,
    identifierRaw_plain⟩
  uuid := numCodec Uuid.raw .mk fun _ => rfl
  dateTime := ⟨dateTimeRaw, dateTimeOfRaw, dateTimeOfRaw_raw, dateTimeRaw_ne_null,
    dateTimeRaw_plain⟩
  secretKey := numCodec SecretKey.raw .mk fun _ => rfl
  publicKey := numCodec PublicKey.raw .mk fun _ => rfl
  signature := numCodec Signature.raw .mk fun _ => rfl
  commitment := numCodec Commitment.raw .mk fun _ => rfl
  dalekPublicKey := numCodec DalekPublicKey.raw .mk fun _ => rfl
  dalekSignature := numCodec DalekSignature.raw .mk fun _ => rfl

/-- An account path as `set_acct_path` stores it. -/
def bobsAccount : Serializable := .acctPathMapping ⟨"Bob's", ⟨2, 1, 0, 0, 0⟩⟩

end EpicWallet.Db
