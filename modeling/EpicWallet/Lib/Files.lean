import EpicWallet.Lib.Rows
import EpicWallet.Lib.Total

/-!
# A directory whose operations may fail

`Disk β` is one directory: its files by name, what else it holds, and the number of operations done on
it. The operations are programs, and `Faults` says which of them fail and with what error, so a
statement about every `Faults` is about every way in which the file system can fail. A write that fails
leaves a proper beginning of its text.

Each operation has one lemma that says what it does when it does not fail (`create_runs`, ...), and
`op_fails` says that a failing one does nothing.
-/

namespace EpicWallet.Lib

structure Disk (β : Type) where
  /-- Whether the directory is there. -/
  here : Bool
  files : Rows String String
  /-- What the directory holds besides these files. -/
  rest : β
  /-- The number of operations done. -/
  ops : Nat

/-- Which operations fail, by their number. -/
structure Faults (ε : Type) where
  error : Nat → Option ε
  /-- How much of its text a failing write leaves. -/
  kept : Nat → Nat
  notFound : ε

namespace Disk

variable {β ε : Type} (F : Faults ε)

/-- An operation: it changes the directory by `f`, or fails and leaves it as `g` does. -/
def op (g f : Disk β → Disk β) : Prog (Disk β) ε Unit := fun d =>
  match F.error d.ops with
  | none => (.ok (), { f d with ops := d.ops + 1 })
  | some e => (.error (.err e), { g d with ops := d.ops + 1 })

/-- `Path::exists`. -/
def pathExists (name : String) : Prog (Disk β) ε Bool := do
  let d ← Prog.get
  pure (d.files.get name).isSome

def dirExists : Prog (Disk β) ε Bool := do
  let d ← Prog.get
  pure d.here

/-- The number of the next operation. -/
def count : Prog (Disk β) ε Nat := do
  let d ← Prog.get
  pure d.ops

def createDirAll : Prog (Disk β) ε Unit := op F id fun d => { d with here := true }

/-- `File::create`: a new file, or an old one emptied. -/
def create (name : String) : Prog (Disk β) ε Unit := do
  let d ← Prog.get
  if d.here then op F id fun d => { d with files := d.files.put name "" }
  else Prog.throw F.notFound

/-- The beginning of a text that a failing write leaves. -/
def beginning (n : Nat) (text : String) : String := String.ofList (text.toList.take (n % text.length))

/-- `write_all` on a file just created. -/
def writeAll (name text : String) : Prog (Disk β) ε Unit :=
  op F (fun d => { d with files := d.files.put name (beginning (F.kept d.ops) text) })
    fun d => { d with files := d.files.put name text }

/-- `fs::rename`, which replaces what has the new name. -/
def rename (old new : String) : Prog (Disk β) ε Unit := do
  let d ← Prog.get
  match d.files.get old with
  | some text => op F id fun d => { d with files := (d.files.erase old).put new text }
  | none => Prog.throw F.notFound

def removeFile (name : String) : Prog (Disk β) ε Unit := do
  let d ← Prog.get
  match d.files.get name with
  | some _ => op F id fun d => { d with files := d.files.erase name }
  | none => Prog.throw F.notFound

/-- `File::open`. -/
def openFile (name : String) : Prog (Disk β) ε Unit := do
  let d ← Prog.get
  match d.files.get name with
  | some _ => op F id id
  | none => Prog.throw F.notFound

/-- `read_to_string` on an open file. -/
def readToString (name : String) : Prog (Disk β) ε String := do
  op F id id
  let d ← Prog.get
  pure ((d.files.get name).getD "")

/-! ## What an operation does -/

variable {F} {d : Disk β}

theorem op_runs {g f : Disk β → Disk β} (h : F.error d.ops = none) :
    op F g f d = (.ok (), { f d with ops := d.ops + 1 }) := by
  unfold op
  rw [h]

theorem op_fails {g f : Disk β → Disk β} {e : ε} (h : F.error d.ops = some e) :
    op F g f d = (.error (.err e), { g d with ops := d.ops + 1 }) := by
  unfold op
  rw [h]

@[simp] theorem pathExists_apply (name : String) :
    (pathExists name : Prog (Disk β) ε Bool) d = (.ok (d.files.get name).isSome, d) := rfl

@[simp] theorem dirExists_apply : (dirExists : Prog (Disk β) ε Bool) d = (.ok d.here, d) := rfl

@[simp] theorem count_apply : (count : Prog (Disk β) ε Nat) d = (.ok d.ops, d) := rfl

theorem create_eq {name : String} (h : d.here = true) :
    create F name d = op F id (fun d => { d with files := d.files.put name "" }) d := by
  unfold create
  rw [Prog.bind_of_ok (Prog.get_apply d), if_pos h]

theorem rename_eq {old new text : String} (h : d.files.get old = some text) :
    rename F old new d = op F id (fun d => { d with files := (d.files.erase old).put new text }) d := by
  unfold rename
  rw [Prog.bind_of_ok (Prog.get_apply d), h]

theorem removeFile_eq {name text : String} (h : d.files.get name = some text) :
    removeFile F name d = op F id (fun d => { d with files := d.files.erase name }) d := by
  unfold removeFile
  rw [Prog.bind_of_ok (Prog.get_apply d), h]

theorem openFile_eq {name text : String} (h : d.files.get name = some text) :
    openFile F name d = op F id id d := by
  unfold openFile
  rw [Prog.bind_of_ok (Prog.get_apply d), h]

theorem op_total {P : Disk β → Prop} {Q : Unit → Disk β → Prop} {g f : Disk β → Disk β}
    (h : ∀ d, P d → Q () { f d with ops := d.ops + 1 }) : Prog.Total P (op F g f) Q := by
  intro d hd
  rcases he : F.error d.ops with _ | e
  · rw [op_runs he]
    exact h d hd
  · rw [op_fails he]
    trivial

theorem create_total {P : Disk β → Prop} (name : String) :
    Prog.Total P (create F name) fun _ _ => True := by
  intro d _
  by_cases hh : d.here = true
  · rw [create_eq hh]
    exact op_total (P := fun _ => True) (Q := fun _ _ => True) (fun _ _ => trivial) d trivial
  · unfold create
    rw [Prog.bind_of_ok (Prog.get_apply d), if_neg hh]
    trivial

theorem beginning_of_length (n : Nat) {text : String} (h : text.length ≠ 0) :
    ∃ k < text.length, beginning n text = String.ofList (text.toList.take k) :=
  ⟨n % text.length, Nat.mod_lt _ (Nat.pos_of_ne_zero h), rfl⟩

end Disk

end EpicWallet.Lib
