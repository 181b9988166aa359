import EpicWallet.Impls.Serialization
import EpicWallet.Libwallet.Owner

/-!
# Commands on the log

`controller/src/command.rs`: `export_tx`, which writes the log entries of the active account to a file, and
`import_tx`, which reads log entries from a file. The format is JSON; a file is the text in it, written
without white space.
-/

namespace EpicWallet

open Lib WalletBackend

namespace Command

variable (W : World)

/-- An entry whose number or slate id some stored entry has, in whatever account. -/
def alreadyPresent (existing : List TxLogEntry) (tx : TxLogEntry) : Bool :=
  existing.any (·.id = tx.id) ||
    (tx.txSlateId.isSome && existing.any (·.txSlateId = tx.txSlateId))

def importTx (mask : Option SecretKey) (importedTxs : List TxLogEntry) : WalletM Unit := do
  walletLock W
  let existing ← txLogIter
  let _ ← batch W mask
  Prog.forEach importedTxs fun tx =>
    if alreadyPresent existing tx then pure () else Batch.saveTxLogEntry tx tx.parentKeyId
  Batch.commit

/-! ## Files -/

/-- The errors of the commands. -/
inductive CommandError where
  | libWallet (e : Error)
  | argumentError (msg : String)
  /-- `ArgumentError` with what the parser says. -/
  | jsonParse
deriving DecidableEq

abbrev CommandM := Prog Wallet CommandError

def lib {α : Type} (p : WalletM α) : CommandM α := Prog.within id (fun w _ => w) .libWallet p

structure ExportTxArgs where
  id : Option Nat
  all : Bool

/-- The updater does not run in a wallet that is opened for one command, so the entries are refreshed. -/
def refreshedTxs (mask : Option SecretKey) (txId : Option Nat) : WalletM (List TxLogEntry) := do
  let _ ← Owner.updateWalletState W mask
  walletLock W
  let parent ← parentKeyId
  let txs ← Updater.retrieveTxs txId none (some parent) false none none none
  pure txs.2.2

/-- The text of the file. -/
def exportTx (C : Codecs) (mask : Option SecretKey) (args : ExportTxArgs) : CommandM (List Char) := do
  let txs ← lib (refreshedTxs W mask args.id)
  let txs ← (if args.all then pure txs
    else match args.id with
      | some id => pure (txs.filter (·.id = id))
      | none => Prog.throw (.argumentError "Must specify --id or --all"))
  if txs = [] then Prog.throw (.argumentError "No transactions found to export")
  else pure (Json.arr (txs.map (TxLogEntry.toJson C))).render

def importFile (C : Codecs) (mask : Option SecretKey) (text : List Char) : CommandM Unit :=
  match (Json.read text).bind (readList (TxLogEntry.fromJson C)) with
  | some txs => lib (importTx W mask txs)
  | none => Prog.throw .jsonParse

end Command

end EpicWallet
