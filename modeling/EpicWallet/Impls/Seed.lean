import EpicWallet.Lib.Files
import EpicWallet.Libwallet.Types

/-!
# The seed file

`impls/src/lifecycle/seed.rs` and the operations of `lifecycle/default.rs` on it. The state is the data
directory of the wallet (`Lib.Disk`); what the directory holds besides the seed files is the status the
backend starts with. The cryptography, the mnemonic and the text format of the libraries are one record,
`SeedWorld`.
-/

namespace EpicWallet

open Lib

/-- The errors of the seed operations. -/
inductive SeedError where
  | io (code : Nat)
  | mnemonic
  | encryption
  | json
  | genericError (msg : String)
  | walletSeedExists (msg : String)
  | walletSeedDoesntExist
  | walletDoesntExist (dir msg : String)
  | lifecycle (msg : String)
deriving DecidableEq

structure WalletSeed where bytes : List UInt8
deriving DecidableEq

structure EncryptedWalletSeed where
  encryptedSeed : String
  salt : String
  nonce : String
deriving DecidableEq

/-- The libraries, the random generator and the faults of the file system. -/
structure SeedWorld where
  faults : Faults SeedError
  -- `mnemonic`
  toEntropy : String → Option (List UInt8)
  fromEntropy : List UInt8 → Option String
  -- `pbkdf2` and `aead`
  derive : List UInt8 → String → List UInt8
  sealInPlace : List UInt8 → List UInt8 → List UInt8 → Option (List UInt8)
  openInPlace : List UInt8 → List UInt8 → List UInt8 → Option (List UInt8)
  -- `util` and `serde_json`
  toHex : List UInt8 → String
  fromHex : String → Option (List UInt8)
  toStringPretty : EncryptedWalletSeed → String
  fromStr : String → Option EncryptedWalletSeed
  -- The random generator
  randomBytes : Nat → Nat → List UInt8
  salt : Nat → List UInt8
  nonce : Nat → List UInt8
  -- `impl Display for Error`
  display : SeedError → String
  -- The database
  newBackend : Except (Fault SeedError) Unit
  saveInitStatus : Except (Fault SeedError) Unit

/-- The data directory. -/
abbrev Home := Disk (Option WalletInitStatus)

abbrev HomeM := Prog Home SeedError

def seedFile : String := "wallet.seed"

/-- The tag of `AES_256_GCM`, in bytes. -/
def tagLen : Nat := 16

variable (W : SeedWorld)

/-! ## The encrypted seed -/

namespace EncryptedWalletSeed

def fromSeed (seed : WalletSeed) (password : String) : HomeM EncryptedWalletSeed := do
  let n ← Disk.count
  let salt := W.salt n
  let nonce := W.nonce n
  let key := W.derive salt password
  match W.sealInPlace key nonce seed.bytes with
  | none => Prog.throw .encryption
  | some encBytes => pure ⟨W.toHex encBytes, W.toHex salt, W.toHex nonce⟩

def decrypt (e : EncryptedWalletSeed) (password : String) : Except (Fault SeedError) WalletSeed :=
  match W.fromHex e.encryptedSeed with
  | none => .error (.err .encryption)
  | some encryptedSeed => match W.fromHex e.salt with
    | none => .error (.err .encryption)
    | some salt => match W.fromHex e.nonce with
      | none => .error (.err .encryption)
      | some nonce =>
        -- `nonce[0..12]`
        if nonce.length < 12 then .error .panic
        else match W.openInPlace (W.derive salt password) (nonce.take 12) encryptedSeed with
          | none => .error (.err .encryption)
          | some opened => .ok ⟨opened.take (opened.length - tagLen)⟩

end EncryptedWalletSeed

/-! ## The seed file -/

namespace WalletSeed

def fromMnemonic (wordList : String) : HomeM WalletSeed :=
  match W.toEntropy wordList with
  | some s => pure ⟨s⟩
  | none => Prog.throw .mnemonic

def toMnemonic (seed : WalletSeed) : HomeM String :=
  match W.fromEntropy seed.bytes with
  | some s => pure s
  | none => Prog.throw .mnemonic

def initNew (seedLength : Nat) : HomeM WalletSeed := do
  let n ← Disk.count
  pure ⟨W.randomBytes n seedLength⟩

def seedFileExists : HomeM Bool := Disk.pathExists seedFile

/-- The names a backup may get, in the order they are tried. -/
def backupName : Nat → String
  | 0 => seedFile ++ ".bak"
  | i + 1 => seedFile ++ ".bak." ++ toString (i + 1)

/-- The first name that is free, of those from `i` on; the number is the rounds left. -/
def freeName (files : Rows String String) : Nat → Nat → String
  | 0, i => backupName i
  | rounds + 1, i =>
    if (files.get (backupName i)).isSome then freeName files rounds (i + 1) else backupName i

def backupSeed : HomeM String := do
  let d ← Prog.get
  let backup := freeName d.files d.files.toList.length 0
  match ← Prog.attempt (Disk.rename W.faults seedFile backup) with
  | .ok () => pure backup
  | .error _ => Prog.throw (.genericError "Can't rename wallet seed file")

/-- Writes the encrypted seed to the seed file. -/
def writeSeed (seed : WalletSeed) (password : String) : HomeM Unit := do
  let encSeed ← EncryptedWalletSeed.fromSeed W seed password
  let encSeedJson := W.toStringPretty encSeed
  Disk.create W.faults seedFile
  Disk.writeAll W.faults seedFile encSeedJson

def recoverFromPhrase (dataFileDir wordList password : String) : HomeM Unit := do
  let seedExists ← seedFileExists
  (if seedExists then do
    let _ ← backupSeed W
    pure ()
  else pure ())
  let dirExists ← Disk.dirExists
  if ¬dirExists then Prog.throw (.walletDoesntExist dataFileDir
    "To create a new wallet from a recovery phrase, use 'epic-wallet init -r'")
  else do
    let seed ← fromMnemonic W wordList
    writeSeed W seed password

def initFile (dataFileDir : String) (seedLength : Nat) (recoveryPhrase : Option String)
    (password : String) : HomeM WalletSeed := do
  Disk.createDirAll W.faults
  let seedExists ← seedFileExists
  if seedExists then Prog.throw (.walletSeedExists ("Wallet seed already exists at: " ++ dataFileDir))
  else do
    let seed ← (match recoveryPhrase with
      | some p => fromMnemonic W p
      | none => initNew W seedLength)
    writeSeed W seed password
    pure seed

def fromFile (password : String) : HomeM WalletSeed := do
  Disk.createDirAll W.faults
  let seedExists ← seedFileExists
  if seedExists then do
    Disk.openFile W.faults seedFile
    let buffer ← Disk.readToString W.faults seedFile
    match W.fromStr buffer with
    | none => Prog.throw .json
    | some encSeed => Prog.lift (encSeed.decrypt W password)
  else Prog.throw .walletSeedDoesntExist

def deleteSeedFile : HomeM Unit := do
  let seedExists ← seedFileExists
  if seedExists then Disk.removeFile W.faults seedFile else pure ()

end WalletSeed

/-! ## The wallet's life cycle -/

namespace DefaultLCProvider

/-- `map_err` with one error for all. -/
def orLifecycle {α : Type} (msg : String) (p : HomeM α) : HomeM α := do
  match ← Prog.attempt p with
  | .ok a => pure a
  | .error _ => Prog.throw (.lifecycle msg)

/-- The new backend, with its directory. -/
def newBackend : HomeM Unit := do
  Prog.lift W.newBackend
  Prog.modify fun d => { d with here := true }

/-- The status of the backend, in a batch of its own. -/
def saveInitStatus (status : WalletInitStatus) : HomeM Unit := do
  Prog.lift W.saveInitStatus
  Prog.modify fun d => { d with rest := some status }

def createWallet (dataDirName : String) (mnemonic : Option String) (mnemonicLength : Nat)
    (password : String) (testMode : Bool) : HomeM Unit := do
  let seedExists ← WalletSeed.seedFileExists
  if ¬testMode ∧ seedExists then
    Prog.throw (.walletSeedExists ("Wallet seed already exists at: " ++ dataDirName))
  else do
    let _ ← Prog.attempt (WalletSeed.initFile W dataDirName mnemonicLength mnemonic password)
    (match ← Prog.attempt (newBackend W) with
      | .ok () => pure ()
      | .error e => Prog.throw
        (.lifecycle ("Error creating wallet: " ++ W.display e ++ ", Data Dir: " ++ dataDirName)))
    saveInitStatus W (match mnemonic with
      | some _ => .initNeedsScanning
      | none => .initNoScanning)

def recoverFromMnemonic (dataDirName mnemonic password : String) : HomeM Unit :=
  orLifecycle "Error recovering from mnemonic"
    (WalletSeed.recoverFromPhrase W dataDirName mnemonic password)

def changePassword (dataDirName old new : String) (removeBackup : Bool) : HomeM Unit := do
  let origWalletSeed ← orLifecycle "Error opening wallet seed file" (WalletSeed.fromFile W old)
  let origMnemonic ← orLifecycle "Error recovering mnemonic" (origWalletSeed.toMnemonic W)
  let backupName ← orLifecycle "Error temporarily backing up existing seed" (WalletSeed.backupSeed W)
  orLifecycle "Unable to delete seed file for password change" (WalletSeed.deleteSeedFile W)
  let _ ← Prog.attempt (WalletSeed.initFile W dataDirName 0 (some origMnemonic) new)
  let newWalletSeed ← orLifecycle "Error opening wallet seed file" (WalletSeed.fromFile W new)
  if origWalletSeed ≠ newWalletSeed then Prog.throw (.lifecycle
    "New and Old wallet seeds are not equal on password change, not removing backups.")
  else if removeBackup then Disk.removeFile W.faults backupName
  else pure ()

end DefaultLCProvider

end EpicWallet
