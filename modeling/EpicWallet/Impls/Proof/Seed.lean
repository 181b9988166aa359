import EpicWallet.Impls.Proof.SeedWorld

/-!
# The seed file through its operations

When a wallet keeps or gets the seed its file should hold. `writeSeed` ends with the file holding the
seed (`Written`) or with no readable file (`Unreadable`), according to `Writable`; from this follows what
creating a wallet leaves.

* `createWallet_seed_iff`: a wallet is created without its seed unless the seed file could be made.
-/

namespace EpicWallet

open Lib

/-- A seed file at the seed path decrypts under the password to the seed. -/
def Opens (W : SeedWorld) (d : Home) (password : String) (seed : WalletSeed) : Prop :=
  ∃ text e, d.files.get seedFile = some text ∧ W.fromStr text = some e ∧
    e.decrypt W password = .ok seed

theorem Opens.of_files {W : SeedWorld} {d d' : Home} {password : String} {seed : WalletSeed}
    (h : Opens W d password seed) (hfiles : d'.files = d.files) : Opens W d' password seed := by
  obtain ⟨text, e, hg, hr, hd⟩ := h
  exact ⟨text, e, by rw [hfiles, hg], hr, hd⟩

/-- There is no seed file that can be read. -/
def Unreadable (W : SeedWorld) (d : Home) : Prop :=
  ∀ text, d.files.get seedFile = some text → W.fromStr text = none

theorem Unreadable.not_opens {W : SeedWorld} {d : Home} {password : String} {seed : WalletSeed}
    (h : Unreadable W d) : ¬Opens W d password seed := by
  rintro ⟨text, e, hg, hr, -⟩
  rw [h text hg] at hr
  cases hr

variable {W : SeedWorld}

theorem Unreadable.of_none {d : Home} (h : d.files.get seedFile = none) : Unreadable W d :=
  fun text hg => by
    rw [h] at hg
    cases hg

theorem seedFileExists_of_some {d : Home} {text : String} (h : d.files.get seedFile = some text) :
    WalletSeed.seedFileExists d = (.ok true, d) := by
  show (Except.ok (d.files.get seedFile).isSome, _) = _
  rw [h]
  rfl

theorem seedFileExists_of_none {d : Home} (h : d.files.get seedFile = none) :
    WalletSeed.seedFileExists d = (.ok false, d) := by
  show (Except.ok (d.files.get seedFile).isSome, _) = _
  rw [h]
  rfl

theorem fromMnemonic_of_some {phrase : String} {s : List UInt8} (h : W.toEntropy phrase = some s)
    (d : Home) : WalletSeed.fromMnemonic W phrase d = (.ok ⟨s⟩, d) := by
  unfold WalletSeed.fromMnemonic
  rw [h]
  rfl

theorem fromMnemonic_of_none {phrase : String} (h : W.toEntropy phrase = none) (d : Home) :
    WalletSeed.fromMnemonic W phrase d = (.error (.err .mnemonic), d) := by
  unfold WalletSeed.fromMnemonic
  rw [h]
  rfl

/-! ## Encrypting -/

/-- The encrypted seed, with the salt and nonce drawn at operation `n`. -/
def sealedSeed (W : SeedWorld) (n : Nat) (seed : WalletSeed) (password : String) :
    Option EncryptedWalletSeed :=
  (W.sealInPlace (W.derive (W.salt n) password) (W.nonce n) seed.bytes).map fun c =>
    ⟨W.toHex c, W.toHex (W.salt n), W.toHex (W.nonce n)⟩

theorem fromSeed_apply (seed : WalletSeed) (password : String) (d : Home) :
    EncryptedWalletSeed.fromSeed W seed password d =
      match sealedSeed W d.ops seed password with
      | some e => (.ok e, d)
      | none => (.error (.err .encryption), d) := by
  unfold EncryptedWalletSeed.fromSeed sealedSeed
  rw [Prog.bind_of_ok Disk.count_apply]
  rcases W.sealInPlace (W.derive (W.salt d.ops) password) (W.nonce d.ops) seed.bytes with _ | c
  · rfl
  · rfl

theorem decrypt_sealedSeed_eq (hW : W.Obeys) {n : Nat} {seed : WalletSeed} {password : String}
    {e : EncryptedWalletSeed} (h : sealedSeed W n seed password = some e) (password' : String) :
    ∃ c, W.sealInPlace (W.derive (W.salt n) password) (W.nonce n) seed.bytes = some c ∧
      e.decrypt W password' = match W.openInPlace (W.derive (W.salt n) password') (W.nonce n) c with
        | some m => .ok ⟨m.take (m.length - tagLen)⟩
        | none => .error (.err .encryption) := by
  obtain ⟨c, hc, rfl⟩ := Option.map_eq_some_iff.1 h
  refine ⟨c, hc, ?_⟩
  have hlen := hW.nonce n
  unfold EncryptedWalletSeed.decrypt
  simp only [hW.hex]
  rw [if_neg (by omega), List.take_of_length_le (by omega)]
  rcases W.openInPlace (W.derive (W.salt n) password') (W.nonce n) c with _ | m
  · rfl
  · rfl

theorem decrypt_sealedSeed (hW : W.Obeys) {n : Nat} {seed : WalletSeed} {password : String}
    {e : EncryptedWalletSeed} (h : sealedSeed W n seed password = some e) :
    e.decrypt W password = .ok seed := by
  obtain ⟨c, hc, heq⟩ := decrypt_sealedSeed_eq hW h password
  obtain ⟨tag, htag, hopen⟩ := hW.opens _ _ _ _ hc
  rw [heq, hopen]
  have htake : (seed.bytes ++ tag).take ((seed.bytes ++ tag).length - tagLen) = seed.bytes := by
    rw [List.length_append, htag, Nat.add_sub_cancel, List.take_left]
  show Except.ok (WalletSeed.mk _) = _
  rw [htake]

/-- The password derives the same key, with the salt drawn at operation `n`. -/
def SameKey (W : SeedWorld) (n : Nat) (password' password : String) : Prop :=
  W.derive (W.salt n) password' = W.derive (W.salt n) password

theorem decrypt_sealedSeed_iff (hW : W.Obeys) {n : Nat} {seed : WalletSeed} {password : String}
    {e : EncryptedWalletSeed} (h : sealedSeed W n seed password = some e) (password' : String)
    (seed' : WalletSeed) :
    e.decrypt W password' = .ok seed' ↔ SameKey W n password' password ∧ seed' = seed := by
  obtain ⟨c, hc, heq⟩ := decrypt_sealedSeed_eq hW h password'
  constructor
  · intro hd
    have hkey : SameKey W n password' password := by
      rcases hopen : W.openInPlace (W.derive (W.salt n) password') (W.nonce n) c with _ | m
      · rw [heq, hopen] at hd
        cases hd
      · exact hW.authentic _ _ _ _ _ _ hc hopen
    obtain ⟨c', hc', heq'⟩ := decrypt_sealedSeed_eq hW h password
    obtain rfl := Option.some.inj (hc.symm.trans hc')
    rw [heq, hkey, ← heq', decrypt_sealedSeed hW h] at hd
    exact ⟨hkey, (Except.ok.inj hd).symm⟩
  · rintro ⟨hkey, rfl⟩
    obtain ⟨c', hc', heq'⟩ := decrypt_sealedSeed_eq hW h password
    obtain rfl := Option.some.inj (hc.symm.trans hc')
    rw [heq, hkey, ← heq', decrypt_sealedSeed hW h]

/-! ## Writing the seed file -/

/-- The seed can be encrypted and its file written. -/
def Writable (W : SeedWorld) (seed : WalletSeed) (password : String) (n : Nat) : Prop :=
  (sealedSeed W n seed password).isSome ∧ W.faults.error n = none ∧ W.faults.error (n + 1) = none

/-- The seed file was written, and nothing else. -/
structure Written (W : SeedWorld) (seed : WalletSeed) (password : String) (d d' : Home) : Prop where
  opens : ∀ password' seed', Opens W d' password' seed' ↔
    SameKey W d.ops password' password ∧ seed' = seed
  others : ∀ name, name ≠ seedFile → d'.files.get name = d.files.get name
  here : d'.here = true
  ops : d'.ops = d.ops + 2

theorem writeSeed_runs (hW : W.Obeys) {seed : WalletSeed} {password : String} {d : Home}
    (hhere : d.here = true) (h : Writable W seed password d.ops) :
    ∃ d', WalletSeed.writeSeed W seed password d = (.ok (), d') ∧ Written W seed password d d' := by
  obtain ⟨he, hcreate, hwrite⟩ := h
  obtain ⟨e, he⟩ := Option.isSome_iff_exists.1 he
  have hseal : EncryptedWalletSeed.fromSeed W seed password d = (.ok e, d) := by
    rw [fromSeed_apply, he]
  refine ⟨_, Prog.bind_ok.2 ⟨e, d, hseal, Prog.bind_ok.2 ⟨(), _,
    (Disk.create_eq hhere).trans (Disk.op_runs hcreate), Disk.op_runs hwrite⟩⟩, ?_, ?_, hhere, rfl⟩
  · intro password' seed'
    rw [← decrypt_sealedSeed_iff hW he]
    constructor
    · rintro ⟨text, e', hg, hr, hd⟩
      obtain rfl : W.toStringPretty e = text := by
        rw [Rows.get_put_self] at hg
        exact Option.some.inj hg
      rw [hW.json] at hr
      obtain rfl := Option.some.inj hr
      exact hd
    · intro hd
      exact ⟨_, e, Rows.get_put_self .., hW.json e, hd⟩
  · intro name hne
    show (Rows.put (Rows.put d.files seedFile "") seedFile _).get name = _
    rw [Rows.get_put_ne _ _ hne, Rows.get_put_ne _ _ hne]

/-- A file that was being written when the write failed cannot be read. -/
theorem writeSeed_fails (hW : W.Obeys) {seed : WalletSeed} {password : String} {d : Home}
    (hhere : d.here = true) (hno : d.files.get seedFile = none)
    (h : ¬Writable W seed password d.ops) :
    ∃ e d', WalletSeed.writeSeed W seed password d = (.error (.err e), d') ∧ Unreadable W d' := by
  have hnone : Unreadable W d := .of_none hno
  rcases he : sealedSeed W d.ops seed password with _ | e
  · have hseal : EncryptedWalletSeed.fromSeed W seed password d = (.error (.err .encryption), d) := by
      rw [fromSeed_apply, he]
    exact ⟨_, d, Prog.bind_of_error hseal, hnone⟩
  have hseal : EncryptedWalletSeed.fromSeed W seed password d = (.ok e, d) := by
    rw [fromSeed_apply, he]
  rcases hcreate : W.faults.error d.ops with _ | err
  · rcases hwrite : W.faults.error (d.ops + 1) with _ | err
    · exact absurd ⟨by rw [he]; rfl, hcreate, hwrite⟩ h
    · refine ⟨err, _, Prog.bind_error.2 (.inr ⟨e, d, hseal, Prog.bind_error.2 (.inr ⟨(), _,
        (Disk.create_eq hhere).trans (Disk.op_runs hcreate), Disk.op_fails hwrite⟩)⟩), fun text hg => ?_⟩
      obtain ⟨k, hk, hbeg⟩ := Disk.beginning_of_length (W.faults.kept (d.ops + 1)) (hW.text e)
      obtain rfl : Disk.beginning (W.faults.kept (d.ops + 1)) (W.toStringPretty e) = text := by
        change (Rows.put _ seedFile _).get seedFile = _ at hg
        rw [Rows.get_put_self] at hg
        exact Option.some.inj hg
      rw [hbeg]
      exact hW.truncated e k hk
  · exact ⟨err, _, Prog.bind_error.2 (.inr ⟨e, d, hseal, Prog.bind_error.2 (.inl
      ((Disk.create_eq hhere).trans (Disk.op_fails hcreate)))⟩), hnone⟩

/-! ## A new seed file -/

/-- The seed of a new wallet: that of its phrase, or one drawn at operation `n`. -/
def newSeed (W : SeedWorld) (recoveryPhrase : Option String) (seedLength n : Nat) :
    Option WalletSeed :=
  match recoveryPhrase with
  | some p => (W.toEntropy p).map .mk
  | none => some ⟨W.randomBytes n seedLength⟩

/-- A seed file can be made where there is none. -/
def Seedable (W : SeedWorld) (recoveryPhrase : Option String) (seedLength : Nat) (password : String)
    (n : Nat) : Prop :=
  W.faults.error n = none ∧
    ∃ seed, newSeed W recoveryPhrase seedLength (n + 1) = some seed ∧ Writable W seed password (n + 1)

/-- The directory once it was made. -/
def made (d : Home) : Home := { d with here := true, ops := d.ops + 1 }

/-- Making a seed file where there is none, once the directory is there. -/
theorem initFile_apply {dir : String} {recoveryPhrase : Option String} {seedLength : Nat}
    {password : String} {d : Home} (hno : d.files.get seedFile = none)
    (hdir : W.faults.error d.ops = none) :
    WalletSeed.initFile W dir seedLength recoveryPhrase password d =
      match newSeed W recoveryPhrase seedLength (d.ops + 1) with
      | some seed => (WalletSeed.writeSeed W seed password >>= fun _ => pure seed) (made d)
      | none => (.error (.err .mnemonic), made d) := by
  have hexists : WalletSeed.seedFileExists (made d) = (.ok false, made d) :=
    seedFileExists_of_none hno
  unfold WalletSeed.initFile
  rw [Prog.bind_of_ok (Disk.op_runs hdir : _ = (_, made d)), Prog.bind_of_ok hexists]
  rcases recoveryPhrase with _ | p
  · rfl
  · rcases hp : W.toEntropy p with _ | s
    · have hseed : newSeed W (some p) seedLength (d.ops + 1) = none := by
        show Option.map WalletSeed.mk (W.toEntropy p) = none
        rw [hp]
        rfl
      rw [hseed]
      exact Prog.bind_of_error (fromMnemonic_of_none hp _)
    · have hseed : newSeed W (some p) seedLength (d.ops + 1) = some ⟨s⟩ := by
        show Option.map WalletSeed.mk (W.toEntropy p) = some ⟨s⟩
        rw [hp]
        rfl
      rw [hseed]
      exact Prog.bind_of_ok (fromMnemonic_of_some hp _)

theorem initFile_runs (hW : W.Obeys) {dir : String} {recoveryPhrase : Option String}
    {seedLength : Nat} {password : String} {seed : WalletSeed} {d : Home}
    (hno : d.files.get seedFile = none) (hdir : W.faults.error d.ops = none)
    (hseed : newSeed W recoveryPhrase seedLength (d.ops + 1) = some seed)
    (h : Writable W seed password (d.ops + 1)) :
    ∃ d', WalletSeed.initFile W dir seedLength recoveryPhrase password d = (.ok seed, d') ∧
      Written W seed password (made d) d' := by
  obtain ⟨d', hw, hd'⟩ := writeSeed_runs (d := made d) hW rfl h
  refine ⟨d', ?_, hd'⟩
  rw [initFile_apply hno hdir, hseed]
  exact Prog.bind_of_ok hw

theorem initFile_fails (hW : W.Obeys) {dir : String} {recoveryPhrase : Option String}
    {seedLength : Nat} {password : String} {d : Home} (hno : d.files.get seedFile = none)
    (h : ¬Seedable W recoveryPhrase seedLength password d.ops) :
    ∃ e d', WalletSeed.initFile W dir seedLength recoveryPhrase password d = (.error (.err e), d') ∧
      Unreadable W d' := by
  have hnone : ∀ d' : Home, d'.files = d.files → Unreadable W d' := fun d' hd' =>
    .of_none (by rw [hd', hno])
  rcases hdir : W.faults.error d.ops with _ | e
  · rw [initFile_apply hno hdir]
    rcases hseed : newSeed W recoveryPhrase seedLength (d.ops + 1) with _ | seed
    · exact ⟨_, made d, rfl, hnone _ rfl⟩
    · obtain ⟨e, d', hw, hd'⟩ := writeSeed_fails (d := made d) hW rfl hno
        fun hw => h ⟨hdir, seed, hseed, hw⟩
      exact ⟨e, d', Prog.bind_of_error hw, hd'⟩
  · exact ⟨e, _, Prog.bind_of_error (Disk.op_fails hdir), hnone _ rfl⟩

/-! ## Creating a wallet -/

/-- The seed asked for: the one of the mnemonic, or random bytes of the length. -/
def Requested (W : SeedWorld) (mnemonic : Option String) (mnemonicLength : Nat)
    (seed : WalletSeed) : Prop :=
  match mnemonic with
  | some m => W.toEntropy m = some seed.bytes
  | none => seed.bytes.length = mnemonicLength ∧ ∃ n, seed.bytes = W.randomBytes n mnemonicLength

theorem requested_of_newSeed (hW : W.Obeys) {mnemonic : Option String} {mnemonicLength n : Nat}
    {seed : WalletSeed} (h : newSeed W mnemonic mnemonicLength n = some seed) :
    Requested W mnemonic mnemonicLength seed := by
  rcases mnemonic with _ | m
  · obtain rfl := Option.some.inj h
    exact ⟨hW.random n mnemonicLength, n, rfl⟩
  · obtain ⟨s, hs, rfl⟩ := Option.map_eq_some_iff.1 h
    exact hs

/-- Where there was no seed file there is now the one asked for. -/
def HasItsSeed (W : SeedWorld) (mnemonic : Option String) (mnemonicLength : Nat) (password : String)
    (d d' : Home) : Prop :=
  d.files.get seedFile = none ∧
    ∃ seed, Requested W mnemonic mnemonicLength seed ∧ Opens W d' password seed

/-- The steps after the seed file, which do not touch it. -/
def createBackend (W : SeedWorld) (dir : String) (status : WalletInitStatus) : HomeM Unit := do
  (match ← Prog.attempt (DefaultLCProvider.newBackend W) with
    | .ok () => pure ()
    | .error e => Prog.throw
      (.lifecycle ("Error creating wallet: " ++ W.display e ++ ", Data Dir: " ++ dir)))
  DefaultLCProvider.saveInitStatus W status

theorem createBackend_runs {dir : String} {status : WalletInitStatus} (d : Home)
    (hb : W.newBackend = .ok ()) (hs : W.saveInitStatus = .ok ()) :
    createBackend W dir status d = (.ok (), { d with here := true, rest := some status }) := by
  unfold createBackend DefaultLCProvider.newBackend DefaultLCProvider.saveInitStatus
  rw [hb, hs]
  rfl

theorem createBackend_ok {dir : String} {status : WalletInitStatus} {d d' : Home}
    (h : createBackend W dir status d = (.ok (), d')) :
    W.newBackend = .ok () ∧ W.saveInitStatus = .ok () ∧ d'.files = d.files := by
  obtain ⟨r, d₁, hr, h⟩ := Prog.bind_ok.1 h
  rcases r with e | _
  · cases h
  obtain ⟨_, d₂, hb, hmod⟩ := Prog.bind_ok.1 (Prog.attempt_eq_ok.1 hr)
  obtain ⟨hnew, rfl⟩ := Prog.lift_eq_ok.1 hb
  cases hmod
  obtain ⟨_, d₂, hpure, h⟩ := Prog.bind_ok.1 h
  cases hpure
  obtain ⟨_, d₂, hs, hmod⟩ := Prog.bind_ok.1 h
  obtain ⟨hstatus, rfl⟩ := Prog.lift_eq_ok.1 hs
  cases hmod
  exact ⟨hnew, hstatus, rfl⟩

theorem createWallet_apply {dir : String} {mnemonic : Option String} {mnemonicLength : Nat}
    {password : String} {d d₁ : Home} (hno : d.files.get seedFile = none) {r : Except SeedError WalletSeed}
    (hr : Prog.attempt (WalletSeed.initFile W dir mnemonicLength mnemonic password) d = (.ok r, d₁)) :
    ∃ status, DefaultLCProvider.createWallet W dir mnemonic mnemonicLength password false d =
      createBackend W dir status d₁ := by
  unfold DefaultLCProvider.createWallet
  rw [Prog.bind_of_ok (seedFileExists_of_none hno), if_neg (by simp), Prog.bind_of_ok hr]
  exact ⟨_, rfl⟩

/-- A wallet is created with its seed exactly if the seed file could be made; a wallet whose database
could be made is created also when it could not. -/
theorem createWallet_seed_iff (hW : W.Obeys) (dir : String) (mnemonic : Option String)
    (mnemonicLength : Nat) (password : String) (d : Home) :
    (∀ d', DefaultLCProvider.createWallet W dir mnemonic mnemonicLength password false d =
        (.ok (), d') → HasItsSeed W mnemonic mnemonicLength password d d') ↔
      (d.files.get seedFile).isSome ∨ W.newBackend ≠ .ok () ∨ W.saveInitStatus ≠ .ok () ∨
        Seedable W mnemonic mnemonicLength password d.ops := by
  rcases hno : d.files.get seedFile with _ | text
  · constructor
    · intro h
      by_contra hcon
      simp only [Option.isSome_none, Bool.false_eq_true, false_or, not_or, not_not] at hcon
      obtain ⟨hb, hs, hseed⟩ := hcon
      obtain ⟨e, d₁, hinit, hunread⟩ := @initFile_fails _ hW dir _ _ _ _ hno hseed
      obtain ⟨status, hrun⟩ := createWallet_apply hno (Prog.attempt_of_err hinit)
      obtain ⟨-, seed, -, hopens⟩ := h _ (hrun.trans (createBackend_runs d₁ hb hs))
      exact hunread.not_opens hopens
    · intro hcond d' hrun
      by_cases hseed : Seedable W mnemonic mnemonicLength password d.ops
      · obtain ⟨hdir, seed, hnew, hw⟩ := hseed
        obtain ⟨d₁, hinit, hwritten⟩ := @initFile_runs _ hW dir _ _ _ _ _ hno hdir hnew hw
        obtain ⟨status, heq⟩ := createWallet_apply hno (Prog.attempt_of_ok hinit)
        obtain ⟨-, -, hfiles⟩ := createBackend_ok (heq.symm.trans hrun)
        refine ⟨hno, seed, requested_of_newSeed hW hnew, ?_⟩
        exact ((hwritten.opens password seed).2 ⟨rfl, rfl⟩).of_files hfiles
      · obtain ⟨e, d₁, hinit, -⟩ := @initFile_fails _ hW dir _ _ _ _ hno hseed
        obtain ⟨status, heq⟩ := createWallet_apply hno (Prog.attempt_of_err hinit)
        obtain ⟨hb, hs, -⟩ := createBackend_ok (heq.symm.trans hrun)
        rcases hcond with hcond | hcond | hcond | hcond
        · cases hcond
        · exact absurd hb hcond
        · exact absurd hs hcond
        · exact absurd hcond hseed
  · refine ⟨fun _ => .inl rfl, fun _ d' hrun => ?_⟩
    unfold DefaultLCProvider.createWallet at hrun
    rw [Prog.bind_of_ok (seedFileExists_of_some hno)] at hrun
    cases hrun

/-- An empty data directory. -/
def emptyHome : Home := ⟨true, .empty, none, 0⟩

def noFaults : Faults SeedError := ⟨fun _ => none, fun _ => 0, .io 2⟩

/-- A phrase that is no mnemonic: the wallet is created, and has no seed file. -/
theorem createWallet_without_seed :
    DefaultLCProvider.createWallet (plainWorld noFaults) "wallet_data" (some "abandon") 32 "secret"
        false emptyHome = (.ok (), { emptyHome with rest := some .initNeedsScanning, ops := 1 }) ∧
      ¬HasItsSeed (plainWorld noFaults) (some "abandon") 32 "secret" emptyHome
        { emptyHome with rest := some .initNeedsScanning, ops := 1 } := by
  refine ⟨rfl, ?_⟩
  rintro ⟨-, seed, hseed, -⟩
  cases hseed

theorem plain_seedable :
    Seedable (plainWorld noFaults) (some PlainWorld.phrase) 32 "secret" emptyHome.ops :=
  ⟨rfl, ⟨List.replicate 16 0⟩, rfl, rfl, rfl, rfl⟩

theorem createWallet_seed_iff_plain :
    Seedable (plainWorld noFaults) (some PlainWorld.phrase) 32 "secret" emptyHome.ops ∧
      ∀ d', DefaultLCProvider.createWallet (plainWorld noFaults) "wallet_data" (some PlainWorld.phrase)
        32 "secret" false emptyHome = (.ok (), d') →
        HasItsSeed (plainWorld noFaults) (some PlainWorld.phrase) 32 "secret" emptyHome d' :=
  ⟨plain_seedable, (createWallet_seed_iff (plainWorld_obeys noFaults) "wallet_data" _ _ _ _).2
    (.inr (.inr (.inr plain_seedable)))⟩

end EpicWallet
