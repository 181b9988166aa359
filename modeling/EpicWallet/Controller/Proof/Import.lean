import EpicWallet.Libwallet.Proof.Expiry
import EpicWallet.Libwallet.SlateVersions

/-!
# Files of log entries, written and read

`importFiles_restores_iff`: the files `export_tx` writes for some accounts are read into an empty log
without loss exactly if no two accounts have an entry of the same number or of the same slate.

An import is `merge` on the entries there are (`importTx_merges`): what has the number or the slate id of
one of them is left out, whatever its account.
-/

namespace EpicWallet

open Lib WalletBackend

namespace Command

/-! ## Merging -/

/-- The entries after an import. -/
def merge (existing txs : List TxLogEntry) : List TxLogEntry :=
  existing ++ txs.filter fun t => !alreadyPresent existing t

/-- One of them makes the other look present. -/
def Clash (t u : TxLogEntry) : Prop :=
  t.id = u.id ∨ ∃ s, t.txSlateId = some s ∧ u.txSlateId = some s

theorem alreadyPresent_iff {existing : List TxLogEntry} {u : TxLogEntry} :
    alreadyPresent existing u = true ↔ ∃ t ∈ existing, Clash t u := by
  unfold alreadyPresent Clash
  rw [Bool.or_eq_true, Bool.and_eq_true, List.any_eq_true, List.any_eq_true]
  constructor
  · rintro (⟨t, ht, hid⟩ | ⟨hsome, t, ht, hslate⟩)
    · exact ⟨t, ht, .inl (of_decide_eq_true hid)⟩
    · obtain ⟨s, hs⟩ := Option.isSome_iff_exists.1 hsome
      exact ⟨t, ht, .inr ⟨s, (of_decide_eq_true hslate).trans hs, hs⟩⟩
  · rintro ⟨t, ht, hid | ⟨s, hs, hs'⟩⟩
    · exact .inl ⟨t, ht, decide_eq_true hid⟩
    · exact .inr ⟨Option.isSome_of_eq_some hs', t, ht, decide_eq_true (hs.trans hs'.symm)⟩

theorem alreadyPresent_congr {l l' : List TxLogEntry} (h : ∀ t, t ∈ l ↔ t ∈ l') (u : TxLogEntry) :
    alreadyPresent l u = alreadyPresent l' u := by
  rw [Bool.eq_iff_iff, alreadyPresent_iff, alreadyPresent_iff]
  exact exists_congr fun t => and_congr_left fun _ => h t

theorem mem_merge {existing txs : List TxLogEntry} {t : TxLogEntry} :
    t ∈ merge existing txs ↔ t ∈ existing ∨ t ∈ txs ∧ alreadyPresent existing t = false := by
  unfold merge
  rw [List.mem_append, List.mem_filter, Bool.not_eq_true']

theorem mem_foldl_merge {t : TxLogEntry} : ∀ (files : List (List TxLogEntry)) {l : List TxLogEntry},
    t ∈ files.foldl merge l → t ∈ l ∨ ∃ f ∈ files, t ∈ f
  | [], _, h => .inl h
  | f :: files, l, h => by
    rcases mem_foldl_merge files h with h | ⟨g, hg, ht⟩
    · rcases mem_merge.1 h with h | ⟨ht, -⟩
      · exact .inl h
      · exact .inr ⟨f, List.mem_cons_self, ht⟩
    · exact .inr ⟨g, List.mem_cons_of_mem f hg, ht⟩

theorem subset_foldl_merge {t : TxLogEntry} : ∀ (files : List (List TxLogEntry)) {l : List TxLogEntry},
    t ∈ l → t ∈ files.foldl merge l
  | [], _, h => h
  | _ :: files, _, h => subset_foldl_merge files (mem_merge.2 (.inl h))

/-- No entry of one clashes with one of the other. -/
def Apart (l m : List TxLogEntry) : Prop := ∀ t ∈ l, ∀ u ∈ m, ¬Clash t u

/-- Nothing of lists without a common entry is lost exactly if none has a clash with an earlier one. -/
theorem foldl_merge_iff : ∀ {files : List (List TxLogEntry)} {l : List TxLogEntry},
    (∀ f ∈ files, ∀ t ∈ f, t ∉ l) → (files.Pairwise fun f g => ∀ t ∈ f, t ∉ g) →
      ((∀ f ∈ files, ∀ t ∈ f, t ∈ files.foldl merge l) ↔
        (∀ f ∈ files, Apart l f) ∧ files.Pairwise Apart)
  | [], l, _, _ => by simp
  | f :: files, l, hl, hfiles => by
    obtain ⟨hf, hrest⟩ := List.pairwise_cons.1 hfiles
    have hkept : (∀ t ∈ f, t ∈ (f :: files).foldl merge l) ↔ Apart l f := by
      constructor
      · intro h t ht u hu hclash
        rcases mem_foldl_merge files (h u hu) with hmem | ⟨g, hg, hug⟩
        · rcases mem_merge.1 hmem with hmem | ⟨-, habs⟩
          · exact hl f List.mem_cons_self u hu hmem
          · rw [alreadyPresent_iff.2 ⟨t, ht, hclash⟩] at habs
            cases habs
        · exact hf g hg u hu hug
      · intro h u hu
        refine subset_foldl_merge files (mem_merge.2 (.inr ⟨hu, ?_⟩))
        rw [Bool.eq_false_iff, Ne, alreadyPresent_iff]
        rintro ⟨t, ht, hclash⟩
        exact h t ht u hu hclash
    have hmerge (h : Apart l f) {t : TxLogEntry} : t ∈ merge l f ↔ t ∈ l ∨ t ∈ f := by
      rw [mem_merge]
      refine or_congr_right ⟨fun ht => ht.1, fun ht => ⟨ht, ?_⟩⟩
      rw [Bool.eq_false_iff, Ne, alreadyPresent_iff]
      rintro ⟨u, hu, hclash⟩
      exact h u hu t ht hclash
    have hfresh : ∀ g ∈ files, ∀ t ∈ g, t ∉ merge l f := by
      intro g hg t ht hmem
      rcases mem_merge.1 hmem with hmem | ⟨hmem, -⟩
      · exact hl g (List.mem_cons_of_mem f hg) t ht hmem
      · exact hf g hg t hmem ht
    have ih := foldl_merge_iff hfresh hrest
    rw [List.forall_mem_cons, List.forall_mem_cons, List.pairwise_cons, hkept]
    constructor
    · rintro ⟨hlf, hlater⟩
      obtain ⟨hmf, hpairs⟩ := ih.1 hlater
      refine ⟨⟨hlf, fun g hg t ht => hmf g hg t ((hmerge hlf).2 (.inl ht))⟩, ?_, hpairs⟩
      exact fun g hg t ht => hmf g hg t ((hmerge hlf).2 (.inr ht))
    · rintro ⟨⟨hlf, hlg⟩, hfg, hpairs⟩
      refine ⟨hlf, ih.2 ⟨fun g hg t ht => ?_, hpairs⟩⟩
      rcases (hmerge hlf).1 ht with ht | ht
      · exact hlg g hg t ht
      · exact hfg g hg t ht

/-! ## One import -/

section
variable {W : World} {mask : Option SecretKey}

theorem switches_run : ∀ (labels : List String) (w : Wallet), ∃ w',
    Prog.forEach labels (fun label => do
      let _ ← Prog.attempt (setParentKeyIdByName label)) w = (.ok (), w') ∧ SameButAccount w w'
  | [], w => ⟨w, rfl, rfl, rfl, rfl⟩
  | label :: labels, w => by
    obtain ⟨r, w₁, hrun, hsame⟩ : ∃ r w₁,
        Prog.attempt (setParentKeyIdByName label) w = (.ok r, w₁) ∧ SameButAccount w w₁ := by
      have hread : acctPathIter w = (.ok (accountsOf w.db), w) := rfl
      rcases hrun : setParentKeyIdByName label w with ⟨r, w₁⟩
      have hset := hrun
      unfold setParentKeyIdByName at hset
      rw [Prog.bind_of_ok hread] at hset
      rcases hfind : (accountsOf w.db).find? (·.label = label) with _ | a
      · rw [hfind] at hset
        obtain ⟨rfl, rfl⟩ := Prod.mk.inj hset
        exact ⟨_, _, Prog.attempt_of_err hrun, rfl, rfl, rfl⟩
      · rw [hfind] at hset
        obtain ⟨rfl, rfl⟩ := Prod.mk.inj hset
        exact ⟨_, _, Prog.attempt_of_ok hrun, rfl, rfl, rfl⟩
    obtain ⟨w', hrest, hsame'⟩ := switches_run labels w₁
    refine ⟨w', ?_, hsame'.db.trans hsame.db, hsame'.keychain.trans hsame.keychain,
      hsame'.checksum.trans hsame.checksum⟩
    show ((Prog.attempt (setParentKeyIdByName label) >>= fun _ => pure ()) >>= fun _ => _) w = _
    rw [Prog.bind_of_ok ((Prog.bind_of_ok hrun).trans (Prog.pure_apply () w₁))]
    exact hrest

/-- The lock is taken unless the program is stopped. -/
theorem walletLock_runs (hW : ∀ t, W.stops t = false) (w : Wallet) :
    ∃ w', walletLock W w = (.ok (), w') ∧ SameButAccount w w' := by
  obtain ⟨w', hrun, hsame⟩ := switches_run (W.switches w.tick) { w with tick := w.tick + 1 }
  refine ⟨w', ?_, hsame.db, hsame.keychain, hsame.checksum⟩
  show (if W.stops w.tick then Prog.panic else Prog.forEach (W.switches w.tick) _)
    { w with tick := w.tick + 1 } = _
  rw [hW w.tick, if_neg (by decide)]
  exact hrun

/-- The loop of an import: what is not left out is stored, where nothing else is. -/
theorem saveAll_run (existing : List TxLogEntry) : ∀ {l : List TxLogEntry} {w : Wallet},
    LogKeyed w.db → (∀ t ∈ l, (Serializable.txLogEntry t).Plain) →
      (∀ t ∈ l, alreadyPresent existing t = false → ∀ r, entryAt w.db t.parentKeyId t.id = some r → r = t) →
      (∀ t ∈ l, ∀ u ∈ l, t.parentKeyId = u.parentKeyId → t.id = u.id → t = u) →
    ∃ w', Prog.forEach l (fun tx =>
        if alreadyPresent existing tx then pure () else Batch.saveTxLogEntry tx tx.parentKeyId) w =
          (.ok (), w') ∧
      w' = { w with db := w'.db } ∧ LogKeyed w'.db ∧ ∀ t, t ∈ txLogOf w'.db ↔
        t ∈ txLogOf w.db ∨ t ∈ l ∧ alreadyPresent existing t = false
  | [], w, hk, _, _, _ => ⟨w, rfl, rfl, hk, by simp⟩
  | tx :: l, w, hk, hplain, hfree, hdist => by
    obtain ⟨hp, hplain'⟩ := List.forall_mem_cons.1 hplain
    have hdist' : ∀ t ∈ l, ∀ u ∈ l, t.parentKeyId = u.parentKeyId → t.id = u.id → t = u :=
      fun t ht u hu => hdist t (List.mem_cons_of_mem tx ht) u (List.mem_cons_of_mem tx hu)
    by_cases hpresent : alreadyPresent existing tx = true
    · obtain ⟨w', hrun, hsame, hk', hlog⟩ := saveAll_run existing hk hplain'
        (fun t ht => hfree t (List.mem_cons_of_mem tx ht)) hdist'
      refine ⟨w', ?_, hsame, hk', fun t => ?_⟩
      · unfold Prog.forEach
        rw [if_pos hpresent]
        exact hrun
      · rw [hlog, List.mem_cons]
        refine or_congr_right (and_congr_left fun habs => ⟨.inr, fun ht => ht.resolve_left ?_⟩)
        rintro rfl
        rw [hpresent] at habs
        cases habs
    · rw [Bool.not_eq_true] at hpresent
      have hsave : Batch.saveTxLogEntry tx tx.parentKeyId w =
          (.ok (), { w with db := w.db.put (.txLogEntry tx.parentKeyId tx.id) (.txLogEntry tx) }) :=
        put_ok.2 ⟨hp, rfl⟩
      have hkept : LogKeyed (w.db.put (.txLogEntry tx.parentKeyId tx.id) (.txLogEntry tx)) := by
        have := logKeyed_save rfl hk (t := tx)
        rwa [hsave] at this
      have hput (t : TxLogEntry) :
          t ∈ txLogOf (w.db.put (.txLogEntry tx.parentKeyId tx.id) (.txLogEntry tx)) ↔
            t = tx ∨ t ∈ txLogOf w.db := by
        rw [mem_txLogOf_keyed hkept, mem_txLogOf_keyed hk, entryAt_put]
        by_cases hkey : t.parentKeyId = tx.parentKeyId ∧ t.id = tx.id
        · rw [if_pos hkey, Option.some.injEq, hkey.1, hkey.2]
          refine ⟨fun h => .inl h.symm, fun h => ?_⟩
          rcases h with h | h
          · exact h.symm
          · exact (hfree tx List.mem_cons_self hpresent t h).symm
        · rw [if_neg hkey]
          refine ⟨.inr, fun h => h.resolve_left ?_⟩
          rintro rfl
          exact hkey ⟨rfl, rfl⟩
      obtain ⟨w', hrun, hsame, hk', hlog⟩ := saveAll_run existing (l := l)
        (w := { w with db := w.db.put (.txLogEntry tx.parentKeyId tx.id) (.txLogEntry tx) }) hkept hplain'
        (fun t ht habs r hr => by
          rw [entryAt_put] at hr
          split at hr
          · rename_i hkey
            rw [← Option.some.inj hr]
            exact hdist tx List.mem_cons_self t (List.mem_cons_of_mem tx ht) hkey.1.symm hkey.2.symm
          · exact hfree t (List.mem_cons_of_mem tx ht) habs r hr) hdist'
      refine ⟨w', ?_, ?_, hk', fun t => ?_⟩
      · unfold Prog.forEach
        rw [if_neg (by rw [hpresent]; decide), Prog.bind_of_ok hsave]
        exact hrun
      · rw [hsame]
      · rw [hlog, hput, List.mem_cons]
        constructor
        · rintro ((rfl | ht) | ⟨ht, habs⟩)
          · exact .inr ⟨.inl rfl, hpresent⟩
          · exact .inl ht
          · exact .inr ⟨.inr ht, habs⟩
        · rintro (ht | ⟨rfl | ht, habs⟩)
          · exact .inl (.inr ht)
          · exact .inl (.inl rfl)
          · exact .inr ⟨ht, habs⟩

/-- Entries of one account that can be stored, no two under one number. -/
structure Importable (p : Identifier) (txs : List TxLogEntry) : Prop where
  account : ∀ t ∈ txs, t.parentKeyId = p
  plain : ∀ t ∈ txs, (Serializable.txLogEntry t).Plain
  distinct : ∀ t ∈ txs, ∀ u ∈ txs, t.id = u.id → t = u

/-- A wallet that is open, with a log that is stored by account and number. -/
structure Ready (W : World) (mask : Option SecretKey) (w : Wallet) : Prop where
  opened : ∃ k, unmasked W w mask = .ok k
  keyed : LogKeyed w.db

theorem importTx_merges (hW : ∀ t, W.stops t = false) {w : Wallet} (hw : Ready W mask w)
    {p : Identifier} {txs : List TxLogEntry} (htxs : Importable p txs) :
    ∃ w', importTx W mask txs w = (.ok (), w') ∧ Ready W mask w' ∧
      ∀ t, t ∈ txLogOf w'.db ↔ t ∈ merge (txLogOf w.db) txs := by
  obtain ⟨w₁, hlock, hsame⟩ := walletLock_runs hW w
  have hkeyed : LogKeyed w₁.db := hsame.db ▸ hw.keyed
  have hopen {w₂ : Wallet} (hkey : w₂.keychain = w₁.keychain)
      (hsum : w₂.masterChecksum = w₁.masterChecksum) : ∃ k, unmasked W w₂ mask = .ok k := by
    obtain ⟨k, hk⟩ := hw.opened
    exact ⟨k, (unmasked_congr (hkey.trans hsame.keychain) (hsum.trans hsame.checksum)).trans hk⟩
  obtain ⟨k, hk⟩ := hopen rfl rfl
  have hread : txLogIter w₁ = (.ok (txLogOf w.db), w₁) := by
    rw [← hsame.db]
    rfl
  have hbatch : batch W mask w₁ = (.ok ⟨some k⟩, w₁) := (batch_ok W).2 ⟨⟨k, hk, rfl⟩, rfl⟩
  -- an entry under the number would have been noticed
  have hfree : ∀ t ∈ txs, alreadyPresent (txLogOf w.db) t = false →
      ∀ r, entryAt w₁.db t.parentKeyId t.id = some r → r = t := by
    intro t _ habs r hr
    rw [hsame.db] at hr
    have hclash : alreadyPresent (txLogOf w.db) t = true :=
      alreadyPresent_iff.2 ⟨r, mem_txLogOf_iff.2 ⟨_, _, hr⟩, .inl (hw.keyed _ _ _ hr).2⟩
    rw [hclash] at habs
    cases habs
  obtain ⟨w', hrun, heq, hk', hlog⟩ := saveAll_run (txLogOf w.db) hkeyed htxs.plain hfree
    fun t ht u hu _ => htxs.distinct t ht u hu
  refine ⟨w', ?_, ⟨hopen (by rw [heq]) (by rw [heq]), hk'⟩, fun t => ?_⟩
  · unfold importTx
    rw [Prog.bind_of_ok hlock, Prog.bind_of_ok hread, Prog.bind_of_ok hbatch, Prog.bind_of_ok hrun]
    rfl
  · rw [hlog, hsame.db, mem_merge]

end

/-! ## Files -/

/-- A file of `export_tx`: the account that was active, its entries and the text. -/
structure ExportFile where
  account : Identifier
  entries : List TxLogEntry
  text : List Char

/-- Every entry is stored under its account and number and has no apostrophe, as what is stored. -/
structure StoredLog (d : Rows Key Serializable) : Prop where
  keyed : LogKeyed d
  plain : ∀ t ∈ txLogOf d, (Serializable.txLogEntry t).Plain

/-- `export_tx` wrote the file, for all entries of its account. -/
def ExportFile.Written (C : Codecs) (f : ExportFile) : Prop :=
  ∃ W mask w w', exportTx W C mask ⟨none, true⟩ w = (.ok f.text, w') ∧ StoredLog w'.db ∧
    w'.parentKeyId = f.account ∧
      ∀ t, t ∈ f.entries ↔ t ∈ txLogOf w'.db ∧ t.parentKeyId = f.account

/-- The files are read one after the other, and then the log holds their entries, each under its account
and number, and nothing else. -/
def Restores (W : World) (C : Codecs) (mask : Option SecretKey) (files : List ExportFile) (w : Wallet) :
    Prop :=
  ∃ w', Prog.forEach files (fun f => importFile W C mask f.text) w = (.ok (), w') ∧
    ∀ p i t, entryAt w'.db p i = some t ↔ ∃ f ∈ files, t ∈ f.entries ∧ t.parentKeyId = p ∧ t.id = i

theorem refreshedTxs_ok {W : World} {mask : Option SecretKey} {txs : List TxLogEntry} {w w' : Wallet}
    (h : refreshedTxs W mask none w = (.ok txs, w')) :
    ∀ t, t ∈ txs ↔ t ∈ txLogOf w'.db ∧ t.parentKeyId = w'.parentKeyId := by
  obtain ⟨_, w₁, -, h⟩ := Prog.bind_ok.1 h
  obtain ⟨_, w₂, -, h⟩ := Prog.bind_ok.1 h
  rw [Prog.bind_of_ok (show parentKeyId w₂ = (.ok w₂.parentKeyId, w₂) from rfl)] at h
  obtain ⟨n, l, hl, hmem⟩ := Updater.retrieveTxs_all none none (some w₂.parentKeyId) false none w₂
  rw [Prog.bind_of_ok hl] at h
  cases h
  intro t
  rw [hmem, Updater.mem_selectedTxs]
  simp

/-- The text of a file is read as the entries of the account. -/
theorem ExportFile.Written.read {C : Codecs} {f : ExportFile} (h : f.Written C) :
    ∃ txs, (Json.read f.text).bind (readList (TxLogEntry.fromJson C)) = some txs ∧
      (∀ t, t ∈ txs ↔ t ∈ f.entries) ∧ Importable f.account txs := by
  obtain ⟨W, mask, w, w', hrun, hstored, hparent, hentries⟩ := h
  obtain ⟨txs, w₁, htxs, hrun⟩ := Prog.bind_ok.1 hrun
  obtain ⟨w₂, htxs, rfl⟩ := Prog.within_eq_ok.1 htxs
  change (if txs = [] then Prog.throw (.argumentError "No transactions found to export")
    else pure (Json.arr (txs.map (TxLogEntry.toJson C))).render : CommandM (List Char)) w₁ = _ at hrun
  split_ifs at hrun
  · cases hrun
  obtain ⟨htext, rfl⟩ := Prod.mk.inj hrun
  have hlog := refreshedTxs_ok htxs
  refine ⟨txs, ?_, fun t => by rw [hlog, hentries, hparent], fun t ht => ?_, fun t ht => ?_, ?_⟩
  · rw [← Except.ok.inj htext, Json.read_render, Option.bind_some]
    exact readList_map TxLogEntry.fromJson_toJson txs
  · rw [← hparent]
    exact ((hlog t).1 ht).2
  · exact hstored.plain t ((hlog t).1 ht).1
  · intro t ht u hu hid
    obtain ⟨ht, hpt⟩ := (hlog t).1 ht
    obtain ⟨hu, hpu⟩ := (hlog u).1 hu
    rw [mem_txLogOf_keyed hstored.keyed] at ht hu
    rw [hpt, hid, ← hpu, hu] at ht
    exact (Option.some.inj ht).symm

section
variable {W : World} {C : Codecs} {mask : Option SecretKey}

theorem ExportFile.Written.account {f : ExportFile} (h : f.Written C) :
    ∀ t ∈ f.entries, t.parentKeyId = f.account := by
  obtain ⟨txs, -, hmem, himport⟩ := h.read
  exact fun t ht => himport.account t ((hmem t).2 ht)

theorem importFile_merges (hW : ∀ t, W.stops t = false) {f : ExportFile} (hf : f.Written C) {w : Wallet}
    (hw : Ready W mask w) {l : List TxLogEntry} (hl : ∀ t, t ∈ txLogOf w.db ↔ t ∈ l) :
    ∃ w', importFile W C mask f.text w = (.ok (), w') ∧ Ready W mask w' ∧
      ∀ t, t ∈ txLogOf w'.db ↔ t ∈ merge l f.entries := by
  obtain ⟨txs, hread, hmem, himport⟩ := hf.read
  obtain ⟨w', hrun, hw', hlog⟩ := importTx_merges hW hw himport
  refine ⟨w', ?_, hw', fun t => ?_⟩
  · unfold importFile
    rw [hread]
    exact Prog.within_of_ok hrun
  · rw [hlog, mem_merge, mem_merge, hl, hmem, alreadyPresent_congr hl]

/-- Reading the files merges their entries, one file after the other. -/
theorem importFiles_merge (hW : ∀ t, W.stops t = false) : ∀ {files : List ExportFile} {w : Wallet}
    {l : List TxLogEntry}, (∀ f ∈ files, f.Written C) → Ready W mask w → (∀ t, t ∈ txLogOf w.db ↔ t ∈ l) →
    ∃ w', Prog.forEach files (fun f => importFile W C mask f.text) w = (.ok (), w') ∧ Ready W mask w' ∧
      ∀ t, t ∈ txLogOf w'.db ↔ t ∈ (files.map (·.entries)).foldl merge l
  | [], w, _, _, hw, hl => ⟨w, rfl, hw, hl⟩
  | f :: files, w, l, hfiles, hw, hl => by
    obtain ⟨hf, hrest⟩ := List.forall_mem_cons.1 hfiles
    obtain ⟨w₁, hrun, hw₁, hl₁⟩ := importFile_merges hW hf hw hl
    obtain ⟨w', hrun', hw', hlog⟩ := importFiles_merge hW hrest hw₁ hl₁
    refine ⟨w', ?_, hw', hlog⟩
    unfold Prog.forEach
    rw [Prog.bind_of_ok hrun]
    exact hrun'

theorem restores_iff_apart (hW : ∀ t, W.stops t = false) {files : List ExportFile}
    (hfiles : ∀ f ∈ files, f.Written C) (haccounts : (files.map (·.account)).Nodup) {w : Wallet}
    (hopen : ∃ k, unmasked W w mask = .ok k) (hempty : txLogOf w.db = []) :
    Restores W C mask files w ↔ files.Pairwise fun f g => Apart f.entries g.entries := by
  have hkeyed : LogKeyed w.db := by
    intro p i t ht
    have hmem := mem_txLogOf_iff.2 ⟨p, i, ht⟩
    rw [hempty] at hmem
    cases hmem
  obtain ⟨w', hrun, hw', hlog⟩ :=
    importFiles_merge (l := []) hW hfiles ⟨hopen, hkeyed⟩ fun t => by rw [hempty]
  have hlists : (files.map (·.entries)).Pairwise fun f g => ∀ t ∈ f, t ∉ g := by
    rw [List.pairwise_map]
    refine (List.pairwise_map.1 haccounts).imp_of_mem fun {f g} hf hg hne t ht hu => hne ?_
    rw [← (hfiles f hf).account t ht, (hfiles g hg).account t hu]
  have hkept := foldl_merge_iff (l := []) (fun _ _ _ _ h => nomatch h) hlists
  rw [List.pairwise_map] at hkept
  constructor
  · rintro ⟨w₁, hrun₁, hall⟩
    obtain rfl : w₁ = w' := by
      rw [hrun] at hrun₁
      exact (Prod.mk.inj hrun₁).2.symm
    refine (hkept.1 fun l hl t ht => ?_).2
    obtain ⟨f, hf, rfl⟩ := List.mem_map.1 hl
    exact (hlog t).1 (mem_txLogOf_iff.2 ⟨_, _, (hall _ _ t).2 ⟨f, hf, ht, rfl, rfl⟩⟩)
  · intro hpairs
    refine ⟨w', hrun, fun p i t => ⟨fun ht => ?_, ?_⟩⟩
    · obtain ⟨hp, hi⟩ := hw'.keyed p i t ht
      rcases mem_foldl_merge _ ((hlog t).1 (mem_txLogOf_iff.2 ⟨p, i, ht⟩)) with h | ⟨l, hl, h⟩
      · cases h
      · obtain ⟨f, hf, rfl⟩ := List.mem_map.1 hl
        exact ⟨f, hf, h, hp, hi⟩
    · rintro ⟨f, hf, ht, rfl, rfl⟩
      have hkept' := hkept.2 ⟨fun _ _ _ ht => (nomatch ht), hpairs⟩
      exact (mem_txLogOf_keyed hw'.keyed).1 ((hlog t).2 (hkept' _ (List.mem_map_of_mem hf) t ht))

end

def secondPath : Identifier := Identifier.derive 2 1 0 0 0

def sentEntry : TxLogEntry :=
  { TxLogEntry.new defaultPath .txSent 0 ⟨0⟩ with
    txSlateId := some ⟨9⟩
    amountDebited := 5
    confirmed := true }

def receivedEntry : TxLogEntry :=
  { TxLogEntry.new secondPath .txReceived 0 ⟨0⟩ with
    txSlateId := some ⟨9⟩
    amountCredited := 5
    confirmed := true }

def newWallet : Wallet := Op.created ⟨7⟩ 7 .initNoScanning

/-- The wallet that made the payment, with one of its accounts active. -/
def paidWallet (active : Identifier) : Wallet :=
  let w := (Batch.saveAcctPath ⟨"b", secondPath⟩ newWallet).2
  let w := (Batch.saveTxLogEntry sentEntry defaultPath w).2
  { (Batch.saveTxLogEntry receivedEntry secondPath w).2 with parentKeyId := active }

def exported (active : Identifier) : Except (Fault CommandError) (List Char) × Wallet :=
  exportTx World.small SlateCodecs.numbers.toCodecs none ⟨none, true⟩ (paidWallet active)

def fileOf (active : Identifier) : ExportFile where
  account := active
  entries := (txLogOf (exported active).2.db).filter (·.parentKeyId = active)
  text := (exported active).1.toOption.getD []

/-- A row that is no entry, or an entry under its account and number. -/
def keyedRow : Key × Serializable → Bool
  | (.txLogEntry p i, .txLogEntry t) => t.parentKeyId = p ∧ t.id = i
  | _ => true

theorem logKeyed_of_rows {d : Rows Key Serializable} (h : ∀ r ∈ d.toList, keyedRow r = true) :
    LogKeyed d := by
  intro p i t ht
  exact of_decide_eq_true (h _ (Rows.mem_iff.2 (entryAt_eq.1 ht)))

/-- What a file of the wallet is, whichever of the two accounts is active. -/
theorem exported_ok : ∀ p ∈ [defaultPath, secondPath], (exported p).1 = .ok (fileOf p).text := by
  decide +kernel

theorem exported_log : ∀ p ∈ [defaultPath, secondPath],
    (∀ r ∈ (exported p).2.db.toList, keyedRow r = true) ∧
      (∀ t ∈ txLogOf (exported p).2.db, (Serializable.txLogEntry t).Plain) ∧
        (exported p).2.parentKeyId = p := by
  decide +kernel

theorem fileOf_written :
    ∀ p ∈ [defaultPath, secondPath], (fileOf p).Written SlateCodecs.numbers.toCodecs := by
  intro p hp
  obtain ⟨hrows, hplain, hactive⟩ := exported_log p hp
  have hexport : exported p = (.ok (fileOf p).text, (exported p).2) := by rw [← exported_ok p hp]
  have hentries (t : TxLogEntry) :
      t ∈ (fileOf p).entries ↔ t ∈ txLogOf (exported p).2.db ∧ t.parentKeyId = p := by
    unfold fileOf
    rw [List.mem_filter, decide_eq_true_eq]
  exact ⟨World.small, none, paidWallet p, (exported p).2, hexport,
    ⟨logKeyed_of_rows hrows, hplain⟩, hactive, hentries⟩

theorem newWallet_ready :
    (∃ k, unmasked World.small newWallet none = .ok k) ∧ txLogOf newWallet.db = [] :=
  ⟨⟨⟨7⟩, by decide +kernel⟩, by decide +kernel⟩

end Command

end EpicWallet
