import EpicWallet.Lib.Triple
import EpicWallet.Libwallet.Proof.Touches

/-!
# Child indices

Every key of a stored output lies below the child index of its parent, so `next_child` never returns
it again. Every call but a scan keeps this (`KeyStep`); scans are treated in `Proof.Restore`.
-/

namespace EpicWallet

open Lib WalletBackend

/-! ## Keys and their parents -/

/-- A path whose children differ in a component that is 0 in the path itself. -/
structure IsAccountPath (p : Identifier) : Prop where
  deep : 1 ≤ p.depth
  clear : (p.pathAt p.depth).getD 0 = 0

theorem isAccountPath_parentPath {id : Identifier} (h : 2 ≤ id.depth) :
    IsAccountPath id.parentPath := by
  obtain ⟨depth, p0, p1, p2, p3⟩ := id
  obtain ⟨n, rfl⟩ : ∃ n, depth = n + 2 := ⟨depth - 2, by simp only at h; omega⟩
  unfold Identifier.parentPath
  rw [if_neg (by simp)]
  refine ⟨by simp, ?_⟩
  rcases n with _ | _ | _ | n <;> rfl

theorem child_path {p id : Identifier} {n : Nat} (hp : IsAccountPath p) (h : p.child n = some id) :
    id.lastPathIndex = n ∧ id.parentPath = p := by
  obtain ⟨hdeep, hclear⟩ := hp
  obtain ⟨depth, p0, p1, p2, p3⟩ := p
  unfold Identifier.child at h
  rcases depth with _ | _ | _ | _ | depth
  · cases hdeep
  · cases h
    cases hclear
    exact ⟨rfl, rfl⟩
  · cases h
    cases hclear
    exact ⟨rfl, rfl⟩
  · cases h
    cases hclear
    exact ⟨rfl, rfl⟩
  · cases h

/-- The child index recorded for a path, as `next_child` reads it. -/
def childIndex (d : Rows Key Serializable) (p : Identifier) : Nat := asU32 (numericOf d (.deriv p))

/-- The key lies below the child index of its parent. -/
def Issued (d : Rows Key Serializable) (id : Identifier) : Prop :=
  id.lastPathIndex < childIndex d id.parentPath

/-! ## The invariant -/

/-- The key is issued, or a scan has yet to raise the index of its parent. -/
def Vouched (pending : Identifier → Prop) (d : Rows Key Serializable) (id : Identifier) : Prop :=
  Issued d id ∨ pending id

/-- Every key of an output, of an output of a context and of those a call has in hand (`held`) is
below the index of its parent, but for those a scan has yet to raise the index for (`pending`). -/
structure KeyInv (pending : Identifier → Prop) (held : List Identifier) (w : Wallet) : Prop where
  outputs : ∀ o ∈ outputsOf w.db, o.nChild = o.keyId.lastPathIndex ∧ Vouched pending w.db o.keyId
  contexts : ∀ u p c, w.db.get (.privateTxContext u p) = some (.context c) →
    ∀ out ∈ c.outputIds, Vouched pending w.db out.1
  accounts : ∀ a ∈ accountsOf w.db, IsAccountPath a.path
  active : IsAccountPath w.parentKeyId
  held : ∀ id ∈ held, Vouched pending w.db id

/-- The rows the invariant is about. -/
def keyRows : List RowKind := [.output, .context, .account, .deriv]

section
variable {pending : Identifier → Prop} {held : List Identifier}

theorem KeyInv.drop {held' : List Identifier} {w : Wallet} (h : KeyInv pending held w)
    (hs : ∀ id ∈ held', id ∈ held) : KeyInv pending held' w :=
  { h with held := fun id hid => h.held id (hs id hid) }

theorem KeyInv.relax {pending' : Identifier → Prop} {w : Wallet} (h : KeyInv pending held w)
    (hp : ∀ id, pending id → pending' id) : KeyInv pending' held w where
  outputs o ho := ⟨(h.outputs o ho).1, (h.outputs o ho).2.imp_right (hp _)⟩
  contexts u p c hc out hm := (h.contexts u p c hc out hm).imp_right (hp _)
  accounts := h.accounts
  active := h.active
  held id hid := (h.held id hid).imp_right (hp _)

theorem vouched_mono {d d' : Rows Key Serializable} (h : ∀ p, childIndex d p ≤ childIndex d' p)
    {id : Identifier} (hi : Vouched pending d id) : Vouched pending d' id :=
  hi.imp_left fun hlt => Nat.lt_of_lt_of_le hlt (h _)

/-- What a step must do to keep the invariant: its outputs are old ones or as required, its contexts
too, no index falls. -/
theorem KeyInv.step {w w' : Wallet} (h : KeyInv pending held w)
    (hidx : ∀ p, childIndex w.db p ≤ childIndex w'.db p)
    (hout : ∀ o ∈ outputsOf w'.db, o ∈ outputsOf w.db ∨
      o.nChild = o.keyId.lastPathIndex ∧ Vouched pending w'.db o.keyId)
    (hctx : ∀ u p c, w'.db.get (.privateTxContext u p) = some (.context c) →
      w.db.get (.privateTxContext u p) = some (.context c) ∨
        ∀ out ∈ c.outputIds, Vouched pending w'.db out.1)
    (hacc : ∀ a ∈ accountsOf w'.db, a ∈ accountsOf w.db ∨ IsAccountPath a.path)
    (hactive : IsAccountPath w'.parentKeyId) : KeyInv pending held w' := by
  refine ⟨fun o ho => ?_, fun u p c hc out hm => ?_, fun a ha => ?_, hactive, fun id hid => ?_⟩
  · rcases hout o ho with ho | ho
    · exact ⟨(h.outputs o ho).1, vouched_mono hidx (h.outputs o ho).2⟩
    · exact ho
  · rcases hctx u p c hc with hc | hc
    · exact vouched_mono hidx (h.contexts u p c hc out hm)
    · exact hc out hm
  · rcases hacc a ha with ha | ha
    · exact h.accounts a ha
    · exact ha
  · exact vouched_mono hidx (h.held id hid)

theorem childIndex_congr {d d' : Rows Key Serializable} {p : Identifier}
    (h : d'.get (.deriv p) = d.get (.deriv p)) : childIndex d' p = childIndex d p := by
  unfold childIndex numericOf
  rw [h]

/-- A step that leaves the rows of outputs, contexts, accounts and indices alone. -/
theorem KeyInv.same {w w' : Wallet} (h : KeyInv pending held w)
    (hrows : ∀ k, k.kind ∈ keyRows → w'.db.get k = w.db.get k)
    (hactive : w'.parentKeyId = w.parentKeyId) : KeyInv pending held w' := by
  refine h.step (fun p => ?_) (fun o ho => .inl ?_) (fun u p c hc => .inl ?_)
    (fun a ha => .inl ?_) (hactive ▸ h.active)
  · rw [childIndex_congr (hrows (.deriv p) (by simp [Key.kind, keyRows]))]
  · rw [mem_outputsOf] at ho ⊢
    obtain ⟨id, m, hg⟩ := ho
    exact ⟨id, m, hrows (.output id m) (by simp [Key.kind, keyRows]) ▸ hg⟩
  · rw [← hrows (.privateTxContext u p) (by simp [Key.kind, keyRows])]
    exact hc
  · rw [mem_accountsOf] at ha ⊢
    obtain ⟨label, hg⟩ := ha
    exact ⟨label, hrows (.accountPathMapping label) (by simp [Key.kind, keyRows]) ▸ hg⟩

/-- The step keeps the invariant, whatever is pending and held. -/
def KeyStep (w w' : Wallet) : Prop :=
  ∀ pending held, KeyInv pending held w → KeyInv pending held w'

instance : Std.Refl KeyStep := ⟨fun _ _ _ h => h⟩

instance : IsTrans Wallet KeyStep := ⟨fun _ _ _ h h' p l hw => h' p l (h p l hw)⟩

theorem keeps_keyInv {α : Type} {p : WalletM α} (h : Prog.Keeps KeyStep p) :
    Prog.Triple (KeyInv pending held) p (fun _ => KeyInv pending held) (KeyInv pending held) :=
  Prog.triple_inv.2 fun w => h w pending held

theorem keyStep_of_rows {w w' : Wallet} (hrows : ∀ k, k.kind ∈ keyRows → w'.db.get k = w.db.get k)
    (hactive : w'.parentKeyId = w.parentKeyId) : KeyStep w w' :=
  fun _ _ h => h.same hrows hactive

theorem not_keyRows_of_history {k : Key} (h : k.isHistory = true) : k.kind ∉ keyRows := by
  cases k <;> simp_all [Key.isHistory, Key.kind, keyRows]

/-- Steps that write single rows. -/
theorem keyInv_of_writes {P : Key → Option Serializable → Prop} {w w' : Wallet}
    (hw : Writes P w w') (h : KeyInv pending held w)
    (hP : ∀ k v, P k v → k.kind ∈ keyRows → k.kind = .output)
    (hout : ∀ id m o, P (.output id m) (some (.outputData o)) → o.nChild = o.keyId.lastPathIndex ∧
      Vouched pending w.db o.keyId) : KeyInv pending held w' := by
  have hrow : ∀ k, k.kind ∈ keyRows → k.kind ≠ .output → w'.db.get k = w.db.get k := by
    intro k hk hne
    refine hw.get_eq ?_ fun v hv => hne (hP k v hv hk)
    by_contra hh
    exact not_keyRows_of_history (by simpa using hh) hk
  have hidx : ∀ p, childIndex w'.db p = childIndex w.db p := fun p =>
    childIndex_congr (hrow (.deriv p) (by simp [Key.kind, keyRows]) (by simp [Key.kind]))
  refine h.step (fun p => (hidx p).ge) (fun o ho => ?_) (fun u p c hc => .inl ?_)
    (fun a ha => .inl ?_) (hw.parentKeyId ▸ h.active)
  · obtain ⟨id, m, hg⟩ := mem_outputsOf.1 ho
    rcases hw.db (.output id m) rfl with he | hp
    · exact .inl (mem_outputsOf.2 ⟨id, m, he ▸ hg⟩)
    · rw [hg] at hp
      obtain ⟨hn, hi⟩ := hout id m o hp
      exact .inr ⟨hn, vouched_mono (fun p => (hidx p).ge) hi⟩
  · rw [← hrow (.privateTxContext u p) (by simp [Key.kind, keyRows]) (by simp [Key.kind])]
    exact hc
  · rw [mem_accountsOf] at ha ⊢
    obtain ⟨label, hg⟩ := ha
    exact ⟨label, hrow (.accountPathMapping label) (by simp [Key.kind, keyRows])
      (by simp [Key.kind]) ▸ hg⟩

/-! ## Single rows -/

theorem put_keyStep {k : Key} (hk : k.kind ∉ keyRows) (v : Serializable) :
    Prog.Keeps KeyStep (put k v) := by
  intro w pending held h
  refine keyInv_of_writes (put_writes (P := fun k' _ => k' = k) rfl w) h ?_ ?_
  · rintro _ _ rfl hk'
    exact absurd hk' hk
  · rintro id m o rfl
    exact absurd (by simp [Key.kind, keyRows]) hk

theorem delete_keyStep (id : Identifier) (mmrIndex txId : Option Nat) :
    Prog.Keeps KeyStep (Batch.delete id mmrIndex txId) := by
  intro w pending held h
  refine keyInv_of_writes (Batch.delete_writes
    (P := fun k v => k = .output id mmrIndex ∧ v = none) ⟨rfl, rfl⟩ w) h ?_ ?_
  · rintro _ _ ⟨rfl, -⟩ -
    rfl
  · rintro id m o' ⟨-, hv⟩
    cases hv

theorem save_held {o : OutputData} (hn : o.nChild = o.keyId.lastPathIndex) (hid : o.keyId ∈ held) :
    Prog.Triple (KeyInv pending held) (Batch.save o) (fun _ => KeyInv pending held)
      (KeyInv pending held) := by
  refine Prog.triple_inv.2 fun w h => ?_
  refine keyInv_of_writes (Batch.save_writes
    (P := fun k v => k = .output o.keyId o.mmrIndex ∧ v = some (.outputData o)) ⟨rfl, rfl⟩ w) h ?_ ?_
  · rintro _ _ ⟨rfl, -⟩ -
    rfl
  · rintro id m o' ⟨-, hv⟩
    cases hv
    exact ⟨hn, h.held _ hid⟩

/-- A row that is neither an output nor an index. -/
theorem put_keyInv {k : Key} {v : Serializable} {w : Wallet} (h : KeyInv pending held w)
    (hk : k.kind ≠ .output ∧ k.kind ≠ .deriv)
    (hctx : ∀ u p c, k = .privateTxContext u p → v = .context c → ∀ out ∈ c.outputIds, out.1 ∈ held)
    (hacc : ∀ l a, k = .accountPathMapping l → v = .acctPathMapping a → IsAccountPath a.path) :
    KeyInv pending held (put k v w).2 := by
  have hput := put_writes (P := fun k' v' => k' = k ∧ v' = some v) ⟨rfl, rfl⟩ w
  have hidx : ∀ p, childIndex (put k v w).2.db p = childIndex w.db p := by
    intro p
    apply childIndex_congr
    refine hput.get_eq rfl ?_
    rintro _ ⟨rfl, -⟩
    exact hk.2 rfl
  refine h.step (fun p => (hidx p).ge) (fun o ho => .inl ?_) (fun u p c hc => ?_) (fun a ha => ?_)
    (hput.parentKeyId ▸ h.active)
  · obtain ⟨id, m, hg⟩ := mem_outputsOf.1 ho
    refine mem_outputsOf.2 ⟨id, m, ?_⟩
    rcases hput.db (.output id m) rfl with he | ⟨rfl, -⟩
    · exact he ▸ hg
    · exact absurd rfl hk.1
  · rcases hput.db (.privateTxContext u p) rfl with he | ⟨hkey, hv⟩
    · exact .inl (he ▸ hc)
    · rw [hc] at hv
      cases hv
      refine .inr fun out hm => vouched_mono (fun p => (hidx p).ge) (h.held _ ?_)
      exact hctx u p c hkey.symm rfl out hm
  · obtain ⟨label, hg⟩ := mem_accountsOf.1 ha
    rcases hput.db (.accountPathMapping label) rfl with he | ⟨hkey, hv⟩
    · exact .inl (mem_accountsOf.2 ⟨label, he ▸ hg⟩)
    · rw [hg] at hv
      cases hv
      exact .inr (hacc label a hkey.symm rfl)

theorem deleteRow_keyInv {k : Key} {w : Wallet} (h : KeyInv pending held w)
    (hk : k.kind ≠ .output ∧ k.kind ≠ .deriv) : KeyInv pending held (deleteRow k w).2 := by
  have hput := deleteRow_writes (P := fun k' v' => k' = k ∧ v' = none) ⟨rfl, rfl⟩ w
  have hrow : ∀ k' v, (deleteRow k w).2.db.get k' = some v → k'.isHistory = false →
      w.db.get k' = some v := by
    intro k' v hg hh
    rcases hput.db k' hh with he | ⟨-, hv⟩
    · exact he ▸ hg
    · rw [hg] at hv
      cases hv
  refine h.step (fun p => ?_) (fun o ho => .inl ?_) (fun u p c hc => .inl (hrow _ _ hc rfl))
    (fun a ha => .inl ?_) h.active
  · refine (childIndex_congr (hput.get_eq rfl ?_)).ge
    rintro _ ⟨rfl, -⟩
    exact hk.2 rfl
  · obtain ⟨id, m, hg⟩ := mem_outputsOf.1 ho
    exact mem_outputsOf.2 ⟨id, m, hrow _ _ hg rfl⟩
  · obtain ⟨label, hg⟩ := mem_accountsOf.1 ha
    exact mem_accountsOf.2 ⟨label, hrow _ _ hg rfl⟩

theorem childIndex_put (d : Rows Key Serializable) (p q : Identifier) {n : Nat} (hn : n < u32Size) :
    childIndex (d.put (.deriv p) (.numeric n)) q = if q = p then n else childIndex d q := by
  unfold childIndex numericOf
  by_cases hq : q = p
  · subst q
    rw [Rows.get_put_self, if_pos rfl]
    exact Nat.mod_eq_of_lt hn
  · rw [Rows.get_put_ne _ _ (by simpa using hq), if_neg hq]

/-- Raising an index. -/
theorem saveChildIndex_keyStep {p : Identifier} {n : Nat} {w : Wallet} (hle : childIndex w.db p ≤ n)
    (hn : n < u32Size) : KeyStep w (Batch.saveChildIndex p n w).2 := by
  intro pending held h
  have hrun : Batch.saveChildIndex p n w =
      (.ok (), { w with db := w.db.put (.deriv p) (.numeric n) }) :=
    put_ok.2 ⟨by simp [Serializable.Plain, Serializable.strings], rfl⟩
  rw [hrun]
  refine h.step (fun q => ?_) (fun o ho => .inl ?_) (fun u p' c hc => .inl ?_) (fun a ha => .inl ?_)
    h.active
  · show _ ≤ childIndex (w.db.put _ _) q
    rw [childIndex_put _ _ _ hn]
    split
    · subst q
      exact hle
    · exact Nat.le_refl _
  · obtain ⟨id, m, hg⟩ := mem_outputsOf.1 ho
    exact mem_outputsOf.2 ⟨id, m, (Rows.get_put_ne _ _ (by simp)).symm.trans hg⟩
  · exact (Rows.get_put_ne _ _ (by simp)).symm.trans hc
  · obtain ⟨label, hg⟩ := mem_accountsOf.1 ha
    exact mem_accountsOf.2 ⟨label, (Rows.get_put_ne _ _ (by simp)).symm.trans hg⟩

/-- The kinds of rows the invariant is not about. -/
def otherRows : List RowKind := [.history, .height, .entry, .logId, .scanned, .status]

theorem keyStep_frees : Frees KeyStep otherRows where
  aside w w' h := by
    apply keyStep_of_rows
    · intro k _
      rw [h.db]
    · rw [h]
  files w txs := keyStep_of_rows (fun _ _ => rfl) rfl
  puts k hk v _ := put_keyStep (by
    intro hk'
    simp only [otherRows, keyRows, List.mem_cons, List.not_mem_nil, or_false] at hk hk'
    rcases hk with h | h | h | h | h | h <;> rw [h] at hk' <;> simp at hk') v
  erases k hk w pending held h := by
    refine deleteRow_keyInv h ?_
    constructor
    · intro he
      rw [he] at hk
      simp [otherRows] at hk
    · intro he
      rw [he] at hk
      simp [otherRows] at hk

/-! ## Handing out keys -/

theorem setParentKeyIdByName_keyStep (label : String) :
    Prog.Keeps KeyStep (setParentKeyIdByName label) := by
  intro w pending held h
  unfold setParentKeyIdByName
  have hl : acctPathIter w = (.ok (accountsOf w.db), w) := rfl
  rw [Prog.bind_of_ok hl]
  rcases hf : (accountsOf w.db).find? fun a => decide (a.label = label) with _ | a
  · rw [hf]
    exact h
  · rw [hf]
    have hmem := List.mem_of_find?_eq_some hf
    exact ⟨h.outputs, h.contexts, h.accounts, h.accounts a hmem, h.held⟩

theorem walletLock_keyStep (W : World) : Prog.Keeps KeyStep (walletLock W) :=
  keyStep_frees.nextTick.bind fun _ => .ite (fun _ => .panic) fun _ => Prog.Keeps.forEach _ fun _ _ =>
    (setParentKeyIdByName_keyStep _).attempt.bind fun _ => .pure _

theorem nextChild_keyStep (W : World) (mask : Option SecretKey) :
    Prog.Keeps KeyStep (nextChild W mask) := by
  intro w
  refine Prog.rel_bind (Std.Refl.refl _) fun parent w₁ hp => ?_
  cases hp
  refine Prog.rel_bind (Std.Refl.refl _) fun n w₂ hn => ?_
  cases hn
  refine Prog.rel_bind ((Prog.Keeps.unwrap _) _) fun id w₃ hid => ?_
  obtain ⟨-, rfl⟩ := Prog.unwrap_eq_ok.1 hid
  refine Prog.rel_bind ((addU32_reads _ _).keeps _) fun m w₄ hm => ?_
  obtain ⟨rfl, hlt, rfl⟩ := addU32_ok.1 hm
  refine Prog.rel_bind ((batch_reads W mask).keeps _) fun b w₅ hb => ?_
  obtain ⟨-, rfl⟩ := (batch_ok W).1 hb
  refine Prog.rel_bind (saveChildIndex_keyStep ?_ hlt) fun _ w₆ _ => Std.Refl.refl _
  exact Nat.le_succ _

/-- A key handed out lies below the index from then on. -/
theorem nextChild_triple (W : World) (mask : Option SecretKey) :
    Prog.Triple (KeyInv pending held) (nextChild W mask) (fun id => KeyInv pending (id :: held))
      (KeyInv pending held) := by
  apply Prog.Triple.intro
  · intro w id w' h hrun
    have h' := (nextChild_keyStep W mask).rel hrun pending held h
    obtain ⟨n, -, hlt, hchild, hset⟩ := nextChild_ok W hrun
    obtain ⟨hlast, hparent⟩ := child_path h.active hchild
    refine { h' with held := fun i hi => ?_ }
    rcases List.mem_cons.1 hi with rfl | hi
    · left
      unfold Issued childIndex numericOf
      rw [hlast, hparent, hset.get_self]
      show n < (n + 1) % u32Size
      rw [Nat.mod_eq_of_lt hlt]
      exact Nat.lt_succ_self n
    · exact h'.held i hi
  · intro w e w' h hrun
    exact (nextChild_keyStep W mask).rel hrun pending held h

theorem keyStep_of_triple {α : Type} {p : WalletM α} (h : ∀ pending held, Prog.Triple
    (KeyInv pending held) p (fun _ => KeyInv pending held) (KeyInv pending held)) :
    Prog.Keeps KeyStep p := fun _ pending held hw =>
  (h pending held).state (fun _ _ h => h) (fun _ h => h) hw

/-- A reading step. -/
theorem reads_keyInv {α : Type} {p : WalletM α} (h : Prog.Reads p) :
    Prog.Triple (KeyInv pending held) p (fun _ => KeyInv pending held) (KeyInv pending held) :=
  keeps_keyInv h.keeps

theorem drop_append {l : List Identifier} (w : Wallet) (h : KeyInv pending (l ++ held) w) :
    KeyInv pending held w := h.drop fun _ hm => List.mem_append_right _ hm

/-- The invariant, and an output in hand whose key it vouches for. -/
def InHand (pending : Identifier → Prop) (held : List Identifier) (o : OutputData) (w : Wallet) :
    Prop :=
  KeyInv pending (o.keyId :: held) w ∧ o.nChild = o.keyId.lastPathIndex

theorem InHand.inv {o : OutputData} {w : Wallet} (h : InHand pending held o w) :
    KeyInv pending held w := h.1.drop fun _ hm => List.mem_cons_of_mem _ hm

theorem inHand_of_stored {o : OutputData} {w : Wallet} (h : KeyInv pending held w)
    (ho : o ∈ outputsOf w.db) : InHand pending held o w := by
  refine ⟨{ h with held := fun id hid => ?_ }, (h.outputs o ho).1⟩
  rcases List.mem_cons.1 hid with rfl | hid
  · exact (h.outputs o ho).2
  · exact h.held id hid

theorem getOutput_triple (id : Identifier) (mmrIndex : Option Nat) :
    Prog.Triple (KeyInv pending held) (getOutput id mmrIndex) (InHand pending held)
      (KeyInv pending held) :=
  (getOutput_reads _ _).triple (fun _ _ h hrun =>
    inHand_of_stored h (mem_outputsOf.2 ⟨_, _, (getOutput_ok.1 hrun).1⟩)) fun _ h => h

theorem keeps_inHand {α : Type} {p : WalletM α} (h : Prog.Keeps KeyStep p) {o : OutputData} :
    Prog.Triple (InHand pending held o) p (fun _ => InHand pending held o) (KeyInv pending held) :=
  h.triple (fun _ _ _ hw hr => ⟨hr _ _ hw.1, hw.2⟩) fun _ _ hw hr => hr _ _ hw.inv

/-- An output in hand may be stored, its key unchanged. -/
theorem save_inHand {o o' : OutputData} (hk : o'.keyId = o.keyId) (hn : o'.nChild = o.nChild) :
    Prog.Triple (InHand pending held o) (Batch.save o') (fun _ => KeyInv pending held)
      (KeyInv pending held) := by
  have hsave : ∀ w, InHand pending held o w → KeyInv pending held (Batch.save o' w).2 := by
    intro w h
    have hs := Prog.triple_inv.1 (@save_held pending (o.keyId :: held) o'
      (by rw [hk, hn]; exact h.2) (by rw [hk]; exact List.mem_cons_self)) w h.1
    exact hs.drop fun _ hm => List.mem_cons_of_mem _ hm
  apply Prog.Triple.intro
  · intro w _ w' h hrun
    have := hsave w h
    rwa [hrun] at this
  · intro w _ w' h hrun
    have := hsave w h
    rwa [hrun] at this

/-! ## Selecting, locking and receiving -/

namespace Selection

variable (W : World)

theorem changeAmounts_triple (mask : Option SecretKey) (part remainder num : Nat) :
    ∀ (l : List Nat) (held : List Identifier), Prog.Triple (KeyInv pending held)
      (changeAmounts W mask part remainder num l)
      (fun r => KeyInv pending (r.map (·.2.1) ++ held)) (KeyInv pending held)
  | [], held => .pure fun _ h => h
  | x :: xs, held => by
    refine Prog.Triple.bind (reads_keyInv (.ite (fun _ => addU64_reads _ _) fun _ => .pure _))
      fun amount => (nextChild_triple W mask).orPanic.bind fun key => ?_
    refine ((changeAmounts_triple mask part remainder num xs (key :: held)).mono (fun _ h => h)
      (fun _ _ h => h) fun w h => h.drop fun _ hm => List.mem_cons_of_mem _ hm).bind fun rest => ?_
    refine .pure fun w h => h.drop fun id hm => ?_
    simp only [List.map_cons, List.cons_append, List.mem_cons, List.mem_append] at hm ⊢
    tauto

theorem selectSendTx_triple (mask : Option SecretKey)
    (amount currentHeight minimumConfirmations maxOutputs changeOutputs : Nat) (selectAll : Bool)
    (parent : Identifier) :
    Prog.Triple (KeyInv pending held) (selectSendTx W mask amount currentHeight minimumConfirmations
      maxOutputs changeOutputs selectAll parent)
      (fun r => KeyInv pending (r.2.2.1.map (·.2.1) ++ held)) (KeyInv pending held) := by
  refine (reads_keyInv (selectCoinsAndFee_reads W _ _ _ _ _ _ _)).bind fun r => ?_
  refine Prog.Triple.bind (R := fun a => KeyInv pending (a.2.map (·.2.1) ++ held)) ?_
    fun a => .pure fun _ h => h
  refine (reads_keyInv (sumU64_reads _)).bind fun _ => (reads_keyInv (subU64_reads _ _)).bind fun _ =>
    (reads_keyInv (subU64_reads _ _)).bind fun _ => ?_
  refine .ite (fun _ => .pure fun _ h => h) fun _ => .ite (fun _ => .panic fun _ h => h) fun _ => ?_
  exact (changeAmounts_triple W mask _ _ _ _ held).bind fun _ => .pure fun _ h => h

theorem newContext_outputIds {b : BlindingFactor} {parent : Identifier} {participantId : Nat}
    {context : Context} {w w' : Wallet} (h : newContext W b parent participantId w = (.ok context, w')) :
    context.outputIds = [] := by
  obtain ⟨_, _, _, h₁⟩ := Prog.bind_ok.1 h
  obtain ⟨_, _, _, h₂⟩ := Prog.bind_ok.1 h₁
  cases h₂
  rfl

theorem newContext_triple (b : BlindingFactor) (parent : Identifier) (participantId : Nat) :
    Prog.Triple (KeyInv pending held) (newContext W b parent participantId)
      (fun context w => KeyInv pending held w ∧ context.outputIds = []) (KeyInv pending held) := by
  have hk : Prog.Keeps KeyStep (newContext W b parent participantId) :=
    (newContext_aside W b parent participantId).mono keyStep_frees.aside
  apply Prog.Triple.intro
  · intro w c w' h hrun
    exact ⟨hk.rel hrun _ _ h, newContext_outputIds W hrun⟩
  · intro w e w' h hrun
    exact hk.rel hrun _ _ h

/-- The outputs of the context that was built are in hand. -/
theorem buildSendTx_triple (k : Keychain) (mask : Option SecretKey) (slate : Slate)
    (minimumConfirmations maxOutputs changeOutputs : Nat) (selectAll : Bool) (parent : Identifier) :
    Prog.Triple (KeyInv pending held) (buildSendTx W k mask slate minimumConfirmations maxOutputs
      changeOutputs selectAll parent)
      (fun r => KeyInv pending (r.2.outputIds.map Prod.fst ++ held)) (KeyInv pending held) := by
  refine (selectSendTx_triple W mask _ _ _ _ _ _ _).bind fun r => ?_
  obtain ⟨elems, inputs, amounts, fee⟩ := r
  have hdrop : ∀ w, KeyInv pending (amounts.map (·.2.1) ++ held) w → KeyInv pending held w :=
    drop_append
  refine ((reads_keyInv (Prog.Keeps.ofExcept _)).mono (fun _ h => h) (fun _ _ h => h) hdrop).bind
    fun s => ?_
  refine ((newContext_triple W s.2 parent 0).mono (fun _ h => h) (fun _ _ h => h) hdrop).bind
    fun context => ?_
  refine Prog.Triple.bind (R := fun _ w => KeyInv pending (amounts.map (·.2.1) ++ held) w ∧
    context.outputIds = []) (Prog.Triple.forEach fun a _ => ?_) fun _ => .pure fun w h => ?_
  · refine Prog.Triple.bind (R := fun _ w => KeyInv pending (amounts.map (·.2.1) ++ held) w ∧
      context.outputIds = []) ?_ fun _ => .pure fun _ h => h
    exact (calcCommitForCache_reads W _ _ _).triple (fun _ _ h _ => h) fun w h => hdrop w h.1
  · rw [contextOf_eq, h.2]
    refine h.1.drop fun id hm => ?_
    simpa using hm

theorem lockInput_keyStep (logId acc : Nat) (i : Identifier × Option Nat × Nat) :
    Prog.Keeps KeyStep (lockInput logId acc i) := by
  apply keyStep_of_triple
  intro pending held
  refine (getOutput_triple _ _).orPanic.bind fun coin => ?_
  refine (keeps_inHand (addU64_reads _ _).keeps).bind fun _ => ?_
  refine Prog.Triple.bind (R := fun _ => KeyInv pending held) ?_ fun _ => .pure fun _ h => h
  exact save_inHand (o := coin) rfl rfl

/-- A change output whose key is in hand may be stored. -/
theorem saveChange_triple {parent : Identifier} {height logId : Nat}
    {commits : Rows Identifier (Option String × Nat)} {t : TxLogEntry}
    {i : Identifier × Option Nat × Nat} (hi : i.1 ∈ held) :
    Prog.Triple (KeyInv pending held) (saveChange parent height logId commits t i)
      (fun _ => KeyInv pending held) (KeyInv pending held) := by
  refine (reads_keyInv (Prog.Keeps.unwrap _)).bind fun _ => (reads_keyInv (addU64_reads _ _)).bind
    fun _ => Prog.Triple.bind (R := fun _ => KeyInv pending held) ?_ fun _ => .pure fun _ h => h
  exact save_held rfl hi

theorem lockTxContext_triple {mask : Option SecretKey} {slate : Slate} {context : Context}
    {addrTo : Option String} (hout : ∀ out ∈ context.outputIds, out.1 ∈ held) :
    Prog.Triple (KeyInv pending held) (lockTxContext W mask slate context addrTo)
      (fun _ => KeyInv pending held) (KeyInv pending held) := by
  refine (reads_keyInv (outputCommits_reads W mask _)).bind fun commits =>
    (reads_keyInv (keychain_reads W mask)).bind fun k => Prog.Triple.bind ?_ fun t =>
      (reads_keyInv (Prog.Keeps.unwrap _)).bind fun _ => keeps_keyInv (storeTx_keeps keyStep_frees W _ _)
  refine (reads_keyInv (batch_reads W mask)).bind fun _ =>
    (keeps_keyInv (Batch.nextTxLogId_keeps keyStep_frees (by decide) _)).bind fun _ =>
      (keeps_keyInv keyStep_frees.nextTick).bind fun _ => Prog.Triple.bind ?_ fun _ =>
        (reads_keyInv (storedProofInfo_reads W _ _ _)).bind fun _ => Prog.Triple.bind ?_ fun _ =>
          (keeps_keyInv (Batch.saveTxLogEntry_keeps keyStep_frees (by decide) _ _)).bind fun _ =>
            .pure fun _ h => h
  · exact keeps_keyInv (Prog.Keeps.foldlM _ _ fun _ _ _ => lockInput_keyStep _ _ _)
  · refine Prog.triple_inv.2 (Prog.Keeps.foldlM _ _ fun _ i hi => ?_)
    exact Prog.triple_inv.1 (saveChange_triple (hout i hi))

/-- The output of the context that was built is in hand. -/
theorem buildRecipientOutput_triple (mask : Option SecretKey) (slate : Slate) (parent : Identifier) :
    Prog.Triple (KeyInv pending held) (buildRecipientOutput W mask slate parent)
      (fun r => KeyInv pending (r.2.2.outputIds.map Prod.fst ++ held)) (KeyInv pending held) := by
  refine (nextChild_triple W mask).orPanic.bind fun key => ?_
  have hdrop : ∀ w, KeyInv pending (key :: held) w → KeyInv pending held w := fun w h =>
    h.drop fun _ hm => List.mem_cons_of_mem _ hm
  -- a failure after the key was handed out forgets it
  refine Prog.Triple.mono (P := KeyInv pending (key :: held)) (E := KeyInv pending (key :: held))
    (Q := fun r w => KeyInv pending (key :: held) w ∧ r.2.2.outputIds.map Prod.fst = [key]) ?_
    (fun _ h => h) (fun r w h => by rw [h.2]; exact h.1) hdrop
  refine (reads_keyInv (keychain_reads W mask)).bind fun _ =>
    (reads_keyInv (Prog.Keeps.ofExcept _)).bind fun s =>
      (reads_keyInv (keychain_reads W mask)).bind fun _ => ?_
  refine (newContext_triple W s.2 parent 1).bind fun context => .of_and fun hempty => ?_
  refine (reads_keyInv (calcCommitForCache_reads W _ _ _)).bind fun _ =>
    (reads_keyInv (batch_reads W mask)).bind fun _ =>
      (keeps_keyInv (Batch.nextTxLogId_keeps keyStep_frees (by decide) _)).bind fun logId =>
        (keeps_keyInv keyStep_frees.nextTick).bind fun _ => ?_
  refine Prog.Triple.bind (R := fun _ => KeyInv pending (key :: held))
    (save_held rfl List.mem_cons_self) fun _ => ?_
  refine Prog.Triple.bind (R := fun _ => KeyInv pending (key :: held))
    (keeps_keyInv (Batch.saveTxLogEntry_keeps keyStep_frees (by decide) _ _)) fun _ => ?_
  refine Prog.Triple.pure fun w h => ⟨h, ?_⟩
  simp [Context.addOutput, hempty]

end Selection

/-! ## Accounts -/

namespace Keys

variable (W : World)

theorem isAccountPath_of_p0 {p : Identifier} (hp : IsAccountPath p) (n : Nat) :
    IsAccountPath { p with p0 := n } := by
  refine ⟨hp.deep, ?_⟩
  have hclear := hp.clear
  have hdeep := hp.deep
  obtain ⟨depth, p0, p1, p2, p3⟩ := p
  rcases depth with _ | _ | _ | _ | depth
  · cases hdeep
  · exact hclear
  · exact hclear
  · exact hclear
  · rfl

theorem mem_of_foldl {α : Type} {f : Option α → α → Option α}
    (hf : ∀ best a e, f best a = some e → e = a ∨ best = some e) :
    ∀ (l : List α) (best : Option α) (e : α), l.foldl f best = some e → e ∈ l ∨ best = some e
  | [], _, _, h => .inr h
  | a :: l, best, e, h => by
    rcases mem_of_foldl hf l _ e h with hm | hb
    · exact .inl (List.mem_cons_of_mem _ hm)
    · rcases hf best a e hb with rfl | hb
      · exact .inl List.mem_cons_self
      · exact .inr hb

theorem highestEntry_mem {l : List AcctPathMapping} {e : AcctPathMapping}
    (h : highestEntry l = some e) : e ∈ l := by
  refine (mem_of_foldl (fun best a e he => ?_) l none e h).resolve_right (by simp)
  rcases best with _ | b
  · exact .inl (Option.some.inj he).symm
  · simp only at he
    split at he
    · exact .inr he
    · exact .inl (Option.some.inj he).symm

theorem saveAcctPath_triple {mapping : AcctPathMapping} (hp : IsAccountPath mapping.path) :
    Prog.Triple (KeyInv pending held) (Batch.saveAcctPath mapping) (fun _ => KeyInv pending held)
      (KeyInv pending held) := by
  refine Prog.triple_inv.2 fun w h => put_keyInv h (by simp [Key.kind]) ?_ ?_
  · intro u p c hk
    cases hk
  · intro l a _ hv
    cases hv
    exact hp

theorem newAcctPath_keyStep (mask : Option SecretKey) (label : String) :
    Prog.Keeps KeyStep (newAcctPath W mask label) := by
  apply keyStep_of_triple
  intro pending held
  refine Prog.Triple.bind (R := fun l w => KeyInv pending held w ∧
    ∀ a ∈ l, IsAccountPath a.path) (acctPathIter_reads.triple (fun w l h hl => ?_) fun _ h => h)
    fun l => .of_and fun hl => ?_
  · cases hl
    exact ⟨h, h.accounts⟩
  split
  · exact .throw fun _ h => h
  · refine Prog.Triple.bind (R := fun id w => KeyInv pending held w ∧ IsAccountPath id) ?_
      fun id => .of_and fun hid => (reads_keyInv (batch_reads W mask)).bind fun _ =>
        (saveAcctPath_triple hid).bind fun _ => .pure fun _ h => h
    split
    · next e he =>
      refine (reads_keyInv (addU32_reads _ _)).bind fun p0 => .pure fun w h => ⟨h, ?_⟩
      exact isAccountPath_of_p0 (hl e (highestEntry_mem he)) p0
    · exact .pure fun w h => ⟨h, by decide, rfl⟩

theorem setAcctPath_triple {mask : Option SecretKey} {label : String} {path : Identifier}
    (hp : IsAccountPath path) :
    Prog.Triple (KeyInv pending held) (setAcctPath W mask label path) (fun _ => KeyInv pending held)
      (KeyInv pending held) :=
  (reads_keyInv (batch_reads W mask)).bind fun _ => (saveAcctPath_triple hp).bind fun _ =>
    .pure fun _ h => h

end Keys

/-! ## Refreshing -/

namespace Updater

variable (W : World)

theorem confirmOutput_keyStep (parent : Identifier) (height onChain : Nat) (commit : Commitment)
    (output : OutputData) :
    Prog.Keeps KeyStep (confirmOutput W parent height onChain commit output) :=
  confirmOutput_keeps keyStep_frees W (by decide) (by decide) _ _ _ _ _

theorem markUnspent_keyId (o : OutputData) : o.markUnspent.keyId = o.keyId := by
  unfold OutputData.markUnspent
  split <;> rfl

theorem markUnspent_nChild (o : OutputData) : o.markUnspent.nChild = o.nChild := by
  unfold OutputData.markUnspent
  split <;> rfl

theorem markSpent_keyId (o : OutputData) : o.markSpent.keyId = o.keyId := by
  unfold OutputData.markSpent
  split <;> rfl

theorem markSpent_nChild (o : OutputData) : o.markSpent.nChild = o.nChild := by
  unfold OutputData.markSpent
  split <;> rfl

/-- Confirming an output leaves its key as it is. -/
theorem confirmOutput_key {parent : Identifier} {height onChain : Nat} {commit : Commitment}
    {o o' : OutputData} {w w' : Wallet}
    (h : confirmOutput W parent height onChain commit o w = (.ok o', w')) :
    o'.keyId = o.keyId ∧ o'.nChild = o.nChild := by
  obtain ⟨o₁, w₁, h₁, h⟩ := Prog.bind_ok.1 h
  obtain ⟨_, w₂, -, h⟩ := Prog.bind_ok.1 h
  cases h
  have hkey : o₁.keyId = o.keyId ∧ o₁.nChild = o.nChild := by
    split at h₁
    · iterate 6 obtain ⟨_, _, -, h₁⟩ := Prog.bind_ok.1 h₁
      cases h₁
      exact ⟨rfl, rfl⟩
    · cases h₁
      exact ⟨rfl, rfl⟩
  rw [markUnspent_keyId, markUnspent_nChild]
  exact hkey

theorem applyApiOutput_keyStep (api : List (Commitment × String × Nat × Nat)) (height : Nat)
    (parent : Identifier) (row : Commitment × Identifier × Option Nat) :
    Prog.Keeps KeyStep (applyApiOutput W api height parent row) := by
  apply keyStep_of_triple
  intro pending held
  refine Prog.Triple.bind (R := fun r w => KeyInv pending held w ∧
    ∀ o, r = .ok o → InHand pending held o w) ?_ fun r => ?_
  · refine (getOutput_triple _ _).attempt (fun o w h => ⟨h.inv, ?_⟩) fun e w h => ⟨h, ?_⟩
    · rintro _ hr
      cases hr
      exact h
    · rintro _ hr
      cases hr
  split
  · exact .pure fun _ h => h.1
  next output =>
  refine Prog.Triple.mono (P := InHand pending held output) ?_ (fun w h => h.2 _ rfl)
    (fun _ _ h => h) fun _ h => h
  refine Prog.Triple.bind (R := fun o w => InHand pending held output w ∧
    (o.keyId = output.keyId ∧ o.nChild = output.nChild)) ?_ fun o => .of_and fun ho => ?_
  · split
    · apply Prog.Triple.intro
      · intro w o w' h hrun
        exact ⟨(keeps_inHand (confirmOutput_keyStep W _ _ _ _ _)).ok h hrun, confirmOutput_key W hrun⟩
      · intro w e w' h hrun
        exact (keeps_inHand (confirmOutput_keyStep W _ _ _ _ _)).error h hrun
    · exact .pure fun w h => ⟨h, markSpent_keyId _, markSpent_nChild _⟩
  · exact save_inHand ho.1 ho.2

theorem refreshOutputs_keyStep (mask : Option SecretKey) (parent : Identifier) :
    Prog.Keeps KeyStep (refreshOutputs W mask parent) := by
  refine (getNodeStatus_keeps keyStep_frees W).bind fun _ => .ite (fun _ => .throw _) fun _ =>
    (getChainTip_keeps keyStep_frees W).bind fun tip => (mapWalletOutputs_reads W _ _).keeps.bind
      fun _ => ?_
  refine keyStep_frees.nextTick.bind fun _ => (Prog.Keeps.ofExcept _).bind fun _ =>
    Prog.Keeps.bind ?_ fun _ => ?_
  · refine lastConfirmedHeight_reads.keeps.bind fun _ => .ite (fun _ => .pure _) fun _ => ?_
    refine (batch_reads W mask).keeps.bind fun _ => keyStep_frees.nextTick.bind fun _ => ?_
    refine Prog.Keeps.bind (Prog.Keeps.forEach _ fun _ _ => applyApiOutput_keyStep W _ _ _ _)
      fun _ => ?_
    exact (Batch.saveLastConfirmedHeight_keeps keyStep_frees (by decide) _ _).bind fun _ => .pure _
  · refine .ite (fun _ => .pure _) fun _ => iter_reads.keeps.bind fun _ =>
      (batch_reads W mask).keeps.bind fun _ => Prog.Keeps.bind ?_ fun _ => .pure _
    exact Prog.Keeps.forEach _ fun _ _ => delete_keyStep _ _ _

theorem receiveReward_keyStep (mask : Option SecretKey) (fees : BlockFees) (amount : Nat)
    (build : Keychain → Identifier → Except Error (Output × TxKernel)) :
    Prog.Keeps KeyStep (receiveReward W mask fees amount build) := by
  apply keyStep_of_triple
  intro pending held
  refine (reads_keyInv (addU64_reads _ _)).bind fun _ => (reads_keyInv parentKeyId_reads).bind
    fun _ => Prog.Triple.bind (R := fun id => KeyInv pending (id :: held)) ?_ fun id => ?_
  · unfold rewardKey
    split
    · refine Prog.Triple.bind (R := fun r w => KeyInv pending held w ∧
        ∀ k, r = .ok k → KeyInv pending (k.1 :: held) w) ?_ fun r => ?_
      · refine Prog.Triple.attempt (Q := fun k => KeyInv pending (k.1 :: held))
          ((getOutput_triple _ _).bind fun o => .pure fun w h => h.1)
          (fun k w h => ⟨h.drop fun _ hm => List.mem_cons_of_mem _ hm, ?_⟩) fun e w h => ⟨h, ?_⟩
        · rintro _ hr
          cases hr
          exact h
        · rintro _ hr
          cases hr
      · split
        · exact .pure fun w h => h.2 _ rfl
        · exact (nextChild_triple W mask).mono (fun _ h => h.1) (fun _ _ h => h) fun _ h => h
    · exact nextChild_triple W mask
  · refine Prog.Triple.mono (Q := fun _ => KeyInv pending (id :: held))
      (E := KeyInv pending (id :: held)) ?_ (fun _ h => h)
      (fun _ w h => h.drop fun _ hm => List.mem_cons_of_mem _ hm)
      fun w h => h.drop fun _ hm => List.mem_cons_of_mem _ hm
    refine (reads_keyInv (calcCommitForCache_reads W _ _ _)).bind fun _ =>
      (reads_keyInv (batch_reads W mask)).bind fun _ =>
        Prog.Triple.bind (R := fun _ => KeyInv pending (id :: held))
          (save_held rfl List.mem_cons_self) fun _ => Prog.Triple.bind
            (R := fun _ => KeyInv pending (id :: held)) (.pure fun _ h => h) fun _ =>
              (reads_keyInv (keychain_reads W mask)).bind fun _ =>
                (reads_keyInv (Prog.Keeps.ofExcept _)).bind fun _ => .pure fun _ h => h

/-! ## Rolling back -/

/-- The outputs are in hand. -/
def AllInHand (pending : Identifier → Prop) (held : List Identifier) (l : List OutputData)
    (w : Wallet) : Prop :=
  KeyInv pending (l.map (·.keyId) ++ held) w ∧ ∀ o ∈ l, o.nChild = o.keyId.lastPathIndex

theorem AllInHand.inHand {l : List OutputData} {w : Wallet} (h : AllInHand pending held l w)
    {o : OutputData} (ho : o ∈ l) : InHand pending (l.map (·.keyId) ++ held) o w := by
  refine ⟨{ h.1 with held := fun id hid => ?_ }, h.2 o ho⟩
  rcases List.mem_cons.1 hid with rfl | hid
  · exact h.1.held _ (List.mem_append_left _ (List.mem_map_of_mem ho))
  · exact h.1.held id hid

theorem retrieveOutputs_triple (mask : Option SecretKey) (showSpent : Bool) (txId : Option Nat)
    (parent : Option Identifier) :
    Prog.Triple (KeyInv pending held) (retrieveOutputs W mask showSpent false txId parent none none
      none) (fun r => AllInHand pending held (r.2.2.map Prod.fst)) (KeyInv pending held) := by
  refine (retrieveOutputs_reads W _ _ _ _ _ _ _ _).triple (fun w r h hrun => ?_) fun _ h => h
  have hmem : ∀ o ∈ r.2.2.map Prod.fst, o ∈ outputsOf w.db := fun o ho =>
    (mem_selectedOutputs.1 ((retrieveOutputs_ok W hrun o).1 ho)).1
  refine ⟨{ h with held := fun id hid => ?_ }, fun o ho => (h.outputs o (hmem o ho)).1⟩
  rcases List.mem_append.1 hid with hid | hid
  · obtain ⟨o, ho, rfl⟩ := List.mem_map.1 hid
    exact (h.outputs o (hmem o ho)).2
  · exact h.held id hid

theorem cancelTxAndOutputs_triple {mask : Option SecretKey} {tx : TxLogEntry}
    {outputs : List OutputData} {parent : Identifier} :
    Prog.Triple (AllInHand pending held outputs) (cancelTxAndOutputs W mask tx outputs parent)
      (fun _ => KeyInv pending held) (KeyInv pending held) := by
  refine Prog.Triple.mono (P := fun w => KeyInv pending (outputs.map (·.keyId) ++ held) w ∧
      ∀ o ∈ outputs, o.nChild = o.keyId.lastPathIndex)
    (Q := fun _ => KeyInv pending (outputs.map (·.keyId) ++ held))
    (E := KeyInv pending (outputs.map (·.keyId) ++ held)) (.of_and fun hn => ?_) (fun _ h => h)
    (fun _ => drop_append) drop_append
  refine (reads_keyInv (batch_reads W mask)).bind fun _ => Prog.Triple.bind ?_ fun _ =>
    (keeps_keyInv (Batch.saveTxLogEntry_keeps keyStep_frees (by decide) _ _)).bind fun _ =>
      .pure fun _ h => h
  refine Prog.Triple.forEach fun o ho => Prog.Triple.bind
    (R := fun _ => KeyInv pending (outputs.map (·.keyId) ++ held)) ?_ fun _ => ?_
  · exact .ite (fun _ => keeps_keyInv (delete_keyStep _ _ _)) fun _ => .pure fun _ h => h
  · have hmem : o.keyId ∈ outputs.map (·.keyId) ++ held :=
      List.mem_append_left _ (List.mem_map_of_mem ho)
    exact .ite (fun _ => save_held (o := { o with status := .unspent }) (hn o ho) hmem) fun _ =>
      .pure fun _ h => h

end Updater

/-! ## Building transactions -/

namespace Tx

variable (W : World)

theorem cancelTx_keyStep (mask : Option SecretKey) (parent : Identifier) (txId : Option Nat)
    (txSlateId : Option Uuid) : Prog.Keeps KeyStep (cancelTx W mask parent txId txSlateId) := by
  apply keyStep_of_triple
  intro pending held
  refine (reads_keyInv (Updater.retrieveTxs_reads _ _ _ _ _ _ _)).bind fun r => ?_
  split
  · refine .ite (fun _ => .throw fun _ h => h) fun _ => .ite (fun _ => .throw fun _ h => h) fun _ => ?_
    exact (Updater.retrieveOutputs_triple W _ _ _ _).bind fun _ =>
      Updater.cancelTxAndOutputs_triple W
  · exact .throw fun _ h => h

theorem fillRounds_triple {l : List Identifier} (slate : Slate) (k : Keychain)
    (mask : Option SecretKey) (context : Context) (participantId signer : Nat)
    (message : Option String) (isInitiator : Bool) (hl : context.outputIds.map Prod.fst = l) :
    Prog.Triple (KeyInv pending (l ++ held)) (slate.fillRound1 W k context.secKey context.secNonce
      participantId message >>= fun r =>
        if isInitiator then pure (r.1, { context with secKey := r.2 })
        else keychain W mask >>= fun _ =>
          r.1.fillRound2 W r.2 context.secNonce signer >>= fun s =>
            pure (s, { context with secKey := r.2 }))
      (fun r => KeyInv pending (r.2.outputIds.map Prod.fst ++ held)) (KeyInv pending held) := by
  subst hl
  have hk := fillRounds_keeps keyStep_frees W slate k mask context participantId signer message
    isInitiator
  apply Prog.Triple.intro
  · intro w r w' h hrun
    have hctx : r.2.outputIds = context.outputIds := by
      obtain ⟨_, _, _, h₁⟩ := Prog.bind_ok.1 hrun
      split at h₁
      · cases h₁
        rfl
      · obtain ⟨_, _, _, h₂⟩ := Prog.bind_ok.1 h₁
        obtain ⟨_, _, _, h₃⟩ := Prog.bind_ok.1 h₂
        cases h₃
        rfl
    rw [hctx]
    exact hk.rel hrun _ _ h
  · intro w e w' h hrun
    exact drop_append _ (hk.rel hrun _ _ h)

theorem addInputsToSlate_triple (mask : Option SecretKey) (slate : Slate)
    (minimumConfirmations maxOutputs numChangeOutputs : Nat) (selectAll : Bool)
    (parent : Identifier) (participantId : Nat) (message : Option String) (isInitiator : Bool) :
    Prog.Triple (KeyInv pending held) (addInputsToSlate W mask slate minimumConfirmations maxOutputs
      numChangeOutputs selectAll parent participantId message isInitiator)
      (fun r => KeyInv pending (r.2.outputIds.map Prod.fst ++ held)) (KeyInv pending held) := by
  refine (keeps_keyInv (Updater.refreshOutputs_keyStep W _ _)).bind fun _ =>
    (reads_keyInv (keychain_reads W mask)).bind fun k =>
      (Selection.buildSendTx_triple W _ _ _ _ _ _ _ _).bind fun r => ?_
  refine ((reads_keyInv (keychain_reads W mask)).mono (fun _ h => h) (fun _ _ h => h)
    drop_append).bind fun k => ?_
  exact fillRounds_triple W _ _ _ _ _ _ _ _ rfl

theorem addOutputToSlate_triple (mask : Option SecretKey) (slate : Slate) (parent : Identifier)
    (participantId : Nat) (message : Option String) (isInitiator : Bool) :
    Prog.Triple (KeyInv pending held) (addOutputToSlate W mask slate parent participantId message
      isInitiator)
      (fun r => KeyInv pending (r.2.outputIds.map Prod.fst ++ held)) (KeyInv pending held) := by
  refine (Selection.buildRecipientOutput_triple W _ _ _).bind fun r => ?_
  refine ((reads_keyInv (keychain_reads W mask)).mono (fun _ h => h) (fun _ _ h => h)
    drop_append).bind fun k => ?_
  exact fillRounds_triple W _ _ _ _ _ _ _ _ rfl

end Tx

/-! ## The operations -/

namespace Owner

variable (W : World)

theorem savePrivateContext_triple {b : Batch} {slateId : Uuid} {participantId : Nat}
    {context : Context} (hout : ∀ out ∈ context.outputIds, out.1 ∈ held) :
    Prog.Triple (KeyInv pending held) (b.savePrivateContext W slateId participantId context)
      (fun _ => KeyInv pending held) (KeyInv pending held) := by
  refine (reads_keyInv (Prog.Keeps.unwrap _)).bind fun _ => (reads_keyInv (Prog.Keeps.ofExcept _)).bind
    fun _ => Prog.triple_inv.2 fun w h => put_keyInv h (by simp [Key.kind]) ?_ ?_
  · intro u p c _ hv
    cases hv
    exact hout
  · intro l a hk
    cases hk

/-- A context whose outputs are in hand may be saved. -/
theorem saveContext_triple {mask : Option SecretKey} {slateId : Uuid} {participantId : Nat}
    {context : Context} :
    Prog.Triple (KeyInv pending (context.outputIds.map Prod.fst ++ held))
      (saveContext W mask slateId participantId context) (fun _ => KeyInv pending held)
      (KeyInv pending held) := by
  have hout : ∀ out ∈ context.outputIds, out.1 ∈ context.outputIds.map Prod.fst ++ held :=
    fun out hm => List.mem_append_left _ (List.mem_map_of_mem hm)
  refine Prog.Triple.mono (Q := fun _ => KeyInv pending (context.outputIds.map Prod.fst ++ held))
    (E := KeyInv pending (context.outputIds.map Prod.fst ++ held)) ?_ (fun _ h => h)
    (fun _ => drop_append) drop_append
  exact (reads_keyInv (batch_reads W mask)).bind fun _ => (savePrivateContext_triple W hout).bind
    fun _ => .pure fun _ h => h

theorem deleteContext_keyStep (mask : Option SecretKey) (slateId : Uuid) (participantId : Nat) :
    Prog.Keeps KeyStep (deleteContext W mask slateId participantId) := by
  refine (batch_reads W mask).keeps.bind fun _ => Prog.Keeps.bind ?_ fun _ => .pure _
  exact fun w pending held h => deleteRow_keyInv h (by simp [Key.kind])

theorem addProofInfo_triple {mask : Option SecretKey} {parent : Identifier}
    {recipient : Option DalekPublicKey} {slate : Slate} {context : Context} :
    Prog.Triple (KeyInv pending (context.outputIds.map Prod.fst ++ held))
      (addProofInfo W mask parent recipient slate context)
      (fun r => KeyInv pending (r.2.outputIds.map Prod.fst ++ held)) (KeyInv pending held) := by
  unfold addProofInfo
  split
  · exact .pure fun _ h => h
  · refine ((reads_keyInv (keychain_reads W mask)).mono (fun _ h => h) (fun _ _ h => h)
      drop_append).bind fun k => ?_
    refine ((reads_keyInv (Selection.addressFromDerivationPath_reads W _ _ _)).mono (fun _ h => h)
      (fun _ _ h => h) drop_append).bind fun _ => .pure fun _ h => h

theorem initSendTx_keyStep (mask : Option SecretKey) (args : InitTxArgs) :
    Prog.Keeps KeyStep (initSendTx W mask args) := by
  apply keyStep_of_triple
  intro pending held
  refine (reads_keyInv (accountNamed_reads _)).bind fun parent =>
    (reads_keyInv (truncateMessage_reads _)).bind fun message =>
      (keeps_keyInv (Tx.newTxSlate_keeps keyStep_frees W _ _ _)).bind fun slate => ?_
  refine .ite (fun _ => ?_) fun _ => ?_
  · refine Prog.Triple.bind (R := fun _ => KeyInv pending held) (keeps_keyInv ?_) fun _ =>
      .pure fun _ h => h
    refine (Updater.getChainTip_keeps keyStep_frees W).bind fun _ =>
      (Updater.refreshOutputs_keyStep W _ _).bind fun _ => ?_
    exact (Selection.selectCoinsAndFee_reads W _ _ _ _ _ _ _).keeps.bind fun _ => .pure _
  · refine (Tx.addInputsToSlate_triple W _ _ _ _ _ _ _ _ _ _).bind fun r =>
      (addProofInfo_triple W).bind fun r => (saveContext_triple W).bind fun _ => .pure fun _ h => h

theorem issueInvoiceTx_keyStep (mask : Option SecretKey) (args : IssueInvoiceTxArgs) :
    Prog.Keeps KeyStep (issueInvoiceTx W mask args) := by
  apply keyStep_of_triple
  intro pending held
  refine (reads_keyInv (accountNamed_reads _)).bind fun parent =>
    (reads_keyInv (truncateMessage_reads _)).bind fun message =>
      (keeps_keyInv (Tx.newTxSlate_keeps keyStep_frees W _ _ _)).bind fun slate => ?_
  exact (Tx.addOutputToSlate_triple W _ _ _ _ _ _).bind fun r => (saveContext_triple W).bind fun _ =>
    .pure fun _ h => h

theorem processInvoiceTx_keyStep (mask : Option SecretKey) (slate : Slate) (args : InitTxArgs) :
    Prog.Keeps KeyStep (processInvoiceTx W mask slate args) := by
  apply keyStep_of_triple
  intro pending held
  refine (reads_keyInv (checkTtl_reads _)).bind fun _ => (reads_keyInv (accountNamed_reads _)).bind
    fun parent => (reads_keyInv (Updater.retrieveTxs_reads _ _ _ _ _ _ _)).bind fun tx => ?_
  refine .ite (fun _ => .throw fun _ h => h) fun _ => ?_
  refine (reads_keyInv (truncateMessage_reads _)).bind fun message =>
    (keeps_keyInv (Updater.getChainTip_keeps keyStep_frees W)).bind fun tip =>
      Prog.Triple.bind (R := fun _ => KeyInv pending held) (reads_keyInv ?_) fun slate => ?_
  · unfold updateHeights
    split
    · exact (addU64_reads _ _).bind fun _ => .pure _
    · exact .pure _
  · exact (Tx.addInputsToSlate_triple W _ _ _ _ _ _ _ _ _ _).bind fun r =>
      (saveContext_triple W).bind fun _ => .pure fun _ h => h

theorem getPrivateContext_triple (mask : Option SecretKey) (slateId : Uuid) (participantId : Nat) :
    Prog.Triple (KeyInv pending held) (getPrivateContext W mask slateId participantId)
      (fun c => KeyInv pending (c.outputIds.map Prod.fst ++ held)) (KeyInv pending held) := by
  refine (getPrivateContext_reads W _ _ _).triple (fun w c h hrun => ?_) fun _ h => h
  obtain ⟨-, stored, keys, hg, rfl⟩ := getPrivateContext_ok W hrun
  refine { h with held := fun id hid => ?_ }
  rcases List.mem_append.1 hid with hid | hid
  · obtain ⟨out, hout, rfl⟩ := List.mem_map.1 hid
    exact h.contexts _ _ _ hg out hout
  · exact h.held id hid

theorem txLockOutputs_keyStep (mask : Option SecretKey) (slate : Slate) (participantId : Nat)
    (addrTo : Option String) :
    Prog.Keeps KeyStep (txLockOutputs W mask slate participantId addrTo) := by
  apply keyStep_of_triple
  intro pending held
  refine (getPrivateContext_triple W mask _ _).bind fun context => ?_
  have hout : ∀ out ∈ context.outputIds, out.1 ∈ context.outputIds.map Prod.fst ++ held :=
    fun out hm => List.mem_append_left _ (List.mem_map_of_mem hm)
  exact (Selection.lockTxContext_triple W hout).mono (fun _ h => h) (fun _ => drop_append) drop_append

theorem finalizeTx_keyStep (mask : Option SecretKey) (slate : Slate) :
    Prog.Keeps KeyStep (finalizeTx W mask slate) :=
  (checkTtl_reads _).keeps.bind fun _ => (getPrivateContext_reads W _ _ _).keeps.bind fun _ =>
    parentKeyId_reads.keeps.bind fun _ =>
      ((Tx.completeTx_aside W _ _ _ _).mono keyStep_frees.aside).bind fun _ =>
        (Tx.verifySlatePaymentProof_reads W _ _ _ _).keeps.bind fun _ =>
          (Tx.updateStoredTx_keeps keyStep_frees W (by decide) _ _ _ _).bind fun _ =>
            (Tx.updateEntries_keeps keyStep_frees W (by decide) _ _ _ _).bind fun _ =>
              (deleteContext_keyStep W _ _ _).bind fun _ => .pure _

theorem waitForTxInMempool_keyStep (mask : Option SecretKey) (txSlateId : Uuid) :
    ∀ attempts : Nat, Prog.Keeps KeyStep (waitForTxInMempool W mask txSlateId attempts)
  | 0 => .pure _
  | attempts + 1 => by
    refine (walletLock_keyStep W).bind fun _ => keyStep_frees.nextTick.bind fun _ =>
      (Prog.Keeps.ofExcept _).bind fun _ => (walletLock_keyStep W).bind fun _ =>
        txLogIter_reads.keeps.bind fun txs => Prog.Keeps.bind (Prog.Keeps.forEach _ fun _ _ => ?_)
          fun _ => .ite (fun _ => waitForTxInMempool_keyStep mask txSlateId attempts) fun _ => .pure _
    exact (walletLock_keyStep W).bind fun _ => parentKeyId_reads.keeps.bind fun _ =>
      (batch_reads W mask).keeps.bind fun _ =>
        (Batch.saveTxLogEntry_keeps keyStep_frees (by decide) _ _).bind fun _ => .pure _

theorem updateOutputs_keyStep (mask : Option SecretKey) :
    Prog.Keeps KeyStep (updateOutputs W mask) := by
  refine (walletLock_keyStep W).bind fun _ => parentKeyId_reads.keeps.bind fun _ => ?_
  refine (Updater.refreshOutputs_keyStep W _ _).attempt.bind fun r => ?_
  split
  · exact .pure _
  · exact .throw _
  · exact .pure _

theorem cancelExpired_keyStep (mask : Option SecretKey) (tip : Nat) (tx : TxLogEntry) :
    Prog.Keeps KeyStep (cancelExpired W mask tip tx) := by
  unfold cancelExpired
  split
  · exact .pure _
  · refine .ite (fun _ => ?_) fun _ => .pure _
    exact (walletLock_keyStep W).bind fun _ => parentKeyId_reads.keeps.bind fun _ =>
      Tx.cancelTx_keyStep W _ _ _ _

end Owner

namespace Foreign

variable (W : World)

theorem receiveTx_keyStep (mask : Option SecretKey) (slate : Slate) (destAcctName : Option String)
    (message addrFrom : Option String) :
    Prog.Keeps KeyStep (receiveTx W mask slate destAcctName message addrFrom) := by
  apply keyStep_of_triple
  intro pending held
  refine (reads_keyInv (checkTtl_reads _)).bind fun _ => (reads_keyInv (accountNamed_reads _)).bind
    fun parent => (reads_keyInv (Updater.retrieveTxs_reads _ _ _ _ _ _ _)).bind fun tx => ?_
  refine .ite (fun _ => .throw fun _ h => h) fun _ => ?_
  refine (reads_keyInv (truncateMessage_reads _)).bind fun message =>
    ((Tx.addOutputToSlate_triple W _ _ _ _ _ _).mono (fun _ h => h) (fun _ => drop_append)
      fun _ h => h).bind fun r => ?_
  refine (keeps_keyInv (Tx.updateEntries_keeps keyStep_frees W (by decide) _ _ _ _)).bind fun _ =>
    (keeps_keyInv (Tx.updateEntries_keeps keyStep_frees W (by decide) _ _ _ _)).bind fun _ => ?_
  exact (reads_keyInv (keychain_reads W mask)).bind fun _ => (reads_keyInv (Prog.Keeps.ofExcept _)).bind
    fun _ => reads_keyInv (signProof_reads W _ _ _ _)

theorem finalizeInvoiceTx_keyStep (mask : Option SecretKey) (slate : Slate) :
    Prog.Keeps KeyStep (finalizeInvoiceTx W mask slate) :=
  (checkTtl_reads _).keeps.bind fun _ => (getPrivateContext_reads W _ _ _).keeps.bind fun _ =>
    ((Tx.completeTx_aside W _ _ _ _).mono keyStep_frees.aside).bind fun _ =>
      (Tx.updateStoredTx_keeps keyStep_frees W (by decide) _ _ _ _).bind fun _ =>
        (Tx.updateEntries_keeps keyStep_frees W (by decide) _ _ _ _).bind fun _ =>
          (Owner.deleteContext_keyStep W _ _ _).bind fun _ => .pure _

end Foreign

end

end EpicWallet
