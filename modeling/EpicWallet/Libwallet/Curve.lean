import Mathlib.Data.ZMod.Basic
import Mathlib.Algebra.Module.Prod
import EpicWallet.Lib.Schnorr
import EpicWallet.Libwallet.Slate

/-!
# The curve behind the libraries

What the wallet relies on of the keychain, the curve library and the transaction library, over any
ring `F` of scalars and any module `E` over it. A secret key, a blinding factor or a nonce stands for a
scalar, a public key or a commitment for a point, and each operation is the one of the module: a
commitment to `v` under the blinding factor `b` is `v • h + b • g`, a signature is right if it
verifies (`Lib.Schnorr`). The results here ask nothing of the generators `g` and `h`; that they are
independent is what makes a commitment binding.
-/

namespace EpicWallet

open Lib

/-- The scalars and points the library's values stand for. -/
structure Curve (F E : Type) [CommRing F] [AddCommGroup E] [Module F E] where
  /-- The generator of the blinding factors, and of the public keys. -/
  g : E
  /-- The generator of the values. -/
  h : E
  scalar : Nat → F
  point : PublicKey → E
  commitPoint : Commitment → E
  sigNonce : Signature → E
  sigScalar : Signature → F
  /-- The challenge: a hash of the sum of the nonces, the sum of the keys and the message. -/
  challenge : E → E → Message → F
  kernelMsg : KernelFeatures → Message
  txFee : Nat → Nat → Nat → Nat
  /-- What the chain asks of inputs and outputs besides their sum: weight, order and range proofs. -/
  standard : List Input → List Output → Prop

namespace Curve

variable {F E : Type} [CommRing F] [AddCommGroup E] [Module F E] (C : Curve F E)

def secret (k : SecretKey) : F := C.scalar k.raw

def blind (b : BlindingFactor) : F := C.scalar b.raw

/-- The outputs less the inputs. -/
def net (tx : Transaction) : E :=
  (tx.outputs.map fun o => C.commitPoint o.commit).sum -
    (tx.inputs.map fun i => C.commitPoint i.commit).sum

/-- `sig` is right for the nonce and the key of one party, in a signature under the given sums. -/
def Signs (sig : Signature) (nonceSum keySum : E) (m : Message) (key : E) : Prop :=
  Schnorr.Verifies C.g (C.challenge nonceSum keySum m) (C.sigNonce sig) key (C.sigScalar sig)

end Curve

/-- The value an element adds to a transaction. -/
def Append.value : Append → Int
  | .input v _ => -v
  | .coinbaseInput v _ => -v
  | .output v _ => v

/-- The value some elements add. -/
def netValue (elems : List Append) : Int := (elems.map Append.value).sum

/-- The libraries compute in the module. -/
structure World.Obeys {F E : Type} [CommRing F] [AddCommGroup E] [Module F E] (W : World)
    (C : Curve F E) : Prop where
  scalar_zero : C.scalar 0 = 0
  newSecretKey : ∀ t, W.newSecretKey t ≠ ⟨0⟩
  -- keys
  blindSum : ∀ k pos neg b, W.blindSum k pos neg = .ok b →
    C.blind b = (pos.map C.blind).sum - (neg.map C.blind).sum
  secretKey : ∀ b, ∃ k, W.secretKey b = .ok k ∧ C.secret k = C.blind b
  publicKey : ∀ k p, W.publicKey k = .ok p → C.point p = C.secret k • C.g
  fromCombination : ∀ l, ∃ p, W.fromCombination l = .ok p ∧ C.point p = (l.map C.point).sum
  -- signatures
  calculatePartialSig : ∀ k n R P m, ∃ sig, W.calculatePartialSig k n R P m = .ok sig ∧
    C.sigNonce sig = C.secret n • C.g ∧
    C.sigScalar sig = C.secret n + C.challenge (C.point R) (C.point P) m * C.secret k
  verifyPartialSig : ∀ sig R p P m, C.Signs sig (C.point R) (C.point P) m (C.point p) →
    W.verifyPartialSig sig R p P m = .ok ()
  addSignatures : ∀ l R, ∃ sig, W.addSignatures l R = .ok sig ∧ C.sigNonce sig = C.point R ∧
    C.sigScalar sig = (l.map C.sigScalar).sum
  verifyCompletedSig : ∀ sig P m, C.Signs sig (C.sigNonce sig) (C.point P) m (C.point P) →
    W.verifyCompletedSig sig P m = .ok ()
  -- kernels
  kernelSigMsg : ∀ f, W.kernelSigMsg f = .ok (C.kernelMsg f)
  emptyKernel : ∀ f, (W.emptyKernel f).features = f
  verifyKernel : ∀ k : TxKernel, C.Signs k.excessSig (C.sigNonce k.excessSig)
    (C.commitPoint k.excess) (C.kernelMsg k.features) (C.commitPoint k.excess) →
    W.verifyKernel k = .ok ()
  -- transactions
  txFee : W.txFee = C.txFee
  txFee_lt : ∀ i o k, W.txFee i o k < 2 ^ 63
  totalFee : ∀ tx, W.totalFee tx = (tx.kernels.map fun k => World.featuresFee k.features).sum
  partialTransaction : ∀ tx elems k tx' b, W.partialTransaction tx elems k = .ok (tx', b) →
    tx'.offset = tx.offset ∧ tx'.kernels = tx.kernels ∧
      C.net tx' = C.net tx + ((netValue elems : Int) : F) • C.h + C.blind b • C.g
  sumCommitments : ∀ tx v, ∃ c, W.sumCommitments tx v = .ok c ∧
    C.commitPoint c = C.net tx + (v : F) • C.h
  commitBlind : ∀ v k, ∃ c, W.commitBlind v k = .ok c ∧
    C.commitPoint c = (v : F) • C.h + C.secret k • C.g
  commitSum : ∀ pos neg, ∃ c, W.commitSum pos neg = .ok c ∧
    C.commitPoint c = (pos.map C.commitPoint).sum - (neg.map C.commitPoint).sum
  validate : ∀ tx, C.standard tx.inputs tx.outputs → (∀ k ∈ tx.kernels, W.verifyKernel k = .ok ()) →
    C.net tx + (W.totalFee tx : F) • C.h =
      (tx.kernels.map fun k => C.commitPoint k.excess).sum + C.blind tx.offset • C.g →
    W.validate tx = .ok ()

/-! ## A small curve

Scalars modulo 101 and pairs of them as points, packed into the numbers that the library's values
are here. -/

namespace Modular

abbrev Scalar := ZMod 101

abbrev Point := Scalar × Scalar

def pack (p : Point) : Nat := p.1.val + 101 * p.2.val

def unpack (n : Nat) : Point := ((n : Scalar), ((n / 101 : Nat) : Scalar))

def packSig (p : Point) (s : Scalar) : Nat := pack p + 101 * 101 * s.val

theorem pack_lt (p : Point) : pack p < 101 * 101 := by
  have h₁ := ZMod.val_lt p.1
  have h₂ := ZMod.val_lt p.2
  unfold pack
  omega

@[simp] theorem unpack_pack (p : Point) : unpack (pack p) = p := by
  have hmod : (101 : Scalar) = 0 := rfl
  have hdiv : (p.1.val + 101 * p.2.val) / 101 = p.2.val := by
    have := ZMod.val_lt p.1
    omega
  unfold unpack pack
  rw [hdiv]
  simp [hmod]

theorem packSig_mod (p : Point) (s : Scalar) : packSig p s % (101 * 101) = pack p := by
  rw [packSig, Nat.add_mul_mod_self_left, Nat.mod_eq_of_lt (pack_lt p)]

theorem packSig_div (p : Point) (s : Scalar) : packSig p s / (101 * 101) = s.val := by
  rw [packSig, Nat.add_mul_div_left _ _ (by decide), Nat.div_eq_of_lt (pack_lt p), Nat.zero_add]

def curve : Curve Scalar Point where
  g := (1, 0)
  h := (0, 1)
  scalar n := n
  point p := unpack p.raw
  commitPoint c := unpack c.raw
  sigNonce sig := unpack (sig.raw % (101 * 101))
  sigScalar sig := ((sig.raw / (101 * 101) : Nat) : Scalar)
  challenge nonce key m := nonce.1 + 2 * key.1 + key.2 + m.raw + 1
  kernelMsg f := ⟨World.featuresFee f⟩
  txFee i o k := min (max 1 (4 * o + k - i)) 1000
  standard i o := i.length + 4 * o.length ≤ 500

theorem blind_val (x : Scalar) : curve.blind ⟨x.val⟩ = x := ZMod.natCast_zmod_val x

instance (sig : Signature) (R P : Point) (m : Message) (p : Point) : Decidable (curve.Signs sig R P m p) :=
  inferInstanceAs (Decidable (_ = _))

/-- The library call that checks `c`. -/
def check (c : Prop) [Decidable c] : Except Error Unit := if c then .ok () else .error (.secp 0)

theorem check_ok {c : Prop} [Decidable c] (h : c) : check c = .ok () := if_pos h

/-- A commitment under the key of a path. -/
def commitPoint (k : Keychain) (v : Nat) (id : Identifier) : Point :=
  (v : Scalar) • curve.h + (k.raw + World.pathNumber id : Scalar) • curve.g

/-- One element added to a transaction and to the sum of the blinding factors. -/
def append (k : Keychain) (r : Transaction × Scalar) : Append → Transaction × Scalar
  | .input v id => ({ r.1 with inputs := r.1.inputs ++ [⟨false, ⟨pack (commitPoint k v id)⟩⟩] },
      r.2 - (k.raw + World.pathNumber id))
  | .coinbaseInput v id => ({ r.1 with inputs := r.1.inputs ++ [⟨true, ⟨pack (commitPoint k v id)⟩⟩] },
      r.2 - (k.raw + World.pathNumber id))
  | .output v id =>
    ({ r.1 with outputs := r.1.outputs ++ [⟨false, ⟨pack (commitPoint k v id)⟩, ⟨0⟩⟩] },
      r.2 + (k.raw + World.pathNumber id))

def kernelOk (k : TxKernel) : Prop :=
  curve.Signs k.excessSig (curve.sigNonce k.excessSig) (curve.commitPoint k.excess)
    (curve.kernelMsg k.features) (curve.commitPoint k.excess)

instance (k : TxKernel) : Decidable (kernelOk k) := inferInstanceAs (Decidable (curve.Signs _ _ _ _ _))

def world : World :=
  { World.small with
    blindSum _ pos neg := .ok ⟨((pos.map curve.blind).sum - (neg.map curve.blind).sum).val⟩
    publicKey k := .ok ⟨pack (curve.secret k • curve.g)⟩
    fromCombination l := .ok ⟨pack (l.map curve.point).sum⟩
    calculatePartialSig k n R P m := .ok ⟨packSig (curve.secret n • curve.g)
      (curve.secret n + curve.challenge (curve.point R) (curve.point P) m * curve.secret k)⟩
    verifyPartialSig sig R p P m := check (curve.Signs sig (curve.point R) (curve.point P) m (curve.point p))
    addSignatures l R := .ok ⟨packSig (curve.point R) (l.map curve.sigScalar).sum⟩
    verifyCompletedSig sig P m :=
      check (curve.Signs sig (curve.sigNonce sig) (curve.point P) m (curve.point P))
    verifyKernel k := check (kernelOk k)
    txFee := curve.txFee
    partialTransaction tx elems k :=
      let r := elems.foldl (append k) (tx, 0)
      .ok (r.1, ⟨r.2.val⟩)
    sumCommitments tx v := .ok ⟨pack (curve.net tx + (v : Scalar) • curve.h)⟩
    commitBlind v k := .ok ⟨pack ((v : Scalar) • curve.h + curve.secret k • curve.g)⟩
    commitSum pos neg :=
      .ok ⟨pack ((pos.map curve.commitPoint).sum - (neg.map curve.commitPoint).sum)⟩
    validate tx := check (tx.inputs.length + 4 * tx.outputs.length ≤ 500 ∧
      (∀ k ∈ tx.kernels, kernelOk k) ∧
      curve.net tx + ((World.small.totalFee tx : Nat) : Scalar) • curve.h =
        (tx.kernels.map fun k => curve.commitPoint k.excess).sum + curve.blind tx.offset • curve.g) }

theorem net_input (tx : Transaction) (i : Input) :
    curve.net { tx with inputs := tx.inputs ++ [i] } = curve.net tx - curve.commitPoint i.commit := by
  unfold Curve.net
  rw [List.map_append, List.sum_append, List.map_singleton, List.sum_singleton]
  abel

theorem net_output (tx : Transaction) (o : Output) :
    curve.net { tx with outputs := tx.outputs ++ [o] } = curve.net tx + curve.commitPoint o.commit := by
  unfold Curve.net
  rw [List.map_append, List.sum_append, List.map_singleton, List.sum_singleton]
  abel

/-- What an element adds beside its blinding factor is its value. -/
theorem net_append (k : Keychain) (r : Transaction × Scalar) (e : Append) :
    (append k r e).1.offset = r.1.offset ∧ (append k r e).1.kernels = r.1.kernels ∧
      curve.net (append k r e).1 - (append k r e).2 • curve.g =
        curve.net r.1 - r.2 • curve.g + ((e.value : Int) : Scalar) • curve.h := by
  have hpoint : ∀ v id, curve.commitPoint ⟨pack (commitPoint k v id)⟩ =
      (v : Scalar) • curve.h + (k.raw + World.pathNumber id : Scalar) • curve.g := fun _ _ => unpack_pack _
  cases e with
  | input v id | coinbaseInput v id =>
    refine ⟨rfl, rfl, ?_⟩
    simp only [append, net_input, hpoint, Append.value, Int.cast_neg, Int.cast_natCast, neg_smul, sub_smul]
    abel
  | output v id =>
    refine ⟨rfl, rfl, ?_⟩
    simp only [append, net_output, hpoint, Append.value, Int.cast_natCast, add_smul]
    abel

theorem net_foldl_append (k : Keychain) : ∀ (elems : List Append) (r : Transaction × Scalar),
    (elems.foldl (append k) r).1.offset = r.1.offset ∧
      (elems.foldl (append k) r).1.kernels = r.1.kernels ∧
      curve.net (elems.foldl (append k) r).1 - (elems.foldl (append k) r).2 • curve.g =
        curve.net r.1 - r.2 • curve.g + ((netValue elems : Int) : Scalar) • curve.h
  | [], r => by
    refine ⟨rfl, rfl, ?_⟩
    simp [netValue]
  | e :: elems, r => by
    obtain ⟨hoffset, hkernels, hnet⟩ := net_append k r e
    obtain ⟨ihoffset, ihkernels, ih⟩ := net_foldl_append k elems (append k r e)
    refine ⟨ihoffset.trans hoffset, ihkernels.trans hkernels, ?_⟩
    have hvalue : netValue (e :: elems) = e.value + netValue elems := rfl
    rw [List.foldl_cons, ih, hnet, hvalue, Int.cast_add, add_smul]
    abel

theorem world_obeys : world.Obeys curve where
  scalar_zero := rfl
  newSecretKey t h := by cases h
  blindSum k pos neg b h := by
    cases h
    exact blind_val _
  secretKey b := ⟨⟨b.raw⟩, rfl, rfl⟩
  publicKey k p h := by
    cases h
    exact unpack_pack _
  fromCombination l := ⟨_, rfl, unpack_pack _⟩
  calculatePartialSig k n R P m := by
    refine ⟨_, rfl, ?_, ?_⟩
    · show unpack (packSig _ _ % _) = _
      rw [packSig_mod, unpack_pack]
    · show ((packSig _ _ / _ : Nat) : Scalar) = _
      rw [packSig_div, ZMod.natCast_zmod_val]
  verifyPartialSig _ _ _ _ _ h := check_ok h
  addSignatures l R := by
    refine ⟨_, rfl, ?_, ?_⟩
    · show unpack (packSig _ _ % _) = _
      rw [packSig_mod, unpack_pack]
    · show ((packSig _ _ / _ : Nat) : Scalar) = _
      rw [packSig_div, ZMod.natCast_zmod_val]
  verifyCompletedSig _ _ _ h := check_ok h
  kernelSigMsg _ := rfl
  emptyKernel _ := rfl
  verifyKernel _ h := check_ok h
  txFee := rfl
  txFee_lt i o k := by
    show min _ 1000 < _
    omega
  totalFee _ := rfl
  partialTransaction tx elems k tx' b h := by
    cases h
    obtain ⟨hoffset, hkernels, hnet⟩ := net_foldl_append k elems (tx, 0)
    refine ⟨hoffset, hkernels, ?_⟩
    rw [blind_val, ← sub_eq_iff_eq_add, hnet, zero_smul, sub_zero]
  sumCommitments _ _ := ⟨_, rfl, unpack_pack _⟩
  commitBlind _ _ := ⟨_, rfl, unpack_pack _⟩
  commitSum _ _ := ⟨_, rfl, unpack_pack _⟩
  validate tx hstd hkernels hsum := by
    refine check_ok ⟨hstd, fun k hk => ?_, hsum⟩
    have h := hkernels k hk
    by_contra hn
    exact absurd (h.symm.trans (if_neg hn)) (by decide)

end Modular

end EpicWallet
