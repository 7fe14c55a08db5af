import Mathlib.Algebra.Ring.Nat
import Mathlib.Tactic.Basic
import Mathlib.Data.List.Basic

/-!
# Numbers as bytes

Fixed-width little-endian and big-endian encodings of natural numbers. Encoding
keeps the low bytes, so a value that fits its width comes back, and every byte
string is the encoding of its value.
-/

namespace Endian

variable {w : ℕ}

def leBytes : ℕ → ℕ → List UInt8
  | 0, _ => []
  | w + 1, v => UInt8.ofNat v :: leBytes w (v / 256)

def ofLe : List UInt8 → ℕ
  | [] => 0
  | b :: bs => b.toNat + 256 * ofLe bs

def beBytes (w v : ℕ) : List UInt8 := (leBytes w v).reverse

def ofBe (bs : List UInt8) : ℕ := ofLe bs.reverse

@[simp] theorem leBytes_length (w v : ℕ) : (leBytes w v).length = w := by
  induction w generalizing v with
  | zero => rfl
  | succ w ih => simp only [leBytes, List.length_cons, ih]

@[simp] theorem beBytes_length (w v : ℕ) : (beBytes w v).length = w := by
  simp only [beBytes, List.length_reverse, leBytes_length]

theorem ofLe_lt (bs : List UInt8) : ofLe bs < 256 ^ bs.length := by
  induction bs with
  | nil => decide
  | cons b bs ih =>
    have hb : b.toNat < 256 := b.toNat_lt
    simp only [ofLe, List.length_cons, Nat.pow_succ]
    omega

theorem ofLe_leBytes {v : ℕ} (h : v < 256 ^ w) : ofLe (leBytes w v) = v := by
  induction w generalizing v with
  | zero =>
    simp only [Nat.pow_zero, Nat.lt_one_iff] at h
    rw [h]
    rfl
  | succ w ih =>
    have hrest : v / 256 < 256 ^ w := by
      rw [Nat.div_lt_iff_lt_mul (by decide)]
      rwa [Nat.pow_succ] at h
    simp only [leBytes, ofLe, ih hrest, UInt8.toNat_ofNat']
    omega

theorem leBytes_ofLe {bs : List UInt8} (h : bs.length = w) : leBytes w (ofLe bs) = bs := by
  induction bs generalizing w with
  | nil =>
    subst h
    rfl
  | cons b bs ih =>
    subst h
    have hb : b.toNat < 256 := b.toNat_lt
    have hlow : UInt8.ofNat (b.toNat + 256 * ofLe bs) = b := by
      apply UInt8.toNat_inj.mp
      rw [UInt8.toNat_ofNat']
      omega
    have hrest : (b.toNat + 256 * ofLe bs) / 256 = ofLe bs := by omega
    simp only [List.length_cons, leBytes, ofLe, hlow, hrest, ih rfl]

theorem ofBe_beBytes {v : ℕ} (h : v < 256 ^ w) : ofBe (beBytes w v) = v := by
  simp only [ofBe, beBytes, List.reverse_reverse]
  exact ofLe_leBytes h

end Endian
