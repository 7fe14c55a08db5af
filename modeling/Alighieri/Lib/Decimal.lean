import Mathlib.Tactic.Basic
import Mathlib.Data.List.Basic
import Mathlib.Data.List.Induction

/-!
# Decimal numbers

Reading digits with an upper bound, and that a string of digits without a leading zero
is the decimal form of its value. Values and decimal forms are core's
`Nat.ofDigitChars` and `Nat.toDigits`.
-/

namespace Decimal

variable {ds : List Char}

/- Adds up digits from the left; fails at the first character that is not a digit and when
the value passes `limit`. -/
def checked (limit : ℕ) : ℕ → List Char → Option ℕ
  | value, [] => some value
  | value, c :: cs =>
    if c.isDigit then
      if 10 * value + (c.toNat - '0'.toNat) ≤ limit then
        checked limit (10 * value + (c.toNat - '0'.toNat)) cs
      else none
    else none

theorem le_ofDigitChars (ds : List Char) (value : ℕ) : value ≤ Nat.ofDigitChars 10 ds value := by
  induction ds generalizing value with
  | nil => exact Nat.le_refl _
  | cons c cs ih =>
    rw [Nat.ofDigitChars_cons]
    have h := ih (10 * value + (c.toNat - '0'.toNat))
    omega

theorem checked_some {limit value n : ℕ} (h : checked limit value ds = some n) :
    (∀ c ∈ ds, c.isDigit) ∧ n = Nat.ofDigitChars 10 ds value ∧ (value ≤ limit → n ≤ limit) := by
  induction ds generalizing value with
  | nil =>
    cases h
    exact ⟨nofun, rfl, id⟩
  | cons c cs ih =>
    unfold checked at h
    split at h
    · rename_i hc
      split at h
      · rename_i hle
        obtain ⟨hcs, hn, hlimit⟩ := ih h
        refine ⟨?_, ?_, fun _ => hlimit hle⟩
        · intro d hd
          rcases List.mem_cons.mp hd with rfl | hd
          · exact hc
          · exact hcs d hd
        · rw [hn, Nat.ofDigitChars_cons]
      · cases h
    · cases h

theorem checked_of_le {limit value : ℕ} (hds : ∀ c ∈ ds, c.isDigit)
    (hle : Nat.ofDigitChars 10 ds value ≤ limit) :
    checked limit value ds = some (Nat.ofDigitChars 10 ds value) := by
  induction ds generalizing value with
  | nil => rfl
  | cons c cs ih =>
    rw [Nat.ofDigitChars_cons] at hle ⊢
    have hc := hds c (List.mem_cons_self)
    have hvalue := le_ofDigitChars cs (10 * value + (c.toNat - '0'.toNat))
    rw [checked, if_pos hc, if_pos (by omega)]
    exact ih (fun d hd => hds d (List.mem_cons_of_mem _ hd)) hle

theorem digit_toNat {c : Char} (h : c.isDigit) : 48 ≤ c.toNat ∧ c.toNat ≤ 57 := by
  simp only [Char.isDigit, ge_iff_le, Bool.and_eq_true, decide_eq_true_eq] at h
  exact h

theorem digitChar_of_digit {c : Char} (h : c.isDigit) :
    Nat.digitChar (c.toNat - '0'.toNat) = c := by
  obtain ⟨hlow, hhigh⟩ := digit_toNat h
  have hcases : ∀ n < 10, Nat.digitChar n = Char.ofNat (48 + n) := by decide
  have hzero : '0'.toNat = 48 := rfl
  rw [hzero, hcases _ (by omega), show 48 + (c.toNat - 48) = c.toNat by omega, Char.ofNat_toNat]

theorem ofDigitChars_pos (hne : ds ≠ []) (hds : ∀ c ∈ ds, c.isDigit) (hlead : ds.head? ≠ some '0') :
    0 < Nat.ofDigitChars 10 ds 0 := by
  cases ds with
  | nil => exact absurd rfl hne
  | cons c cs =>
    have hc := digit_toNat (hds c (List.mem_cons_self))
    have hzero : c.toNat ≠ 48 := by
      intro heq
      apply hlead
      rw [List.head?_cons, ← Char.ofNat_toNat c, heq]
    have hle := le_ofDigitChars cs (10 * 0 + (c.toNat - '0'.toNat))
    rw [Nat.ofDigitChars_cons]
    have hchar : '0'.toNat = 48 := rfl
    omega

/-- A string of digits without a leading zero is the decimal form of its value. -/
theorem toDigits_ofDigitChars (hne : ds ≠ []) (hds : ∀ c ∈ ds, c.isDigit)
    (hlead : ds.head? ≠ some '0') : Nat.toDigits 10 (Nat.ofDigitChars 10 ds 0) = ds := by
  induction ds using List.reverseRecOn with
  | nil => exact absurd rfl hne
  | append_singleton ds c ih =>
    have hc := hds c (List.mem_append_right _ (List.mem_singleton_self c))
    have hdigit : c.toNat - '0'.toNat < 10 := by
      have hrange := digit_toNat hc
      have hchar : '0'.toNat = 48 := rfl
      omega
    rw [Nat.ofDigitChars_append, Nat.ofDigitChars_cons, Nat.ofDigitChars_nil]
    by_cases hnil : ds = []
    · subst hnil
      rw [Nat.ofDigitChars_nil, Nat.mul_zero, Nat.zero_add, Nat.toDigits_of_lt_base hdigit,
        digitChar_of_digit hc]
      rfl
    · have hlead' : ds.head? ≠ some '0' := by
        rwa [List.head?_append_of_ne_nil _ hnil] at hlead
      have hds' : ∀ d ∈ ds, d.isDigit := fun d hd => hds d (List.mem_append_left _ hd)
      rw [← Nat.toDigits_append_toDigits (by decide) (ofDigitChars_pos hnil hds' hlead') hdigit,
        ih hnil hds' hlead', Nat.toDigits_of_lt_base hdigit, digitChar_of_digit hc]

theorem toDigits_head (i : ℕ) (hi : 1 ≤ i) : (Nat.toDigits 10 i).head? ≠ some '0' := by
  induction i using Nat.strongRecOn with
  | ind i ih =>
    rcases Nat.lt_or_ge i 10 with hlt | hge
    · have hdigit : ∀ n < 10, 1 ≤ n → (Nat.toDigits 10 n).head? ≠ some '0' := by decide
      exact hdigit i hlt hi
    · rw [← Nat.div_add_mod i 10, ← Nat.toDigits_append_toDigits (by decide) (by omega) (by omega),
        List.head?_append_of_ne_nil _ Nat.toDigits_ne_nil]
      exact ih (i / 10) (by omega) (by omega)

end Decimal
