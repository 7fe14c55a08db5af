import Alighieri.Net.Host
import Alighieri.Lib.Decimal

/-!
# Numbers in text

`str::parse` for the unsigned integer types (core::num, `from_str_radix`): a single `+`
may stand before the digits, and leading zeros are allowed. `fmtNat` is their `Display`.
-/

namespace Alighieri.Net

/- The type's largest value is `limit`. -/
def parseUnsigned (limit : ℕ) : Text → Option ℕ
  | [] => none
  | c :: rest =>
    if (c = '+' ∨ c = '-') ∧ rest = [] then none
    else if c = '+' then Decimal.checked limit 0 rest
    else Decimal.checked limit 0 (c :: rest)

def parseU8 : Text → Option ℕ := parseUnsigned 255
def parseU16 : Text → Option ℕ := parseUnsigned 65535
def parseU32 : Text → Option ℕ := parseUnsigned (2 ^ 32 - 1)
def parseU64 : Text → Option ℕ := parseUnsigned (2 ^ 64 - 1)

def fmtNat (n : ℕ) : Text := Nat.toDigits 10 n

def IsDecimal (s : Text) : Prop := s ≠ [] ∧ ∀ c ∈ s, c.isDigit

def decimalValue (s : Text) : ℕ := Nat.ofDigitChars 10 s 0

theorem parseUnsigned_some {limit n : ℕ} {s : Text} (h : parseUnsigned limit s = some n) :
    ∃ ds, (s = ds ∨ s = '+' :: ds) ∧ IsDecimal ds ∧ n = decimalValue ds ∧ n ≤ limit := by
  cases s with
  | nil => cases h
  | cons c rest =>
    rw [parseUnsigned] at h
    split at h
    · cases h
    rename_i hlone
    split at h
    · rename_i hplus
      subst hplus
      obtain ⟨hds, hn, hle⟩ := Decimal.checked_some h
      have hne : rest ≠ [] := fun hnil => hlone ⟨.inl rfl, hnil⟩
      exact ⟨rest, .inr rfl, ⟨hne, hds⟩, hn, hle (Nat.zero_le _)⟩
    · obtain ⟨hds, hn, hle⟩ := Decimal.checked_some h
      exact ⟨c :: rest, .inl rfl, ⟨List.cons_ne_nil _ _, hds⟩, hn, hle (Nat.zero_le _)⟩

theorem not_digit_sign {c : Char} (h : c.isDigit) : c ≠ '+' ∧ c ≠ '-' := by
  constructor <;> rintro rfl <;> cases h

theorem parseUnsigned_decimal {limit : ℕ} {ds : Text} (h : IsDecimal ds)
    (hle : decimalValue ds ≤ limit) : parseUnsigned limit ds = some (decimalValue ds) := by
  cases ds with
  | nil => exact absurd rfl h.1
  | cons c =>
    obtain ⟨hplus, hminus⟩ := not_digit_sign (h.2 c (List.mem_cons_self))
    rw [parseUnsigned, if_neg (by simp [hplus, hminus]), if_neg hplus]
    exact Decimal.checked_of_le h.2 hle

theorem fmtNat_isDecimal (n : ℕ) : IsDecimal (fmtNat n) :=
  ⟨Nat.toDigits_ne_nil, fun _ hc => Nat.isDigit_of_mem_toDigits (by decide) (by decide) hc⟩

theorem decimalValue_fmtNat (n : ℕ) : decimalValue (fmtNat n) = n := Nat.ofDigitChars_ten_toDigits

theorem fmtNat_decimalValue {ds : Text} (h : IsDecimal ds) (hlead : ds.head? ≠ some '0') :
    fmtNat (decimalValue ds) = ds :=
  Decimal.toDigits_ofDigitChars h.1 h.2 hlead

example : parseU16 ['+', '0', '8', '0'] = some 80 := by decide

example : parseU16 ['6', '5', '5', '3', '6'] = none := by decide

end Alighieri.Net
