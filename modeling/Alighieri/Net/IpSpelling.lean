import Alighieri.Net.IpText
import Alighieri.Lib.Decimal

/-!
# The letters of an address, and a text for every one

An address is written with hexadecimal digits, dots and colons, so its text has no blank
and no control character; and every address can be written.
-/

namespace Alighieri.Net
open List

variable {ws : List Text} {s : Text} {gs : List ℕ} {c sep : Char} {b : Bool} {n : ℕ}

/-! ### The letters of an address -/

def IpChar (c : Char) : Prop := (toDigit 16 c).isSome ∨ c = '.' ∨ c = ':'

theorem IpChar.ascii (h : IpChar c) : c.toNat < 128 ∧ 33 ≤ c.toNat := by
  rcases h with h | rfl | rfl
  · unfold toDigit at h
    by_cases hd : c.isDigit
    · obtain ⟨hlow, hhigh⟩ := Decimal.digit_toNat hd
      omega
    · by_cases hl : 'a' ≤ c ∧ c ≤ 'z'
      · obtain ⟨hlow, hhigh⟩ : 97 ≤ c.toNat ∧ c.toNat ≤ 122 := hl
        omega
      · by_cases hu : 'A' ≤ c ∧ c ≤ 'Z'
        · obtain ⟨hlow, hhigh⟩ : 65 ≤ c.toNat ∧ c.toNat ≤ 90 := hu
          omega
        · simp [hd, hl, hu] at h
  · decide
  · decide

theorem mem_spell {index : ℕ} (h : c ∈ spell sep index ws) : c = sep ∨ ∃ w ∈ ws, c ∈ w := by
  induction ws generalizing index with
  | nil => cases h
  | cons w ws ih =>
    rw [spell, mem_append, lead] at h
    rcases h with h | h
    · split at h
      · rcases mem_cons.mp h with h | h
        · exact .inl h
        · exact .inr ⟨w, mem_cons_self, h⟩
      · exact .inr ⟨w, mem_cons_self, h⟩
    · rcases ih h with h | ⟨v, hv, h⟩
      · exact .inl h
      · exact .inr ⟨v, mem_cons_of_mem w hv, h⟩

theorem octets_digits {octets : List ℕ} (h : Forall₂ Octet ws octets) :
    ∀ w ∈ ws, Digits 10 w := by
  induction h with
  | nil => exact fun w hw => absurd hw not_mem_nil
  | cons h hs ih =>
    intro w hw
    rcases mem_cons.mp hw with rfl | hw
    · exact h.digits
    · exact ih w hw

theorem Ipv4Text.ipChar {bits : BitVec 32} (h : Ipv4Text s bits) : ∀ c ∈ s, IpChar c := by
  obtain ⟨ws, octets, rfl, hws, -, -⟩ := h
  intro c hc
  rcases mem_spell hc with rfl | ⟨w, hw, hc⟩
  · exact .inr (.inl rfl)
  · exact .inl (isSome_toDigit_sixteen (octets_digits hws w hw c hc))

theorem Groups.ipChar (h : Groups ws gs b) : ∀ w ∈ ws, ∀ c ∈ w, IpChar c := by
  induction h with
  | nil => exact fun w hw => absurd hw (not_mem_nil)
  | ipv4 h =>
    intro w hw
    rw [mem_singleton.mp hw]
    exact h.ipChar
  | cons h hs ih =>
    intro w hw c hc
    rcases mem_cons.mp hw with rfl | hw
    · exact .inl (h.digits c hc)
    · exact ih w hw c hc

theorem Groups.spell_ipChar (h : Groups ws gs b) : ∀ c ∈ spell ':' 0 ws, IpChar c := by
  intro c hc
  rcases mem_spell hc with rfl | ⟨w, hw, hc⟩
  · exact .inr (.inr rfl)
  · exact h.ipChar w hw c hc

theorem Ipv6Text.ipChar {bits : BitVec 128} (h : Ipv6Text s bits) : ∀ c ∈ s, IpChar c := by
  cases h with
  | full h h8 => exact h.spell_ipChar
  | short hh ht h7 =>
    intro c hc
    rcases mem_append.mp hc with hc | hc
    · exact hh.spell_ipChar c hc
    · rcases mem_cons.mp hc with rfl | hc
      · exact .inr (.inr rfl)
      · rcases mem_cons.mp hc with rfl | hc
        · exact .inr (.inr rfl)
        · exact ht.spell_ipChar c hc

theorem IpText.ipChar {ip : IpAddr} (h : IpText s ip) : ∀ c ∈ s, IpChar c := by
  cases ip with
  | v4 => exact Ipv4Text.ipChar h
  | v6 => exact Ipv6Text.ipChar h

/-! ### Every address has a text -/

def hexGroup (g : ℕ) : Text :=
  [Nat.digitChar (g / 4096), Nat.digitChar (g / 256 % 16), Nat.digitChar (g / 16 % 16),
    Nat.digitChar (g % 16)]

/- An address written out: the `Display` of an IPv4 address, and all groups of an IPv6 address
in full. -/
def plainText : IpAddr → Text
  | .v4 bits => spell '.' 0 ((range 4).map fun i => Nat.toDigits 10 (octet bits i))
  | .v6 bits => spell ':' 0 ((range 8).map fun i => hexGroup (segment bits i))

theorem toDigit_digitChar : ∀ d < 16, toDigit 16 (Nat.digitChar d) = some d := by decide

theorem hexGroup_group {g : ℕ} (hg : g < 65536) : Group (hexGroup g) g := by
  have h0 := toDigit_digitChar (g / 4096) (by omega)
  have h1 := toDigit_digitChar (g / 256 % 16) (by omega)
  have h2 := toDigit_digitChar (g / 16 % 16) (by omega)
  have h3 := toDigit_digitChar (g % 16) (by omega)
  refine ⟨?_, cons_ne_nil _ _, le_refl _, .inl rfl, ?_, by omega⟩
  · intro c hc
    simp only [hexGroup, mem_cons, not_mem_nil, or_false] at hc
    rcases hc with rfl | rfl | rfl | rfl
    · rw [h0]; rfl
    · rw [h1]; rfl
    · rw [h2]; rfl
    · rw [h3]; rfl
  · simp only [digitsValue, hexGroup, foldl, h0, h1, h2, h3, Option.getD_some]
    omega

theorem toDigits_checked : ∀ n : Fin 256,
    ((Nat.toDigits 10 n).all fun c => (toDigit 10 c).isSome) = true ∧
    Nat.toDigits 10 n ≠ [] ∧ (Nat.toDigits 10 n).length ≤ 3 ∧
    ((Nat.toDigits 10 n).head? ≠ some '0' ∨ (Nat.toDigits 10 n).length = 1) ∧
    n = digitsValue 10 (Nat.toDigits 10 n) 0 := by
  decide +kernel

theorem toDigits_octet (hn : n < 256) : Octet (Nat.toDigits 10 n) n := by
  obtain ⟨hdigits, hne, hshort, hzero, hvalue⟩ := toDigits_checked ⟨n, hn⟩
  exact ⟨all_eq_true.mp hdigits, hne, hshort, .inr hzero, hvalue, by omega⟩

theorem ipv4OfOctets_octet (bits : BitVec 32) :
    ipv4OfOctets ((range 4).map (octet bits)) = bits := by
  have hlt := bits.isLt
  apply BitVec.eq_of_toNat_eq
  simp only [ipv4OfOctets, join, range, range.loop, map, foldl, octet,
    BitVec.toNat_ofNat]
  omega

theorem ipv6OfGroups_segment (bits : BitVec 128) :
    ipv6OfGroups ((range 8).map (segment bits)) = bits := by
  have hlt := bits.isLt
  apply BitVec.eq_of_toNat_eq
  simp only [ipv6OfGroups, join, range, range.loop, map, foldl, segment,
    BitVec.toNat_ofNat]
  omega

theorem Groups.of_forall₂ (h : Forall₂ Group ws gs) : Groups ws gs false := by
  induction h with
  | nil => exact .nil
  | cons h hs ih => exact .cons h ih

theorem forall₂_map {R : Text → ℕ → Prop} {f : ℕ → Text} {g : ℕ → ℕ}
    (h : ∀ i, R (f i) (g i)) (l : List ℕ) : Forall₂ R (l.map f) (l.map g) := by
  rw [forall₂_map_left_iff, forall₂_map_right_iff]
  exact forall₂_same.mpr fun i _ => h i

theorem plainText_ipText (ip : IpAddr) : IpText (plainText ip) ip := by
  cases ip with
  | v4 bits =>
    refine ⟨_, (range 4).map (octet bits), rfl, forall₂_map (fun i => ?_) _, rfl,
      (ipv4OfOctets_octet bits).symm⟩
    exact toDigits_octet (Nat.mod_lt _ (by decide))
  | v6 bits =>
    have hgroups : Forall₂ Group ((range 8).map fun i => hexGroup (segment bits i))
        ((range 8).map (segment bits)) :=
      forall₂_map (fun i => hexGroup_group (Nat.mod_lt _ (by decide))) _
    have htext := Ipv6Text.full (.of_forall₂ hgroups) rfl
    rwa [ipv6OfGroups_segment] at htext

theorem plainText_v6_dot (bits : BitVec 128) : '.' ∉ plainText (.v6 bits) := by
  intro h
  rcases mem_spell h with heq | ⟨w, hw, hdot⟩
  · exact absurd heq (by decide)
  · obtain ⟨i, -, rfl⟩ := mem_map.mp hw
    have hdigit := (hexGroup_group (Nat.mod_lt _ (by decide))).digits '.' hdot
    exact absurd hdigit (by decide)

theorem spell_length_le (h : ∀ w ∈ ws, w.length ≤ n) (index : ℕ) :
    (spell sep index ws).length ≤ ws.length * (n + 1) := by
  induction ws generalizing index with
  | nil => exact Nat.zero_le _
  | cons w ws ih =>
    have hw := h w (mem_cons_self)
    have hws := ih (fun v hv => h v (mem_cons_of_mem w hv)) (index + 1)
    have hlead : (lead sep index w).length ≤ n + 1 := by
      unfold lead
      split
      · rw [length_cons]
        omega
      · omega
    rw [spell, length_append, length_cons, Nat.succ_mul]
    omega

theorem plainText_length (ip : IpAddr) : (plainText ip).length ≤ 40 := by
  cases ip with
  | v4 =>
    refine (spell_length_le (n := 3) ?_ 0).trans (by simp)
    intro w hw
    obtain ⟨i, -, rfl⟩ := mem_map.mp hw
    exact (toDigits_octet (Nat.mod_lt _ (by decide))).short
  | v6 =>
    refine (spell_length_le (n := 4) ?_ 0).trans (by simp)
    intro w hw
    obtain ⟨i, -, rfl⟩ := mem_map.mp hw
    exact le_refl _

end Alighieri.Net
