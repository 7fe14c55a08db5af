import Alighieri.Net.AddrSpec
import Alighieri.Net.IpText
import Alighieri.Net.Number

/-!
# The text of networks, port ranges and host patterns (net.rs:86-113, 146-172, 302-338)

What a rule may write behind `from:` and `to:`. What the parsers accept selects something, and a
text with a colon in it is no number, no port range and no host pattern.
-/

namespace Alighieri.Net
open List Cidr

variable {s : Text} {c d : Char} {cidr : Cidr} {len n : ℕ} {range : PortRange}

/- `Cidr::from_str`: `ADDR/PREFIX`, or a lone address as the network of itself. -/
def Cidr.fromStr (s : Text) : Except String Cidr :=
  match splitOnce '/' (trim s) with
  | some (addrS, prefixS) =>
    match parseIpAddr (trim addrS) with
    | none => .error ("invalid IP address '" ++ String.ofList addrS ++ "'")
    | some addr =>
      match parseU8 (trim prefixS) with
      | none => .error ("invalid prefix '" ++ String.ofList prefixS ++ "'")
      | some len =>
        match new addr len with
        | none => .error ("prefix /" ++ toString len ++ " too large for address")
        | some cidr => .ok cidr
  | none =>
    match parseIpAddr (trim s) with
    | none => .error ("invalid IP address '" ++ String.ofList (trim s) ++ "'")
    | some addr => .ok ⟨addr.value, totalBits addr.isV6, addr.isV6, Nat.le_refl _⟩

/- `PortRange::from_str`: one port, or two with a dash between them. -/
def PortRange.fromStr (s : Text) : Except String PortRange :=
  match splitOnce '-' (trim s) with
  | some (lo, hi) =>
    match parseU16 (trim lo) with
    | none => .error ("invalid port '" ++ String.ofList lo ++ "'")
    | some min =>
      match parseU16 (trim hi) with
      | none => .error ("invalid port '" ++ String.ofList hi ++ "'")
      | some max =>
        if max < min then
          .error ("port range min (" ++ toString min ++ ") > max (" ++ toString max ++ ")")
        else .ok ⟨min, max⟩
  | none =>
    match parseU16 (trim s) with
    | none => .error ("invalid port '" ++ String.ofList (trim s) ++ "'")
    | some p => .ok ⟨p, p⟩

/- One DNS label: letters, digits and inner hyphens. -/
def labelValid (label : Text) : Bool :=
  decide (1 ≤ utf8Len label ∧ utf8Len label ≤ 63) && label.head? != some '-' &&
    label.getLast? != some '-' && label.all fun c => c.isAlphanum || c == '-'

/- `HostPattern::parse`. A leading dot asks for the subdomains too; one trailing dot is
dropped, and two leave an empty label behind. -/
def HostPattern.parse (token : Text) : Except String HostPattern :=
  let lower := toAsciiLowercase (trim token)
  let (domain, subdomains) :=
    match stripStart ['.'] lower with
    | some rest => (rest, true)
    | none => (lower, false)
  let domain :=
    if ['.'].isSuffixOf domain && ! (['.', '.'].isSuffixOf domain) then domain.dropLast
    else domain
  if (domain.splitOn '.').all labelValid then
    .ok (if subdomains then .suffix domain else .exact domain)
  else .error ("'" ++ String.ofList token ++ "' is not a valid hostname pattern")

def AddrSpec.host (pattern : HostPattern) (ports : Option PortRange) : AddrSpec :=
  ⟨[], [pattern], ports⟩

/-! ### What is accepted selects something -/

/-- The network and the prefix length a text writes. -/
def Cidr.Writes (s : Text) (network : IpAddr) (len : ℕ) : Prop :=
  match splitOnce '/' (trim s) with
  | some (addrS, prefixS) =>
    parseIpAddr (trim addrS) = some network ∧ parseU8 (trim prefixS) = some len
  | none => parseIpAddr (trim s) = some network ∧ len = totalBits network.isV6

theorem Cidr.fromStr_new (h : fromStr s = .ok cidr) :
    ∃ network len, Cidr.Writes s network len ∧ new network len = some cidr := by
  unfold fromStr at h
  unfold Cidr.Writes
  split at h
  · split at h
    · cases h
    rename_i addr haddr
    split at h
    · cases h
    rename_i len hlen
    split at h
    · cases h
    rename_i hnew
    cases h
    exact ⟨addr, len, ⟨haddr, hlen⟩, hnew⟩
  · split at h
    · cases h
    rename_i addr haddr
    cases h
    exact ⟨addr, _, ⟨haddr, rfl⟩, dif_pos (Nat.le_refl _)⟩

theorem Cidr.new_eq_some {addr : IpAddr} (h : new addr len = some cidr) :
    ∃ hlen : len ≤ totalBits addr.isV6, cidr = ⟨addr.value, len, addr.isV6, hlen⟩ := by
  unfold new at h
  split at h
  · rename_i hlen
    cases h
    exact ⟨hlen, rfl⟩
  · cases h

theorem Cidr.fromStr_inhabited (h : fromStr s = .ok cidr) : ∃ ip, cidr.contains ip = true := by
  obtain ⟨network, len, -, hnew⟩ := fromStr_new h
  obtain ⟨hlen, rfl⟩ := new_eq_some hnew
  refine ⟨network, ?_⟩
  simp only [contains, ne_eq, not_true_eq_false, if_false, beq_self_eq_true, ite_self]

/-! ### A network is the addresses that share its first bits -/

/-- Bit `i` of an address, the first bit being the most significant one. -/
def IpAddr.bit (addr : IpAddr) (i : ℕ) : Bool :=
  addr.value.testBit (totalBits addr.isV6 - 1 - i)

theorem IpAddr.value_lt (addr : IpAddr) : addr.value < 2 ^ totalBits addr.isV6 := by
  cases addr with
  | v4 bits | v6 bits => exact bits.isLt

theorem shiftRight_eq_iff {a b total : ℕ} (ha : a < 2 ^ total) (hb : b < 2 ^ total)
    (hlen : len ≤ total) :
    a >>> (total - len) = b >>> (total - len) ↔
      ∀ i < len, a.testBit (total - 1 - i) = b.testBit (total - 1 - i) := by
  constructor
  · intro h i hi
    have hbit := congrArg (·.testBit (len - 1 - i)) h
    simp only [Nat.testBit_shiftRight] at hbit
    rwa [show total - len + (len - 1 - i) = total - 1 - i by omega] at hbit
  · intro h
    apply Nat.eq_of_testBit_eq
    intro j
    rw [Nat.testBit_shiftRight, Nat.testBit_shiftRight]
    rcases Nat.lt_or_ge j len with hj | hj
    · have hbit := h (len - 1 - j) (by omega)
      rwa [show total - 1 - (len - 1 - j) = total - len + j by omega] at hbit
    · have hpow : 2 ^ total ≤ 2 ^ (total - len + j) := Nat.pow_le_pow_right (by decide) (by omega)
      rw [Nat.testBit_lt_two_pow (Nat.lt_of_lt_of_le ha hpow),
        Nat.testBit_lt_two_pow (Nat.lt_of_lt_of_le hb hpow)]

/-- A parsed network contains exactly the addresses of its family that agree with the written one
on the first `len` bits. The shift stays below the width. -/
theorem Cidr.contains_iff_bits {cidr : Cidr} (h : fromStr s = .ok cidr) :
    ∃ network len, Cidr.Writes s network len ∧ len ≤ totalBits network.isV6 ∧
      (len ≠ 0 → totalBits network.isV6 - len < totalBits network.isV6) ∧
      ∀ addr : IpAddr, cidr.contains addr = true ↔
        addr.isV6 = network.isV6 ∧ ∀ i < len, addr.bit i = network.bit i := by
  obtain ⟨network, len, hwritten, hnew⟩ := fromStr_new h
  obtain ⟨hlen, rfl⟩ := new_eq_some hnew
  refine ⟨network, len, hwritten, hlen, fun _ => by omega, fun addr => ?_⟩
  unfold contains
  by_cases hfamily : addr.isV6 = network.isV6
  · have ha := addr.value_lt
    rw [hfamily] at ha
    have hshift := shiftRight_eq_iff ha network.value_lt hlen
    simp only [IpAddr.bit, hfamily, ← hshift, not_true_eq_false, ne_eq, if_false, true_and]
    split
    · rename_i hzero
      rw [hzero] at hshift ⊢
      exact ⟨fun _ => hshift.mpr fun i hi => absurd hi (Nat.not_lt_zero i), fun _ => rfl⟩
    · exact beq_iff_eq
  · simp [hfamily]

theorem Cidr.contains_iff_bits_of_host :
    ∃ cidr, fromStr "10.1.2.77/24".toList = .ok cidr ∧
      ∃ network len, Cidr.Writes "10.1.2.77/24".toList network len ∧
        len ≤ totalBits network.isV6 ∧
        (len ≠ 0 → totalBits network.isV6 - len < totalBits network.isV6) ∧
        ∀ addr : IpAddr, cidr.contains addr = true ↔
          addr.isV6 = network.isV6 ∧ ∀ i < len, addr.bit i = network.bit i :=
  ⟨_, rfl, contains_iff_bits rfl⟩

theorem parseU16_le (h : parseU16 s = some n) : n ≤ 65535 := by
  obtain ⟨ds, -, -, -, hle⟩ := parseUnsigned_some h
  exact hle

theorem PortRange.fromStr_bounds (h : PortRange.fromStr s = .ok range) :
    range.min ≤ range.max ∧ range.max ≤ 65535 := by
  unfold PortRange.fromStr at h
  split at h
  · split at h
    · cases h
    rename_i min hmin
    split at h
    · cases h
    rename_i hmax
    split at h
    · cases h
    rename_i hle
    cases h
    exact ⟨Nat.le_of_not_lt hle, parseU16_le hmax⟩
  · split at h
    · cases h
    rename_i hp
    cases h
    exact ⟨Nat.le_refl _, parseU16_le hp⟩

theorem HostPattern.inhabited (p : HostPattern) : ∃ host, p.matches host = true := by
  have hdot : ∀ name : Text, stripDot (name ++ ['.']) = name := by
    intro name
    rw [stripDot, List.getLast?_concat, if_pos rfl, dropLast_concat]
  have hself : ∀ name : Text, eqIgnoreAsciiCase (asBytes name) (asBytes name) = true :=
    fun name => beq_self_eq_true _
  cases p with
  | exact name =>
    refine ⟨name ++ ['.'], ?_⟩
    rw [HostPattern.matches, hdot]
    exact hself name
  | suffix name =>
    refine ⟨name ++ ['.'], ?_⟩
    rw [HostPattern.matches, hdot, hself]
    rfl

/-! ### The letters of numbers and ranges -/

theorem parseUnsigned_char {limit : ℕ} (h : parseUnsigned limit s = some n) :
    ∀ c ∈ s, c.isDigit ∨ c = '+' := by
  obtain ⟨ds, hs, ⟨-, hdigits⟩, -⟩ := parseUnsigned_some h
  intro c hc
  rcases hs with rfl | rfl
  · exact .inl (hdigits c hc)
  · rcases mem_cons.mp hc with hplus | hc
    · exact .inr hplus
    · exact .inl (hdigits c hc)

theorem mem_of_splitOnce {a b : Text} (hs : splitOnce d s = some (a, b)) (hc : c ∈ s) :
    c ∈ a ∨ c = d ∨ c ∈ b := by
  rw [splitOnce_some hs, mem_append, mem_cons] at hc
  exact hc

/- A digit, a sign, the dash of a range or white space around one of them. -/
def RangeChar (c : Char) : Prop := c.isDigit ∨ c = '+' ∨ c = '-' ∨ isWhitespace c = true

theorem PortRange.fromStr_char (h : PortRange.fromStr s = .ok range) : ∀ c ∈ s, RangeChar c := by
  intro c hc
  by_cases hspace : isWhitespace c = true
  · exact .inr (.inr (.inr hspace))
  · have hport : ∀ {t : Text} {n : ℕ}, parseU16 (trim t) = some n → c ∈ t → RangeChar c := by
      intro t n hn ht
      rcases parseUnsigned_char hn c (mem_trim ht (Bool.eq_false_iff.mpr hspace)) with hd | hplus
      · exact .inl hd
      · exact .inr (.inl hplus)
    unfold PortRange.fromStr at h
    split at h
    · rename_i lo hi hsplit
      split at h
      · cases h
      rename_i hlo
      split at h
      · cases h
      rename_i hhi
      rcases mem_of_splitOnce hsplit (mem_trim hc (Bool.eq_false_iff.mpr hspace)) with
        hmem | hdash | hmem
      · exact hport hlo hmem
      · exact .inr (.inr (.inl hdash))
      · exact hport hhi hmem
    · split at h
      · cases h
      · rename_i hp
        exact hport hp hc

end Alighieri.Net
