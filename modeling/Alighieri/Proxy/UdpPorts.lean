import Mathlib.Data.List.Rotate
import Mathlib.Data.Nat.Bitwise
import Alighieri.Net.AddrSpec

/-!
# Binding the client-facing UDP socket (connection.rs:1233-1287, 1335-1347)

`bind_udp_in_range` tries the ports of the configured range from a start offset on, around the
range once. Sums on `u16` and `u32` are checked: a run in which one leaves its type has no result.
-/

namespace Alighieri.Proxy
open List

open Net (IpAddr PortRange toCanonical)

/- The kinds of `io::Error` the scan tells apart. -/
inductive BindErrorKind where
  | addrInUse
  | permissionDenied
  | other
  deriving DecidableEq, Repr

structure BindError where
  kind : BindErrorKind
  message : String
  deriving DecidableEq, Repr

/-- A number of `bits` bits, none on overflow. -/
def checked (bits n : ℕ) : Option ℕ := if n < 2 ^ bits then some n else none

def scanStartOffset (seedNanos count span : ℕ) : ℕ := (seedNanos ^^^ count) % span

def span (range : PortRange) : Option ℕ :=
  if range.min ≤ range.max then checked 32 (range.max - range.min + 1) else none

def noBindablePort (range : PortRange) : BindError :=
  ⟨.addrInUse, s!"no bindable UDP port in configured udp.portrange {range.min}-{range.max}"⟩

section
variable {σ : Type} (bind : IpAddr → ℕ → Except BindError σ) (ip : IpAddr)

def skipped (port : ℕ) : Bool :=
  match bind ip port with
  | .ok _ => false
  | .error e => e.kind == .addrInUse || e.kind == .permissionDenied

/-- The loop from turn `i` on, `left` turns before the end, with the ports tried. -/
def scan (range : PortRange) (span start : ℕ) :
    (left i : ℕ) → Option (List ℕ × Except BindError σ)
  | 0, _ => some ([], .error (noBindablePort range))
  | left + 1, i => do
    let sum ← checked 32 (start + i)
    let port ← checked 16 (range.min + sum % span % 2 ^ 16)
    if skipped bind ip port then
      let (ports, result) ← scan range span start left (i + 1)
      some (port :: ports, result)
    else
      some ([port], bind ip port)

/- The clock and the counter are read before the scan: `seed` and `count`. -/
def bindUdpInRange (range : Option PortRange) (seed count : ℕ) :
    Option (List ℕ × Except BindError σ) :=
  let ip := toCanonical ip
  match range with
  | none => some ([0], bind ip 0)
  | some range => do
    let span ← span range
    scan bind ip range span (scanStartOffset seed count span) span 0

end

/-! ### The scan goes once around the range -/

def scanPorts (range : PortRange) (span start : ℕ) : List ℕ :=
  (List.range span).map fun i => range.min + (start + i) % span

theorem scanPorts_perm (range : PortRange) (span start : ℕ) :
    (scanPorts range span start).Perm (List.range' range.min span) := by
  have hrotate : (List.range span).map (fun i => (start + i) % span) =
      (List.range span).rotate start := by
    apply ext_getElem
    · simp
    · intro i h₁ h₂
      simp [getElem_rotate, Nat.add_comm]
  have hmap : scanPorts range span start = ((List.range span).rotate start).map (range.min + ·) := by
    rw [← hrotate, map_map]
    rfl
  rw [hmap, List.range'_eq_map_range]
  exact (rotate_perm _ _).map _

variable {σ : Type} {bind : IpAddr → ℕ → Except BindError σ} {ip : IpAddr} {range : PortRange}

/-- From turn `i` on the ports tried are those that follow, up to the first
one that is not skipped. -/
theorem scan_spec {span start : ℕ} (hspan : range.min + span ≤ 2 ^ 16) (hstart : start < span)
    (left i : ℕ) (hi : i + left = span) :
    ∃ ports result, scan bind ip range span start left i = some (ports, result) ∧
      ports <+: (scanPorts range span start).drop i ∧
      ((∀ p ∈ ports, skipped bind ip p = true) →
        ports = (scanPorts range span start).drop i) := by
  induction left generalizing i with
  | zero =>
    have hnil : (scanPorts range span start).drop i = [] := by
      apply drop_eq_nil_of_le
      simp [scanPorts]
      omega
    exact ⟨[], _, rfl, by rw [hnil], fun _ => hnil.symm⟩
  | succ left ih =>
    have hmod : (start + i) % span < span := Nat.mod_lt _ (by omega)
    have hsum : checked 32 (start + i) = some (start + i) := if_pos (by omega)
    have hport : checked 16 (range.min + (start + i) % span % 2 ^ 16) =
        some (range.min + (start + i) % span) := by
      rw [Nat.mod_eq_of_lt (a := (start + i) % span) (by omega)]
      exact if_pos (by omega)
    have hdrop : (scanPorts range span start).drop i =
        (range.min + (start + i) % span) :: (scanPorts range span start).drop (i + 1) := by
      have hlt : i < (scanPorts range span start).length := by
        simp [scanPorts]
        omega
      rw [drop_eq_getElem_cons hlt]
      simp [scanPorts]
    simp only [scan, hsum, hport, Option.bind_eq_bind, Option.bind_some, hdrop]
    obtain ⟨ports, result, hscan, hpre, hall⟩ := ih (i + 1) (by omega)
    cases hskip : skipped bind ip (range.min + (start + i) % span) with
    | true =>
      refine ⟨(range.min + (start + i) % span) :: ports, result, by simp [hscan], ?_, ?_⟩
      · exact prefix_cons_inj _ |>.mpr hpre
      · intro h
        rw [hall fun p hp => h p (mem_cons_of_mem _ hp)]
    | false =>
      refine ⟨[_], _, by simp; exact ⟨rfl, rfl⟩, ?_, ?_⟩
      · exact ⟨_, rfl⟩
      · intro h
        rw [h _ (mem_singleton.mpr rfl)] at hskip
        cases hskip

/-- A scan has a result, tries only ports of the range, none twice, and all of
them if none could be bound. -/
def Visits (range : PortRange) (run : Option (List ℕ × Except BindError σ))
    (skipped : ℕ → Bool) : Prop :=
  ∃ ports result, run = some (ports, result) ∧ ports.Nodup ∧
    (∀ p ∈ ports, range.contains p = true) ∧
    ((∀ p ∈ ports, skipped p = true) → ∀ p, range.contains p = true → p ∈ ports)

theorem span_eq (hle : range.min ≤ range.max) (hmax : range.max < 2 ^ 16) :
    span range = some (range.max - range.min + 1) := by
  rw [span, if_pos hle]
  exact if_pos (by omega)

theorem bindUdpInRange_visits (hle : range.min ≤ range.max) (hmax : range.max < 2 ^ 16)
    (seed count : ℕ) :
    Visits range (bindUdpInRange bind ip (some range) seed count) (skipped bind (toCanonical ip)) := by
  have hspan := span_eq hle hmax
  obtain ⟨ports, result, hscan, hpre, hall⟩ := @scan_spec σ bind (toCanonical ip) range
    (range.max - range.min + 1) (scanStartOffset seed count (range.max - range.min + 1)) (by omega)
    (Nat.mod_lt _ (by omega)) _ 0 (Nat.zero_add _)
  rw [drop_zero] at hpre hall
  have hperm := scanPorts_perm range (range.max - range.min + 1)
    (scanStartOffset seed count (range.max - range.min + 1))
  have hmem : ∀ p, p ∈ scanPorts range (range.max - range.min + 1)
      (scanStartOffset seed count (range.max - range.min + 1)) ↔ range.contains p = true := by
    intro p
    rw [hperm.mem_iff, mem_range'_1, PortRange.contains, decide_eq_true_eq]
    omega
  refine ⟨ports, result, ?_, ?_, ?_, ?_⟩
  · simp only [bindUdpInRange, hspan, Option.bind_eq_bind, Option.bind_some, hscan]
  · exact (hperm.nodup_iff.mpr nodup_range').sublist hpre.sublist
  · exact fun p hp => (hmem p).mp (hpre.subset hp)
  · intro h p hp
    rw [hall h]
    exact (hmem p).mpr hp

/-! ### Start offsets of consecutive associations -/

def nextCount (count : ℕ) : ℕ := (count + 1) % 2 ^ 32

theorem starts_differ_of_even {span : ℕ} (h : span % 2 = 0) (seed count : ℕ) :
    scanStartOffset seed count span ≠ scanStartOffset seed (nextCount count) span := by
  intro heq
  have hparity : ∀ n, n % span % 2 = n % 2 := fun n => Nat.mod_mod_of_dvd n (Nat.dvd_of_mod_eq_zero h)
  have h2 := congrArg (· % 2) heq
  simp only [scanStartOffset, hparity, Nat.xor_mod_two_eq, nextCount] at h2
  omega

theorem xor_mask {n a : ℕ} (h : a < 2 ^ n) : a ^^^ (2 ^ n - 1) = 2 ^ n - (a + 1) := by
  apply Nat.eq_of_testBit_eq
  intro i
  rw [Nat.testBit_xor, Nat.testBit_two_pow_sub_one, Nat.testBit_two_pow_sub_succ h]
  rcases Nat.lt_or_ge i n with hi | hi
  · simp [hi]
  · have hlow : a.testBit i = false :=
      Nat.testBit_lt_two_pow (Nat.lt_of_lt_of_le h (Nat.pow_le_pow_right (by decide) hi))
    simp [Nat.not_lt.mpr hi, hlow]

/- `32767` and `32768` differ in all of the low sixteen bits, so the two
values of the exclusive or add up to `65535`; they can be made `span` apart. -/
theorem starts_agree_of_odd {span : ℕ} (hodd : span % 2 = 1) (hle : span ≤ 65535) :
    ∃ seed < 2 ^ 16, scanStartOffset seed 32767 span = scanStartOffset seed 32768 span := by
  have ha : (65535 + span) / 2 < 2 ^ 16 := by omega
  refine ⟨(65535 + span) / 2 ^^^ 32767, Nat.xor_lt_two_pow ha (by decide), ?_⟩
  have hlow : (65535 + span) / 2 ^^^ 32767 ^^^ 32767 = (65535 + span) / 2 :=
    Nat.xor_xor_cancel_right ..
  have hhigh : (65535 + span) / 2 ^^^ 32767 ^^^ 32768 = 2 ^ 16 - ((65535 + span) / 2 + 1) := by
    rw [Nat.xor_assoc]
    exact xor_mask ha
  have hsum : (65535 + span) / 2 = 2 ^ 16 - ((65535 + span) / 2 + 1) + span := by omega
  rw [scanStartOffset, scanStartOffset, hlow, hhigh]
  nth_rewrite 1 [hsum]
  exact Nat.add_mod_right _ _

/-- Every scan goes through the whole range, whatever its number of ports; two associations with one
clock reading and consecutive counts always start at different offsets exactly when the range has
one port or an even number of them. -/
theorem scan_covers_and_starts_differ_iff (range : PortRange) (hmin : 1 ≤ range.min)
    (hle : range.min ≤ range.max) (hmax : range.max < 2 ^ 16) :
    (∀ seed < 2 ^ 32, ∀ count < 2 ^ 32,
      ∀ (σ : Type) (bind : IpAddr → ℕ → Except BindError σ) (ip : IpAddr),
        Visits range (bindUdpInRange bind ip (some range) seed count)
          (skipped bind (toCanonical ip))) ∧
    ((∀ seed < 2 ^ 32, ∀ count < 2 ^ 32, ∀ n, span range = some n → 2 ≤ n →
        scanStartOffset seed count n ≠ scanStartOffset seed (nextCount count) n) ↔
      (range.max - range.min + 1 = 1 ∨ (range.max - range.min + 1) % 2 = 0)) := by
  have hspan : span range = some (range.max - range.min + 1) := span_eq hle hmax
  refine ⟨fun seed _ count _ σ bind ip => bindUdpInRange_visits hle hmax seed count, ?_, ?_⟩
  · intro h
    by_contra hc
    obtain ⟨seed, hseed, heq⟩ :=
      @starts_agree_of_odd (range.max - range.min + 1) (by omega) (by omega)
    exact h seed (by omega) 32767 (by omega) _ hspan (by omega) heq
  · intro h seed _ count _ n hn htwo
    obtain rfl : range.max - range.min + 1 = n := Option.some.inj (hspan.symm.trans hn)
    exact starts_differ_of_even (by omega) seed count

/-- A scan of three ports of which none can be bound, and the starts for four ports. -/
theorem scan_covers_four_ports :
    (∃ ports result, bindUdpInRange (fun _ _ => .error ⟨.addrInUse, ""⟩ : IpAddr → ℕ →
        Except BindError Unit) (.v4 0) (some ⟨20000, 20002⟩) 5 6 = some (ports, result) ∧
      ports.Nodup ∧ 20000 ∈ ports ∧ 20001 ∈ ports ∧ 20002 ∈ ports ∧ 20003 ∉ ports) ∧
    span ⟨20000, 20003⟩ = some 4 ∧ scanStartOffset 5 6 4 ≠ scanStartOffset 5 (nextCount 6) 4 := by
  obtain ⟨ports, result, hrun, hnodup, honly, hall⟩ := (scan_covers_and_starts_differ_iff
    ⟨20000, 20002⟩ (by decide) (by decide) (by decide)).1 5 (by decide) 6 (by decide) Unit
      (fun _ _ => .error ⟨.addrInUse, ""⟩) (.v4 0)
  have hevery := hall fun _ _ => rfl
  have hspan : span ⟨20000, 20003⟩ = some 4 := rfl
  refine ⟨⟨ports, result, hrun, hnodup, hevery 20000 (by decide), hevery 20001 (by decide),
    hevery 20002 (by decide), fun h => absurd (honly 20003 h) (by decide)⟩, hspan, ?_⟩
  exact ((scan_covers_and_starts_differ_iff ⟨20000, 20003⟩ (by decide) (by decide)
    (by decide)).2.mpr (.inr rfl)) 5 (by decide) 6 (by decide) 4 hspan (by decide)

/-- Three ports and the clock at two nanoseconds: both associations start at the first port. -/
theorem starts_agree_three_ports :
    span ⟨20000, 20002⟩ = some 3 ∧ nextCount 1 = 2 ∧
      scanStartOffset 2 1 3 = 0 ∧ scanStartOffset 2 2 3 = 0 := by
  decide

end Alighieri.Proxy
