import Alighieri.Config.RuleBlock

/-!
# What the directives of a rule accept

The values of an accepted directive are all values it takes, `log` apart, and some request
satisfies them.
-/

namespace Alighieri.Config
open Net Acl List
open Socks5 (Error)

/-- An address, and behind it the word `port` with a range. -/
def AddressValues (hosts : Bool) (vals : List Text) : Prop :=
  ∃ addr rest, vals = addr :: rest ∧
    ((∃ network len, Cidr.Writes addr network len) ∨
      (hosts = true ∧ ∃ p, HostPattern.parse addr = .ok p)) ∧
    (rest = [] ∨ ∃ kw range, rest = kw :: range ∧ toAsciiLowercase kw = "port".toList ∧
      ∀ w ∈ range, w = ['='] ∨ ∀ c ∈ w, RangeChar c)

/-- At least one word, and only words of a list, in any case. -/
def WordValues (words vals : List Text) : Prop :=
  vals ≠ [] ∧ ∀ v ∈ vals, toAsciiLowercase v ∈ words

/- A digit, a sign, a letter of a unit, or what stands between numbers. -/
def RateChar (c : Char) : Prop :=
  c.toLower.isDigit ∨ c.toLower ∈ ['+', '_', '/', 'k', 'm', 'g', 'i', 'b']

/-- The words of a byte rate. -/
def RateValues (vals : List Text) : Prop :=
  vals ≠ [] ∧ ∀ w ∈ vals, w = ['='] ∨ ∀ c ∈ w, RateChar c

/-- The word names a directive, and the values are ones that this directive takes. Nothing is
written behind `log`. -/
def Directive.Takes (scope : Scope) (d : Directive) : Prop :=
  match d.key with
  | some .source => AddressValues false d.vals
  | some .dest => AddressValues (scope == .socks) d.vals
  | some .protocol => WordValues ["tcp".toList, "udp".toList] d.vals
  | some .command =>
    WordValues ["connect".toList, "bind".toList, "udpassociate".toList, "udp".toList] d.vals
  | some .method => WordValues ["none".toList, "username".toList] d.vals
  | some .bandwidth => RateValues d.vals
  | some .log => d.vals = []
  | none => False

variable {addr w : Text} {rest vals : List Text} {ports : Option PortRange} {hosts : Bool}
  {spec : AddrSpec}

/-! ### Addresses and ports -/

theorem parsePorts_ok {lineno : ℕ} (h : parsePorts addr lineno rest = .ok ports) :
    (rest = [] ∧ ports = none) ∨
      ∃ kw spec range, rest = kw :: spec ∧ toAsciiLowercase kw = "port".toList ∧
        PortRange.fromStr (rangeTokens spec).flatten = .ok range ∧ ports = some range := by
  cases rest with
  | nil =>
    cases h
    exact .inl ⟨rfl, rfl⟩
  | cons kw spec =>
    rw [parsePorts] at h
    split at h
    · rename_i hkw
      split at h
      · cases h
      split at h
      · cases h
      split at h
      · rename_i range hrange
        cases h
        exact .inr ⟨kw, spec, range, rfl, hkw, hrange, rfl⟩
      · cases h
    · cases h

theorem parseAddrSpec_ok {lineno : ℕ} (h : parseAddrSpec vals lineno hosts = .ok spec) :
    ∃ addr rest ports, vals = addr :: rest ∧ parsePorts addr lineno rest = .ok ports ∧
      ((∃ cidr, Cidr.fromStr addr = .ok cidr ∧ spec = .new cidr ports) ∨
        (hosts = true ∧ ∃ p, HostPattern.parse addr = .ok p ∧ spec = .host p ports)) := by
  cases vals with
  | nil => cases h
  | cons addr rest =>
    rw [parseAddrSpec] at h
    obtain ⟨ports, hports, h⟩ := Except.of_bind_ok h
    refine ⟨addr, rest, ports, rfl, hports, ?_⟩
    split at h
    · rename_i cidr hcidr
      cases h
      exact .inl ⟨cidr, hcidr, rfl⟩
    · split at h
      · rename_i hhosts
        split at h
        · rename_i p hp
          cases h
          exact .inr ⟨hhosts, p, hp, rfl⟩
        · cases h
      · cases h

theorem parsePorts_inhabited {lineno : ℕ} (h : parsePorts addr lineno rest = .ok ports) :
    ∃ port ≤ 65535, ∀ cidrs hosts, (⟨cidrs, hosts, ports⟩ : AddrSpec).portMatches port = true := by
  rcases parsePorts_ok h with ⟨-, rfl⟩ | ⟨kw, spec, range, -, -, hrange, rfl⟩
  · exact ⟨0, Nat.zero_le _, fun _ _ => rfl⟩
  · obtain ⟨hle, hmax⟩ := PortRange.fromStr_bounds hrange
    exact ⟨range.min, Nat.le_trans hle hmax, fun _ _ => decide_eq_true ⟨Nat.le_refl _, hle⟩⟩

theorem parseAddrSpec_inhabited {lineno : ℕ} (h : parseAddrSpec vals lineno false = .ok spec) :
    ∃ ip, ∃ port ≤ 65535, spec.matches ip port = true := by
  obtain ⟨addr, rest, ports, -, hports, hspec⟩ := parseAddrSpec_ok h
  obtain ⟨port, hle, hport⟩ := parsePorts_inhabited hports
  rcases hspec with ⟨cidr, hcidr, rfl⟩ | ⟨hhosts, -⟩
  · obtain ⟨ip, hip⟩ := Cidr.fromStr_inhabited hcidr
    refine ⟨ip, port, hle, ?_⟩
    simp only [AddrSpec.matches, AddrSpec.new, any_cons, hip, Bool.true_or, Bool.true_and]
    exact hport _ _
  · cases hhosts

theorem parseAddrSpec_dest_inhabited {lineno : ℕ} (h : parseAddrSpec vals lineno hosts = .ok spec) :
    ∃ host ip, ∃ port ≤ 65535, spec.matchesDest host ip port = true := by
  obtain ⟨addr, rest, ports, -, hports, hspec⟩ := parseAddrSpec_ok h
  obtain ⟨port, hle, hport⟩ := parsePorts_inhabited hports
  rcases hspec with ⟨cidr, hcidr, rfl⟩ | ⟨-, p, -, rfl⟩
  · obtain ⟨ip, hip⟩ := Cidr.fromStr_inhabited hcidr
    refine ⟨none, ip, port, hle, ?_⟩
    rw [AddrSpec.matchesDest, AddrSpec.new, hport]
    simp only [any_cons, hip, Bool.true_or, Bool.true_and]
  · obtain ⟨host, hhost⟩ := p.inhabited
    refine ⟨some host, .v4 0, port, hle, ?_⟩
    rw [AddrSpec.matchesDest, AddrSpec.host, hport]
    simp only [any_nil, any_cons, Option.any_some, hhost, Bool.true_or, Bool.or_true,
      Bool.true_and]

theorem parseAddrSpec_values {lineno : ℕ} (h : parseAddrSpec vals lineno hosts = .ok spec) :
    AddressValues hosts vals := by
  obtain ⟨addr, rest, ports, rfl, hports, hspec⟩ := parseAddrSpec_ok h
  refine ⟨addr, rest, rfl, ?_, ?_⟩
  · rcases hspec with ⟨cidr, hcidr, -⟩ | ⟨hhosts, p, hp, -⟩
    · obtain ⟨network, len, hwritten, -⟩ := Cidr.fromStr_new hcidr
      exact .inl ⟨network, len, hwritten⟩
    · exact .inr ⟨hhosts, p, hp⟩
  · rcases parsePorts_ok hports with ⟨rfl, -⟩ | ⟨kw, spec, range, rfl, hkw, hrange, -⟩
    · exact .inl rfl
    · refine .inr ⟨kw, spec, rfl, hkw, fun w hw => ?_⟩
      by_cases heq : w = ['=']
      · exact .inl heq
      · refine .inr fun c hc => PortRange.fromStr_char hrange c (mem_flatten.mpr ⟨w, ?_, hc⟩)
        rw [rangeTokens]
        split
        · -- the leading `=` is another word
          cases spec with
          | nil => cases hw
          | cons eq rest =>
            rename_i hhead
            cases hhead
            exact (mem_cons.mp hw).resolve_left heq
        · exact hw

/-! ### Word lists -/

section
variable {α : Type} [DecidableEq α] {table : List (Text × α)} {what expected : String} {lineno : ℕ}

theorem parseWords_loop {start out : List α} (h : vals.foldlM (fun out v =>
      match table.lookup (toAsciiLowercase v) with
      | some a => .ok (if a ∈ out then out else out ++ [a])
      | none =>
        .error (cfgErr lineno ("unknown " ++ what ++ " '" ++ String.ofList (toAsciiLowercase v) ++
          "' (expected " ++ expected ++ ")"))) start = (.ok out : Except Error (List α))) :
    (∀ v ∈ vals, ∃ a, table.lookup (toAsciiLowercase v) = some a) ∧
      ∀ a, a ∈ out ↔ a ∈ start ∨ ∃ v ∈ vals, table.lookup (toAsciiLowercase v) = some a := by
  induction vals generalizing start with
  | nil =>
    cases h
    simp
  | cons v vals ih =>
    rw [foldlM_cons] at h
    obtain ⟨next, hnext, h⟩ := Except.of_bind_ok h
    obtain ⟨hall, hmem⟩ := ih h
    cases hlookup : table.lookup (toAsciiLowercase v) with
    | none =>
      rw [hlookup] at hnext
      cases hnext
    | some b =>
      rw [hlookup] at hnext
      cases hnext
      refine ⟨?_, fun a => ?_⟩
      · intro u hu
        rcases mem_cons.mp hu with rfl | hu
        · exact ⟨b, hlookup⟩
        · exact hall u hu
      · have hset : a ∈ (if b ∈ start then start else start ++ [b]) ↔ a ∈ start ∨ b = a := by
          grind
        rw [hmem, hset, or_assoc]
        simp [hlookup]

theorem parseWords_mem {out : List α} (h : parseWords table what expected lineno vals = .ok out) :
    (vals ≠ [] ∧ ∀ v ∈ vals, ∃ a, table.lookup (toAsciiLowercase v) = some a) ∧
      ∀ a, a ∈ out ↔ ∃ v ∈ vals, table.lookup (toAsciiLowercase v) = some a := by
  rw [parseWords] at h
  split at h
  · cases h
  rename_i hvals
  obtain ⟨hall, hmem⟩ := parseWords_loop h
  exact ⟨⟨hvals, hall⟩, fun a => by simp [hmem]⟩

theorem parseWords_ne_nil {out : List α}
    (h : parseWords table what expected lineno vals = .ok out) : out ≠ [] := by
  obtain ⟨⟨hvals, hall⟩, hmem⟩ := parseWords_mem h
  obtain ⟨v, hv⟩ := exists_mem_of_ne_nil vals hvals
  obtain ⟨a, ha⟩ := hall v hv
  exact ne_nil_of_mem ((hmem a).mpr ⟨v, hv, ha⟩)

theorem parseWords_values {out : List α}
    (h : parseWords table what expected lineno vals = .ok out) :
    WordValues (table.map Prod.fst) vals := by
  obtain ⟨⟨hvals, hall⟩, -⟩ := parseWords_mem h
  refine ⟨hvals, fun v hv => ?_⟩
  obtain ⟨a, ha⟩ := hall v hv
  obtain ⟨before, after, htable, -⟩ := lookup_eq_some_iff.mp ha
  exact mem_map.mpr ⟨(toAsciiLowercase v, a), by simp [htable], rfl⟩

end

theorem tcp_mem_iff {lineno : ℕ} {out : List Protocol} (h : parseProtocols vals lineno = .ok out) :
    .tcp ∈ out ↔ ∃ v ∈ vals, toAsciiLowercase v = "tcp".toList := by
  have hlookup : ∀ t : Text, [("tcp".toList, Protocol.tcp), ("udp".toList, .udp)].lookup t =
      some .tcp ↔ t = "tcp".toList := by
    intro t
    simp only [lookup_cons, lookup_nil]
    split
    · rename_i heq
      simpa using heq
    · split <;> simp_all
  rw [(parseWords_mem h).2]
  simp only [hlookup]

/-! ### Rates -/

theorem toLower_eq_self {c : Char} (h : c.isDigit ∨ c = '+') : c.toLower = c := by
  have hlow : c.toNat < 65 := by
    rcases h with h | rfl
    · have := Decimal.digit_toNat h
      omega
    · decide
  refine dif_neg fun hupper => ?_
  have hge : 65 ≤ c.toNat := hupper.1
  omega

theorem mem_splitUnit {raw : Text} {c : Char} (hc : c ∈ raw) (units : List (Text × ℕ)) :
    c ∈ (splitUnit raw units).1 ∨ ∃ unit ∈ units, c ∈ unit.1 := by
  induction units with
  | nil => exact .inl hc
  | cons unit units ih =>
    rw [splitUnit]
    split
    · rename_i hnumber
      rw [stripEnd_eq_some.mp hnumber, mem_append] at hc
      rcases hc with hc | hc
      · exact .inl hc
      · exact .inr ⟨unit, mem_cons_self, hc⟩
    · exact ih.imp_right fun ⟨u, hu, hmem⟩ => ⟨u, mem_cons_of_mem _ hu, hmem⟩

theorem parseU64_rateChar {s : Text} {n : ℕ} (h : parseU64 (s.filter (· ≠ '_')) = some n) {c : Char}
    (hc : c ∈ s) : (c.isDigit ∨ c = '+') ∨ c = '_' := by
  by_cases hbar : c = '_'
  · exact .inr hbar
  · exact .inl (parseUnsigned_char h c (mem_filter.mpr ⟨hc, decide_eq_true hbar⟩))

theorem parseByteSize_rateChar {val : Text} {lineno : ℕ} {n : { n : ℕ // n ≤ maxU64 }}
    (h : parseByteSize val lineno = .ok n) : ∀ c ∈ val, RateChar c := by
  have hne : val ≠ ['='] := by
    rintro rfl
    cases h
  have hjoin : joinValueAfter [val] = val := by
    simp [joinValueAfter, hne]
  rw [parseByteSize, hjoin] at h
  simp only at h
  split at h
  · cases h
  rename_i hnumber
  intro c hc
  have hlower : c.toLower ∈ toAsciiLowercase val := mem_map.mpr ⟨c, hc, rfl⟩
  rcases mem_splitUnit hlower byteUnits with hmem | ⟨unit, hunit, hmem⟩
  · rcases parseU64_rateChar hnumber hmem with (hdigit | hplus) | hbar
    · exact .inl hdigit
    · exact .inr (by simp [hplus])
    · exact .inr (by simp [hbar])
  · have hletters : ∀ unit ∈ byteUnits, ∀ c ∈ unit.1,
        c ∈ ['+', '_', '/', 'k', 'm', 'g', 'i', 'b'] := by simp [byteUnits]
    exact .inr (hletters unit hunit _ hmem)

theorem parseByteRateLimit_values {lineno : ℕ} {setting : String} {limit : RateLimit}
    (h : parseByteRateLimit vals lineno setting = .ok limit) : RateValues vals := by
  rw [parseByteRateLimit] at h
  split at h
  · cases h
  rename_i hvals
  split at h
  · cases h
  rename_i bytes window hsplit
  obtain ⟨n, hn, h⟩ := Except.of_bind_ok h
  split at h
  · cases h
  rename_i hsecs
  refine ⟨hvals, fun w hw => ?_⟩
  by_cases heq : w = ['=']
  · exact .inl heq
  · refine .inr fun c hc => ?_
    have hjoin : c ∈ joinValueAfter vals :=
      mem_flatten.mpr ⟨w, mem_filter.mpr ⟨hw, decide_eq_true heq⟩, hc⟩
    rcases mem_of_splitOnce hsplit hjoin with hmem | rfl | hmem
    · exact parseByteSize_rateChar hn c hmem
    · exact .inr (by decide)
    · rcases parseU64_rateChar hsecs hmem with hdigit | rfl
      · rw [RateChar, toLower_eq_self hdigit]
        exact hdigit.imp_right fun hplus => by simp [hplus]
      · exact .inr (by decide)

end Alighieri.Config
