import Alighieri.Net.Addr
import Alighieri.Net.Str

/-!
# IP addresses in text

`IpAddr::from_str` as core::net::parser computes it: a recursive descent in which a part that
fails gives back what it read. `Ipv4Text` and `Ipv6Text` say which texts stand for an address.
-/

namespace Alighieri.Net
open List Option

variable {α : Type} {sep : Char} {index : ℕ} {octets : List ℕ}

/-! ### The parser -/

/- `char::to_digit`, for a radix up to 36. -/
def toDigit (radix : ℕ) (c : Char) : Option ℕ :=
  let digit :=
    if c.isDigit then c.toNat - 48
    else if 'a' ≤ c ∧ c ≤ 'z' then c.toNat - 87
    else if 'A' ≤ c ∧ c ≤ 'Z' then c.toNat - 55
    else radix
  if digit < radix then some digit else none

def readGivenChar (given : Char) : Text → Option Text
  | [] => none
  | c :: rest => if c = given then some rest else none

/- `read_separator`: the separator stands before every part but the first. -/
def readSeparator {α : Type} (sep : Char) (index : ℕ) (inner : Text → Option (α × Text))
    (s : Text) : Option (α × Text) :=
  if 0 < index then (readGivenChar sep s).bind inner else inner s

def readDigits (radix maxDigits : ℕ) : ℕ → ℕ → Text → Option (ℕ × ℕ × Text)
  | count, result, [] => some (count, result, [])
  | count, result, c :: rest =>
    match toDigit radix c with
    | none => some (count, result, c :: rest)
    | some digit =>
      if maxDigits < count + 1 then none
      else readDigits radix maxDigits (count + 1) (result * radix + digit) rest

/- The type read has `limit` for its largest value. -/
def readNumber (radix maxDigits : ℕ) (allowZeroPrefix : Bool) (limit : ℕ) (s : Text) :
    Option (ℕ × Text) :=
  match readDigits radix maxDigits 0 0 s with
  | none => none
  | some (digitCount, result, rest) =>
    if digitCount = 0 then none
    else if allowZeroPrefix = false ∧ s.head? = some '0' ∧ 1 < digitCount then none
    else if result ≤ limit then some (result, rest) else none

def readOctet : Text → Option (ℕ × Text) := readNumber 10 3 false 255

def readGroup : Text → Option (ℕ × Text) := readNumber 16 4 true 65535

def readOctets : ℕ → ℕ → Text → Option (List ℕ × Text)
  | _, 0, s => some ([], s)
  | index, left + 1, s =>
    match readSeparator '.' index readOctet s with
    | none => none
    | some (octet, rest) =>
      match readOctets (index + 1) left rest with
      | none => none
      | some (octets, rest) => some (octet :: octets, rest)

def join (base : ℕ) (parts : List ℕ) : ℕ := parts.foldl (fun v p => v * base + p) 0

def ipv4OfOctets (octets : List ℕ) : BitVec 32 := BitVec.ofNat 32 (join 256 octets)

def ipv6OfGroups (groups : List ℕ) : BitVec 128 := BitVec.ofNat 128 (join 65536 groups)

def readIpv4Addr (s : Text) : Option (BitVec 32 × Text) :=
  match readOctets 0 4 s with
  | none => none
  | some (octets, rest) => some (ipv4OfOctets octets, rest)

/- `read_groups`: the groups read, whether the last two are an embedded IPv4 address, and the
rest. An embedded address takes two of the slots. -/
def readGroups : ℕ → ℕ → Text → List ℕ × Bool × Text
  | _, 0, s => ([], false, s)
  | index, left + 1, s =>
    match if 0 < left then readSeparator ':' index readIpv4Addr s else none with
    | some (v4, rest) => ([v4.toNat / 65536, v4.toNat % 65536], true, rest)
    | none =>
      match readSeparator ':' index readGroup s with
      | none => ([], false, s)
      | some (group, rest) =>
        let (groups, ipv4, rest) := readGroups (index + 1) left rest
        (group :: groups, ipv4, rest)

def zeros (n : ℕ) : List ℕ := List.replicate n 0

def readIpv6Addr (s : Text) : Option (BitVec 128 × Text) :=
  let (head, headIpv4, rest) := readGroups 0 8 s
  if head.length = 8 then some (ipv6OfGroups head, rest)
  else if headIpv4 then none
  else
    match (readGivenChar ':' rest).bind (readGivenChar ':') with
    | none => none
    | some rest =>
      -- the `::` stands for one group at least
      let (tail, _, rest) := readGroups 0 (8 - (head.length + 1)) rest
      some (ipv6OfGroups (head ++ zeros (8 - head.length - tail.length) ++ tail), rest)

def readIpAddr (s : Text) : Option (IpAddr × Text) :=
  match readIpv4Addr s with
  | some (v4, rest) => some (.v4 v4, rest)
  | none => (readIpv6Addr s).map fun (v6, rest) => (.v6 v6, rest)

/- `IpAddr::from_str`: nothing may be left over. -/
def parseIpAddr (s : Text) : Option IpAddr :=
  match readIpAddr s with
  | some (ip, []) => some ip
  | _ => none

/-! ### What a text says -/

def Digits (radix : ℕ) (w : Text) : Prop := ∀ c ∈ w, (toDigit radix c).isSome

def digitsValue (radix : ℕ) (w : Text) (start : ℕ) : ℕ :=
  w.foldl (fun v c => v * radix + (toDigit radix c).getD 0) start

def Stops (radix : ℕ) (rest : Text) : Prop := ∀ c ∈ rest.head?, toDigit radix c = none

structure Numeral (radix maxDigits : ℕ) (allowZeroPrefix : Bool) (limit : ℕ) (w : Text)
    (n : ℕ) : Prop where
  digits : Digits radix w
  nonempty : w ≠ []
  short : w.length ≤ maxDigits
  zero : allowZeroPrefix = true ∨ w.head? ≠ some '0' ∨ w.length = 1
  value : n = digitsValue radix w 0
  fits : n ≤ limit

abbrev Octet (w : Text) (n : ℕ) : Prop := Numeral 10 3 false 255 w n
abbrev Group (w : Text) (n : ℕ) : Prop := Numeral 16 4 true 65535 w n

def lead (sep : Char) (index : ℕ) (w : Text) : Text := if 0 < index then sep :: w else w

def spell (sep : Char) : ℕ → List Text → Text
  | _, [] => []
  | index, w :: ws => lead sep index w ++ spell sep (index + 1) ws

/-- Four decimal octets without leading zeros and dots between them. -/
def Ipv4Text (s : Text) (bits : BitVec 32) : Prop :=
  ∃ ws octets, s = spell '.' 0 ws ∧ List.Forall₂ Octet ws octets ∧ octets.length = 4 ∧
    bits = ipv4OfOctets octets

/-- Groups of hexadecimal digits, of which an IPv4 address may stand for the last two. -/
inductive Groups : List Text → List ℕ → Bool → Prop
  | nil : Groups [] [] false
  | ipv4 {w : Text} {bits : BitVec 32} (h : Ipv4Text w bits) :
    Groups [w] [bits.toNat / 65536, bits.toNat % 65536] true
  | cons {w : Text} {g : ℕ} {ws : List Text} {gs : List ℕ} {b : Bool} (h : Group w g)
    (hs : Groups ws gs b) : Groups (w :: ws) (g :: gs) b

/-- Eight groups, or fewer with `::` for the zeros that are missing. -/
inductive Ipv6Text : Text → BitVec 128 → Prop
  | full {ws : List Text} {gs : List ℕ} {b : Bool} (h : Groups ws gs b) (h8 : gs.length = 8) :
    Ipv6Text (spell ':' 0 ws) (ipv6OfGroups gs)
  | short {hs ts : List Text} {head tail : List ℕ} {b : Bool} (hh : Groups hs head false)
    (ht : Groups ts tail b) (h7 : head.length + tail.length ≤ 7) :
    Ipv6Text (spell ':' 0 hs ++ ':' :: ':' :: spell ':' 0 ts)
      (ipv6OfGroups (head ++ zeros (8 - head.length - tail.length) ++ tail))

def IpText (s : Text) : IpAddr → Prop
  | .v4 bits => Ipv4Text s bits
  | .v6 bits => Ipv6Text s bits

/-! ### Numbers -/

variable {s rest : Text} {radix : ℕ} {bits : BitVec 128}

theorem readDigits_some {maxDigits count start n v : ℕ} (hcount : count ≤ maxDigits)
    (h : readDigits radix maxDigits count start s = some (n, v, rest)) :
    ∃ w, s = w ++ rest ∧ Digits radix w ∧ Stops radix rest ∧ n = count + w.length ∧
      n ≤ maxDigits ∧ v = digitsValue radix w start := by
  induction s generalizing count start with
  | nil =>
    rw [readDigits] at h
    cases h
    exact ⟨[], rfl, by simp [Digits], by simp [Stops], rfl, hcount, rfl⟩
  | cons c s ih =>
    rw [readDigits] at h
    split at h
    · rename_i hc
      cases h
      exact ⟨[], rfl, by simp [Digits], by simp [Stops, hc], rfl, hcount, rfl⟩
    · rename_i hc
      split at h
      · cases h
      obtain ⟨w, rfl, hw, hstop, rfl, hle, rfl⟩ := ih (by omega) h
      refine ⟨c :: w, rfl, ?_, hstop, ?_, hle, ?_⟩
      · intro x hx
        rcases mem_cons.mp hx with rfl | hx
        · rw [hc]
          rfl
        · exact hw x hx
      · rw [length_cons]
        omega
      · simp [digitsValue, hc]

theorem readDigits_append {maxDigits count start : ℕ} {w : Text} (hw : Digits radix w)
    (hstop : Stops radix rest) (hle : count + w.length ≤ maxDigits) :
    readDigits radix maxDigits count start (w ++ rest) =
      some (count + w.length, digitsValue radix w start, rest) := by
  induction w generalizing count start with
  | nil =>
    cases rest with
    | nil => rfl
    | cons c =>
      have hc : toDigit radix c = none := hstop c rfl
      simp [readDigits, hc, digitsValue]
  | cons c w ih =>
    obtain ⟨d, hd⟩ := isSome_iff_exists.mp (hw c (mem_cons_self))
    rw [length_cons] at hle
    have hrec := @ih (count + 1) (start * radix + d)
      (fun x hx => hw x (mem_cons_of_mem c hx)) (by omega)
    rw [cons_append, readDigits, hd]
    simp only
    rw [if_neg (by omega), hrec]
    simp [digitsValue, hd]
    omega

theorem readNumber_iff {maxDigits limit n : ℕ} {zeroes : Bool} :
    readNumber radix maxDigits zeroes limit s = some (n, rest) ↔
      ∃ w, s = w ++ rest ∧ Numeral radix maxDigits zeroes limit w n ∧ Stops radix rest := by
  constructor
  · intro h
    rw [readNumber] at h
    split at h
    · cases h
    rename_i count v tail hdigits
    obtain ⟨w, rfl, hw, hstop, hcount, hle, hv⟩ := readDigits_some (Nat.zero_le _) hdigits
    rw [Nat.zero_add] at hcount
    split at h
    · cases h
    rename_i hsome
    have hne : w ≠ [] := by
      rintro rfl
      exact hsome hcount
    split at h
    · cases h
    rename_i hzero
    split at h
    · rename_i hfits
      cases h
      refine ⟨w, rfl, ⟨hw, hne, hcount ▸ hle, ?_, hv, hfits⟩, hstop⟩
      cases zeroes with
      | true => exact .inl rfl
      | false =>
        by_cases hhead : w.head? = some '0'
        · refine .inr (.inr ?_)
          have hfirst : (w ++ rest).head? = some '0' := by
            rw [List.head?_append, hhead]
            rfl
          have hone : ¬ 1 < count := fun hlt => hzero ⟨rfl, hfirst, hlt⟩
          omega
        · exact .inr (.inl hhead)
    · cases h
  · rintro ⟨w, rfl, hnum, hstop⟩
    have hdigits := @readDigits_append rest radix maxDigits 0 0 w hnum.digits hstop
      (by rw [Nat.zero_add]; exact hnum.short)
    have hlen : w.length ≠ 0 := fun h => hnum.nonempty (length_eq_zero_iff.mp h)
    have hzero : ¬ (zeroes = false ∧ (w ++ rest).head? = some '0' ∧ 1 < w.length) := by
      rintro ⟨hz, hhead, hlt⟩
      rcases hnum.zero with h | h | h
      · rw [hz] at h
        cases h
      · cases w with
        | nil => exact hlen rfl
        | cons c w => exact h hhead
      · omega
    have hfits : digitsValue radix w 0 ≤ limit := hnum.value ▸ hnum.fits
    rw [readNumber, hdigits]
    simp only [Nat.zero_add]
    rw [if_neg hlen, if_neg hzero, if_pos hfits, hnum.value]

/-! ### Words and separators -/

theorem lead_append (sep : Char) (index : ℕ) (w rest : Text) :
    lead sep index w ++ rest = lead sep index (w ++ rest) := by
  unfold lead
  split <;> rfl

theorem spell_cons_append (sep : Char) (index : ℕ) (w rest : Text) (ws : List Text) :
    spell sep index (w :: ws) ++ rest = lead sep index (w ++ (spell sep (index + 1) ws ++ rest)) := by
  rw [spell, append_assoc, lead_append]

theorem readSeparator_lead (sep : Char) (index : ℕ) (inner : Text → Option (α × Text)) (s : Text) :
    readSeparator sep index inner (lead sep index s) = inner s := by
  unfold readSeparator lead
  split
  · simp [readGivenChar]
  · rfl

theorem readSeparator_some {inner : Text → Option (α × Text)} {r : α × Text}
    (h : readSeparator sep index inner s = some r) :
    ∃ s', s = lead sep index s' ∧ inner s' = some r := by
  unfold readSeparator at h
  unfold lead
  split at h
  · rename_i hindex
    obtain ⟨s', hgiven, hinner⟩ := bind_eq_some_iff.mp h
    refine ⟨s', ?_, hinner⟩
    rw [if_pos hindex]
    cases s with
    | nil => cases hgiven
    | cons c s =>
      rw [readGivenChar] at hgiven
      split at hgiven
      · rename_i hc
        cases hgiven
        rw [hc]
      · cases hgiven
  · rename_i hindex
    exact ⟨s, (if_neg hindex).symm, h⟩

theorem stops_spell (hsep : toDigit radix sep = none) (hrest : Stops radix rest) (index : ℕ)
    (ws : List Text) : Stops radix (spell sep (index + 1) ws ++ rest) := by
  cases ws with
  | nil => exact hrest
  | cons =>
    intro c hc
    cases hc
    exact hsep

/-! ### IPv4 -/

theorem readOctets_some {left : ℕ} (h : readOctets index left s = some (octets, rest)) :
    ∃ ws, s = spell '.' index ws ++ rest ∧ List.Forall₂ Octet ws octets ∧
      octets.length = left ∧ (0 < left → Stops 10 rest) := by
  induction left generalizing index s octets with
  | zero =>
    rw [readOctets] at h
    cases h
    exact ⟨[], rfl, .nil, rfl, fun h => absurd h (Nat.lt_irrefl 0)⟩
  | succ left ih =>
    rw [readOctets] at h
    split at h
    · cases h
    rename_i hoctet
    split at h
    · cases h
    rename_i hmore
    cases h
    obtain ⟨s', rfl, hread⟩ := readSeparator_some hoctet
    obtain ⟨w, rfl, hw, hstop⟩ := readNumber_iff.mp hread
    obtain ⟨ws, rfl, hws, hlen, hlast⟩ := ih hmore
    refine ⟨w :: ws, (spell_cons_append ..).symm, .cons hw hws, by rw [length_cons, hlen],
      fun _ => ?_⟩
    cases left with
    | zero =>
      rw [length_eq_zero_iff] at hlen
      subst hlen
      cases hws
      exact hstop
    | succ left => exact hlast (Nat.succ_pos left)

theorem readOctets_append {ws : List Text} (index : ℕ) (hws : List.Forall₂ Octet ws octets)
    (hstop : Stops 10 rest) :
    readOctets index octets.length (spell '.' index ws ++ rest) = some (octets, rest) := by
  induction hws generalizing index with
  | nil => rfl
  | @cons w o ws octets hw hws ih =>
    have hread : readOctet (w ++ (spell '.' (index + 1) ws ++ rest)) =
        some (o, spell '.' (index + 1) ws ++ rest) :=
      readNumber_iff.mpr ⟨w, rfl, hw, stops_spell (by decide) hstop index ws⟩
    rw [length_cons, readOctets, spell_cons_append, readSeparator_lead, hread]
    simp only
    rw [ih (index + 1)]

theorem readIpv4Addr_iff {bits : BitVec 32} :
    readIpv4Addr s = some (bits, rest) ↔ ∃ w, s = w ++ rest ∧ Ipv4Text w bits ∧ Stops 10 rest := by
  constructor
  · intro h
    rw [readIpv4Addr] at h
    split at h
    · cases h
    rename_i octets tail hoctets
    cases h
    obtain ⟨ws, rfl, hws, hlen, hstop⟩ := readOctets_some hoctets
    exact ⟨_, rfl, ⟨ws, octets, rfl, hws, hlen, rfl⟩, hstop (by decide)⟩
  · rintro ⟨w, rfl, ⟨ws, octets, rfl, hws, hlen, rfl⟩, hstop⟩
    have hread := readOctets_append 0 hws hstop
    rw [hlen] at hread
    rw [readIpv4Addr, hread]

/-! ### Groups -/

def AtColon (s : Text) : Prop := s = [] ∨ ∃ t, s = ':' :: t

def Ends (s : Text) : Prop := s = [] ∨ ∃ t, s = ':' :: ':' :: t

theorem Ends.atColon (h : Ends s) : AtColon s := by
  rcases h with rfl | ⟨t, rfl⟩
  · exact .inl rfl
  · exact .inr ⟨_, rfl⟩

theorem atColon_spell (h : AtColon rest) (index : ℕ) (ws : List Text) :
    AtColon (spell ':' (index + 1) ws ++ rest) := by
  cases ws with
  | nil => exact h
  | cons => exact .inr ⟨_, rfl⟩

theorem AtColon.stops (h : AtColon s) (hr : toDigit radix ':' = none) : Stops radix s := by
  rcases h with rfl | ⟨t, rfl⟩
  · intro c hc
    cases hc
  · intro c hc
    cases hc
    exact hr

theorem readNumber_of_stops {maxDigits limit : ℕ} {zeroes : Bool} (h : Stops radix s) :
    readNumber radix maxDigits zeroes limit s = none := by
  have hdigits := @readDigits_append s radix maxDigits 0 0 [] (by simp [Digits]) h (Nat.zero_le _)
  rw [nil_append] at hdigits
  rw [readNumber, hdigits]
  rfl

theorem readIpv4Addr_atColon (h : AtColon s) : readIpv4Addr s = none := by
  have hread : readOctet s = none := readNumber_of_stops (h.stops (by decide))
  have hfirst : readSeparator '.' 0 readOctet s = none := hread
  rw [readIpv4Addr, readOctets, hfirst]

theorem readGroup_atColon (h : AtColon s) : readGroup s = none :=
  readNumber_of_stops (h.stops (by decide))

theorem readSeparator_ends {inner : Text → Option (α × Text)} (h : Ends s) (index : ℕ)
    (hinner : ∀ t, AtColon t → inner t = none) : readSeparator ':' index inner s = none := by
  rcases h with rfl | ⟨t, rfl⟩
  · unfold readSeparator
    split
    · rfl
    · exact hinner [] (.inl rfl)
  · unfold readSeparator
    split
    · simpa [readGivenChar] using hinner (':' :: t) (.inr ⟨t, rfl⟩)
    · exact hinner _ (.inr ⟨_, rfl⟩)

theorem isSome_toDigit_sixteen {c : Char} (h : (toDigit 10 c).isSome) :
    (toDigit 16 c).isSome := by
  unfold toDigit at h ⊢
  by_cases hd : c.isDigit
  · have hlt : c.toNat - 48 < 10 := by
      by_contra hge
      simp [hd, hge] at h
    have hlt' : c.toNat - 48 < 16 := by omega
    simp [hd, hlt']
  · exfalso
    by_cases hl : 'a' ≤ c ∧ c ≤ 'z'
    · have hge : ¬ c.toNat - 87 < 10 := by
        have : 97 ≤ c.toNat := hl.1
        omega
      simp [hd, hl, hge] at h
    · by_cases hu : 'A' ≤ c ∧ c ≤ 'Z'
      · have hge : ¬ c.toNat - 55 < 10 := by
          have : 65 ≤ c.toNat := hu.1
          omega
        simp [hd, hl, hu, hge] at h
      · simp [hd, hl, hu] at h

theorem readIpv4Addr_group {w tail : Text} {g : ℕ} (hw : Group w g) (htail : AtColon tail) :
    readIpv4Addr (w ++ tail) = none := by
  rw [eq_none_iff_forall_ne_some]
  rintro ⟨bits, rest⟩ hread
  obtain ⟨v, hv, ⟨ws, octets, rfl, hws, hlen, -⟩, -⟩ := readIpv4Addr_iff.mp hread
  rcases hws with _ | ⟨hfirst, _ | ⟨hsecond, hmore⟩⟩
  · cases hlen
  · cases hlen
  · rw [spell_cons_append, spell_cons_append] at hv
    obtain ⟨-, htl⟩ := append_cut (p := fun c => (toDigit 16 c).isSome) hv hw.digits
      (fun c hc => isSome_toDigit_sixteen (hfirst.digits c hc))
      (fun c hc => by rw [htail.stops (by decide) c hc]; simp)
      (fun c hc => by cases hc; decide)
    rcases htail with rfl | ⟨t, rfl⟩ <;> cases htl

theorem readGroups_sound {left : ℕ} {gs : List ℕ} {b : Bool}
    (h : readGroups index left s = (gs, b, rest)) :
    ∃ ws, s = spell ':' index ws ++ rest ∧ Groups ws gs b ∧ gs.length ≤ left := by
  induction left generalizing index s gs b rest with
  | zero =>
    rw [readGroups] at h
    cases h
    exact ⟨[], rfl, .nil, le_refl _⟩
  | succ left ih =>
    rw [readGroups] at h
    split at h
    · rename_i hv4
      cases h
      split at hv4
      · obtain ⟨s', rfl, hread⟩ := readSeparator_some hv4
        obtain ⟨w, rfl, hw, -⟩ := readIpv4Addr_iff.mp hread
        refine ⟨[w], by rw [spell_cons_append]; rfl, .ipv4 hw, ?_⟩
        simp only [length_cons, length_nil]
        omega
      · cases hv4
    · split at h
      · cases h
        exact ⟨[], rfl, .nil, Nat.zero_le _⟩
      · rename_i rest' hgroup
        obtain ⟨s', rfl, hread⟩ := readSeparator_some hgroup
        obtain ⟨w, rfl, hw, -⟩ := readNumber_iff.mp hread
        cases h
        obtain ⟨ws, hws, hgs, hlen⟩ := ih (rfl : readGroups (index + 1) left rest' = _)
        refine ⟨w :: ws, ?_, .cons hw hgs, Nat.succ_le_succ hlen⟩
        rw [spell_cons_append, ← hws]

theorem readGroups_append {ws : List Text} {gs : List ℕ} {b : Bool} {left : ℕ} (index : ℕ)
    (hgs : Groups ws gs b) (hlen : gs.length ≤ left) (hrest : Ends rest) :
    readGroups index left (spell ':' index ws ++ rest) = (gs, b, rest) := by
  induction hgs generalizing index left with
  | nil =>
    cases left with
    | zero => rfl
    | succ =>
      have hv4 := readSeparator_ends hrest index fun t => readIpv4Addr_atColon
      have hgroup := readSeparator_ends hrest index fun t => readGroup_atColon
      rw [spell, nil_append, readGroups, hv4, hgroup]
      simp only [ite_self]
  | @ipv4 w bits hw =>
    obtain ⟨left, rfl⟩ : ∃ n, left = n + 2 := ⟨left - 2, by simp only [length_cons] at hlen; omega⟩
    have hread : readIpv4Addr (w ++ rest) = some (bits, rest) :=
      readIpv4Addr_iff.mpr ⟨w, rfl, hw, hrest.atColon.stops (by decide)⟩
    rw [readGroups, spell_cons_append, readSeparator_lead, spell, nil_append, hread,
      if_pos (Nat.succ_pos left)]
  | @cons w g ws gs b hw hgs ih =>
    obtain ⟨left, rfl⟩ : ∃ n, left = n + 1 := ⟨left - 1, by rw [length_cons] at hlen; omega⟩
    have hcolon := atColon_spell hrest.atColon index ws
    have hv4 := readIpv4Addr_group hw hcolon
    have hread : readGroup (w ++ (spell ':' (index + 1) ws ++ rest)) =
        some (g, spell ':' (index + 1) ws ++ rest) :=
      readNumber_iff.mpr ⟨w, rfl, hw, hcolon.stops (by decide)⟩
    rw [length_cons] at hlen
    rw [readGroups, spell_cons_append, readSeparator_lead, readSeparator_lead, hv4, hread]
    simp only [ite_self]
    rw [ih (index + 1) (by omega)]

/-! ### IPv6 -/

theorem readGivenChar_colons (h : (readGivenChar ':' s).bind (readGivenChar ':') = some rest) :
    s = ':' :: ':' :: rest := by
  have hgiven : ∀ {s rest : Text}, readGivenChar ':' s = some rest → s = ':' :: rest := by
    intro s rest h
    cases s with
    | nil => cases h
    | cons c s =>
      rw [readGivenChar] at h
      split at h
      · rename_i hc
        cases h
        rw [hc]
      · cases h
  obtain ⟨t, ht, hrest⟩ := bind_eq_some_iff.mp h
  rw [hgiven ht, hgiven hrest]

theorem readIpv6Addr_sound (h : readIpv6Addr s = some (bits, [])) : Ipv6Text s bits := by
  rw [readIpv6Addr] at h
  rcases hhead : readGroups 0 8 s with ⟨head, headIpv4, rest⟩
  rw [hhead] at h
  obtain ⟨hs, rfl, hgroups, hle⟩ := readGroups_sound hhead
  simp only at h
  split at h
  · rename_i h8
    cases h
    rw [append_nil]
    exact .full hgroups h8
  · rename_i h8
    split at h
    · cases h
    rename_i hipv4
    rw [Bool.not_eq_true] at hipv4
    subst hipv4
    split at h
    · cases h
    rename_i rest' hcolons
    rcases htail : readGroups 0 (8 - (head.length + 1)) rest' with ⟨tail, tailIpv4, last⟩
    rw [htail] at h
    simp only at h
    cases h
    obtain ⟨ts, rfl, htails, htle⟩ := readGroups_sound htail
    rw [readGivenChar_colons hcolons, append_nil]
    exact .short hgroups htails (by omega)

theorem Ipv6Text.read (h : Ipv6Text s bits) : readIpv6Addr s = some (bits, []) := by
  cases h with
  | @full ws gs b h h8 =>
    have hread := readGroups_append 0 h (le_of_eq h8) (.inl rfl)
    rw [append_nil] at hread
    rw [readIpv6Addr, hread]
    simp only [h8, if_true]
  | @short hs ts head tail b hh ht h7 =>
    have hhead := @readGroups_append (':' :: ':' :: spell ':' 0 ts) hs head false 8 0 hh (by omega)
      (.inr ⟨_, rfl⟩)
    have htail := @readGroups_append [] ts tail b (8 - (head.length + 1)) 0 ht (by omega) (.inl rfl)
    have hne : head.length ≠ 8 := by omega
    rw [append_nil] at htail
    rw [readIpv6Addr, hhead]
    simp only [hne, if_false, readGivenChar, if_true, bind_some, Bool.false_eq_true]
    rw [htail]

theorem Ipv6Text.not_ipv4 (h : Ipv6Text s bits) : readIpv4Addr s = none := by
  cases h with
  | @full ws gs b h h8 =>
    cases h with
    | nil | ipv4 _ => cases h8
    | @cons w g ws gs b hw hgs =>
      have hcolon := atColon_spell (.inl rfl : AtColon []) 0 ws
      rw [append_nil] at hcolon
      exact readIpv4Addr_group hw hcolon
  | @short hs ts head tail b hh =>
    have hcolons : AtColon (':' :: ':' :: spell ':' 0 ts) := .inr ⟨_, rfl⟩
    cases hh with
    | nil => exact readIpv4Addr_atColon hcolons
    | @cons w g ws gs _ hw hgs =>
      rw [spell_cons_append]
      exact readIpv4Addr_group hw (atColon_spell hcolons 0 ws)

/-- `IpAddr::from_str` accepts the texts of the two families and reads each as what it says. -/
theorem parseIpAddr_iff {ip : IpAddr} : parseIpAddr s = some ip ↔ IpText s ip := by
  have hv4 : ∀ bits, readIpv4Addr s = some (bits, []) ↔ Ipv4Text s bits := by
    intro bits
    rw [readIpv4Addr_iff]
    constructor
    · rintro ⟨w, rfl, hw, -⟩
      rwa [append_nil]
    · exact fun h => ⟨s, (append_nil s).symm, h, fun c hc => by cases hc⟩
  constructor
  · intro h
    rw [parseIpAddr] at h
    split at h
    · rename_i hread
      cases h
      rw [readIpAddr] at hread
      split at hread
      · rename_i v4 rest hread4
        cases hread
        exact (hv4 v4).mp hread4
      · obtain ⟨⟨v6, rest⟩, hread6, heq⟩ := map_eq_some_iff.mp hread
        cases heq
        exact readIpv6Addr_sound hread6
    · cases h
  · intro h
    cases ip with
    | v4 bits => rw [parseIpAddr, readIpAddr, (hv4 bits).mpr h]
    | v6 bits =>
      have h6 : Ipv6Text s bits := h
      rw [parseIpAddr, readIpAddr, h6.not_ipv4]
      simp only [h6.read, map_some]

example : parseIpAddr "::ffff:1.2.3.4".toList = some (.v6 0xffff01020304) := by decide +kernel

example : parseIpAddr "1.2.3.04".toList = none := by decide +kernel

end Alighieri.Net
