import Alighieri.Net.SpecText
import Alighieri.Socks5

/-!
# What a host pattern matches (net.rs:310-367)

`matches` compares bytes without regard to ASCII case and, for a suffix, cuts the host where the
domain would begin if the byte before it is a dot. In UTF-8 such a byte is a dot of the text, so
the comparison is one of labels.
-/

namespace Alighieri.Net
open List

variable {c : Char}

/-! ### ASCII case in text and in its bytes -/

theorem forall_ascii {p : Char → Prop} (h : ∀ n : Fin 128, p (Char.ofNat n)) (hc : c.toNat < 128) :
    p c := by
  have hn := h ⟨c.toNat, hc⟩
  rwa [Char.ofNat_toNat] at hn

theorem toLower_ascii (h : c.toNat < 128) :
    c.toLower.toNat < 128 ∧ asciiLower (UInt8.ofNat c.toNat) = UInt8.ofNat c.toLower.toNat :=
  forall_ascii (p := fun c => c.toLower.toNat < 128 ∧
    asciiLower (UInt8.ofNat c.toNat) = UInt8.ofNat c.toLower.toNat) (by decide) h

theorem toLower_of_not_ascii (h : 128 ≤ c.toNat) : c.toLower = c := by
  have hnot : ¬ (c.val ≥ 'A'.val ∧ c.val ≤ 'Z'.val) := by
    rintro ⟨-, hle⟩
    have hle' : c.toNat ≤ 90 := hle
    omega
  exact dif_neg hnot

theorem toLower_eq_dot (c : Char) : c.toLower = '.' ↔ c = '.' := by
  by_cases h : c.toNat < 128
  · exact forall_ascii (p := fun c => c.toLower = '.' ↔ c = '.') (by decide) h
  · rw [toLower_of_not_ascii (by omega)]

theorem high_of_mem_utf8EncodeChar {b : UInt8} (h : 128 ≤ c.toNat)
    (hb : b ∈ String.utf8EncodeChar c) : 128 ≤ b.toNat := by
  have hv : ¬ c.val.toNat ≤ 127 := Nat.not_le.mpr h
  rw [String.utf8EncodeChar.eq_def] at hb
  simp only [hv, if_false] at hb
  split at hb
  · simp only [List.mem_cons, List.not_mem_nil, or_false] at hb
    rcases hb with rfl | rfl <;> simp only [UInt8.toNat_ofNat'] <;> omega
  · split at hb
    · simp only [List.mem_cons, List.not_mem_nil, or_false] at hb
      rcases hb with rfl | rfl | rfl <;> simp only [UInt8.toNat_ofNat'] <;> omega
    · simp only [List.mem_cons, List.not_mem_nil, or_false] at hb
      rcases hb with rfl | rfl | rfl | rfl <;> simp only [UInt8.toNat_ofNat'] <;> omega

theorem asciiLower_high {b : UInt8} (h : 128 ≤ b.toNat) : asciiLower b = b := by
  refine if_neg ?_
  rintro ⟨-, hle⟩
  have hle' : b.toNat ≤ 90 := hle
  omega

theorem utf8EncodeChar_lower (c : Char) :
    (String.utf8EncodeChar c).map asciiLower = String.utf8EncodeChar c.toLower := by
  by_cases h : c.toNat < 128
  · obtain ⟨hlow, heq⟩ := toLower_ascii h
    rw [utf8EncodeChar_ascii h, utf8EncodeChar_ascii hlow, map_singleton, heq]
  · have hge : 128 ≤ c.toNat := Nat.le_of_not_lt h
    rw [toLower_of_not_ascii hge]
    have hsame : ∀ b ∈ String.utf8EncodeChar c, asciiLower b = b :=
      fun b hb => asciiLower_high (high_of_mem_utf8EncodeChar hge hb)
    rw [map_congr_left hsame, map_id']

theorem asBytes_lower (s : Text) : (asBytes s).map asciiLower = asBytes (toAsciiLowercase s) := by
  induction s with
  | nil => rfl
  | cons c s ih =>
    show (String.utf8EncodeChar c ++ asBytes s).map asciiLower =
      String.utf8EncodeChar c.toLower ++ asBytes (toAsciiLowercase s)
    rw [map_append, utf8EncodeChar_lower, ih]

theorem eqIgnoreAsciiCase_iff (s t : Text) :
    eqIgnoreAsciiCase (asBytes s) (asBytes t) = true ↔ toAsciiLowercase s = toAsciiLowercase t := by
  rw [eqIgnoreAsciiCase, beq_iff_eq, asBytes_lower, asBytes_lower]
  exact ⟨Socks5.asBytes_inj, fun h => by rw [h]⟩

theorem dot_of_asBytes {s : Text} {x y : List UInt8} (h : asBytes s = x ++ 46 :: y) :
    ∃ a b, s = a ++ '.' :: b ∧ asBytes a = x ∧ asBytes b = y := by
  induction s generalizing x with
  | nil => cases x <;> cases h
  | cons c s ih =>
    have hcons : String.utf8EncodeChar c ++ asBytes s = x ++ 46 :: y := h
    by_cases hc : c.toNat < 128
    · rw [utf8EncodeChar_ascii hc, singleton_append] at hcons
      cases x with
      | nil =>
        obtain ⟨hbyte, hrest⟩ := cons.inj hcons
        have hn : c.toNat = 46 := by
          have hbyte' : (UInt8.ofNat c.toNat).toNat = 46 := congrArg UInt8.toNat hbyte
          rw [UInt8.toNat_ofNat'] at hbyte'
          omega
        have hdot : c = '.' := by
          rw [← Char.ofNat_toNat c, hn]
        exact ⟨[], s, by rw [hdot]; rfl, rfl, hrest⟩
      | cons b x =>
        obtain ⟨hbyte, hrest⟩ := cons.inj hcons
        obtain ⟨a, t, rfl, ha, ht⟩ := ih hrest
        refine ⟨c :: a, t, rfl, ?_, ht⟩
        show String.utf8EncodeChar c ++ asBytes a = b :: x
        rw [utf8EncodeChar_ascii hc, ha, hbyte]
        rfl
    · -- none of the bytes of `c` is a dot, so they all stand before it
      have hge : 128 ≤ c.toNat := Nat.le_of_not_lt hc
      rcases append_eq_append_iff.mp hcons with ⟨m, hx, hm⟩ | ⟨m, hx, hm⟩
      · obtain ⟨a, t, rfl, ha, ht⟩ := ih hm
        refine ⟨c :: a, t, rfl, ?_, ht⟩
        show String.utf8EncodeChar c ++ asBytes a = x
        rw [ha, hx]
      · cases m with
        | nil =>
          rw [append_nil] at hx
          obtain ⟨a, t, rfl, ha, ht⟩ := ih (x := []) hm.symm
          refine ⟨c :: a, t, rfl, ?_, ht⟩
          show String.utf8EncodeChar c ++ asBytes a = x
          rw [ha, hx, append_nil]
        | cons b m =>
          obtain ⟨rfl, -⟩ := cons.inj hm
          have hmem : (46 : UInt8) ∈ String.utf8EncodeChar c := by
            rw [hx]
            simp
          exact absurd (high_of_mem_utf8EncodeChar hge hmem) (by decide)

/-! ### Cutting a text at a byte -/

/- `&s[n..]`, which panics unless the byte `n` begins a character. -/
def sliceFrom : Text → ℕ → Option Text
  | s, 0 => some s
  | [], _ + 1 => none
  | c :: s, n + 1 => if c.utf8Size ≤ n + 1 then sliceFrom s (n + 1 - c.utf8Size) else none

theorem sliceFrom_append (s t : Text) : sliceFrom (s ++ t) (utf8Len s) = some t := by
  induction s with
  | nil => cases t <;> rfl
  | cons c s ih =>
    have hpos : 0 < c.utf8Size := Char.utf8Size_pos c
    have hlen : utf8Len (c :: s) = c.utf8Size + utf8Len s := rfl
    obtain ⟨n, hn⟩ : ∃ n, utf8Len (c :: s) = n + 1 := ⟨utf8Len (c :: s) - 1, by omega⟩
    have hrest : n + 1 - c.utf8Size = utf8Len s := by omega
    rw [cons_append, hn, sliceFrom, if_pos (by omega), hrest, ih]

/-- `matches` with its panics: the index of the byte before the domain and the slice that
begins with the domain. -/
def HostPattern.tryMatches (p : HostPattern) (host : Text) : Option Bool :=
  match p with
  | .exact h => some (eqIgnoreAsciiCase (asBytes (stripDot host)) (asBytes h))
  | .suffix domain =>
    if eqIgnoreAsciiCase (asBytes (stripDot host)) (asBytes domain) then some true
    else if utf8Len domain < utf8Len (stripDot host) then
      match (asBytes (stripDot host))[utf8Len (stripDot host) - utf8Len domain - 1]? with
      | none => none
      | some b =>
        if b = 46 then
          (sliceFrom (stripDot host) (utf8Len (stripDot host) - utf8Len domain)).map fun tail =>
            eqIgnoreAsciiCase (asBytes tail) (asBytes domain)
        else some false
    else some false

theorem exists_cut {host : Text} {n : ℕ} (hlen : n < utf8Len host)
    (hdot : (asBytes host)[utf8Len host - n - 1]? = some 46) :
    ∃ start tail, host = start ++ '.' :: tail ∧ utf8Len start + 1 = utf8Len host - n ∧
      (asBytes host).drop (utf8Len host - n) = asBytes tail := by
  obtain ⟨hi, hget⟩ := List.getElem?_eq_some_iff.mp hdot
  have hsucc : utf8Len host - n - 1 + 1 = utf8Len host - n := by omega
  have hsplit : asBytes host = (asBytes host).take (utf8Len host - n - 1) ++
      46 :: (asBytes host).drop (utf8Len host - n) := by
    have hcons := getElem_cons_drop hi
    rw [hget, hsucc] at hcons
    rw [hcons, take_append_drop]
  obtain ⟨start, tail, hhost, hstart, htail⟩ := dot_of_asBytes hsplit
  refine ⟨start, tail, hhost, ?_, htail.symm⟩
  have hl := congrArg List.length hstart
  rw [asBytes_length, length_take] at hl
  omega

theorem endsInDomain_iff (host domain : Text) :
    endsInDomain (asBytes host) (asBytes domain) = true ↔
      ∃ start tail, host = start ++ '.' :: tail ∧
        toAsciiLowercase tail = toAsciiLowercase domain := by
  simp only [endsInDomain, Bool.and_eq_true, decide_eq_true_eq, beq_iff_eq, asBytes_length]
  constructor
  · rintro ⟨⟨hlen, hdot⟩, heq⟩
    obtain ⟨start, tail, hhost, -, htail⟩ := exists_cut hlen hdot
    rw [htail] at heq
    exact ⟨start, tail, hhost, (eqIgnoreAsciiCase_iff _ _).mp heq⟩
  · rintro ⟨start, tail, rfl, hlow⟩
    have heq := (eqIgnoreAsciiCase_iff tail domain).mpr hlow
    have hsame : utf8Len tail = utf8Len domain := by
      have h := congrArg List.length (beq_iff_eq.mp heq)
      simpa only [length_map, asBytes_length] using h
    have hcons : ('.' :: tail : Text) = ['.'] ++ tail := rfl
    have hlen : utf8Len (start ++ '.' :: tail) = utf8Len start + 1 + utf8Len domain := by
      rw [← asBytes_length, hcons, asBytes_append, asBytes_append, length_append,
        length_append, asBytes_length, asBytes_length, asBytes_length, hsame]
      show utf8Len start + (1 + utf8Len domain) = _
      omega
    have hidx : utf8Len start + 1 + utf8Len domain - utf8Len domain - 1 = utf8Len start := by omega
    have hdrop : utf8Len start + 1 + utf8Len domain - utf8Len domain =
        (asBytes start).length + 1 := by
      rw [asBytes_length]
      omega
    have hbytes : asBytes (start ++ '.' :: tail) = asBytes start ++ 46 :: asBytes tail := by
      rw [hcons, asBytes_append, asBytes_append]
      rfl
    rw [hlen, hidx, hdrop, hbytes]
    refine ⟨⟨by omega, ?_⟩, ?_⟩
    · rw [← asBytes_length start, List.getElem?_append_right (Nat.le_refl _), Nat.sub_self]
      rfl
    · rw [drop_length_add_append]
      exact heq

theorem HostPattern.tryMatches_eq (p : HostPattern) (host : Text) :
    p.tryMatches host = some (p.matches host) := by
  cases p with
  | exact h => rfl
  | suffix domain =>
    rw [tryMatches, HostPattern.matches]
    generalize stripDot host = h
    split
    · rename_i heq
      rw [heq]
      rfl
    · rename_i hne
      rw [Bool.eq_false_iff.mpr hne, Bool.false_or, endsInDomain, asBytes_length, asBytes_length]
      split
      · rename_i hlen
        rw [decide_eq_true hlen, Bool.true_and]
        have hi : utf8Len h - utf8Len domain - 1 < (asBytes h).length := by
          rw [asBytes_length]
          omega
        have hsome := List.getElem?_eq_getElem hi
        rw [hsome]
        generalize (asBytes h)[utf8Len h - utf8Len domain - 1] = b at hsome
        by_cases hb : b = 46
        · subst hb
          obtain ⟨start, tail, hcut, hstart, htail⟩ := exists_cut hlen hsome
          have hslice : sliceFrom h (utf8Len h - utf8Len domain) = some tail := by
            have happ := sliceFrom_append (start ++ ['.']) tail
            have hl : utf8Len (start ++ ['.']) = utf8Len start + 1 := by
              rw [← asBytes_length, asBytes_append, length_append, asBytes_length]
              rfl
            rw [append_assoc, hl, hstart] at happ
            rw [← happ, hcut]
            rfl
          simp only [if_true, hslice, Option.map_some, htail, beq_self_eq_true, Bool.true_and]
        · have hbeq : (some b == some (46 : UInt8)) = false := by
            rw [beq_eq_false_iff_ne]
            exact fun e => hb (Option.some.inj e)
          simp only [hb, if_false, hbeq, Bool.false_and]
      · rename_i hlen
        rw [decide_eq_false hlen]
        rfl

/-! ### Labels -/

def foldedLabels (name : Text) : List Text := (name.splitOn '.').map toAsciiLowercase

theorem foldedLabels_eq (name : Text) :
    foldedLabels name = (toAsciiLowercase name).splitOn '.' :=
  (splitOn_map toLower_eq_dot name).symm

/- The name a pattern is about, as `parse` takes it from its token. -/
def HostPattern.written : HostPattern → Text
  | .exact h => h
  | .suffix domain => '.' :: domain

def HostPattern.selects : HostPattern → List Text → Prop
  | .exact h, labels => labels = foldedLabels h
  | .suffix domain, labels => foldedLabels domain <:+ labels

theorem HostPattern.parse_written {token : Text} {p : HostPattern}
    (h : HostPattern.parse token = .ok p) :
    toAsciiLowercase (trim token) = p.written ∨
      toAsciiLowercase (trim token) = p.written ++ ['.'] := by
  have hdot : ∀ d : Text, ∃ e, (if ['.'].isSuffixOf d && ! (['.', '.'].isSuffixOf d) then
      d.dropLast else d) = e ∧ (d = e ∨ d = e ++ ['.']) := by
    intro d
    split
    · rename_i hd
      rw [Bool.and_eq_true, isSuffixOf_iff_suffix] at hd
      obtain ⟨start, rfl⟩ := hd.1
      exact ⟨start, dropLast_concat, .inr rfl⟩
    · exact ⟨d, rfl, .inl rfl⟩
  unfold HostPattern.parse at h
  cases hstrip : stripStart ['.'] (toAsciiLowercase (trim token)) with
  | some rest =>
    have hrest := stripStart_eq_some.mp hstrip
    obtain ⟨e, he, hd⟩ := hdot rest
    simp only [hstrip, if_true, he] at h
    split at h
    · cases h
      rw [hrest]
      exact hd.imp (congrArg (cons '.')) (congrArg (cons '.'))
    · cases h
  | none =>
    obtain ⟨e, he, hd⟩ := hdot (toAsciiLowercase (trim token))
    simp only [hstrip, Bool.false_eq_true, if_false, he] at h
    split at h
    · cases h
      exact hd
    · cases h

theorem HostPattern.matches_iff_selects (p : HostPattern) (host : Text) :
    p.matches host = true ↔ p.selects (foldedLabels (stripDot host)) := by
  cases p with
  | exact h =>
    show _ ↔ foldedLabels (stripDot host) = foldedLabels h
    rw [HostPattern.matches, eqIgnoreAsciiCase_iff, foldedLabels_eq, foldedLabels_eq]
    exact ⟨fun e => by rw [e], splitOn_inj⟩
  | suffix domain =>
    show _ ↔ foldedLabels domain <:+ foldedLabels (stripDot host)
    rw [HostPattern.matches, Bool.or_eq_true, eqIgnoreAsciiCase_iff, endsInDomain_iff,
      foldedLabels_eq, foldedLabels_eq, splitOn_suffix_iff]
    refine or_congr_right ?_
    constructor
    · rintro ⟨start, tail, hhost, hlow⟩
      refine ⟨toAsciiLowercase start, ?_⟩
      rw [hhost, ← hlow]
      exact map_append
    · rintro ⟨start, hlow⟩
      obtain ⟨a, b, hhost, ha, hb⟩ := map_eq_append_iff.mp hlow
      obtain ⟨c, tail, rfl, hc, htail⟩ := map_eq_cons_iff.mp hb
      refine ⟨a, tail, ?_, htail⟩
      rw [hhost, (toLower_eq_dot c).mp hc]

/-- An accepted pattern is its token in lower case without one trailing dot. `matches` never
panics, and holds exactly if the labels of the host, one trailing dot apart, are those of the
pattern or, for a suffix, end with them. -/
theorem HostPattern.matches_iff_labels {token : Text} {p : HostPattern}
    (h : HostPattern.parse token = .ok p) (host : Text) :
    (toAsciiLowercase (trim token) = p.written ∨
      toAsciiLowercase (trim token) = p.written ++ ['.']) ∧
    p.tryMatches host = some (p.matches host) ∧
    (p.matches host = true ↔ p.selects (foldedLabels (stripDot host))) :=
  ⟨parse_written h, p.tryMatches_eq host, p.matches_iff_selects host⟩

theorem HostPattern.matches_iff_labels_umlaut :
    HostPattern.parse ['.', 'A', '.', 'b', '.'] = .ok (.suffix ['a', '.', 'b']) ∧
    (HostPattern.suffix ['a', '.', 'b']).tryMatches ['ü', '.', 'A', '.', 'b'] = some true := by
  have h : HostPattern.parse ['.', 'A', '.', 'b', '.'] = .ok (.suffix ['a', '.', 'b']) := by
    decide
  have hm := HostPattern.matches_iff_labels h ['ü', '.', 'A', '.', 'b']
  refine ⟨h, ?_⟩
  rw [hm.2.1, hm.2.2.mpr ⟨[['ü']], by decide⟩]

end Alighieri.Net
