import Alighieri.Net.AddrSpec
import Alighieri.Rdp.Agent

/-!
# Diagnostics that may travel (mux.rs:2456-2493)

`safe_diagnostic` blanks the control characters of an error text and cuts it with `truncate_utf8`,
which steps back from a byte index to a character boundary. `truncateUtf8` says what is left in
characters; here is the loop on the bytes.
-/

namespace Alighieri.Rdp
open Net List

/- `u8::is_utf8_char_boundary`: `(self as i8) >= -0x40`. -/
def isUtf8CharBoundary (b : UInt8) : Bool := decide (b.toNat < 128 ∨ 192 ≤ b.toNat)

def isCharBoundary (bytes : Bytes) (index : ℕ) : Bool :=
  if index = 0 then true
  else match bytes[index]? with
    | none => decide (index = bytes.length)
    | some b => isUtf8CharBoundary b

/- The loop of `truncate_utf8`, from `end = n` on. -/
def boundaryBelow (bytes : Bytes) : ℕ → ℕ
  | 0 => 0
  | n + 1 => if isCharBoundary bytes (n + 1) then n + 1 else boundaryBelow bytes n

/- `truncate_utf8` on the bytes of its text. -/
def truncateBytes (bytes : Bytes) (maximum : ℕ) : Bytes :=
  if bytes.length ≤ maximum then bytes else bytes.take (boundaryBelow bytes maximum)

/- The closure `safe_diagnostic` maps over the characters. -/
def blankControl (c : Char) : Char := if isControl c then ' ' else c

/-! ### Boundaries of encoded text -/

theorem utf8EncodeChar_shape (c : Char) : ∃ b bs, String.utf8EncodeChar c = b :: bs ∧
    isUtf8CharBoundary b = true ∧ ∀ x ∈ bs, isUtf8CharBoundary x = false := by
  have hmax : c.val.toNat < 0x110000 := by
    have hvalid := c.valid
    unfold UInt32.isValidChar Nat.isValidChar at hvalid
    omega
  rw [String.utf8EncodeChar.eq_def]
  simp only [isUtf8CharBoundary, decide_eq_true_eq, decide_eq_false_iff_not]
  generalize c.val.toNat = v at hmax
  split
  · refine ⟨_, _, rfl, ?_, by simp⟩
    rw [UInt8.toNat_ofNat']
    omega
  · split
    · refine ⟨_, _, rfl, ?_, ?_⟩
      · rw [UInt8.toNat_ofNat']
        omega
      · intro x hx
        rw [mem_singleton.mp hx, UInt8.toNat_ofNat']
        omega
    · split
      · refine ⟨_, _, rfl, ?_, ?_⟩
        · rw [UInt8.toNat_ofNat']
          omega
        · simp only [mem_cons, not_mem_nil, or_false]
          rintro x (rfl | rfl) <;> rw [UInt8.toNat_ofNat'] <;> omega
      · refine ⟨_, _, rfl, ?_, ?_⟩
        · rw [UInt8.toNat_ofNat']
          omega
        · simp only [mem_cons, not_mem_nil, or_false]
          rintro x (rfl | rfl | rfl) <;> rw [UInt8.toNat_ofNat'] <;> omega

theorem isCharBoundary_some {bytes : Bytes} {i : ℕ} {b : UInt8} (hi : i ≠ 0)
    (h : bytes[i]? = some b) : isCharBoundary bytes i = isUtf8CharBoundary b := by
  rw [isCharBoundary, if_neg hi, h]

theorem isCharBoundary_none {bytes : Bytes} {i : ℕ} (hi : i ≠ 0) (h : bytes[i]? = none) :
    isCharBoundary bytes i = decide (i = bytes.length) := by
  rw [isCharBoundary, if_neg hi, h]

theorem isCharBoundary_cons (c : Char) (s : Text) (i : ℕ) :
    isCharBoundary (asBytes (c :: s)) i =
      if i < c.utf8Size then decide (i = 0) else isCharBoundary (asBytes s) (i - c.utf8Size) := by
  obtain ⟨b, bs, hc, hb, hbs⟩ := utf8EncodeChar_shape c
  have hlen : bs.length + 1 = c.utf8Size := by
    rw [← String.length_utf8EncodeChar, hc, length_cons]
  have hbytes : asBytes (c :: s) = (b :: bs) ++ asBytes s := by
    rw [← hc]
    rfl
  cases i with
  | zero => simp [isCharBoundary, Char.utf8Size_pos c]
  | succ i =>
    rw [hbytes]
    split
    · -- inside the character
      have hi : i < bs.length := by omega
      have hat : ((b :: bs) ++ asBytes s)[i + 1]? = some bs[i] := by
        rw [cons_append, List.getElem?_cons_succ, List.getElem?_append_left hi,
          List.getElem?_eq_getElem hi]
      rw [isCharBoundary_some (Nat.succ_ne_zero i) hat, hbs _ (getElem_mem hi)]
      rfl
    · have hat : ((b :: bs) ++ asBytes s)[i + 1]? = (asBytes s)[i + 1 - c.utf8Size]? := by
        rw [List.getElem?_append_right (by rw [length_cons]; omega), length_cons, hlen]
      have hsum : ((b :: bs) ++ asBytes s).length = c.utf8Size + (asBytes s).length := by
        rw [length_append, length_cons, hlen]
      by_cases hend : i + 1 = c.utf8Size
      · -- the rest is empty or starts with a character of its own
        rw [hend, Nat.sub_self] at hat ⊢
        have hsize : c.utf8Size ≠ 0 := Nat.ne_of_gt (Char.utf8Size_pos c)
        cases s with
        | nil =>
          rw [isCharBoundary_none hsize hat, hsum]
          exact decide_eq_true rfl
        | cons d t =>
          obtain ⟨b', bs', hd, hb', -⟩ := utf8EncodeChar_shape d
          have hhead : (asBytes (d :: t))[0]? = some b' := by
            show (String.utf8EncodeChar d ++ asBytes t)[0]? = _
            rw [hd]
            rfl
          rw [isCharBoundary_some hsize (hat.trans hhead), hb']
          rfl
      · have hpos : i + 1 - c.utf8Size ≠ 0 := by omega
        simp only [isCharBoundary, Nat.succ_ne_zero, hpos, if_false, hat, hsum]
        have hiff : i + 1 = c.utf8Size + (asBytes s).length ↔
            i + 1 - c.utf8Size = (asBytes s).length := by omega
        simp only [hiff]

theorem boundaryBelow_cons (c : Char) (s : Text) (n : ℕ) :
    boundaryBelow (asBytes (c :: s)) n =
      if c.utf8Size ≤ n then c.utf8Size + boundaryBelow (asBytes s) (n - c.utf8Size) else 0 := by
  have hpos := Char.utf8Size_pos c
  induction n with
  | zero => rw [if_neg (by omega), boundaryBelow]
  | succ n ih =>
    rw [boundaryBelow, isCharBoundary_cons, ih]
    by_cases hlt : n + 1 < c.utf8Size
    · rw [if_pos hlt, if_neg (by simp), if_neg (by omega), if_neg (by omega)]
    · rw [if_neg hlt, if_pos (Nat.le_of_not_lt hlt)]
      by_cases hend : n + 1 = c.utf8Size
      · rw [hend, Nat.sub_self]
        rfl
      · obtain ⟨m, hm⟩ : ∃ m, n + 1 - c.utf8Size = m + 1 := ⟨n - c.utf8Size, by omega⟩
        have hn : n - c.utf8Size = m := by omega
        have hle : c.utf8Size ≤ n := by omega
        rw [if_pos hle, hm, boundaryBelow, hn]
        split <;> omega

/-! ### Cutting a text -/

theorem boundaryBelow_asBytes (value : Text) (maximum : ℕ) :
    boundaryBelow (asBytes value) maximum = utf8Len (truncateUtf8 maximum value) := by
  induction value generalizing maximum with
  | nil =>
    show boundaryBelow [] maximum = 0
    induction maximum with
    | zero => rfl
    | succ n ih =>
      rw [boundaryBelow, if_neg (by simp [isCharBoundary])]
      exact ih
  | cons c s ih =>
    rw [boundaryBelow_cons, truncateUtf8]
    split
    · rw [ih]
      rfl
    · rfl

theorem truncateUtf8_isPrefix (value : Text) (maximum : ℕ) :
    truncateUtf8 maximum value <+: value := by
  induction value generalizing maximum with
  | nil => exact nil_prefix
  | cons c s ih =>
    rw [truncateUtf8]
    split
    · exact (prefix_cons_inj c).mpr (ih _)
    · exact nil_prefix

theorem utf8Len_truncateUtf8_le (value : Text) (maximum : ℕ) :
    utf8Len (truncateUtf8 maximum value) ≤ maximum := by
  induction value generalizing maximum with
  | nil => exact Nat.zero_le _
  | cons c s ih =>
    rw [truncateUtf8]
    split
    · have hrest := ih (maximum - c.utf8Size)
      show c.utf8Size + utf8Len (truncateUtf8 (maximum - c.utf8Size) s) ≤ maximum
      omega
    · exact Nat.zero_le _

theorem truncateUtf8_of_le {value : Text} {maximum : ℕ} (h : utf8Len value ≤ maximum) :
    truncateUtf8 maximum value = value := by
  induction value generalizing maximum with
  | nil => rfl
  | cons c s ih =>
    have hlen : c.utf8Size + utf8Len s ≤ maximum := h
    rw [truncateUtf8, if_pos (by omega), ih (by omega)]

/-- The loop on the bytes leaves whole characters: those that `truncateUtf8` leaves. -/
theorem truncateBytes_asBytes (value : Text) (maximum : ℕ) :
    truncateBytes (asBytes value) maximum = asBytes (truncateUtf8 maximum value) := by
  unfold truncateBytes
  split
  · rename_i hle
    rw [asBytes_length] at hle
    rw [truncateUtf8_of_le hle]
  · obtain ⟨rest, hrest⟩ := truncateUtf8_isPrefix value maximum
    have hbytes : asBytes value = asBytes (truncateUtf8 maximum value) ++ asBytes rest := by
      rw [← asBytes_append, hrest]
    rw [boundaryBelow_asBytes, ← asBytes_length, hbytes, take_left]

theorem blankControl_plain (c : Char) : isControl (blankControl c) = false := by
  unfold blankControl
  split
  · decide
  · rename_i hc
    exact (Bool.not_eq_true _).mp hc

theorem safeDiagnostic_plain (value : Text) (maximum : ℕ) :
    (safeDiagnostic value maximum).any isControl = false := by
  rw [any_eq_false]
  intro c hc
  have hmem := (truncateUtf8_isPrefix (value.map blankControl) maximum).subset hc
  obtain ⟨d, -, rfl⟩ := mem_map.mp hmem
  rw [blankControl_plain]
  exact Bool.false_ne_true

theorem safeDiagnostic_len (value : Text) (maximum : ℕ) :
    utf8Len (safeDiagnostic value maximum) ≤ maximum :=
  utf8Len_truncateUtf8_le _ maximum

end Alighieri.Rdp
