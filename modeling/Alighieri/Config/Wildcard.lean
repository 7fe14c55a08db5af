import Mathlib.Data.List.Forall2
import Mathlib.Data.List.GetD

/-!
# Include patterns (config.rs:1966-1998)

`wildcard_match` fills a table whose entry `dp[i][j]` tells whether the first `i` characters of
the pattern match the first `j` of the text. The loops are kept as they are. The model is the
branch for systems other than Windows.
-/

namespace Alighieri.Config
open List

variable {c x : Char} {i j : ℕ} {v : Bool}

/-- The table of `wildcard_match`. -/
abbrev Dp := ℕ → ℕ → Bool

def Dp.put (dp : Dp) (i j : ℕ) (v : Bool) : Dp :=
  fun a b => if a = i ∧ b = j then v else dp a b

/-- `vec![vec![false; …]; …]` with `dp[0][0] = true`. -/
def Dp.start : Dp := Dp.put (fun _ _ => false) 0 0 true

/-- The right-hand side of the assignment to `dp[i][j]`. -/
def Dp.cell (pattern text : List Char) (dp : Dp) (i j : ℕ) : Bool :=
  match pattern.getD (i - 1) ' ' with
  | '*' => dp (i - 1) j || dp i (j - 1)
  | '?' => dp (i - 1) (j - 1)
  | ch => ch == text.getD (j - 1) ' ' && dp (i - 1) (j - 1)

/-- The first loop, for `i` in `1..=n`. -/
def Dp.column (pattern : List Char) (n : ℕ) (dp : Dp) : Dp :=
  (range' 1 n).foldl
    (fun dp i => if pattern.getD (i - 1) ' ' == '*' then dp.put i 0 (dp (i - 1) 0) else dp) dp

/-- The inner loop of row `i`, for `j` in `1..=n`. -/
def Dp.row (pattern text : List Char) (i n : ℕ) (dp : Dp) : Dp :=
  (range' 1 n).foldl (fun dp j => dp.put i j (dp.cell pattern text i j)) dp

def Dp.rows (pattern text : List Char) (n : ℕ) (dp : Dp) : Dp :=
  (range' 1 n).foldl (fun dp i => dp.row pattern text i text.length) dp

def wildcardMatch (pattern text : String) : Bool :=
  let p := pattern.toList
  let t := text.toList
  ((Dp.start.column p p.length).rows p t p.length) p.length t.length

def stringHasWildcards (value : String) : Bool :=
  value.toList.contains '*' || value.toList.contains '?'

/-! ### What a pattern stands for -/

/-- The texts one character of a pattern can be replaced with. -/
def Replaces (c : Char) (piece : List Char) : Prop :=
  if c = '*' then True else if c = '?' then piece.length = 1 else piece = [c]

/-- The text is the pattern with each character replaced. -/
def Matches (pattern text : List Char) : Prop :=
  ∃ pieces, Forall₂ Replaces pattern pieces ∧ pieces.flatten = text

variable {pattern text : List Char} {dp : Dp}

theorem matches_nil : Matches [] text ↔ text = [] := by
  constructor
  · rintro ⟨pieces, hp, ht⟩
    rw [forall₂_nil_left_iff.mp hp] at ht
    exact ht.symm
  · rintro rfl
    exact ⟨[], .nil, rfl⟩

theorem matches_snoc :
    Matches (pattern ++ [c]) text ↔ ∃ u v, Matches pattern u ∧ Replaces c v ∧ u ++ v = text := by
  constructor
  · rintro ⟨pieces, hp, ht⟩
    have hr := forall₂_reverse_iff.mpr hp
    rw [reverse_append, reverse_singleton, singleton_append] at hr
    obtain ⟨v, us, hc, hu, hvu⟩ := forall₂_cons_left_iff.mp hr
    rw [reverse_eq_cons_iff] at hvu
    rw [hvu, flatten_append] at ht
    have hu' := forall₂_reverse_iff.mpr hu
    rw [reverse_reverse] at hu'
    exact ⟨us.reverse.flatten, v, ⟨_, hu', rfl⟩, hc, by simpa using ht⟩
  · rintro ⟨u, v, ⟨us, hu, rfl⟩, hc, rfl⟩
    exact ⟨us ++ [v], rel_append hu (.cons hc .nil), by simp⟩

theorem matches_star_snoc :
    Matches (pattern ++ ['*']) (text ++ [x]) ↔
      Matches pattern (text ++ [x]) ∨ Matches (pattern ++ ['*']) text := by
  rw [matches_snoc, matches_snoc]
  constructor
  · rintro ⟨u, v, hu, -, huv⟩
    rcases eq_nil_or_concat v with rfl | ⟨w, y, rfl⟩
    · rw [append_nil] at huv
      exact .inl (huv ▸ hu)
    · rw [concat_eq_append, ← append_assoc] at huv
      exact .inr ⟨u, w, hu, trivial, (append_inj' huv rfl).1⟩
  · rintro (h | ⟨u, v, hu, -, rfl⟩)
    · exact ⟨_, [], h, trivial, append_nil _⟩
    · exact ⟨u, v ++ [x], hu, trivial, (append_assoc ..).symm⟩

theorem matches_star_nil : Matches (pattern ++ ['*']) [] ↔ Matches pattern [] := by
  rw [matches_snoc]
  constructor
  · rintro ⟨u, v, hu, -, huv⟩
    rw [append_eq_nil_iff] at huv
    exact huv.1 ▸ hu
  · exact fun h => ⟨[], [], h, trivial, rfl⟩

theorem replaces_one (hc : c ≠ '*') {v : List Char} :
    Replaces c v ↔ ∃ x, v = [x] ∧ (c = '?' ∨ c = x) := by
  unfold Replaces
  rw [if_neg hc]
  split
  · rename_i h
    simp [length_eq_one_iff, h]
  · rename_i h
    simp [h]

theorem matches_one_snoc (hc : c ≠ '*') :
    Matches (pattern ++ [c]) (text ++ [x]) ↔ (c = '?' ∨ c = x) ∧ Matches pattern text := by
  rw [matches_snoc]
  constructor
  · rintro ⟨u, v, hu, hv, huv⟩
    obtain ⟨y, rfl, hy⟩ := (replaces_one hc).mp hv
    obtain ⟨rfl, hxy⟩ := append_inj' huv rfl
    obtain rfl : y = x := by simpa using hxy
    exact ⟨hy, hu⟩
  · rintro ⟨hx, h⟩
    exact ⟨text, [x], h, (replaces_one hc).mpr ⟨x, rfl, hx⟩, rfl⟩

theorem not_matches_one_nil (hc : c ≠ '*') : ¬ Matches (pattern ++ [c]) [] := by
  rw [matches_snoc]
  rintro ⟨u, v, -, hv, huv⟩
  obtain ⟨y, rfl, -⟩ := (replaces_one hc).mp hv
  simp at huv

/-! ### The loops fill the table -/

def Dp.Right (pattern text : List Char) (dp : Dp) (i j : ℕ) : Prop :=
  dp i j = true ↔ Matches (pattern.take i) (text.take j)

theorem take_snoc {l : List Char} (h : i < l.length) :
    l.take (i + 1) = l.take i ++ [l.getD i ' '] := by
  rw [take_succ_eq_append_getElem h, getD_eq_getElem l ' ' h]

theorem Dp.put_same : dp.put i j v i j = v := by
  simp [Dp.put]

theorem Dp.put_other {a b : ℕ} (h : ¬ (a = i ∧ b = j)) : dp.put i j v a b = dp a b := by
  simp [Dp.put, h]

theorem Dp.cell_right (hi : i < pattern.length) (hj : j < text.length)
    (hup : dp.Right pattern text i (j + 1)) (hleft : dp.Right pattern text (i + 1) j)
    (hdiag : dp.Right pattern text i j) :
    dp.cell pattern text (i + 1) (j + 1) = true ↔
      Matches (pattern.take (i + 1)) (text.take (j + 1)) := by
  unfold Dp.Right at hup hleft hdiag
  rw [take_snoc hi] at hleft
  rw [take_snoc hj] at hup
  rw [take_snoc hi, take_snoc hj]
  unfold Dp.cell
  rw [Nat.add_sub_cancel, Nat.add_sub_cancel]
  generalize hc : pattern.getD i ' ' = c at hleft ⊢
  split
  · rw [matches_star_snoc, Bool.or_eq_true, hup, hleft]
  · rw [matches_one_snoc (by decide), hdiag]
    simp
  · rename_i hstar hone
    rw [matches_one_snoc hstar, Bool.and_eq_true, beq_iff_eq, hdiag, or_iff_right hone]

theorem Dp.column_spec (n : ℕ) (hn : n ≤ pattern.length) :
    (∀ i ≤ n, (Dp.start.column pattern n).Right pattern text i 0) ∧
      ∀ i j, (j ≠ 0 ∨ n < i) → Dp.start.column pattern n i j = false := by
  induction n with
  | zero =>
    constructor
    · intro i hi
      obtain rfl : i = 0 := by omega
      simp [Dp.Right, Dp.column, Dp.start, Dp.put, matches_nil]
    · intro i j h
      simp only [Dp.column, range'_zero, foldl_nil, Dp.start]
      rw [Dp.put_other (by omega)]
  | succ n ih =>
    obtain ⟨hright, hrest⟩ := ih (by omega)
    have hstep : Dp.start.column pattern (n + 1) =
        if pattern.getD n ' ' == '*' then
          (Dp.start.column pattern n).put (n + 1) 0 (Dp.start.column pattern n n 0)
        else Dp.start.column pattern n := by
      simp only [Dp.column, range'_concat, foldl_append, foldl_cons,
        foldl_nil, Nat.one_mul, Nat.add_comm 1 n, Nat.add_sub_cancel]
    have hend : (Dp.start.column pattern (n + 1)).Right pattern text (n + 1) 0 := by
      unfold Dp.Right
      rw [hstep, take_snoc (by omega), take_zero]
      split
      · rename_i hc
        rw [Dp.put_same, eq_of_beq hc, matches_star_nil]
        exact hright n (Nat.le_refl n)
      · rename_i hc
        rw [hrest (n + 1) 0 (by omega)]
        simpa using not_matches_one_nil (by simpa using hc)
    have hkeep : ∀ i j, ¬ (i = n + 1 ∧ j = 0) →
        Dp.start.column pattern (n + 1) i j = Dp.start.column pattern n i j := by
      intro i j h
      rw [hstep]
      split
      · exact Dp.put_other h
      · rfl
    constructor
    · intro i hi
      rcases Nat.lt_or_ge n i with h | h
      · obtain rfl : i = n + 1 := by omega
        exact hend
      · unfold Dp.Right
        rw [hkeep i 0 (by omega)]
        exact hright i h
    · intro i j h
      rw [hkeep i j (by omega)]
      exact hrest i j (by omega)

/- After `n` turns of the inner loop: row `i + 1` is right up to `n`, other rows untouched. -/
theorem Dp.row_spec (hi : i < pattern.length)
    (habove : ∀ j ≤ text.length, dp.Right pattern text i j)
    (hfirst : dp.Right pattern text (i + 1) 0) (n : ℕ) (hn : n ≤ text.length) :
    (∀ j ≤ n, (dp.row pattern text (i + 1) n).Right pattern text (i + 1) j) ∧
      ∀ a b, (a ≠ i + 1 ∨ b = 0) → dp.row pattern text (i + 1) n a b = dp a b := by
  induction n with
  | zero =>
    refine ⟨fun j hj => ?_, fun a b _ => rfl⟩
    obtain rfl : j = 0 := by omega
    exact hfirst
  | succ n ih =>
    obtain ⟨hright, hrest⟩ := ih (by omega)
    have hstep : dp.row pattern text (i + 1) (n + 1) =
        (dp.row pattern text (i + 1) n).put (i + 1) (n + 1)
          ((dp.row pattern text (i + 1) n).cell pattern text (i + 1) (n + 1)) := by
      simp only [Dp.row, range'_concat, foldl_append, foldl_cons, foldl_nil,
        Nat.one_mul, Nat.add_comm 1 n]
    have hrow : ∀ j ≤ text.length, (dp.row pattern text (i + 1) n).Right pattern text i j := by
      intro j hj
      unfold Dp.Right
      rw [hrest i j (by omega)]
      exact habove j hj
    constructor
    · intro j hj
      unfold Dp.Right
      rw [hstep]
      rcases Nat.lt_or_ge n j with h | h
      · obtain rfl : j = n + 1 := by omega
        rw [Dp.put_same]
        exact Dp.cell_right hi hn (hrow (n + 1) hn) (hright n (Nat.le_refl n)) (hrow n (by omega))
      · rw [Dp.put_other (by omega)]
        exact hright j h
    · intro a b h
      rw [hstep, Dp.put_other (by omega)]
      exact hrest a b h

theorem Dp.rows_spec (hcol : ∀ i ≤ pattern.length, dp.Right pattern text i 0)
    (htop : ∀ j ≤ text.length, dp.Right pattern text 0 j) (n : ℕ) (hn : n ≤ pattern.length) :
    (∀ i ≤ n, ∀ j ≤ text.length, (dp.rows pattern text n).Right pattern text i j) ∧
      ∀ i ≤ pattern.length, (dp.rows pattern text n).Right pattern text i 0 := by
  induction n with
  | zero =>
    refine ⟨fun i hi => ?_, hcol⟩
    obtain rfl : i = 0 := by omega
    exact htop
  | succ n ih =>
    obtain ⟨hright, hfirst⟩ := ih (by omega)
    have hstep : dp.rows pattern text (n + 1) =
        (dp.rows pattern text n).row pattern text (n + 1) text.length := by
      simp only [Dp.rows, range'_concat, foldl_append, foldl_cons, foldl_nil,
        Nat.one_mul, Nat.add_comm 1 n]
    obtain ⟨hrow, hrest⟩ := Dp.row_spec hn (hright n (Nat.le_refl n)) (hfirst (n + 1) hn)
      text.length (Nat.le_refl _)
    constructor
    · intro i hi j hj
      rcases Nat.lt_or_ge n i with h | h
      · obtain rfl : i = n + 1 := by omega
        rw [hstep]
        exact hrow j hj
      · unfold Dp.Right
        rw [hstep, hrest i j (by omega)]
        exact hright i h j hj
    · intro i hi
      unfold Dp.Right
      rw [hstep, hrest i 0 (by omega)]
      exact hfirst i hi

/-- `wildcard_match` holds exactly when the text is the pattern with each `*`
replaced by a text, each `?` by one character and the rest kept. -/
theorem wildcardMatch_iff (pattern text : String) :
    wildcardMatch pattern text = true ↔
      ∃ pieces, Forall₂ Replaces pattern.toList pieces ∧
        pieces.flatten = text.toList := by
  have hcol := @Dp.column_spec pattern.toList text.toList _ (Nat.le_refl _)
  have htop : ∀ j ≤ text.toList.length, (Dp.start.column pattern.toList pattern.toList.length).Right
      pattern.toList text.toList 0 j := by
    intro j hj
    rcases Nat.eq_zero_or_pos j with rfl | hpos
    · exact hcol.1 0 (Nat.zero_le _)
    · unfold Dp.Right
      rw [hcol.2 0 j (by omega), take_zero, matches_nil, take_eq_nil_iff]
      simp only [Bool.false_eq_true, false_iff]
      rintro (h | h)
      · omega
      · rw [h] at hj
        exact absurd hj (by simp; omega)
  have hall := (Dp.rows_spec hcol.1 htop _ (Nat.le_refl _)).1 _ (Nat.le_refl _) _ (Nat.le_refl _)
  unfold Dp.Right at hall
  rw [take_length, take_length] at hall
  exact hall

example : wildcardMatch "*.c?nf" "a.b.conf" = true := by decide
example : wildcardMatch "*.c?nf" "a.cnf" = false := by decide

end Alighieri.Config
