import Mathlib.Data.List.DropRight
import Alighieri.Net.Host

/-!
# Strings

The searches of `str` and of byte slices that the parsers use, over lists of any kind.
-/

namespace Alighieri.Net
open List

variable {α : Type} {s : List α} {c : α}

theorem forall_of_all {p : α → Prop} [DecidablePred p] (h : s.all (fun c => decide (p c)) = true) :
    ∀ c ∈ s, p c :=
  fun c hc => of_decide_eq_true (all_eq_true.mp h c hc)

theorem mem_dropWhile {p : α → Bool} (hc : c ∈ s) (hp : p c = false) : c ∈ s.dropWhile p := by
  rw [← takeWhile_append_dropWhile (p := p) (l := s), mem_append] at hc
  rcases hc with hc | hc
  · rw [mem_takeWhile_imp hc] at hp
    cases hp
  · exact hc

theorem mem_rdropWhile {p : α → Bool} (hc : c ∈ s) (hp : p c = false) : c ∈ s.rdropWhile p := by
  rw [List.rdropWhile, mem_reverse]
  exact mem_dropWhile (mem_reverse.mpr hc) hp

theorem intercalate_append {sep : List α} {as bs : List (List α)} (ha : as ≠ []) (hb : bs ≠ []) :
    sep.intercalate (as ++ bs) = sep.intercalate as ++ sep ++ sep.intercalate bs := by
  induction as with
  | nil => exact absurd rfl ha
  | cons a as ih =>
    cases as with
    | nil =>
      obtain ⟨b, bs, rfl⟩ := exists_cons_of_ne_nil hb
      simp only [cons_append, nil_append, intercalate_cons_cons,
        intercalate_singleton]
    | cons a' as =>
      have hrest := ih (cons_ne_nil a' as)
      rw [cons_append] at hrest
      simp only [cons_append, intercalate_cons_cons, hrest, append_assoc]

theorem append_cut {p : α → Prop} {a b x y : List α} (h : a ++ x = b ++ y) (ha : ∀ c ∈ a, p c)
    (hb : ∀ c ∈ b, p c) (hx : ∀ c ∈ x.head?, ¬ p c) (hy : ∀ c ∈ y.head?, ¬ p c) :
    a = b ∧ x = y := by
  induction a generalizing b with
  | nil =>
    cases b with
    | nil => exact ⟨rfl, h⟩
    | cons c b =>
      rw [nil_append] at h
      rw [h] at hx
      exact absurd (hb c (mem_cons_self)) (hx c rfl)
  | cons c a ih =>
    cases b with
    | nil =>
      rw [nil_append] at h
      rw [← h] at hy
      exact absurd (ha c (mem_cons_self)) (hy c rfl)
    | cons d b =>
      obtain ⟨rfl, hrest⟩ := List.cons.inj h
      obtain ⟨rfl, rfl⟩ := ih hrest (fun e he => ha e (mem_cons_of_mem c he))
        (fun e he => hb e (mem_cons_of_mem c he))
      exact ⟨rfl, rfl⟩

variable [DecidableEq α]

def stripStart (p s : List α) : Option (List α) :=
  if p.isPrefixOf s then some (s.drop p.length) else none

def stripEnd (p s : List α) : Option (List α) :=
  if p.isSuffixOf s then some (s.take (s.length - p.length)) else none

/- `split_once`, with a pattern of one letter. -/
def splitOnce (c : α) : List α → Option (List α × List α)
  | [] => none
  | x :: xs => if x = c then some ([], xs) else (splitOnce c xs).map fun (a, b) => (x :: a, b)

def trim (s : Text) : Text := (s.dropWhile isWhitespace).rdropWhile isWhitespace

def toAsciiLowercase (s : Text) : Text := s.map Char.toLower

/- Where the last occurrence of `p` begins: `windows(p.len()).rposition(..)`. -/
def lastWindow (p : List α) : List α → Option ℕ
  | [] => none
  | x :: xs =>
    match lastWindow p xs with
    | some i => some (i + 1)
    | none => if p.isPrefixOf (x :: xs) then some 0 else none

/- `rsplit_once`, with a pattern that is not empty. -/
def rsplitOnce (p s : List α) : Option (List α × List α) :=
  (lastWindow p s).map fun i => (s.take i, s.drop (i + p.length))

theorem stripStart_eq_some {p rest : List α} : stripStart p s = some rest ↔ s = p ++ rest := by
  unfold stripStart
  constructor
  · intro h
    split at h
    · rename_i hp
      obtain ⟨tail, rfl⟩ := isPrefixOf_iff_prefix.mp hp
      rw [drop_left] at h
      cases h
      rfl
    · cases h
  · rintro rfl
    rw [if_pos ( isPrefixOf_iff_prefix.mpr (prefix_append p rest)), drop_left]

theorem stripEnd_eq_some {p rest : List α} : stripEnd p s = some rest ↔ s = rest ++ p := by
  unfold stripEnd
  constructor
  · intro h
    split at h
    · rename_i hp
      obtain ⟨start, rfl⟩ := isSuffixOf_iff_suffix.mp hp
      rw [length_append, Nat.add_sub_cancel, take_left] at h
      cases h
      rfl
    · cases h
  · rintro rfl
    rw [if_pos (isSuffixOf_iff_suffix.mpr (suffix_append rest p)), length_append,
      Nat.add_sub_cancel, take_left]

theorem splitOnce_some {a b : List α} (h : splitOnce c s = some (a, b)) : s = a ++ c :: b := by
  induction s generalizing a with
  | nil => cases h
  | cons x xs ih =>
    rw [splitOnce] at h
    split at h
    · rename_i hx
      cases h
      rw [hx]
      rfl
    · obtain ⟨⟨a', b'⟩, hxs, hab⟩ := Option.map_eq_some_iff.mp h
      cases hab
      rw [ih hxs]
      rfl

theorem mem_trim {c : Char} {s : Text} (hc : c ∈ s) (hw : isWhitespace c = false) : c ∈ trim s :=
  mem_rdropWhile (mem_dropWhile hc hw) hw

theorem lastWindow_some {p : List α} {i : ℕ} (h : lastWindow p s = some i) :
    s = s.take i ++ p ++ s.drop (i + p.length) := by
  induction s generalizing i with
  | nil => cases h
  | cons x xs ih =>
    unfold lastWindow at h
    split at h
    · rename_i hj
      cases h
      have hxs := ih hj
      rw [take_succ_cons, Nat.add_right_comm, drop_succ_cons, cons_append,
        cons_append, ← hxs]
    · split at h
      · rename_i hp
        cases h
        obtain ⟨tail, htail⟩ := isPrefixOf_iff_prefix.mp hp
        rw [← htail, take_zero, nil_append, Nat.zero_add, drop_left]
      · cases h

theorem rsplitOnce_some {p a b : List α} (h : rsplitOnce p s = some (a, b)) : s = a ++ p ++ b := by
  obtain ⟨i, hi, hab⟩ := Option.map_eq_some_iff.mp h
  cases hab
  exact lastWindow_some hi

theorem lastWindow_none {x : α} {p : List α} (h : x ∉ s) : lastWindow (x :: p) s = none := by
  induction s with
  | nil => rfl
  | cons y s ih =>
    rw [mem_cons, not_or] at h
    have hne : ¬ (x :: p).isPrefixOf (y :: s) := by
      rw [ isPrefixOf_iff_prefix, cons_prefix_cons]
      exact fun hp => h.1 hp.1
    rw [lastWindow, ih h.2]
    simp only [hne, Bool.false_eq_true, if_false]

theorem lastWindow_append {x : α} {p b : List α} (a : List α)
    (h : lastWindow (x :: p) (p ++ b) = none) :
    lastWindow (x :: p) (a ++ (x :: p) ++ b) = some a.length := by
  induction a with
  | nil =>
    have hp : (x :: p).isPrefixOf (x :: (p ++ b)) :=
      isPrefixOf_iff_prefix.mpr (prefix_append (x :: p) b)
    show lastWindow (x :: p) (x :: (p ++ b)) = some 0
    rw [lastWindow, h]
    simp only [hp, if_true]
  | cons y a ih =>
    show lastWindow (x :: p) (y :: (a ++ (x :: p) ++ b)) = some (a.length + 1)
    rw [lastWindow, ih]

theorem splitOn_append_cons (c : α) (a b : List α) :
    (a ++ c :: b).splitOn c = a.splitOn c ++ b.splitOn c := by
  simp only [splitOn_eq_splitOnP]
  exact splitOnP_append_cons a b (beq_self_eq_true c)

theorem splitOn_inj {a b : List α} (h : a.splitOn c = b.splitOn c) : a = b := by
  have hjoin := congrArg [c].intercalate h
  rwa [intercalate_splitOn, intercalate_splitOn] at hjoin

theorem splitOn_suffix_iff {a b : List α} :
    b.splitOn c <:+ a.splitOn c ↔ a = b ∨ ∃ start, a = start ++ c :: b := by
  constructor
  · rintro ⟨parts, hparts⟩
    cases parts with
    | nil => exact .inl (splitOn_inj hparts.symm)
    | cons part parts =>
      have hjoin := congrArg [c].intercalate hparts
      rw [intercalate_append (cons_ne_nil part parts) (splitOn_ne_nil c b),
        intercalate_splitOn, intercalate_splitOn, append_assoc] at hjoin
      exact .inr ⟨_, hjoin.symm⟩
  · rintro (rfl | ⟨start, rfl⟩)
    · exact suffix_rfl
    · rw [splitOn_append_cons]
      exact suffix_append _ _

theorem splitOn_map {f : α → α} (hf : ∀ x, f x = c ↔ x = c) (s : List α) :
    (s.map f).splitOn c = (s.splitOn c).map (List.map f) := by
  simp only [splitOn_eq_splitOnP]
  induction s with
  | nil => rfl
  | cons x s ih =>
    rw [map_cons, splitOnP_cons_eq_if_modifyHead, splitOnP_cons_eq_if_modifyHead, ih]
    by_cases hx : x = c
    · rw [if_pos (by simp [(hf x).mpr hx]), if_pos (by simp [hx])]
      rfl
    · rw [if_neg (by simp [hf, hx]), if_neg (by simp [hx])]
      cases s.splitOnP (· == c) <;> rfl

end Alighieri.Net
