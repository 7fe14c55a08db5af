import Alighieri.Net.Str

/-!
# Lines

`str::lines`: a line ends behind a line feed, and a carriage return right before the line feed
belongs to the end of the line.
-/

namespace Alighieri.Net
open List

section

variable {α : Type} [DecidableEq α]

/- `split_inclusive`, with a pattern of one letter. -/
def splitInclusive (c : α) : List α → List (List α)
  | [] => []
  | x :: xs =>
    if x = c then [x] :: splitInclusive c xs
    else
      match splitInclusive c xs with
      | [] => [[x]]
      | piece :: pieces => (x :: piece) :: pieces

theorem splitInclusive_append {c : α} {l : List α} (h : c ∉ l) (s : List α) :
    splitInclusive c (l ++ c :: s) = (l ++ [c]) :: splitInclusive c s := by
  induction l with
  | nil => simp only [nil_append, splitInclusive, if_true]
  | cons x l ih =>
    rw [mem_cons, not_or] at h
    rw [cons_append, splitInclusive, if_neg fun hx => h.1 hx.symm, ih h.2]
    rfl

theorem splitInclusive_piece {c : α} {s piece : List α} (h : piece ∈ splitInclusive c s) :
    ∃ l, c ∉ l ∧ (piece = l ∨ piece = l ++ [c]) := by
  induction s generalizing piece with
  | nil => cases h
  | cons x s ih =>
    rw [splitInclusive] at h
    split at h
    · rename_i hx
      rcases mem_cons.mp h with rfl | h
      · rw [hx]
        exact ⟨[], not_mem_nil, .inr rfl⟩
      · exact ih h
    · rename_i hx
      have hxc : c ≠ x := fun he => hx he.symm
      split at h
      · rw [mem_singleton] at h
        rw [h]
        exact ⟨[x], not_mem_cons_of_ne_of_not_mem hxc not_mem_nil, .inl rfl⟩
      · rename_i first rest hs
        rw [hs] at ih
        rcases mem_cons.mp h with rfl | h
        · obtain ⟨l, hl, rfl | rfl⟩ := ih (mem_cons_self)
          · exact ⟨x :: first, not_mem_cons_of_ne_of_not_mem hxc hl, .inl rfl⟩
          · exact ⟨x :: l, not_mem_cons_of_ne_of_not_mem hxc hl, .inr rfl⟩
        · exact ih (mem_cons_of_mem _ h)

def terminate (c : α) (ls : List (List α)) : List α := ls.flatMap (· ++ [c])

theorem splitInclusive_terminate {c : α} {ls : List (List α)} (h : ∀ l ∈ ls, c ∉ l) :
    splitInclusive c (terminate c ls) = ls.map (· ++ [c]) := by
  induction ls with
  | nil => rfl
  | cons l ls ih =>
    have hrest := ih fun m hm => h m (mem_cons_of_mem _ hm)
    have hcons : terminate c (l :: ls) = l ++ c :: terminate c ls := by
      simp only [terminate, flatMap_cons, append_assoc, singleton_append]
    rw [hcons, splitInclusive_append (h l (mem_cons_self)), hrest]
    rfl

theorem intercalate_concat {α : Type} {c : α} {ls : List (List α)} (h : ls ≠ []) :
    [c].intercalate ls ++ [c] = terminate c ls := by
  induction ls with
  | nil => exact absurd rfl h
  | cons l ls ih =>
    cases ls with
    | nil => simp only [intercalate_singleton, terminate, flatMap_singleton]
    | cons m ls =>
      have hrest := ih (cons_ne_nil m ls)
      rw [intercalate_cons_cons, append_assoc, append_assoc, hrest]
      simp only [terminate, flatMap_cons, append_assoc]

theorem intercalate_eq_nil {α : Type} {c : α} {ls : List (List α)}
    (h : [c].intercalate ls = []) : ls = [] ∨ ls = [[]] := by
  cases ls with
  | nil => exact .inl rfl
  | cons l ls =>
    cases ls with
    | nil =>
      rw [intercalate_singleton] at h
      exact .inr (congrArg (· :: []) h)
    | cons =>
      rw [intercalate_cons_cons, append_assoc] at h
      exact absurd (append_eq_nil_iff.mp (append_eq_nil_iff.mp h).2).1
        (cons_ne_nil c [])

end

def chomp (line : Text) : Text := (stripEnd ['\r'] line).getD line

def stripLineEnd (piece : Text) : Text :=
  match stripEnd ['\n'] piece with
  | none => piece
  | some line => chomp line

def lines (text : Text) : List Text := (splitInclusive '\n' text).map stripLineEnd

example : lines "a\r\nb\r\r\n\nc\r".toList =
    ["a".toList, "b\r".toList, [], "c\r".toList] := by decide

theorem chomp_cases (line : Text) : chomp line = line ∨ line = chomp line ++ ['\r'] := by
  unfold chomp
  cases h : stripEnd ['\r'] line with
  | none => exact .inl rfl
  | some => exact .inr (stripEnd_eq_some.mp h)

theorem stripLineEnd_concat (line : Text) : stripLineEnd (line ++ ['\n']) = chomp line := by
  rw [stripLineEnd, stripEnd_eq_some.mpr rfl]

theorem stripLineEnd_of_not_mem {line : Text} (h : '\n' ∉ line) : stripLineEnd line = line := by
  unfold stripLineEnd
  cases hs : stripEnd ['\n'] line with
  | none => rfl
  | some rest =>
    rw [stripEnd_eq_some.mp hs] at h
    exact absurd (mem_append_right rest (mem_singleton_self '\n')) h

theorem newline_not_mem_lines {text line : Text} (h : line ∈ lines text) : '\n' ∉ line := by
  obtain ⟨piece, hpiece, rfl⟩ := mem_map.mp h
  obtain ⟨l, hl, rfl | rfl⟩ := splitInclusive_piece hpiece
  · rwa [stripLineEnd_of_not_mem hl]
  · rw [stripLineEnd_concat]
    rcases chomp_cases l with he | he
    · rwa [he]
    · rw [he] at hl
      exact fun hm => hl (mem_append_left _ hm)

theorem lines_terminate {ls : List Text} (h : ∀ l ∈ ls, '\n' ∉ l) :
    lines (terminate '\n' ls) = ls.map chomp := by
  rw [lines, splitInclusive_terminate h, map_map]
  exact map_congr_left fun l _ => stripLineEnd_concat l

/-! ### Trimming -/

theorem trim_concat {w : Char} (hw : isWhitespace w = true) (s : Text) :
    trim (s ++ [w]) = trim s := by
  have hone : [w].dropWhile isWhitespace = [] := dropWhile_cons_of_pos hw
  unfold trim
  rw [dropWhile_append]
  split
  · rename_i hempty
    rw [hone, isEmpty_iff.mp hempty]
  · rw [rdropWhile_concat_pos _ _ _ hw]

theorem trim_chomp (line : Text) : trim (chomp line) = trim line := by
  rcases chomp_cases line with he | he
  · rw [he]
  · have hcr : isWhitespace '\r' = true := by decide
    nth_rewrite 2 [he]
    exact (trim_concat hcr _).symm

theorem trim_eq_self {a z : Char} {s : Text} (ha : isWhitespace a = false)
    (hz : isWhitespace z = false) : trim (a :: s ++ [z]) = a :: s ++ [z] := by
  unfold trim
  rw [cons_append, dropWhile_cons_of_neg (by rw [ha]; exact Bool.false_ne_true),
    ← cons_append, rdropWhile_concat_neg _ _ _ (by rw [hz]; exact Bool.false_ne_true)]

end Alighieri.Net
