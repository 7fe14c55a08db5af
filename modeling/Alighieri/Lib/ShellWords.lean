import Mathlib.Data.List.Basic

/-!
# Words of a shell command

How a POSIX shell reads the text of a simple command into words. Where a character would end the
command or start an operator, an expansion, a pattern or a comment, the reader refuses; so it does
with NUL.
-/

namespace Alighieri.ShellWords
open Option

inductive Mode where
  | plain
  | escaped
  | single
  | double
  | doubleEscaped
  deriving DecidableEq, Repr

/-- The words read, the one being read, and the quotes it is in. -/
structure State where
  words : List (List Char)
  word : Option (List Char)
  mode : Mode
  deriving DecidableEq, Repr

def start : State := ⟨[], none, .plain⟩

def apostrophe : Char := Char.ofNat 39
def backslash : Char := Char.ofNat 92
def doubleQuote : Char := Char.ofNat 34
def backquote : Char := Char.ofNat 96

def isBlank (c : Char) : Bool := c == ' ' || c == '\t'

/- Unquoted, these separate commands or redirect, and expand or match names. -/
def isSpecial (c : Char) : Bool :=
  c == '\n' || c == backquote || "|&;<>()$*?[~".toList.contains c

namespace State

def push (s : State) (c : Char) (mode : Mode) : State :=
  ⟨s.words, some (s.word.getD [] ++ [c]), mode⟩

/-- Quotes begin a word too, be it an empty one. -/
def enter (s : State) (mode : Mode) : State := ⟨s.words, some (s.word.getD []), mode⟩

def step (s : State) (c : Char) : Option State :=
  if c = Char.ofNat 0 then none
  else match s.mode with
  | .plain =>
    if isBlank c then some ⟨s.words ++ s.word.toList, none, .plain⟩
    else if c = apostrophe then some (s.enter .single)
    else if c = doubleQuote then some (s.enter .double)
    else if c = backslash then some { s with mode := .escaped }
    else if isSpecial c then none
    else if c = '#' ∧ s.word = none then none
    else some (s.push c .plain)
  | .escaped => if c = '\n' then some { s with mode := .plain } else some (s.push c .plain)
  | .single => if c = apostrophe then some (s.enter .plain) else some (s.push c .single)
  | .double =>
    if c = doubleQuote then some (s.enter .plain)
    else if c = backslash then some { s with mode := .doubleEscaped }
    else if c = '$' ∨ c = backquote then none
    else some (s.push c .double)
  | .doubleEscaped =>
    if c = '\n' then some { s with mode := .double }
    else if c = '$' ∨ c = backquote ∨ c = doubleQuote ∨ c = backslash then some (s.push c .double)
    else some ((s.push backslash .double).push c .double)

def run (s : State) (text : List Char) : Option State := text.foldlM step s

/-- The words at the end of the text, unless a quote is still open. -/
def finish (s : State) : Option (List (List Char)) :=
  if s.mode = .plain then some (s.words ++ s.word.toList) else none

def after (s : State) (front : List (List Char)) : State := { s with words := front ++ s.words }

end State

open State

def words (text : List Char) : Option (List (List Char)) := (start.run text).bind finish

variable {s t : State} {front ws : List (List Char)} {text rest : List Char}

theorem State.run_append : s.run (text ++ rest) = (s.run text).bind (·.run rest) :=
  List.foldlM_append ..

theorem State.run_cons {c : Char} : s.run (c :: rest) = (s.step c).bind (·.run rest) := rfl

theorem State.step_after (c : Char) : (s.after front).step c = (s.step c).map (·.after front) := by
  simp only [step, after]
  cases s.mode <;> simp only <;> repeat' split
  all_goals simp [push, enter, *]

theorem State.run_after : (s.after front).run text = (s.run text).map (·.after front) := by
  induction text generalizing s with
  | nil => rfl
  | cons c text ih =>
    rw [run_cons, run_cons, step_after]
    cases s.step c with
    | none => rfl
    | some t => exact ih

theorem State.finish_after : (s.after front).finish = s.finish.map (front ++ ·) := by
  unfold finish after
  split
  · simp
  · rfl

theorem words_eq_some (h : words text = some ws) :
    ∃ s, start.run text = some s ∧ s.mode = .plain ∧ s.words ++ s.word.toList = ws := by
  obtain ⟨s, hrun, hfinish⟩ := bind_eq_some_iff.mp h
  unfold finish at hfinish
  split at hfinish
  · rename_i hmode
    exact ⟨s, hrun, hmode, Option.some.inj hfinish⟩
  · cases hfinish

theorem State.step_space (h : s.mode = .plain) :
    s.step ' ' = some ⟨s.words ++ s.word.toList, none, .plain⟩ := by
  simp [step, h, isBlank]

/-- The end of an argument: nothing follows, or a blank does. -/
def Ends (rest : List Char) : Prop := ∀ c ∈ rest.head?, c = ' '

/-- A text that is one word for the reader between two words is one more word
of any command it is added to. -/
theorem words_argument {arg v : List Char}
    (harg : ∀ front, run ⟨front, none, .plain⟩ arg = some ⟨front, some v, .plain⟩)
    (h : words text = some ws) (hrest : Ends rest) :
    words (text ++ ' ' :: (arg ++ rest)) = (words rest).map (fun more => ws ++ v :: more) := by
  obtain ⟨s, hrun, hmode, rfl⟩ := words_eq_some h
  have hsplit : words (text ++ ' ' :: (arg ++ rest)) =
      (run ⟨s.words ++ s.word.toList, some v, .plain⟩ rest).bind finish := by
    rw [words, run_append, hrun, bind_some, run_cons, step_space hmode,
      bind_some, run_append, harg, bind_some]
  rw [hsplit]
  cases rest with
  | nil => simp [run, finish, words, start]
  | cons c rest =>
    obtain rfl : c = ' ' := hrest c rfl
    have hfront : (⟨s.words ++ s.word.toList ++ [v], none, .plain⟩ : State) =
        start.after (s.words ++ s.word.toList ++ [v]) := by
      simp [after, start]
    rw [run_cons, step_space rfl, bind_some, toList_some, hfront,
      run_after]
    rw [words, run_cons, step_space rfl, bind_some]
    change _ = Option.map _ ((start.run rest).bind finish)
    cases start.run rest with
    | none => rfl
    | some t =>
      rw [map_some, bind_some, bind_some, finish_after]
      cases t.finish with
      | none => rfl
      | some => simp

end Alighieri.ShellWords
