import Alighieri.Lib.ShellWords

/-!
# Quoting for the shell (wizard.rs:2813-2854)

The commands the wizard prints name paths and users. On Unix an argument of
harmless characters is printed as it is, any other one in single quotes.
-/

namespace Alighieri.Wizard
open List

open ShellWords

/- An apostrophe ends the quotes, stands escaped, and opens them again. -/
def escapeApostrophes (text : List Char) : List Char :=
  text.flatMap fun c =>
    if c = apostrophe then [apostrophe, backslash, apostrophe, apostrophe] else [c]

def singleQuoted (text : List Char) : List Char :=
  apostrophe :: (escapeApostrophes text ++ [apostrophe])

def shellQuotePath (text : List Char) : List Char := singleQuoted text

/- `ch.is_ascii_alphanumeric()` or one of the harmless signs. -/
def isSafe (c : Char) : Bool := c.isAlphanum || "_@%+=:,./-".toList.contains c

def shellQuoteCommandArgument (value : List Char) : List Char :=
  if !value.isEmpty && value.all isSafe then value else singleQuoted value

variable {text v : List Char} {front : List (List Char)}

theorem run_escapeApostrophes (h : Char.ofNat 0 ∉ v) (acc : List Char) :
    State.run ⟨front, some acc, .single⟩ (escapeApostrophes v) =
      some ⟨front, some (acc ++ v), .single⟩ := by
  induction v generalizing acc with
  | nil =>
    rw [append_nil]
    rfl
  | cons c v ih =>
    have hc : c ≠ Char.ofNat 0 := fun heq => h (heq ▸ mem_cons_self)
    have hv : Char.ofNat 0 ∉ v := fun hmem => h (mem_cons_of_mem _ hmem)
    have hpiece : State.run ⟨front, some acc, .single⟩
        (if c = apostrophe then [apostrophe, backslash, apostrophe, apostrophe] else [c]) =
          some ⟨front, some (acc ++ [c]), .single⟩ := by
      split
      · rename_i heq
        subst heq
        rfl
      · rename_i hne
        simp [State.run, State.step, State.push, hc, hne]
    rw [escapeApostrophes, flatMap_cons, State.run_append, hpiece, Option.bind_some,
      ← escapeApostrophes, ih hv, append_assoc, singleton_append]

theorem run_singleQuoted (h : Char.ofNat 0 ∉ v) :
    State.run ⟨front, none, .plain⟩ (singleQuoted v) = some ⟨front, some v, .plain⟩ := by
  have hopen : State.step ⟨front, none, .plain⟩ apostrophe = some ⟨front, some [], .single⟩ := rfl
  rw [singleQuoted, State.run_cons, hopen, Option.bind_some, State.run_append,
    run_escapeApostrophes h, Option.bind_some, nil_append]
  rfl

theorem step_safe {c : Char} {word : Option (List Char)} (h : isSafe c = true) :
    State.step ⟨front, word, .plain⟩ c = some ⟨front, some (word.getD [] ++ [c]), .plain⟩ := by
  have hne : ∀ d, isSafe d = false → c ≠ d := by
    intro d hd heq
    rw [heq, hd] at h
    cases h
  have hspecial : isSpecial c = false := by
    simp only [isSpecial, Bool.or_eq_false_iff, beq_eq_false_iff_ne, contains_eq_mem,
      decide_eq_false_iff_not]
    refine ⟨⟨hne _ (by decide), hne _ (by decide)⟩, fun hmem => ?_⟩
    have hall : "|&;<>()$*?[~".toList.all (fun d => !isSafe d) = true := by decide
    exact hne c (by simpa using all_eq_true.mp hall c hmem) rfl
  simp [State.step, State.push, isBlank, hspecial, hne _ (by decide : isSafe (Char.ofNat 0) = false),
    hne _ (by decide : isSafe ' ' = false), hne _ (by decide : isSafe '\t' = false),
    hne _ (by decide : isSafe apostrophe = false), hne _ (by decide : isSafe doubleQuote = false),
    hne _ (by decide : isSafe backslash = false), hne _ (by decide : isSafe '#' = false)]

theorem run_safe (h : ∀ c ∈ v, isSafe c = true) (acc : List Char) :
    State.run ⟨front, some acc, .plain⟩ v = some ⟨front, some (acc ++ v), .plain⟩ := by
  induction v generalizing acc with
  | nil =>
    rw [append_nil]
    rfl
  | cons c v ih =>
    rw [State.run_cons, step_safe (h c mem_cons_self), Option.bind_some, Option.getD_some,
      ih fun d hd => h d (mem_cons_of_mem _ hd), append_assoc, singleton_append]

theorem run_commandArgument (h : Char.ofNat 0 ∉ v) :
    State.run ⟨front, none, .plain⟩ (shellQuoteCommandArgument v) =
      some ⟨front, some v, .plain⟩ := by
  unfold shellQuoteCommandArgument
  split
  · rename_i hsafe
    rw [Bool.and_eq_true, all_eq_true] at hsafe
    cases v with
    | nil => cases hsafe.1
    | cons c v =>
      rw [State.run_cons, step_safe (hsafe.2 c mem_cons_self), Option.bind_some,
        run_safe fun d hd => hsafe.2 d (mem_cons_of_mem _ hd)]
      rfl
  · exact run_singleQuoted h

/-- A quoted text without NUL is read as one more word of the command it is put behind. -/
theorem quoted_is_one_word (v : List Char) (h : Char.ofNat 0 ∉ v) (command : List Char)
    (ws : List (List Char)) (hcommand : words command = some ws) (rest : List Char)
    (hrest : Ends rest) :
    words (command ++ ' ' :: (shellQuoteCommandArgument v ++ rest)) =
        (words rest).map (fun more => ws ++ v :: more) ∧
      words (command ++ ' ' :: (shellQuotePath v ++ rest)) =
        (words rest).map (fun more => ws ++ v :: more) :=
  ⟨words_argument (fun _ => run_commandArgument h) hcommand hrest,
    words_argument (fun _ => run_singleQuoted h) hcommand hrest⟩

theorem quoted_is_one_word_cat :
    words ("cat".toList ++ ' ' :: (shellQuotePath "it's;a b".toList ++ [])) =
      some ["cat".toList, "it's;a b".toList] :=
  (quoted_is_one_word "it's;a b".toList (by decide) "cat".toList ["cat".toList] (by decide) []
    (fun _ hc => by cases hc)).2

end Alighieri.Wizard
