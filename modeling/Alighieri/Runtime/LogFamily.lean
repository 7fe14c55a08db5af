import Alighieri.Lib.Decimal
import Alighieri.Net.HostMatch
import Alighieri.Runtime.Rotation

/-!
# Which logfile a path collides with (runtime.rs:1004-1051, 1117-1211, 1301-1311)

The log of the Windows service is the active file and up to `keep` rotated ones. `member_index`
and `conflicting_tree_member` find the member a path names without looking at each. Names and
whole paths are compared by the system (`CompareStringOrdinal`, ignoring case); the comparison is
a parameter, and a character stands for one UTF-16 unit. A normalised path is absolute: a drive, a
share or a verbatim prefix, and the names below its root directory.
-/

namespace Alighieri.Runtime
open Net List

def usizeMax : ℕ := 2 ^ 64 - 1

def separator : Char := Char.ofNat 92

abbrev IsName (w : Text) : Prop := w ≠ [] ∧ separator ∉ w

/- The prefix of a path. `verbatim` is a drive or a volume behind two separators, a question mark
and a third one, `verbatimUnc` has `UNC` there. -/
inductive Root where
  | disk (drive : Char)
  | unc (server share : Text)
  | verbatimUnc (server share : Text)
  | verbatim (volume : Text)
  deriving DecidableEq, Repr

namespace Root

def words : Root → List Text
  | .disk drive => [[drive, ':']]
  | .unc server share => [server, share]
  | .verbatimUnc server share => [['?'], ['U', 'N', 'C'], server, share]
  | .verbatim volume => [['?'], volume]

/-- What stands between the separators of the prefix. Only a drive has none in front. -/
def pieces : Root → List Text
  | .disk drive => [[drive, ':']]
  | root => [] :: [] :: root.words

/- A server called `?` is a verbatim prefix, and a volume called `UNC`, in any case, a share. -/
def Plain : Root → Prop
  | .unc server _ => toAsciiLowercase server ≠ ['?']
  | .verbatim volume => toAsciiLowercase volume ≠ ['u', 'n', 'c']
  | _ => True

def Valid (root : Root) : Prop := (∀ w ∈ root.words, IsName w) ∧ root.Plain

end Root

variable {root : Root} {sep : Char} {vs ws : List Text}

theorem Root.Valid.separator_not_mem (h : root.Valid) : ∀ w ∈ root.pieces, separator ∉ w := by
  intro w hw
  cases root with
  | disk => exact (h.1 w hw).2
  | _ =>
    rcases mem_cons.mp hw with rfl | hw
    · exact not_mem_nil
    · rcases mem_cons.mp hw with rfl | hw
      · exact not_mem_nil
      · exact (h.1 w hw).2

/-- A normalised path: prefix and root directory, then the names. -/
structure NormPath where
  root : Root
  names : List Text
  rooted : root.Valid
  named : ∀ w ∈ names, IsName w

namespace NormPath

def components (p : NormPath) : List Text :=
  [[separator].intercalate p.root.pieces, [separator]] ++ p.names

/-- The path as it is written. -/
def text (p : NormPath) : Text :=
  [separator].intercalate p.root.pieces ++ separator :: [separator].intercalate p.names

def parent (p : NormPath) : Option NormPath :=
  if p.names = [] then none
  else some ⟨p.root, p.names.dropLast, p.rooted, fun w hw => p.named w (dropLast_subset _ hw)⟩

def fileName (p : NormPath) : Option Text := p.names.getLast?

def join (p : NormPath) (name : Text) (h : IsName name) : NormPath :=
  ⟨p.root, p.names ++ [name], p.rooted, fun w hw => by
    rcases mem_append.mp hw with hw | hw
    · exact p.named w hw
    · rw [mem_singleton.mp hw]
      exact h⟩

end NormPath

theorem rotatedPath_isName {base : Text} (h : IsName base) (i : ℕ) :
    IsName (rotatedPath base i) := by
  refine ⟨append_ne_nil_of_left_ne_nil h.1 _, fun hmem => ?_⟩
  rcases mem_append.mp hmem with hmem | hmem
  · exact h.2 hmem
  · rcases mem_cons.mp hmem with hdot | hdigit
    · exact absurd hdot (by decide)
    · have hd := Nat.isDigit_of_mem_toDigits (b := 10) (by decide) (by decide) hdigit
      exact absurd hd (by decide)

/-- `WindowsServiceLogFamily`, without the path as it was given. -/
structure LogFamily where
  normalizedBase : NormPath
  rotationParent : NormPath
  baseFileName : Text
  keep : ℕ
  fits : keep ≤ usizeMax
  isName : IsName baseFileName

section
variable (same : Text → Text → Bool)

abbrev Same (a b : Text) : Prop := same a b = true

/- `windows_service_normalized_paths_equal`. -/
abbrev PathsEqual (p q : NormPath) : Prop := same p.text q.text = true

def IsSameOrDescendant (path ancestor : NormPath) : Prop :=
  Forall₂ (Same same) (path.components.take ancestor.components.length) ancestor.components

instance (p q : NormPath) : Decidable (IsSameOrDescendant same p q) :=
  inferInstanceAs (Decidable (Forall₂ ..))

/- The digits are read with checked arithmetic; one that is not a digit ends the search. -/
def logFileNameIndex (base candidate : Text) (keep : ℕ) : Option ℕ :=
  if candidate.length = base.length ∧ same base candidate then some 0
  else if candidate.length ≤ base.length + 1 ∨ candidate[base.length]? ≠ some '.' ∨
      ¬ same base (candidate.take base.length) then none
  else
    let digits := candidate.drop (base.length + 1)
    if digits.head? = some '0' then none
    else (Decimal.checked usizeMax 0 digits).filter fun index => decide (1 ≤ index ∧ index ≤ keep)

namespace LogFamily

def memberIndex (f : LogFamily) (path : NormPath) : Option ℕ :=
  if PathsEqual same path f.normalizedBase then some 0
  else
    match path.parent with
    | none => none
    | some parent =>
      if ¬ PathsEqual same parent f.rotationParent then none
      else
        match path.fileName with
        | none => none
        | some name => (logFileNameIndex same f.baseFileName name f.keep).filter (· ≠ 0)

def conflictingTreeMember (f : LogFamily) (tree : NormPath) : Option ℕ :=
  if IsSameOrDescendant same f.normalizedBase tree ∨
      IsSameOrDescendant same tree f.normalizedBase then some 0
  else if f.keep = 0 then none
  else if IsSameOrDescendant same f.rotationParent tree then some 1
  else if ¬ IsSameOrDescendant same tree f.rotationParent then none
  else
    match tree.components[f.rotationParent.components.length]? with
    | none => none
    | some name => (logFileNameIndex same f.baseFileName name f.keep).filter (· ≠ 0)

def member (f : LogFamily) : ℕ → NormPath
  | 0 => f.normalizedBase
  | i + 1 => f.rotationParent.join _ (rotatedPath_isName f.isName (i + 1))

def firstMember (f : LogFamily) (p : NormPath → Bool) : Option ℕ :=
  (range (f.keep + 1)).find? fun i => p (f.member i)

end LogFamily

/-- What `CompareStringOrdinal` does when it ignores case: texts are compared unit by unit, two
units being equal if they have one upper case, and an ASCII unit is equal only to itself or to the
same letter in the other case. -/
structure OrdinalIgnoreCase (r : Char → Char → Prop) : Prop where
  equivalence : Equivalence r
  same_iff : ∀ a b, same a b = true ↔ Forall₂ r a b
  ascii : ∀ c d, r c d → d.toNat < 128 → c.toLower = d.toLower

end

variable {same : Text → Text → Bool} {r : Char → Char → Prop} {a b c d base name : Text}
  {i : ℕ} {f : LogFamily} {p : NormPath → Bool}

/-! ### Comparing texts -/

theorem forall₂_append_right {α β : Type} {R : α → β → Prop} {x : List α} {y z : List β} :
    Forall₂ R x (y ++ z) ↔
      Forall₂ R (x.take y.length) y ∧ Forall₂ R (x.drop y.length) z := by
  constructor
  · intro h
    exact ⟨forall₂_take_append x y z h, forall₂_drop_append x y z h⟩
  · rintro ⟨hy, hz⟩
    rw [← take_append_drop y.length x]
    exact rel_append hy hz

namespace OrdinalIgnoreCase
variable (h : OrdinalIgnoreCase same r)
include h

theorem flip (hab : Forall₂ r a b) : Forall₂ r b a :=
  (hab.imp fun _ _ => h.equivalence.symm).flip

theorem symm (hab : same a b = true) : same b a = true := by
  rw [h.same_iff] at hab ⊢
  exact h.flip hab

/-- An ASCII unit that is no letter is equal only to itself. -/
theorem caseless {c d : Char} (hr : r c d) (hd : d.toNat < 128)
    (hno : d.isAlpha = false) : c = d := by
  have hlower : ∀ {e : Char}, e.toNat < 128 → e.toLower = e ∨
      (e.isAlpha = true ∧ e.toLower.isAlpha = true) :=
    fun {e} he => forall_ascii (p := fun e => e.toLower = e ∨
      (e.isAlpha = true ∧ e.toLower.isAlpha = true)) (by decide) he
  have heq := h.ascii c d hr hd
  rw [(hlower hd).resolve_right fun ⟨halpha, _⟩ => by rw [hno] at halpha; cases halpha] at heq
  by_cases hc : c.toNat < 128
  · rcases hlower hc with hself | ⟨-, halpha⟩
    · rw [← hself, heq]
    · rw [heq, hno] at halpha
      cases halpha
  · rw [← heq, toLower_of_not_ascii (by omega)]

theorem fixed {c d : Char} (hr : r c d)
    (hd : d = '.' ∨ d.isDigit) : c = d := by
  rcases hd with rfl | hd
  · exact h.caseless hr (by decide) (by decide)
  · have hrange := Decimal.digit_toNat hd
    have hascii : d.toNat < 128 := by omega
    refine h.caseless hr hascii ?_
    exact forall_ascii (p := fun d => d.isDigit = true → d.isAlpha = false) (by decide) hascii hd

/-- A text that is ASCII in lower case is equal only to texts that are the same in lower case. -/
theorem lowercase_eq (hab : Forall₂ r a b)
    (hb : ∀ c ∈ toAsciiLowercase b, c.toNat < 128) : toAsciiLowercase a = toAsciiLowercase b := by
  induction hab with
  | nil => rfl
  | @cons c d a b hr _ ih =>
    have hlow : d.toLower.toNat < 128 := hb _ mem_cons_self
    have hascii : d.toNat < 128 := by
      by_contra hhigh
      rw [toLower_of_not_ascii (by omega)] at hlow
      exact hhigh hlow
    show c.toLower :: toAsciiLowercase a = d.toLower :: toAsciiLowercase b
    rw [h.ascii c d hr hascii, ih fun e he => hb e (mem_cons_of_mem _ he)]

theorem eq_of_fixed (hab : Forall₂ r a b)
    (hb : ∀ c ∈ b, c = '.' ∨ c.isDigit) : a = b := by
  induction hab with
  | nil => rfl
  | cons hr _ ih =>
    have hhead := h.fixed hr (hb _ mem_cons_self)
    rw [hhead, ih fun c hc => hb c (mem_cons_of_mem _ hc)]

theorem same_rotatedPath : same a (rotatedPath base i) = true ↔
      same base (a.take base.length) = true ∧
        a.drop base.length = '.' :: Nat.toDigits 10 i := by
  rw [h.same_iff, rotatedPath, forall₂_append_right, ← h.same_iff]
  constructor
  · rintro ⟨hbase, hrest⟩
    refine ⟨h.symm hbase, h.eq_of_fixed hrest fun c hc => ?_⟩
    rcases mem_cons.mp hc with rfl | hc
    · exact .inl rfl
    · exact .inr (Nat.isDigit_of_mem_toDigits (by decide) (by decide) hc)
  · rintro ⟨hbase, hrest⟩
    rw [hrest]
    exact ⟨h.symm hbase, forall₂_same.mpr fun c _ => h.equivalence.refl c⟩

end OrdinalIgnoreCase

/-! ### Comparing paths -/

theorem forall₂_splitOn (hsep : ∀ c d, r c d → (c = sep ↔ d = sep)) (h : Forall₂ r a b) :
    Forall₂ (Forall₂ r) (a.splitOn sep) (b.splitOn sep) := by
  simp only [splitOn_eq_splitOnP]
  induction h with
  | nil => exact .cons .nil .nil
  | @cons x y a b hr _ ih =>
    rw [splitOnP_cons_eq_if_modifyHead, splitOnP_cons_eq_if_modifyHead]
    by_cases hx : x = sep
    · rw [if_pos (by simp [hx]), if_pos (by simp [(hsep x y hr).mp hx])]
      exact .cons .nil ih
    · rw [if_neg (by simp [hx]), if_neg (by simp [← hsep x y hr, hx])]
      generalize a.splitOnP (· == sep) = ws at ih ⊢
      generalize b.splitOnP (· == sep) = vs at ih ⊢
      cases ih with
      | nil => exact .nil
      | cons hhead htail => exact .cons (.cons hr hhead) htail

theorem forall₂_intercalate (hsep : r sep sep) (h : Forall₂ (Forall₂ r) ws vs) :
    Forall₂ r ([sep].intercalate ws) ([sep].intercalate vs) := by
  induction h with
  | nil => exact .nil
  | cons hw hws ih =>
    cases hws with
    | nil => simpa using hw
    | cons =>
      rw [intercalate_cons_cons, intercalate_cons_cons, append_assoc, append_assoc]
      exact rel_append hw (.cons hsep ih)

/-- How many of the pieces of a path belong to its prefix. -/
def rootLength : List Text → ℕ
  | [] :: [] :: third :: fourth :: _ =>
    if toAsciiLowercase third = ['?'] ∧ toAsciiLowercase fourth = ['u', 'n', 'c'] then 6 else 4
  | _ => 1

theorem rootLength_pieces (h : root.Valid) (tail : List Text) :
    rootLength (root.pieces ++ tail) = root.pieces.length := by
  cases root with
  | disk => rfl
  | unc => exact if_neg fun hc => h.2 hc.1
  | verbatimUnc => rfl
  | verbatim => exact if_neg fun hc => h.2 hc.2

namespace OrdinalIgnoreCase
variable (h : OrdinalIgnoreCase same r)
include h

theorem separator_iff {c d : Char} (hr : r c d) :
    c = separator ↔ d = separator := by
  constructor
  · rintro rfl
    exact h.caseless (h.equivalence.symm hr) (by decide) (by decide)
  · rintro rfl
    exact h.caseless hr (by decide) (by decide)

theorem lowercase_iff (hab : Forall₂ r a b) {w : Text} (hw : ∀ c ∈ w, c.toNat < 128) :
    toAsciiLowercase a = w ↔ toAsciiLowercase b = w := by
  have hone : ∀ {a b : Text}, Forall₂ r a b → toAsciiLowercase b = w →
      toAsciiLowercase a = w := by
    rintro a b hab rfl
    exact h.lowercase_eq hab hw
  exact ⟨hone (h.flip hab), hone hab⟩

theorem rootLength_eq (hws : Forall₂ (Forall₂ r) ws vs) : rootLength ws = rootLength vs := by
  -- the prefix is told by its first two pieces, then by the third and the fourth
  cases hws with
  | nil => rfl
  | cons h₁ hws =>
    cases h₁ with
    | cons => rfl
    | nil =>
      cases hws with
      | nil => rfl
      | cons h₂ hws =>
        cases h₂ with
        | cons => rfl
        | nil =>
          cases hws with
          | nil => rfl
          | cons h₃ hws =>
            cases hws with
            | nil => rfl
            | cons h₄ hws =>
              simp only [rootLength, h.lowercase_iff h₃ (w := ['?']) (by simp),
                h.lowercase_iff h₄ (w := ['u', 'n', 'c']) (by simp)]

end OrdinalIgnoreCase

namespace NormPath

variable {p q : NormPath}

/- The last pieces of the text: the names, or nothing behind the root directory. -/
def tail (p : NormPath) : List Text := if p.names = [] then [[]] else p.names

theorem pieces_ne_nil (root : Root) : root.pieces ≠ [] := by
  cases root <;> exact cons_ne_nil _ _

theorem text_eq (p : NormPath) : p.text = [separator].intercalate (p.root.pieces ++ p.tail) := by
  have htail : p.tail ≠ [] := by
    unfold tail
    split
    · exact cons_ne_nil _ _
    · assumption
  rw [intercalate_append (pieces_ne_nil p.root) htail, text, append_assoc, singleton_append]
  unfold tail
  split
  · rename_i hnil
    rw [hnil]
    rfl
  · rfl

theorem separator_not_mem (p : NormPath) : ∀ w ∈ p.root.pieces ++ p.tail, separator ∉ w := by
  intro w hw
  rcases mem_append.mp hw with hw | hw
  · exact p.rooted.separator_not_mem w hw
  · unfold tail at hw
    split at hw
    · rw [mem_singleton.mp hw]
      exact not_mem_nil
    · exact (p.named w hw).2

theorem splitOn_text (p : NormPath) : p.text.splitOn separator = p.root.pieces ++ p.tail := by
  rw [text_eq]
  exact splitOn_intercalate separator p.separator_not_mem
    (append_ne_nil_of_left_ne_nil (pieces_ne_nil p.root) _)

theorem tail_iff : Forall₂ (Forall₂ r) p.tail q.tail ↔
    Forall₂ (Forall₂ r) p.names q.names := by
  unfold tail
  by_cases hp : p.names = []
  · by_cases hq : q.names = []
    · simp [hp, hq]
    · rw [if_pos hp, if_neg hq, hp, forall₂_nil_left_iff]
      refine iff_of_false (fun htail => ?_) hq
      obtain ⟨v, vs, hv, -, hcons⟩ := forall₂_cons_left_iff.mp htail
      exact (q.named v (by simp [hcons])).1 (forall₂_nil_left_iff.mp hv)
  · by_cases hq : q.names = []
    · rw [if_neg hp, if_pos hq, hq, forall₂_nil_right_iff]
      refine iff_of_false (fun htail => ?_) hp
      obtain ⟨v, vs, hv, -, hcons⟩ := forall₂_cons_right_iff.mp htail
      exact (p.named v (by simp [hcons])).1 (forall₂_nil_right_iff.mp hv)
    · rw [if_neg hp, if_neg hq]

end NormPath

/-- Comparing the whole texts compares the prefixes and the names one by one. -/
theorem pathsEqual_iff (h : OrdinalIgnoreCase same r) {p q : NormPath} :
    PathsEqual same p q ↔ Forall₂ (Forall₂ r) p.root.pieces q.root.pieces ∧
      Forall₂ (Same same) p.names q.names := by
  have hnames : Forall₂ (Same same) p.names q.names ↔
      Forall₂ (Forall₂ r) p.tail q.tail := by
    have hsame : Same same = Forall₂ r := by
      ext a b
      exact h.same_iff a b
    rw [NormPath.tail_iff, hsame]
  rw [PathsEqual, h.same_iff, hnames]
  constructor
  · intro htext
    have hsplit := forall₂_splitOn (fun c d hr => h.separator_iff hr) htext
    rw [p.splitOn_text, q.splitOn_text] at hsplit
    have hlen := h.rootLength_eq hsplit
    rw [rootLength_pieces p.rooted, rootLength_pieces q.rooted] at hlen
    rw [forall₂_append_right, ← hlen, take_left, drop_left] at hsplit
    exact hsplit
  · rintro ⟨hroot, htail⟩
    rw [p.text_eq, q.text_eq]
    exact forall₂_intercalate (h.equivalence.refl _) (rel_append hroot htail)

/-- Reading the suffix finds the one index whose rotated name is meant. -/
theorem logFileNameIndex_iff (h : OrdinalIgnoreCase same r) {keep : ℕ} (hkeep : keep ≤ usizeMax)
    (hi : i ≠ 0) :
    logFileNameIndex same base name keep = some i ↔
      same name (rotatedPath base i) = true ∧ i ≤ keep := by
  rw [h.same_rotatedPath]
  unfold logFileNameIndex
  constructor
  · intro hsome
    split at hsome
    · exact absurd (Option.some.inj hsome).symm hi
    · split at hsome
      · cases hsome
      rename_i hcond
      simp only [not_or, not_le, not_not] at hcond
      obtain ⟨hlen, hdot, hbase⟩ := hcond
      simp only at hsome
      split at hsome
      · cases hsome
      rename_i hlead
      obtain ⟨hread, hrange⟩ := Option.filter_eq_some_iff.mp hsome
      obtain ⟨hdigits, hvalue, -⟩ := Decimal.checked_some hread
      have hne : name.drop (base.length + 1) ≠ [] := by
        rw [ne_eq, drop_eq_nil_iff]
        omega
      refine ⟨⟨hbase, ?_⟩, (of_decide_eq_true hrange).2⟩
      rw [drop_eq_getElem?_toList_append, hdot, hvalue,
        Decimal.toDigits_ofDigitChars hne hdigits hlead]
      rfl
  · rintro ⟨⟨hbase, hrest⟩, hle⟩
    have hdot : name[base.length]? = some '.' := by
      rw [← head?_drop, hrest]
      rfl
    have hdigits : name.drop (base.length + 1) = Nat.toDigits 10 i := by
      rw [← drop_drop, hrest]
      rfl
    have hlen : base.length + 1 < name.length := by
      by_contra hshort
      rw [drop_eq_nil_of_le (by omega)] at hdigits
      exact Nat.toDigits_ne_nil hdigits.symm
    have hread : Decimal.checked usizeMax 0 (Nat.toDigits 10 i) = some i := by
      have hvalue : Nat.ofDigitChars 10 (Nat.toDigits 10 i) 0 = i := Nat.ofDigitChars_ten_toDigits
      have hok := @Decimal.checked_of_le (Nat.toDigits 10 i) usizeMax 0
        (fun c hc => Nat.isDigit_of_mem_toDigits (by decide) (by decide) hc)
        (show Nat.ofDigitChars 10 (Nat.toDigits 10 i) 0 ≤ usizeMax by omega)
      rw [hvalue] at hok
      exact hok
    rw [if_neg (by omega), if_neg (by simp [hdot, hbase]; omega)]
    simp only [hdigits, if_neg (Decimal.toDigits_head i (by omega)), hread]
    simp [hle, Nat.one_le_iff_ne_zero.mpr hi]

theorem filter_index_iff (h : OrdinalIgnoreCase same r) (f : LogFamily) :
    (logFileNameIndex same f.baseFileName name f.keep).filter (· ≠ 0) = some i ↔
      i ≠ 0 ∧ same name (rotatedPath f.baseFileName i) = true ∧ i ≤ f.keep := by
  rw [Option.filter_eq_some_iff, decide_eq_true_eq]
  constructor
  · rintro ⟨hsome, hi⟩
    exact ⟨hi, (logFileNameIndex_iff h f.fits hi).mp hsome⟩
  · rintro ⟨hi, hname⟩
    exact ⟨(logFileNameIndex_iff h f.fits hi).mpr hname, hi⟩

/-! ### The shortcuts and the exhaustive check -/

namespace LogFamily

theorem rotated_unique (h : OrdinalIgnoreCase same r) {j : ℕ}
    (hi : same name (rotatedPath base i) = true) (hj : same name (rotatedPath base j) = true) :
    i = j := by
  have hdigits := (h.same_rotatedPath.mp hi).2.symm.trans (h.same_rotatedPath.mp hj).2
  exact rotatedPath_inj (congrArg (base ++ ·) hdigits)

theorem firstMember_eq {answer : Option ℕ}
    (hsome : ∀ i, answer = some i → p (f.member i) = true ∧ i ≤ f.keep ∧
      ∀ j < i, p (f.member j) = false)
    (hnone : answer = none → ∀ i ≤ f.keep, p (f.member i) = false) : answer = f.firstMember p := by
  symm
  cases answer with
  | none =>
    rw [firstMember, find?_range_eq_none]
    intro i hi
    rw [hnone rfl i (by omega)]
    rfl
  | some i =>
    obtain ⟨hp, hle, hfirst⟩ := hsome i rfl
    rw [firstMember, find?_range_eq_some]
    refine ⟨hp, mem_range.mpr (by omega), fun j hj => ?_⟩
    rw [hfirst j hj]
    rfl

theorem firstMember_of_name (h : OrdinalIgnoreCase same r) (f : LogFamily)
    (hbase : p f.normalizedBase = false) (hp : ∀ i, p (f.member (i + 1)) = true ↔
      same name (rotatedPath f.baseFileName (i + 1)) = true) :
    (logFileNameIndex same f.baseFileName name f.keep).filter (· ≠ 0) = f.firstMember p := by
  have hmember : ∀ i, p (f.member i) = true →
      i ≠ 0 ∧ same name (rotatedPath f.baseFileName i) = true := by
    intro i hi
    cases i with
    | zero =>
      rw [show f.member 0 = f.normalizedBase from rfl, hbase] at hi
      cases hi
    | succ i => exact ⟨Nat.succ_ne_zero i, (hp i).mp hi⟩
  apply firstMember_eq
  · intro i hi
    obtain ⟨hne, hname, hle⟩ := (filter_index_iff h f).mp hi
    obtain ⟨k, rfl⟩ := Nat.exists_eq_succ_of_ne_zero hne
    refine ⟨(hp k).mpr hname, hle, fun j hj => ?_⟩
    by_contra hyes
    have hj' := (hmember j (by simpa using hyes)).2
    exact absurd (rotated_unique h hj' hname) (by omega)
  · intro hnone i hi
    by_contra hyes
    obtain ⟨hne, hname⟩ := hmember i (by simpa using hyes)
    have hsome := (filter_index_iff h f).mpr ⟨hne, hname, hi⟩
    rw [hnone] at hsome
    cases hsome

theorem firstMember_none (h0 : p f.normalizedBase = false) (h : ∀ i, p (f.member (i + 1)) = false) :
    none = f.firstMember p := by
  refine firstMember_eq (fun _ h => by cases h) fun _ i _ => ?_
  cases i with
  | zero => exact h0
  | succ i => exact h i

theorem firstMember_zero (h : p f.normalizedBase = true) : some 0 = f.firstMember p := by
  apply firstMember_eq
  · rintro i ⟨⟩
    exact ⟨h, Nat.zero_le _, nofun⟩
  · nofun

theorem memberIndex_eq (h : OrdinalIgnoreCase same r) (f : LogFamily) (path : NormPath) :
    f.memberIndex same path = f.firstMember fun m => decide (PathsEqual same path m) := by
  unfold memberIndex
  split
  · rename_i hbase
    exact firstMember_zero (decide_eq_true hbase)
  · rename_i hbase
    have h0 : decide (PathsEqual same path f.normalizedBase) = false := decide_eq_false hbase
    rcases eq_nil_or_concat path.names with hnames | ⟨names, name, hnames⟩
    · rw [NormPath.parent, if_pos hnames]
      refine firstMember_none h0 fun i => decide_eq_false fun hequal => ?_
      have hlen := ((pathsEqual_iff h).mp hequal).2.length_eq
      rw [hnames] at hlen
      simp [member, NormPath.join] at hlen
    · rw [concat_eq_append] at hnames
      obtain ⟨parent, hparent, hroot, hbelow⟩ : ∃ parent : NormPath, path.parent = some parent ∧
          parent.root = path.root ∧ parent.names = names := by
        have hne : path.names ≠ [] := by simp [hnames]
        exact ⟨_, if_neg hne, rfl, by simp [hnames]⟩
      have hname : path.fileName = some name := by simp [NormPath.fileName, hnames]
      have hequal : ∀ i, PathsEqual same path (f.member (i + 1)) ↔
          PathsEqual same parent f.rotationParent ∧
            same name (rotatedPath f.baseFileName (i + 1)) = true := by
        intro i
        rw [pathsEqual_iff h, pathsEqual_iff h, hroot, hbelow, hnames, and_assoc]
        refine and_congr_right fun _ => ?_
        rw [member, NormPath.join, ← forall₂_reverse_iff]
        simp [and_comm]
      simp only [hparent, hname]
      by_cases hp : PathsEqual same parent f.rotationParent
      · rw [if_neg (not_not.mpr hp)]
        apply firstMember_of_name h f h0
        intro i
        rw [decide_eq_true_eq, hequal]
        exact and_iff_right hp
      · rw [if_pos hp]
        exact firstMember_none h0 fun i => decide_eq_false fun hc => hp ((hequal i).mp hc).1

/-- A member equals, contains or lies inside the tree. -/
def Touches (same : Text → Text → Bool) (tree m : NormPath) : Prop :=
  IsSameOrDescendant same m tree ∨ IsSameOrDescendant same tree m

instance (tree m : NormPath) : Decidable (Touches same tree m) :=
  inferInstanceAs (Decidable (_ ∨ _))

theorem components_member (f : LogFamily) (i : ℕ) :
    (f.member (i + 1)).components =
      f.rotationParent.components ++ [rotatedPath f.baseFileName (i + 1)] := by
  simp [member, NormPath.join, NormPath.components]

theorem touches_member (h : OrdinalIgnoreCase same r) {tree : NormPath}
    (hinside : ¬ IsSameOrDescendant same f.rotationParent tree) (i : ℕ) :
    Touches same tree (f.member (i + 1)) ↔
      IsSameOrDescendant same tree f.rotationParent ∧
        ∃ name, tree.components[f.rotationParent.components.length]? = some name ∧
          same name (rotatedPath f.baseFileName (i + 1)) = true := by
  have hbelow : IsSameOrDescendant same (f.member (i + 1)) tree →
      IsSameOrDescendant same tree (f.member (i + 1)) := by
    -- the tree is no shorter than the file, so the two are equal
    intro hin
    unfold IsSameOrDescendant at hin hinside ⊢
    rw [components_member] at hin ⊢
    have hlen := hin.length_eq
    rw [length_take, length_append, length_singleton] at hlen
    rcases Nat.lt_or_ge f.rotationParent.components.length tree.components.length with hlt | hle
    · rw [take_of_length_le (by simp; omega)] at hin ⊢
      exact (hin.imp fun _ _ => h.symm).flip
    · rw [take_append_of_le_length hle] at hin
      exact absurd hin hinside
  rw [Touches, or_iff_right_of_imp hbelow]
  unfold IsSameOrDescendant
  rw [components_member, forall₂_append_right, take_take, drop_take]
  rw [← head?_drop, length_append, length_singleton, Nat.add_sub_cancel_left,
    Nat.min_eq_left (Nat.le_add_right _ _)]
  cases tree.components.drop f.rotationParent.components.length with
  | nil | cons => simp

theorem conflictingTreeMember_eq (h : OrdinalIgnoreCase same r) (f : LogFamily) (tree : NormPath) :
    f.conflictingTreeMember same tree = f.firstMember fun m => decide (Touches same tree m) := by
  unfold conflictingTreeMember
  split
  · rename_i hbase
    exact firstMember_zero (decide_eq_true hbase)
  · rename_i hbase
    have h0 : decide (Touches same tree f.normalizedBase) = false := decide_eq_false hbase
    split
    · refine firstMember_eq (fun _ h => by cases h) fun _ i hi => ?_
      obtain rfl : i = 0 := by omega
      exact h0
    · rename_i hkeep
      split
      · rename_i hinside
        -- the parent of all rotated files is in the tree, and so is the first of them
        apply firstMember_eq
        · rintro i ⟨⟩
          refine ⟨decide_eq_true (.inl ?_), by omega, fun j hj => ?_⟩
          · have hlen := hinside.length_eq
            rw [length_take] at hlen
            rw [IsSameOrDescendant, components_member, take_append_of_le_length (by omega)]
            exact hinside
          · obtain rfl : j = 0 := by omega
            exact h0
        · nofun
      · rename_i hinside
        have htouch := touches_member h hinside
        by_cases hbelow : IsSameOrDescendant same tree f.rotationParent
        · rw [if_neg (not_not.mpr hbelow)]
          cases hname : tree.components[f.rotationParent.components.length]? with
          | none =>
            refine firstMember_none h0 fun i => decide_eq_false fun hc => ?_
            obtain ⟨-, name, hsome, -⟩ := (htouch i).mp hc
            rw [hname] at hsome
            cases hsome
          | some =>
            apply firstMember_of_name h f h0
            intro i
            rw [decide_eq_true_eq, htouch, and_iff_right hbelow, hname]
            simp
        · rw [if_pos hbelow]
          exact firstMember_none h0 fun i => decide_eq_false fun hc => hbelow ((htouch i).mp hc).1

/-- Both searches answer as a check of all members would, in their order. -/
theorem family_answers_exhaustively (h : OrdinalIgnoreCase same r) (f : LogFamily) :
    (∀ path, f.memberIndex same path =
      f.firstMember fun m => decide (PathsEqual same path m)) ∧
    ∀ tree, f.conflictingTreeMember same tree =
      f.firstMember fun m => decide (Touches same tree m) :=
  ⟨memberIndex_eq h f, conflictingTreeMember_eq h f⟩

end LogFamily

def inLogs (name : Text) (h : IsName name) : NormPath :=
  ⟨.disk 'C', [['l', 'o', 'g', 's'], name], ⟨by decide, trivial⟩, by simpa using ⟨by decide, h⟩⟩

def logsOnC : LogFamily where
  normalizedBase := inLogs ['a'] (by decide)
  rotationParent := ⟨.disk 'C', [['l', 'o', 'g', 's']], ⟨by decide, trivial⟩, by decide⟩
  baseFileName := ['a']
  keep := 12
  fits := Nat.le_of_ble_eq_true rfl
  isName := by decide

def lowerA (c : Char) : Char := if c = 'A' then 'a' else c

def sameLower (a b : Text) : Bool := decide (Forall₂ (fun c d => lowerA c = lowerA d) a b)

theorem sameLower_ordinal : OrdinalIgnoreCase sameLower fun c d => lowerA c = lowerA d := by
  refine ⟨⟨fun _ => rfl, fun h => h.symm, fun h h' => h.trans h'⟩, fun a b => decide_eq_true_iff, ?_⟩
  have hlower : ∀ c, (lowerA c).toLower = c.toLower := by
    intro c
    unfold lowerA
    split
    · rename_i hc
      rw [hc]
      rfl
    · rfl
  intro c d h _
  rw [← hlower c, h, hlower]

theorem family_answers_exhaustively_upper :
    logsOnC.memberIndex sameLower (inLogs ['A', '.', '7'] (by decide)) =
        logsOnC.firstMember (fun m => decide (PathsEqual sameLower
          (inLogs ['A', '.', '7'] (by decide)) m)) ∧
      logsOnC.memberIndex sameLower (inLogs ['A', '.', '7'] (by decide)) = some 7 ∧
      logsOnC.conflictingTreeMember sameLower (inLogs ['A', '.', '7'] (by decide)) =
        logsOnC.firstMember (fun m => decide (LogFamily.Touches sameLower
          (inLogs ['A', '.', '7'] (by decide)) m)) :=
  ⟨(LogFamily.family_answers_exhaustively sameLower_ordinal logsOnC).1 _, by decide,
    (LogFamily.family_answers_exhaustively sameLower_ordinal logsOnC).2 _⟩

end Alighieri.Runtime
