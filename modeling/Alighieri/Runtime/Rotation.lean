import Alighieri.Config
import Alighieri.Lib.Table
import Alighieri.Net.Host

/-!
# The rotating log file (runtime.rs:1707-1788, 1855-1884)

A directory is a table from file names to contents. `rotate` renames the whole chain of numbered
files, the active one becoming `.1`, and opens a new active file. An operation of the file system
fails (`none`) only where a file would pass the largest offset there is.

The shelf of a directory is the list of its files as groups of whole records, the active first.
-/

namespace Alighieri.Runtime
open Net List Table List

abbrev Record := List UInt8

abbrev Dir := Table Text Record

variable {name : Text} {buf : Record} {d : Dir}

/- Offsets into a file are signed 64-bit numbers. -/
def maxOffset : ℕ := 2 ^ 63 - 1

def rotatedPath (name : Text) (index : ℕ) : Text := name ++ '.' :: Nat.toDigits 10 index

def removeIfExists (path : Text) (d : Dir) : Dir := d.set path none

def renameIfExists (source target : Text) (d : Dir) : Dir :=
  match d.lookup source with
  | none => d
  | some bytes => (set d source none).set target (some bytes)

/- `open_rotating_log_file`: opens for appending and creates the file if need be. -/
def openRotatingLogFile (path : Text) (d : Dir) : Dir :=
  match d.lookup path with
  | none => set d path (some [])
  | some _ => d

def fileLen (path : Text) (d : Dir) : ℕ := ((d.lookup path).getD []).length

def appendTo (path : Text) (buf : Record) (d : Dir) : Option Dir :=
  match d.lookup path with
  | none => none
  | some bytes =>
    if bytes.length + buf.length ≤ maxOffset then some (set d path (some (bytes ++ buf)))
    else none

/- The directory of the log together with `RotatingFile`; `name` is the last component of
its path. -/
structure RotatingFile where
  dir : Dir
  name : Text
  maxBytes : ℕ
  keep : ℕ
  len : ℕ

def saturatingAdd (a b : ℕ) : ℕ := min (a + b) maxU64

namespace RotatingFile

def openIn (d : Dir) (name : Text) (maxBytes keep : ℕ) : RotatingFile where
  dir := openRotatingLogFile name d
  name := name
  maxBytes := maxBytes
  keep := keep
  len := fileLen name (openRotatingLogFile name d)

def shouldRotate (s : RotatingFile) (incoming : ℕ) : Bool :=
  decide (0 < s.maxBytes) && decide (0 < s.len) &&
    decide (s.maxBytes < saturatingAdd s.len incoming)

/- The loop over the indices `n`, ..., `1`. -/
def shiftRotated (name : Text) : ℕ → Dir → Dir
  | 0, d => d
  | n + 1, d =>
    shiftRotated name n (renameIfExists (rotatedPath name (n + 1)) (rotatedPath name (n + 2)) d)

def moveAlong (s : RotatingFile) : Dir :=
  if s.keep = 0 then removeIfExists s.name s.dir
  else renameIfExists s.name (rotatedPath s.name 1)
    (shiftRotated s.name (s.keep - 1) (removeIfExists (rotatedPath s.name s.keep) s.dir))

def rotate (s : RotatingFile) : RotatingFile :=
  { s with
    dir := openRotatingLogFile s.name s.moveAlong
    len := fileLen s.name (openRotatingLogFile s.name s.moveAlong) }

def writeAll (s : RotatingFile) (buf : Record) : Option RotatingFile :=
  let s := if s.shouldRotate buf.length then s.rotate else s
  (appendTo s.name buf s.dir).map fun d =>
    { s with dir := d, len := saturatingAdd s.len buf.length }

def writeRecords (s : RotatingFile) : List Record → Option RotatingFile
  | [] => some s
  | buf :: rest => (s.writeAll buf).bind fun t => t.writeRecords rest

end RotatingFile

/-! ### Names -/

theorem rotatedPath_inj {i j : ℕ} (h : rotatedPath name i = rotatedPath name j) : i = j := by
  have hdigits := (cons.inj (append_cancel_left h)).2
  have hvalue := congrArg (fun ds => Nat.ofDigitChars 10 ds 0) hdigits
  simpa only [Nat.ofDigitChars_ten_toDigits] using hvalue

theorem rotatedPath_ne (name : Text) (i : ℕ) : rotatedPath name i ≠ name := by
  intro h
  have hlen := congrArg length h
  rw [rotatedPath, length_append, length_cons] at hlen
  omega

def pathOf (name : Text) : ℕ → Text
  | 0 => name
  | i + 1 => rotatedPath name (i + 1)

theorem pathOf_zero (name : Text) : pathOf name 0 = name := rfl

theorem pathOf_succ (name : Text) (i : ℕ) : pathOf name (i + 1) = rotatedPath name (i + 1) := rfl

theorem pathOf_inj {i j : ℕ} (h : pathOf name i = pathOf name j) : i = j := by
  cases i with
  | zero =>
    cases j with
    | zero => rfl
    | succ j => exact absurd h.symm (rotatedPath_ne name (j + 1))
  | succ i =>
    cases j with
    | zero => exact absurd h (rotatedPath_ne name (i + 1))
    | succ j => exact rotatedPath_inj h

/-! ### Renaming the chain -/

theorem lookup_renameIfExists {source target : Text} (hfree : d.lookup target = none)
    (path : Text) :
    (renameIfExists source target d).lookup path =
      if path = target then d.lookup source else if path = source then none else d.lookup path := by
  unfold renameIfExists
  split
  · rename_i hnone
    rw [hnone]
    split
    · rename_i hp
      rw [hp, hfree]
    · split
      · rename_i hp
        rw [hp, hnone]
      · rfl
  · rename_i hsome
    rw [lookup_set, lookup_set, hsome]

/-- What the loop leaves behind, if nothing stands at the index it moves into first. -/
theorem lookup_shiftRotated (n : ℕ) (hfree : d.lookup (rotatedPath name (n + 1)) = none) :
    (∀ j, j < n → (RotatingFile.shiftRotated name n d).lookup (rotatedPath name (j + 2)) =
      d.lookup (rotatedPath name (j + 1))) ∧
    (RotatingFile.shiftRotated name n d).lookup (rotatedPath name 1) = none ∧
    ∀ path, (∀ j, j ≤ n → path ≠ rotatedPath name (j + 1)) →
      (RotatingFile.shiftRotated name n d).lookup path = d.lookup path := by
  -- the highest index is moved first, which frees the place for the next lower one
  induction n generalizing d with
  | zero => exact ⟨fun j hj => absurd hj (Nat.not_lt_zero j), hfree, fun path _ => rfl⟩
  | succ n ih =>
    have hne : rotatedPath name (n + 1) ≠ rotatedPath name (n + 2) := by
      intro h
      have := rotatedPath_inj h
      omega
    have hmove := @lookup_renameIfExists d (rotatedPath name (n + 1)) _ hfree
    have hfree' : (renameIfExists (rotatedPath name (n + 1)) (rotatedPath name (n + 2)) d).lookup
        (rotatedPath name (n + 1)) = none := by
      rw [hmove, if_neg hne, if_pos rfl]
    obtain ⟨hup, hfirst, hrest⟩ := ih hfree'
    have hother : ∀ path, path ≠ rotatedPath name (n + 2) → path ≠ rotatedPath name (n + 1) →
        (renameIfExists (rotatedPath name (n + 1)) (rotatedPath name (n + 2)) d).lookup path =
          d.lookup path := by
      intro path h2 h1
      rw [hmove, if_neg h2, if_neg h1]
    refine ⟨?_, hfirst, ?_⟩
    · intro j hj
      rcases Nat.lt_or_eq_of_le (Nat.le_of_lt_succ hj) with hlt | heq
      · rw [RotatingFile.shiftRotated, hup j hlt]
        refine hother _ ?_ ?_
        · intro h
          have := rotatedPath_inj h
          omega
        · intro h
          have := rotatedPath_inj h
          omega
      · subst heq
        rw [RotatingFile.shiftRotated, hrest _ ?_, hmove, if_pos rfl]
        intro i hi h
        have := rotatedPath_inj h
        omega
    · intro path hpath
      rw [RotatingFile.shiftRotated, hrest path fun j hj => hpath j (Nat.le_succ_of_le hj)]
      exact hother path (hpath (n + 1) (Nat.le_refl _)) (hpath n (Nat.le_succ n))

namespace RotatingFile

/-- Rotation makes every file one older; only the oldest name may be overwritten, and nothing
else in the directory is touched. -/
theorem lookup_moveAlong (s : RotatingFile) :
    s.moveAlong.lookup s.name = none ∧
    (∀ i, i < s.keep → s.moveAlong.lookup (pathOf s.name (i + 1)) =
      s.dir.lookup (pathOf s.name i)) ∧
    ∀ path, (∀ i, i ≤ s.keep → path ≠ pathOf s.name i) →
      s.moveAlong.lookup path = s.dir.lookup path := by
  unfold moveAlong
  cases hk : s.keep with
  | zero =>
    rw [if_pos rfl]
    refine ⟨lookup_set_self _ _ _, fun i hi => absurd hi (Nat.not_lt_zero i), ?_⟩
    intro path hpath
    exact lookup_set_of_ne (hpath 0 (Nat.le_refl 0))
  | succ k =>
    rw [if_neg (Nat.succ_ne_zero k), Nat.add_sub_cancel]
    have hremoved : (removeIfExists (rotatedPath s.name (k + 1)) s.dir).lookup
        (rotatedPath s.name (k + 1)) = none := lookup_set_self _ _ _
    have hothers : ∀ path, path ≠ rotatedPath s.name (k + 1) →
        (removeIfExists (rotatedPath s.name (k + 1)) s.dir).lookup path = s.dir.lookup path :=
      fun path hpath => lookup_set_of_ne hpath
    obtain ⟨hup, hfirst, hrest⟩ := lookup_shiftRotated k hremoved
    have hmove := @lookup_renameIfExists _ s.name _ hfirst
    refine ⟨?_, ?_, ?_⟩
    · rw [hmove, if_neg (rotatedPath_ne s.name 1).symm, if_pos rfl]
    · intro i hi
      cases i with
      | zero =>
        rw [pathOf_succ, pathOf_zero, hmove, if_pos rfl, hrest _ fun j _ => (rotatedPath_ne s.name (j + 1)).symm,
          hothers _ (rotatedPath_ne s.name (k + 1)).symm]
      | succ i =>
        have h1 : rotatedPath s.name (i + 2) ≠ rotatedPath s.name 1 := by
          intro h
          have := rotatedPath_inj h
          omega
        have h2 : rotatedPath s.name (i + 1) ≠ rotatedPath s.name (k + 1) := by
          intro h
          have := rotatedPath_inj h
          omega
        rw [pathOf_succ, pathOf_succ, hmove, if_neg h1, if_neg (rotatedPath_ne s.name (i + 2)),
          hup i (by omega), hothers _ h2]
    · intro path hpath
      have h0 : path ≠ s.name := hpath 0 (Nat.zero_le _)
      have hrot : ∀ j, j ≤ k → path ≠ rotatedPath s.name (j + 1) :=
        fun j hj => hpath (j + 1) (Nat.succ_le_succ hj)
      rw [hmove, if_neg (hrot 0 (Nat.zero_le _)), if_neg h0, hrest path hrot,
        hothers path (hrot k (Nat.le_refl k))]

end RotatingFile

/-! ### The shelf -/

/-- The directory holds the groups of records `active :: older`, one file for each, and
nothing else. -/
structure Shelved (s : RotatingFile) (active : List Record) (older : List (List Record)) :
    Prop where
  files : ∀ i, s.dir.lookup (pathOf s.name i) = (active :: older)[i]?.map flatten
  only : ∀ path, (s.dir.lookup path).isSome = true → ∃ i, path = pathOf s.name i
  few : older.length ≤ s.keep
  len : s.len = active.flatten.length
  offset : s.len ≤ maxOffset

namespace Shelved

variable {s : RotatingFile} {active : List Record} {older : List (List Record)}

theorem lookup_active (h : Shelved s active older) : s.dir.lookup s.name = some active.flatten :=
  h.files 0

theorem openIn (name : Text) (maxBytes keep : ℕ) :
    Shelved (RotatingFile.openIn ∅ name maxBytes keep) [] [] := by
  have hdir : (RotatingFile.openIn ∅ name maxBytes keep).dir = set ∅ name (some []) := rfl
  have hlen : (RotatingFile.openIn ∅ name maxBytes keep).len = 0 := by
    show ((set (∅ : Dir) name (some [])).lookup name |>.getD []).length = 0
    rw [lookup_set_self]
    rfl
  refine ⟨?_, ?_, Nat.zero_le _, hlen, ?_⟩
  · intro i
    rw [hdir]
    cases i with
    | zero => exact lookup_set_self _ _ _
    | succ i => exact lookup_set_of_ne (rotatedPath_ne name (i + 1))
  · intro path hpath
    refine ⟨0, ?_⟩
    rw [hdir, lookup_set] at hpath
    split at hpath
    · assumption
    · cases hpath
  · rw [hlen]
    exact Nat.zero_le _

theorem rotate (h : Shelved s active older) :
    Shelved s.rotate [] ((active :: older).take s.keep) := by
  obtain ⟨hname, hup, hrest⟩ := s.lookup_moveAlong
  have hdir : s.rotate.dir = set s.moveAlong s.name (some []) := by
    show openRotatingLogFile s.name s.moveAlong = _
    rw [openRotatingLogFile, hname]
  have hlen : s.rotate.len = 0 := by
    show fileLen s.name s.rotate.dir = 0
    rw [hdir, fileLen, lookup_set_self]
    rfl
  refine ⟨?_, ?_, length_take_le _ _, hlen, ?_⟩
  · intro i
    show s.rotate.dir.lookup (pathOf s.name i) = _
    rw [hdir]
    cases i with
    | zero => exact lookup_set_self _ _ _
    | succ i =>
      have hne : pathOf s.name (i + 1) ≠ s.name := rotatedPath_ne s.name (i + 1)
      rw [lookup_set_of_ne hne, getElem?_cons_succ]
      rcases Nat.lt_or_ge i s.keep with hi | hi
      · rw [hup i hi, h.files i, getElem?_take_of_lt hi]
      · have hfew := h.few
        have hout : (active :: older)[i + 1]? = none := by
          rw [getElem?_eq_none_iff, length_cons]
          omega
        have hold : s.moveAlong.lookup (pathOf s.name (i + 1)) = none := by
          rw [hrest, h.files (i + 1), hout]
          · rfl
          · intro j hj hp
            have := pathOf_inj hp
            omega
        have htake : ((active :: older).take s.keep)[i]? = none := by
          rw [getElem?_eq_none_iff]
          exact Nat.le_trans (length_take_le _ _) hi
        rw [hold, htake]
        rfl
  · intro path hpath
    by_cases hex : ∃ i, i ≤ s.keep ∧ path = pathOf s.name i
    · obtain ⟨i, -, hi⟩ := hex
      exact ⟨i, hi⟩
    · have hne : ∀ i, i ≤ s.keep → path ≠ pathOf s.name i := fun i hi hp => hex ⟨i, hi, hp⟩
      have hname' : path ≠ s.name := hne 0 (Nat.zero_le _)
      rw [hdir, lookup_set_of_ne hname', hrest path hne] at hpath
      exact h.only path hpath
  · rw [hlen]
    exact Nat.zero_le _

theorem append (h : Shelved s active older) (hd : appendTo s.name buf s.dir = some d) :
    active.flatten.length + buf.length ≤ maxOffset ∧
    Shelved { s with dir := d, len := saturatingAdd s.len buf.length } (active ++ [buf]) older := by
  rw [appendTo, h.lookup_active] at hd
  obtain ⟨hfits, hd⟩ := Option.ite_none_right_eq_some.mp hd
  cases hd
  have hflat : (active ++ [buf]).flatten = active.flatten ++ buf := by
    rw [flatten_append, flatten_singleton]
  have hsum : saturatingAdd s.len buf.length = active.flatten.length + buf.length := by
    rw [saturatingAdd, h.len]
    refine Nat.min_eq_left (Nat.le_trans hfits ?_)
    decide
  refine ⟨hfits, ?_, ?_, h.few, ?_, ?_⟩
  · intro i
    show (set s.dir s.name _).lookup (pathOf s.name i) = _
    cases i with
    | zero =>
      rw [getElem?_cons_zero, Option.map_some, hflat]
      exact lookup_set_self _ _ _
    | succ i =>
      have hne : pathOf s.name (i + 1) ≠ s.name := rotatedPath_ne s.name (i + 1)
      rw [lookup_set_of_ne hne, h.files (i + 1)]
      rfl
  · intro path hpath
    rw [lookup_set] at hpath
    split at hpath
    · rename_i hp
      exact ⟨0, hp⟩
    · exact h.only path hpath
  · show saturatingAdd s.len buf.length = (active ++ [buf]).flatten.length
    rw [hsum, hflat, length_append]
  · show saturatingAdd s.len buf.length ≤ maxOffset
    rw [hsum]
    exact hfits

end Shelved

/-! ### Runs -/

/- A file within the limit, or one that holds a single record; records without bytes take no
room. -/
def Sized (maxBytes : ℕ) (group : List Record) : Prop :=
  group.flatten.length ≤ maxBytes ∨
    ∃ r, group.filter (fun record => record ≠ []) = [r] ∧ maxBytes < r.length

/-- The files, the oldest first, are the last records of `written`. -/
structure Retained (s : RotatingFile) (written : List Record) (active : List Record)
    (older : List (List Record)) : Prop where
  shelved : Shelved s active older
  last : (active :: older).reverse.flatten <:+ written
  sized : ∀ group ∈ active :: older, Sized s.maxBytes group

theorem filter_eq_nil_of_flatten {group : List Record} (h : group.flatten.length = 0) :
    group.filter (fun record => record ≠ []) = [] := by
  rw [filter_eq_nil_iff]
  intro record hr
  have hnil := flatten_eq_nil_iff.mp (eq_nil_of_length_eq_zero h) record hr
  simp [hnil]

namespace Retained

variable {s : RotatingFile} {written active : List Record} {older : List (List Record)}

theorem openIn (name : Text) (maxBytes keep : ℕ) :
    Retained (RotatingFile.openIn ∅ name maxBytes keep) [] [] [] := by
  refine ⟨Shelved.openIn name maxBytes keep, suffix_rfl, ?_⟩
  intro group hg
  rw [mem_singleton.mp hg]
  exact .inl (Nat.zero_le _)

theorem rotate (h : Retained s written active older) :
    Retained s.rotate written [] ((active :: older).take s.keep) := by
  refine ⟨h.shelved.rotate, ?_, ?_⟩
  · have hdrop : ((active :: older).take s.keep).reverse.flatten <:+
        (active :: older).reverse.flatten := by
      have hsplit := congrArg (fun l : List (List Record) => l.reverse.flatten)
        (take_append_drop s.keep (active :: older))
      simp only [reverse_append, flatten_append] at hsplit
      exact ⟨_, hsplit⟩
    rw [reverse_cons, flatten_append, flatten_singleton, append_nil]
    exact hdrop.trans h.last
  · intro group hg
    rcases mem_cons.mp hg with rfl | hg
    · exact .inl (Nat.zero_le _)
    · exact h.sized group (mem_of_mem_take hg)

theorem append (h : Retained s written active older)
    (hroom : s.len = 0 ∨ saturatingAdd s.len buf.length ≤ s.maxBytes)
    (hd : appendTo s.name buf s.dir = some d) :
    Retained { s with dir := d, len := saturatingAdd s.len buf.length } (written ++ [buf])
      (active ++ [buf]) older := by
  obtain ⟨hfits, hshelved⟩ := h.shelved.append hd
  have hflat : (active ++ [buf]).flatten.length = active.flatten.length + buf.length := by
    rw [flatten_append, flatten_singleton, length_append]
  refine ⟨hshelved, ?_, ?_⟩
  · obtain ⟨start, hstart⟩ := h.last
    refine ⟨start, ?_⟩
    rw [reverse_cons, flatten_append, flatten_singleton] at hstart ⊢
    rw [← hstart, append_assoc, append_assoc]
  · intro group hg
    rcases mem_cons.mp hg with rfl | hg
    · rcases hroom with hzero | hroom
      · -- the records before it, if there are any, are empty
        rw [h.shelved.len] at hzero
        rcases Nat.lt_or_ge s.maxBytes buf.length with hbig | hsmall
        · refine .inr ⟨buf, ?_, hbig⟩
          have hne : buf ≠ [] := ne_nil_of_length_pos (Nat.lt_of_le_of_lt (Nat.zero_le _) hbig)
          rw [filter_append, filter_eq_nil_of_flatten hzero]
          simp [hne]
        · refine .inl ?_
          rw [hflat, hzero, Nat.zero_add]
          exact hsmall
      · refine .inl ?_
        have hlen : s.len = active.flatten.length := h.shelved.len
        rw [saturatingAdd, hlen, Nat.min_eq_left (Nat.le_trans hfits (by decide))] at hroom
        rw [hflat]
        exact hroom
    · exact h.sized group (mem_cons_of_mem active hg)

theorem writeAll (h : Retained s written active older) {t : RotatingFile} (hpos : 0 < s.maxBytes)
    (ht : s.writeAll buf = some t) :
    (t.name = s.name ∧ t.maxBytes = s.maxBytes ∧ t.keep = s.keep) ∧
      ∃ active' older', Retained t (written ++ [buf]) active' older' := by
  unfold RotatingFile.writeAll at ht
  cases hrot : s.shouldRotate buf.length with
  | true =>
    rw [hrot, if_pos rfl] at ht
    obtain ⟨d, hd, rfl⟩ := Option.map_eq_some_iff.mp ht
    exact ⟨⟨rfl, rfl, rfl⟩, _, _, h.rotate.append (.inl h.rotate.shelved.len) hd⟩
  | false =>
    rw [hrot, if_neg Bool.false_ne_true] at ht
    obtain ⟨d, hd, rfl⟩ := Option.map_eq_some_iff.mp ht
    refine ⟨⟨rfl, rfl, rfl⟩, _, _, h.append ?_ hd⟩
    simp only [RotatingFile.shouldRotate, hpos, decide_true, Bool.true_and, Bool.and_eq_false_iff,
      decide_eq_false_iff_not, Nat.not_lt] at hrot
    exact hrot.imp_left Nat.le_zero.mp

theorem writeRecords (h : Retained s written active older) {records : List Record}
    {t : RotatingFile} (hpos : 0 < s.maxBytes) (ht : s.writeRecords records = some t) :
    (t.name = s.name ∧ t.maxBytes = s.maxBytes ∧ t.keep = s.keep) ∧
      ∃ active' older', Retained t (written ++ records) active' older' := by
  induction records generalizing s written active older with
  | nil =>
    cases ht
    rw [append_nil]
    exact ⟨⟨rfl, rfl, rfl⟩, active, older, h⟩
  | cons buf rest ih =>
    obtain ⟨u, hu, hrest⟩ := Option.bind_eq_some_iff.mp ht
    obtain ⟨⟨hn, hm, hk⟩, active', older', hu'⟩ := h.writeAll hpos hu
    obtain ⟨⟨hn', hm', hk'⟩, hfinal⟩ := ih hu' (hm ▸ hpos) hrest
    refine ⟨⟨hn'.trans hn, hm'.trans hm, hk'.trans hk⟩, ?_⟩
    rwa [append_assoc, singleton_append] at hfinal

end Retained

namespace RotatingFile

/- The contents of the retained files, from the oldest index down to the active file. -/
def retained (s : RotatingFile) : List Record :=
  (range (s.keep + 1)).reverse.filterMap fun i => s.dir.lookup (pathOf s.name i)

end RotatingFile

theorem filterMap_range_getElem? {α : Type} (l : List α) (n : ℕ) :
    (range n).filterMap (fun i => l[i]?) = l.take n := by
  induction n with
  | zero => rfl
  | succ n ih =>
    rw [range_succ, filterMap_append, ih, take_add_one]
    cases hn : l[n]? <;> simp [hn]

theorem Shelved.retained {s : RotatingFile} {active : List Record} {older : List (List Record)}
    (h : Shelved s active older) : s.retained = (active :: older).reverse.map flatten := by
  have hfiles : (fun i => s.dir.lookup (pathOf s.name i)) =
      fun i => ((active :: older).map flatten)[i]? := by
    funext i
    rw [h.files i, getElem?_map]
  have hall : ((active :: older).map flatten).take (s.keep + 1) =
      (active :: older).map flatten := by
    refine take_of_length_le ?_
    rw [length_map, length_cons]
    exact Nat.succ_le_succ h.few
  rw [RotatingFile.retained, hfiles, filterMap_reverse, filterMap_range_getElem?, hall,
    map_reverse]

/-- After any records written without a failure the files hold whole records, together the last
ones written, at most `keep` files besides the active one, each within the limit or with a single
record. -/
theorem rotation_keeps_suffix (name : Text) {maxBytes : ℕ} (hpos : 0 < maxBytes) (keep : ℕ)
    (records : List Record) {s : RotatingFile}
    (h : (RotatingFile.openIn ∅ name maxBytes keep).writeRecords records = some s) :
    ∃ groups : List (List Record),
      s.retained = groups.map flatten ∧ groups.flatten <:+ records ∧
      (groups ≠ [] ∧ groups.length ≤ keep + 1) ∧
      (∀ path, (s.dir.lookup path).isSome = true →
        path = name ∨ ∃ i, 1 ≤ i ∧ i ≤ keep ∧ path = rotatedPath name i) ∧
      ∀ group ∈ groups, Sized maxBytes group := by
  obtain ⟨⟨hn, hm, hk⟩, active, older, hr⟩ :=
    (Retained.openIn name maxBytes keep).writeRecords hpos h
  have hname : s.name = name := hn
  have hmax : s.maxBytes = maxBytes := hm
  have hkeep : s.keep = keep := hk
  have hfew := hr.shelved.few
  rw [hkeep] at hfew
  refine ⟨(active :: older).reverse, hr.shelved.retained, hr.last, ⟨?_, ?_⟩, ?_, ?_⟩
  · exact fun hnil => cons_ne_nil active older (reverse_eq_nil_iff.mp hnil)
  · rw [length_reverse, length_cons]
    omega
  · intro path hpath
    obtain ⟨i, rfl⟩ := hr.shelved.only path hpath
    rw [hname]
    cases i with
    | zero => exact Or.inl rfl
    | succ i =>
      refine Or.inr ⟨i + 1, Nat.succ_le_succ (Nat.zero_le i), ?_, rfl⟩
      rw [hr.shelved.files, Option.isSome_map, getElem?_cons_succ] at hpath
      have hlt : i < older.length := by
        by_contra hge
        rw [getElem?_eq_none (Nat.le_of_not_lt hge)] at hpath
        cases hpath
      omega
  · intro group hg
    rw [← hmax]
    exact hr.sized group (mem_reverse.mp hg)

theorem rotation_keeps_suffix_six :
    ∃ s, (RotatingFile.openIn ∅ ['l'] 10 2).writeRecords
        [[1, 1, 1, 1, 1, 1], [2, 2, 2, 2, 2, 2], [3, 3], replicate 12 4, [5], [6]] = some s ∧
      s.retained = [[2, 2, 2, 2, 2, 2, 3, 3], replicate 12 4, [5, 6]] ∧
      ∃ groups : List (List Record), s.retained = groups.map flatten ∧
        ∀ group ∈ groups, Sized 10 group := by
  have hrun : ((RotatingFile.openIn ∅ ['l'] 10 2).writeRecords
      [[1, 1, 1, 1, 1, 1], [2, 2, 2, 2, 2, 2], [3, 3], replicate 12 4, [5], [6]]).map
        RotatingFile.retained =
      some [[2, 2, 2, 2, 2, 2, 3, 3], replicate 12 4, [5, 6]] := by decide +kernel
  obtain ⟨s, hs, hretained⟩ := Option.map_eq_some_iff.mp hrun
  obtain ⟨groups, hgroups, -, -, -, hsized⟩ := rotation_keeps_suffix ['l'] (by decide) 2 _ hs
  exact ⟨s, hs, hretained, groups, hgroups, hsized⟩

end Alighieri.Runtime
