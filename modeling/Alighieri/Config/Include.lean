import Mathlib.Data.Char
import Mathlib.Data.List.Lex
import Alighieri.Config.RuleBlock
import Alighieri.Config.Wildcard
import Alighieri.Net.Lines

/-!
# Loading a file and what it includes (config.rs:522-676, 1831-1968, 2022-2049)

`parse_config_file`, `parse_config_text` and `parse_include` call each other. The depth of the
calls is bounded by a number here, and a run that would go deeper has no result. The file system
does not change while the configuration is loaded. `parse_setting` writes to the settings of the
builder only and is a parameter.
-/

namespace Alighieri.Config
open Net Acl List
open Socks5 (Error)

/-! ### Paths -/

/-- A path by its components, as `Path::eq` sees it. A `.` is kept only where a relative
path begins with it. -/
structure Path where
  absolute : Bool
  parts : List Text
  deriving DecidableEq, Repr

namespace Path

def ofText (s : Text) : Path :=
  let pieces := (s.splitOn '/').filter (· ≠ [])
  if s.head? = some '/' then ⟨true, pieces.filter (· ≠ ['.'])⟩
  else ⟨false, pieces.take 1 ++ (pieces.drop 1).filter (· ≠ ['.'])⟩

def join (p q : Path) : Path :=
  if q.absolute ∨ p = ⟨false, []⟩ then q else ⟨p.absolute, p.parts ++ q.parts.filter (· ≠ ['.'])⟩

def parent (p : Path) : Option Path :=
  if p.parts = [] then none else some ⟨p.absolute, p.parts.dropLast⟩

def fileName (p : Path) : Option Text :=
  p.parts.getLast?.filter fun name => name ≠ ['.'] ∧ name ≠ ['.', '.']

def display (p : Path) : String :=
  String.ofList ((if p.absolute then ['/'] else []) ++ intercalate ['/'] p.parts)

end Path

variable {depth : ℕ} {stack rest : List Path} {path : Path}

/- An entry of a directory: its name as `join` takes it, and the text of it that `to_string_lossy`
gives, which is not the name when that is no UTF-8. -/
structure DirEntry where
  fileName : Text
  lossy : Text
  deriving DecidableEq, Repr

/-- The calls the loader makes to the file system, with the texts of their errors.
`files` has every canonical path there is: the file system is finite. -/
structure FileSystem where
  canonicalize : Path → Except String Path
  readToString : Path → Except String Text
  readDir : Path → Except String (List (Except String DirEntry))
  isFile : Path → Except String Bool
  files : List Path
  canonical_mem : ∀ {p c}, canonicalize p = .ok c → c ∈ files

structure LoadedConfigSource where
  declaredPath : Path
  canonicalPath : Path
  deriving DecidableEq, Repr

structure LoadedIncludePattern where
  declaredPath : Path
  path : Path
  deriving DecidableEq, Repr

/-- The builder, with `pushed` for the include stacks `parse_config_text` was called with. -/
structure Builder (σ : Type) where
  settings : σ
  rules : List Rule
  loadedSourcePaths : List Path
  loadedConfigSources : List LoadedConfigSource
  loadedIncludePatterns : List LoadedIncludePattern
  pushed : List (List Path)

def Builder.start {σ : Type} (init : σ) : Builder σ := ⟨init, [], [], [], [], []⟩

structure ParseSource where
  display : Option String
  baseDir : Option Path
  deriving DecidableEq, Repr

def ParseSource.file (path : Path) : ParseSource := ⟨some path.display, path.parent⟩

/-- What a call leaves in the builder and returns, unless it goes too deep. -/
abbrev Loaded (σ : Type) := Option (Builder σ × Except Error Unit)

variable {σ : Type} {b' : Builder σ} {x : Loaded σ}

/- The `?` operator. -/
def Loaded.andThen (x : Loaded σ) (k : Builder σ → Loaded σ) : Loaded σ :=
  match x with
  | none => none
  | some (b, .error e) => some (b, .error e)
  | some (b, .ok ()) => k b

def Loaded.mapErr (f : Error → Error) (x : Loaded σ) : Loaded σ :=
  x.map fun r => (r.1, r.2.mapError f)

/-! ### Errors -/

def cfgErrAt (source : ParseSource) (lineno : ℕ) (msg : String) : Error :=
  match source.display with
  | some display => .config (display ++ ":line " ++ toString lineno ++ ": " ++ msg)
  | none => cfgErr lineno msg

def withSourceContext (err : Error) (source : ParseSource) : Error :=
  match source.display, err with
  | some display, .config msg =>
    if msg.startsWith "line " then .config (display ++ ":" ++ msg) else .config msg
  | _, err => err

def configErrorMessage : Error → String
  | .config msg => msg
  | other => other.display

/-! ### Lines -/

/-- What the loop of `parse_config_text` finds at one line. -/
inductive Item where
  | blank
  | rule (rule : Rule) (next : ℕ)
  | incl (values : List Text)
  | setting (head : Text) (values : List Text)

def Item.next (i : ℕ) : Item → ℕ
  | .rule _ next => next
  | _ => i + 1

def isVerdict (word : Text) : Bool :=
  toAsciiLowercase word == "pass".toList || toAsciiLowercase word == "block".toList

def scanLine (lines : List Text) (i : ℕ) : Except Error Item :=
  match splitWhitespace (trim (stripComment (lines.getD i []))) with
  | [] => .ok .blank
  | first :: values =>
    let head := keyText first
    if (head = "client".toList ∨ head = "socks".toList) ∧ values.head?.any isVerdict then do
      let (block, next) ← gatherBlock lines i
      let rule ← parseRule block (i + 1)
      .ok (.rule rule next)
    else if head = "include".toList then .ok (.incl values)
    else .ok (.setting head values)

theorem gatherLines_next {start i next : ℕ} {g : Gathering} {lines tokens : List Text}
    (h : gatherLines start i g lines = .ok (tokens, next)) : i < next := by
  induction lines generalizing i g with
  | nil => cases h
  | cons line rest ih =>
    rw [gatherLines] at h
    obtain ⟨g₁, -, h⟩ := Except.of_bind_ok h
    split at h
    · cases h
      exact Nat.lt_succ_self i
    · exact Nat.lt_of_succ_lt (ih h)

theorem scanLine_next {lines : List Text} {i : ℕ} {item : Item}
    (h : scanLine lines i = .ok item) : i < item.next i := by
  unfold scanLine at h
  split at h
  · cases h
    exact Nat.lt_succ_self i
  · simp only at h
    split at h
    · obtain ⟨⟨block, next⟩, hgather, h⟩ := Except.of_bind_ok h
      obtain ⟨rule, -, h⟩ := Except.of_bind_ok h
      cases h
      exact gatherLines_next hgather
    · split at h <;> cases h <;> exact Nat.lt_succ_self i

/-! ### Includes -/

def resolveIncludePattern (rawPattern : Text) (source : ParseSource) : Except Error Path :=
  let pattern := Path.ofText rawPattern
  if pattern.absolute then .ok pattern
  else
    match source.baseDir with
    | some base => .ok (base.join pattern)
    | none => .error (.config "include has no base directory")

def pathHasWildcards (path : Path) : Bool :=
  path.parts.any fun name => stringHasWildcards (String.ofList name)

def parentOrHere (path : Path) : Path := path.parent.getD ⟨false, [['.']]⟩

def matchingEntries (fs : FileSystem) (parent : Path) (filePattern : Text) :
    List (Except String DirEntry) → Except String (List Path)
  | [] => .ok []
  | entry :: rest => do
    let entry ← entry
    if wildcardMatch (String.ofList filePattern) (String.ofList entry.lossy) then
      let isFile ← fs.isFile (parent.join ⟨false, [entry.fileName]⟩)
      let found ← matchingEntries fs parent filePattern rest
      .ok (if isFile then parent.join ⟨false, [entry.fileName]⟩ :: found else found)
    else matchingEntries fs parent filePattern rest

def expandIncludePattern (fs : FileSystem) (pattern : Path) : Except String (List Path) :=
  if pathHasWildcards pattern = false then .ok [pattern]
  else
    match pattern.fileName with
    | none => .ok []
    | some filePattern =>
      if pathHasWildcards (parentOrHere pattern) then
        .error "wildcards are only supported in the final path component"
      else do
        let entries ← fs.readDir (parentOrHere pattern)
        let found ← matchingEntries fs (parentOrHere pattern) filePattern entries
        .ok (found.mergeSort fun p q => decide (p.parts ≤ q.parts))

/- `parse_include` up to its loop: the files to load, and the pattern to record if there
is one. -/
def findIncludes (fs : FileSystem) (source : ParseSource) (lineno : ℕ) (vals : List Text) :
    Except Error (List Path × Option LoadedIncludePattern) :=
  let rawPattern := intercalate [' '] vals
  let failed (e : String) : Error :=
    cfgErrAt source lineno ("include '" ++ String.ofList rawPattern ++ "' failed: " ++ e)
  if vals = [] then .error (cfgErrAt source lineno "include requires a path")
  else if source.baseDir = none then
    .error (cfgErrAt source lineno
      "include is only supported when loading configuration from a file")
  else do
    let pattern ← (resolveIncludePattern rawPattern source).mapError
      fun e => failed (configErrorMessage e)
    let includePaths ← (expandIncludePattern fs pattern).mapError failed
    if includePaths = [] then .error (failed "matched no files")
    else if pathHasWildcards pattern then do
      let canonicalParent ← (fs.canonicalize (parentOrHere pattern)).mapError failed
      .ok (includePaths, pattern.fileName.map fun name =>
        ⟨pattern, canonicalParent.join ⟨false, [name]⟩⟩)
    else .ok (includePaths, none)

namespace Builder

def recordLoadedSourcePath (b : Builder σ) (declared canonical : Path) : Builder σ :=
  { b with
    loadedSourcePaths :=
      if canonical ∈ b.loadedSourcePaths then b.loadedSourcePaths
      else b.loadedSourcePaths ++ [canonical]
    loadedConfigSources :=
      if ⟨declared, canonical⟩ ∈ b.loadedConfigSources then b.loadedConfigSources
      else b.loadedConfigSources ++ [⟨declared, canonical⟩] }

def recordPattern (b : Builder σ) : Option LoadedIncludePattern → Builder σ
  | none => b
  | some pattern =>
    if pattern ∈ b.loadedIncludePatterns then b
    else { b with loadedIncludePatterns := b.loadedIncludePatterns ++ [pattern] }

end Builder

/-! ### The loader -/

section
variable (fs : FileSystem) (parseSetting : σ → Text → List Text → ℕ → Except Error σ)

def includeAll (source : ParseSource) (load : Path → Builder σ → Loaded σ) (lineno : ℕ) :
    List Path → Builder σ → Loaded σ
  | [], b => some (b, .ok ())
  | path :: rest, b =>
    ((load path b).mapErr fun e => cfgErrAt source lineno
      ("include '" ++ path.display ++ "' failed: " ++ configErrorMessage e)).andThen
      (includeAll source load lineno rest)

def parseInclude (source : ParseSource) (load : Path → Builder σ → Loaded σ) (lineno : ℕ)
    (vals : List Text) (b : Builder σ) : Loaded σ :=
  match findIncludes fs source lineno vals with
  | .error e => some (b, .error e)
  | .ok (paths, pattern) => includeAll source load lineno paths (b.recordPattern pattern)

/- What the loop of `parse_config_text` does with what it finds. -/
def applyItem (source : ParseSource) (load : Path → Builder σ → Loaded σ) (lineno : ℕ)
    (b : Builder σ) : Item → Loaded σ
  | .blank => some (b, .ok ())
  | .rule rule _ => some ({ b with rules := b.rules ++ [rule] }, .ok ())
  | .incl values => parseInclude fs source load lineno values b
  | .setting head values =>
    match parseSetting b.settings head values lineno with
    | .ok settings => some ({ b with settings := settings }, .ok ())
    | .error e => some (b, .error (withSourceContext e source))

def parseLines (source : ParseSource) (load : Path → Builder σ → Loaded σ) (lines : List Text)
    (i : ℕ) (b : Builder σ) : Loaded σ :=
  if _h : i < lines.length then
    match _hitem : scanLine lines i with
    | .error e => some (b, .error (withSourceContext e source))
    | .ok item =>
      (applyItem fs parseSetting source load (i + 1) b item).andThen
        (parseLines source load lines (item.next i))
  else some (b, .ok ())
termination_by lines.length - i
decreasing_by
  have hnext := scanLine_next _hitem
  omega

def parseConfigText (text : Text) (source : ParseSource) (load : Path → Builder σ → Loaded σ)
    (b : Builder σ) : Loaded σ :=
  parseLines fs parseSetting source load (lines text) 0 b

/- `load` is `parse_config_file` with the stack it is given. -/
def parseResolvedConfigFile (load : List Path → Path → Builder σ → Loaded σ) (canonical : Path)
    (text : Text) (stack : List Path) (b : Builder σ) : Loaded σ :=
  if canonical ∈ stack then
    some (b, .error (.config ("include cycle detected: " ++
      " -> ".intercalate ((stack ++ [canonical]).map Path.display))))
  else
    parseConfigText fs parseSetting text (.file canonical) (load (stack ++ [canonical]))
      { b with pushed := b.pushed ++ [stack ++ [canonical]] }

def parseConfigFile : ℕ → List Path → Path → Builder σ → Loaded σ
  | 0, _, _, _ => none
  | depth + 1, stack, path, b =>
    match fs.canonicalize path with
    | .error e => some (b, .error (.config ("failed to resolve " ++ path.display ++ ": " ++ e)))
    | .ok canonical =>
      let b := b.recordLoadedSourcePath path canonical
      match fs.readToString canonical with
      | .error e =>
        some (b, .error (.config ("failed to read " ++ canonical.display ++ ": " ++ e)))
      | .ok text =>
        parseResolvedConfigFile fs parseSetting (parseConfigFile depth) canonical text stack b

/- `load_builder`: the builder starts from the settings `init` and the stack is empty. -/
def loadBuilder (init : σ) (depth : ℕ) (path : Path) : Loaded σ :=
  match fs.canonicalize path with
  | .error resolveError =>
    match fs.readToString path with
    | .error readError =>
      some (.start init,
        .error (.config ("failed to read " ++ path.display ++ ": " ++ readError)))
    | .ok _ =>
      some (.start init,
        .error (.config ("failed to resolve " ++ path.display ++ ": " ++ resolveError)))
  | .ok canonical =>
    let b := (Builder.start init).recordLoadedSourcePath path canonical
    match fs.readToString canonical with
    | .error e => some (b, .error (.config ("failed to read " ++ path.display ++ ": " ++ e)))
    | .ok text =>
      parseResolvedConfigFile fs parseSetting (parseConfigFile fs parseSetting depth) canonical
        text [] b

end

/-! ### Every call has a result -/

/-- The include stacks so far hold no file twice. -/
def Builder.Acyclic (b : Builder σ) : Prop := ∀ stack ∈ b.pushed, stack.Nodup

def Loaded.Settled (x : Loaded σ) : Prop := ∃ b r, x = some (b, r) ∧ b.Acyclic

variable {fs : FileSystem} {parseSetting : σ → Text → List Text → ℕ → Except Error σ}
  {source : ParseSource} {load : Path → Builder σ → Loaded σ} {lineno : ℕ} {b : Builder σ}

theorem Loaded.Settled.andThen {k : Builder σ → Loaded σ} (hx : x.Settled)
    (hk : ∀ b : Builder σ, b.Acyclic → (k b).Settled) : (x.andThen k).Settled := by
  obtain ⟨b, r, rfl, hb⟩ := hx
  cases r with
  | error e => exact ⟨b, _, rfl, hb⟩
  | ok u => exact hk b hb

theorem Loaded.Settled.mapErr (hx : x.Settled) (f : Error → Error) : (x.mapErr f).Settled := by
  obtain ⟨b, r, rfl, hb⟩ := hx
  exact ⟨b, _, rfl, hb⟩

theorem Builder.recordPattern_pushed (b : Builder σ) (pattern : Option LoadedIncludePattern) :
    (b.recordPattern pattern).pushed = b.pushed := by
  cases pattern with
  | none => rfl
  | some =>
    simp only [Builder.recordPattern]
    split <;> rfl

section
variable (hload : ∀ p (b : Builder σ), b.Acyclic → (load p b).Settled)
include hload

theorem includeAll_settled (paths : List Path) (hb : b.Acyclic) :
    (includeAll source load lineno paths b).Settled := by
  induction paths generalizing b with
  | nil => exact ⟨b, _, rfl, hb⟩
  | cons path rest ih => exact ((hload path b hb).mapErr _).andThen fun b hb => ih hb

theorem applyItem_settled (item : Item) (hb : b.Acyclic) :
    (applyItem fs parseSetting source load lineno b item).Settled := by
  cases item with
  | blank => exact ⟨b, _, rfl, hb⟩
  | rule => exact ⟨_, _, rfl, hb⟩
  | incl values =>
    simp only [applyItem, parseInclude]
    split
    · exact ⟨b, _, rfl, hb⟩
    · rename_i paths pattern _
      refine includeAll_settled hload paths ?_
      rw [Builder.Acyclic, Builder.recordPattern_pushed]
      exact hb
  | setting =>
    simp only [applyItem]
    split <;> exact ⟨_, _, rfl, hb⟩

theorem parseLines_settled (lines : List Text) (i : ℕ) (hb : b.Acyclic) :
    (parseLines fs parseSetting source load lines i b).Settled := by
  induction hleft : lines.length - i using Nat.strongRecOn generalizing i b with
  | ind left ih =>
    rw [parseLines]
    split
    · rename_i hi
      split
      · exact ⟨b, _, rfl, hb⟩
      · rename_i item hitem
        have hnext := scanLine_next hitem
        exact (applyItem_settled hload item hb).andThen
          fun b hb => ih (lines.length - item.next i) (by omega) (item.next i) hb rfl
    · exact ⟨b, _, rfl, hb⟩

end

section
variable {load : List Path → Path → Builder σ → Loaded σ} {canonical : Path} {text : Text}
  {stack : List Path}

theorem parseResolvedConfigFile_cases (hstack : stack.Nodup) :
    (∃ e, parseResolvedConfigFile fs parseSetting load canonical text stack b =
      some (b, .error e)) ∨
    ((stack ++ [canonical]).Nodup ∧
      parseResolvedConfigFile fs parseSetting load canonical text stack b =
        parseLines fs parseSetting (.file canonical) (load (stack ++ [canonical])) (lines text) 0
          { b with pushed := b.pushed ++ [stack ++ [canonical]] }) := by
  unfold parseResolvedConfigFile
  split
  · exact .inl ⟨_, rfl⟩
  · rename_i hnew
    have hnodup := hstack.concat hnew
    rw [concat_eq_append] at hnodup
    exact .inr ⟨hnodup, rfl⟩

theorem parseResolvedConfigFile_settled (hb : b.Acyclic) (hmem : canonical ∈ fs.files)
    (hsub : stack ⊆ fs.files) (hstack : stack.Nodup)
    (hload : (stack ++ [canonical]).Nodup → stack ++ [canonical] ⊆ fs.files →
      ∀ p (b : Builder σ), b.Acyclic → (load (stack ++ [canonical]) p b).Settled) :
    (parseResolvedConfigFile fs parseSetting load canonical text stack b).Settled := by
  rcases parseResolvedConfigFile_cases hstack with ⟨e, h⟩ | ⟨hnodup, h⟩
  · exact ⟨b, _, h, hb⟩
  · have hsub' : stack ++ [canonical] ⊆ fs.files :=
      append_subset.mpr ⟨hsub, cons_subset.mpr ⟨hmem, nil_subset _⟩⟩
    rw [h]
    apply parseLines_settled (hload hnodup hsub')
    intro s hs
    rcases mem_append.mp hs with hs | hs
    · exact hb s hs
    · rw [mem_singleton.mp hs]
      exact hnodup

end

/- The files on the stack are different ones, so they are no more than the system has. -/
theorem parseConfigFile_settled (path : Path) (hb : b.Acyclic)
    (hdepth : fs.files.length < depth + stack.length) (hsub : stack ⊆ fs.files)
    (hstack : stack.Nodup) : (parseConfigFile fs parseSetting depth stack path b).Settled := by
  induction depth generalizing stack path b with
  | zero =>
    have hlen := (subperm_of_subset hstack hsub).length_le
    omega
  | succ depth ih =>
    rw [parseConfigFile]
    split
    · exact ⟨b, _, rfl, hb⟩
    · rename_i hcanon
      simp only
      split
      · exact ⟨_, _, rfl, hb⟩
      · refine parseResolvedConfigFile_settled hb (fs.canonical_mem hcanon) hsub hstack ?_
        intro hnodup hsub' p b' hb'
        refine ih p hb' ?_ hsub' hnodup
        rw [length_append, length_singleton]
        omega

/-! ### What a load without an error has loaded -/

/-- An `include` line of a text, at or after line `i`, stands for the file `path`. -/
inductive Names (fs : FileSystem) (source : ParseSource) (lines : List Text) (path : Path) :
    ℕ → Prop
  | here {i : ℕ} {values : List Text} {paths : List Path} {pattern : Option LoadedIncludePattern} :
    i < lines.length → scanLine lines i = .ok (.incl values) →
    findIncludes fs source (i + 1) values = .ok (paths, pattern) → path ∈ paths →
    Names fs source lines path i
  | later {i : ℕ} {item : Item} : i < lines.length → scanLine lines i = .ok item →
    Names fs source lines path (item.next i) → Names fs source lines path i

/-- The file `c` has an `include` that stands for the file `d`, both by their canonical
paths. -/
def Includes (fs : FileSystem) (c d : Path) : Prop :=
  ∃ text path, fs.readToString c = .ok text ∧
    Names fs (.file c) (lines text) path 0 ∧ fs.canonicalize path = .ok d

theorem Loaded.andThen_ok {k : Builder σ → Loaded σ} (h : x.andThen k = some (b', .ok ())) :
    ∃ b, x = some (b, .ok ()) ∧ k b = some (b', .ok ()) := by
  rcases x with - | ⟨b, e | u⟩
  · cases h
  · cases h
  · exact ⟨b, rfl, h⟩

theorem Loaded.mapErr_ok {f : Error → Error} (h : x.mapErr f = some (b', .ok ())) :
    x = some (b', .ok ()) := by
  rcases x with - | ⟨b, e | u⟩
  · cases h
  · cases h
  · exact h

theorem includeAll_ok {paths : List Path}
    (h : includeAll source load lineno paths b = some (b', .ok ())) (hpath : path ∈ paths) :
    ∃ b₁ b₂, load path b₁ = some (b₂, .ok ()) := by
  induction paths generalizing b with
  | nil => cases hpath
  | cons p rest ih =>
    obtain ⟨b₁, hp, hrest⟩ := Loaded.andThen_ok h
    rcases mem_cons.mp hpath with rfl | hpath
    · exact ⟨b, b₁, Loaded.mapErr_ok hp⟩
    · exact ih hrest hpath

theorem parseLines_ok {lines : List Text} {i : ℕ} (hnames : Names fs source lines path i)
    (h : parseLines fs parseSetting source load lines i b = some (b', .ok ())) :
    ∃ b₁ b₂, load path b₁ = some (b₂, .ok ()) := by
  -- where the loop is at an item, it has done the item and the rest
  have hstep : ∀ {i : ℕ} {b : Builder σ} {item : Item}, i < lines.length →
      scanLine lines i = .ok item →
      parseLines fs parseSetting source load lines i b = some (b', .ok ()) →
      ∃ b₁, applyItem fs parseSetting source load (i + 1) b item = some (b₁, .ok ()) ∧
        parseLines fs parseSetting source load lines (item.next i) b₁ = some (b', .ok ()) := by
    intro i b item hi hitem h
    rw [parseLines, dif_pos hi] at h
    split at h
    · cases h
    rename_i hitem'
    cases hitem.symm.trans hitem'
    exact Loaded.andThen_ok h
  induction hnames generalizing b with
  | here hi hitem hfind hpath =>
    obtain ⟨b₁, happly, -⟩ := hstep hi hitem h
    simp only [applyItem, parseInclude, hfind] at happly
    exact includeAll_ok happly hpath
  | later hi hitem _ ih =>
    obtain ⟨b₁, -, hrest⟩ := hstep hi hitem h
    exact ih hrest

theorem parseResolvedConfigFile_ok {load : List Path → Path → Builder σ → Loaded σ}
    {canonical : Path} {text : Text} (htext : fs.readToString canonical = .ok text)
    (hstack : stack.Nodup)
    (h : parseResolvedConfigFile fs parseSetting load canonical text stack b = some (b', .ok ()))
    (hchain : IsChain (Includes fs) (canonical :: rest))
    (hload : ∀ {path next : Path} {rest : List Path} {b b' : Builder σ},
      (stack ++ [canonical]).Nodup → fs.canonicalize path = .ok next →
      load (stack ++ [canonical]) path b = some (b', .ok ()) →
      IsChain (Includes fs) (next :: rest) →
      (stack ++ [canonical] ++ next :: rest).Nodup) : (stack ++ canonical :: rest).Nodup := by
  rcases parseResolvedConfigFile_cases hstack with ⟨e, he⟩ | ⟨hnodup, heq⟩
  · cases he.symm.trans h
  · rw [heq] at h
    cases rest with
    | nil => exact hnodup
    | cons next rest =>
      obtain ⟨⟨text', path, htext', hnames, hnext⟩, hchain⟩ := isChain_cons_cons.mp hchain
      cases htext.symm.trans htext'
      obtain ⟨b₁, b₂, hloaded⟩ := parseLines_ok hnames h
      have hall := hload hnodup hnext hloaded hchain
      rwa [append_assoc] at hall

theorem parseConfigFile_ok {canonical : Path} (hstack : stack.Nodup)
    (hcanon : fs.canonicalize path = .ok canonical)
    (h : parseConfigFile fs parseSetting depth stack path b = some (b', .ok ()))
    (hchain : IsChain (Includes fs) (canonical :: rest)) : (stack ++ canonical :: rest).Nodup := by
  induction depth generalizing stack path canonical rest b b' with
  | zero => cases h
  | succ depth ih =>
    rw [parseConfigFile] at h
    simp only [hcanon] at h
    split at h
    · cases h
    rename_i htext
    exact parseResolvedConfigFile_ok htext hstack h hchain
      fun hnodup hnext hloaded hchain => ih hnodup hnext hloaded hchain

theorem loadBuilder_cases (fs : FileSystem)
    (parseSetting : σ → Text → List Text → ℕ → Except Error σ) (init : σ) (depth : ℕ)
    (path : Path) :
    (∃ b e, loadBuilder fs parseSetting init depth path = some (b, .error e) ∧ b.Acyclic) ∨
      ∃ canonical text b, fs.canonicalize path = .ok canonical ∧
        fs.readToString canonical = .ok text ∧ b.Acyclic ∧
        loadBuilder fs parseSetting init depth path = parseResolvedConfigFile fs parseSetting
          (parseConfigFile fs parseSetting depth) canonical text [] b := by
  have hstart : (Builder.start init).Acyclic := fun _ hs => absurd hs not_mem_nil
  unfold loadBuilder
  split
  · split <;> exact .inl ⟨_, _, rfl, hstart⟩
  · rename_i canonical hcanon
    simp only
    split
    · exact .inl ⟨_, _, rfl, hstart⟩
    · rename_i text hread
      exact .inr ⟨canonical, text, (Builder.start init).recordLoadedSourcePath path canonical, hcanon,
        hread, hstart, rfl⟩

/-- Calls as deep as there are files are enough. No include stack holds a file twice, and a chain
of includes that returns to one of its files is an error. -/
theorem loadBuilder_terminates (fs : FileSystem)
    (parseSetting : σ → Text → List Text → ℕ → Except Error σ) (init : σ) (path : Path)
    (more : ℕ) :
    ∃ b r, loadBuilder fs parseSetting init (fs.files.length + more) path = some (b, r) ∧
      (∀ stack ∈ b.pushed, stack.Nodup) ∧
      ∀ root rest, fs.canonicalize path = .ok root →
        IsChain (Includes fs) (root :: rest) → ¬(root :: rest).Nodup → ∃ e, r = .error e := by
  rcases loadBuilder_cases fs parseSetting init (fs.files.length + more) path with
    ⟨b, e, hload, hb⟩ | ⟨canonical, text, b, hcanon, htext, hb, hload⟩
  · exact ⟨b, .error e, hload, hb, fun _ _ _ _ _ => ⟨e, rfl⟩⟩
  · obtain ⟨b', r, hsome, hb'⟩ : Loaded.Settled (parseResolvedConfigFile fs parseSetting
        (parseConfigFile fs parseSetting (fs.files.length + more)) canonical text [] b) := by
      refine parseResolvedConfigFile_settled hb (fs.canonical_mem hcanon) (nil_subset _)
        nodup_nil ?_
      intro hnodup hsub p b hb
      refine parseConfigFile_settled p hb ?_ hsub hnodup
      rw [nil_append, length_singleton]
      omega
    refine ⟨b', r, hload.trans hsome, hb', ?_⟩
    intro root rest hroot hchain htwice
    cases hcanon.symm.trans hroot
    cases r with
    | error e => exact ⟨e, rfl⟩
    | ok u =>
      refine absurd ?_ htwice
      exact parseResolvedConfigFile_ok htext nodup_nil hsome hchain
        fun hnodup hnext hloaded hchain => parseConfigFile_ok hnodup hnext hloaded hchain

end Alighieri.Config
