import Alighieri.Auth
import Alighieri.Net.Lines
import Alighieri.Lib.LineStore

/-!
# The userlist (auth.rs:96-183, 563-692; main.rs:1738-1799)

One entry on a line: a user name and a password in the clear, or, as a comment, a user name in
hexadecimal digits and an Argon2 hash. `UserDb.parse` and `UserDb.entryUsername` read lines in
two different ways; the edits of `user add` and `user delete` go by the second.
-/

namespace Alighieri.Auth
open Net Socks5 List LineStore

variable {c : Char} {entry : Option (Text × StoredCredential)} {users : Users} {hash : Text}
  {ls : List Text}

/-! ### Libraries -/

/- What `PasswordHash::new` finds in a PHC string, as far as it is looked at. -/
structure PasswordHash where
  algorithm : String
  hash : Option Bytes
  deriving DecidableEq, Repr

/- The PHC reader, the Argon2 hash of a password with a salt, and the text of a UTF-8 error. -/
structure HashLib where
  passwordHash : Text → Except String PasswordHash
  hashPassword : Bytes → Text → Except String Text
  utf8Error : Bytes → String

/-! ### Names and passwords -/

def rfc1929FieldMaxBytes : ℕ := 255

def validateUsername (username : Text) : Except Error Unit :=
  if trim username = [] then .error (.config "username must not be empty")
  else if username ≠ trim username then
    .error (.config "username must not contain leading or trailing whitespace")
  else if ':' ∈ username ∨ '\n' ∈ username ∨ '\r' ∈ username ∨ '\x00' ∈ username then
    .error (.config "username must not contain ':', CR, LF, or NUL")
  else if rfc1929FieldMaxBytes < utf8Len username then
    .error (.config
      "username must not exceed 255 bytes for SOCKS5 username/password authentication")
  else .ok ()

def validatePassword (password : Text) : Except Error Unit :=
  if rfc1929FieldMaxBytes < utf8Len password then
    .error (.config
      "password must not exceed 255 bytes for SOCKS5 username/password authentication")
  else .ok ()

def hexEncode (bytes : Bytes) : Text :=
  bytes.flatMap fun byte : UInt8 =>
    [hexDigit (byte >>> 4).toNat, hexDigit (byte &&& 0x0f).toNat]

def hexValue (byte : UInt8) : Except String UInt8 :=
  if 48 ≤ byte ∧ byte ≤ 57 then .ok (byte - 48)
  else if 97 ≤ byte ∧ byte ≤ 102 then .ok (byte - 97 + 10)
  else if 65 ≤ byte ∧ byte ≤ 70 then .ok (byte - 65 + 10)
  else .error "encoded username contains a non-hex digit"

def hexPairs : Bytes → Except String Bytes
  | high :: low :: rest => do
    let high ← hexValue high
    let low ← hexValue low
    let bytes ← hexPairs rest
    return (high <<< 4 ||| low) :: bytes
  | _ => .ok []

def hexDecodeUtf8 (lib : HashLib) (encoded : Text) : Except String Text :=
  if utf8Len encoded % 2 ≠ 0 then
    .error "encoded username must have an even number of hex digits"
  else
    match hexPairs (asBytes encoded) with
    | .error e => .error e
    | .ok bytes =>
      match fromUtf8 bytes with
      | some username => .ok username
      | none => .error (lib.utf8Error bytes)

/-! ### Reading -/

def argon2DirectivePrefix : Text := "# alighieri:user:argon2:".toList

def parseArgon2DirectiveParts (lib : HashLib) (trimmed : Text) :
    Except String (Option (Text × Text)) :=
  match stripStart argon2DirectivePrefix trimmed with
  | none => .ok none
  | some rest =>
    match splitOnce ':' rest with
    | none => .error "expected encoded username and PHC hash"
    | some (encodedUser, phc) =>
      match hexDecodeUtf8 lib encodedUser with
      | .error e => .error e
      | .ok username =>
        match validateUsername username with
        | .error e => .error e.display
        | .ok () => .ok (some (username, phc))

def StoredCredential.parseArgon2 (lib : HashLib) (phc : Text) : Except String StoredCredential :=
  match lib.passwordHash phc with
  | .error e => .error e
  | .ok parsed =>
    if parsed.algorithm ≠ "argon2id" then .error "expected argon2id PHC hash"
    else if parsed.hash = none then .error "missing hash output"
    else .ok (.argon2 phc)

def parseArgon2Directive (lib : HashLib) (trimmed : Text) :
    Except String (Option (Text × StoredCredential)) :=
  match parseArgon2DirectiveParts lib trimmed with
  | .error e => .error e
  | .ok none => .ok none
  | .ok (some (username, phc)) =>
    match StoredCredential.parseArgon2 lib phc with
    | .error e => .error e
    | .ok credential => .ok (some (username, credential))

def parseArgon2DirectiveUsername (lib : HashLib) (trimmed : Text) : Except String (Option Text) :=
  match parseArgon2DirectiveParts lib trimmed with
  | .error e => .error e
  | .ok parts => .ok (parts.map Prod.fst)

namespace UserDb

def parseEntry (lib : HashLib) (line : Text) : Except String (Option (Text × StoredCredential)) :=
  match parseArgon2Directive lib (trim line) with
  | .error e => .error ("invalid Argon2 entry: " ++ e)
  | .ok (some entry) => .ok (some entry)
  | .ok none =>
    if trim line = [] ∨ (trim line).head? = some '#' then .ok none
    else
      match splitOnce ':' (trim line) with
      | none => .error "expected 'username:password'"
      | some (user, pass) =>
        if trim user = [] then .error "empty username"
        else .ok (some (trim user, .plain pass))

/- The loop of `parse`; the warnings about overridden entries are left out. -/
def parseLines (lib : HashLib) : ℕ → Users → List Text → Except Error Users
  | _, users, [] => .ok users
  | lineno, users, line :: rest =>
    match parseEntry lib line with
    | .error e => .error (.config ("userlist line " ++ toString lineno ++ ": " ++ e))
    | .ok none => parseLines lib (lineno + 1) users rest
    | .ok (some (user, credential)) =>
      parseLines lib (lineno + 1) (users.insert user credential) rest

def parse (lib : HashLib) (text : Text) : Except Error Users := parseLines lib 1 ∅ (lines text)

/- `salt` is what the random generator of the system gave. -/
def hashUserLine (lib : HashLib) (salt username password : Text) : Except Error Text :=
  match validateUsername username with
  | .error e => .error e
  | .ok () =>
    match validatePassword password with
    | .error e => .error e
    | .ok () =>
      match lib.hashPassword (asBytes password) salt with
      | .error e => .error (.config ("failed to hash password: " ++ e))
      | .ok hash =>
        .ok (argon2DirectivePrefix ++ hexEncode (asBytes username) ++ ':' :: hash)

def entryUsername (lib : HashLib) (line : Text) : Option Text :=
  match parseArgon2DirectiveUsername lib (trim line) with
  | .ok (some user) => some user
  | _ =>
    if trim line = [] ∨ (trim line).head? = some '#' then none
    else ((splitOnce ':' (trim line)).map fun parts => trim parts.1).filter (· ≠ [])

end UserDb

open UserDb

/-! ### The edits -/

inductive UpsertOutcome where
  | created | updated
  deriving DecidableEq, Repr

/- One line of the loop of `upsert_userlist_entry`, with the lines so far and whether one of
them has been replaced. -/
def upsertLine (lib : HashLib) (username line : Text) (acc : List Text × Bool)
    (existingLine : Text) : List Text × Bool :=
  if entryUsername lib existingLine = some username then (acc.1 ++ [line], true)
  else (acc.1 ++ [existingLine], acc.2)

def upsertOutput (lib : HashLib) (existing username line : Text) : Text × UpsertOutcome :=
  let (edited, replaced) := (lines existing).foldl (upsertLine lib username line) ([], false)
  let edited := if replaced then edited else edited ++ [line]
  (['\n'].intercalate edited ++ ['\n'], if replaced then .updated else .created)

def deleteLine (lib : HashLib) (username : Text) (acc : List Text × Bool) (existingLine : Text) :
    List Text × Bool :=
  if entryUsername lib existingLine = some username then (acc.1, true)
  else (acc.1 ++ [existingLine], acc.2)

def deleteOutput (lib : HashLib) (existing username : Text) : Option Text :=
  let (edited, removed) := (lines existing).foldl (deleteLine lib username) ([], false)
  if removed then
    let output := ['\n'].intercalate edited
    some (if output = [] then output else output ++ ['\n'])
  else none

/-! ### User names in hexadecimal digits -/

theorem hexDigit_reads : ∀ d : Fin 16, (hexDigit d).toNat < 128 ∧ hexDigit d ≠ ':' ∧
    isWhitespace (hexDigit d) = false ∧
    hexValue (UInt8.ofNat (hexDigit d).toNat) = .ok (UInt8.ofNat d) := by
  decide

theorem byte_halves (byte : UInt8) : (byte >>> 4).toNat < 16 ∧ (byte &&& 0x0f).toNat < 16 ∧
    ((byte >>> 4) <<< 4 ||| (byte &&& 0x0f)) = byte := by
  have hlt := byte.toNat_lt
  have hhigh : (byte >>> 4).toNat = byte.toNat / 16 := by
    simp [UInt8.toNat_shiftRight, Nat.shiftRight_eq_div_pow]
  have hlow : (byte &&& 0x0f).toNat = byte.toNat % 16 := by
    rw [UInt8.toNat_and]
    exact Nat.and_two_pow_sub_one_eq_mod byte.toNat 4
  refine ⟨by omega, by omega, ?_⟩
  apply UInt8.toNat_inj.mp
  have hshift : ((byte >>> 4) <<< 4).toNat = (byte.toNat / 16) <<< 4 := by
    rw [UInt8.toNat_shiftLeft, hhigh, Nat.shiftLeft_eq, Nat.shiftLeft_eq]
    apply Nat.mod_eq_of_lt
    simp
    omega
  rw [UInt8.toNat_or, hshift, hlow, ← Nat.shiftLeft_add_eq_or_of_lt (by omega), Nat.shiftLeft_eq]
  omega

theorem mem_hexEncode {bytes : Bytes} (h : c ∈ hexEncode bytes) : ∃ d : Fin 16, c = hexDigit d := by
  obtain ⟨byte, -, hc⟩ := mem_flatMap.mp h
  have hbyte := byte_halves byte
  simp only [mem_cons, not_mem_nil, or_false] at hc
  rcases hc with rfl | rfl
  · exact ⟨⟨_, hbyte.1⟩, rfl⟩
  · exact ⟨⟨_, hbyte.2.1⟩, rfl⟩

theorem asBytes_hexEncode (bytes : Bytes) :
    asBytes (hexEncode bytes) = (hexEncode bytes).map fun c => UInt8.ofNat c.toNat := by
  apply asBytes_ascii
  intro c hc
  obtain ⟨d, rfl⟩ := mem_hexEncode hc
  exact (hexDigit_reads d).1

theorem hexPairs_hexEncode (bytes : Bytes) : hexPairs (asBytes (hexEncode bytes)) = .ok bytes := by
  rw [asBytes_hexEncode]
  induction bytes with
  | nil => rfl
  | cons byte bytes ih =>
    obtain ⟨hhigh, hlow, hjoin⟩ := byte_halves byte
    have hh := (hexDigit_reads ⟨_, hhigh⟩).2.2.2
    have hl := (hexDigit_reads ⟨_, hlow⟩).2.2.2
    simp only [UInt8.ofNat_toNat] at hh hl
    rw [hexEncode, flatMap_cons, map_append]
    simp only [map_cons, map_nil, cons_append, nil_append, hexPairs, hh, hl]
    rw [← hexEncode, ih]
    simp only [bind, Except.bind, pure, Except.pure, hjoin]

theorem utf8Len_hexEncode (bytes : Bytes) : utf8Len (hexEncode bytes) = 2 * bytes.length := by
  rw [← asBytes_length, asBytes_hexEncode, length_map]
  induction bytes with
  | nil => rfl
  | cons byte bytes ih =>
    rw [hexEncode, flatMap_cons, length_append, ← hexEncode, ih, length_cons]
    simp only [length_cons, length_nil]
    omega

theorem hexDecodeUtf8_hexEncode (lib : HashLib) (username : Text) :
    hexDecodeUtf8 lib (hexEncode (asBytes username)) = .ok username := by
  have heven : ¬ utf8Len (hexEncode (asBytes username)) % 2 ≠ 0 := by
    rw [utf8Len_hexEncode]
    omega
  rw [hexDecodeUtf8, if_neg heven, hexPairs_hexEncode]
  simp only [fromUtf8_asBytes]

theorem splitOnce_append {a : Text} (h : c ∉ a) (b : Text) :
    splitOnce c (a ++ c :: b) = some (a, b) := by
  induction a with
  | nil => rw [nil_append, splitOnce, if_pos rfl]
  | cons x a ih =>
    rw [mem_cons, not_or] at h
    rw [cons_append, splitOnce, if_neg fun hx => h.1 hx.symm, ih h.2]
    rfl

/-! ### The line of a user -/

def HashLib.Argon2id (lib : HashLib) (phc : Text) : Prop :=
  ∃ parsed, lib.passwordHash phc = .ok parsed ∧ parsed.algorithm = "argon2id" ∧
    parsed.hash ≠ none

theorem parseArgon2_of_argon2id {lib : HashLib} {phc : Text} (h : lib.Argon2id phc) :
    StoredCredential.parseArgon2 lib phc = .ok (.argon2 phc) := by
  obtain ⟨parsed, hparsed, halgorithm, hhash⟩ := h
  simp only [StoredCredential.parseArgon2, hparsed]
  rw [if_neg (not_not.mpr halgorithm), if_neg hhash]

def argon2Line (username hash : Text) : Text :=
  argon2DirectivePrefix ++ hexEncode (asBytes username) ++ ':' :: hash

theorem trim_argon2Line (hplain : ∀ c ∈ hash, isWhitespace c = false) (username : Text) :
    trim (argon2Line username hash) = argon2Line username hash := by
  obtain ⟨init, z, hz⟩ : ∃ init z, ':' :: hash = init ++ [z] := by
    exact ⟨_, _, (dropLast_append_getLast (cons_ne_nil ':' hash)).symm⟩
  have hlast : isWhitespace z = false := by
    have hmem : z ∈ ':' :: hash := by
      rw [hz]
      exact mem_append_right _ (mem_singleton_self z)
    rcases mem_cons.mp hmem with rfl | hmem
    · decide
    · exact hplain z hmem
  obtain ⟨rest, hrest⟩ : ∃ rest, argon2DirectivePrefix = '#' :: rest := by
    unfold argon2DirectivePrefix
    rw [String.toList_ofList]
    exact ⟨_, rfl⟩
  have hline : argon2Line username hash =
      '#' :: (rest ++ hexEncode (asBytes username) ++ init) ++ [z] := by
    simp only [argon2Line, hz, hrest, cons_append, append_assoc]
  rw [hline]
  exact trim_eq_self (by decide) hlast

theorem parseEntry_argon2Line {lib : HashLib} {username : Text}
    (husername : validateUsername username = .ok ()) (hhash : lib.Argon2id hash)
    (hplain : ∀ c ∈ hash, isWhitespace c = false) :
    parseEntry lib (argon2Line username hash) = .ok (some (username, .argon2 hash)) := by
  have hcolon : ':' ∉ hexEncode (asBytes username) := by
    intro hmem
    obtain ⟨d, hd⟩ := mem_hexEncode hmem
    exact (hexDigit_reads d).2.1 hd.symm
  have hstrip : stripStart argon2DirectivePrefix (argon2Line username hash) =
      some (hexEncode (asBytes username) ++ ':' :: hash) := by
    rw [stripStart_eq_some, argon2Line, append_assoc]
  have hparts : parseArgon2DirectiveParts lib (argon2Line username hash) =
      .ok (some (username, hash)) := by
    simp only [parseArgon2DirectiveParts, hstrip, splitOnce_append hcolon,
      hexDecodeUtf8_hexEncode, husername]
  have hdirective : parseArgon2Directive lib (argon2Line username hash) =
      .ok (some (username, .argon2 hash)) := by
    simp only [parseArgon2Directive, hparts, parseArgon2_of_argon2id hhash]
  rw [parseEntry, trim_argon2Line hplain, hdirective]

theorem newline_not_mem_argon2Line (hplain : ∀ c ∈ hash, isWhitespace c = false) (username : Text) :
    '\n' ∉ argon2Line username hash := by
  have hnl : isWhitespace '\n' = true := by decide
  have hdirective : '\n' ∉ argon2DirectivePrefix := by
    unfold argon2DirectivePrefix
    rw [String.toList_ofList]
    decide
  intro hmem
  rw [argon2Line, mem_append, mem_append, mem_cons] at hmem
  rcases hmem with (hmem | hmem) | hmem | hmem
  · exact hdirective hmem
  · obtain ⟨d, hd⟩ := mem_hexEncode hmem
    have hdigit := (hexDigit_reads d).2.2.1
    rw [← hd, hnl] at hdigit
    cases hdigit
  · cases hmem
  · rw [hplain _ hmem] at hnl
    cases hnl

/-! ### Two readings of a line -/

def entryOf (lib : HashLib) (line : Text) : Option (Text × StoredCredential) :=
  match parseEntry lib line with
  | .ok entry => entry
  | .error _ => none

def Accepted (lib : HashLib) (line : Text) : Prop :=
  parseEntry lib line = .ok (entryOf lib line)

theorem accepted_of_ok {lib : HashLib} {line : Text} (h : parseEntry lib line = .ok entry) :
    Accepted lib line ∧ entryOf lib line = entry := by
  have hentry : entryOf lib line = entry := by rw [entryOf, h]
  exact ⟨by rw [Accepted, hentry, h], hentry⟩

theorem parseArgon2Directive_ok {lib : HashLib} {trimmed : Text}
    (h : parseArgon2Directive lib trimmed = .ok entry) :
    parseArgon2DirectiveUsername lib trimmed = .ok (entry.map Prod.fst) := by
  unfold parseArgon2Directive at h
  unfold parseArgon2DirectiveUsername
  cases hparts : parseArgon2DirectiveParts lib trimmed with
  | error e =>
    rw [hparts] at h
    cases h
  | ok parts =>
    rw [hparts] at h
    cases parts with
    | none =>
      cases h
      rfl
    | some parts =>
      cases hcredential : StoredCredential.parseArgon2 lib parts.2 with
      | error e =>
        simp only [hcredential] at h
        cases h
      | ok =>
        simp only [hcredential] at h
        cases h
        rfl

/-- On every line that `parse` takes, `entry_username` names the user of the entry. -/
theorem entryUsername_of_accepted {lib : HashLib} {line : Text} (h : Accepted lib line) :
    entryUsername lib line = (entryOf lib line).map Prod.fst := by
  unfold Accepted parseEntry at h
  unfold entryUsername
  cases hdirective : parseArgon2Directive lib (trim line) with
  | error e =>
    rw [hdirective] at h
    cases h
  | ok entry =>
    rw [hdirective] at h
    rw [parseArgon2Directive_ok hdirective]
    cases entry with
    | some =>
      rw [← Except.ok.inj h]
      rfl
    | none =>
      simp only [Option.map_none] at h ⊢
      split at h
      · rename_i hblank
        rw [if_pos hblank, ← Except.ok.inj h]
        rfl
      · rename_i hblank
        rw [if_neg hblank]
        cases hsplit : splitOnce ':' (trim line) with
        | none =>
          rw [hsplit] at h
          cases h
        | some parts =>
          rw [hsplit] at h
          simp only at h
          split at h
          · cases h
          rename_i huser
          rw [← Except.ok.inj h]
          simp [huser]

/-! ### Whole texts -/

theorem parseLines_ok_iff {lib : HashLib} {lineno : ℕ} {users' : Users} :
    parseLines lib lineno users ls = .ok users' ↔
      (∀ l ∈ ls, Accepted lib l) ∧
        users' = (ls.filterMap (entryOf lib)).foldl (fun t e => t.insert e.1 e.2) users := by
  induction ls generalizing lineno users with
  | nil =>
    constructor
    · intro h
      cases h
      exact ⟨fun l hl => absurd hl not_mem_nil, rfl⟩
    · rintro ⟨-, rfl⟩
      rfl
  | cons l ls ih =>
    rw [parseLines, forall_mem_cons]
    cases hentry : parseEntry lib l with
    | error e =>
      constructor
      · intro h
        cases h
      · rintro ⟨⟨hl, -⟩, -⟩
        rw [Accepted, hentry] at hl
        cases hl
    | ok entry =>
      obtain ⟨haccepted, hof⟩ := accepted_of_ok hentry
      cases entry with
      | none =>
        simp only [filterMap_cons_none hof, haccepted, true_and]
        exact ih
      | some =>
        simp only [filterMap_cons_some hof, haccepted, true_and, foldl_cons]
        exact ih

/-- `parse` loads the entries of the lines if it takes each of them. -/
theorem parse_ok_iff {lib : HashLib} {text : Text} :
    parse lib text = .ok users ↔
      (∀ l ∈ lines text, Accepted lib l) ∧ users = load (entryOf lib) (lines text) :=
  parseLines_ok_iff

theorem parseEntry_chomp (lib : HashLib) (line : Text) :
    parseEntry lib (chomp line) = parseEntry lib line := by
  simp only [parseEntry, trim_chomp]

theorem entryOf_chomp (lib : HashLib) (line : Text) :
    entryOf lib (chomp line) = entryOf lib line := by
  simp only [entryOf, parseEntry_chomp]

theorem accepted_chomp {lib : HashLib} {line : Text} :
    Accepted lib (chomp line) ↔ Accepted lib line := by
  simp only [Accepted, parseEntry_chomp, entryOf_chomp]

theorem parse_terminate {lib : HashLib} (hnl : ∀ l ∈ ls, '\n' ∉ l)
    (haccepted : ∀ l ∈ ls, Accepted lib l) :
    parse lib (terminate '\n' ls) = .ok (load (entryOf lib) ls) := by
  rw [parse_ok_iff, lines_terminate hnl]
  constructor
  · intro l hl
    obtain ⟨m, hm, rfl⟩ := mem_map.mp hl
    exact accepted_chomp.mpr (haccepted m hm)
  · simp only [load, filterMap_map, Function.comp_def, entryOf_chomp]

/-! ### The edits, line by line -/

section

variable {lib : HashLib} {username : Text}

theorem isFor_iff_entryUsername (username : Text) {l : Text} (h : Accepted lib l) :
    entryUsername lib l = some username ↔
      isFor (entryOf lib) username l = true := by
  rw [entryUsername_of_accepted h, isFor_iff]

theorem foldl_upsertLine (line : Text) (h : ∀ l ∈ ls, Accepted lib l) (acc : List Text × Bool) :
    ls.foldl (upsertLine lib username line) acc =
      (acc.1 ++ ls.map fun l => if isFor (entryOf lib) username l then line else l,
        acc.2 || ls.any (isFor (entryOf lib) username)) := by
  induction ls generalizing acc with
  | nil => simp
  | cons l ls ih =>
    rw [foldl_cons, ih fun m hm => h m (mem_cons_of_mem _ hm), upsertLine]
    have hiff := isFor_iff_entryUsername username (h l (mem_cons_self))
    by_cases hl : isFor (entryOf lib) username l = true
    · rw [if_pos (hiff.mpr hl)]
      simp [hl]
    · rw [if_neg fun he => hl (hiff.mp he)]
      simp [hl]

theorem foldl_deleteLine (h : ∀ l ∈ ls, Accepted lib l) (acc : List Text × Bool) :
    ls.foldl (deleteLine lib username) acc =
      (acc.1 ++ remove (entryOf lib) username ls,
        acc.2 || ls.any (isFor (entryOf lib) username)) := by
  induction ls generalizing acc with
  | nil => simp [remove]
  | cons l ls ih =>
    rw [foldl_cons, ih fun m hm => h m (mem_cons_of_mem _ hm), deleteLine]
    have hiff := isFor_iff_entryUsername username (h l (mem_cons_self))
    by_cases hl : isFor (entryOf lib) username l = true
    · rw [if_pos (hiff.mpr hl)]
      simp [hl, remove]
    · rw [if_neg fun he => hl (hiff.mp he)]
      simp [hl, remove]

variable {text line : Text}

theorem upsertOutput_eq (h : ∀ l ∈ lines text, Accepted lib l) :
    (upsertOutput lib text username line).1 =
      terminate '\n' (upsert (entryOf lib) username line (lines text)) := by
  have hne : upsert (entryOf lib) username line (lines text) ≠ [] :=
    ne_nil_of_mem (mem_upsert (lines text))
  rw [← intercalate_concat hne, upsertOutput, foldl_upsertLine line h]
  rfl

theorem parse_upsertOutput (h : ∀ l ∈ lines text, Accepted lib l) (hline : Accepted lib line)
    (hnl : '\n' ∉ line) :
    parse lib (upsertOutput lib text username line).1 =
      .ok (load (entryOf lib)
        (upsert (entryOf lib) username line (lines text))) := by
  rw [upsertOutput_eq h]
  apply parse_terminate
  · intro l hl
    rcases upsert_cases hl with rfl | ⟨hmem, -⟩
    · exact hnl
    · exact newline_not_mem_lines hmem
  · intro l hl
    rcases upsert_cases hl with rfl | ⟨hmem, -⟩
    · exact hline
    · exact h l hmem

theorem accepted_blank (lib : HashLib) : Accepted lib [] ∧ entryOf lib [] = none := by
  apply accepted_of_ok
  have hstrip : stripStart argon2DirectivePrefix [] = none := by
    unfold argon2DirectivePrefix
    rw [String.toList_ofList]
    rfl
  have htrim : trim [] = [] := rfl
  simp only [parseEntry, parseArgon2Directive, parseArgon2DirectiveParts, htrim, hstrip,
    true_or, if_true]

theorem deleteOutput_none (h : ∀ l ∈ lines text, Accepted lib l)
    (hnone : deleteOutput lib text username = none) :
    remove (entryOf lib) username (lines text) = lines text := by
  rw [deleteOutput, foldl_deleteLine h] at hnone
  simp only [Bool.false_or] at hnone
  split at hnone
  · cases hnone
  rename_i hany
  apply filter_eq_self.mpr
  intro l hl
  rw [Bool.not_eq_true', Bool.eq_false_iff]
  exact fun hfor => hany (any_eq_true.mpr ⟨l, hl, hfor⟩)

theorem parse_deleteOutput (h : ∀ l ∈ lines text, Accepted lib l) {output : Text}
    (hsome : deleteOutput lib text username = some output) :
    parse lib output =
      .ok (load (entryOf lib)
        (remove (entryOf lib) username (lines text))) := by
  rw [deleteOutput, foldl_deleteLine h] at hsome
  simp only [Bool.false_or, nil_append] at hsome
  split at hsome
  · cases hsome
    split
    · -- the one line left, if any, is blank
      rename_i hempty
      rw [hempty]
      rcases intercalate_eq_nil hempty with hrest | hrest
      · rw [hrest]
        rfl
      · rw [hrest, load, filterMap_cons_none (accepted_blank lib).2]
        rfl
    · rename_i hne
      rw [intercalate_concat fun hrest => hne (by rw [hrest]; rfl)]
      apply parse_terminate
      · intro l hl
        exact newline_not_mem_lines (mem_of_mem_filter hl)
      · intro l hl
        exact h l (mem_of_mem_filter hl)
  · cases hsome

end

def deleteText (lib : HashLib) (text username : Text) : Text :=
  (deleteOutput lib text username).getD text

theorem parse_deleteText {lib : HashLib} {text username : Text}
    (h : ∀ l ∈ lines text, Accepted lib l) :
    parse lib (deleteText lib text username) =
      .ok (load (entryOf lib)
        (remove (entryOf lib) username (lines text))) := by
  unfold deleteText
  cases houtput : deleteOutput lib text username with
  | none =>
    rw [deleteOutput_none h houtput]
    exact parse_ok_iff.mpr ⟨h, rfl⟩
  | some => exact parse_deleteOutput h houtput

/-- `user add` gives the old database with exactly that entry written, and `user delete` the old
one without the user. -/
theorem userlist_edits_exact (lib : HashLib) (salt : Text) {text username password hash : Text}
    {users : Users} (hparse : parse lib text = .ok users)
    (husername : validateUsername username = .ok ())
    (hpassword : validatePassword password = .ok ())
    (hhash : lib.hashPassword (asBytes password) salt = .ok hash) (hphc : lib.Argon2id hash)
    (hplain : ∀ c ∈ hash, isWhitespace c = false) :
    ∃ line added remaining,
      hashUserLine lib salt username password = .ok line ∧
      parse lib (upsertOutput lib text username line).1 = .ok added ∧
      (∀ v, added.lookup v = (users.insert username (.argon2 hash)).lookup v) ∧
      parse lib (deleteText lib text username) = .ok remaining ∧
      (∀ v, remaining.lookup v = (users.erase username).lookup v) ∧
      ∀ v, v ≠ username → added.lookup v = users.lookup v ∧ remaining.lookup v = users.lookup v := by
  obtain ⟨haccepted, rfl⟩ := parse_ok_iff.mp hparse
  obtain ⟨hline, hentry⟩ := accepted_of_ok (parseEntry_argon2Line husername hphc hplain)
  have hfor : isFor (entryOf lib) username (argon2Line username hash) = true := by
    rw [isFor_iff, hentry]
    rfl
  have hhashLine : hashUserLine lib salt username password =
      .ok (argon2Line username hash) := by
    simp only [hashUserLine, husername, hpassword, hhash]
    rfl
  have hothers : ∀ v, v ≠ username →
      (load (entryOf lib) (upsert (entryOf lib) username
        (argon2Line username hash) (lines text))).lookup v =
          (load (entryOf lib) (lines text)).lookup v ∧
      (load (entryOf lib) (remove (entryOf lib) username
        (lines text))).lookup v = (load (entryOf lib) (lines text)).lookup v :=
    fun v hv => ⟨lookup_upsert_of_ne hfor hv _, lookup_remove_of_ne hv _⟩
  refine ⟨_, _, _, hhashLine,
    parse_upsertOutput haccepted hline (newline_not_mem_argon2Line hplain username), ?_,
    parse_deleteText haccepted, ?_, hothers⟩
  · intro v
    by_cases hv : v = username
    · rw [hv, AList.lookup_insert, lookup_upsert_self hentry]
    · rw [AList.lookup_insert_ne hv, (hothers v hv).1]
  · intro v
    by_cases hv : v = username
    · rw [hv, AList.lookup_erase, lookup_remove_self]
    · rw [AList.lookup_erase_ne hv, (hothers v hv).2]

def dollarLib : HashLib where
  passwordHash phc := if phc.head? = some '$' then .ok ⟨"argon2id", some [0]⟩ else .error "phc"
  hashPassword _ salt := .ok ('$' :: salt)
  utf8Error _ := "utf-8"

def mixedText : Text := "# staff\r\nann:old\r\nbob:pw\nann:new".toList

theorem userlist_edits_exact_mixed :
    ∃ users line added remaining, parse dollarLib mixedText = .ok users ∧
      hashUserLine dollarLib "s".toList "ann".toList "x".toList = .ok line ∧
      parse dollarLib (upsertOutput dollarLib mixedText "ann".toList line).1 = .ok added ∧
      added.lookup "ann".toList = some (.argon2 "$s".toList) ∧
      parse dollarLib (deleteText dollarLib mixedText "ann".toList) = .ok remaining ∧
      remaining.lookup "ann".toList = none ∧
      remaining.lookup "bob".toList = some (.plain "pw".toList) := by
  obtain ⟨users, hparse, hbob⟩ : ∃ users, parse dollarLib mixedText = .ok users ∧
      users.lookup "bob".toList = some (.plain "pw".toList) := ⟨_, rfl, rfl⟩
  have hname : validateUsername "ann".toList = .ok () := by decide
  have hpassword : validatePassword "x".toList = .ok () := by decide
  obtain ⟨line, added, remaining, hline, hadded, hann, hremaining, hgone, hothers⟩ :=
    userlist_edits_exact dollarLib "s".toList hparse hname hpassword rfl
      ⟨_, rfl, rfl, by decide⟩ (forall_of_all (by decide))
  refine ⟨users, line, added, remaining, hparse, hline, hadded, ?_, hremaining, ?_, ?_⟩
  · rw [hann]
    exact AList.lookup_insert users
  · rw [hgone]
    exact AList.lookup_erase _ users
  · rw [(hothers _ (by decide)).2, hbob]

end Alighieri.Auth
