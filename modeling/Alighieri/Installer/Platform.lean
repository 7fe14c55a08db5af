import Alighieri.Installer.Request
import Alighieri.Lib.Reader

/-!
# What the platform layer does with a request (platform/linux.rs:10-274)

Unit files are named to the platform layer as typed entries, which it prints into leaf
names under pinned directories; binaries are named by their leaves. It checks every
request again before it touches anything.
-/

namespace Alighieri.Installer
open Net Socks5 List Option Except

variable {managed : ManagedPath} {name value : Text} {pid : ℕ} {operation : Operation}
  {args : List Bytes} {request : Request}

namespace Linux

def systemdDirectory : Text := "/etc/systemd/system".toList
def migrationLeaf : Text := "alighieri.service.migration".toList

inductive Operation where
  | hardLink
  | exchange
  | renameNoReplace
  deriving DecidableEq, Repr

inductive MigrationEntry where
  | candidate
  | candidateWitness
  | linkProbe
  | previous
  | previousStaged
  | rollbackDisplaced
  deriving DecidableEq, Repr

inductive Entry where
  | live
  | staged (pid : ℕ)
  | witness (pid : ℕ)
  | rejected (pid : ℕ)
  | retained
  | migration (entry : MigrationEntry)
  deriving DecidableEq, Repr

def MigrationEntry.leaf : MigrationEntry → Text
  | .candidate => "candidate".toList
  | .candidateWitness => "candidate.witness".toList
  | .linkProbe => "link.probe".toList
  | .previous => "previous".toList
  | .previousStaged => "previous.staged".toList
  | .rollbackDisplaced => "rollback.displaced".toList

namespace Entry

def leaf : Entry → Text
  | .live => unitName
  | .staged pid => unitName ++ ".new.".toList ++ fmtNat pid
  | .witness pid => unitName ++ ".new.".toList ++ fmtNat pid ++ ".candidate".toList
  | .rejected pid => unitName ++ ".rejected.".toList ++ fmtNat pid
  | .retained => unitName ++ ".pre-migration".toList
  | .migration entry => entry.leaf

def isMigration : Entry → Bool
  | .migration _ => true
  | _ => false

def directory (entry : Entry) : Text :=
  if entry.isMigration then systemdDirectory ++ ['/'] ++ migrationLeaf else systemdDirectory

def path (entry : Entry) : Text := entry.directory ++ ['/'] ++ entry.leaf

end Entry

def operationIsAllowed : Operation → Entry → Entry → Bool
  | .hardLink, .staged source, .witness destination => source == destination
  | .hardLink, .migration .candidate, .migration .candidateWitness => true
  | .hardLink, .migration .candidate, .migration .linkProbe => true
  | .hardLink, .migration .candidate, .retained => true
  | .hardLink, .migration .previous, .live => true
  | .hardLink, .migration .rollbackDisplaced, .live => true
  | .renameNoReplace, .staged _, .migration .candidate => true
  | .renameNoReplace, .staged _, .live => true
  | .renameNoReplace, .live, .rejected _ => true
  | .renameNoReplace, .rejected _, .live => true
  | .renameNoReplace, .migration .previousStaged, .migration .previous => true
  | .renameNoReplace, .live, .migration .rollbackDisplaced => true
  | .renameNoReplace, .migration .rollbackDisplaced, .live => true
  | .exchange, .staged _, .live => true
  | .exchange, .live, .staged _ => true
  | .exchange, .migration .candidate, .live => true
  | .exchange, .live, .migration .candidate => true
  | _, _, _ => false

def performCheck (operation : Operation) (source destination : Entry) : Except String Unit :=
  if source = destination ∨ operationIsAllowed operation source destination = false then
    .error "operation is not permitted for these managed entries"
  else .ok ()

def stagedMarker : Bytes := asBytes ".new.".toList
def witnessEnd : Bytes := asBytes ".commit-witness".toList

def isAsciiDigit (b : UInt8) : Bool := 48 ≤ b && b ≤ 57

def pidIsValid (pid : Bytes) : Bool :=
  pid != [] && pid.head? != some 48 && pid.all isAsciiDigit &&
    ((fromUtf8 pid).bind parseU32).any (0 < ·)

def validateBinaryWitnessLeaves (source witness : Bytes) : Except String Unit :=
  match lastWindow stagedMarker source with
  | none => .error "binary witness source must end in .new.<pid>"
  | some marker =>
    let binary := source.take marker
    let pid := source.drop (marker + stagedMarker.length)
    if binary = [] ∨ pidIsValid pid = false then
      .error "binary witness source must end in .new.<positive-pid>"
    else if stripStart source witness ≠ some witnessEnd then
      .error "binary witness destination must be SOURCE.commit-witness"
    else .ok ()

end Linux

open Linux

def MigrationPath.entry : MigrationPath → MigrationEntry
  | .candidate => .candidate
  | .candidateWitness => .candidateWitness
  | .linkProbe => .linkProbe
  | .previous => .previous
  | .previousStaged => .previousStaged
  | .rollbackDisplaced => .rollbackDisplaced

/- The conversion at the end of `execute`'s `entry`. -/
def ManagedPath.entry : ManagedPath → Entry
  | .live => .live
  | .staged pid => .staged pid
  | .witness pid => .witness pid
  | .rejected pid => .rejected pid
  | .retained => .retained
  | .migration path => .migration path.entry

def Operation.linux : Operation → Option Linux.Operation
  | .hardLink => some .hardLink
  | .exchange => some .exchange
  | .renameNoReplace => some .renameNoReplace
  | .binaryHardLink => none

/- `execute` up to the point where the platform layer begins to act. -/
def executeCheck (request : Request) : Except String Unit :=
  match request.operation.linux with
  | none =>
    match request.parent with
    | none => .error "binary hard-link request has no physical parent"
    | some _ => validateBinaryWitnessLeaves request.source request.destination
  | some operation => do
    let source ← classifyUnitFilePath request.source
    let destination ← classifyUnitFilePath request.destination
    performCheck operation source.entry destination.entry

/-! ### Unit files -/

/- The entry's path is spelled as `text`, exactly when that has no `+`. -/
def Spells (managed : ManagedPath) (text : Text) : Prop :=
  managed.entry.path = text ↔ '+' ∉ text

theorem spells_fixed {text : Text} (h : managed.entry.path = text ∧ '+' ∉ text) :
    Spells managed text :=
  iff_of_true h.1 h.2

theorem unitDirectory_eq : unitDirectory = systemdDirectory ++ ['/'] := by
  unfold unitDirectory systemdDirectory
  repeat rw [String.toList_ofList]
  rfl

theorem migrationDirectory_eq :
    migrationDirectory = systemdDirectory ++ ['/'] ++ migrationLeaf ++ ['/'] := by
  unfold migrationDirectory systemdDirectory migrationLeaf
  repeat rw [String.toList_ofList]
  rfl

theorem unitDirectory_plain : '+' ∉ unitDirectory := by
  unfold unitDirectory
  rw [String.toList_ofList]
  decide

theorem migrationDirectory_plain : '+' ∉ migrationDirectory := by
  unfold migrationDirectory
  rw [String.toList_ofList]
  decide

theorem MigrationEntry.leaf_plain (entry : MigrationEntry) : '+' ∉ entry.leaf := by
  cases entry <;> unfold MigrationEntry.leaf <;> rw [String.toList_ofList] <;> decide

theorem migration_spells (path : MigrationPath) :
    Spells (.migration path) (migrationDirectory ++ path.entry.leaf) := by
  refine spells_fixed ⟨?_, ?_⟩
  · rw [migrationDirectory_eq]
    rfl
  · rw [mem_append, not_or]
    exact ⟨migrationDirectory_plain, MigrationEntry.leaf_plain _⟩

theorem classifyMigration_spells (h : classifyMigration name = .ok managed) :
    Spells managed (migrationDirectory ++ name) := by
  unfold classifyMigration at h
  split at h
  · cases h
  split at h
  all_goals first
    | cases h
      done
    | rename_i hname
      cases h
      have hname' := congrArg String.toList hname
      rw [String.toList_ofList] at hname'
      subst hname'
      exact migration_spells _

theorem mem_append_plus {s t : Text} (hs : '+' ∉ s) : '+' ∉ s ++ t ↔ '+' ∉ t := by
  simp only [mem_append, hs, false_or]

theorem spells_pid (managed : ManagedPath) (before after : Text)
    (hpath : managed.entry.path = before ++ (fmtNat pid ++ after))
    (hpid : parsePid value = some pid) (hbefore : '+' ∉ before) (hafter : '+' ∉ after) :
    Spells managed (before ++ (value ++ after)) := by
  unfold Spells
  rw [hpath, append_cancel_left_eq, append_cancel_right_eq, parsePid_plain hpid,
    mem_append_plus hbefore]
  simp only [mem_append, hafter, or_false]

theorem spells_pid_end (managed : ManagedPath) (before : Text)
    (hpath : managed.entry.path = before ++ fmtNat pid) (hpid : parsePid value = some pid)
    (hbefore : '+' ∉ before) : Spells managed (before ++ value) := by
  have h := spells_pid managed before [] (by rwa [append_nil]) hpid hbefore not_mem_nil
  rwa [append_nil] at h

def newStart : Text := unitDirectory ++ "alighieri.service.".toList ++ "new.".toList
def rejectedStart : Text := unitDirectory ++ "alighieri.service.".toList ++ "rejected.".toList

theorem artifactStart_eq (kind : Text) :
    unitDirectory ++ "alighieri.service.".toList ++ kind =
      systemdDirectory ++ ['/'] ++ unitName ++ '.' :: kind := by
  unfold unitName
  rw [unitDirectory_eq]
  repeat rw [String.toList_ofList]
  simp only [append_assoc]
  rfl

theorem artifactStart_plain {kind : Text} (h : '+' ∉ kind) :
    '+' ∉ unitDirectory ++ "alighieri.service.".toList ++ kind := by
  rw [mem_append, not_or]
  refine ⟨?_, h⟩
  unfold unitDirectory
  repeat rw [String.toList_ofList]
  decide

theorem Entry.staged_path (pid : ℕ) : (Entry.staged pid).path = newStart ++ fmtNat pid := by
  rw [newStart, artifactStart_eq]
  simp only [Entry.path, Entry.directory, Entry.isMigration, Bool.false_eq_true, if_false,
    Entry.leaf, append_assoc]
  rfl

theorem Entry.witness_path (pid : ℕ) :
    (Entry.witness pid).path = newStart ++ (fmtNat pid ++ ".candidate".toList) := by
  rw [newStart, artifactStart_eq]
  simp only [Entry.path, Entry.directory, Entry.isMigration, Bool.false_eq_true, if_false,
    Entry.leaf, append_assoc]
  rfl

theorem Entry.rejected_path (pid : ℕ) : (Entry.rejected pid).path = rejectedStart ++ fmtNat pid := by
  rw [rejectedStart, artifactStart_eq]
  simp only [Entry.path, Entry.directory, Entry.isMigration, Bool.false_eq_true, if_false,
    Entry.leaf, append_assoc]
  rfl

theorem classifyNew_spells {tail : Text} (h : classifyNew tail = some managed) :
    Spells managed (newStart ++ tail) := by
  unfold classifyNew at h
  split at h
  · rename_i pid hpid
    cases h
    obtain ⟨value, hvalue, hpid⟩ := bind_eq_some_iff.mp hpid
    rw [stripEnd_eq_some.mp hvalue]
    exact spells_pid (.witness pid) newStart _ (Entry.witness_path pid) hpid (artifactStart_plain (by decide))
      (by rw [String.toList_ofList]; decide)
  · obtain ⟨pid, hpid, rfl⟩ := map_eq_some_iff.mp h
    exact spells_pid_end (.staged pid) newStart (Entry.staged_path pid) hpid (artifactStart_plain (by decide))

theorem classifyArtifact_spells {suffix : Text} (h : classifyArtifact suffix = some managed) :
    Spells managed (unitDirectory ++ ("alighieri.service.".toList ++ suffix)) := by
  unfold classifyArtifact at h
  split at h
  · rename_i hnew
    cases h
    obtain ⟨tail, htail, hnew⟩ := bind_eq_some_iff.mp hnew
    have hspells := classifyNew_spells hnew
    rw [newStart, append_assoc, append_assoc] at hspells
    rwa [stripStart_eq_some.mp htail]
  · obtain ⟨pid, hpid, rfl⟩ := map_eq_some_iff.mp h
    obtain ⟨value, hvalue, hpid⟩ := bind_eq_some_iff.mp hpid
    have hspells := spells_pid_end (.rejected pid) rejectedStart (Entry.rejected_path pid) hpid
      (artifactStart_plain (by decide))
    rw [rejectedStart, append_assoc, append_assoc] at hspells
    rwa [stripStart_eq_some.mp hvalue]

theorem live_spells : Spells .live (unitDirectory ++ unitName) := by
  refine spells_fixed ⟨?_, ?_⟩
  · rw [unitDirectory_eq]
    rfl
  · rw [mem_append, not_or]
    refine ⟨unitDirectory_plain, ?_⟩
    unfold unitName
    rw [String.toList_ofList]
    decide

theorem retained_spells :
    Spells .retained (unitDirectory ++ "alighieri.service.pre-migration".toList) := by
  refine spells_fixed ⟨?_, ?_⟩
  · have hname : "alighieri.service.pre-migration".toList = unitName ++ ".pre-migration".toList := by
      unfold unitName
      repeat rw [String.toList_ofList]
      rfl
    rw [unitDirectory_eq, hname]
    rfl
  · rw [mem_append, not_or]
    refine ⟨unitDirectory_plain, ?_⟩
    rw [String.toList_ofList]
    decide

theorem classifyUnit_spells (h : classifyUnit name = .ok managed) :
    Spells managed (unitDirectory ++ name) := by
  unfold classifyUnit at h
  split at h
  · cases h
  split at h
  · rename_i hname
    cases h
    rw [hname]
    exact live_spells
  · split at h
    · rename_i hname
      cases h
      rw [hname]
      exact retained_spells
    · split at h
      · cases h
      rename_i hsuffix
      split at h
      · rename_i hmanaged
        cases h
        rw [stripStart_eq_some.mp hsuffix]
        exact classifyArtifact_spells hmanaged
      · cases h

theorem classifyUnitFilePath_spells {path : Bytes} (h : classifyUnitFilePath path = .ok managed) :
    ∃ text, fromUtf8 path = some text ∧ Spells managed text := by
  unfold classifyUnitFilePath at h
  split at h
  · cases h
  rename_i text htext
  refine ⟨text, htext, ?_⟩
  split at h
  · rename_i hname
    rw [stripStart_eq_some.mp hname]
    exact classifyMigration_spells h
  · split at h
    · cases h
    rename_i hname
    rw [stripStart_eq_some.mp hname]
    exact classifyUnit_spells h

/-! ### Unit requests -/

theorem operationIsAllowed_entry {linux : Linux.Operation} (hop : operation.linux = some linux)
    (source destination : ManagedPath) :
    operationIsAllowed linux source.entry destination.entry =
      operationAllowed operation source destination := by
  cases operation <;> cases hop <;>
    rcases source with - | - | - | - | - | source <;> try cases source
  all_goals rcases destination with - | - | - | - | - | destination <;> try cases destination
  all_goals rfl

theorem entries_distinct {linux : Linux.Operation} {source destination : Entry}
    (h : operationIsAllowed linux source destination = true) : source ≠ destination := by
  rintro rfl
  rcases source with _ | _ | _ | _ | _ | source <;> try cases source
  all_goals cases linux <;> cases h

theorem parseUnitRequest_ok (h : parseUnitRequest operation args = .ok request) :
    request.operation = operation ∧ ∃ source destination,
      classifyUnitFilePath request.source = .ok source ∧
      classifyUnitFilePath request.destination = .ok destination ∧
      operationAllowed operation source destination = true := by
  unfold parseUnitRequest at h
  split at h
  · obtain ⟨source, hsource, h⟩ := of_bind_ok h
    obtain ⟨destination, hdestination, h⟩ := of_bind_ok h
    split at h
    · cases h
    obtain ⟨u, hallowed, h⟩ := of_bind_ok h
    cases h
    refine ⟨rfl, source, destination, hsource, hdestination, ?_⟩
    unfold validateOperationPaths at hallowed
    split at hallowed
    · assumption
    · cases hallowed
  · cases h

theorem executeCheck_unit (hop : operation ≠ .binaryHardLink)
    (h : parseUnitRequest operation args = .ok request) : executeCheck request = .ok () := by
  obtain ⟨hoperation, source, destination, hsource, hdestination, hallowed⟩ :=
    parseUnitRequest_ok h
  obtain ⟨linux, hlinux⟩ : ∃ linux, operation.linux = some linux := by
    cases operation with
    | binaryHardLink => exact absurd rfl hop
    | _ => exact ⟨_, rfl⟩
  rw [← operationIsAllowed_entry hlinux] at hallowed
  rw [executeCheck, hoperation, hlinux]
  refine (bind_of_ok hsource).trans ((bind_of_ok hdestination).trans ?_)
  rw [performCheck, if_neg]
  rintro (hsame | hdenied)
  · exact entries_distinct hallowed hsame
  · rw [hallowed] at hdenied
    cases hdenied

/-! ### Binary requests -/

theorem parsePid_chars (h : parsePid value = some pid) : ∀ c ∈ value, c.isDigit ∨ c = '+' := by
  rcases parsePid_some h with ⟨hds, -, -⟩ | ⟨ds, rfl, hds⟩
  · exact fun c hc => .inl (hds.2 c hc)
  · intro c hc
    rcases mem_cons.mp hc with rfl | hc
    · exact .inr rfl
    · exact .inl (hds.2 c hc)

theorem digit_ascii {c : Char} (h : c.isDigit ∨ c = '+') : c.toNat < 128 := by
  rcases h with h | rfl
  · have hrange := Decimal.digit_toNat h
    omega
  · decide

theorem lastWindow_marker (h : parsePid value = some pid) (binary : Bytes) :
    lastWindow stagedMarker (binary ++ stagedMarker ++ asBytes value) = some binary.length := by
  have hbytes := asBytes_ascii fun c hc => digit_ascii (parsePid_chars h c hc)
  have hdot : (46 : UInt8) ∉ asBytes value := by
    rw [hbytes]
    intro hmem
    obtain ⟨c, hc, heq⟩ := mem_map.mp hmem
    rcases parsePid_chars h c hc with hdigit | rfl
    · have hrange := Decimal.digit_toNat hdigit
      have htoNat := congrArg UInt8.toNat heq
      rw [UInt8.toNat_ofNat'] at htoNat
      have h46 : (46 : UInt8).toNat = 46 := rfl
      omega
    · cases heq
  have hnone : lastWindow stagedMarker ([110, 101, 119, 46] ++ asBytes value) = none := by
    have htail : lastWindow stagedMarker (asBytes value) = none := lastWindow_none hdot
    have hdotted : stagedMarker.isPrefixOf (46 :: asBytes value) = false := by
      rw [Bool.eq_false_iff, ne_eq, isPrefixOf_iff_prefix]
      intro hp
      have hrest := (cons_prefix_cons.mp hp).2
      exact hdot (hrest.subset (by decide))
    simp only [cons_append, nil_append, lastWindow, htail, hdotted]
    rfl
  exact lastWindow_append binary hnone

theorem parseBinaryHardLinkRequest_ok (h : parseBinaryHardLinkRequest args = .ok request) :
    request.operation = .binaryHardLink ∧ request.parent.isSome ∧
      ∃ (binary pid : Text) (n : ℕ), binary ≠ [] ∧ parsePid pid = some n ∧
        rsplitOnce ".new.".toList (binary ++ ".new.".toList ++ pid) = some (binary, pid) ∧
        fromUtf8 request.source = some (binary ++ ".new.".toList ++ pid) ∧
        fromUtf8 request.destination =
          some (binary ++ ".new.".toList ++ pid ++ ".commit-witness".toList) := by
  unfold parseBinaryHardLinkRequest at h
  split at h
  · obtain ⟨u, hparent, h⟩ := of_bind_ok h
    split at h
    · cases h
    · cases h
    rename_i hsource hdestination
    split at h
    · cases h
    split at h
    · cases h
    rename_i binary pid hsplit
    split at h
    · cases h
    rename_i hpid
    split at h
    · cases h
    rename_i hwitness
    cases h
    rw [not_or] at hpid
    obtain ⟨n, hn⟩ := ne_none_iff_exists'.mp hpid.2
    rw [ne_eq, Decidable.not_not] at hwitness
    have hname := rsplitOnce_some hsplit
    rw [hwitness] at hdestination
    rw [hname] at hsource hdestination hsplit
    exact ⟨rfl, rfl, binary, pid, n, hpid.1, hn, hsplit, hsource, hdestination⟩
  · cases h

theorem isAsciiDigit_of_digit {c : Char} (h : c.isDigit) :
    isAsciiDigit (UInt8.ofNat c.toNat) = true := by
  obtain ⟨hlow, hhigh⟩ := Decimal.digit_toNat h
  have hbyte : (UInt8.ofNat c.toNat).toNat = c.toNat := by
    rw [UInt8.toNat_ofNat']
    omega
  simp only [isAsciiDigit, Bool.and_eq_true, decide_eq_true_eq, UInt8.le_iff_toNat_le, hbyte]
  exact ⟨hlow, hhigh⟩

theorem pidIsValid_iff (h : parsePid value = some pid) :
    pidIsValid (asBytes value) = true ↔ value.head? ≠ some '+' := by
  have hbytes := asBytes_ascii fun c hc => digit_ascii (parsePid_chars h c hc)
  rcases parsePid_some h with ⟨hds, hlead, -⟩ | ⟨ds, rfl, hds⟩
  · refine iff_of_true ?_ ?_
    · obtain ⟨hparse, hkeep⟩ := filter_eq_some_iff.mp h
      simp only [Bool.and_eq_true, decide_eq_true_eq] at hkeep
      have hdigits : (asBytes value).all isAsciiDigit = true := by
        rw [hbytes, List.all_map, List.all_eq_true]
        exact fun c hc => isAsciiDigit_of_digit (hds.2 c hc)
      have hne : asBytes value ≠ [] := by
        rw [hbytes, ne_eq, map_eq_nil_iff]
        exact hds.1
      have hhead : (asBytes value).head? ≠ some 48 := by
        rw [hbytes, head?_map]
        intro hzero
        obtain ⟨c, hc, hbyte⟩ := map_eq_some_iff.mp hzero
        have hrange := Decimal.digit_toNat (hds.2 c (mem_of_mem_head? hc))
        have hcode := congrArg UInt8.toNat hbyte
        rw [UInt8.toNat_ofNat', Nat.mod_eq_of_lt (by omega)] at hcode
        apply hlead
        rw [hc, ← Char.ofNat_toNat c, hcode]
        rfl
      simp only [pidIsValid, Bool.and_eq_true, bne_iff_ne]
      refine ⟨⟨⟨hne, hhead⟩, hdigits⟩, ?_⟩
      rw [fromUtf8_asBytes, bind_some, hparse]
      exact decide_eq_true hkeep.1
    · intro hplus
      exact IsDecimal.not_mem hds rfl (mem_of_mem_head? hplus)
  · refine iff_of_false ?_ (fun hne => hne rfl)
    intro hvalid
    simp only [pidIsValid, Bool.and_eq_true, List.all_eq_true] at hvalid
    have hplus := hvalid.1.2 43 (by rw [hbytes]; exact List.mem_cons_self)
    cases hplus

theorem validateBinaryWitnessLeaves_iff {binary : Text} (hbinary : binary ≠ [])
    (h : parsePid value = some pid) :
    validateBinaryWitnessLeaves (asBytes (binary ++ ".new.".toList ++ value))
        (asBytes (binary ++ ".new.".toList ++ value ++ ".commit-witness".toList)) = .ok () ↔
      value.head? ≠ some '+' := by
  have hmarker := lastWindow_marker h (asBytes binary)
  have hne : asBytes binary ≠ [] := by
    intro hnil
    exact hbinary (asBytes_inj (t := []) hnil)
  have hsource : asBytes (binary ++ ".new.".toList ++ value) =
      asBytes binary ++ stagedMarker ++ asBytes value := by
    rw [asBytes_append, asBytes_append]
    rfl
  have hstrip : stripStart (asBytes binary ++ stagedMarker ++ asBytes value)
      (asBytes binary ++ stagedMarker ++ asBytes value ++ asBytes ".commit-witness".toList) =
        some witnessEnd := stripStart_eq_some.mpr rfl
  have htake : (asBytes binary ++ stagedMarker ++ asBytes value).take (asBytes binary).length =
      asBytes binary := by
    rw [append_assoc, take_left]
  have hdrop : (asBytes binary ++ stagedMarker ++ asBytes value).drop
      ((asBytes binary).length + stagedMarker.length) = asBytes value := by
    rw [← length_append, drop_left]
  rw [← pidIsValid_iff h, asBytes_append _ ".commit-witness".toList, hsource]
  simp only [validateBinaryWitnessLeaves, hmarker, htake, hdrop, hne, false_or, hstrip, ne_eq,
    not_true_eq_false, if_false]
  cases pidIsValid (asBytes value) <;> simp

/-! ### Both layers -/

/- The identifier in a binary's staged name begins with a `+`. -/
def PlusPid (request : Request) : Prop :=
  request.operation = .binaryHardLink ∧ ∃ source binary rest,
    fromUtf8 request.source = some source ∧
      rsplitOnce ".new.".toList source = some (binary, '+' :: rest)

theorem executeCheck_binary (h : parseBinaryHardLinkRequest args = .ok request) :
    executeCheck request = .ok () ↔ ¬ PlusPid request := by
  obtain ⟨hop, hparent, binary, value, pid, hbinary, hpid, hsplit, hsource, hwitness⟩ :=
    parseBinaryHardLinkRequest_ok h
  obtain ⟨parent, hparent⟩ := isSome_iff_exists.mp hparent
  have hcheck : executeCheck request =
      validateBinaryWitnessLeaves request.source request.destination := by
    simp only [executeCheck, hop, Operation.linux, hparent]
  rw [hcheck, ← asBytes_of_fromUtf8 hsource, ← asBytes_of_fromUtf8 hwitness,
    validateBinaryWitnessLeaves_iff hbinary hpid]
  constructor
  · rintro hplain ⟨-, source, binary', rest, hsource', hsplit'⟩
    rw [hsource] at hsource'
    cases hsource'
    rw [hsplit] at hsplit'
    cases hsplit'
    exact hplain rfl
  · intro hnot hplus
    obtain ⟨rest, hrest⟩ := head?_eq_some_iff.mp hplus
    exact hnot ⟨hop, _, binary, rest, hsource, by rw [hsplit, hrest]⟩

theorem executeCheck_iff (h : parseRequest args = .ok request) :
    executeCheck request = .ok () ↔ ¬ PlusPid request := by
  cases args with
  | nil => cases h
  | cons arg args =>
    obtain ⟨operation, hop, h⟩ := of_bind_ok h
    split at h
    · exact executeCheck_binary h
    · rename_i hunit
      refine iff_of_true (executeCheck_unit hunit h) ?_
      rintro ⟨hbinary, -⟩
      exact hunit ((parseUnitRequest_ok h).1 ▸ hbinary)

/-- For an accepted unit-file path the platform layer spells that path exactly when it has no `+`;
an accepted request passes its checks exactly when it is not for a binary whose process identifier
begins with a `+`. -/
theorem installer_layers_agree (path : Bytes) (managed : ManagedPath) (args : List Bytes) :
    (classifyUnitFilePath path = .ok managed →
      ∃ text, fromUtf8 path = some text ∧
        (managed.entry.directory ++ ['/'] ++ managed.entry.leaf = text ↔ '+' ∉ text)) ∧
    (parseArgsFrom (asBytes "validate-request".toList :: args) = .ok .validate →
      ∃ request, parseRequest args = .ok request ∧
        (executeCheck request = .ok () ↔ ¬ PlusPid request)) := by
  refine ⟨classifyUnitFilePath_spells, ?_⟩
  intro h
  rw [parseArgsFrom, if_neg, head?_cons, if_pos rfl] at h
  · obtain ⟨request, hrequest, -⟩ := Except.of_bind_ok h
    exact ⟨request, hrequest, executeCheck_iff hrequest⟩
  · intro heq
    have hname := asBytes_inj (List.cons.inj heq).1
    repeat rw [String.toList_ofList] at hname
    cases hname

theorem parseOperation_binary :
    parseOperation (asBytes "binary-hard-link".toList) = .ok .binaryHardLink := by
  simp only [parseOperation, fromUtf8_asBytes, String.ofList_toList]

theorem classifyUnitFilePath_of_unit
    (h : stripStart migrationDirectory (unitDirectory ++ name) = none) :
    classifyUnitFilePath (asBytes (unitDirectory ++ name)) = classifyUnit name := by
  rw [classifyUnitFilePath, fromUtf8_asBytes]
  simp only [h, stripStart_eq_some.mpr rfl]

def stagedUnit : Bytes := asBytes "/etc/systemd/system/alighieri.service.new.57".toList

theorem installer_layers_agree_live :
    (∃ text, fromUtf8 stagedUnit = some text ∧
      ((ManagedPath.staged 57).entry.directory ++ ['/'] ++ (ManagedPath.staged 57).entry.leaf =
        text ↔ '+' ∉ text)) ∧
    ∃ request, parseRequest [asBytes "binary-hard-link".toList, asBytes "/opt".toList,
        asBytes "a.new.5".toList, asBytes "a.new.5.commit-witness".toList] = .ok request ∧
      (executeCheck request = .ok () ↔ ¬ PlusPid request) := by
  refine ⟨(installer_layers_agree stagedUnit (.staged 57) []).1 ?_,
    (installer_layers_agree [] .live _).2 ?_⟩
  · have hpath : stagedUnit = asBytes (unitDirectory ++ "alighieri.service.new.57".toList) := by
      unfold stagedUnit unitDirectory
      repeat rw [String.toList_ofList]
      rfl
    have hunit : stripStart migrationDirectory
        (unitDirectory ++ "alighieri.service.new.57".toList) = none := by
      unfold migrationDirectory unitDirectory
      repeat rw [String.toList_ofList]
      decide
    rw [hpath, classifyUnitFilePath_of_unit hunit]
    unfold classifyUnit classifyArtifact classifyNew unitName
    repeat rw [String.toList_ofList]
    decide
  · simp only [parseArgsFrom, head?_cons, List.tail_cons, parseRequest, parseOperation_binary,
      parseBinaryHardLinkRequest, validatePhysicalBinaryParent, fromUtf8_asBytes]
    repeat rw [String.toList_ofList]
    decide

def plusUnit : Bytes := asBytes "/etc/systemd/system/alighieri.service.new.+5".toList

/- A `+` is dropped from the name of a unit file, and refused in the name of a binary. -/
theorem plus_pid_diverges :
    (classifyUnitFilePath plusUnit = .ok (.staged 5) ∧
      (ManagedPath.staged 5).entry.path = "/etc/systemd/system/alighieri.service.new.5".toList) ∧
    parseArgsFrom [asBytes "validate-request".toList, asBytes "binary-hard-link".toList,
      asBytes "/opt".toList, asBytes "a.new.+5".toList,
      asBytes "a.new.+5.commit-witness".toList] = .ok .validate ∧
    executeCheck ⟨.binaryHardLink, some (asBytes "/opt".toList), asBytes "a.new.+5".toList,
      asBytes "a.new.+5.commit-witness".toList⟩ =
        .error "binary witness source must end in .new.<positive-pid>" := by
  refine ⟨⟨?_, ?_⟩, ?_, ?_⟩
  · have hpath : plusUnit = asBytes (unitDirectory ++ "alighieri.service.new.+5".toList) := by
      unfold plusUnit unitDirectory
      repeat rw [String.toList_ofList]
      rfl
    have hunit : stripStart migrationDirectory
        (unitDirectory ++ "alighieri.service.new.+5".toList) = none := by
      unfold migrationDirectory unitDirectory
      repeat rw [String.toList_ofList]
      decide
    rw [hpath, classifyUnitFilePath_of_unit hunit]
    unfold classifyUnit classifyArtifact classifyNew unitName
    repeat rw [String.toList_ofList]
    decide
  · rw [show (ManagedPath.staged 5).entry.path = newStart ++ fmtNat 5 from Entry.staged_path 5]
    unfold newStart unitDirectory
    repeat rw [String.toList_ofList]
    decide
  · simp only [parseArgsFrom, head?_cons, List.tail_cons, parseRequest, parseOperation_binary,
      parseBinaryHardLinkRequest, validatePhysicalBinaryParent, fromUtf8_asBytes]
    repeat rw [String.toList_ofList]
    decide
  · unfold executeCheck validateBinaryWitnessLeaves stagedMarker witnessEnd
    repeat rw [String.toList_ofList]
    decide

end Alighieri.Installer
