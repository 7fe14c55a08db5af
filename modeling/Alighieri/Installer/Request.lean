import Alighieri.Socks5
import Alighieri.Net.Number
import Alighieri.Net.Str

/-!
# Requests to the installer's filesystem companion (bin/alighieri-installer-fs.rs:12-302)

Arguments are the bytes of an `OsString`; paths are looked at as text once they are known
to be UTF-8. A unit-file path is accepted by its exact spelling and reduced to the kind of
entry it names.
-/

namespace Alighieri.Installer
open Net Socks5

def unitDirectory : Text := "/etc/systemd/system/".toList
def migrationDirectory : Text := "/etc/systemd/system/alighieri.service.migration/".toList
def unitName : Text := "alighieri.service".toList

inductive Operation where
  | hardLink
  | exchange
  | renameNoReplace
  | binaryHardLink
  deriving DecidableEq, Repr

inductive MigrationPath where
  | candidate
  | candidateWitness
  | linkProbe
  | previous
  | previousStaged
  | rollbackDisplaced
  deriving DecidableEq, Repr

inductive ManagedPath where
  | live
  | staged (pid : ℕ)
  | witness (pid : ℕ)
  | rejected (pid : ℕ)
  | retained
  | migration (path : MigrationPath)
  deriving DecidableEq, Repr

structure Request where
  operation : Operation
  parent : Option Bytes
  source : Bytes
  destination : Bytes
  deriving DecidableEq, Repr

inductive Command where
  | protocolVersion
  | validate
  | mutate (request : Request)
  deriving DecidableEq, Repr

def parsePid (value : Text) : Option ℕ :=
  (parseU32 value).filter fun pid => 0 < pid && value.head? != some '0'

def classifyMigration (name : Text) : Except String ManagedPath :=
  if name = [] ∨ '/' ∈ name then
    .error "migration path is not an exact managed directory entry"
  else match String.ofList name with
    | "candidate" => .ok (.migration .candidate)
    | "candidate.witness" => .ok (.migration .candidateWitness)
    | "link.probe" => .ok (.migration .linkProbe)
    | "previous" => .ok (.migration .previous)
    | "previous.staged" => .ok (.migration .previousStaged)
    | "rollback.displaced" => .ok (.migration .rollbackDisplaced)
    | _ => .error "migration artifact name is not permitted"

/- What follows `new.` in the name of a staged file or of its witness. -/
def classifyNew (tail : Text) : Option ManagedPath :=
  match (stripEnd ".candidate".toList tail).bind parsePid with
  | some pid => some (.witness pid)
  | none => (parsePid tail).map .staged

/- What follows `alighieri.service.` in the name of a transaction artifact. -/
def classifyArtifact (suffix : Text) : Option ManagedPath :=
  match (stripStart "new.".toList suffix).bind classifyNew with
  | some managed => some managed
  | none => ((stripStart "rejected.".toList suffix).bind parsePid).map .rejected

def classifyUnit (name : Text) : Except String ManagedPath :=
  if name = [] ∨ '/' ∈ name then
    .error "unit-file path is not an exact managed directory entry"
  else if name = unitName then .ok .live
  else if name = "alighieri.service.pre-migration".toList then .ok .retained
  else match stripStart "alighieri.service.".toList name with
    | none => .error "unit-file path is not an Alighieri transaction artifact"
    | some suffix =>
      match classifyArtifact suffix with
      | some managed => .ok managed
      | none => .error "unit-file transaction artifact name is invalid"

def classifyUnitFilePath (path : Bytes) : Except String ManagedPath :=
  match fromUtf8 path with
  | none => .error "unit-file path is not valid UTF-8"
  | some path =>
    match stripStart migrationDirectory path with
    | some name => classifyMigration name
    | none =>
      match stripStart unitDirectory path with
      | none => .error "unit-file path is outside the managed systemd directory"
      | some name => classifyUnit name

/- The table of `validate_operation_paths`. -/
def operationAllowed : Operation → ManagedPath → ManagedPath → Bool
  | .hardLink, .staged source, .witness destination => source == destination
  | .hardLink, .migration .candidate, .migration .candidateWitness => true
  | .hardLink, .migration .candidate, .migration .linkProbe => true
  | .hardLink, .migration .candidate, .retained => true
  | .hardLink, .migration .previous, .live => true
  | .hardLink, .migration .rollbackDisplaced, .live => true
  | .renameNoReplace, .staged _, .migration .candidate => true
  | .renameNoReplace, .staged _, .live => true
  | .renameNoReplace, .live, .rejected _ => true
  | .renameNoReplace, .rejected _, .live => true
  | .renameNoReplace, .migration .previousStaged, .migration .previous => true
  | .renameNoReplace, .live, .migration .rollbackDisplaced => true
  | .renameNoReplace, .migration .rollbackDisplaced, .live => true
  | .exchange, .staged _, .live => true
  | .exchange, .live, .staged _ => true
  | .exchange, .migration .candidate, .live => true
  | .exchange, .live, .migration .candidate => true
  | _, _, _ => false

def validateOperationPaths (operation : Operation) (source destination : ManagedPath) :
    Except String Unit :=
  if operationAllowed operation source destination then .ok ()
  else .error "operation is not permitted for these transaction paths"

/- `Path::components`: repeated slashes and dots are left out, except a dot that begins a
relative path. Two paths are equal when their components are. -/
def components (path : Text) : List Text :=
  let names := fun segments : List Text => segments.filter fun s => s != [] && s != ['.']
  if path.head? = some '/' then ['/'] :: names (path.splitOn '/')
  else match path.splitOn '/' with
    | ['.'] :: rest => ['.'] :: names rest
    | segments => names segments

def validatePhysicalBinaryParent (parent : Bytes) : Except String Unit :=
  match fromUtf8 parent with
  | none => .error "binary witness parent is not valid UTF-8"
  | some parent =>
    if parent.head? ≠ some '/' then .error "binary witness parent must be absolute"
    else if 1 < utf8Len parent ∧ parent.getLast? = some '/' then
      .error "binary witness parent must not have a trailing slash"
    else if parent ≠ ['/'] ∧
        ((parent.splitOn '/').drop 1).any fun c => c == [] || c == ['.'] || c == ['.', '.'] then
      .error "binary witness parent must be a canonical physical path"
    else .ok ()

def requestUsage : String :=
  "usage: alighieri-installer-fs protocol-version | [validate-request] OPERATION SOURCE DESTINATION | [validate-request] binary-hard-link PHYSICAL_PARENT SOURCE_LEAF WITNESS_LEAF"

def parseBinaryHardLinkRequest : List Bytes → Except String Request
  | [_, parent, source, destination] => do
    validatePhysicalBinaryParent parent
    match fromUtf8 source, fromUtf8 destination with
    | none, _ => .error "binary staged leaf is not valid UTF-8"
    | some _, none => .error "binary witness leaf is not valid UTF-8"
    | some sourceName, some destinationName =>
      if (components sourceName).length ≠ 1 ∨ (components destinationName).length ≠ 1 then
        .error "binary witness source and destination must be exact leaf names"
      else match rsplitOnce ".new.".toList sourceName with
        | none => .error "binary witness source must end in .new.<pid>"
        | some (binaryName, pid) =>
          if binaryName = [] ∨ parsePid pid = none then
            .error "binary witness source must end in .new.<positive-pid>"
          else if destinationName ≠ sourceName ++ ".commit-witness".toList then
            .error "binary witness destination must be SOURCE.commit-witness"
          else .ok ⟨.binaryHardLink, some parent, source, destination⟩
  | _ => .error requestUsage

def parseOperation (arg : Bytes) : Except String Operation :=
  match fromUtf8 arg with
  | none => .error requestUsage
  | some name =>
    match String.ofList name with
    | "hard-link" => .ok .hardLink
    | "exchange" => .ok .exchange
    | "rename-noreplace" => .ok .renameNoReplace
    | "binary-hard-link" => .ok .binaryHardLink
    | _ => .error "unknown installer filesystem operation"

def parseUnitRequest (operation : Operation) : List Bytes → Except String Request
  | [_, source, destination] => do
    let sourceKind ← classifyUnitFilePath source
    let destinationKind ← classifyUnitFilePath destination
    if (fromUtf8 source).map components = (fromUtf8 destination).map components then
      .error "source and destination must be different paths"
    else
      validateOperationPaths operation sourceKind destinationKind
      .ok ⟨operation, none, source, destination⟩
  | _ => .error requestUsage

def parseRequest (args : List Bytes) : Except String Request :=
  match args with
  | [] => .error requestUsage
  | arg :: _ => do
    let operation ← parseOperation arg
    if operation = .binaryHardLink then parseBinaryHardLinkRequest args
    else parseUnitRequest operation args

def parseArgsFrom (args : List Bytes) : Except String Command :=
  if args = [asBytes "protocol-version".toList] then .ok .protocolVersion
  else if args.head? = some (asBytes "validate-request".toList) then do
    let _ ← parseRequest args.tail
    .ok .validate
  else do
    let request ← parseRequest args
    .ok (.mutate request)

/-! ### Process identifiers -/

theorem parsePid_some {value : Text} {pid : ℕ} (h : parsePid value = some pid) :
    (IsDecimal value ∧ value.head? ≠ some '0' ∧ fmtNat pid = value) ∨
      ∃ ds, value = '+' :: ds ∧ IsDecimal ds := by
  obtain ⟨hparse, hkeep⟩ := Option.filter_eq_some_iff.mp h
  simp only [Bool.and_eq_true, decide_eq_true_eq, bne_iff_ne, ne_eq] at hkeep
  obtain ⟨ds, rfl | rfl, hds, hpid, -⟩ := parseUnsigned_some hparse
  · refine .inl ⟨hds, hkeep.2, ?_⟩
    rw [hpid, fmtNat_decimalValue hds hkeep.2]
  · exact .inr ⟨ds, rfl, hds⟩

theorem IsDecimal.not_mem {s : Text} (h : IsDecimal s) {c : Char} (hc : c.isDigit = false) :
    c ∉ s := by
  intro hmem
  have hdigit := h.2 c hmem
  rw [hc] at hdigit
  cases hdigit

theorem fmtNat_not_mem (n : ℕ) {c : Char} (hc : c.isDigit = false) : c ∉ fmtNat n :=
  IsDecimal.not_mem (fmtNat_isDecimal n) hc

theorem parsePid_plain {value : Text} {pid : ℕ} (h : parsePid value = some pid) :
    fmtNat pid = value ↔ '+' ∉ value := by
  rcases parsePid_some h with ⟨hds, -, hfmt⟩ | ⟨ds, rfl, -⟩
  · exact ⟨fun _ => IsDecimal.not_mem hds rfl, fun _ => hfmt⟩
  · constructor
    · intro heq
      exact absurd (List.mem_cons_self) (heq ▸ fmtNat_not_mem pid rfl)
    · intro hnot
      exact absurd (List.mem_cons_self) hnot

end Alighieri.Installer
