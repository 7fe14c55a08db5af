import Alighieri.Acl
import Alighieri.Socks5
import Alighieri.Net.SpecText
import Alighieri.Lib.Reader

/-!
# Rule blocks (config.rs:1268-1294, 1364-1386, 1441-1488, 1548-1824, 2005-2024)

`gatherBlock` collects the words of a rule from the lines of a file. `parseRule` cuts its body
into directives, a word with the values up to the next directive word, and folds them into the
clauses of the rule.
-/

namespace Alighieri.Config
open Net Acl

open Socks5 (Error)

def cfgErr (lineno : ℕ) (msg : String) : Error :=
  .config ("line " ++ toString lineno ++ ": " ++ msg)

/-! ### The words of a block -/

def stripComment (line : Text) : Text := line.takeWhile (· ≠ '#')

def splitWhitespace (s : Text) : List Text := (s.splitOnP isWhitespace).filter (· ≠ [])

def lineTokens (line : Text) : List Text :=
  splitWhitespace ((stripComment line).flatMap fun c =>
    if c = '{' ∨ c = '}' then [' ', c, ' '] else [c])

structure Gathering where
  tokens : List Text
  depth : Int
  opened : Bool
  deriving DecidableEq, Repr

variable {tok : Text} {i next start : ℕ} {lines tokens : List Text} {g g' : Gathering}

def Gathering.push (g : Gathering) (tok : Text) : Gathering where
  tokens := g.tokens ++ [tok]
  depth := if tok = ['{'] then g.depth + 1 else if tok = ['}'] then g.depth - 1 else g.depth
  opened := g.opened || tok == ['{']

/- One word of line `i`; `last` says that none follows on the line. -/
def gatherToken (i : ℕ) (last : Bool) (g : Gathering) (tok : Text) : Except Error Gathering :=
  if (g.push tok).depth < 0 then .error (cfgErr (i + 1) "unexpected '\x7d'")
  else if (g.push tok).opened && (g.push tok).depth == 0 && !last then
    .error (cfgErr (i + 1) "unexpected tokens after '\x7d'")
  else .ok (g.push tok)

def gatherLine (i : ℕ) : Gathering → List Text → Except Error Gathering
  | g, [] => .ok g
  | g, tok :: rest => do gatherLine i (← gatherToken i rest.isEmpty g tok) rest

def gatherLines (start : ℕ) : ℕ → Gathering → List Text → Except Error (List Text × ℕ)
  | _, _, [] => .error (cfgErr (start + 1) "unterminated rule block (missing '\x7d')")
  | i, g, line :: rest => do
    let g ← gatherLine i g (lineTokens line)
    if g.opened && g.depth == 0 then .ok (g.tokens, i + 1) else gatherLines start (i + 1) g rest

def gatherBlock (lines : List Text) (start : ℕ) : Except Error (List Text × ℕ) :=
  gatherLines start start ⟨[], 0, false⟩ (lines.drop start)

/- A block that still goes on: nothing of it yet but the words before its brace, or some
brace open. -/
def Gathering.Running (g : Gathering) : Prop :=
  (g.opened = false ∧ g.depth = 0) ∨ (g.opened = true ∧ 0 < g.depth ∧ ['{'] ∈ g.tokens)

def Gathering.Closed (g : Gathering) : Prop :=
  g.opened = true ∧ g.depth = 0 ∧ ∃ words, g.tokens = words ++ [['}']] ∧ ['{'] ∈ words

theorem Gathering.Running.push (hg : g.Running) (h : 0 ≤ (g.push tok).depth) :
    (g.push tok).Running ∨ (g.push tok).Closed := by
  by_cases hopen : tok = ['{']
  · have hdepth : (g.push tok).depth = g.depth + 1 := if_pos hopen
    have hopened : (g.push tok).opened = true := by simp [Gathering.push, hopen]
    have hmem : ['{'] ∈ (g.push tok).tokens :=
      List.mem_append_right _ (List.mem_singleton.mpr hopen.symm)
    refine .inl (.inr ⟨hopened, ?_, hmem⟩)
    rcases hg with ⟨-, hzero⟩ | ⟨-, hpos, -⟩ <;> omega
  · have hopened : (g.push tok).opened = g.opened := by simp [Gathering.push, hopen]
    by_cases hclose : tok = ['}']
    · have hdepth : (g.push tok).depth = g.depth - 1 := (if_neg hopen).trans (if_pos hclose)
      rcases hg with ⟨-, hzero⟩ | ⟨hwas, hpos, hmem⟩
      · omega
      · by_cases hzero : (g.push tok).depth = 0
        · exact .inr ⟨hopened.trans hwas, hzero, g.tokens, by rw [hclose]; rfl, hmem⟩
        · exact .inl (.inr ⟨hopened.trans hwas, by omega, List.mem_append_left _ hmem⟩)
    · have hdepth : (g.push tok).depth = g.depth := (if_neg hopen).trans (if_neg hclose)
      rcases hg with ⟨hwas, hzero⟩ | ⟨hwas, hpos, hmem⟩
      · exact .inl (.inl ⟨hopened.trans hwas, hdepth.trans hzero⟩)
      · exact .inl (.inr ⟨hopened.trans hwas, by omega, List.mem_append_left _ hmem⟩)

theorem gatherToken_ok {last : Bool} (hg : g.Running) (h : gatherToken i last g tok = .ok g') :
    g'.Running ∨ (last = true ∧ g'.Closed) := by
  unfold gatherToken at h
  split at h
  · cases h
  rename_i hdepth
  split at h
  · cases h
  rename_i hmore
  cases h
  rcases hg.push (Int.not_lt.mp hdepth) with hrun | hclosed
  · exact .inl hrun
  · simp only [hclosed.1, hclosed.2.1, beq_self_eq_true, Bool.true_and, Bool.not_eq_true',
      Bool.not_eq_false] at hmore
    exact .inr ⟨hmore, hclosed⟩

theorem gatherLine_ok {toks : List Text} (hg : g.Running) (h : gatherLine i g toks = .ok g') :
    g'.Running ∨ g'.Closed := by
  induction toks generalizing g with
  | nil =>
    cases h
    exact .inl hg
  | cons tok rest ih =>
    rw [gatherLine] at h
    obtain ⟨g₁, htok, h⟩ := Except.of_bind_ok h
    rcases gatherToken_ok hg htok with hrun | ⟨hlast, hclosed⟩
    · exact ih hrun h
    · rw [List.isEmpty_iff.mp hlast] at h
      cases h
      exact .inr hclosed

theorem gatherLines_ok (hg : g.Running) (h : gatherLines start i g lines = .ok (tokens, next)) :
    ∃ words, tokens = words ++ [['}']] ∧ ['{'] ∈ words := by
  induction lines generalizing i g with
  | nil => cases h
  | cons line rest ih =>
    rw [gatherLines] at h
    obtain ⟨g₁, hline, h⟩ := Except.of_bind_ok h
    split at h
    · rename_i hdone
      cases h
      rcases gatherLine_ok hg hline with (⟨hopened, -⟩ | ⟨-, hpos, -⟩) | ⟨-, -, hwords⟩
      · simp [hopened] at hdone
      · simp only [Bool.and_eq_true, beq_iff_eq] at hdone
        omega
      · exact hwords
    · rename_i hmore
      rcases gatherLine_ok hg hline with hrun | ⟨hopened, hzero, -⟩
      · exact ih hrun h
      · simp [hopened, hzero] at hmore

/-- A block that was gathered ends with the brace that closes it, and has one that opens it
before that. -/
theorem gatherBlock_ok (h : gatherBlock lines start = .ok (tokens, next)) :
    ∃ words, tokens = words ++ [['}']] ∧ ['{'] ∈ words :=
  gatherLines_ok (.inl ⟨rfl, rfl⟩) h

/-! ### Values -/

/- The words of a port range, behind the one `=` that may stand in front of them. -/
def rangeTokens (spec : List Text) : List Text :=
  if spec.head? = some ['='] then spec.tail else spec

def parsePorts (addr : Text) (lineno : ℕ) : List Text → Except Error (Option PortRange)
  | [] => .ok none
  | kw :: spec =>
    if toAsciiLowercase kw = "port".toList then
      if (rangeTokens spec).contains ['='] then
        .error (cfgErr lineno "unexpected '=' in port spec")
      else if (rangeTokens spec).flatten = [] then
        .error (cfgErr lineno "'port' requires a range value")
      else
        match PortRange.fromStr (rangeTokens spec).flatten with
        | .ok range => .ok (some range)
        | .error e =>
          .error (cfgErr lineno
            ("invalid port spec '" ++ String.ofList (rangeTokens spec).flatten ++ "': " ++ e))
    else
      .error (cfgErr lineno ("expected 'ADDR' or 'ADDR port = RANGE', got unexpected tokens after '"
        ++ String.ofList addr ++ "'"))

def parseAddrSpec (vals : List Text) (lineno : ℕ) (allowHosts : Bool) : Except Error AddrSpec :=
  match vals with
  | [] => .error (cfgErr lineno "address selector requires a value")
  | addr :: rest => do
    let ports ← parsePorts addr lineno rest
    match Cidr.fromStr addr with
    | .ok cidr => .ok (.new cidr ports)
    | .error cidrErr =>
      if allowHosts then
        match HostPattern.parse addr with
        | .ok pattern => .ok (.host pattern ports)
        | .error hostErr =>
          .error (cfgErr lineno ("invalid destination '" ++ String.ofList addr ++
            "': not a network (" ++ cidrErr ++ ") or hostname pattern (" ++ hostErr ++ ")"))
      else
        .error (cfgErr lineno ("invalid address '" ++ String.ofList addr ++ "': " ++ cidrErr ++
          " (hostname patterns are only allowed in a socks rule 'to:')"))

section
variable {α : Type} [DecidableEq α]

/- The loop of the three word lists below: known words only, each kept once. -/
def parseWords (table : List (Text × α)) (what expected : String) (lineno : ℕ)
    (vals : List Text) : Except Error (List α) :=
  if vals = [] then .error (cfgErr lineno ("expected at least one " ++ what))
  else
    vals.foldlM (fun out v =>
      match table.lookup (toAsciiLowercase v) with
      | some a => .ok (if a ∈ out then out else out ++ [a])
      | none =>
        .error (cfgErr lineno ("unknown " ++ what ++ " '" ++ String.ofList (toAsciiLowercase v) ++
          "' (expected " ++ expected ++ ")"))) []

end

def parseProtocols (vals : List Text) (lineno : ℕ) : Except Error (List Protocol) :=
  parseWords [("tcp".toList, .tcp), ("udp".toList, .udp)] "protocol" "'tcp' or 'udp'" lineno vals

def parseCommands (vals : List Text) (lineno : ℕ) : Except Error (List Command) :=
  parseWords [("connect".toList, .connect), ("bind".toList, .bind),
      ("udpassociate".toList, .udpAssociate), ("udp".toList, .udpAssociate)]
    "command" "'connect', 'bind' or 'udpassociate'" lineno vals

def parseMethods (vals : List Text) (lineno : ℕ) : Except Error (List AuthKind) :=
  parseWords [("none".toList, .noAuth), ("username".toList, .username)]
    "method" "'none' or 'username'" lineno vals

def joinValueAfter (vals : List Text) : Text := (vals.filter (· ≠ ['='])).flatten

/- The suffixes of a byte size in the order they are tried, with their multipliers. -/
def byteUnits : List (Text × ℕ) :=
  [("kib".toList, 1024), ("kb".toList, 1000), ("k".toList, 1024),
    ("mib".toList, 1024 * 1024), ("mb".toList, 1000 * 1000), ("m".toList, 1024 * 1024),
    ("gib".toList, 1024 * 1024 * 1024), ("gb".toList, 1000 * 1000 * 1000),
    ("g".toList, 1024 * 1024 * 1024), ("b".toList, 1)]

/- The number and the multiplier of a byte size. -/
def splitUnit (raw : Text) : List (Text × ℕ) → Text × ℕ
  | [] => (raw, 1)
  | (unit, multiplier) :: units =>
    match stripEnd unit raw with
    | some number => (number, multiplier)
    | none => splitUnit raw units

def parseByteSize (val : Text) (lineno : ℕ) : Except Error { n : ℕ // n ≤ maxU64 } :=
  let (number, multiplier) := splitUnit (toAsciiLowercase (joinValueAfter [val])) byteUnits
  match parseU64 (number.filter (· ≠ '_')) with
  | none =>
    .error (cfgErr lineno
      ("invalid byte size '" ++ String.ofList val ++ "' (expected bytes or K/M/G suffix)"))
  | some bytes =>
    if h : bytes * multiplier ≤ maxU64 then .ok ⟨bytes * multiplier, h⟩
    else .error (cfgErr lineno "byte size is too large")

def parseByteRateLimit (vals : List Text) (lineno : ℕ) (setting : String) :
    Except Error RateLimit :=
  if vals = [] then .error (cfgErr lineno (setting ++ " requires BYTES/WINDOW_SECONDS"))
  else
    match splitOnce '/' (joinValueAfter vals) with
    | none => .error (cfgErr lineno (setting ++ " must use BYTES/WINDOW_SECONDS"))
    | some (bytes, window) => do
      let limit ← parseByteSize bytes lineno
      match parseU64 (window.filter (· ≠ '_')) with
      | none =>
        .error (cfgErr lineno ("invalid byte rate window '" ++ String.ofList window ++ "'"))
      | some secs =>
        if h : 0 < limit.val ∧ 0 < secs then
          .ok ⟨limit.val, secs * 10 ^ 9, h.1, limit.property, Nat.mul_pos h.2 (by decide)⟩
        else .error (cfgErr lineno (setting ++ " values must be > 0"))

/-! ### Directives -/

/- The words that `is_known_body_key` knows, `from` and `to` being source and destination. -/
inductive BodyKey where
  | source | dest | protocol | command | method | bandwidth | log
  deriving DecidableEq, Repr

def bodyKeys : List (Text × BodyKey) :=
  [("from".toList, .source), ("to".toList, .dest), ("protocol".toList, .protocol),
    ("command".toList, .command), ("method".toList, .method),
    ("bandwidth".toList, .bandwidth), ("log".toList, .log)]

/- A directive word, in any case and with any number of colons behind it. -/
def keyText (tok : Text) : Text := toAsciiLowercase (tok.rdropWhile (· = ':'))

def bodyKey (tok : Text) : Option BodyKey := bodyKeys.lookup (keyText tok)

def isKnownBodyKey (tok : Text) : Bool := (bodyKey tok).isSome

structure Directive where
  word : Text
  vals : List Text
  deriving DecidableEq, Repr

def Directive.key (d : Directive) : Option BodyKey := bodyKey d.word

/- The values in front of the first directive word, and the directives from there on. -/
def gatherVals : List Text → List Text × List Directive
  | [] => ([], [])
  | w :: rest =>
    if isKnownBodyKey w then ([], ⟨w, (gatherVals rest).1⟩ :: (gatherVals rest).2)
    else (w :: (gatherVals rest).1, (gatherVals rest).2)

def directives : List Text → List Directive
  | [] => []
  | w :: rest => ⟨w, (gatherVals rest).1⟩ :: (gatherVals rest).2

/- The local variables of `parse_rule`. -/
structure Clauses where
  source : Option AddrSpec
  dest : Option AddrSpec
  protocols : List Protocol
  commands : List Command
  methods : List AuthKind
  bandwidth : Option RateLimit
  deriving DecidableEq, Repr

def Clauses.empty : Clauses := ⟨none, none, [], [], [], none⟩

/- The body of the loop of `parse_rule`. A directive replaces what an earlier one set. -/
def applyDirective (scope : Scope) (lineno : ℕ) (c : Clauses) (d : Directive) :
    Except Error Clauses :=
  match d.key with
  | some .source => do
    let spec ← parseAddrSpec d.vals lineno false
    .ok { c with source := some spec }
  | some .dest => do
    let spec ← parseAddrSpec d.vals lineno (scope == .socks)
    .ok { c with dest := some spec }
  | some .protocol => do
    let protocols ← parseProtocols d.vals lineno
    .ok { c with protocols := protocols }
  | some .command => do
    let commands ← parseCommands d.vals lineno
    .ok { c with commands := commands }
  | some .method => do
    let methods ← parseMethods d.vals lineno
    .ok { c with methods := methods }
  | some .bandwidth =>
    if scope = .socks then do
      let limit ← parseByteRateLimit d.vals lineno "bandwidth"
      .ok { c with bandwidth := some limit }
    else .error (cfgErr lineno "bandwidth is only valid in a socks rule")
  -- accepted and not read
  | some .log => .ok c
  | none =>
    .error (cfgErr lineno ("unknown rule directive '" ++ String.ofList (keyText d.word) ++ "'"))

/-! ### The rule -/

def unquoteRuleName (name : Text) (lineno : ℕ) : Except Error Text :=
  match stripStart ['"'] name with
  | some stripped =>
    match stripEnd ['"'] stripped with
    | some inner => .ok inner
    | none => .error (cfgErr lineno "quoted rule name is missing closing quote")
  | none =>
    if name.getLast? = some '"' then
      .error (cfgErr lineno "quoted rule name is missing opening quote")
    else .ok name

def parseRuleName (tokens : List Text) (lineno : ℕ) : Except Error (Option Text) :=
  match tokens with
  | [] => .ok none
  | [name] => do
    let name ← unquoteRuleName name lineno
    if name = [] then .error (cfgErr lineno "rule name cannot be empty") else .ok (some name)
  | _ => .error (cfgErr lineno "rule name must be a single token before '\x7b'")

def parseScope (tok : Text) (lineno : ℕ) : Except Error Scope :=
  if toAsciiLowercase tok = "client".toList then .ok .client
  else if toAsciiLowercase tok = "socks".toList then .ok .socks
  else .error (cfgErr lineno
    ("unknown rule scope '" ++ String.ofList (toAsciiLowercase tok) ++ "'"))

def parseVerdict (tok : Text) (lineno : ℕ) : Except Error Verdict :=
  if toAsciiLowercase tok = "pass".toList then .ok .pass
  else if toAsciiLowercase tok = "block".toList then .ok .block
  else .error (cfgErr lineno ("unknown verdict '" ++ String.ofList (toAsciiLowercase tok) ++ "'"))

def openAt (tokens : List Text) : Option ℕ := tokens.findIdx? (· = ['{'])

def closeAt (tokens : List Text) : Option ℕ := lastWindow [['}']] tokens

def slice (tokens : List Text) (start stop : ℕ) : List Text := (tokens.take stop).drop start

/- `tokens[0]` and `tokens[1]` are there: the caller has looked at both. -/
def parseRule (tokens : List Text) (lineno : ℕ) : Except Error Rule := do
  let scope ← parseScope (tokens.getD 0 []) lineno
  let verdict ← parseVerdict (tokens.getD 1 []) lineno
  match openAt tokens with
  | none => .error (cfgErr lineno "rule is missing '\x7b'")
  | some o =>
    match closeAt tokens with
    | none => .error (cfgErr lineno "rule is missing '\x7d'")
    | some close => do
      let name ← parseRuleName (slice tokens 2 o) lineno
      let c ← (directives (slice tokens (o + 1) close)).foldlM (applyDirective scope lineno)
        Clauses.empty
      .ok ⟨name, verdict, scope, c.source.getD AddrSpec.any, c.dest.getD AddrSpec.any, c.commands,
        c.protocols, c.methods, c.bandwidth, lineno⟩

end Alighieri.Config
