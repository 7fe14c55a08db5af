import Mathlib.Algebra.Ring.Nat
import Mathlib.Data.List.Basic
import Mathlib.Tactic.Basic

/-!
# Host names

Text is a list of characters and its length is counted in UTF-8 bytes, as
`str::len` does. `validateHostname` is `net::validate_hostname` (net.rs:191-216).
-/

namespace Alighieri.Net

abbrev Text := List Char

def utf8Len (s : Text) : ℕ := (s.map Char.utf8Size).sum

/- `char::is_control`: the Unicode category Cc. -/
def isControl (c : Char) : Bool :=
  decide (c.toNat ≤ 0x1f) || decide (0x7f ≤ c.toNat ∧ c.toNat ≤ 0x9f)

/- `char::is_whitespace`: the Unicode property White_Space. -/
def isWhitespace (c : Char) : Bool :=
  decide (0x9 ≤ c.toNat ∧ c.toNat ≤ 0xd) || decide (0x2000 ≤ c.toNat ∧ c.toNat ≤ 0x200a) ||
    [0x20, 0x85, 0xa0, 0x1680, 0x2028, 0x2029, 0x202f, 0x205f, 0x3000].contains c.toNat

def stripDot (name : Text) : Text :=
  if name.getLast? = some '.' then name.dropLast else name

/- One label of a name; the error texts are the source's. -/
def validateLabel (label : Text) : Except String Unit :=
  if label = [] then .error "has an empty label"
  else if 63 < utf8Len label then .error "has a label longer than 63 bytes"
  else .ok ()

def validateHostname (name : Text) : Except String Unit :=
  if name.any (fun c => isControl c || isWhitespace c) then
    .error "contains a control or whitespace character"
  else if stripDot name = [] then .error "has no labels"
  else if 253 < utf8Len (stripDot name) then
    .error "exceeds the maximum DNS name length of 253 bytes"
  else ((stripDot name).splitOn '.').forM validateLabel

example : (validateHostname ['a', '.', 'b', '.']).isOk = true := by decide

example : (validateHostname ['a', '.', '.', 'b']).isOk = false := by decide

end Alighieri.Net
