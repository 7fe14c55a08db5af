import Alighieri.Rdp.Frame
import Alighieri.Socks5.Address

/-!
# Host names from SOCKS requests on the RDP transport

`net::validate_hostname` counts 253 bytes without a trailing dot; `protocol::validate_hostname`
(protocol.rs:980-988) counts the dot as well before it asks the same question.
-/

namespace Alighieri.Rdp
open Net Socks5

variable {name : Text}

theorem utf8Len_stripDot_le (h : validateHostname name = .ok ()) :
    name ≠ [] ∧ utf8Len (stripDot name) ≤ 253 := by
  refine ⟨?_, Nat.le_of_not_lt ?_⟩
  · rintro rfl
    exact validateHostname_nil h
  · intro hlong
    unfold validateHostname at h
    rw [if_pos hlong] at h
    split at h
    · cases h
    · split at h <;> cases h

theorem utf8Len_append (s t : Text) : utf8Len (s ++ t) = utf8Len s + utf8Len t := by
  simp only [utf8Len, List.map_append, List.sum_append]

theorem utf8Len_of_dot (h : name.getLast? = some '.') :
    utf8Len name = utf8Len (stripDot name) + 1 := by
  obtain ⟨ys, rfl⟩ := List.getLast?_eq_some_iff.mp h
  rw [stripDot, if_pos h, List.dropLast_concat, utf8Len_append]
  rfl

/- The only accepted names the wire check refuses. -/
def FullAbsolute (name : Text) : Prop := name.getLast? = some '.' ∧ utf8Len (stripDot name) = 253

theorem utf8Len_le_iff (h : validateHostname name = .ok ()) :
    utf8Len name ≤ maxHostnameLen ↔ ¬ FullAbsolute name := by
  have hstem := (utf8Len_stripDot_le h).2
  by_cases hdot : name.getLast? = some '.'
  · have hlen := utf8Len_of_dot hdot
    constructor
    · rintro hle ⟨-, hfull⟩
      rw [maxHostnameLen] at hle
      omega
    · intro hnot
      have hne : utf8Len (stripDot name) ≠ 253 := fun heq => hnot ⟨hdot, heq⟩
      rw [maxHostnameLen]
      omega
  · rw [stripDot, if_neg hdot] at hstem
    exact ⟨fun _ hfull => hdot hfull.1, fun _ => hstem⟩

theorem validateWireHostname_iff (h : validateHostname name = .ok ()) :
    validateWireHostname name = .ok () ↔ utf8Len name ≤ maxHostnameLen := by
  have hne := (utf8Len_stripDot_le h).1
  unfold validateWireHostname
  rw [if_neg hne, h]
  split
  · rename_i hlong
    exact ⟨fun hr => (by cases hr), fun hle => absurd hlong (Nat.not_lt.mpr hle)⟩
  · rename_i hshort
    exact ⟨fun _ => Nat.le_of_not_lt hshort, fun _ => rfl⟩

theorem validate_resolve {id port : ℕ} (hid : id ≠ 0) (hport : port ≠ 0) (name : Text) :
    (Frame.resolve id port name).validate = validateWireHostname name := by
  have hstream : validateStreamId .resolve id = .ok () := by
    rw [validateStreamId, if_neg (by decide), if_neg hid]
  have hvalid : validatePort .resolve port = .ok () := by rw [validatePort, if_neg hport]
  exact (Except.bind_of_ok hstream).trans (Except.bind_of_ok hvalid)

/-- A name that the SOCKS reader has accepted makes a valid RESOLVE frame exactly when it is not
an absolute name that is 253 bytes long without its dot. -/
theorem accepted_name_resolves_iff {r rest : Bytes} {host : Text} {p : ℕ}
    (h : readTargetAddr r = .ok (.domain host p, rest)) {id port : ℕ} (hid : id ≠ 0)
    (hport : port ≠ 0) :
    (Frame.resolve id port host).validate = .ok () ↔ ¬ FullAbsolute host := by
  have hvalid : validateHostname host = .ok () := by
    obtain ⟨w, -, hw⟩ := readTargetAddr_ok h
    cases hw with
    | domain len raw port name hlen hraw hp hname hvalid => exact hvalid
  rw [validate_resolve hid hport, validateWireHostname_iff hvalid, utf8Len_le_iff hvalid]

def fullName : Text :=
  (List.replicate 3 (List.replicate 63 'a' ++ ['.'])).flatten ++ List.replicate 61 'a' ++ ['.']

theorem fullName_encodable : (TargetAddr.domain fullName 80).Encodable :=
  ⟨by decide +kernel, by decide +kernel, by decide⟩

/- The reader accepts it, and every RESOLVE frame that carries it is refused. -/
theorem full_absolute_name_refused :
    readTargetAddr (encodeTargetAddr (.domain fullName 80)) = .ok (.domain fullName 80, []) ∧
      (Frame.resolve 1 80 fullName).validate = .error (.hostnameTooLong 254) :=
  ⟨wire_iff.mp (wire_encodeTargetAddr fullName_encodable), by decide +kernel⟩

theorem accepted_name_resolves_short :
    (Frame.resolve 1 80 ['a', '.']).validate = .ok () ↔ ¬ FullAbsolute ['a', '.'] := by
  have hshort : (TargetAddr.domain ['a', '.'] 80).Encodable := ⟨by decide, by decide, by decide⟩
  exact accepted_name_resolves_iff (wire_iff.mp (wire_encodeTargetAddr hshort)) (by decide)
    (by decide)

end Alighieri.Rdp
