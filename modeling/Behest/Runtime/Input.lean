import Behest.Runtime.Turn

/-!
# Input admission

`behest-runtime/src/input.rs`: an input is validated and deduplicated before a run is
created for it. The fingerprint of a text is computed by the standard library's hasher,
which is a parameter.
-/

namespace Behest

/-- Unicode `White_Space`, as `char::is_whitespace`. -/
def isWhitespace (c : Char) : Bool :=
  let n := c.toNat
  (9 ≤ n && n ≤ 13) || n == 0x20 || n == 0x85 || n == 0xA0 || n == 0x1680
    || (0x2000 ≤ n && n ≤ 0x200A) || n == 0x2028 || n == 0x2029 || n == 0x202F
    || n == 0x205F || n == 0x3000

/-- `str::trim`. -/
def trimText (s : String) : String :=
  String.ofList ((s.toList.dropWhile isWhitespace).reverse.dropWhile isWhitespace).reverse

/-- Source: `input.rs:49–60`. -/
inductive InputState where
  | submitted
  | admitted
  | processing
  | completed
  | rejected
deriving DecidableEq

/-- Source: `input.rs:72–90`. -/
structure InputRecord where
  id : Uuid
  sessionId : Uuid
  state : InputState
  content : String
  fingerprint : Nat
  rejectionReason : Option String

namespace InputRecord

/-- Source: `input.rs:95–115`. -/
def new (hash : String → Nat) (id sessionId : Uuid) (content : String) : InputRecord :=
  ⟨id, sessionId, .submitted, content, hash (trimText content), none⟩

/-- Source: `input.rs:123–128`. -/
def reject (r : InputRecord) (reason : String) : InputRecord :=
  { r with state := .rejected, rejectionReason := some reason }

end InputRecord

/-- The events of an admission. Source: `input.rs:132–178`. -/
inductive InputEvent where
  | submitted (inputId sessionId : Uuid) (content : String) (fingerprint : Nat)
  | admitted (inputId : Uuid)
  | rejected (inputId : Uuid) (reason : String)

namespace InputAdmission

/-- Reject a submitted record with a reason. -/
def rejectWith (r : InputRecord) (reason : String) (seen : List Nat) :
    InputRecord × List InputEvent × List Nat :=
  (r.reject reason,
    [.submitted r.id r.sessionId r.content r.fingerprint, .rejected r.id reason], seen)

/-- Admit or reject a record; returns it with the events and the fingerprints seen. The
lock of the source is never poisoned here. Source: `input.rs:286–351`. -/
def admitRecord (config : InputAdmissionConfig) (r : InputRecord) (seen : List Nat) :
    InputRecord × List InputEvent × List Nat :=
  if !config.enabled then ({ r with state := .admitted }, [.admitted r.id], seen)
  else if config.rejectEmpty && (trimText r.content).isEmpty then
    rejectWith r "empty input" seen
  else if config.maxLength > 0 && r.content.utf8ByteSize > config.maxLength then
    rejectWith r ("input exceeds maximum length of " ++ toString config.maxLength) seen
  else if config.deduplicate && seen.contains r.fingerprint then
    rejectWith r "duplicate input" seen
  else
    ({ r with state := .admitted },
      [.submitted r.id r.sessionId r.content r.fingerprint, .admitted r.id],
      if config.deduplicate then r.fingerprint :: seen else seen)

/-- Whether a text with a fingerprint is rejected. -/
def rejects (config : InputAdmissionConfig) (seen : List Nat) (content : String)
    (fingerprint : Nat) : Bool :=
  config.enabled && (config.rejectEmpty && (trimText content).isEmpty
    || config.maxLength > 0 && content.utf8ByteSize > config.maxLength
    || config.deduplicate && seen.contains fingerprint)

theorem state_admitRecord (config : InputAdmissionConfig) (r : InputRecord) (seen : List Nat) :
    (admitRecord config r seen).1.state = .rejected ↔
      rejects config seen r.content r.fingerprint = true := by
  unfold admitRecord rejects
  split
  · next h => simp_all
  · next henabled =>
    rw [Bool.not_eq_true, Bool.not_eq_false'] at henabled
    rw [henabled, Bool.true_and]
    split
    · next h => simp only [h, Bool.true_or, iff_true]; rfl
    · next hempty =>
      split
      · next h => simp only [h, Bool.or_true, Bool.true_or, iff_true]; rfl
      · next hlong =>
        split
        · next h => simp only [h, Bool.or_true, iff_true]; rfl
        · next hseen =>
          rw [Bool.not_eq_true] at hempty hlong hseen
          simp only [hempty, hlong, hseen]
          decide

end InputAdmission

end Behest
