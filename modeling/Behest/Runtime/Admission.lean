import Mathlib.Logic.Encodable.Basic
import Mathlib.Logic.Equiv.List
import Behest.Runtime.Input

/-!
# Admissions across sessions

One admission pipeline serves all sessions of a runtime, with one set of fingerprints. Here
is what a session is answered as a function of its own inputs, and of the inputs it happens
to share with other sessions.
-/

namespace Behest

/-- An input that is submitted for a session. -/
structure Submission where
  id : Uuid
  sessionId : Uuid
  content : String

namespace InputAdmission

variable (hash : String → Nat) (config : InputAdmissionConfig)

/-- The records of inputs that are admitted or rejected one after the other. -/
def admitAll : List Nat → List Submission → List InputRecord
  | _, [] => []
  | seen, s :: rest =>
      let (record, _, seen) := admitRecord config (.new hash s.id s.sessionId s.content) seen
      record :: admitAll seen rest

/-- What a session is answered by a new pipeline. -/
def outcomes (session : Uuid) (submissions : List Submission) :
    List (InputState × Option String) :=
  ((admitAll hash config [] submissions).filter fun r => r.sessionId == session).map fun r =>
    (r.state, r.rejectionReason)

/-! ### Repeated inputs -/

/-- The content passes the checks that look at nothing else. -/
def isValid (content : String) : Bool :=
  !(config.rejectEmpty && (trimText content).isEmpty) &&
    !(decide (config.maxLength > 0) && decide (content.utf8ByteSize > config.maxLength))

/-- The content repeats a valid one, up to surrounding blanks. -/
def repeats (earlier : List Submission) (content : String) : Bool :=
  earlier.any fun s => isValid config s.content && trimText s.content == trimText content

/-- For each input of a session: it would be new to the session, and another session has
submitted it before. -/
def borrowed (session : Uuid) : List Submission → List Submission → List Submission → List Bool
  | _, _, [] => []
  | own, others, s :: rest =>
      if s.sessionId = session then
        (config.enabled && config.deduplicate && isValid config s.content &&
            !repeats config own s.content && repeats config others s.content) ::
          borrowed session (own ++ [s]) others rest
      else borrowed session own (others ++ [s]) rest

/-- The inputs of a session, in their order. -/
def inputsOf (session : Uuid) (submissions : List Submission) : List String :=
  (submissions.filter fun s => s.sessionId == session).map Submission.content

/-! ### One admission -/

/-- What a content is answered, given whether it is new. -/
def verdict (content : String) (isNew : Bool) : InputState × Option String :=
  if !config.enabled then (.admitted, none)
  else if config.rejectEmpty && (trimText content).isEmpty then (.rejected, some "empty input")
  else if config.maxLength > 0 && content.utf8ByteSize > config.maxLength then
    (.rejected, some ("input exceeds maximum length of " ++ toString config.maxLength))
  else if config.deduplicate && !isNew then (.rejected, some "duplicate input")
  else (.admitted, none)

variable {hash config}

/-- The fingerprints of valid contents, when they are kept. -/
def Remembers (hash : String → Nat) (config : InputAdmissionConfig) (earlier : List Submission)
    (seen : List Nat) : Prop :=
  config.enabled = true → config.deduplicate = true → ∀ content,
    seen.contains (hash (trimText content)) = repeats config earlier content

theorem remembers_nil : Remembers hash config [] [] := fun _ _ _ => rfl

theorem admitRecord_eq {s : Submission} {earlier : List Submission} {seen : List Nat}
    (h : Remembers hash config earlier seen) :
    let record := (admitRecord config (.new hash s.id s.sessionId s.content) seen).1
    record.sessionId = s.sessionId ∧ (record.state, record.rejectionReason) =
      verdict config s.content (!repeats config earlier s.content) := by
  unfold admitRecord verdict
  by_cases henabled : config.enabled = true
  · by_cases hempty : (config.rejectEmpty && (trimText s.content).isEmpty) = true
    · simp [InputRecord.new, henabled, hempty, rejectWith, InputRecord.reject]
    · by_cases hlong : (decide (config.maxLength > 0) &&
          decide (s.content.utf8ByteSize > config.maxLength)) = true
      · simp [InputRecord.new, henabled, hempty, hlong, rejectWith, InputRecord.reject]
      · by_cases hdedup : config.deduplicate = true
        · have hseen := h henabled hdedup s.content
          cases hrepeats : repeats config earlier s.content <;>
            simp [InputRecord.new, henabled, hempty, hlong, hdedup, hseen, hrepeats, rejectWith,
              InputRecord.reject, -List.contains_eq_mem]
        · simp [InputRecord.new, henabled, hempty, hlong, hdedup]
  · simp [InputRecord.new, henabled]

/-- The fingerprint of a valid input is kept. -/
theorem admitRecord_seen {s : Submission} {seen : List Nat} (henabled : config.enabled = true)
    (hdedup : config.deduplicate = true) :
    (admitRecord config (.new hash s.id s.sessionId s.content) seen).2.2 =
      if isValid config s.content && !seen.contains (hash (trimText s.content)) then
        hash (trimText s.content) :: seen
      else seen := by
  unfold admitRecord isValid
  by_cases hempty : (config.rejectEmpty && (trimText s.content).isEmpty) = true
  · simp [InputRecord.new, henabled, hempty, rejectWith]
  · by_cases hlong : (decide (config.maxLength > 0) &&
        decide (s.content.utf8ByteSize > config.maxLength)) = true
    · simp [InputRecord.new, henabled, hempty, hlong, rejectWith]
    · cases hknown : seen.contains (hash (trimText s.content)) <;>
        simp [InputRecord.new, henabled, hempty, hlong, hdedup, hknown, rejectWith,
          -List.contains_eq_mem]

theorem Remembers.snoc (hinj : Function.Injective hash) {s : Submission}
    {earlier : List Submission} {seen : List Nat} (h : Remembers hash config earlier seen) :
    Remembers hash config (earlier ++ [s])
      (admitRecord config (.new hash s.id s.sessionId s.content) seen).2.2 := by
  intro henabled hdedup content
  have hlast : repeats config (earlier ++ [s]) content = (repeats config earlier content ||
      (isValid config s.content && trimText s.content == trimText content)) := by
    simp [repeats]
  have hhash : (hash (trimText content) == hash (trimText s.content)) =
      (trimText s.content == trimText content) := by
    rw [Bool.eq_iff_iff, beq_iff_eq, beq_iff_eq, hinj.eq_iff]
    exact eq_comm
  rw [hlast, ← h henabled hdedup content, admitRecord_seen henabled hdedup]
  by_cases hvalid : isValid config s.content = true
  · by_cases hknown : seen.contains (hash (trimText s.content)) = true
    · rw [if_neg (by simp only [hknown, Bool.not_true, Bool.and_false, Bool.false_eq_true,
        not_false_iff])]
      by_cases hsame : trimText s.content = trimText content
      · rw [← hsame, hknown, Bool.true_or]
      · simp [hsame]
    · rw [if_pos (by simp only [hvalid, hknown, Bool.not_false, Bool.and_true]), List.contains_cons,
        hhash, hvalid, Bool.true_and, Bool.or_comm]
  · rw [if_neg (by simp [hvalid])]
    simp [hvalid]

/-! ### What a session is answered -/

/-- The answers to the inputs of a session, from those inputs and from which of them are
borrowed. -/
def judge (config : InputAdmissionConfig) : List Submission → List String → List Bool →
    List (InputState × Option String)
  | own, content :: rest, isBorrowed :: bits =>
      verdict config content (!repeats config own content && !isBorrowed) ::
        judge config (own ++ [⟨0, 0, content⟩]) rest bits
  | _, _, _ => []

theorem judge_cons (own : List Submission) (content : String) (rest : List String)
    (isBorrowed : Bool) (bits : List Bool) :
    judge config own (content :: rest) (isBorrowed :: bits) =
      verdict config content (!repeats config own content && !isBorrowed) ::
        judge config (own ++ [⟨0, 0, content⟩]) rest bits := rfl

theorem repeats_congr {earlier earlier' : List Submission} {content : String}
    (h : earlier.map Submission.content = earlier'.map Submission.content) :
    repeats config earlier content = repeats config earlier' content := by
  have hmap : ∀ l : List Submission, repeats config l content =
      (l.map Submission.content).any fun t =>
        isValid config t && trimText t == trimText content := by
    intro l
    rw [List.any_map]
    rfl
  rw [hmap, hmap, h]

theorem judge_congr {own own' : List Submission} {contents : List String} {bits : List Bool}
    (h : own.map Submission.content = own'.map Submission.content) :
    judge config own contents bits = judge config own' contents bits := by
  induction contents generalizing own own' bits with
  | nil => cases bits <;> rfl
  | cons content rest ih =>
    cases bits with
    | nil => rfl
    | cons isBorrowed bits =>
      have hnext : (own ++ [Submission.mk 0 0 content]).map Submission.content =
          (own' ++ [Submission.mk 0 0 content]).map Submission.content := by simp [h]
      rw [judge_cons, judge_cons, repeats_congr h, ih hnext]

/-- A bit that says that another session has submitted an input is true only of an input that
would otherwise be new, so it decides what the input is answered. -/
theorem verdict_borrowed (own others : List Submission) (content : String) :
    verdict config content (!repeats config own content &&
      !(config.enabled && config.deduplicate && isValid config content &&
        !repeats config own content && repeats config others content)) =
    verdict config content (!(repeats config own content || repeats config others content)) := by
  unfold verdict isValid
  by_cases henabled : config.enabled = true
  · by_cases hempty : (config.rejectEmpty && (trimText content).isEmpty) = true
    · simp [henabled, hempty]
    · by_cases hlong : (decide (config.maxLength > 0) &&
          decide (content.utf8ByteSize > config.maxLength)) = true
      · simp [henabled, hempty, hlong]
      · by_cases hdedup : config.deduplicate = true
        · cases hown : repeats config own content <;>
            cases hothers : repeats config others content <;>
            simp [henabled, hempty, hlong, hdedup]
        · simp [henabled, hempty, hlong, hdedup]
  · simp [henabled]

theorem repeats_append (l l' : List Submission) (content : String) :
    repeats config (l ++ l') content = (repeats config l content || repeats config l' content) :=
  List.any_append

theorem admitAll_cons (seen : List Nat) (s : Submission) (rest : List Submission) :
    admitAll hash config seen (s :: rest) =
      (admitRecord config (.new hash s.id s.sessionId s.content) seen).1 ::
        admitAll hash config
          (admitRecord config (.new hash s.id s.sessionId s.content) seen).2.2 rest := rfl

/-- What a session is answered is judged from its own inputs and the borrowed ones. -/
theorem outcomes_eq_judge (hinj : Function.Injective hash) (session : Uuid) {seen : List Nat}
    {earlier : List Submission} (own others submissions : List Submission)
    (h : Remembers hash config earlier seen)
    (hsplit : ∀ content, repeats config earlier content =
      (repeats config own content || repeats config others content)) :
    ((admitAll hash config seen submissions).filter fun r => r.sessionId == session).map
        (fun r => (r.state, r.rejectionReason)) =
      judge config own (inputsOf session submissions)
        (borrowed config session own others submissions) := by
  induction submissions generalizing seen earlier own others with
  | nil => rfl
  | cons s rest ih =>
    obtain ⟨hsession, hverdict⟩ := admitRecord_eq h (s := s)
    have hsnoc := h.snoc hinj (s := s)
    rw [admitAll_cons]
    unfold borrowed inputsOf
    by_cases hs : s.sessionId = session
    · have hrest := ih (own ++ [s]) others hsnoc fun content => by
        rw [repeats_append, repeats_append, hsplit, Bool.or_right_comm]
      have hsame : (own ++ [s]).map Submission.content =
          (own ++ [Submission.mk 0 0 s.content]).map Submission.content := by simp
      rw [if_pos hs, List.filter_cons, if_pos (beq_iff_eq.mpr (hsession.trans hs)), List.map_cons,
        hverdict, List.filter_cons_of_pos (by simp [hs]), List.map_cons, hrest, judge_congr hsame,
        judge_cons, verdict_borrowed, ← hsplit]
      rfl
    · have hrest := ih own (others ++ [s]) hsnoc fun content => by
        rw [repeats_append, repeats_append, hsplit, Bool.or_assoc]
      have hother :
        ¬ ((admitRecord config (.new hash s.id s.sessionId s.content) seen).1.sessionId ==
          session) = true := by rwa [beq_iff_eq, hsession]
      rw [if_neg hs, List.filter_cons, if_neg hother, List.filter_cons_of_neg (by simp [hs]), hrest]
      rfl

/-- Only an input that would be new is borrowed. -/
def Masked (config : InputAdmissionConfig) : List Submission → List String → List Bool → Prop
  | own, content :: rest, isBorrowed :: bits =>
      (isBorrowed = true → config.enabled = true ∧ config.deduplicate = true ∧
        isValid config content = true ∧ repeats config own content = false) ∧
      Masked config (own ++ [⟨0, 0, content⟩]) rest bits
  | _, [], [] => True
  | _, _, _ => False

theorem masked_congr {own own' : List Submission} {contents : List String} {bits : List Bool}
    (h : own.map Submission.content = own'.map Submission.content)
    (hmasked : Masked config own contents bits) : Masked config own' contents bits := by
  induction contents generalizing own own' bits with
  | nil => cases bits <;> exact hmasked
  | cons content rest ih =>
    cases bits with
    | nil => exact hmasked
    | cons isBorrowed bits =>
      have hnext : (own ++ [Submission.mk 0 0 content]).map Submission.content =
          (own' ++ [Submission.mk 0 0 content]).map Submission.content := by simp [h]
      exact ⟨repeats_congr h ▸ hmasked.1, ih hnext hmasked.2⟩

theorem masked_borrowed (config : InputAdmissionConfig) (session : Uuid)
    (own others submissions : List Submission) :
    Masked config own (inputsOf session submissions)
      (borrowed config session own others submissions) := by
  induction submissions generalizing own others with
  | nil => trivial
  | cons s rest ih =>
    unfold borrowed inputsOf
    by_cases hs : s.sessionId = session
    · have hsame : (own ++ [s]).map Submission.content =
          (own ++ [Submission.mk 0 0 s.content]).map Submission.content := by simp
      rw [if_pos hs, List.filter_cons_of_pos (by simp [hs])]
      apply And.intro _ (masked_congr hsame (ih (own ++ [s]) others))
      intro hbits
      simp only [Bool.and_eq_true, Bool.not_eq_true'] at hbits
      exact ⟨hbits.1.1.1.1, hbits.1.1.1.2, hbits.1.1.2, hbits.1.2⟩
    · rw [if_neg hs, List.filter_cons_of_neg (by simp [hs])]
      exact ih own (others ++ [s])

/-- A new valid input is answered differently when it is borrowed. -/
theorem verdict_ne {content : String} (henabled : config.enabled = true)
    (hdedup : config.deduplicate = true) (hvalid : isValid config content = true) :
    verdict config content true ≠ verdict config content false := by
  unfold isValid at hvalid
  rw [Bool.and_eq_true, Bool.not_eq_true', Bool.not_eq_true'] at hvalid
  simp [verdict, henabled, hdedup, hvalid.1, hvalid.2]

/-- The answers tell which inputs were borrowed. -/
theorem judge_inj {own : List Submission} {contents : List String} {bits bits' : List Bool}
    (h : Masked config own contents bits) (h' : Masked config own contents bits') :
    judge config own contents bits = judge config own contents bits' ↔ bits = bits' := by
  constructor
  · intro heq
    induction contents generalizing own bits bits' with
    | nil =>
      cases bits <;> cases bits' <;> first | rfl | exact h.elim | exact h'.elim
    | cons content rest ih =>
      cases bits with
      | nil => exact h.elim
      | cons b bits =>
        cases bits' with
        | nil => exact h'.elim
        | cons b' bits' =>
          obtain ⟨hhead, htail⟩ := List.cons.inj heq
          rw [ih h.2 h'.2 htail]
          congr 1
          by_contra hne
          cases b with
          | true =>
            obtain ⟨henabled, hdedup, hvalid, hnew⟩ := h.1 rfl
            obtain rfl : b' = false := by simpa using Ne.symm hne
            rw [hnew] at hhead
            exact verdict_ne henabled hdedup hvalid hhead.symm
          | false =>
            obtain rfl : b' = true := by simpa using Ne.symm hne
            obtain ⟨henabled, hdedup, hvalid, hnew⟩ := h'.1 rfl
            rw [hnew] at hhead
            exact verdict_ne henabled hdedup hvalid hhead
  · rintro rfl
    rfl

/-- **A session is answered alike among different inputs of other sessions if and only if the
same inputs of its own are borrowed**: with the same inputs of the session, in one order. -/
theorem outcomes_eq_iff (hash : String → Nat) (hinj : Function.Injective hash)
    (config : InputAdmissionConfig) (session : Uuid) (submissions submissions' : List Submission)
    (hsame : inputsOf session submissions = inputsOf session submissions') :
    outcomes hash config session submissions = outcomes hash config session submissions' ↔
      borrowed config session [] [] submissions = borrowed config session [] [] submissions' := by
  have hempty : Remembers hash config [] [] := remembers_nil
  have hjudge := fun l => outcomes_eq_judge hinj session [] [] l hempty fun _ => rfl
  have hmasked := masked_borrowed config session [] [] submissions'
  unfold outcomes
  rw [hjudge, hjudge, hsame]
  rw [← hsame] at hmasked
  apply judge_inj (hsame ▸ masked_borrowed config session [] [] submissions) (hsame ▸ hmasked)

/-! ### Two sessions -/

/-- A hash without collisions. -/
def textCode (text : String) : Nat := Encodable.encode (text.toList.map Char.toNat)

theorem textCode_injective : Function.Injective textCode := by
  intro s t h
  have hcodes : s.toList.map Char.toNat = t.toList.map Char.toNat := Encodable.encode_injective h
  have hchars : s.toList = t.toList :=
    List.map_injective_iff.mpr (fun a b hab => Char.toNat_inj.mp hab) hcodes
  exact String.toList_inj.mp hchars

/-- A session is refused its first input because another session has submitted the same text. -/
theorem greeting_leaks :
    Function.Injective textCode ∧
      inputsOf 1 [⟨10, 2, "hello"⟩, ⟨11, 1, "hello"⟩] = inputsOf 1 [⟨11, 1, "hello"⟩] ∧
      outcomes textCode {} 1 [⟨10, 2, "hello"⟩, ⟨11, 1, "hello"⟩] =
        [(.rejected, some "duplicate input")] ∧
      outcomes textCode {} 1 [⟨11, 1, "hello"⟩] = [(.admitted, none)] :=
  ⟨textCode_injective, rfl, by decide +kernel, by decide +kernel⟩

/-- Another session that submits other texts changes nothing. -/
theorem greeting_private :
    inputsOf 1 [⟨10, 2, "bye"⟩, ⟨11, 1, "hello"⟩] = inputsOf 1 [⟨11, 1, "hello"⟩] ∧
      outcomes textCode {} 1 [⟨10, 2, "bye"⟩, ⟨11, 1, "hello"⟩] =
        outcomes textCode {} 1 [⟨11, 1, "hello"⟩] :=
  ⟨rfl, (outcomes_eq_iff textCode textCode_injective {} 1 _ _ rfl).mpr (by decide +kernel)⟩

end InputAdmission

end Behest
