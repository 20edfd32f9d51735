import Behest.Json.Merge

/-!
# Placeholders

The `${VAR}` and `${VAR:-default}` placeholders that are replaced in every string of a
configuration (`behest/src/config/loader.rs:138–222`).
-/

namespace Behest

namespace Placeholder

/-- A placeholder up to the first `:-`, and its default after that. -/
def splitDefault : List Char → Option (List Char × List Char)
  | ':' :: '-' :: dflt => some ([], dflt)
  | c :: rest => (splitDefault rest).map fun (name, dflt) => (c :: name, dflt)
  | [] => none

/-- What a closed placeholder is replaced by. -/
def valueOf (env : String → Option String) (placeholder : List Char) : List Char :=
  match splitDefault placeholder with
  | some (name, dflt) => match env (String.ofList name) with
      | some value => value.toList
      | none => dflt
  | none => match env (String.ofList placeholder) with
      | some value => value.toList
      | none => []

/-- The rest of an input, outside or inside of a placeholder. -/
def scan (env : String → Option String) : Option (List Char) → List Char → List Char
  | none, '$' :: '\x7b' :: rest => scan env (some []) rest
  | none, c :: rest => c :: scan env none rest
  | none, [] => []
  | some placeholder, '\x7d' :: rest => valueOf env placeholder ++ scan env none rest
  | some placeholder, c :: rest => scan env (some (placeholder ++ [c])) rest
  | some placeholder, [] => '$' :: '\x7b' :: placeholder

end Placeholder

/-- Source: `loader.rs:166–222`. -/
def substituteString (env : String → Option String) (input : String) : String :=
  String.ofList (Placeholder.scan env none input.toList)

/-- Source: `loader.rs:138–159`. -/
def substituteJson (env : String → Option String) (value : Value) : Value :=
  value.mapStrings (substituteString env)

theorem Placeholder.scan_of_no_dollar (env : String → Option String) {input : List Char}
    (h : '$' ∉ input) : scan env none input = input := by
  induction input with
  | nil => rfl
  | cons c rest ih =>
    rw [List.mem_cons, not_or] at h
    rw [scan, ih h.2]
    rintro rest rfl
    exact fun _ => h.1 rfl

/-- A string without placeholders is left alone. -/
theorem substituteString_of_no_dollar (env : String → Option String) {input : String}
    (h : '$' ∉ input.toList) : substituteString env input = input := by
  rw [substituteString, Placeholder.scan_of_no_dollar env h, String.ofList_toList]

/-- An unset variable gives its default, or nothing; what is not closed stays. -/
example : substituteString (fun name => if name = "HOST" then some "db" else none)
    "$\x7bHOST\x7d:$\x7bPORT:-5432\x7d$\x7bUSER\x7d/$\x7bX" = "db:5432/$\x7bX" := by
  decide

end Behest
