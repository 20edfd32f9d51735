import Mathlib.Data.List.Basic

/-!
# JSON values

The `serde_json::Value` tree that tool arguments, tool results and schemas are made of,
with the compact rendering of `Value::to_string`. A number keeps its literal, since
nothing here computes with it; an object is its entry list in iteration order.
-/

namespace Behest

/-- A JSON value. -/
inductive Value where
  | null
  | bool (b : Bool)
  | number (literal : String)
  | string (s : String)
  | array (items : List Value)
  | object (fields : List (String × Value))

namespace Value

/-- Lower-case hexadecimal digit. -/
def hexDigit (n : Nat) : Char :=
  if n < 10 then Char.ofNat (48 + n) else Char.ofNat (87 + n)

/-- The escape of one character inside a JSON string. -/
def escapeChar (c : Char) : List Char :=
  if c = '"' then ['\\', '"']
  else if c = '\\' then ['\\', '\\']
  else if c.toNat = 8 then ['\\', 'b']
  else if c.toNat = 12 then ['\\', 'f']
  else if c.toNat = 10 then ['\\', 'n']
  else if c.toNat = 13 then ['\\', 'r']
  else if c.toNat = 9 then ['\\', 't']
  else if c.toNat < 32 then
    ['\\', 'u', '0', '0', hexDigit (c.toNat / 16), hexDigit (c.toNat % 16)]
  else [c]

/-- A quoted JSON string. -/
def quote (s : String) : String :=
  String.ofList ('"' :: s.toList.flatMap escapeChar ++ ['"'])

mutual

/-- Compact rendering, without blanks between tokens. -/
def render : Value → String
  | null => "null"
  | bool b => if b then "true" else "false"
  | number literal => literal
  | string s => quote s
  | array items => "[" ++ String.intercalate "," (renderItems items) ++ "]"
  | object fields => "\x7b" ++ String.intercalate "," (renderFields fields) ++ "\x7d"

/-- The renderings of the items of an array. -/
def renderItems : List Value → List String
  | [] => []
  | v :: rest => render v :: renderItems rest

/-- The renderings of the entries of an object. -/
def renderFields : List (String × Value) → List String
  | [] => []
  | (k, v) :: rest => (quote k ++ ":" ++ render v) :: renderFields rest

end

mutual

/-- Equality of values is decidable. -/
def decEq : (a b : Value) → Decidable (a = b)
  | null, b => match b with
      | null => isTrue rfl
      | bool _ | number _ | string _ | array _ | object _ => isFalse nofun
  | bool x, b => match b with
      | bool y => decidable_of_iff (x = y) (by rw [bool.injEq])
      | null | number _ | string _ | array _ | object _ => isFalse nofun
  | number x, b => match b with
      | number y => decidable_of_iff (x = y) (by rw [number.injEq])
      | null | bool _ | string _ | array _ | object _ => isFalse nofun
  | string x, b => match b with
      | string y => decidable_of_iff (x = y) (by rw [string.injEq])
      | null | bool _ | number _ | array _ | object _ => isFalse nofun
  | array xs, b => match b with
      | array ys =>
          have := decEqItems xs ys
          decidable_of_iff (xs = ys) (by rw [array.injEq])
      | null | bool _ | number _ | string _ | object _ => isFalse nofun
  | object xs, b => match b with
      | object ys =>
          have := decEqFields xs ys
          decidable_of_iff (xs = ys) (by rw [object.injEq])
      | null | bool _ | number _ | string _ | array _ => isFalse nofun

def decEqItems : (xs ys : List Value) → Decidable (xs = ys)
  | [], [] => isTrue rfl
  | [], _ :: _ | _ :: _, [] => isFalse nofun
  | x :: xs, y :: ys =>
      have := decEq x y
      have := decEqItems xs ys
      decidable_of_iff (x = y ∧ xs = ys) (by rw [List.cons.injEq])

def decEqFields : (xs ys : List (String × Value)) → Decidable (xs = ys)
  | [], [] => isTrue rfl
  | [], _ :: _ | _ :: _, [] => isFalse nofun
  | (k, x) :: xs, (l, y) :: ys =>
      have := decEq x y
      have := decEqFields xs ys
      decidable_of_iff ((k = l ∧ x = y) ∧ xs = ys) (by rw [List.cons.injEq, Prod.mk.injEq])

end

instance : DecidableEq Value := decEq
/-- `true` for an object: the only schemas that are checked. -/
def isObject : Value → Bool
  | object _ => true
  | _ => false

end Value

end Behest
