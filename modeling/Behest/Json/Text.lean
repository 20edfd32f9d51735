import Mathlib.Data.List.Nodup
import Behest.Core.Value

/-!
# JSON texts

The values that texts stand for: the grammar of JSON as a relation between a text and a value.
An object holds the last value of each of its keys. The nesting of a text and the size of its
numbers are not limited here. A string literal is at least as long as the string it stands for,
and as long only if it has no escapes.
-/

namespace Behest

/-- What may stand between two tokens. -/
def IsBlank (text : List Char) : Prop := ∀ c ∈ text, c ∈ [' ', '\t', '\n', '\r']

/-- The value of a hexadecimal digit. -/
def hexValue (c : Char) : Option Nat :=
  if '0' ≤ c ∧ c ≤ '9' then some (c.toNat - 48)
  else if 'a' ≤ c ∧ c ≤ 'f' then some (c.toNat - 87)
  else if 'A' ≤ c ∧ c ≤ 'F' then some (c.toNat - 55)
  else none

/-- Four hexadecimal digits. -/
def IsCode (digits : List Char) (code : Nat) : Prop :=
  ∃ a b c d, digits.map hexValue = [some a, some b, some c, some d] ∧
    code = a * 4096 + b * 256 + c * 16 + d

/-- What follows a backslash. A character outside the basic plane is escaped as two surrogates;
a surrogate alone stands for nothing. -/
inductive Escape : List Char → Char → Prop
  | quote : Escape ['"'] '"'
  | backslash : Escape ['\\'] '\\'
  | slash : Escape ['/'] '/'
  | backspace : Escape ['b'] (Char.ofNat 8)
  | formFeed : Escape ['f'] (Char.ofNat 12)
  | newline : Escape ['n'] '\n'
  | carriageReturn : Escape ['r'] '\r'
  | tab : Escape ['t'] '\t'
  | code {digits : List Char} {code : Nat} : IsCode digits code →
      ¬ (0xD800 ≤ code ∧ code ≤ 0xDFFF) → Escape ('u' :: digits) (Char.ofNat code)
  | surrogates {digits digits' : List Char} {high low : Nat} : IsCode digits high →
      IsCode digits' low → 0xD800 ≤ high ∧ high ≤ 0xDBFF → 0xDC00 ≤ low ∧ low ≤ 0xDFFF →
        Escape ('u' :: digits ++ '\\' :: 'u' :: digits')
          (Char.ofNat (0x10000 + (high - 0xD800) * 0x400 + (low - 0xDC00)))

/-- A character that stands for itself in a string literal. -/
def IsPlain (c : Char) : Prop := c ≠ '"' ∧ c ≠ '\\' ∧ 0x20 ≤ c.toNat

instance (c : Char) : Decidable (IsPlain c) := inferInstanceAs (Decidable (_ ∧ _ ∧ _))

/-- What stands between the quotes of a string literal. -/
inductive StringBody : List Char → List Char → Prop
  | nil : StringBody [] []
  | plain {c : Char} {body text : List Char} : IsPlain c → StringBody body text →
      StringBody (c :: body) (c :: text)
  | escape {c : Char} {escape body text : List Char} : Escape escape c → StringBody body text →
      StringBody ('\\' :: escape ++ body) (c :: text)

/-- Decimal digits. -/
def IsDigits (text : List Char) : Prop := text ≠ [] ∧ ∀ c ∈ text, c.isDigit

/-- A number: an integer without leading zeros, a fraction and an exponent. -/
def IsNumber (text : List Char) : Prop :=
  ∃ sign int fraction exponent, text = sign ++ int ++ fraction ++ exponent ∧
    (sign = [] ∨ sign = ['-']) ∧ (int = ['0'] ∨ IsDigits int ∧ int.head? ≠ some '0') ∧
    (fraction = [] ∨ ∃ digits, IsDigits digits ∧ fraction = '.' :: digits) ∧
    (exponent = [] ∨ ∃ e sign digits, e ∈ ['e', 'E'] ∧ sign ∈ [[], ['+'], ['-']] ∧
      IsDigits digits ∧ exponent = e :: sign ++ digits)

/-- The entries hold each key once, with the last of its values. -/
def HoldsLast (entries fields : List (String × Value)) : Prop :=
  (entries.map Prod.fst).Nodup ∧ ∀ key, entries.lookup key = fields.reverse.lookup key

/-- The parts of a text. -/
inductive Phrase where
  | value (v : Value)
  | item (v : Value)
  | items (items : List Value)
  | member (key : String) (v : Value)
  | members (fields : List (String × Value))

/-- What a text stands for. -/
inductive Denotes : List Char → Phrase → Prop
  | null : Denotes "null".toList (.value .null)
  | bool (b : Bool) : Denotes (toString b).toList (.value (.bool b))
  | number {text : List Char} : IsNumber text → Denotes text (.value (.number (String.ofList text)))
  | string {body text : List Char} : StringBody body text →
      Denotes ('"' :: body ++ ['"']) (.value (.string (String.ofList text)))
  | item {before text after : List Char} {v : Value} : IsBlank before → IsBlank after →
      Denotes text (.value v) → Denotes (before ++ text ++ after) (.item v)
  | lastItem {text : List Char} {v : Value} : Denotes text (.item v) → Denotes text (.items [v])
  | moreItems {text rest : List Char} {v : Value} {items : List Value} : Denotes text (.item v) →
      Denotes rest (.items items) → Denotes (text ++ ',' :: rest) (.items (v :: items))
  | emptyArray {blank : List Char} : IsBlank blank →
      Denotes ('[' :: blank ++ [']']) (.value (.array []))
  | array {text : List Char} {items : List Value} : Denotes text (.items items) →
      Denotes ('[' :: text ++ [']']) (.value (.array items))
  | member {before body key after text : List Char} {v : Value} : IsBlank before → IsBlank after →
      StringBody body key → Denotes text (.item v) →
        Denotes (before ++ '"' :: body ++ '"' :: after ++ ':' :: text)
          (.member (String.ofList key) v)
  | lastMember {text : List Char} {key : String} {v : Value} : Denotes text (.member key v) →
      Denotes text (.members [(key, v)])
  | moreMembers {text rest : List Char} {key : String} {v : Value}
      {fields : List (String × Value)} : Denotes text (.member key v) →
        Denotes rest (.members fields) →
          Denotes (text ++ ',' :: rest) (.members ((key, v) :: fields))
  | emptyObject {blank : List Char} : IsBlank blank →
      Denotes ('\x7b' :: blank ++ ['\x7d']) (.value (.object []))
  | object {text : List Char} {entries fields : List (String × Value)} :
      Denotes text (.members fields) → HoldsLast entries fields →
        Denotes ('\x7b' :: text ++ ['\x7d']) (.value (.object entries))

/-- A document: a value with blanks around it. -/
def Value.IsReadFrom (v : Value) (text : String) : Prop := Denotes text.toList (.item v)

section Lengths

variable {body text : List Char}

/-- A literal is no shorter than what it stands for, and longer unless it is plain. -/
theorem StringBody.length (h : StringBody body text) :
    text.length ≤ body.length ∧ (body.length = text.length → ∀ c ∈ text, IsPlain c) := by
  induction h with
  | nil => simp
  | plain hc _ ih =>
    refine ⟨Nat.succ_le_succ ih.1, fun hlength => ?_⟩
    exact List.forall_mem_cons.mpr ⟨hc, ih.2 (Nat.succ.inj hlength)⟩
  | @escape c escape body text hc _ ih =>
    have hescape : 0 < escape.length := by cases hc <;> simp
    have hlonger : text.length + 1 < ('\\' :: escape ++ body).length := by
      rw [List.length_append, List.length_cons]
      omega
    exact ⟨Nat.le_of_lt hlonger, fun hlength => absurd hlength (Nat.ne_of_gt hlonger)⟩

theorem StringBody.of_plain (h : ∀ c ∈ text, IsPlain c) : StringBody text text := by
  induction text with
  | nil => exact .nil
  | cons c rest ih =>
    obtain ⟨hc, hrest⟩ := List.forall_mem_cons.mp h
    exact .plain hc (ih hrest)

/-- The last member of an object stands at the end of its text. -/
theorem Denotes.last {fields : List (String × Value)} (h : Denotes text (.members fields)) :
    ∃ key v last, fields.getLast? = some (key, v) ∧ Denotes last (.member key v) ∧
      last.length ≤ text.length := by
  generalize hphrase : Phrase.members fields = phrase at h
  induction h generalizing fields with
  | @lastMember text key v hmember _ =>
    cases hphrase
    exact ⟨key, v, text, rfl, hmember, Nat.le_refl _⟩
  | @moreMembers text rest key v others hmember _ _ ih =>
    cases hphrase
    obtain ⟨key', v', last, hlast, hmember', hlength⟩ := ih rfl
    refine ⟨key', v', last, ?_, hmember', ?_⟩
    · rw [List.getLast?_cons, hlast]
      rfl
    · rw [List.length_append, List.length_cons]
      omega
  | _ => cases hphrase

theorem HoldsLast.single (key : String) (v : Value) : HoldsLast [(key, v)] [(key, v)] :=
  ⟨List.nodup_singleton key, fun _ => rfl⟩

theorem HoldsLast.getLast?_eq {key : String} {v : Value} {fields : List (String × Value)}
    (h : HoldsLast [(key, v)] fields) {key' : String} {v' : Value}
    (hlast : fields.getLast? = some (key', v')) : key' = key ∧ v' = v := by
  obtain ⟨init, rfl⟩ := List.getLast?_eq_some_iff.mp hlast
  have hlookup := h.2 key'
  rw [List.reverse_append, List.reverse_singleton, List.singleton_append, List.lookup_cons_self,
    List.lookup_cons] at hlookup
  split at hlookup
  · next heq => exact ⟨by simpa using heq, (Option.some.inj hlookup).symm⟩
  · cases hlookup

/-- A member whose value is a string is no shorter than key and string with their punctuation. -/
theorem Denotes.member_length {key s : String} (h : Denotes text (.member key (.string s))) :
    key.length + s.length + 5 ≤ text.length ∧
      (text.length = key.length + s.length + 5 → ∀ c ∈ s.toList, IsPlain c) := by
  cases h with
  | @member before body keyText after text _ _ _ hkey hitem =>
    cases hitem with
    | @item before' text after' _ _ _ hvalue =>
      cases hvalue with
      | @string body' text hbody =>
        obtain ⟨hkey, -⟩ := hkey.length
        obtain ⟨hshort, hplain⟩ := hbody.length
        simp only [List.length_append, List.length_cons, List.length_nil, String.length_ofList,
          String.toList_ofList]
        exact ⟨by omega, fun hlength => hplain (by omega)⟩

end Lengths

/-- **A string that is put into an object as it stands** is read from it exactly when each of its
characters stands for itself. -/
theorem isReadFrom_unescaped_iff (key s : String) (hkey : ∀ c ∈ key.toList, IsPlain c) :
    (Value.object [(key, .string s)]).IsReadFrom
        ("\x7b\"" ++ key ++ "\":\"" ++ s ++ "\"\x7d") ↔
      ∀ c ∈ s.toList, IsPlain c := by
  constructor
  · intro h
    have hlength : ("\x7b\"" ++ key ++ "\":\"" ++ s ++ "\"\x7d").toList.length =
        key.length + s.length + 7 := by
      simp only [String.toList_append, List.length_append, String.length_toList]
      have h₁ : "\x7b\"".length = 2 := rfl
      have h₂ : "\":\"".length = 3 := rfl
      have h₃ : "\"\x7d".length = 2 := rfl
      omega
    unfold Value.IsReadFrom at h
    generalize ("\x7b\"" ++ key ++ "\":\"" ++ s ++ "\"\x7d").toList = text at h hlength
    cases h with
    | @item before text after _ _ _ hvalue =>
      cases hvalue with
      | @object inner _ fields hmembers hentries =>
        obtain ⟨key', v, last, hlast, hmember, hle⟩ := hmembers.last
        obtain ⟨rfl, rfl⟩ := hentries.getLast?_eq hlast
        obtain ⟨hshort, hplain⟩ := hmember.member_length
        simp only [List.length_append, List.length_cons, List.length_nil] at hlength
        exact hplain (by omega)
  · intro h
    have hblank : IsBlank [] := nofun
    have hitem : Denotes ('"' :: s.toList ++ ['"']) (.item (.string s)) := by
      have hstring := Denotes.string (.of_plain h)
      simpa using Denotes.item hblank hblank hstring
    have hmember : Denotes ('"' :: key.toList ++ '"' :: ':' :: '"' :: s.toList ++ ['"'])
        (.member key (.string s)) := by
      simpa using Denotes.member hblank hblank (.of_plain hkey) hitem
    have hobject := Denotes.object (.lastMember hmember) (HoldsLast.single key (.string s))
    simpa [Value.IsReadFrom] using Denotes.item hblank hblank hobject

end Behest
