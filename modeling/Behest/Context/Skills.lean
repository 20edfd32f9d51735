import Behest.Context.Frontmatter

/-!
# Reading skill files

`behest-context/src/skills.rs`: what `parse_skill_file` makes of a skill that is written in the
documented format. Values lose the blanks and the double quotes at their ends, and the list of
tools ends at the first blank item. Reading the file from the disk is left out.
-/

namespace Behest

open Text

/-- Source: `skills.rs:40–55`. -/
structure Skill where
  name : String
  description : String
  content : String
  sourcePath : Option String
  allowedTools : List String
deriving DecidableEq

namespace SkillFile

/-- The error of a file without a name. Source: `skills.rs:303–306`. -/
def missingName (path : String) : String := "skill " ++ path ++ " missing 'name' field"

def textField (frontmatter : List (String × Value)) (key : String) : Option String :=
  match frontmatter.lookup key with
  | some (.string text) => some text
  | _ => none

def textItems (frontmatter : List (String × Value)) (key : String) : List String :=
  match frontmatter.lookup key with
  | some (.array items) =>
      items.filterMap fun item =>
        match item with
        | .string text => some text
        | _ => none
  | _ => []

/-- Source: `skills.rs:295–333`. -/
def parseSkillFile (path : String) (raw : List Char) : Except String Skill :=
  let parts := splitFrontmatter raw
  match textField parts.1 "name" with
  | none => .error (missingName path)
  | some name =>
      .ok {
        name
        description := (textField parts.1 "description").getD ""
        content := String.ofList (trim parts.2)
        sourcePath := some path
        allowedTools := textItems parts.1 "allowed_tools" }

/-! ### Skills in the documented format -/

/-- A skill to be written: everything but the body stands on one line. -/
structure SkillText where
  name : List Char
  description : List Char
  tools : List (List Char)
  body : List Char
  name_line : '\n' ∉ name
  description_line : '\n' ∉ description
  tools_line : ∀ tool ∈ tools, '\n' ∉ tool

def nameField : List Char := ['n', 'a', 'm', 'e']

def descriptionField : List Char := ['d', 'e', 's', 'c', 'r', 'i', 'p', 't', 'i', 'o', 'n']

def toolsField : List Char :=
  ['a', 'l', 'l', 'o', 'w', 'e', 'd', '_', 't', 'o', 'o', 'l', 's']

def itemLine (tool : List Char) : List Char := ' ' :: ' ' :: '-' :: ' ' :: tool

namespace SkillText

variable (skill : SkillText)

/-- The lines between the delimiters. Source: `skills.rs:287–291`. -/
def fieldLines : List (List Char) :=
  (nameField ++ ':' :: ' ' :: skill.name) ::
    (descriptionField ++ ':' :: ' ' :: skill.description) ::
    if skill.tools.isEmpty then [] else (toolsField ++ [':']) :: skill.tools.map itemLine

/-- The file. Source: `skills.rs:286–293`. -/
def written (ending : List Char) : List Char :=
  ['\n'].intercalate
    ((dashes :: (skill.fieldLines ++ [dashes])).map (· ++ ending) ++ [skill.body])

/-- The skill with a function applied to every value, and with a trimmed body. -/
def asRead (f : List Char → List Char) (path : String) : Skill where
  name := String.ofList (f skill.name)
  description := String.ofList (f skill.description)
  content := String.ofList (trim skill.body)
  sourcePath := some path
  allowedTools := skill.tools.map fun tool => String.ofList (f tool)

def values : List (List Char) := skill.name :: skill.description :: skill.tools

/-- The file is read as the skill that was written. -/
def RoundTrips (path : String) (ending : List Char) : Prop :=
  parseSkillFile path (skill.written ending) = .ok (skill.asRead id path)

/-- No value is in quotes, and no tool is blank. -/
def Plain : Prop :=
  (∀ value ∈ skill.values, unquote (trim value) = trim value) ∧
    ∀ tool ∈ skill.tools, trim tool ≠ []

/-- Nothing is lost at the ends of a value, and only the description may be empty. -/
def Readable : Prop :=
  (∀ value ∈ skill.values, ∀ c, c ∈ value.head? ∨ c ∈ value.getLast? →
    Sse.isWhitespace c = false ∧ c ≠ '"') ∧
      skill.name ≠ [] ∧ ∀ tool ∈ skill.tools, tool ≠ []

end SkillText

/-! ### What the lines leave in the map -/

/-- A value without its blanks and its double quotes. -/
def clean (value : List Char) : String := String.ofList (unquote (trim value))

/-- A key of the format, as it stands in front of its colon. -/
structure IsKey (key : List Char) : Prop where
  trimmed : trim key = key
  trimmed_colon : trim (key ++ [':']) = key ++ [':']
  no_colon : ':' ∉ key
  head : key.head? ≠ none ∧ key.head? ≠ some '#' ∧ key.head? ≠ some '-'

theorem isKey_name : IsKey nameField := ⟨by decide, by decide, by decide, by decide⟩

theorem isKey_description : IsKey descriptionField :=
  ⟨by decide, by decide, by decide, by decide⟩

theorem isKey_tools : IsKey toolsField := ⟨by decide, by decide, by decide, by decide⟩

def setText (map : List (String × Value)) (key value : List Char) : List (String × Value) :=
  if (trim value).isEmpty then map else setField map (String.ofList key) (.string (clean value))

def setList (map : List (String × Value)) (key : String) (items : List Value) :
    List (String × Value) :=
  if items.isEmpty then map else setField map key (.array items)

/-- The items up to the first blank one. -/
def listItems (tools : List (List Char)) : List String :=
  (tools.takeWhile fun tool => !(trim tool).isEmpty).map clean

theorem lookup_setField (fields : List (String × Value)) (key : String) (value : Value)
    (k : String) :
    (setField fields key value).lookup k = if k = key then some value else fields.lookup k := by
  rw [setField]
  split
  · next hsome =>
    obtain ⟨old, hold⟩ := Option.isSome_iff_exists.mp hsome
    rw [Value.lookup_put, hold]
    rfl
  · next hnone =>
    rw [Option.not_isSome_iff_eq_none] at hnone
    rw [List.lookup_append]
    by_cases hk : k = key
    · subst hk
      simp [hnone]
    · simp [hk, Value.lookup_cons_of_ne hk]

theorem lookup_setText (map : List (String × Value)) (key value : List Char) (k : String) :
    (setText map key value).lookup k =
      if k = String.ofList key then
        if (trim value).isEmpty then map.lookup k else some (.string (clean value))
      else map.lookup k := by
  rw [setText]
  cases hblank : (trim value).isEmpty with
  | true => simp
  | false => simp [lookup_setField]

theorem lookup_setList (map : List (String × Value)) (key : String) (items : List Value)
    (k : String) :
    (setList map key items).lookup k =
      if k = key then if items.isEmpty then map.lookup k else some (.array items)
      else map.lookup k := by
  rw [setList]
  cases hempty : items.isEmpty with
  | true => simp
  | false => simp [lookup_setField]

theorem trim_rdropWhile (value : List Char) :
    trim (value.rdropWhile Sse.isWhitespace) = trim value :=
  trimBy_rdropWhile value

namespace YamlState

variable {key value : List Char}

theorem step_key (hkey : IsKey key) (s : YamlState) (value : List Char) :
    s.step (key ++ ':' :: value) = s.flush.assign key value := by
  have htrim : trim (key ++ ':' :: value) =
      key ++ ':' :: (value.rdropWhile Sse.isWhitespace) := by
    have hsplit : key ++ ':' :: value = (key ++ [':']) ++ value := by simp
    rw [hsplit, trim, trimBy_append_of_trimmed (by simp) hkey.trimmed_colon]
    simp
  have hcut : cutAt [':'] (key ++ ':' :: value.rdropWhile Sse.isWhitespace) =
      some (key, value.rdropWhile Sse.isWhitespace) :=
    cutAt_of_not_mem hkey.no_colon [] _
  obtain ⟨c, rest, rfl⟩ : ∃ c rest, key = c :: rest :=
    List.exists_cons_of_ne_nil fun h => hkey.head.1 (h ▸ rfl)
  have hhash : c ≠ '#' := fun h => hkey.head.2.1 (h ▸ rfl)
  have hdash : c ≠ '-' := fun h => hkey.head.2.2 (h ▸ rfl)
  have hitem : Sse.stripPrefix ['-', ' ']
      (c :: rest ++ ':' :: value.rdropWhile Sse.isWhitespace) = none := by
    simp [Sse.stripPrefix, Ne.symm hdash]
  rw [step, htrim, if_neg (by simp [Ne.symm hhash]), hitem, hcut]
  simp only [assign, trim_rdropWhile]

theorem step_item (s : YamlState) (tool : List Char) :
    s.step (itemLine tool) = if (trim tool).isEmpty then s.flush else s.push tool := by
  have htrim : trim (itemLine tool) = '-' :: (' ' :: tool).rdropWhile Sse.isWhitespace := by
    have hsplit : itemLine tool = [' ', ' '] ++ (['-'] ++ ' ' :: tool) := rfl
    rw [hsplit, trim, trimBy_append_left (List.all_eq_true.mp rfl),
      trimBy_append_of_trimmed (by simp) rfl]
    rfl
  split
  · next hempty =>
    have hall := trimBy_eq_nil_iff.mp (List.isEmpty_iff.mp hempty)
    have hrest : (' ' :: tool).rdropWhile Sse.isWhitespace = [] :=
      List.rdropWhile_eq_nil_iff.mpr (List.forall_mem_cons.mpr ⟨rfl, hall⟩)
    rw [step, htrim, hrest]
    rfl
  · next hne =>
    have hrest : (' ' :: tool).rdropWhile Sse.isWhitespace =
        ' ' :: tool.rdropWhile Sse.isWhitespace := by
      have htool : tool.rdropWhile Sse.isWhitespace ≠ [] := by
        rw [Ne, List.rdropWhile_eq_nil_iff, ← trimBy_eq_nil_iff]
        exact fun h => hne (List.isEmpty_iff.mpr h)
      rw [List.rdropWhile, List.reverse_cons, List.dropWhile_append, if_neg]
      · rw [List.reverse_append, List.rdropWhile]
        rfl
      · rw [List.isEmpty_iff, ← List.reverse_eq_nil_iff]
        exact htool
    have hitem : Sse.stripPrefix ['-', ' '] ('-' :: ' ' :: tool.rdropWhile Sse.isWhitespace) =
        some (tool.rdropWhile Sse.isWhitespace) := rfl
    rw [step, htrim, hrest, if_neg (by simp), hitem]
    simp only [push, trim_rdropWhile]

/-- A key behind a flushed state, flushed in turn. -/
theorem flush_step_key (hkey : IsKey key) {s : YamlState} {map : List (String × Value)}
    (hs : s.flush = ⟨map, none, []⟩) (value : List Char) :
    (s.step (key ++ ':' :: value)).flush = ⟨setText map key value, none, []⟩ := by
  rw [step_key hkey, hs, assign, setText, hkey.trimmed]
  cases hblank : (trim value).isEmpty with
  | true => rfl
  | false => rfl

/-- Without a key nothing is collected. -/
theorem foldl_items_none (map : List (String × Value)) (tools : List (List Char)) :
    (tools.map itemLine).foldl step ⟨map, none, []⟩ = ⟨map, none, []⟩ := by
  induction tools with
  | nil => rfl
  | cons tool rest ih =>
    rw [List.map_cons, List.foldl_cons, step_item]
    split
    · exact ih
    · exact ih

/-- The items behind a key, up to the first blank one: it flushes the list. -/
theorem foldl_items (map : List (String × Value)) (key : String) (items : List Value)
    (tools : List (List Char)) :
    ((tools.map itemLine).foldl step ⟨map, some key, items⟩).flush =
      ⟨setList map key (items ++ (listItems tools).map .string), none, []⟩ := by
  induction tools generalizing items with
  | nil =>
    rw [List.map_nil, List.foldl_nil, flush, setList, listItems, List.takeWhile_nil, List.map_nil,
      List.map_nil, List.append_nil]
    cases items with
    | nil => rfl
    | cons item rest => rfl
  | cons tool rest ih =>
    rw [List.map_cons, List.foldl_cons, step_item, listItems, List.takeWhile_cons]
    cases hblank : (trim tool).isEmpty with
    | true =>
      have hflush : (⟨map, some key, items⟩ : YamlState).flush =
          ⟨setList map key items, none, []⟩ := by
        cases items with
        | nil => rfl
        | cons item rest => rfl
      simp only [if_true, hflush, foldl_items_none, Bool.not_true, Bool.false_eq_true, if_false,
        List.map_nil, List.append_nil]
      rfl
    | false =>
      have hpush : (⟨map, some key, items⟩ : YamlState).push tool =
          ⟨map, some key, items ++ [.string (clean tool)]⟩ := rfl
      simp only [Bool.false_eq_true, if_false, hpush, ih, Bool.not_false, if_true, List.map_cons,
        List.append_assoc, List.singleton_append]
      rfl

end YamlState

namespace SkillText

variable (skill : SkillText)

/-- The map that the lines between the delimiters leave. -/
def fields : List (String × Value) :=
  setList (setText (setText [] nameField skill.name) descriptionField skill.description)
    "allowed_tools" ((listItems skill.tools).map .string)

theorem flush_fieldLines :
    (skill.fieldLines.foldl YamlState.step .init).flush.map = skill.fields := by
  have hname : (YamlState.step .init (nameField ++ ':' :: ' ' :: skill.name)).flush =
      ⟨setText [] nameField skill.name, none, []⟩ :=
    YamlState.flush_step_key isKey_name rfl (' ' :: skill.name)
  have hdescription := YamlState.flush_step_key isKey_description hname (' ' :: skill.description)
  rw [fieldLines, List.foldl_cons, List.foldl_cons, fields]
  cases htools : skill.tools with
  | nil => exact congrArg YamlState.map hdescription
  | cons tool rest =>
    rw [List.isEmpty_cons, if_neg Bool.false_ne_true, List.foldl_cons,
      YamlState.step_key isKey_tools, hdescription]
    exact congrArg YamlState.map (YamlState.foldl_items _ "allowed_tools" [] (tool :: rest))

theorem fieldLines_not_dashes {ending : List Char} :
    ∀ line ∈ skill.fieldLines.map (· ++ ending), dashes.isPrefixOf line = false := by
  intro line hline
  obtain ⟨field, hfield, rfl⟩ := List.mem_map.mp hline
  rw [fieldLines, List.mem_cons, List.mem_cons] at hfield
  rcases hfield with rfl | rfl | hfield
  · rfl
  · rfl
  · split at hfield
    · cases hfield
    · rcases List.mem_cons.mp hfield with rfl | hitem
      · rfl
      · obtain ⟨tool, -, rfl⟩ := List.mem_map.mp hitem
        rfl

theorem fieldLines_line : ∀ line ∈ skill.fieldLines, '\n' ∉ line := by
  intro line hline
  rw [fieldLines, List.mem_cons, List.mem_cons] at hline
  rcases hline with rfl | rfl | hline
  · simpa [nameField] using skill.name_line
  · simpa [descriptionField] using skill.description_line
  · split at hline
    · cases hline
    · rcases List.mem_cons.mp hline with rfl | hitem
      · decide
      · obtain ⟨tool, htool, rfl⟩ := List.mem_map.mp hitem
        simpa [itemLine] using skill.tools_line tool htool

/-- The file has the lines that it was made of, and those of the body. -/
theorem splitOn_written {ending : List Char} (hending : IsLineEnd ending) :
    (skill.written ending).splitOn '\n' =
      (dashes ++ ending) :: (skill.fieldLines.map (· ++ ending) ++
        (dashes ++ ending) :: skill.body.splitOn '\n') := by
  have hno : '\n' ∉ ending := by
    rcases hending with rfl | rfl
    · decide
    · decide
  rw [written, splitOn_intercalate_concat]
  · simp
  · intro line hline
    obtain ⟨front, hfront, rfl⟩ := List.mem_map.mp hline
    rw [List.mem_cons, List.mem_append, List.mem_singleton] at hfront
    rw [List.mem_append, not_or]
    refine ⟨?_, hno⟩
    rcases hfront with rfl | hfront | rfl
    · decide
    · exact skill.fieldLines_line front hfront
    · decide

theorem fenced_written {ending : List Char} (hending : IsLineEnd ending) :
    fenced '\n' dashes.isPrefixOf (trimMarks (skill.written ending)) =
      some ⟨dashes ++ ending, skill.fieldLines.map (· ++ ending), dashes ++ ending,
        skill.body.splitOn '\n'⟩ := by
  have hmarks : trimMarks (skill.written ending) = skill.written ending := by
    rw [written, List.map_cons, List.cons_append,
      List.intercalate_cons_of_ne_nil (List.append_ne_nil_of_right_ne_nil _ (List.cons_ne_nil _ _))]
    rfl
  rw [hmarks, fenced_eq_some_iff]
  refine ⟨skill.splitOn_written hending, ?_, skill.fieldLines_not_dashes, ?_⟩
  · exact List.isPrefixOf_iff_prefix.mpr (List.prefix_append _ _)
  · exact List.isPrefixOf_iff_prefix.mpr (List.prefix_append _ _)

/-- What the file is split into. -/
theorem splitFrontmatter_written {ending : List Char} (hending : IsLineEnd ending) :
    splitFrontmatter (skill.written ending) =
      (skill.fields,
        (ending ++ '\n' :: skill.body).dropWhile fun c => decide (c = '\n')) := by
  have hfenced := skill.fenced_written hending
  have hdrop : (dashes ++ ending).drop dashes.length = ending := List.drop_left
  have hfields := (splitOn_fenced hfenced dashes.length).1
  rw [hdrop] at hfields
  have hblank : YamlState.init.step ending = .init := YamlState.init.step_lineEnd [] hending
  have hyaml : parseMinimalYaml (['\n'].intercalate
      (ending :: skill.fieldLines.map (· ++ ending))) =
        (skill.fieldLines.foldl YamlState.step .init).flush.map := by
    rw [parseMinimalYaml, YamlState.foldl_linesFrom _ List.not_mem_nil, List.nil_append, hfields,
      List.foldl_cons, hblank, List.foldl_map]
    simp only [YamlState.step_lineEnd _ _ hending]
  have hbody : ['\n'].intercalate (ending :: skill.body.splitOn '\n') =
      ending ++ '\n' :: skill.body := by
    rw [List.intercalate_cons_of_ne_nil (List.splitOn_ne_nil _ _), List.intercalate_splitOn,
      List.append_assoc, List.singleton_append]
  simp only [splitFrontmatter, cutFrontmatter_eq, hfenced, Option.map_some, hdrop, hyaml, hbody,
    flush_fieldLines]

theorem textField_name :
    textField skill.fields "name" =
      if (trim skill.name).isEmpty then none else some (clean skill.name) := by
  rw [textField, fields, lookup_setList, if_neg (by decide), lookup_setText, if_neg (by decide),
    lookup_setText, if_pos (by decide)]
  cases hblank : (trim skill.name).isEmpty with
  | true => rfl
  | false => rfl

/-- A description that is left out is empty. -/
theorem textField_description :
    (textField skill.fields "description").getD "" = clean skill.description := by
  rw [textField, fields, lookup_setList, if_neg (by decide), lookup_setText,
    if_pos (by decide)]
  cases hblank : (trim skill.description).isEmpty with
  | true =>
    rw [if_pos rfl, lookup_setText, if_neg (by decide), clean, List.isEmpty_iff.mp hblank]
    rfl
  | false => rfl

theorem textItems_tools : textItems skill.fields "allowed_tools" = listItems skill.tools := by
  have hrest : (setText (setText [] nameField skill.name) descriptionField
      skill.description).lookup "allowed_tools" = none := by
    rw [lookup_setText, if_neg (by decide), lookup_setText, if_neg (by decide)]
    rfl
  rw [textItems, fields, lookup_setList, if_pos rfl, hrest]
  cases hitems : listItems skill.tools with
  | nil => rfl
  | cons item rest => simp [List.filterMap_map]

/-- What is read of the file. -/
theorem parse_written (path : String) {ending : List Char} (hending : IsLineEnd ending) :
    parseSkillFile path (skill.written ending) =
      if (trim skill.name).isEmpty then .error (missingName path)
      else .ok ⟨clean skill.name, clean skill.description, String.ofList (trim skill.body),
        some path, listItems skill.tools⟩ := by
  have hname := skill.textField_name
  have hdescription := skill.textField_description
  have hitems := skill.textItems_tools
  have htrim : trim ((ending ++ '\n' :: skill.body).dropWhile fun c => decide (c = '\n')) =
      trim skill.body := by
    rw [trim, trimBy_dropWhile fun c hc => by rw [of_decide_eq_true hc]; rfl]
    have hsplit : ending ++ '\n' :: skill.body = (ending ++ ['\n']) ++ skill.body := by simp
    rw [hsplit, trimBy_append_left]
    · rfl
    · rcases hending with rfl | rfl
      · exact List.all_eq_true.mp rfl
      · exact List.all_eq_true.mp rfl
  simp only [parseSkillFile, skill.splitFrontmatter_written hending, hname, hdescription, hitems,
    htrim]
  cases hblank : (trim skill.name).isEmpty with
  | true => rfl
  | false => rfl

/-- What is read of a skill without quotes. -/
theorem parse_plain {skill : SkillText} (hplain : skill.Plain) (path : String)
    {ending : List Char} (hending : IsLineEnd ending) :
    parseSkillFile path (skill.written ending) =
      if (trim skill.name).isEmpty then .error (missingName path)
      else .ok (skill.asRead trim path) := by
  obtain ⟨hquotes, htools⟩ := hplain
  rw [values, List.forall_mem_cons, List.forall_mem_cons] at hquotes
  obtain ⟨hname, hdescription, hitems⟩ := hquotes
  have hlist : listItems skill.tools = skill.tools.map fun tool => String.ofList (trim tool) := by
    rw [listItems, List.takeWhile_eq_self_iff.mpr fun tool htool => by simp [htools tool htool]]
    exact List.map_congr_left fun tool htool => by rw [clean, hitems tool htool]
  rw [parse_written _ _ hending, clean, clean, hname, hdescription, hlist]
  rfl

theorem clean_eq_iff {value : List Char} :
    clean value = String.ofList value ↔ ∀ c, c ∈ value.head? ∨ c ∈ value.getLast? →
      Sse.isWhitespace c = false ∧ c ≠ '"' := by
  rw [clean, String.ofList_inj, unquote, trim, trimBy_comp_eq_self_iff, trimBy_eq_self_iff,
    trimBy_eq_self_iff, ← forall_and]
  refine forall_congr' fun c => ?_
  rw [← imp_and, decide_eq_false_iff_not]

theorem listItems_eq_iff {tools : List (List Char)} :
    listItems tools = tools.map String.ofList ↔
      ∀ tool ∈ tools, clean tool = String.ofList tool ∧ tool ≠ [] := by
  induction tools with
  | nil => exact iff_of_true rfl fun _ h => absurd h List.not_mem_nil
  | cons tool rest ih =>
    rw [List.forall_mem_cons, ← ih, listItems, List.takeWhile_cons, List.map_cons]
    cases hblank : (trim tool).isEmpty with
    | true =>
      refine iff_of_false (List.cons_ne_nil _ _).symm fun h => h.1.2 ?_
      have hclean := h.1.1
      rw [clean, List.isEmpty_iff.mp hblank, String.ofList_inj] at hclean
      exact hclean.symm
    | false =>
      have hne : tool ≠ [] := by
        rintro rfl
        cases hblank
      rw [if_pos Bool.not_false, List.map_cons, List.cons.injEq, and_iff_left hne]
      rfl

/-- The skill comes back as it was written exactly when it is readable. -/
theorem roundTrips_iff (path : String) {ending : List Char} (hending : IsLineEnd ending) :
    skill.RoundTrips path ending ↔ skill.Readable := by
  rw [RoundTrips, parse_written _ _ hending, Readable, values, List.forall_mem_cons,
    List.forall_mem_cons]
  simp only [← clean_eq_iff]
  cases hblank : (trim skill.name).isEmpty with
  | true =>
    refine iff_of_false (fun h => by cases h) fun h => h.2.1 ?_
    have hname := h.1.1
    rw [clean, List.isEmpty_iff.mp hblank, String.ofList_inj] at hname
    exact hname.symm
  | false =>
    have hne : skill.name ≠ [] := by
      intro h
      rw [h] at hblank
      cases hblank
    have hitems := @listItems_eq_iff skill.tools
    rw [if_neg Bool.false_ne_true, asRead, Except.ok.injEq, Skill.mk.injEq]
    simp only [id_eq, true_and, hitems, forall_and, ne_eq, hne, not_false_eq_true, and_assoc]

/-- The first line has a dash too many. -/
def longDashes : List Char := ['-', '-', '-', '-', '\n', 'n', ':', 'a', '\n', '-', '-', '-']

/-- A name with a blank in front. -/
def padded : SkillText :=
  ⟨[' ', 'a'], ['b'], [], [], by decide, by decide, by decide⟩

theorem padded_not_kept : ¬SplitAgrees longDashes ∧ ¬padded.RoundTrips "SKILL.md" [] := by
  constructor
  · rw [splitAgrees_iff]
    intro h
    have hopening := (h ⟨['-', '-', '-', '-'], [['n', ':', 'a']], dashes, []⟩ rfl).2.1
    revert hopening
    decide
  · rw [RoundTrips, parse_written _ _ (Or.inl rfl)]
    intro h
    cases h

/-- Files whose dashes are lines of their own are split as documented, and a skill without quotes
comes back but for the blanks around its values. -/
theorem documentedFormat_kept :
    (∀ raw, Delimited raw → SplitAgrees raw) ∧
      ∀ (skill : SkillText) (path : String) (ending : List Char), skill.Plain → IsLineEnd ending →
        parseSkillFile path (skill.written ending) =
          if (trim skill.name).isEmpty then .error (missingName path)
          else .ok (skill.asRead trim path) :=
  ⟨fun raw => (splitAgrees_iff raw).mpr, fun _ path _ hplain => parse_plain hplain path⟩

def review : SkillText :=
  ⟨['a', ' '], ['b', ':'], [['c'], ['d', '#']], ['-', '-', '-', '\n'], by decide, by decide,
    by decide⟩

theorem documentedFormat_review :
    SplitAgrees (review.written ['\r']) ∧
      parseSkillFile "SKILL.md" (review.written ['\r']) =
        .ok ⟨"a", "b:", "---", some "SKILL.md", ["c", "d#"]⟩ := by
  have hdelimited : Delimited (review.written ['\r']) := by
    intro f hf
    rw [fenced_written _ (Or.inr rfl)] at hf
    obtain rfl := Option.some.inj hf
    exact ⟨rfl, rfl, rfl⟩
  exact ⟨documentedFormat_kept.1 _ hdelimited,
    documentedFormat_kept.2 review "SKILL.md" _ ⟨by decide, by decide⟩ (Or.inr rfl)⟩

end SkillText

end SkillFile

end Behest
