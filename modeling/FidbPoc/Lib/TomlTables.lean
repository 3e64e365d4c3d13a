import FidbPoc.Lib.Dict
import FidbPoc.Lib.Toml
import Mathlib.Data.List.TakeWhile
import Mathlib.Data.Nat.Digits.Defs

namespace FidbPoc.Lib.TomlTables

open FidbPoc.Lib.Toml

section Values

def encodeRawChar (c : CodePoint) : Text :=
  match shortEscape c with
  | some letter => [92, letter]
  | none => if c.val < 32 then escapeUnit c.val else [c]

/-- `json.dumps(value, ensure_ascii=False)` of a string. -/
def dumpsRaw (value : Text) : Text := 34 :: (value.flatMap encodeRawChar ++ [34])

def natText (n : Nat) : Text := (Nat.toDigits 10 n).map ofChar

def toChar (c : CodePoint) : Char := Char.ofNat c.val

/-- The number of a decimal text without sign, underscores and leading zeros. -/
def parseNat (digits : Text) : Option Nat :=
  let n := Nat.ofDigitChars 10 (digits.map toChar) 0
  if digits = natText n then some n else none

def IsNumberChar (c : CodePoint) : Prop :=
  48 ≤ c.val ∧ c.val ≤ 57 ∨ c = 43 ∨ c = 45 ∨ c = 46 ∨ c = 69 ∨ c = 95 ∨ c = 101

instance (c : CodePoint) : Decidable (IsNumberChar c) := inferInstanceAs (Decidable (_ ∨ _))

/-- Floats with the text that they are written as, from which they are read back. -/
structure FloatFormat (ν : Type) where
  repr : ν → Text
  parse : Text → Option ν
  parse_repr : ∀ x, parse (repr x) = some x
  repr_chars : ∀ x, ∀ c ∈ repr x, IsNumberChar c
  repr_float : ∀ x, ∃ c ∈ repr x, c = 46 ∨ c = 101

inductive Value (ν : Type)
  | str (value : Text)
  | int (n : Nat)
  | float (x : ν)
  | strings (values : List Text)

/-- What a part of a document is read as; `other` is what this reader leaves to the rest of the language. -/
inductive Parsed (α : Type)
  | ok (value : α)
  | invalid
  | other

def Parsed.map {α β : Type} (f : α → β) : Parsed α → Parsed β
  | .ok value => .ok (f value)
  | .invalid => .invalid
  | .other => .other

def parseString (src : Text) : Parsed (Text × Text) :=
  if src.take 3 = [34, 34, 34] then .other
  else if src.head? = some 34 then
    match parseBasicStr src.tail with
    | none => .invalid
    | some parsed => .ok parsed
  else .other

/-- The strings of an array behind its opening bracket, one of them at least. -/
def parseStrings : Nat → Text → Parsed (List Text × Text)
  | 0, _ => .other
  | fuel + 1, src =>
    match parseString (skipBlanks src) with
    | .ok (value, rest) =>
      match skipBlanks rest with
      | c :: rest =>
        if c = 44 then (parseStrings fuel rest).map fun (values, rest) => (value :: values, rest)
        else if c = 93 then .ok ([value], rest)
        else .other
      | [] => .other
    | .invalid => .invalid
    | .other => .other

variable {ν : Type} (floats : FloatFormat ν)

def parseNumber (src : Text) : Parsed (Value ν × Text) :=
  let number := src.takeWhile fun c => IsNumberChar c
  let rest := src.dropWhile fun c => IsNumberChar c
  match parseNat number with
  | some n => .ok (.int n, rest)
  | none =>
    match floats.parse number with
    | some x => .ok (.float x, rest)
    | none => .other

def parseValue (src : Text) : Parsed (Value ν × Text) :=
  match src with
  | [] => .other
  | c :: rest =>
    if c = 34 then (parseString src).map fun (value, rest) => (.str value, rest)
    else if c = 91 then
      if (skipBlanks rest).head? = some 93 then .ok (.strings [], (skipBlanks rest).tail)
      else (parseStrings rest.length rest).map fun (values, rest) => (.strings values, rest)
    else parseNumber floats src

def renderValue : Value ν → Text
  | .str value => dumpsRaw value
  | .int n => natText n
  | .float x => floats.repr x
  | .strings values => 91 :: (List.intercalate [44, 32] (values.map dumpsRaw) ++ [93])

end Values

section Documents

variable {ν : Type} (floats : FloatFormat ν)

inductive Statement (ν : Type)
  | blank
  | pair (key : Text) (value : Value ν)
  | table (key : Text)
  | element (key : Text)
  | invalid
  | other

def parsePair (key src : Text) : Statement ν :=
  match parseValue floats src with
  | .ok (value, rest) => if skipBlanks rest = [] then .pair key value else .other
  | .invalid => .invalid
  | .other => .other

/-- The text of a comment holds no control character. -/
def IsLegal (src : Text) : Prop := ∀ c ∈ src, ¬IsIllegal c

instance (src : Text) : Decidable (IsLegal src) := List.decidableBAll (fun c : CodePoint => ¬IsIllegal c) src

def parseStatement (line : Text) : Statement ν :=
  let src := skipBlanks line
  if 13 ∈ line then .other
  else if src = [] then .blank
  else if src.head? = some 35 then if IsLegal src then .blank else .other
  else if src.take 2 = [91, 91] then
    let key := (src.drop 2).takeWhile fun c => IsBareKey c
    if key ≠ [] ∧ (src.drop 2).dropWhile (fun c => IsBareKey c) = [93, 93] then .element key else .other
  else if src.head? = some 91 then
    let key := src.tail.takeWhile fun c => IsBareKey c
    if key ≠ [] ∧ src.tail.dropWhile (fun c => IsBareKey c) = [93] then .table key else .other
  else
    let key := src.takeWhile fun c => IsBareKey c
    let rest := skipBlanks (src.dropWhile fun c => IsBareKey c)
    if key ≠ [] ∧ rest.head? = some 61 then parsePair floats key (skipBlanks rest.tail) else .other

inductive Header
  | root
  | table (key : Text)
  | element (key : Text)
  deriving DecidableEq

abbrev Fields (ν : Type) := List (Text × Value ν)

abbrev Section (ν : Type) := Header × Fields ν

def sections (header : Header) (fields : Fields ν) : List Text → Parsed (List (Section ν))
  | [] => .ok [(header, fields)]
  | line :: lines =>
    match parseStatement floats line with
    | .blank => sections header fields lines
    | .pair key value =>
      if key ∈ fields.map Prod.fst then .invalid else sections header (fields ++ [(key, value)]) lines
    | .table key => (sections (.table key) [] lines).map ((header, fields) :: ·)
    | .element key => (sections (.element key) [] lines).map ((header, fields) :: ·)
    | .invalid => .invalid
    | .other => .other

structure Document (ν : Type) where
  root : Fields ν
  tables : Dict Text (Fields ν)
  arrays : Dict Text (List (Fields ν))

def Document.empty : Document ν := ⟨[], .empty, .empty⟩

/-- The elements of an array of tables, none if it is not there. -/
def Document.elements (document : Document ν) (key : Text) : List (Fields ν) := (document.arrays.get? key).getD []

def addSection (document : Document ν) : Section ν → Option (Document ν)
  | (.root, fields) => some { document with root := document.root ++ fields }
  | (.table key, fields) =>
    if key ∈ document.root.map Prod.fst ∨ (document.tables.get? key).isSome ∨ (document.arrays.get? key).isSome then none
    else some { document with tables := document.tables.set key fields }
  | (.element key, fields) =>
    if key ∈ document.root.map Prod.fst ∨ (document.tables.get? key).isSome then none
    else some { document with arrays := document.arrays.set key (document.elements key ++ [fields]) }

/-- `tomllib.loads(document)`, where `loadsOther` is what it does with the rest of the language. -/
def loads (loadsOther : Text → Option (Document ν)) (document : Text) : Option (Document ν) :=
  match sections floats .root [] (document.splitOn 10) with
  | .ok rows => rows.foldlM addSection .empty
  | .invalid => none
  | .other => loadsOther document

def renderPair (pair : Text × Value ν) : Text := pair.1 ++ [32, 61, 32] ++ renderValue floats pair.2

def renderHeader : Header → List Text
  | .root => []
  | .table key => [[], 91 :: (key ++ [93])]
  | .element key => [[], 91 :: 91 :: (key ++ [93, 93])]

def renderSection (row : Section ν) : List Text := renderHeader row.1 ++ row.2.map (renderPair floats)

/-- `"\n".join(lines) + "\n"` -/
def joinLines (lines : List Text) : Text := List.intercalate [10] (lines ++ [[]])

def renderDocument (comment : Text) (rows : List (Section ν)) : Text :=
  joinLines (comment :: rows.flatMap (renderSection floats))

end Documents

section Strings

variable {c : CodePoint} {value rest : Text}

/-- A text that a basic string holds as it is written: every character but DEL is escaped or may stand in one. -/
def Readable (value : Text) : Prop := ∀ c ∈ value, c.val ≠ 127

instance (value : Text) : Decidable (Readable value) := List.decidableBAll (fun c : CodePoint => c.val ≠ 127) value

theorem readable_cons : Readable (c :: value) ↔ c.val ≠ 127 ∧ Readable value := List.forall_mem_cons

theorem encodeRawChar_eq (h : shortEscape c ≠ none ∨ c.val < 32) : encodeRawChar c = encodeChar c := by
  unfold encodeRawChar encodeChar
  cases hshort : shortEscape c with
  | some letter => rfl
  | none =>
    have hlt := h.resolve_left fun hne => hne hshort
    have hprintable : ¬(32 ≤ c.val ∧ c.val ≤ 126) := by omega
    have hbasic : c.val < 0x10000 := by omega
    simp only [if_pos hlt, if_neg hprintable, if_pos hbasic]

theorem parseBasicStr_encodeRawChar (c : CodePoint) (rest : Text) :
    parseBasicStr (encodeRawChar c ++ rest) = if c.val ≠ 127 then (parseBasicStr rest).map (prepend c) else none := by
  by_cases hescaped : shortEscape c ≠ none ∨ c.val < 32
  · have hplain : IsPlain c ∧ c.val ≠ 127 := by
      obtain hshort | hlt := hescaped
      · obtain ⟨letter, hletter⟩ := Option.ne_none_iff_exists'.mp hshort
        refine ⟨(shortEscape_eq_some hletter).2.2.2, fun h127 => ?_⟩
        have hc : c = 127 := Fin.ext h127
        have hnone : shortEscape 127 = none := by decide
        rw [hc, hnone] at hletter
        cases hletter
      · exact ⟨⟨by unfold IsSurrogate; omega, by omega⟩, by omega⟩
    rw [encodeRawChar_eq hescaped, parseBasicStr_encodeChar, if_pos hplain.1, if_pos hplain.2]
  · rw [not_or, not_not, not_lt] at hescaped
    obtain ⟨hshort, hle⟩ := hescaped
    obtain ⟨hquote, hescape⟩ := shortEscape_eq_none hshort
    have hraw : encodeRawChar c = [c] := by simp [encodeRawChar, hshort, not_lt.mpr hle]
    have hillegal : IsIllegal c ↔ c.val = 127 := by
      unfold IsIllegal
      omega
    rw [hraw, List.singleton_append, parseBasicStr.eq_def]
    by_cases h127 : c.val = 127
    · simp [hquote, hescape, hillegal, h127]
    · simp [hquote, hescape, hillegal, h127]

theorem parseBasicStr_encodedRaw (value rest : Text) : parseBasicStr (value.flatMap encodeRawChar ++ 34 :: rest) =
    if Readable value then some (value, rest) else none := by
  induction value with
  | nil =>
    have hempty : Readable [] := fun _ h => by cases h
    rw [List.flatMap_nil, List.nil_append, parseBasicStr.eq_def, if_pos hempty]
    exact if_pos rfl
  | cons c value ih =>
    rw [List.flatMap_cons, List.append_assoc, parseBasicStr_encodeRawChar, ih]
    by_cases hc : c.val ≠ 127
    · by_cases hvalue : Readable value
      · rw [if_pos hc, if_pos hvalue, if_pos (readable_cons.mpr ⟨hc, hvalue⟩)]
        rfl
      · rw [if_pos hc, if_neg hvalue, if_neg fun h => hvalue (readable_cons.mp h).2]
        rfl
    · rw [if_neg hc, if_neg fun h => hc (readable_cons.mp h).1]

theorem encodeRawChar_head (c : CodePoint) : ∃ x xs, encodeRawChar c = x :: xs ∧ x ≠ 34 := by
  by_cases hescaped : shortEscape c ≠ none ∨ c.val < 32
  · rw [encodeRawChar_eq hescaped]
    exact encodeChar_head c
  · rw [not_or, not_not, not_lt] at hescaped
    refine ⟨c, [], by simp [encodeRawChar, hescaped.1, not_lt.mpr hescaped.2], (shortEscape_eq_none hescaped.1).1⟩

/-- A string that JSON writes without escaping what it need not is read back, unless DEL is in it. -/
theorem parseString_dumpsRaw (value : Text) (h : rest.head? ≠ some 34) :
    parseString (dumpsRaw value ++ rest) = if Readable value then .ok (value, rest) else .invalid := by
  have hmultiline : (dumpsRaw value ++ rest).take 3 ≠ [34, 34, 34] := by
    cases value with
    | nil =>
      cases rest with
      | nil => simp [dumpsRaw]
      | cons x rest =>
        have hx : x ≠ 34 := fun hx => h (by rw [hx]; rfl)
        simp [dumpsRaw, hx]
    | cons c value =>
      obtain ⟨x, xs, hx, hne⟩ := encodeRawChar_head c
      rw [dumpsRaw, List.flatMap_cons, hx]
      simp [hne]
  have htail : (dumpsRaw value ++ rest).tail = value.flatMap encodeRawChar ++ 34 :: rest := by simp [dumpsRaw]
  have hhead : (dumpsRaw value ++ rest).head? = some 34 := rfl
  rw [parseString, if_neg hmultiline, if_pos hhead, htail, parseBasicStr_encodedRaw]
  by_cases hvalue : Readable value
  · simp only [if_pos hvalue]
  · simp only [if_neg hvalue]

theorem encodeRawChar_no_break (c : CodePoint) : ∀ x ∈ encodeRawChar c, x ≠ 10 ∧ x ≠ 13 := by
  by_cases hescaped : shortEscape c ≠ none ∨ c.val < 32
  · intro x hx
    rw [encodeRawChar_eq hescaped] at hx
    have hprintable := encodeChar_printable c x hx
    refine ⟨?_, ?_⟩
    all_goals
      rintro rfl
      exact absurd hprintable (by decide)
  · rw [not_or, not_not, not_lt] at hescaped
    intro x hx
    have hraw : encodeRawChar c = [c] := by simp [encodeRawChar, hescaped.1, not_lt.mpr hescaped.2]
    rw [hraw, List.mem_singleton] at hx
    have hle := hescaped.2
    refine ⟨?_, ?_⟩
    all_goals
      rintro rfl
      rw [← hx] at hle
      exact absurd hle (by decide)

theorem dumpsRaw_no_break (value : Text) : ∀ x ∈ dumpsRaw value, x ≠ 10 ∧ x ≠ 13 := by
  intro x hx
  rcases List.mem_cons.mp hx with rfl | hx
  · decide
  rcases List.mem_append.mp hx with hx | hx
  · obtain ⟨c, -, hc⟩ := List.mem_flatMap.mp hx
    exact encodeRawChar_no_break c x hc
  · rw [List.mem_singleton.mp hx]
    decide

theorem mem_intercalate {separator : Text} {parts : List Text} (h : c ∈ List.intercalate separator parts) :
    c ∈ separator ∨ ∃ part ∈ parts, c ∈ part := by
  induction parts with
  | nil => cases h
  | cons part parts ih =>
    cases parts with
    | nil =>
      rw [List.intercalate_singleton] at h
      exact .inr ⟨part, List.mem_cons_self, h⟩
    | cons next parts =>
      rw [List.intercalate_cons_cons] at h
      obtain h | h := List.mem_append.mp h
      · obtain h | h := List.mem_append.mp h
        · exact .inr ⟨part, List.mem_cons_self, h⟩
        · exact .inl h
      · obtain h | ⟨other, hother, h⟩ := ih h
        · exact .inl h
        · exact .inr ⟨other, List.mem_cons_of_mem part hother, h⟩

end Strings

section Arrays

variable {values : List Text} {rest : Text}

theorem skipBlanks_dumpsRaw (value rest : Text) : skipBlanks (dumpsRaw value ++ rest) = dumpsRaw value ++ rest :=
  skipBlanks_cons (by decide) _

theorem parseStrings_blank (fuel : Nat) (src : Text) : parseStrings fuel (32 :: src) = parseStrings fuel src := by
  cases fuel with
  | zero => rfl
  | succ fuel => rfl

theorem head_comma (rest : Text) : (44 :: rest : Text).head? ≠ some 34 := by
  rw [List.head?_cons]
  decide

theorem head_bracket (rest : Text) : (93 :: rest : Text).head? ≠ some 34 := by
  rw [List.head?_cons]
  decide

/-- One string before the closing bracket. -/
theorem parseStrings_last (value rest : Text) (fuel : Nat) : parseStrings (fuel + 1) (dumpsRaw value ++ 93 :: rest) =
    if Readable value then .ok ([value], rest) else .invalid := by
  have hclose : skipBlanks (93 :: rest) = 93 :: rest := skipBlanks_cons (by decide) _
  have hcomma : ¬(93 : CodePoint) = 44 := by decide
  have hstring := parseString_dumpsRaw value (head_bracket rest)
  by_cases hvalue : Readable value
  · rw [if_pos hvalue] at hstring ⊢
    simp only [parseStrings, skipBlanks_dumpsRaw, hstring, hclose, if_neg hcomma, if_true]
  · rw [if_neg hvalue] at hstring ⊢
    simp only [parseStrings, skipBlanks_dumpsRaw, hstring]

/-- One string before a comma and the rest of the strings. -/
theorem parseStrings_next (value rest : Text) (fuel : Nat) : parseStrings (fuel + 1) (dumpsRaw value ++ 44 :: 32 :: rest) =
    if Readable value then (parseStrings fuel rest).map fun (values, rest) => (value :: values, rest) else .invalid := by
  have hcomma : skipBlanks (44 :: 32 :: rest) = 44 :: 32 :: rest := skipBlanks_cons (by decide) _
  have hstring := parseString_dumpsRaw value (head_comma (32 :: rest))
  by_cases hvalue : Readable value
  · rw [if_pos hvalue] at hstring ⊢
    simp only [parseStrings, skipBlanks_dumpsRaw, hstring, hcomma, if_true, parseStrings_blank]
  · rw [if_neg hvalue] at hstring ⊢
    simp only [parseStrings, skipBlanks_dumpsRaw, hstring]

theorem parseStrings_rendered (value : Text) (values : List Text) (rest : Text) {fuel : Nat} (hfuel : values.length < fuel) :
    parseStrings fuel (List.intercalate [44, 32] ((value :: values).map dumpsRaw) ++ 93 :: rest) =
      if ∀ v ∈ value :: values, Readable v then .ok (value :: values, rest) else .invalid := by
  induction values generalizing value fuel with
  | nil =>
    obtain ⟨fuel, rfl⟩ := Nat.exists_eq_succ_of_ne_zero (Nat.ne_of_gt hfuel)
    rw [List.map_singleton, List.intercalate_singleton, parseStrings_last]
    exact if_congr List.forall_mem_singleton.symm rfl rfl
  | cons next values ih =>
    obtain ⟨fuel, rfl⟩ := Nat.exists_eq_succ_of_ne_zero (Nat.ne_of_gt (Nat.zero_lt_of_lt hfuel))
    have hrest := @ih next fuel (by simpa using hfuel)
    have hsplit : List.intercalate [44, 32] ((value :: next :: values).map dumpsRaw) ++ 93 :: rest =
        dumpsRaw value ++ 44 :: 32 :: (List.intercalate [44, 32] ((next :: values).map dumpsRaw) ++ 93 :: rest) := by
      simp only [List.map_cons, List.intercalate_cons_cons, List.append_assoc, List.cons_append, List.nil_append]
    rw [hsplit, parseStrings_next, hrest]
    by_cases hvalue : Readable value
    · by_cases hvalues : ∀ v ∈ next :: values, Readable v
      · rw [if_pos hvalue, if_pos hvalues, if_pos (List.forall_mem_cons.mpr ⟨hvalue, hvalues⟩)]
        rfl
      · rw [if_pos hvalue, if_neg hvalues, if_neg fun h => hvalues (List.forall_mem_cons.mp h).2]
        rfl
    · rw [if_neg hvalue, if_neg fun h => hvalue (List.forall_mem_cons.mp h).1]

end Arrays

section Numbers

variable {ν : Type} {floats : FloatFormat ν} {n : Nat} {src : Text}

theorem ofChar_val (c : Char) : (ofChar c).val = c.toNat := by
  have hlt : c.toNat < 0x110000 := by
    obtain h | ⟨-, h⟩ := c.valid
    · exact Nat.lt_trans h (by decide)
    · exact h
  exact Nat.mod_eq_of_lt hlt

theorem toChar_ofChar (c : Char) : toChar (ofChar c) = c := by
  rw [toChar, ofChar_val, Char.ofNat_toNat]

theorem parseNat_natText (n : Nat) : parseNat (natText n) = some n := by
  have hdigits : (natText n).map toChar = Nat.toDigits 10 n := by
    rw [natText, List.map_map]
    exact (List.map_congr_left fun c _ => toChar_ofChar c).trans (List.map_id _)
  rw [parseNat, hdigits, Nat.ofDigitChars_ten_toDigits, if_pos rfl]

theorem natText_digits : ∀ c ∈ natText n, 48 ≤ c.val ∧ c.val ≤ 57 := by
  intro c hc
  obtain ⟨digit, hdigit, rfl⟩ := List.mem_map.mp hc
  have hisDigit := Nat.isDigit_of_mem_toDigits (by decide) (by decide) hdigit
  rw [ofChar_val]
  simpa [Char.isDigit, UInt32.le_iff_toNat_le] using hisDigit

theorem natText_ne_nil : natText n ≠ [] := by
  simp [natText, Nat.toDigits_ne_nil]

theorem parseNat_repr (x : ν) : parseNat (floats.repr x) = none := by
  obtain ⟨c, hc, hpoint⟩ := floats.repr_float x
  refine if_neg fun heq => ?_
  rw [heq] at hc
  have hdigit := natText_digits c hc
  obtain rfl | rfl := hpoint
  · exact absurd hdigit (by decide)
  · exact absurd hdigit (by decide)

theorem isNumberChar_not {c : CodePoint} (h : IsNumberChar c) : c ≠ 34 ∧ c ≠ 91 ∧ c ≠ 10 ∧ c ≠ 13 := by
  refine ⟨?_, ?_, ?_, ?_⟩
  all_goals
    rintro rfl
    exact absurd h (by decide)

/-- A text of the characters of numbers is read as a number to its end. -/
theorem parseValue_number (hne : src ≠ []) (hchars : ∀ c ∈ src, IsNumberChar c) : parseValue floats src =
    match parseNat src with
    | some n => .ok (.int n, [])
    | none =>
      match floats.parse src with
      | some x => .ok (.float x, [])
      | none => .other := by
  have htake : src.takeWhile (fun c => IsNumberChar c) = src := by
    rw [List.takeWhile_eq_self_iff]
    exact fun c hc => decide_eq_true (hchars c hc)
  have hdrop : src.dropWhile (fun c => IsNumberChar c) = [] := by
    rw [List.dropWhile_eq_nil_iff]
    exact fun c hc => decide_eq_true (hchars c hc)
  obtain ⟨c, rest, rfl⟩ := List.exists_cons_of_ne_nil hne
  obtain ⟨hquote, hbracket, -⟩ := isNumberChar_not (hchars c List.mem_cons_self)
  simp only [parseValue, if_neg hquote, if_neg hbracket, parseNumber, htake, hdrop]

end Numbers

section Pairs

variable {ν : Type} {floats : FloatFormat ν} {key : Text} {value : Value ν}

def Value.Readable : Value ν → Prop
  | .str value => TomlTables.Readable value
  | .strings values => ∀ value ∈ values, TomlTables.Readable value
  | _ => True

instance (value : Value ν) : Decidable value.Readable :=
  match value with
  | .str value => inferInstanceAs (Decidable (TomlTables.Readable value))
  | .strings values => inferInstanceAs (Decidable (∀ value ∈ values, TomlTables.Readable value))
  | .int _ => isTrue trivial
  | .float _ => isTrue trivial

theorem length_intercalate (values : List Text) :
    values.length ≤ (List.intercalate [44, 32] (values.map dumpsRaw)).length := by
  induction values with
  | nil => exact Nat.zero_le _
  | cons value values ih =>
    cases values with
    | nil => simp [dumpsRaw]
    | cons next values =>
      rw [List.map_cons, List.map_cons, List.intercalate_cons_cons]
      simp only [List.length_append, List.length_cons, List.map_cons] at ih ⊢
      omega

theorem parseValue_renderValue (value : Value ν) :
    parseValue floats (renderValue floats value) = if value.Readable then .ok (value, []) else .invalid := by
  cases value with
  | str value =>
    have hstring := @parseString_dumpsRaw [] value (by simp)
    rw [List.append_nil] at hstring
    have hvalue : parseValue floats (renderValue floats (.str value)) =
        (parseString (dumpsRaw value)).map fun (value, rest) => (.str value, rest) := rfl
    rw [hvalue, hstring]
    by_cases hreadable : TomlTables.Readable value
    · rw [if_pos hreadable]
      exact (if_pos hreadable).symm
    · rw [if_neg hreadable]
      exact (if_neg hreadable).symm
  | int n =>
    have hchars : ∀ c ∈ natText n, IsNumberChar c := fun c hc => .inl (natText_digits c hc)
    rw [renderValue, parseValue_number natText_ne_nil hchars, parseNat_natText]
    exact (if_pos trivial).symm
  | float x =>
    have hne : floats.repr x ≠ [] := by
      obtain ⟨c, hc, -⟩ := floats.repr_float x
      exact List.ne_nil_of_mem hc
    rw [renderValue, parseValue_number hne (floats.repr_chars x), parseNat_repr, floats.parse_repr]
    exact (if_pos trivial).symm
  | strings values =>
    cases values with
    | nil => rfl
    | cons value values =>
      have hopen : parseValue floats (renderValue floats (.strings (value :: values))) =
          (parseStrings (List.intercalate [44, 32] ((value :: values).map dumpsRaw) ++ [93]).length
            (List.intercalate [44, 32] ((value :: values).map dumpsRaw) ++ [93])).map
              fun (values, rest) => (.strings values, rest) := by
        have hsplit : ∃ rest, List.intercalate [44, 32] ((value :: values).map dumpsRaw) ++ [93] = dumpsRaw value ++ rest := by
          cases values with
          | nil => exact ⟨[93], by rw [List.map_singleton, List.intercalate_singleton]⟩
          | cons next values =>
            refine ⟨[44, 32] ++ List.intercalate [44, 32] ((next :: values).map dumpsRaw) ++ [93], ?_⟩
            simp only [List.map_cons, List.intercalate_cons_cons, List.append_assoc]
        obtain ⟨rest, hrest⟩ := hsplit
        have hhead : ¬(skipBlanks (List.intercalate [44, 32] ((value :: values).map dumpsRaw) ++ [93])).head? = some 93 := by
          rw [hrest, skipBlanks_dumpsRaw]
          exact fun h => absurd (Option.some.inj h) (by decide)
        exact if_neg hhead
      have hfuel : values.length < (List.intercalate [44, 32] ((value :: values).map dumpsRaw) ++ [93]).length := by
        have hle := length_intercalate (value :: values)
        simp only [List.length_append, List.length_cons, List.length_nil] at hle ⊢
        omega
      rw [hopen, parseStrings_rendered value values [] hfuel]
      by_cases hreadable : ∀ v ∈ value :: values, TomlTables.Readable v
      · rw [if_pos hreadable]
        exact (if_pos hreadable).symm
      · rw [if_neg hreadable]
        exact (if_neg hreadable).symm

theorem renderValue_no_break (value : Value ν) : ∀ x ∈ renderValue floats value, x ≠ 10 ∧ x ≠ 13 := by
  cases value with
  | str value => exact dumpsRaw_no_break value
  | int n => exact fun x hx => (isNumberChar_not (.inl (natText_digits x hx))).2.2
  | float y => exact fun x hx => (isNumberChar_not (floats.repr_chars y x hx)).2.2
  | strings values =>
    have hseparator : ∀ x ∈ ([44, 32] : Text), x ≠ 10 ∧ x ≠ 13 := by
      rw [List.forall_mem_cons, List.forall_mem_singleton]
      decide
    have hvalues : ∀ x ∈ List.intercalate [44, 32] (values.map dumpsRaw), x ≠ 10 ∧ x ≠ 13 := by
      intro x hx
      obtain hx | ⟨part, hpart, hx⟩ := mem_intercalate hx
      · exact hseparator x hx
      · obtain ⟨value, -, rfl⟩ := List.mem_map.mp hpart
        exact dumpsRaw_no_break value x hx
    intro x hx
    rcases List.mem_cons.mp hx with rfl | hx
    · decide
    · rcases List.mem_append.mp hx with hx | hx
      · exact hvalues x hx
      · rw [List.mem_singleton.mp hx]
        decide

theorem bare_no_break (hkey : IsBare key) : ∀ x ∈ key, x ≠ 10 ∧ x ≠ 13 :=
  fun x hx => ((hkey.2 x hx).not_blank).2.2

theorem renderPair_no_break (hkey : IsBare key) (value : Value ν) : ∀ x ∈ renderPair floats (key, value), x ≠ 10 ∧ x ≠ 13 := by
  intro x hx
  rcases List.mem_append.mp hx with hx | hx
  · rcases List.mem_append.mp hx with hx | hx
    · exact bare_no_break hkey x hx
    · have hequals : ∀ x ∈ ([32, 61, 32] : Text), x ≠ 10 ∧ x ≠ 13 := by
        rw [List.forall_mem_cons, List.forall_mem_cons, List.forall_mem_singleton]
        decide
      exact hequals x hx
  · exact renderValue_no_break value x hx

theorem renderValue_head (value : Value ν) : ∃ x xs, renderValue floats value = x :: xs ∧ x ≠ 32 ∧ x ≠ 9 := by
  have hnumber : ∀ src : Text, src ≠ [] → (∀ c ∈ src, IsNumberChar c) → ∃ x xs, src = x :: xs ∧ x ≠ 32 ∧ x ≠ 9 := by
    intro src hne hchars
    obtain ⟨x, xs, rfl⟩ := List.exists_cons_of_ne_nil hne
    have hx := hchars x List.mem_cons_self
    refine ⟨x, xs, rfl, ?_, ?_⟩
    all_goals
      rintro rfl
      exact absurd hx (by decide)
  cases value with
  | str value => exact ⟨34, _, rfl, by decide⟩
  | int n => exact hnumber _ natText_ne_nil fun c hc => .inl (natText_digits c hc)
  | float y =>
    obtain ⟨c, hc, -⟩ := floats.repr_float y
    exact hnumber _ (List.ne_nil_of_mem hc) (floats.repr_chars y)
  | strings values => exact ⟨91, _, rfl, by decide⟩

theorem isBareKey_not_mark {c : CodePoint} (h : IsBareKey c) : c ≠ 35 ∧ c ≠ 91 := by
  refine ⟨?_, ?_⟩
  all_goals
    rintro rfl
    exact absurd h (by decide)

/-- A rendered pair is read as that pair, unless DEL is in its value. -/
theorem parseStatement_renderPair (hkey : IsBare key) (value : Value ν) :
    parseStatement floats (renderPair floats (key, value)) = if value.Readable then .pair key value else .invalid := by
  have hbreak : 13 ∉ renderPair floats (key, value) := fun h => (renderPair_no_break hkey value 13 h).2 rfl
  have hline : renderPair floats (key, value) = key ++ 32 :: 61 :: 32 :: renderValue floats value := by simp [renderPair]
  obtain ⟨c, rest, hc⟩ := List.exists_cons_of_ne_nil hkey.1
  have hbare := hkey.2 c (hc ▸ List.mem_cons_self)
  have hblanks : skipBlanks (renderPair floats (key, value)) = renderPair floats (key, value) := by
    rw [hline, hc]
    exact skipBlanks_cons ⟨hbare.not_blank.1, hbare.not_blank.2.1⟩ _
  obtain ⟨htake, hdrop⟩ := takeWhile_bare hkey (61 :: 32 :: renderValue floats value)
  have hequals : skipBlanks (32 :: 61 :: 32 :: renderValue floats value) = 61 :: 32 :: renderValue floats value := rfl
  have hvalue : skipBlanks (32 :: renderValue floats value) = renderValue floats value := by
    obtain ⟨x, xs, hx, hne⟩ := @renderValue_head ν floats value
    rw [hx]
    exact skipBlanks_cons hne xs
  have hne : renderPair floats (key, value) ≠ [] := by simp [renderPair]
  have hhead : (renderPair floats (key, value)).head? = some c := by
    rw [hline, hc]
    rfl
  have hcomment : ¬(renderPair floats (key, value)).head? = some 35 := by
    rw [hhead]
    exact fun h => (isBareKey_not_mark hbare).1 (Option.some.inj h)
  have htable : ¬(renderPair floats (key, value)).head? = some 91 := by
    rw [hhead]
    exact fun h => (isBareKey_not_mark hbare).2 (Option.some.inj h)
  have helement : ¬(renderPair floats (key, value)).take 2 = [91, 91] := by
    intro h
    rw [hline, hc] at h
    exact (isBareKey_not_mark hbare).2 (List.cons.inj h).1
  rw [parseStatement, if_neg hbreak, hblanks, if_neg hne, if_neg hcomment, if_neg helement, if_neg htable, hline, htake, hdrop,
    hequals, if_pos ⟨hkey.1, rfl⟩]
  have hparsed : parsePair floats key (renderValue floats value) =
      if value.Readable then .pair key value else .invalid := by
    rw [parsePair, parseValue_renderValue]
    by_cases hreadable : value.Readable
    · simp only [if_pos hreadable]
      exact if_pos rfl
    · simp only [if_neg hreadable]
  exact (congrArg (parsePair floats key) hvalue).trans hparsed

end Pairs

section Headers

variable {ν : Type} {floats : FloatFormat ν} {key : Text}

theorem takeWhile_bracket (hkey : IsBare key) (src : Text) :
    (key ++ 93 :: src).takeWhile (fun c => IsBareKey c) = key ∧
      (key ++ 93 :: src).dropWhile (fun c => IsBareKey c) = 93 :: src := by
  have hall : ∀ c ∈ key, decide (IsBareKey c) = true := fun c hc => decide_eq_true (hkey.2 c hc)
  have hbracket : decide (IsBareKey 93) = false := by decide
  constructor
  · rw [List.takeWhile_append_of_pos hall, List.takeWhile_cons, hbracket]
    simp
  · rw [List.dropWhile_append_of_pos hall, List.dropWhile_cons, hbracket]
    simp

theorem parseStatement_blank : parseStatement floats [] = .blank := rfl

theorem parseStatement_table (hkey : IsBare key) : parseStatement floats (91 :: (key ++ [93])) = .table key := by
  have hbreak : 13 ∉ (91 :: (key ++ [93]) : Text) := by
    simp only [List.mem_cons, List.mem_append, List.not_mem_nil, or_false, not_or]
    exact ⟨by decide, fun h => (bare_no_break hkey 13 h).2 rfl, by decide⟩
  have hblanks : skipBlanks (91 :: (key ++ [93])) = 91 :: (key ++ [93]) := skipBlanks_cons (by decide) _
  have hcomment : ¬(91 :: (key ++ [93]) : Text).head? = some 35 := fun h => absurd (Option.some.inj h) (by decide)
  have helement : ¬(91 :: (key ++ [93]) : Text).take 2 = [91, 91] := by
    obtain ⟨c, rest, rfl⟩ := List.exists_cons_of_ne_nil hkey.1
    have hne := (isBareKey_not_mark (hkey.2 c List.mem_cons_self)).2
    simp [hne]
  obtain ⟨htake, hdrop⟩ := takeWhile_bracket hkey []
  rw [parseStatement, if_neg hbreak, hblanks, if_neg (List.cons_ne_nil _ _), if_neg hcomment, if_neg helement,
    if_pos List.head?_cons, List.tail_cons, htake, hdrop, if_pos ⟨hkey.1, rfl⟩]

theorem parseStatement_element (hkey : IsBare key) :
    parseStatement floats (91 :: 91 :: (key ++ [93, 93])) = .element key := by
  have hbreak : 13 ∉ (91 :: 91 :: (key ++ [93, 93]) : Text) := by
    simp only [List.mem_cons, List.mem_append, List.not_mem_nil, or_false, not_or]
    exact ⟨by decide, by decide, fun h => (bare_no_break hkey 13 h).2 rfl, by decide, by decide⟩
  have hblanks : skipBlanks (91 :: 91 :: (key ++ [93, 93])) = 91 :: 91 :: (key ++ [93, 93]) := skipBlanks_cons (by decide) _
  have hcomment : ¬(91 :: 91 :: (key ++ [93, 93]) : Text).head? = some 35 :=
    fun h => absurd (Option.some.inj h) (by decide)
  obtain ⟨htake, hdrop⟩ := takeWhile_bracket hkey [93]
  have htake2 : (91 :: 91 :: (key ++ [93, 93]) : Text).take 2 = [91, 91] := rfl
  have hdrop2 : (91 :: 91 :: (key ++ [93, 93]) : Text).drop 2 = key ++ [93, 93] := rfl
  rw [parseStatement, if_neg hbreak, hblanks, if_neg (List.cons_ne_nil _ _), if_neg hcomment, if_pos htake2, hdrop2, htake,
    hdrop, if_pos ⟨hkey.1, rfl⟩]

end Headers

section Sections

variable {ν : Type} {floats : FloatFormat ν} {header : Header} {fields pairs : Fields ν} {row : Section ν}
  {rows : List (Section ν)} {comment : Text} {loadsOther : Text → Option (Document ν)}

def FieldsReadable (fields : Fields ν) : Prop := ∀ pair ∈ fields, pair.2.Readable

instance (fields : Fields ν) : Decidable (FieldsReadable fields) :=
  inferInstanceAs (Decidable (∀ pair ∈ fields, pair.2.Readable))

/-- Fields with distinct keys that need no quotes. -/
structure WellKeyed (fields : Fields ν) : Prop where
  bare : ∀ pair ∈ fields, IsBare pair.1
  nodup : (fields.map Prod.fst).Nodup

instance (key : Text) : Decidable (IsBare key) :=
  @instDecidableAnd _ _ inferInstance (List.decidableBAll IsBareKey key)

theorem WellKeyed.of_keys (keys : List Text) (hkeys : fields.map Prod.fst = keys) (hbare : ∀ key ∈ keys, IsBare key)
    (hnodup : keys.Nodup) : WellKeyed fields := by
  subst hkeys
  exact ⟨fun pair hpair => hbare pair.1 (List.mem_map_of_mem hpair), hnodup⟩

/-- A header that stands in brackets. -/
def Header.IsNamed : Header → Prop
  | .root => False
  | .table key => IsBare key
  | .element key => IsBare key

structure IsComment (comment : Text) : Prop where
  head : comment.head? = some 35
  legal : IsLegal comment
  single : ∀ c ∈ comment, c ≠ 10 ∧ c ≠ 13

theorem parseStatement_comment (h : IsComment comment) : parseStatement floats comment = .blank := by
  have hbreak : 13 ∉ comment := fun hmem => (h.single 13 hmem).2 rfl
  have hne : comment ≠ [] := by
    rintro rfl
    cases h.head
  have hblanks : skipBlanks comment = comment := by
    obtain ⟨c, rest, rfl⟩ := List.exists_cons_of_ne_nil hne
    have hc : c = 35 := Option.some.inj h.head
    exact skipBlanks_cons (by rw [hc]; decide) rest
  rw [parseStatement, if_neg hbreak, hblanks, if_neg hne, if_pos h.head, if_pos h.legal]

theorem sections_pairs (hbare : ∀ pair ∈ pairs, IsBare pair.1)
    (hnodup : (fields.map Prod.fst ++ pairs.map Prod.fst).Nodup) (lines : List Text) :
    sections floats header fields (pairs.map (renderPair floats) ++ lines) =
      if FieldsReadable pairs then sections floats header (fields ++ pairs) lines else .invalid := by
  induction pairs generalizing fields with
  | nil =>
    have hempty : FieldsReadable ([] : Fields ν) := fun _ h => by cases h
    rw [List.map_nil, List.nil_append, if_pos hempty, List.append_nil]
  | cons pair pairs ih =>
    obtain ⟨key, value⟩ := pair
    obtain ⟨hkey, hpairs⟩ := List.forall_mem_cons.mp hbare
    have hsplit : FieldsReadable ((key, value) :: pairs) ↔ value.Readable ∧ FieldsReadable pairs := List.forall_mem_cons
    rw [List.map_cons, List.cons_append, sections, parseStatement_renderPair hkey]
    by_cases hvalue : value.Readable
    · have hfree : key ∉ fields.map Prod.fst := by
        intro hmem
        exact (List.nodup_append.mp hnodup).2.2 key hmem key (by simp) rfl
      have hnodup' : ((fields ++ [(key, value)]).map Prod.fst ++ pairs.map Prod.fst).Nodup := by simpa using hnodup
      simp only [if_pos hvalue, if_neg hfree]
      rw [ih hpairs hnodup', List.append_assoc, List.singleton_append]
      exact if_congr (by rw [hsplit, and_iff_right hvalue]) rfl rfl
    · simp only [if_neg hvalue]
      rw [if_neg fun h => hvalue (hsplit.mp h).1]

/-- The header of a section ends the one before it. -/
theorem sections_header (hnamed : header.IsNamed) (before : Header) (lines : List Text) :
    sections floats before fields (renderHeader header ++ lines) =
      (sections floats header [] lines).map ((before, fields) :: ·) := by
  cases header with
  | root => exact hnamed.elim
  | table key =>
    rw [renderHeader, List.cons_append, List.singleton_append, sections]
    simp only [parseStatement_blank]
    rw [sections]
    simp only [parseStatement_table hnamed]
  | element key =>
    rw [renderHeader, List.cons_append, List.singleton_append, sections]
    simp only [parseStatement_blank]
    rw [sections]
    simp only [parseStatement_element hnamed]

/-- Rendered sections are read as they are, unless DEL is in one of their values. -/
theorem sections_rendered (hfields : WellKeyed fields) (hnamed : ∀ row ∈ rows, row.1.IsNamed)
    (hrows : ∀ row ∈ rows, WellKeyed row.2) :
    sections floats header [] (fields.map (renderPair floats) ++ (rows.flatMap (renderSection floats) ++ [[]])) =
      if FieldsReadable fields ∧ ∀ row ∈ rows, FieldsReadable row.2 then .ok ((header, fields) :: rows) else .invalid := by
  induction rows generalizing header fields with
  | nil =>
    rw [sections_pairs hfields.bare (by simpa using hfields.nodup), List.flatMap_nil, List.nil_append, List.nil_append]
    have hlast : sections floats header fields [[]] = .ok [(header, fields)] := rfl
    rw [hlast]
    exact if_congr (by simp) rfl rfl
  | cons row rows ih =>
    obtain ⟨hrow, hnamed⟩ := List.forall_mem_cons.mp hnamed
    obtain ⟨hkeyed, hrows⟩ := List.forall_mem_cons.mp hrows
    rw [sections_pairs hfields.bare (by simpa using hfields.nodup), List.flatMap_cons, renderSection, List.append_assoc,
      List.append_assoc, List.nil_append, sections_header hrow, ih hkeyed hnamed hrows]
    by_cases hreadable : FieldsReadable fields
    · by_cases hrest : FieldsReadable row.2 ∧ ∀ r ∈ rows, FieldsReadable r.2
      · rw [if_pos hreadable, if_pos hrest, if_pos ⟨hreadable, List.forall_mem_cons.mpr hrest⟩]
        rfl
      · rw [if_pos hreadable, if_neg hrest, if_neg fun h => hrest (List.forall_mem_cons.mp h.2)]
        rfl
    · rw [if_neg hreadable, if_neg fun h => hreadable h.1]

theorem bracketed_no_break {key opening closing : Text} (hkey : IsBare key) (hopening : ∀ x ∈ opening, x ≠ 10 ∧ x ≠ 13)
    (hclosing : ∀ x ∈ closing, x ≠ 10 ∧ x ≠ 13) : ∀ x ∈ opening ++ (key ++ closing), x ≠ 10 ∧ x ≠ 13 := by
  intro x hx
  rcases List.mem_append.mp hx with hx | hx
  · exact hopening x hx
  · rcases List.mem_append.mp hx with hx | hx
    · exact bare_no_break hkey x hx
    · exact hclosing x hx

/-- No line of a section is broken. -/
theorem renderSection_no_break (hnamed : row.1.IsNamed) (hkeyed : WellKeyed row.2) :
    ∀ line ∈ renderSection floats row, ∀ x ∈ line, x ≠ 10 ∧ x ≠ 13 := by
  have hpairs : ∀ line ∈ row.2.map (renderPair floats), ∀ x ∈ line, x ≠ 10 ∧ x ≠ 13 := by
    intro line hline
    obtain ⟨pair, hpair, rfl⟩ := List.mem_map.mp hline
    exact renderPair_no_break (hkeyed.bare pair hpair) pair.2
  have hheader : ∀ line ∈ renderHeader row.1, ∀ x ∈ line, x ≠ 10 ∧ x ≠ 13 := by
    obtain ⟨header, fields⟩ := row
    have hempty : ∀ x ∈ ([] : Text), x ≠ 10 ∧ x ≠ 13 := fun _ h => by cases h
    cases header with
    | root => exact hnamed.elim
    | table key =>
      rw [renderHeader, List.forall_mem_cons, List.forall_mem_singleton]
      refine ⟨hempty, @bracketed_no_break key [91] [93] hnamed ?_ ?_⟩
      all_goals
        rw [List.forall_mem_singleton]
        decide
    | element key =>
      rw [renderHeader, List.forall_mem_cons, List.forall_mem_singleton]
      refine ⟨hempty, @bracketed_no_break key [91, 91] [93, 93] hnamed ?_ ?_⟩
      all_goals
        rw [List.forall_mem_cons, List.forall_mem_singleton]
        decide
  intro line hline
  obtain hline | hline := List.mem_append.mp hline
  · exact hheader line hline
  · exact hpairs line hline

/-- A rendered document is loaded as its sections, unless DEL is in one of its values. -/
theorem loads_renderDocument (hcomment : IsComment comment) (hfields : WellKeyed fields)
    (hnamed : ∀ row ∈ rows, row.1.IsNamed) (hrows : ∀ row ∈ rows, WellKeyed row.2) :
    loads floats loadsOther (renderDocument floats comment ((.root, fields) :: rows)) =
      if FieldsReadable fields ∧ ∀ row ∈ rows, FieldsReadable row.2 then
        (((.root, fields) :: rows).foldlM addSection .empty : Option (Document ν)) else none := by
  have hlines : (renderDocument floats comment ((.root, fields) :: rows)).splitOn 10 =
      comment :: (fields.map (renderPair floats) ++ (rows.flatMap (renderSection floats) ++ [[]])) := by
    have hsplit : (List.intercalate [10] (comment :: (fields.map (renderPair floats) ++
        (rows.flatMap (renderSection floats) ++ [[]])))).splitOn 10 =
        comment :: (fields.map (renderPair floats) ++ (rows.flatMap (renderSection floats) ++ [[]])) := by
      refine List.splitOn_intercalate 10 ?_ (by simp)
      intro line hline
      rcases List.mem_cons.mp hline with rfl | hline
      · exact fun hmem => (hcomment.single 10 hmem).1 rfl
      rcases List.mem_append.mp hline with hline | hline
      · obtain ⟨pair, hpair, rfl⟩ := List.mem_map.mp hline
        exact fun hmem => (renderPair_no_break (hfields.bare pair hpair) pair.2 10 hmem).1 rfl
      rcases List.mem_append.mp hline with hline | hline
      · obtain ⟨row, hrow, hline⟩ := List.mem_flatMap.mp hline
        exact fun hmem => (renderSection_no_break (hnamed row hrow) (hrows row hrow) line hline 10 hmem).1 rfl
      · rw [List.mem_singleton.mp hline]
        exact List.not_mem_nil
    rw [renderDocument, List.flatMap_cons, renderSection, renderHeader, List.nil_append, joinLines, List.cons_append,
      List.append_assoc]
    exact hsplit
  have hsections : sections floats .root [] (comment :: (fields.map (renderPair floats) ++
      (rows.flatMap (renderSection floats) ++ [[]]))) =
      if FieldsReadable fields ∧ ∀ row ∈ rows, FieldsReadable row.2 then .ok ((.root, fields) :: rows) else .invalid := by
    rw [sections]
    simp only [parseStatement_comment hcomment]
    exact sections_rendered hfields hnamed hrows
  rw [loads, hlines, hsections]
  by_cases hreadable : FieldsReadable fields ∧ ∀ row ∈ rows, FieldsReadable row.2
  · simp only [if_pos hreadable]
  · simp only [if_neg hreadable]

end Sections

section Elements

variable {ν : Type} {document : Document ν} {key : Text}

theorem addSection_table (hroot : key ∉ document.root.map Prod.fst) (htable : document.tables.get? key = none)
    (harray : document.arrays.get? key = none) (fields : Fields ν) :
    addSection document (.table key, fields) = some { document with tables := document.tables.set key fields } := by
  refine if_neg ?_
  rw [htable, harray]
  simpa using hroot

theorem elements_set (fields : List (Fields ν)) (other : Text) :
    { document with arrays := document.arrays.set key fields : Document ν }.elements other =
      if other = key then fields else document.elements other := by
  unfold Document.elements
  rw [Dict.get?_set]
  split <;> rfl

/-- The tables of one array are collected in their order; nothing else changes. -/
theorem foldlM_elements (hroot : key ∉ document.root.map Prod.fst) (htable : document.tables.get? key = none)
    (rows : List (Fields ν)) :
    ∃ next : Document ν, (rows.map fun fields => ((.element key, fields) : Section ν)).foldlM addSection document = some next ∧
      next.root = document.root ∧ next.tables = document.tables ∧
      ∀ other, next.elements other = if other = key then document.elements key ++ rows else document.elements other := by
  induction rows generalizing document with
  | nil =>
    refine ⟨document, rfl, rfl, rfl, fun other => ?_⟩
    split
    · rename_i heq
      rw [heq, List.append_nil]
    · rfl
  | cons fields rows ih =>
    have hadd : addSection document (.element key, fields) =
        some { document with arrays := document.arrays.set key (document.elements key ++ [fields]) } := by
      refine if_neg ?_
      rw [htable]
      simpa using hroot
    obtain ⟨next, hnext, hnextRoot, hnextTables, helements⟩ :=
      @ih { document with arrays := document.arrays.set key (document.elements key ++ [fields]) } hroot htable
    refine ⟨next, ?_, hnextRoot, hnextTables, fun other => ?_⟩
    · rw [List.map_cons, List.foldlM_cons, hadd]
      exact hnext
    · rw [helements, elements_set, elements_set, if_pos rfl]
      split
      · rw [List.append_assoc, List.singleton_append]
      · rfl

end Elements

end FidbPoc.Lib.TomlTables
