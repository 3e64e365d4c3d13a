import Mathlib.Algebra.GroupWithZero.Nat
import Mathlib.Data.List.Basic

namespace FidbPoc.Lib.Toml

/-- A character of a Python `str`, which may be a surrogate. -/
abbrev CodePoint := Fin 0x110000

abbrev Text := List CodePoint

instance neZeroCodePoints : NeZero 0x110000 := ⟨by decide⟩

instance lawfulBEqCodePoint : LawfulBEq CodePoint := inferInstance

instance lawfulBEqText : LawfulBEq Text := inferInstance

def ofChar (c : Char) : CodePoint := Fin.ofNat 0x110000 c.toNat

/-- A literal of the source. -/
def text (s : String) : Text := s.toList.map ofChar

def IsSurrogate (c : CodePoint) : Prop := 0xD800 ≤ c.val ∧ c.val ≤ 0xDFFF

instance (c : CodePoint) : Decidable (IsSurrogate c) := inferInstanceAs (Decidable (_ ∧ _))

/-- The characters that one `\u` escape can denote. -/
def IsPlain (c : CodePoint) : Prop := ¬ IsSurrogate c ∧ c.val < 0x10000

instance (c : CodePoint) : Decidable (IsPlain c) := inferInstanceAs (Decidable (_ ∧ _))

/-- A text of such characters. -/
def Plain (value : Text) : Prop := ∀ c ∈ value, IsPlain c

instance (value : Text) : Decidable (Plain value) := List.decidableBAll IsPlain value

section Dumps

def hexDigit (n : Nat) : CodePoint :=
  if n % 16 < 10 then ⟨48 + n % 16, by omega⟩ else ⟨87 + n % 16, by omega⟩

/-- `"\\u{:04x}"` -/
def escapeUnit (n : Nat) : Text :=
  [92, 117, hexDigit (n / 4096), hexDigit (n / 256), hexDigit (n / 16), hexDigit n]

/-- The characters with an escape of one letter. -/
def shortEscape (c : CodePoint) : Option CodePoint :=
  if c = 92 then some 92
  else if c = 34 then some 34
  else if c = 8 then some 98
  else if c = 12 then some 102
  else if c = 10 then some 110
  else if c = 13 then some 114
  else if c = 9 then some 116
  else none

def encodeChar (c : CodePoint) : Text :=
  match shortEscape c with
  | some letter => [92, letter]
  | none =>
    if 32 ≤ c.val ∧ c.val ≤ 126 then [c]
    else if c.val < 0x10000 then escapeUnit c.val
    else escapeUnit (0xD800 + (c.val - 0x10000) / 1024 % 1024) ++ escapeUnit (0xDC00 + (c.val - 0x10000) % 1024)

/-- `json.dumps(value)` of a string. -/
def dumps (value : Text) : Text := 34 :: (value.flatMap encodeChar ++ [34])

end Dumps

section Loads

def hexValue (c : CodePoint) : Option Nat :=
  if 48 ≤ c.val ∧ c.val ≤ 57 then some (c.val - 48)
  else if 97 ≤ c.val ∧ c.val ≤ 102 then some (c.val - 87)
  else if 65 ≤ c.val ∧ c.val ≤ 70 then some (c.val - 55)
  else none

def hexNumber (value : Nat) : Text → Option Nat
  | [] => some value
  | c :: rest => (hexValue c).bind fun digit => hexNumber (16 * value + digit) rest

/-- The character that the digits of an escape denote, if it is a Unicode scalar value. -/
def parseHexChar (digits : Text) : Option CodePoint :=
  (hexNumber 0 digits).bind fun n =>
    if h : n < 0x110000 then
      if IsSurrogate ⟨n, h⟩ then none else some ⟨n, h⟩
    else none

/-- The escapes of one letter. -/
def replacement (letter : CodePoint) : Option CodePoint :=
  if letter = 98 then some 8
  else if letter = 116 then some 9
  else if letter = 110 then some 10
  else if letter = 102 then some 12
  else if letter = 114 then some 13
  else if letter = 34 then some 34
  else if letter = 92 then some 92
  else none

/-- The control characters that no basic string holds. -/
def IsIllegal (c : CodePoint) : Prop := c.val < 32 ∧ c.val ≠ 9 ∨ c.val = 127

instance (c : CodePoint) : Decidable (IsIllegal c) := inferInstanceAs (Decidable (_ ∨ _))

def prepend (c : CodePoint) (parsed : Text × Text) : Text × Text := (c :: parsed.1, parsed.2)

/-- The value of a basic string behind its opening quote and what follows the closing one; `none` is
`TOMLDecodeError`. -/
def parseBasicStr : Text → Option (Text × Text)
  | [] => none
  | c :: src =>
    if c = 34 then some ([], src)
    else if c = 92 then
      match src with
      | [] => none
      | letter :: src =>
        if letter = 117 then
          match src with
          | a :: b :: c :: d :: src => (parseHexChar [a, b, c, d]).bind fun parsed => (parseBasicStr src).map (prepend parsed)
          | _ => none
        else if letter = 85 then
          match src with
          | a :: b :: c :: d :: e :: f :: g :: h :: src =>
            (parseHexChar [a, b, c, d, e, f, g, h]).bind fun parsed => (parseBasicStr src).map (prepend parsed)
          | _ => none
        else (replacement letter).bind fun parsed => (parseBasicStr src).map (prepend parsed)
    else if IsIllegal c then none
    else (parseBasicStr src).map (prepend c)

/-- What one line of a document holds: nothing, a key with a basic string, something that no document holds there, or
something else. -/
inductive Line
  | blank
  | pair (key value : Text)
  | invalid
  | other

def skipBlanks (src : Text) : Text := src.dropWhile fun c => c = 32 ∨ c = 9

def IsBareKey (c : CodePoint) : Prop :=
  48 ≤ c.val ∧ c.val ≤ 57 ∨ 65 ≤ c.val ∧ c.val ≤ 90 ∨ 97 ≤ c.val ∧ c.val ≤ 122 ∨ c.val = 95 ∨ c.val = 45

instance (c : CodePoint) : Decidable (IsBareKey c) := inferInstanceAs (Decidable (_ ∨ _))

/-- The value behind the `=` of a key. -/
def parseValue (key src : Text) : Line :=
  if src.take 3 = [34, 34, 34] then .other
  else if src.head? = some 34 then
    match parseBasicStr src.tail with
    | none => .invalid
    | some (value, rest) => if skipBlanks rest = [] then .pair key value else .other
  else .other

def parseLine (line : Text) : Line :=
  let src := skipBlanks line
  let key := src.takeWhile fun c => IsBareKey c
  let rest := skipBlanks (src.dropWhile fun c => IsBareKey c)
  if 13 ∈ line then .other
  else if src = [] then .blank
  else if key ≠ [] ∧ rest.head? = some 61 then parseValue key (skipBlanks rest.tail)
  else .other

inductive Value
  | str (value : Text)
  | other
  deriving DecidableEq

/-- The pairs of a table, each key once. -/
abbrev Fields := List (Text × Value)

def Fields.get? (fields : Fields) (key : Text) : Option Value := fields.lookup key

/-- The statements of a document that is made of blank lines and keys with basic strings; `none` for any other. -/
def statements (fields : Fields) : List Text → Option (Option Fields)
  | [] => some (some fields)
  | line :: lines =>
    match parseLine line with
    | .blank => statements fields lines
    | .pair key value =>
      if (fields.get? key).isSome then some none else statements (fields ++ [(key, .str value)]) lines
    | .invalid => some none
    | .other => none

/-- `tomllib.loads(document)`, where `loadsOther` is what it does with the rest of the language. -/
def loads (loadsOther : Text → Option Fields) (document : Text) : Option Fields :=
  (statements [] (document.splitOn 10)).getD (loadsOther document)

end Loads

section Strings

variable {c : CodePoint} {value rest : Text} {n : Nat}

theorem plain_cons : Plain (c :: value) ↔ IsPlain c ∧ Plain value := List.forall_mem_cons

@[simp] theorem hexValue_hexDigit (n : Nat) : hexValue (hexDigit n) = some (n % 16) := by
  have hlt := Nat.mod_lt n (by decide : 16 > 0)
  by_cases h : n % 16 < 10
  · have hval : (hexDigit n).val = 48 + n % 16 := by simp [hexDigit, h]
    rw [hexValue, hval, if_pos (by omega)]
    congr 1
    omega
  · have hval : (hexDigit n).val = 87 + n % 16 := by simp [hexDigit, h]
    rw [hexValue, hval, if_neg (by omega), if_pos (by omega)]
    congr 1
    omega

theorem hexNumber_digits (h : n < 0x10000) :
    hexNumber 0 [hexDigit (n / 4096), hexDigit (n / 256), hexDigit (n / 16), hexDigit n] = some n := by
  simp only [hexNumber, hexValue_hexDigit, Option.bind_some, Option.some.injEq]
  omega

/-- An escape with four digits is read unless it is one of a surrogate. -/
theorem parseBasicStr_escapeUnit (h : n < 0x10000) :
    parseBasicStr (escapeUnit n ++ rest) =
      if 0xD800 ≤ n ∧ n ≤ 0xDFFF then none else (parseBasicStr rest).map (prepend ⟨n, by omega⟩) := by
  have hread : parseBasicStr (escapeUnit n ++ rest) =
      (parseHexChar [hexDigit (n / 4096), hexDigit (n / 256), hexDigit (n / 16), hexDigit n]).bind fun parsed =>
        (parseBasicStr rest).map (prepend parsed) := by
    simp [escapeUnit, parseBasicStr]
  have hchar : parseHexChar [hexDigit (n / 4096), hexDigit (n / 256), hexDigit (n / 16), hexDigit n] =
      if 0xD800 ≤ n ∧ n ≤ 0xDFFF then none else some ⟨n, by omega⟩ := by
    rw [parseHexChar, hexNumber_digits h, Option.bind_some, dif_pos (by omega)]
    rfl
  rw [hread, hchar]
  split
  · rfl
  · rfl

theorem shortEscape_eq_some {letter : CodePoint} (h : shortEscape c = some letter) :
    replacement letter = some c ∧ letter ≠ 117 ∧ letter ≠ 85 ∧ IsPlain c := by
  unfold shortEscape at h
  split_ifs at h with h1 h2 h3 h4 h5 h6 h7
  all_goals
    obtain rfl := Option.some.inj h
    subst c
    decide

theorem shortEscape_eq_none (h : shortEscape c = none) : c ≠ 34 ∧ c ≠ 92 := by
  constructor
  · rintro rfl
    exact absurd h (by decide)
  · rintro rfl
    exact absurd h (by decide)

/-- What is written for a character is read as that character, or refused. -/
theorem parseBasicStr_encodeChar (c : CodePoint) (rest : Text) :
    parseBasicStr (encodeChar c ++ rest) = if IsPlain c then (parseBasicStr rest).map (prepend c) else none := by
  unfold encodeChar
  split
  · next letter hletter =>
    obtain ⟨hreplacement, hu, hU, hplain⟩ := shortEscape_eq_some hletter
    have hread : parseBasicStr ([92, letter] ++ rest) =
        (replacement letter).bind fun parsed => (parseBasicStr rest).map (prepend parsed) := by
      rw [List.cons_append, List.singleton_append, parseBasicStr.eq_def]
      simp [hu, hU]
    rw [hread, hreplacement, if_pos hplain]
    rfl
  · next hnone =>
    obtain ⟨hquote, hescape⟩ := shortEscape_eq_none hnone
    by_cases hprintable : 32 ≤ c.val ∧ c.val ≤ 126
    · have hlegal : ¬ IsIllegal c := by
        unfold IsIllegal
        omega
      have hplain : IsPlain c := ⟨by unfold IsSurrogate; omega, by omega⟩
      rw [if_pos hprintable, if_pos hplain, List.singleton_append, parseBasicStr.eq_def]
      simp [hquote, hescape, hlegal]
    · by_cases hbasic : c.val < 0x10000
      · rw [if_neg hprintable, if_pos hbasic, parseBasicStr_escapeUnit hbasic]
        by_cases hsurrogate : 0xD800 ≤ c.val ∧ c.val ≤ 0xDFFF
        · rw [if_pos hsurrogate, if_neg fun hplain => hplain.1 hsurrogate]
        · rw [if_neg hsurrogate, if_pos ⟨hsurrogate, hbasic⟩]
      · rw [if_neg hprintable, if_neg hbasic, if_neg fun hplain => hbasic hplain.2, List.append_assoc,
          parseBasicStr_escapeUnit (by omega), if_pos (by omega)]

/-- A string that JSON encodes is read back as it was, if none of its characters needs two escapes. -/
theorem parseBasicStr_encoded (value rest : Text) :
    parseBasicStr (value.flatMap encodeChar ++ 34 :: rest) =
      if Plain value then some (value, rest) else none := by
  induction value with
  | nil =>
    have hempty : Plain [] := fun _ h => by cases h
    rw [List.flatMap_nil, List.nil_append, parseBasicStr.eq_def, if_pos hempty]
    exact if_pos rfl
  | cons c value ih =>
    rw [List.flatMap_cons, List.append_assoc, parseBasicStr_encodeChar, ih]
    by_cases hc : IsPlain c
    · by_cases hvalue : Plain value
      · rw [if_pos hc, if_pos hvalue, if_pos (plain_cons.mpr ⟨hc, hvalue⟩)]
        rfl
      · rw [if_pos hc, if_neg hvalue, if_neg fun h => hvalue (plain_cons.mp h).2]
        rfl
    · rw [if_neg hc, if_neg fun h => hc (plain_cons.mp h).1]

theorem hexDigit_printable (n : Nat) : 32 ≤ (hexDigit n).val ∧ (hexDigit n).val ≤ 126 := by
  have hlt := Nat.mod_lt n (by decide : 16 > 0)
  unfold hexDigit
  split
  · exact ⟨by show 32 ≤ 48 + n % 16; omega, by show 48 + n % 16 ≤ 126; omega⟩
  · exact ⟨by show 32 ≤ 87 + n % 16; omega, by show 87 + n % 16 ≤ 126; omega⟩

theorem escapeUnit_printable (n : Nat) : ∀ x ∈ escapeUnit n, 32 ≤ x.val ∧ x.val ≤ 126 := by
  simp only [escapeUnit, List.forall_mem_cons, hexDigit_printable, true_and]
  exact ⟨by decide, by decide, fun _ h => by cases h⟩

/-- JSON encodes into printable ASCII. -/
theorem encodeChar_printable (c : CodePoint) : ∀ x ∈ encodeChar c, 32 ≤ x.val ∧ x.val ≤ 126 := by
  unfold encodeChar
  split
  · next letter hletter =>
    unfold shortEscape at hletter
    split_ifs at hletter
    all_goals
      obtain rfl := Option.some.inj hletter
      simp only [List.forall_mem_cons]
      exact ⟨by decide, by decide, fun _ h => by cases h⟩
  · split_ifs with hprintable hbasic
    · intro x hx
      rwa [List.mem_singleton.mp hx]
    · exact escapeUnit_printable _
    · intro x hx
      rcases List.mem_append.mp hx with hx | hx
      · exact escapeUnit_printable _ x hx
      · exact escapeUnit_printable _ x hx

theorem encodeChar_head (c : CodePoint) : ∃ x rest, encodeChar c = x :: rest ∧ x ≠ 34 := by
  unfold encodeChar
  split
  · exact ⟨_, _, rfl, by decide⟩
  · next hnone =>
    split_ifs
    · exact ⟨c, [], rfl, (shortEscape_eq_none hnone).1⟩
    · exact ⟨_, _, rfl, by decide⟩
    · exact ⟨_, _, rfl, by decide⟩

theorem dumps_printable (value : Text) : ∀ x ∈ dumps value, 32 ≤ x.val ∧ x.val ≤ 126 := by
  have hquote : 32 ≤ (34 : CodePoint).val ∧ (34 : CodePoint).val ≤ 126 := by decide
  intro x hx
  rcases List.mem_cons.mp hx with rfl | hx
  · exact hquote
  rcases List.mem_append.mp hx with hx | hx
  · obtain ⟨c, -, hc⟩ := List.mem_flatMap.mp hx
    exact encodeChar_printable c x hc
  · rwa [List.mem_singleton.mp hx]

theorem dumps_not_multiline (value : Text) : (dumps value).take 3 ≠ [34, 34, 34] := by
  cases value with
  | nil => decide
  | cons c value =>
    obtain ⟨x, rest, hx, hne⟩ := encodeChar_head c
    rw [dumps, List.flatMap_cons, hx]
    simp [hne]

end Strings

section Documents

variable {key value : Text} {pairs : List (Text × Text)} {fields : Fields} {loadsOther : Text → Option Fields}

/-- The line that gives a key its value. -/
def renderPair (pair : Text × Text) : Text := pair.1 ++ [32, 61, 32] ++ dumps pair.2

/-- `"\n".join([*lines, ""])` -/
def renderPairs (pairs : List (Text × Text)) : Text := List.intercalate [10] (pairs.map renderPair ++ [[]])

/-- A key that needs no quotes. -/
def IsBare (key : Text) : Prop := key ≠ [] ∧ ∀ c ∈ key, IsBareKey c

theorem IsBareKey.not_blank {c : CodePoint} (h : IsBareKey c) : c ≠ 32 ∧ c ≠ 9 ∧ c ≠ 10 ∧ c ≠ 13 := by
  refine ⟨?_, ?_, ?_, ?_⟩
  all_goals
    rintro rfl
    exact absurd h (by decide)

theorem skipBlanks_cons {c : CodePoint} (h : c ≠ 32 ∧ c ≠ 9) (src : Text) : skipBlanks (c :: src) = c :: src := by
  rw [skipBlanks, List.dropWhile_cons_of_neg (by simp [h])]

theorem takeWhile_bare (hkey : IsBare key) (src : Text) :
    (key ++ 32 :: src).takeWhile (fun c => IsBareKey c) = key ∧
      (key ++ 32 :: src).dropWhile (fun c => IsBareKey c) = 32 :: src := by
  have hall : ∀ c ∈ key, decide (IsBareKey c) = true := fun c hc => decide_eq_true (hkey.2 c hc)
  have hspace : decide (IsBareKey 32) = false := by decide
  constructor
  · rw [List.takeWhile_append_of_pos hall, List.takeWhile_cons, hspace]
    simp
  · rw [List.dropWhile_append_of_pos hall, List.dropWhile_cons, hspace]
    simp

theorem parseValue_dumps (key value : Text) :
    parseValue key (dumps value) = if Plain value then .pair key value else .invalid := by
  have hhead : (dumps value).head? = some 34 := rfl
  have htail : (dumps value).tail = value.flatMap encodeChar ++ 34 :: [] := rfl
  rw [parseValue, if_neg (dumps_not_multiline value), if_pos hhead, htail, parseBasicStr_encoded]
  by_cases hplain : Plain value
  · simp only [if_pos hplain]
    exact if_pos rfl
  · simp only [if_neg hplain]

theorem renderPair_no_break (hkey : IsBare key) (value : Text) : 10 ∉ renderPair (key, value) ∧ 13 ∉ renderPair (key, value) := by
  have hdumps := dumps_printable value
  have h10 : ¬ (32 ≤ (10 : CodePoint).val ∧ (10 : CodePoint).val ≤ 126) := by decide
  have h13 : ¬ (32 ≤ (13 : CodePoint).val ∧ (13 : CodePoint).val ≤ 126) := by decide
  simp only [renderPair, List.mem_append, not_or]
  refine ⟨⟨⟨fun h => ?_, by decide⟩, fun h => h10 (hdumps 10 h)⟩, ⟨⟨fun h => ?_, by decide⟩, fun h => h13 (hdumps 13 h)⟩⟩
  · exact (hkey.2 10 h).not_blank.2.2.1 rfl
  · exact (hkey.2 13 h).not_blank.2.2.2 rfl

theorem parseLine_renderPair (hkey : IsBare key) (value : Text) :
    parseLine (renderPair (key, value)) = if Plain value then .pair key value else .invalid := by
  have hbreak := (renderPair_no_break hkey value).2
  have hline : renderPair (key, value) = key ++ 32 :: 61 :: 32 :: dumps value := by simp [renderPair]
  have hblanks : skipBlanks (renderPair (key, value)) = renderPair (key, value) := by
    obtain ⟨c, rest, hc⟩ := List.exists_cons_of_ne_nil hkey.1
    rw [hline, hc]
    have hbare := (hkey.2 c (hc ▸ List.mem_cons_self)).not_blank
    exact skipBlanks_cons ⟨hbare.1, hbare.2.1⟩ _
  obtain ⟨htake, hdrop⟩ := takeWhile_bare hkey (61 :: 32 :: dumps value)
  have hequals : skipBlanks (32 :: 61 :: 32 :: dumps value) = 61 :: 32 :: dumps value := by
    simp [skipBlanks]
  have hvalue : skipBlanks (32 :: dumps value) = dumps value := by
    simp [skipBlanks, dumps]
  have hne : renderPair (key, value) ≠ [] := by simp [renderPair]
  rw [parseLine, if_neg hbreak, hblanks, if_neg hne, hline, htake, hdrop, hequals, if_pos ⟨hkey.1, rfl⟩]
  exact (congrArg (parseValue key) hvalue).trans (parseValue_dumps key value)

theorem get?_append_of_notMem {rows : Fields} (h : key ∉ rows.map Prod.fst) : rows.get? key = none := by
  rw [Fields.get?, List.lookup_eq_none_iff]
  intro row hrow
  have hne : key ≠ row.1 := fun heq => h (heq ▸ List.mem_map_of_mem hrow)
  simpa using hne

/-- The statements of a rendered table are its pairs, unless one of the values has no escape of its own. -/
theorem statements_renderPairs (hbare : ∀ pair ∈ pairs, IsBare pair.1)
    (hnodup : (fields.map Prod.fst ++ pairs.map Prod.fst).Nodup) :
    statements fields (pairs.map renderPair ++ [[]]) =
      some (if ∀ pair ∈ pairs, Plain pair.2 then
        some (fields ++ pairs.map fun pair => (pair.1, .str pair.2)) else none) := by
  induction pairs generalizing fields with
  | nil => simp [statements, parseLine, skipBlanks]
  | cons pair pairs ih =>
    obtain ⟨key, value⟩ := pair
    obtain ⟨hkey, hpairs⟩ := List.forall_mem_cons.mp hbare
    rw [List.map_cons, List.cons_append, statements, parseLine_renderPair hkey]
    simp only [List.forall_mem_cons]
    by_cases hvalue : Plain value
    · have hfree : key ∉ fields.map Prod.fst := by
        intro hmem
        have hdisjoint := (List.nodup_append.mp hnodup).2.2 key hmem key (by simp)
        exact hdisjoint rfl
      have hnodup' : ((fields ++ [(key, Value.str value)]).map Prod.fst ++ pairs.map Prod.fst).Nodup := by
        simpa using hnodup
      simp only [if_pos hvalue, get?_append_of_notMem hfree, Option.isSome_none, Bool.false_eq_true, if_false]
      rw [ih hpairs hnodup', List.append_assoc]
      exact congrArg some (if_congr (and_iff_right hvalue).symm rfl rfl)
    · simp only [if_neg hvalue]
      rw [if_neg fun h => hvalue h.1]

/-- A rendered table loads as its pairs, unless one of the values has no escape of its own. -/
theorem loads_renderPairs (hbare : ∀ pair ∈ pairs, IsBare pair.1) (hnodup : (pairs.map Prod.fst).Nodup) :
    loads loadsOther (renderPairs pairs) =
      if ∀ pair ∈ pairs, Plain pair.2 then
        some (pairs.map fun pair => (pair.1, .str pair.2)) else none := by
  have hlines : (renderPairs pairs).splitOn 10 = pairs.map renderPair ++ [[]] := by
    refine List.splitOn_intercalate 10 (fun line hline => ?_) (by simp)
    rcases List.mem_append.mp hline with hline | hline
    · obtain ⟨pair, hpair, rfl⟩ := List.mem_map.mp hline
      exact (renderPair_no_break (hbare pair hpair) pair.2).1
    · rw [List.mem_singleton.mp hline]
      exact List.not_mem_nil
  rw [loads, hlines, statements_renderPairs hbare (by simpa using hnodup), Option.getD_some]
  simp

end Documents

end FidbPoc.Lib.Toml
