import FidbPoc.Lib.TomlTables

namespace FidbPoc.Lib.TomlWriter

open FidbPoc.Lib.Toml FidbPoc.Lib.TomlTables

variable {ν : Type} {floats : FloatFormat ν}

/-- A way to write values on one line, and the values that are read back. -/
structure Writer (floats : FloatFormat ν) where
  write : Value ν → Text
  Readable : Value ν → Prop
  decidable : DecidablePred Readable
  parse : ∀ value, parseValue floats (write value) = if Readable value then .ok (value, []) else .invalid
  single : ∀ value, ∀ x ∈ write value, x ≠ 10 ∧ x ≠ 13
  head : ∀ value, ∃ x xs, write value = x :: xs ∧ x ≠ 32 ∧ x ≠ 9

instance decidableReadable (writer : Writer floats) : DecidablePred writer.Readable := writer.decidable

section Ascii

def asciiReadable : Value ν → Prop
  | .str value => Plain value
  | value => value.Readable

instance decidableAsciiReadable : DecidablePred (asciiReadable (ν := ν)) := fun value =>
  match value with
  | .str value => inferInstanceAs (Decidable (Plain value))
  | .int n => inferInstanceAs (Decidable (Value.int n : Value ν).Readable)
  | .float x => inferInstanceAs (Decidable (Value.float x).Readable)
  | .strings values => inferInstanceAs (Decidable (Value.strings values : Value ν).Readable)

theorem parseString_dumps (value : Text) : parseString (dumps value) = if Plain value then .ok (value, []) else .invalid := by
  have hhead : (dumps value).head? = some 34 := rfl
  have htail : (dumps value).tail = value.flatMap encodeChar ++ 34 :: [] := rfl
  rw [parseString, if_neg (dumps_not_multiline value), if_pos hhead, htail, parseBasicStr_encoded]
  by_cases hplain : Plain value
  · simp only [if_pos hplain]
  · simp only [if_neg hplain]

variable (floats)

/-- Strings as `json.dumps` writes them, everything but printable ASCII escaped. -/
def writeAscii : Value ν → Text
  | .str value => dumps value
  | value => renderValue floats value

def ascii : Writer floats where
  write := writeAscii floats
  Readable := asciiReadable
  decidable := decidableAsciiReadable
  parse value := by
    cases value with
    | str value =>
      have hvalue : parseValue floats (writeAscii floats (.str value)) =
          (parseString (dumps value)).map fun (value, rest) => (.str value, rest) := rfl
      rw [hvalue, parseString_dumps]
      by_cases hplain : Plain value
      · rw [if_pos hplain]
        exact (if_pos hplain).symm
      · rw [if_neg hplain]
        exact (if_neg hplain).symm
    | int n => exact @parseValue_renderValue ν floats (.int n)
    | float x => exact @parseValue_renderValue ν floats (.float x)
    | strings values => exact @parseValue_renderValue ν floats (.strings values)
  single value := by
    cases value with
    | str value =>
      intro x hx
      have hprintable := dumps_printable value x hx
      constructor
      all_goals
        rintro rfl
        exact absurd hprintable (by decide)
    | int n => exact @renderValue_no_break ν floats (.int n)
    | float x => exact @renderValue_no_break ν floats (.float x)
    | strings values => exact @renderValue_no_break ν floats (.strings values)
  head value := by
    cases value with
    | str value => exact ⟨34, _, rfl, by decide⟩
    | int n => exact @renderValue_head ν floats (.int n)
    | float x => exact @renderValue_head ν floats (.float x)
    | strings values => exact @renderValue_head ν floats (.strings values)

end Ascii

variable (writer : Writer floats)

def writePair (pair : Text × Value ν) : Text := pair.1 ++ [32, 61, 32] ++ writer.write pair.2

def writeSection (row : Section ν) : List Text := renderHeader row.1 ++ row.2.map (writePair writer)

/-- `"\n".join(lines)` of the pairs of a document, its sections, and a last empty line. -/
def writeDocument (fields : Fields ν) (rows : List (Section ν)) : Text :=
  joinLines (fields.map (writePair writer) ++ rows.flatMap (writeSection writer))

section Reading

variable {writer} {key : Text} {header : Header} {fields pairs : Fields ν} {row : Section ν} {rows : List (Section ν)}
variable {loadsOther : Text → Option (Document ν)}

theorem writePair_single (hkey : IsBare key) (value : Value ν) : ∀ x ∈ writePair writer (key, value), x ≠ 10 ∧ x ≠ 13 := by
  have hequals : ∀ x ∈ ([32, 61, 32] : Text), x ≠ 10 ∧ x ≠ 13 := by
    rw [List.forall_mem_cons, List.forall_mem_cons, List.forall_mem_singleton]
    decide
  exact List.forall_mem_append.mpr ⟨List.forall_mem_append.mpr ⟨bare_no_break hkey, hequals⟩, writer.single value⟩

/-- A written pair is read as that pair, unless its value is not read back. -/
theorem parseStatement_writePair (hkey : IsBare key) (value : Value ν) :
    parseStatement floats (writePair writer (key, value)) = if writer.Readable value then .pair key value else .invalid := by
  have hbreak : 13 ∉ writePair writer (key, value) := fun h => (writePair_single hkey value 13 h).2 rfl
  have hline : writePair writer (key, value) = key ++ 32 :: 61 :: 32 :: writer.write value := by simp [writePair]
  obtain ⟨c, rest, hc⟩ := List.exists_cons_of_ne_nil hkey.1
  have hbare := hkey.2 c (hc ▸ List.mem_cons_self)
  obtain ⟨hmark, hbracket⟩ := isBareKey_not_mark hbare
  have hcons : writePair writer (key, value) = c :: (rest ++ 32 :: 61 :: 32 :: writer.write value) := by rw [hline, hc]; rfl
  have hblanks : skipBlanks (writePair writer (key, value)) = writePair writer (key, value) := by
    rw [hcons]
    exact skipBlanks_cons ⟨hbare.not_blank.1, hbare.not_blank.2.1⟩ _
  have hvalue : skipBlanks (32 :: writer.write value) = writer.write value := by
    obtain ⟨x, xs, hx, hne⟩ := writer.head value
    rw [hx]
    exact skipBlanks_cons hne xs
  have hne : writePair writer (key, value) ≠ [] := by simp [hcons]
  have hcomment : ¬(writePair writer (key, value)).head? = some 35 := by simp [hcons, hmark]
  have htable : ¬(writePair writer (key, value)).head? = some 91 := by simp [hcons, hbracket]
  have helement : ¬(writePair writer (key, value)).take 2 = [91, 91] := by simp [hcons, hbracket]
  obtain ⟨htake, hdrop⟩ := takeWhile_bare hkey (61 :: 32 :: writer.write value)
  have hequals : skipBlanks (32 :: 61 :: 32 :: writer.write value) = 61 :: 32 :: writer.write value := rfl
  rw [parseStatement, if_neg hbreak, hblanks, if_neg hne, if_neg hcomment, if_neg helement, if_neg htable, hline, htake, hdrop,
    hequals, if_pos ⟨hkey.1, rfl⟩]
  refine (congrArg (parsePair floats key) hvalue).trans ?_
  rw [parsePair, writer.parse]
  by_cases hreadable : writer.Readable value
  · simp only [if_pos hreadable]
    exact if_pos rfl
  · simp only [if_neg hreadable]

variable (writer) in
/-- Whether a table is read back. -/
def AllReadable (fields : Fields ν) : Prop := ∀ pair ∈ fields, writer.Readable pair.2

instance decidableAllReadable (fields : Fields ν) : Decidable (AllReadable writer fields) :=
  inferInstanceAs (Decidable (∀ pair ∈ fields, writer.Readable pair.2))

theorem sections_writePairs (hbare : ∀ pair ∈ pairs, IsBare pair.1)
    (hnodup : (fields.map Prod.fst ++ pairs.map Prod.fst).Nodup) (lines : List Text) :
    sections floats header fields (pairs.map (writePair writer) ++ lines) =
      if AllReadable writer pairs then sections floats header (fields ++ pairs) lines else .invalid := by
  induction pairs generalizing fields with
  | nil =>
    have hempty : AllReadable writer ([] : Fields ν) := fun _ h => by cases h
    rw [List.map_nil, List.nil_append, if_pos hempty, List.append_nil]
  | cons pair pairs ih =>
    obtain ⟨key, value⟩ := pair
    obtain ⟨hkey, hpairs⟩ := List.forall_mem_cons.mp hbare
    have hsplit : AllReadable writer ((key, value) :: pairs) ↔ writer.Readable value ∧ AllReadable writer pairs :=
      List.forall_mem_cons
    rw [List.map_cons, List.cons_append, sections, parseStatement_writePair hkey]
    by_cases hvalue : writer.Readable value
    · have hfree : key ∉ fields.map Prod.fst := fun hmem => (List.nodup_append.mp hnodup).2.2 key hmem key (by simp) rfl
      have hnodup' : ((fields ++ [(key, value)]).map Prod.fst ++ pairs.map Prod.fst).Nodup := by simpa using hnodup
      simp only [if_pos hvalue, if_neg hfree]
      rw [ih hpairs hnodup', List.append_assoc, List.singleton_append]
      exact if_congr (by rw [hsplit, and_iff_right hvalue]) rfl rfl
    · simp only [if_neg hvalue]
      rw [if_neg fun h => hvalue (hsplit.mp h).1]

/-- Written sections are read as they are, unless a value is not read back. -/
theorem sections_written (hfields : WellKeyed fields) (hnamed : ∀ row ∈ rows, row.1.IsNamed)
    (hrows : ∀ row ∈ rows, WellKeyed row.2) :
    sections floats header [] (fields.map (writePair writer) ++ (rows.flatMap (writeSection writer) ++ [[]])) =
      if AllReadable writer fields ∧ ∀ row ∈ rows, AllReadable writer row.2 then .ok ((header, fields) :: rows)
      else .invalid := by
  induction rows generalizing header fields with
  | nil =>
    rw [sections_writePairs hfields.bare (by simpa using hfields.nodup), List.flatMap_nil, List.nil_append, List.nil_append]
    have hlast : sections floats header fields [[]] = .ok [(header, fields)] := rfl
    rw [hlast]
    exact if_congr (by simp) rfl rfl
  | cons row rows ih =>
    obtain ⟨hrow, hnamed⟩ := List.forall_mem_cons.mp hnamed
    obtain ⟨hkeyed, hrows⟩ := List.forall_mem_cons.mp hrows
    rw [sections_writePairs hfields.bare (by simpa using hfields.nodup), List.flatMap_cons, writeSection, List.append_assoc,
      List.append_assoc, List.nil_append, sections_header hrow, ih hkeyed hnamed hrows]
    by_cases hreadable : AllReadable writer fields
    · by_cases hrest : AllReadable writer row.2 ∧ ∀ r ∈ rows, AllReadable writer r.2
      · rw [if_pos hreadable, if_pos hrest, if_pos ⟨hreadable, List.forall_mem_cons.mpr hrest⟩]
        rfl
      · rw [if_pos hreadable, if_neg hrest, if_neg fun h => hrest (List.forall_mem_cons.mp h.2)]
        rfl
    · rw [if_neg hreadable, if_neg fun h => hreadable h.1]

theorem writeSection_single (hnamed : row.1.IsNamed) (hkeyed : WellKeyed row.2) :
    ∀ line ∈ writeSection writer row, 10 ∉ line := by
  have hheader : ∀ line ∈ renderHeader row.1, 10 ∉ line := by
    intro line hline hmem
    have hsection : line ∈ renderSection floats (row.1, ([] : Fields ν)) := by simpa [renderSection] using hline
    have hempty : WellKeyed ([] : Fields ν) := ⟨fun _ h => (by cases h), List.nodup_nil⟩
    exact (@renderSection_no_break ν floats (row.1, []) hnamed hempty line hsection 10 hmem).1 rfl
  intro line hline
  rcases List.mem_append.mp hline with hline | hline
  · exact hheader line hline
  · obtain ⟨pair, hpair, rfl⟩ := List.mem_map.mp hline
    exact fun hmem => (writePair_single (hkeyed.bare pair hpair) pair.2 10 hmem).1 rfl

/-- A written document is loaded as its sections, unless one of its values is not read back. -/
theorem loads_writeDocument (hfields : WellKeyed fields) (hnamed : ∀ row ∈ rows, row.1.IsNamed)
    (hrows : ∀ row ∈ rows, WellKeyed row.2) :
    TomlTables.loads floats loadsOther (writeDocument writer fields rows) =
      if AllReadable writer fields ∧ ∀ row ∈ rows, AllReadable writer row.2 then
        (((.root, fields) :: rows).foldlM addSection .empty : Option (Document ν)) else none := by
  have hlines : (writeDocument writer fields rows).splitOn 10 =
      fields.map (writePair writer) ++ (rows.flatMap (writeSection writer) ++ [[]]) := by
    rw [writeDocument, joinLines, List.append_assoc]
    refine List.splitOn_intercalate 10 (fun line hline => ?_) (by simp)
    rcases List.mem_append.mp hline with hline | hline
    · obtain ⟨pair, hpair, rfl⟩ := List.mem_map.mp hline
      exact fun hmem => (writePair_single (hfields.bare pair hpair) pair.2 10 hmem).1 rfl
    · rcases List.mem_append.mp hline with hline | hline
      · obtain ⟨row, hrow, hline⟩ := List.mem_flatMap.mp hline
        exact writeSection_single (hnamed row hrow) (hrows row hrow) line hline
      · rw [List.mem_singleton.mp hline]
        exact List.not_mem_nil
  rw [TomlTables.loads, hlines, sections_written hfields hnamed hrows]
  by_cases hreadable : AllReadable writer fields ∧ ∀ row ∈ rows, AllReadable writer row.2
  · simp only [if_pos hreadable]
  · simp only [if_neg hreadable]

end Reading

section Elements

variable {document : Document ν} {key : Text}

/-- The tables of a new array, in their order. -/
theorem foldlM_addElements (hroot : key ∉ document.root.map Prod.fst) (htable : document.tables.get? key = none)
    (harray : document.arrays.get? key = none) {rows : List (Fields ν)} (hrows : rows ≠ []) :
    (rows.map fun fields => ((.element key, fields) : Section ν)).foldlM addSection document =
      some { document with arrays := document.arrays.set key rows } := by
  have hadd : ∀ arrays fields, addSection { document with arrays := arrays } (.element key, fields) =
      some { document with arrays := arrays.set key ((arrays.get? key).getD [] ++ [fields]) } := by
    intro arrays fields
    refine if_neg ?_
    rw [htable]
    simpa using hroot
  induction rows using List.reverseRecOn with
  | nil => exact absurd rfl hrows
  | append_singleton rows fields ih =>
    have hlast : ∀ start : Document ν, ([fields].map fun fields => ((.element key, fields) : Section ν)).foldlM addSection start =
        addSection start (.element key, fields) := fun _ => bind_pure _
    rw [List.map_append, List.foldlM_append]
    by_cases hempty : rows = []
    · subst hempty
      refine ((hlast document).trans (hadd document.arrays fields)).trans ?_
      rw [harray]
      rfl
    · rw [ih hempty]
      refine ((hlast _).trans (hadd (document.arrays.set key rows) fields)).trans ?_
      rw [Dict.get?_set_self, Dict.set_set]
      rfl

end Elements

end FidbPoc.Lib.TomlWriter
