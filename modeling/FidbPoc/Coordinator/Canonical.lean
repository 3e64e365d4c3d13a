import FidbPoc.Coordinator.Config
import Mathlib.Data.List.Basic

namespace FidbPoc.Coordinator

section Reading

/-- The value of a hexadecimal digit. -/
def hexDigitValue (c : Char) : Nat := if c.toNat < 58 then c.toNat - 48 else c.toNat - 87

/-- Four hexadecimal digits. -/
def readHex4 : List Char → Option (Nat × List Char)
  | a :: b :: c :: d :: rest =>
    some (4096 * hexDigitValue a + 256 * hexDigitValue b + 16 * hexDigitValue c + hexDigitValue d, rest)
  | _ => none

/-- What follows `\u`: one unit, or the first of two. -/
def readUnits (text : List Char) : Option (Char × List Char) :=
  (readHex4 text).bind fun high =>
    if 0xd800 ≤ high.1 ∧ high.1 < 0xdc00 then
      (readHex4 (high.2.drop 2)).map fun low =>
        (Char.ofNat (0x10000 + (high.1 - 0xd800) * 1024 + (low.1 - 0xdc00)), low.2)
    else some (Char.ofNat high.1, high.2)

/-- What follows a backslash. -/
def readEscaped : List Char → Option (Char × List Char)
  | [] => none
  | c :: rest =>
    if c = 'u' then readUnits rest
    else if c = 'n' then some ('\n', rest) else if c = 'r' then some ('\r', rest)
    else if c = 't' then some ('\t', rest) else if c = 'b' then some (Char.ofNat 8, rest)
    else if c = 'f' then some (Char.ofNat 12, rest) else some (c, rest)

/-- One character of a JSON string, as long as the string does not end. -/
def readChar : List Char → Option (Char × List Char)
  | [] => none
  | c :: rest => if c = '"' then none else if c = '\\' then readEscaped rest else some (c, rest)

end Reading

section Escapes

variable {c d : Char} {rest rest' : List Char}

theorem hexDigitValue_hexDigit : ∀ n < 16, hexDigitValue (hexDigit n) = n := by
  decide

theorem readHex4_hex4 {n : Nat} (h : n < 0x10000) : readHex4 (hex4 n ++ rest) = some (n, rest) := by
  have hvalue (m : Nat) : hexDigitValue (hexDigit (m % 16)) = m % 16 := hexDigitValue_hexDigit _ (Nat.mod_lt m (by omega))
  simp only [hex4, List.cons_append, List.nil_append, readHex4, hvalue, Option.some.injEq, Prod.mk.injEq, and_true]
  omega

theorem not_surrogate (c : Char) : ¬(0xd800 ≤ c.toNat ∧ c.toNat < 0xdc00) := by
  have hvalid : c.toNat < 0xd800 ∨ 0xdfff < c.toNat ∧ c.toNat < 0x110000 := c.valid
  omega

theorem readUnits_unit (hc : c.toNat < 0x10000) : readUnits (hex4 c.toNat ++ rest) = some (c, rest) := by
  rw [readUnits, readHex4_hex4 hc, Option.bind_some, if_neg (not_surrogate c), Char.ofNat_toNat]

theorem readUnits_pair (hc : 0x10000 ≤ c.toNat) :
    readUnits (hex4 (0xd800 + (c.toNat - 0x10000) / 1024) ++
      ('\\' :: 'u' :: hex4 (0xdc00 + (c.toNat - 0x10000) % 1024) ++ rest)) = some (c, rest) := by
  have hvalid : c.toNat < 0xd800 ∨ 0xdfff < c.toNat ∧ c.toNat < 0x110000 := c.valid
  have hhigh : 0xd800 + (c.toNat - 0x10000) / 1024 < 0xdc00 := by omega
  have hlow : 0xdc00 + (c.toNat - 0x10000) % 1024 < 0x10000 := by omega
  have hvalue : 0x10000 + (0xd800 + (c.toNat - 0x10000) / 1024 - 0xd800) * 1024 +
      (0xdc00 + (c.toNat - 0x10000) % 1024 - 0xdc00) = c.toNat := by omega
  rw [readUnits, readHex4_hex4 (by omega), Option.bind_some, if_pos ⟨by omega, hhigh⟩, List.cons_append, List.cons_append,
    List.drop_succ_cons, List.drop_succ_cons, List.drop_zero, readHex4_hex4 hlow, Option.map_some, hvalue, Char.ofNat_toNat]

/-- An escaped character is read back, whatever follows it. -/
theorem readChar_jsonEscape (c : Char) (rest : List Char) : readChar (jsonEscape c ++ rest) = some (c, rest) := by
  have hofNat {n : Nat} (h : c.toNat = n) : Char.ofNat n = c := by rw [← h, Char.ofNat_toNat]
  unfold jsonEscape
  split_ifs with hquote hslash hn hr ht hb hf hplain hunit
  · subst hquote
    rfl
  · subst hslash
    rfl
  · subst hn
    rfl
  · subst hr
    rfl
  · subst ht
    rfl
  · rw [← hofNat hb]
    rfl
  · rw [← hofNat hf]
    rfl
  · simp [readChar, hquote, hslash]
  · exact readUnits_unit hunit
  · rw [List.append_assoc, List.cons_append, List.cons_append]
    exact readUnits_pair (by omega)

theorem jsonEscape_append_inj (h : jsonEscape c ++ rest = jsonEscape d ++ rest') : c = d ∧ rest = rest' := by
  have hread := congrArg readChar h
  rw [readChar_jsonEscape, readChar_jsonEscape] at hread
  simpa using hread

theorem jsonEscape_append_ne : jsonEscape c ++ rest ≠ '"' :: rest' := by
  intro h
  have hread := congrArg readChar h
  rw [readChar_jsonEscape] at hread
  cases hread

/-- A JSON string ends where its closing quote is, so what follows it can be told apart. -/
theorem jsonString_append_inj {s t : String} (h : (jsonString s).toList ++ rest = (jsonString t).toList ++ rest') :
    s = t ∧ rest = rest' := by
  simp only [jsonString, String.toList_ofList, List.cons_append, List.append_assoc, List.cons.injEq, true_and,
    List.nil_append] at h
  rw [← String.toList_inj]
  generalize s.toList = cs at h ⊢
  generalize t.toList = ds at h ⊢
  induction cs generalizing ds with
  | nil =>
    cases ds with
    | nil => simpa using h
    | cons d ds =>
      rw [List.flatMap_cons, List.append_assoc] at h
      exact absurd h.symm jsonEscape_append_ne
  | cons c cs ih =>
    cases ds with
    | nil =>
      rw [List.flatMap_cons, List.append_assoc] at h
      exact absurd h jsonEscape_append_ne
    | cons d ds =>
      rw [List.flatMap_cons, List.flatMap_cons, List.append_assoc, List.append_assoc] at h
      obtain ⟨rfl, hrest⟩ := jsonEscape_append_inj h
      obtain ⟨rfl, hrest'⟩ := ih ds hrest
      exact ⟨rfl, hrest'⟩

end Escapes

section Identity

/-- The text of a row in the identity of a queue. -/
def rowText (row : QueueRow) : String :=
  jsonObject
    [("base_cell", jsonString row.baseCell),
      ("factor_variants", jsonArray (row.factorVariants.map jsonString)),
      ("position", toString row.position), ("state", jsonString row.state.text)]

/-- The text that the digest of a queue is taken of. -/
def identityText (rows : List QueueRow) : String := jsonArray (rows.map rowText)

theorem queueIdentityDigest_eq (sha256 : String → String) (rows : List QueueRow) :
    queueIdentityDigest sha256 rows = sha256 (identityText rows) := rfl

/-- The members of an object after its first. -/
def laterMembers (members : List (String × String)) : List Char :=
  (members.flatMap fun m => ",".toList ++ (jsonString m.1 ++ ":" ++ m.2).toList) ++ "\x7d".toList

theorem jsonObject_cons (key value : String) (members : List (String × String)) :
    (jsonObject ((key, value) :: members)).toList =
      "\x7b".toList ++ (jsonString key ++ ":").toList ++ value.toList ++ laterMembers members := by
  rw [jsonObject, String.toList_append, String.toList_append, String.toList_intercalate, laterMembers]
  have hmembers (head : List Char) : ",".toList.intercalate (head :: (members.map fun m => jsonString m.1 ++ ":" ++ m.2).map String.toList) =
      head ++ members.flatMap fun m => ",".toList ++ (jsonString m.1 ++ ":" ++ m.2).toList := by
    induction members generalizing head with
    | nil => simp only [List.map_nil, List.intercalate_singleton, List.flatMap_nil, List.append_nil]
    | cons m members ih =>
      rw [List.map_cons, List.map_cons, List.intercalate_cons_cons, ih, List.flatMap_cons, List.append_assoc, List.append_assoc]
  rw [List.map_cons, List.map_cons, hmembers, String.toList_append]
  simp only [List.append_assoc]

/-- What of a row its base cell does not tell. -/
def restText (factorVariants : List String) (position : Nat) (state : RowState) : List Char :=
  laterMembers [("factor_variants", jsonArray (factorVariants.map jsonString)), ("position", toString position),
    ("state", jsonString state.text)]

theorem rowText_toList (row : QueueRow) :
    (rowText row).toList = "\x7b".toList ++ (jsonString "base_cell" ++ ":").toList ++ (jsonString row.baseCell).toList ++
      restText row.factorVariants row.position row.state :=
  jsonObject_cons ..

/-- Rows that differ in nothing but their base cells. -/
def SameShape (row row' : QueueRow) : Prop :=
  row.factorVariants = row'.factorVariants ∧ row.position = row'.position ∧ row.state = row'.state

theorem rowText_append_inj {row row' : QueueRow} {rest rest' : List Char} (hshape : SameShape row row')
    (h : (rowText row).toList ++ rest = (rowText row').toList ++ rest') : row.baseCell = row'.baseCell ∧ rest = rest' := by
  obtain ⟨hvariants, hposition, hstate⟩ := hshape
  rw [rowText_toList, rowText_toList, hvariants, hposition, hstate] at h
  simp only [List.append_assoc, List.append_cancel_left_eq] at h
  obtain ⟨hcell, h⟩ := jsonString_append_inj h
  exact ⟨hcell, List.append_cancel_left h⟩

/-- Queues of one shape with one text have the same base cells. -/
theorem identityText_inj {rows rows' : List QueueRow} (hshape : List.Forall₂ SameShape rows rows')
    (h : identityText rows = identityText rows') : rows.map QueueRow.baseCell = rows'.map QueueRow.baseCell := by
  have htexts : ",".toList.intercalate ((rows.map rowText).map String.toList) =
      ",".toList.intercalate ((rows'.map rowText).map String.toList) := by
    have hlist := congrArg String.toList h
    simp only [identityText, jsonArray, String.toList_append, String.toList_intercalate, List.append_assoc,
      List.append_cancel_left_eq] at hlist
    exact List.append_cancel_right hlist
  clear h
  induction hshape with
  | nil => rfl
  | @cons row row' rows rows' hrow hrows ih =>
    cases hrows with
    | nil =>
      simp only [List.map_cons, List.map_nil, List.intercalate_singleton] at htexts ⊢
      rw [(rowText_append_inj hrow (congrArg (· ++ []) htexts)).1]
    | cons hnext hrows =>
      simp only [List.map_cons, List.intercalate_cons_cons, List.append_assoc] at htexts
      obtain ⟨hcell, htexts⟩ := rowText_append_inj hrow htexts
      rw [List.map_cons, List.map_cons, hcell]
      exact congrArg _ (ih (List.append_cancel_left htexts))

end Identity

end FidbPoc.Coordinator
