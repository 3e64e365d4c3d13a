import Mathlib.Data.List.Basic

namespace FidbPoc.Lib.Patterns

/-- `str.isspace` of one character. -/
def isSpace (c : Char) : Bool :=
  let n := c.toNat
  (9 ≤ n && n ≤ 13) || (28 ≤ n && n ≤ 32) || n = 0x85 || n = 0xA0 || n = 0x1680 || (0x2000 ≤ n && n ≤ 0x200A) ||
    n = 0x2028 || n = 0x2029 || n = 0x202F || n = 0x205F || n = 0x3000

/-- `value == value.strip()`. -/
def isStripped (text : String) : Bool :=
  !(text.toList.head?.any isSpace) && !(text.toList.getLast?.any isSpace)

/-- `Path(text).is_absolute()`. -/
def isAbsolute (text : String) : Bool := text.toList.head? = some '/'

/-- `Path(text).parts`, without the root. -/
def parts (text : String) : List String :=
  ((text.toList.splitOn '/').map String.ofList).filter fun part => part ≠ "" ∧ part ≠ "."

def isHex (c : Char) : Bool := ('0' ≤ c && c ≤ '9') || ('a' ≤ c && c ≤ 'f')

/-- `[0-9a-f]{64}\Z`. -/
def isSha256 (text : String) : Bool := decide (text.toList.length = 64) && text.toList.all isHex

/-- `job-[0-9a-f]{64}\Z`. -/
def isJobId (text : String) : Bool :=
  text.toList.take 4 = "job-".toList && isSha256 (String.ofList (text.toList.drop 4))

def isWord (c : Char) : Bool :=
  ('a' ≤ c && c ≤ 'z') || ('A' ≤ c && c ≤ 'Z') || ('0' ≤ c && c ≤ '9') || c = '_' || c = '-'

/-- The length of `[1-9][0-9]*-` at the front of a text. -/
def generationMark (text : List Char) : Option Nat :=
  match text with
  | [] => none
  | c :: rest =>
    if '1' ≤ c ∧ c ≤ '9' then
      let digits := rest.takeWhile Char.isDigit
      if (rest.drop digits.length).head? = some '-' then some (digits.length + 2) else none
    else none

/-- The length of `job-[0-9a-f]{64}-g[1-9][0-9]*-[A-Za-z0-9_-]+` at the front of a text.
No part of the expression can match a character of the next, so the longest run of each is the only one. -/
def attemptMark (text : List Char) : Option Nat :=
  if text.take 4 = "job-".toList ∧ ((text.drop 4).take 64).length = 64 ∧ ((text.drop 4).take 64).all isHex ∧
      (text.drop 68).take 2 = "-g".toList then
    (generationMark (text.drop 70)).bind fun mark =>
      let word := (text.drop (70 + mark)).takeWhile isWord
      if word = [] then none else some (70 + mark + word.length)
  else none

/-- `_STAGING.fullmatch(name)`. -/
def isStagingName (name : String) : Bool := attemptMark name.toList = some name.toList.length

/-- Replace what `mark` finds, from the left; `skip` characters belong to the last find. -/
def substitute (mark : List Char → Option Nat) (replacement : List Char) : Nat → List Char → List Char
  | _, [] => []
  | skip + 1, _ :: rest => substitute mark replacement skip rest
  | 0, c :: rest =>
    match mark (c :: rest) with
    | some (length + 1) => replacement ++ substitute mark replacement length rest
    | _ => c :: substitute mark replacement 0 rest

/-- `text.replace(needle, replacement)` of a needle that is not empty. -/
def replace (text needle replacement : String) : String :=
  String.ofList (substitute (fun rest => if needle.toList <+: rest then some needle.toList.length else none)
    replacement.toList 0 text.toList)

/-- `re.sub(r"job-[0-9a-f]{64}-g[1-9][0-9]*-[A-Za-z0-9_-]+", replacement, text)`. -/
def replaceAttempts (text replacement : String) : String :=
  String.ofList (substitute attemptMark replacement.toList 0 text.toList)

inductive Token
  | star
  | question
  | set (negated : Bool) (members : List (Char × Char))
  | char (c : Char)
  deriving DecidableEq

/-- The members of a set, a single character being a range of its own. -/
def setMembers : List Char → List (Char × Char)
  | [] => []
  | c :: '-' :: d :: rest => (c, d) :: setMembers rest
  | c :: rest => (c, c) :: setMembers rest

/-- The inside of the set that a bracket opens: a `]` that comes first belongs to it. -/
def setBody (rest : List Char) : Option (Bool × List Char × List Char) :=
  let negated := rest.head? = some '!'
  let inside := if negated then rest.drop 1 else rest
  let first := if inside.head? = some ']' then 1 else 0
  let body := inside.take first ++ (inside.drop first).takeWhile (· ≠ ']')
  if body.length < inside.length then some (negated, body, inside.drop (body.length + 1)) else none

/-- The tokens of an `fnmatch` pattern; `fuel` bounds them by the length of the text. -/
def tokens : Nat → List Char → List Token
  | 0, _ => []
  | _, [] => []
  | fuel + 1, c :: rest =>
    if c = '*' then .star :: tokens fuel rest
    else if c = '?' then .question :: tokens fuel rest
    else if c = '[' then
      match setBody rest with
      | some (negated, body, rest) => .set negated (setMembers body) :: tokens fuel rest
      | none => .char '[' :: tokens fuel rest
    else .char c :: tokens fuel rest

def accepts : List Token → List Char → Bool
  | [], text => text.isEmpty
  | .star :: pattern, text => text.tails.any (accepts pattern)
  | .question :: pattern, text =>
    match text with
    | [] => false
    | _ :: text => accepts pattern text
  | .set negated members :: pattern, text =>
    match text with
    | [] => false
    | c :: text => (negated ^^ members.any fun m => m.1 ≤ c && c ≤ m.2) && accepts pattern text
  | .char c :: pattern, text =>
    match text with
    | [] => false
    | d :: text => decide (c = d) && accepts pattern text

/-- `fnmatch.fnmatchcase(text, pattern)`. -/
def fnmatch (text pattern : String) : Bool := accepts (tokens pattern.toList.length pattern.toList) text.toList

/-- Whether a pattern has a character with a meaning of its own. -/
def isMagic (pattern : String) : Bool := pattern.toList.any fun c => c = '*' || c = '?' || c = '['

example : fnmatch "work/logs/a.log" "work/*[!x].l?g" = true := by decide

end FidbPoc.Lib.Patterns
