import FidbPoc.Lib.Lexicographic
import Mathlib.Algebra.Order.Ring.Nat

namespace FidbPoc.Lib.Python

/-- The value of an ASCII hexadecimal digit. -/
def hexValue (c : Char) : Option Nat :=
  if '0' ≤ c ∧ c ≤ '9' then some (c.toNat - 48)
  else if 'a' ≤ c ∧ c ≤ 'f' then some (c.toNat - 87)
  else if 'A' ≤ c ∧ c ≤ 'F' then some (c.toNat - 55)
  else none

/-- Read on after a digit: more digits, each after at most one underscore. -/
def hexTail (value : Nat) : List Char → Option Nat
  | [] => some value
  | c :: rest =>
    match hexValue c with
    | some d => hexTail (16 * value + d) rest
    | none =>
      match c, rest with
      | '_', c' :: rest' =>
        match hexValue c' with
        | some d => hexTail (16 * value + d) rest'
        | none => none
      | _, _ => none

def hexNumber : List Char → Option Nat
  | [] => none
  | c :: rest => (hexValue c).bind fun d => hexTail d rest

def isBlank (c : Char) : Bool := c = ' ' || (9 ≤ c.toNat && c.toNat ≤ 13)

/-- Drop a `0x` and the one underscore that may follow it. -/
def dropHexMark : List Char → List Char
  | '0' :: x :: rest =>
    if x = 'x' ∨ x = 'X' then
      match rest with
      | '_' :: rest' => rest'
      | _ => rest
    else '0' :: x :: rest
  | text => text

def signed : List Char → Option Int
  | '-' :: rest => (hexNumber (dropHexMark rest)).map fun n => -(n : Int)
  | '+' :: rest => (hexNumber (dropHexMark rest)).map Int.ofNat
  | text => (hexNumber (dropHexMark text)).map Int.ofNat

/-- `int(text, 16)`; `none` where it raises `ValueError`. -/
def intBase16 (text : String) : Option Int :=
  signed ((text.toList.dropWhile isBlank).reverse.dropWhile isBlank).reverse

section Hexadecimal

open Lexicographic

def hexDigits : List Char := ['0', '1', '2', '3', '4', '5', '6', '7', '8', '9', 'a', 'b', 'c', 'd', 'e', 'f']

def digit (c : Char) : Nat := (hexValue c).getD 0

theorem hexValue_digit {c : Char} (h : c ∈ hexDigits) : hexValue c = some (digit c) ∧ digit c < 16 := by
  have hall : hexDigits.all (fun c => hexValue c = some (digit c) ∧ digit c < 16) = true := by decide
  simpa using List.all_eq_true.mp hall c h

/-- Lowercase hexadecimal digits are ordered as their values are. -/
theorem compare_digit {c d : Char} (hc : c ∈ hexDigits) (hd : d ∈ hexDigits) :
    compare (digit c) (digit d) = compare c d := by
  have hall : hexDigits.all (fun c => hexDigits.all fun d => compare (digit c) (digit d) = compare c d) = true := by
    decide
  simpa using List.all_eq_true.mp (List.all_eq_true.mp hall c hc) d hd

theorem hexTail_digits {text : List Char} (h : ∀ c ∈ text, c ∈ hexDigits) (start : Nat) :
    hexTail start text = some (value 16 start (text.map digit)) := by
  induction text generalizing start with
  | nil => rfl
  | cons c text ih =>
    have hstep : hexTail start (c :: text) = hexTail (16 * start + digit c) text := by
      conv_lhs => unfold hexTail
      rw [(hexValue_digit (h c List.mem_cons_self)).1]
    rw [hstep]
    exact ih (fun d hd => h d (List.mem_cons_of_mem c hd)) _

theorem dropHexMark_digits {text : List Char} (h : ∀ c ∈ text, c ∈ hexDigits) : dropHexMark text = text := by
  unfold dropHexMark
  split
  · rename_i x rest
    have hx : x ∈ hexDigits := h x (by simp)
    have hnot : ¬(x = 'x' ∨ x = 'X') := by
      rintro (rfl | rfl) <;> exact absurd hx (by decide)
    rw [if_neg hnot]
  · rfl

/-- A text of lowercase hexadecimal digits stands for their number. -/
theorem intBase16_digits {text : String} (hne : text.toList ≠ []) (h : ∀ c ∈ text.toList, c ∈ hexDigits) :
    intBase16 text = some (value 16 0 (text.toList.map digit) : Nat) := by
  have hblank : ∀ cs : List Char, (∀ c ∈ cs, c ∈ hexDigits) → cs.dropWhile isBlank = cs := by
    intro cs hcs
    cases cs with
    | nil => rfl
    | cons c cs =>
      have hc : isBlank c = false := by
        have hall : hexDigits.all (fun c => !isBlank c) = true := by decide
        simpa using List.all_eq_true.mp hall c (hcs c List.mem_cons_self)
      rw [List.dropWhile_cons, hc]
      rfl
  rw [intBase16, hblank _ h, hblank _ fun c hc => h c (List.mem_reverse.mp hc), List.reverse_reverse]
  generalize text.toList = cs at h hne
  have hnumber : hexNumber (dropHexMark cs) = some (value 16 0 (cs.map digit)) := by
    rw [dropHexMark_digits h]
    cases cs with
    | nil => exact (hne rfl).elim
    | cons c cs =>
      rw [hexNumber, (hexValue_digit (h c List.mem_cons_self)).1, Option.bind_some,
        hexTail_digits fun d hd => h d (List.mem_cons_of_mem c hd)]
      simp [value]
  unfold signed
  split
  · exact absurd (h '-' (by simp)) (by decide)
  · exact absurd (h '+' (by simp)) (by decide)
  · rw [hnumber]
    rfl

end Hexadecimal

/-- `left ^ right` of a non-negative left operand. -/
def xor (left : Nat) : Int → Int
  | .ofNat right => Int.ofNat (left ^^^ right)
  | .negSucc right => Int.negSucc (left ^^^ right)

def zeroFill (width : Nat) (digits : List Char) : List Char :=
  List.replicate (width - digits.length) '0' ++ digits

/-- `format(value, "016x")`. -/
def format016x : Int → String
  | .ofNat n => String.ofList (zeroFill 16 (Nat.toDigits 16 n))
  | .negSucc n => String.ofList ('-' :: zeroFill 15 (Nat.toDigits 16 (n + 1)))

/-- `format(value, "03d")`. -/
def format03d (value : Nat) : String := String.ofList (zeroFill 3 (Nat.toDigits 10 value))

/-- `int(text)` of decimal digits; `none` for any other text. -/
def decimal (digits : List Char) : Option Nat :=
  if digits ≠ [] ∧ digits.all Char.isDigit then some (Nat.ofDigitChars 10 digits 0) else none

theorem isDigit_format03d {value : Nat} {c : Char} (h : c ∈ (format03d value).toList) : c.isDigit = true := by
  have hmem : c ∈ List.replicate (3 - (Nat.toDigits 10 value).length) '0' ∨ c ∈ Nat.toDigits 10 value := by
    simpa [format03d, zeroFill] using h
  rcases hmem with hzero | hdigit
  · rw [(List.mem_replicate.mp hzero).2]
    decide
  · exact Nat.isDigit_of_mem_toDigits (by decide) (by decide) hdigit

/-- The number is read back, however many digits it has. -/
theorem decimal_format03d (value : Nat) : decimal (format03d value).toList = some value := by
  have hne : (format03d value).toList ≠ [] := by
    simp [format03d, zeroFill, Nat.toDigits_ne_nil]
  have hall : (format03d value).toList.all Char.isDigit = true := List.all_eq_true.mpr fun c hc => isDigit_format03d hc
  rw [decimal, if_pos ⟨hne, hall⟩, format03d, String.toList_ofList, zeroFill, Nat.ofDigitChars_append,
    Nat.ofDigitChars_replicate_zero, Nat.mul_zero, Nat.ofDigitChars_ten_toDigits]

/-- A number below a thousand has exactly three digits. -/
theorem format03d_eq {value : Nat} (h : value < 1000) : (format03d value).toList =
    [Nat.digitChar (value / 100), Nat.digitChar (value / 10 % 10), Nat.digitChar (value % 10)] := by
  have hall : (List.range 1000).all (fun n => zeroFill 3 (Nat.toDigits 10 n) =
      [Nat.digitChar (n / 100), Nat.digitChar (n / 10 % 10), Nat.digitChar (n % 10)]) = true := by
    decide +kernel
  rw [format03d, String.toList_ofList]
  exact of_decide_eq_true (List.all_eq_true.mp hall value (List.mem_range.mpr h))

theorem digitChar_lt {m n : Nat} (hm : m < n) (hn : n < 10) : Nat.digitChar m < Nat.digitChar n := by
  have hall : ∀ n < 10, ∀ m < n, Nat.digitChar m < Nat.digitChar n := by decide
  exact hall n hn m hm

/-- Numbers of three digits are ordered as text as they are as numbers, whatever follows. -/
theorem format03d_lt {m n : Nat} (hmn : m < n) (hn : n < 1000) (rest : List Char) :
    (format03d m).toList ++ rest < (format03d n).toList ++ rest := by
  rw [format03d_eq (hmn.trans hn), format03d_eq hn]
  simp only [List.cons_append, List.nil_append, List.cons_lt_cons_iff]
  by_cases hhundreds : m / 100 < n / 100
  · exact .inl (digitChar_lt hhundreds (by omega))
  · have hsame : m / 100 = n / 100 := by omega
    by_cases htens : m / 10 % 10 < n / 10 % 10
    · exact .inr ⟨by rw [hsame], .inl (digitChar_lt htens (by omega))⟩
    · have htens' : m / 10 % 10 = n / 10 % 10 := by omega
      exact .inr ⟨by rw [hsame], .inr ⟨by rw [htens'], .inl (digitChar_lt (by omega) (by omega))⟩⟩

theorem format03d_injective : Function.Injective format03d := by
  intro m n h
  have hread := decimal_format03d m
  rw [h, decimal_format03d n] at hread
  exact (Option.some.inj hread).symm

example : intBase16 " 0xfF_0 " = some 4080 := by decide

example : format016x (xor 255 16) = "00000000000000ef" := by decide

end FidbPoc.Lib.Python
