import Mathlib.Data.List.Basic
import Mathlib.Data.String.Basic

namespace FidbPoc.Lib.Separators

/-- A part without the separator ends where the separator first stands. -/
theorem split_inj {α : Type} {x : α} {xs ys xs' ys' : List α} (h : x ∉ xs) (h' : x ∉ xs')
    (heq : xs ++ x :: ys = xs' ++ x :: ys') : xs = xs' ∧ ys = ys' := by
  induction xs generalizing xs' with
  | nil =>
    cases xs' with
    | nil => exact ⟨rfl, (List.cons.inj heq).2⟩
    | cons y xs' => exact absurd ((List.cons.inj heq).1 ▸ List.mem_cons_self) h'
  | cons y xs ih =>
    cases xs' with
    | nil => exact absurd ((List.cons.inj heq).1 ▸ List.mem_cons_self) h
    | cons y' xs' =>
      obtain ⟨rfl, hrest⟩ := List.cons.inj heq
      obtain ⟨rfl, rfl⟩ := ih (List.not_mem_of_not_mem_cons h) (List.not_mem_of_not_mem_cons h') hrest
      exact ⟨rfl, rfl⟩

theorem isDigit_repr {n : Nat} {c : Char} (h : c ∈ n.repr.toList) : c.isDigit = true := by
  rw [Nat.repr, String.toList_ofList] at h
  exact Nat.isDigit_of_mem_toDigits (by decide) (by decide) h

theorem repr_injective {m n : Nat} (h : m.repr = n.repr) : m = n := by
  have hdigits := congrArg (fun text : String => Nat.ofDigitChars 10 text.toList 0) h
  simpa only [Nat.repr, String.toList_ofList, Nat.ofDigitChars_ten_toDigits] using hdigits

theorem toList_negSucc (n : Nat) : (toString (Int.negSucc n)).toList = '-' :: (n + 1).repr.toList := by
  change ("-" ++ (n + 1).repr).toList = _
  rw [String.toList_append]
  rfl

/-- An integer is written with digits, behind a minus sign if it is negative. -/
theorem mem_toString_int {n : Int} {c : Char} (h : c ∈ (toString n).toList) : c = '-' ∨ c.isDigit = true := by
  cases n with
  | ofNat n => exact .inr (isDigit_repr h)
  | negSucc n =>
    rw [toList_negSucc] at h
    obtain rfl | h := List.mem_cons.mp h
    · exact .inl rfl
    · exact .inr (isDigit_repr h)

theorem toString_ofNat_ne_negSucc (m n : Nat) : toString (Int.ofNat m) ≠ toString (Int.negSucc n) := by
  intro heq
  have hmem : '-' ∈ (toString (Int.ofNat m)).toList := by
    rw [heq, toList_negSucc]
    exact List.mem_cons_self
  have hdigit := isDigit_repr (n := m) hmem
  revert hdigit
  decide

/-- The text of an integer tells it. -/
theorem toString_int_injective {m n : Int} (h : toString m = toString n) : m = n := by
  cases m with
  | ofNat m =>
    cases n with
    | ofNat n => rw [repr_injective h]
    | negSucc n => exact absurd h (toString_ofNat_ne_negSucc m n)
  | negSucc m =>
    cases n with
    | ofNat n => exact absurd h.symm (toString_ofNat_ne_negSucc n m)
    | negSucc n =>
      have hlist := congrArg String.toList h
      rw [toList_negSucc, toList_negSucc] at hlist
      have hsucc := repr_injective (String.toList_injective (List.cons.inj hlist).2)
      rw [Nat.succ.inj hsucc]

theorem not_mem_toString_int {n : Int} {c : Char} (hminus : c ≠ '-') (hdigit : c.isDigit = false) : c ∉ (toString n).toList := by
  intro h
  obtain h | h := mem_toString_int h
  · exact hminus h
  · rw [hdigit] at h
    cases h

end FidbPoc.Lib.Separators
