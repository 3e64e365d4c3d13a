import Mathlib.Data.List.Basic

namespace FidbPoc.Lib

variable {σ ι : Type}

/-- One step of a run: what was asked for, and the states around it. -/
structure Step (σ ι : Type) where
  before : σ
  op : ι
  after : σ

/-- The finite runs of a transition relation, with every step they take. -/
inductive Run (next : σ → ι → σ → Prop) (s : σ) : List (Step σ ι) → σ → Prop
  | nil : Run next s [] s
  | snoc {trace : List (Step σ ι)} {t : σ} {op : ι} {u : σ} (h : Run next s trace t) (hn : next t op u) :
      Run next s (trace ++ [⟨t, op, u⟩]) u

namespace Run

variable {next : σ → ι → σ → Prop} {s t u : σ} {trace : List (Step σ ι)}

/-- What holds at the start and is kept by every step taken holds at the end. -/
theorem invariant {P : σ → Prop} (h : Run next s trace u) (hs : P s)
    (hstep : ∀ st ∈ trace, next st.before st.op st.after → P st.before → P st.after) : P u := by
  induction h with
  | nil => exact hs
  | snoc h hn ih =>
    have ht := ih fun st hm => hstep st (List.mem_append_left _ hm)
    exact hstep ⟨_, _, _⟩ (by simp) hn ht

/-- What holds at the start and is kept by every step taken holds before each of them. -/
theorem invariant_before {P : σ → Prop} (h : Run next s trace u) (hs : P s)
    (hstep : ∀ st ∈ trace, next st.before st.op st.after → P st.before → P st.after) :
    ∀ st ∈ trace, next st.before st.op st.after ∧ P st.before := by
  induction h with
  | nil =>
    intro st hst
    cases hst
  | @snoc trace _ _ _ h hn ih =>
    have hbefore : ∀ st ∈ trace, next st.before st.op st.after → P st.before → P st.after :=
      fun st hm => hstep st (List.mem_append_left _ hm)
    intro st hst
    obtain hst | hst := List.mem_append.mp hst
    · exact ih hbefore st hst
    · rw [List.mem_singleton.mp hst]
      exact ⟨hn, h.invariant hs hbefore⟩

/-- As `invariant`, with a bound that grows by one at every counted step. -/
theorem counted {P : Nat → σ → Prop} (count : Step σ ι → Bool) (h : Run next s trace u) (hs : P 0 s)
    (hstep : ∀ st ∈ trace, next st.before st.op st.after → ∀ n, P n st.before →
      P (if count st then n + 1 else n) st.after) : P (trace.countP count) u := by
  induction h with
  | nil => exact hs
  | snoc h hn ih =>
    have ht := ih fun st hm => hstep st (List.mem_append_left _ hm)
    have hu := hstep ⟨_, _, _⟩ (by simp) hn _ ht
    rw [List.countP_append, List.countP_singleton]
    split at hu
    · rename_i hc; simpa [hc] using hu
    · rename_i hc; simpa [hc] using hu

theorem append {xs ys : List (Step σ ι)} (h : Run next s xs t) (h' : Run next t ys u) :
    Run next s (xs ++ ys) u := by
  induction h' with
  | nil => simpa using h
  | snoc _ hn ih =>
    rw [← List.append_assoc]
    exact ih.snoc hn

theorem cons {op : ι} (hn : next s op t) (h : Run next t trace u) : Run next s (⟨s, op, t⟩ :: trace) u := by
  have hfirst : Run next s ([] ++ [⟨s, op, t⟩]) t := .snoc .nil hn
  exact hfirst.append h

/-- A run whose steps all meet a condition goes on with one that meets it. -/
theorem snoc_all {P : σ → ι → Prop} {op : ι} (h : Run next s trace t ∧ ∀ st ∈ trace, P st.before st.op) (hn : next t op u)
    (hp : P t op) : Run next s (trace ++ [⟨t, op, u⟩]) u ∧ ∀ st ∈ trace ++ [⟨t, op, u⟩], P st.before st.op := by
  refine ⟨h.1.snoc hn, fun st hst => ?_⟩
  obtain hst | hst := List.mem_append.mp hst
  · exact h.2 st hst
  · rw [List.mem_singleton.mp hst]
    exact hp

/-- Every step of a run parts it into the run before and the run after. -/
theorem split (h : Run next s trace u) {st : Step σ ι} (hst : st ∈ trace) :
    ∃ xs ys, Run next s xs st.before ∧ next st.before st.op st.after ∧ Run next st.after ys u := by
  induction h with
  | nil => cases hst
  | @snoc trace t op u h hn ih =>
    rcases List.mem_append.mp hst with hst | hst
    · obtain ⟨xs, ys, hbefore, hnext, hafter⟩ := ih hst
      exact ⟨xs, _, hbefore, hnext, hafter.snoc hn⟩
    · rw [List.mem_singleton.mp hst]
      exact ⟨trace, [], h, hn, .nil⟩

end Run

end FidbPoc.Lib
