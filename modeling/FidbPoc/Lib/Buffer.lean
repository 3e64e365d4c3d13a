import FidbPoc.Lib.Checked

namespace FidbPoc.Lib

/-- A consumer behind a buffer. -/
structure Buffer (α σ : Type) where
  pending : List α
  sink : σ

namespace Buffer

open Checked

variable {ε α σ ρ : Type} (eat : σ → α → Except ε σ) (known : List α → α → Bool) (full : List α → Bool)

def flush (b : Buffer α σ) : Except ε (Buffer α σ) := do
  let sink ← b.pending.foldlM eat b.sink
  pure ⟨[], sink⟩

/-- Take in one item unless it is known, and flush a full buffer. -/
def offer (b : Buffer α σ) (x : α) : Except ε (Buffer α σ) :=
  if known b.pending x then pure b
  else if full (b.pending ++ [x]) then flush eat ⟨b.pending ++ [x], b.sink⟩
  else pure ⟨b.pending ++ [x], b.sink⟩

variable {eat known full}

theorem flush_eq_ok {b c : Buffer α σ} :
    flush eat b = .ok c ↔ c.pending = [] ∧ b.pending.foldlM eat b.sink = .ok c.sink := by
  obtain ⟨pending, sink⟩ := c
  simp only [flush, bind_eq_ok, pure_eq_ok, Buffer.mk.injEq]
  constructor
  · rintro ⟨a, ha, hp, rfl⟩
    exact ⟨hp.symm, ha⟩
  · rintro ⟨rfl, h⟩
    exact ⟨sink, h, rfl, rfl⟩

/-- One offered item, seen through a final flush: the consumer eats it last. -/
theorem drain_offer (hknown : ∀ xs x s t, known xs x = true → xs.foldlM eat s = .ok t → eat t x = .ok t)
    {b : Buffer α σ} {x : α} {s : σ} :
    (∃ c, offer eat known full b x = .ok c ∧ c.pending.foldlM eat c.sink = .ok s) ↔
      (b.pending ++ [x]).foldlM eat b.sink = .ok s := by
  unfold offer
  split
  · rename_i hk
    simp only [pure_eq_ok, exists_eq_left', List.foldlM_append, bind_eq_ok, List.foldlM_cons, List.foldlM_nil]
    constructor
    · exact fun h => ⟨s, h, s, hknown _ _ _ _ hk h, rfl⟩
    · rintro ⟨t, ht, t', ht', rfl⟩
      rw [hknown _ _ _ _ hk ht] at ht'
      exact Except.ok.inj ht' ▸ ht
  · split
    · constructor
      · rintro ⟨c, hc, hs⟩
        obtain ⟨hp, hc⟩ := flush_eq_ok.mp hc
        rw [hp, List.foldlM_nil, pure_eq_ok] at hs
        exact hs ▸ hc
      · exact fun h => ⟨⟨[], s⟩, flush_eq_ok.mpr ⟨rfl, h⟩, rfl⟩
    · simp only [pure_eq_ok, exists_eq_left']

/-- Where the buffer is cut, and what it drops as known, do not change what the
consumer ends with. -/
theorem foldlM_offer (hknown : ∀ xs x s t, known xs x = true → xs.foldlM eat s = .ok t → eat t x = .ok t)
    (xs : List α) (b : Buffer α σ) {s : σ} :
    (∃ c, xs.foldlM (offer eat known full) b = .ok c ∧ c.pending.foldlM eat c.sink = .ok s) ↔
      (b.pending ++ xs).foldlM eat b.sink = .ok s := by
  induction xs generalizing b with
  | nil => simp [pure_eq_ok]
  | cons x xs ih =>
    have hsplit : b.pending ++ x :: xs = (b.pending ++ [x]) ++ xs := by simp
    rw [hsplit, List.foldlM_append, bind_eq_ok]
    simp only [List.foldlM_cons, bind_eq_ok]
    constructor
    · rintro ⟨c, ⟨d, hd, hc⟩, hs⟩
      have h := (ih d).mp ⟨c, hc, hs⟩
      rw [List.foldlM_append, bind_eq_ok] at h
      obtain ⟨t, ht, hs⟩ := h
      exact ⟨t, (drain_offer hknown).mp ⟨d, hd, ht⟩, hs⟩
    · rintro ⟨t, ht, hs⟩
      obtain ⟨d, hd, ht⟩ := (drain_offer hknown).mpr ht
      have h : (d.pending ++ xs).foldlM eat d.sink = .ok s := by
        rw [List.foldlM_append, ht, ok_bind, hs]
      obtain ⟨c, hc, hs⟩ := (ih d).mpr h
      exact ⟨c, ⟨d, hd, hc⟩, hs⟩

end Buffer

end FidbPoc.Lib
