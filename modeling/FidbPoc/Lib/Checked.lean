import Mathlib.Data.List.Forall2

namespace FidbPoc.Lib.Checked

variable {ε α β σ τ ρ : Type}

/-- A guard of a statement sequence: go on, or raise. -/
def require (c : Prop) [Decidable c] (e : ε) : Except ε Unit :=
  if c then .ok () else .error e

theorem bind_eq_ok {x : Except ε α} {f : α → Except ε β} {b : β} :
    x >>= f = .ok b ↔ ∃ a, x = .ok a ∧ f a = .ok b := by
  cases x with
  | ok a => exact ⟨fun h => ⟨a, rfl, h⟩, fun ⟨_, ha, h⟩ => by cases ha; exact h⟩
  | error e => exact ⟨fun h => (by cases h), fun ⟨_, ha, _⟩ => by cases ha⟩

theorem bind_eq_error {x : Except ε α} {f : α → Except ε β} {e : ε} :
    x >>= f = .error e ↔ x = .error e ∨ ∃ a, x = .ok a ∧ f a = .error e := by
  cases x with
  | ok a => simp [bind, Except.bind]
  | error e' => simp [bind, Except.bind]

theorem map_eq_ok {x : Except ε α} {f : α → β} {b : β} :
    f <$> x = .ok b ↔ ∃ a, x = .ok a ∧ f a = b := by
  cases x with
  | ok a => exact ⟨fun h => ⟨a, rfl, Except.ok.inj h⟩, fun ⟨_, ha, h⟩ => by cases ha; exact congrArg _ h⟩
  | error e => exact ⟨fun h => (by cases h), fun ⟨_, ha, _⟩ => by cases ha⟩

theorem pure_eq_ok {a b : α} : (pure a : Except ε α) = .ok b ↔ a = b :=
  ⟨Except.ok.inj, congrArg _⟩

theorem require_eq_ok {c : Prop} [Decidable c] {e : ε} {u : Unit} : require c e = .ok u ↔ c := by
  by_cases h : c
  · simp [require, h]
  · simp [require, h]

theorem ok_bind (a : α) (f : α → Except ε β) : (Except.ok a >>= f) = f a := rfl

theorem error_bind (e : ε) (f : α → Except ε β) : (Except.error e >>= f) = .error e := rfl

/-- A statement in front of two computations of which one is the other's image. -/
theorem bind_map {γ : Type} {x : Except ε α} {f : α → Except ε γ} {g : α → Except ε β} {h : β → γ}
    (hf : ∀ a, f a = (g a).map h) : x >>= f = (x >>= g).map h := by
  cases x with
  | ok a => exact hf a
  | error e => rfl

/-- A checked map keeps the order, and every image is one that the check let pass. -/
theorem mapM_eq_ok {f : α → Except ε β} {xs : List α} {ys : List β} (h : xs.mapM f = .ok ys) :
    List.Forall₂ (fun x y => f x = .ok y) xs ys := by
  induction xs generalizing ys with
  | nil =>
    rw [List.mapM_nil, pure_eq_ok] at h
    exact h ▸ .nil
  | cons x xs ih =>
    simp only [List.mapM_cons, bind_eq_ok, pure_eq_ok] at h
    obtain ⟨y, hy, zs, hzs, rfl⟩ := h
    exact .cons hy (ih hzs)

/-- A loop whose iterations never raise does not raise. -/
theorem foldlM_total {step : σ → α → Except ε σ} (hstep : ∀ s r, ∃ s', step s r = .ok s')
    (rows : List α) (s : σ) : ∃ s', rows.foldlM step s = .ok s' := by
  induction rows generalizing s with
  | nil => exact ⟨s, rfl⟩
  | cons r rows ih =>
    obtain ⟨t, ht⟩ := hstep s r
    obtain ⟨s', hs'⟩ := ih t
    exact ⟨s', by rw [List.foldlM_cons, ht, ok_bind, hs']⟩

/-- What every iteration over the rows keeps holds after the loop. -/
theorem foldlM_invariant {P : σ → Prop} {step : σ → α → Except ε σ} {rows : List α} {s t : σ}
    (hstep : ∀ u v, ∀ r ∈ rows, P u → step u r = .ok v → P v) (hs : P s) (h : rows.foldlM step s = .ok t) : P t := by
  induction rows generalizing s with
  | nil => exact Except.ok.inj h ▸ hs
  | cons r rows ih =>
    rw [List.foldlM_cons, bind_eq_ok] at h
    obtain ⟨u, hu, h⟩ := h
    refine ih (fun u v r' hr' => hstep u v r' (List.mem_cons_of_mem r hr')) ?_ h
    exact hstep s u r List.mem_cons_self hs hu

/-- A loop returns when every row lets its iteration return, whatever the state. -/
theorem foldlM_isOk {P : α → Prop} {step : σ → α → Except ε σ} (hstep : ∀ s r, (∃ s', step s r = .ok s') ↔ P r)
    {rows : List α} {s : σ} : (∃ s', rows.foldlM step s = .ok s') ↔ ∀ r ∈ rows, P r := by
  induction rows generalizing s with
  | nil => exact ⟨fun _ => by simp, fun _ => ⟨s, rfl⟩⟩
  | cons r rows ih =>
    rw [List.foldlM_cons, List.forall_mem_cons, ← hstep s r]
    constructor
    · rintro ⟨_, h⟩
      obtain ⟨t, ht, h⟩ := bind_eq_ok.mp h
      exact ⟨⟨t, ht⟩, ih.mp ⟨_, h⟩⟩
    · rintro ⟨⟨t, ht⟩, hrows⟩
      obtain ⟨s', hs'⟩ := ih.mpr hrows
      exact ⟨s', by rw [ht, ok_bind, hs']⟩

/-- What the state holds after a loop is what it held before and what the rows brought. -/
theorem foldlM_collect {γ : Type} {Holds : σ → γ → Prop} {Brings : α → γ → Prop} {step : σ → α → Except ε σ}
    (hstep : ∀ s r s', step s r = .ok s' → ∀ x, Holds s' x ↔ Holds s x ∨ Brings r x) {rows : List α} {s t : σ}
    (h : rows.foldlM step s = .ok t) (x : γ) : Holds t x ↔ Holds s x ∨ ∃ r ∈ rows, Brings r x := by
  induction rows generalizing s with
  | nil =>
    cases h
    simp
  | cons r rows ih =>
    rw [List.foldlM_cons, bind_eq_ok] at h
    obtain ⟨u, hu, h⟩ := h
    rw [ih h, hstep s r u hu, or_assoc, List.exists_mem_cons_iff]

/-- A loop that raises does so in one iteration, after those before it returned. -/
theorem foldlM_eq_error {step : σ → α → Except ε σ} {rows : List α} {s : σ} {e : ε} (h : rows.foldlM step s = .error e) :
    ∃ earlier r rest t, rows = earlier ++ r :: rest ∧ earlier.foldlM step s = .ok t ∧ step t r = .error e := by
  induction rows generalizing s with
  | nil => cases h
  | cons r rows ih =>
    rw [List.foldlM_cons] at h
    rcases bind_eq_error.mp h with h | ⟨t, ht, h⟩
    · exact ⟨[], r, rows, s, rfl, rfl, h⟩
    · obtain ⟨earlier, r', rest, u, rfl, hu, he⟩ := ih h
      exact ⟨r :: earlier, r', rest, u, rfl, by rw [List.foldlM_cons, ht, ok_bind, hu], he⟩

/-- Whatever a computation raises satisfies `p`. -/
def RaisesOnly (p : ε → Prop) (x : Except ε α) : Prop := ∀ e, x = .error e → p e

namespace RaisesOnly

variable {p : ε → Prop}

theorem ok (a : α) : RaisesOnly p (.ok a) := fun _ h => by cases h

theorem error {e : ε} (h : p e) : RaisesOnly p (.error e : Except ε α) := fun _ he => Except.error.inj he ▸ h

theorem require {c : Prop} [Decidable c] {e : ε} (h : ¬c → p e) : RaisesOnly p (require c e) := by
  unfold FidbPoc.Lib.Checked.require
  split
  · exact .ok _
  · rename_i hc
    exact .error (h hc)

theorem bind {x : Except ε α} {f : α → Except ε β} (hx : RaisesOnly p x)
    (hf : ∀ a, x = .ok a → RaisesOnly p (f a)) : RaisesOnly p (x >>= f) := by
  intro e he
  rcases bind_eq_error.mp he with he | ⟨a, ha, he⟩
  · exact hx e he
  · exact hf a ha e he

theorem map {x : Except ε α} {f : α → β} (hx : RaisesOnly p x) : RaisesOnly p (f <$> x) := by
  cases x with
  | ok a => exact .ok (f a)
  | error e => exact .error (hx e rfl)

theorem foldlM {step : σ → α → Except ε σ} (hstep : ∀ s r, RaisesOnly p (step s r)) (rows : List α) (s : σ) :
    RaisesOnly p (rows.foldlM step s) := by
  induction rows generalizing s with
  | nil => exact .ok s
  | cons r rows ih =>
    rw [List.foldlM_cons]
    exact (hstep s r).bind fun t _ => ih t

end RaisesOnly

/-- Two computations that return the same value, or both raise. -/
def Agree (x y : Except ε α) : Prop := ∀ a, x = .ok a ↔ y = .ok a

namespace Agree

theorem refl (x : Except ε α) : Agree x x := fun _ => Iff.rfl

theorem symm {x y : Except ε α} (h : Agree x y) : Agree y x := fun a => (h a).symm

theorem trans {x y z : Except ε α} (h : Agree x y) (h' : Agree y z) : Agree x z := fun a => (h a).trans (h' a)

theorem of_eq {x y : Except ε α} (h : x = y) : Agree x y := h ▸ refl x

theorem bind {x y : Except ε α} {f g : α → Except ε β} (h : Agree x y) (hf : ∀ a, Agree (f a) (g a)) :
    Agree (x >>= f) (y >>= g) := by
  intro b
  rw [bind_eq_ok, bind_eq_ok]
  exact exists_congr fun a => and_congr (h a) (hf a b)

theorem map {x y : Except ε α} (f : α → β) (h : Agree x y) : Agree (f <$> x) (f <$> y) := by
  intro b
  rw [map_eq_ok, map_eq_ok]
  exact exists_congr fun a => and_congr (h a) Iff.rfl

end Agree

/-- Two computations raise the same exception, or return related values. -/
inductive Simulates (r : α → β → Prop) : Except ε α → Except ε β → Prop
  | ok {a : α} {b : β} : r a b → Simulates r (.ok a) (.ok b)
  | error (e : ε) : Simulates r (.error e) (.error e)

namespace Simulates

theorem of_ok {r : α → β → Prop} {x : Except ε α} {y : Except ε β} {a : α} (h : Simulates r x y) (hx : x = .ok a) :
    ∃ b, y = .ok b ∧ r a b := by
  subst hx
  cases h with
  | ok h => exact ⟨_, rfl, h⟩

theorem to_ok {r : α → β → Prop} {x : Except ε α} {y : Except ε β} {b : β} (h : Simulates r x y) (hy : y = .ok b) :
    ∃ a, x = .ok a ∧ r a b := by
  subst hy
  cases h with
  | ok h => exact ⟨_, rfl, h⟩

theorem bind {r : α → β → Prop} {q : σ → τ → Prop} {x : Except ε α} {y : Except ε β} {f : α → Except ε σ}
    {g : β → Except ε τ} (h : Simulates r x y) (hf : ∀ a b, r a b → Simulates q (f a) (g b)) :
    Simulates q (x >>= f) (y >>= g) := by
  cases h with
  | ok h => exact hf _ _ h
  | error e => exact .error e

/-- Two loops over the same rows stay related when their bodies are. -/
theorem foldlM {r : σ → τ → Prop} {f : σ → ρ → Except ε σ} {g : τ → ρ → Except ε τ}
    (hstep : ∀ s t row, r s t → Simulates r (f s row) (g t row)) (rows : List ρ) {s : σ} {t : τ} (h : r s t) :
    Simulates r (rows.foldlM f s) (rows.foldlM g t) := by
  induction rows generalizing s t with
  | nil => exact .ok h
  | cons row rows ih =>
    simp only [List.foldlM_cons]
    exact (hstep s t row h).bind fun _ _ h => ih h

end Simulates

theorem foldlM_flatMap (g : α → List ρ) (step : σ → ρ → Except ε σ) (xs : List α) (s : σ) :
    (xs.flatMap g).foldlM step s = xs.foldlM (fun s x => (g x).foldlM step s) s := by
  induction xs generalizing s with
  | nil => rfl
  | cons x xs ih =>
    rw [List.flatMap_cons, List.foldlM_append, List.foldlM_cons]
    exact bind_congr fun t => ih t

/-- A loop that checks each row and then updates is a checked map and a plain loop. -/
theorem foldlM_mapM (f : ρ → Except ε α) (g : σ → α → σ) (rows : List ρ) (s : σ) :
    rows.foldlM (fun s row => do let a ← f row; pure (g s a)) s = (do let xs ← rows.mapM f; pure (xs.foldl g s)) := by
  induction rows generalizing s with
  | nil => rfl
  | cons row rows ih =>
    rw [List.foldlM_cons, List.mapM_cons]
    cases f row with
    | error e => rfl
    | ok a =>
      simp only [ok_bind, pure_bind, ih]
      cases rows.mapM f with
      | error e => rfl
      | ok xs => rfl

/-- A loop that prepares each row and then steps returns what the steps over all
prepared rows return. -/
theorem foldlM_prepare {f : ρ → Except ε α} {step : σ → α → Except ε σ} {rows : List ρ} {s t : σ} :
    rows.foldlM (fun s row => do let a ← f row; step s a) s = .ok t ↔
      ∃ xs, rows.mapM f = .ok xs ∧ xs.foldlM step s = .ok t := by
  induction rows generalizing s with
  | nil => simp [pure_eq_ok]
  | cons row rows ih =>
    simp only [List.foldlM_cons, List.mapM_cons, bind_eq_ok, pure_eq_ok, ih]
    constructor
    · rintro ⟨u, ⟨a, ha, hu⟩, xs, hxs, ht⟩
      exact ⟨a :: xs, ⟨a, ha, xs, hxs, rfl⟩, by rw [List.foldlM_cons, hu, ok_bind, ht]⟩
    · rintro ⟨_, ⟨a, ha, xs, hxs, rfl⟩, ht⟩
      rw [List.foldlM_cons, bind_eq_ok] at ht
      obtain ⟨u, hu, ht⟩ := ht
      exact ⟨u, ⟨a, ha, hu⟩, xs, hxs, ht⟩

/-- The value that a computation returns, or a default. -/
def value [Inhabited α] : Except ε α → α
  | .ok a => a
  | .error _ => default

/-- A checked map returns when every image does, and then it is the map of the values. -/
theorem mapM_eq_ok_iff [Inhabited α] {f : ρ → Except ε α} {rows : List ρ} {xs : List α} :
    rows.mapM f = .ok xs ↔ (∀ row ∈ rows, ∃ a, f row = .ok a) ∧ xs = rows.map (fun row => value (f row)) := by
  induction rows generalizing xs with
  | nil =>
    rw [List.mapM_nil, pure_eq_ok]
    simp [eq_comm]
  | cons row rows ih =>
    simp only [List.mapM_cons, bind_eq_ok, pure_eq_ok, ih, List.forall_mem_cons, List.map_cons]
    constructor
    · rintro ⟨a, ha, _, ⟨hall, rfl⟩, rfl⟩
      exact ⟨⟨⟨a, ha⟩, hall⟩, by rw [ha]; rfl⟩
    · rintro ⟨⟨⟨a, ha⟩, hall⟩, rfl⟩
      exact ⟨a, ha, _, ⟨hall, rfl⟩, by rw [ha]; rfl⟩

theorem mapM_mem {f : ρ → Except ε α} {rows : List ρ} {xs : List α} (h : rows.mapM f = .ok xs) :
    ∀ row ∈ rows, ∃ a ∈ xs, f row = .ok a := by
  have hrows := mapM_eq_ok h
  clear h
  induction hrows with
  | nil => exact fun _ hr => (List.not_mem_nil hr).elim
  | cons ha _ ih =>
    refine List.forall_mem_cons.mpr ⟨⟨_, List.mem_cons_self, ha⟩, fun row hr => ?_⟩
    obtain ⟨a, hmem, ha⟩ := ih row hr
    exact ⟨a, List.mem_cons_of_mem _ hmem, ha⟩

theorem mem_mapM {f : ρ → Except ε α} {rows : List ρ} {xs : List α} (h : rows.mapM f = .ok xs) :
    ∀ a ∈ xs, ∃ row ∈ rows, f row = .ok a := by
  have hrows := mapM_eq_ok h
  clear h
  induction hrows with
  | nil => exact fun _ ha => (List.not_mem_nil ha).elim
  | cons ha _ ih =>
    refine List.forall_mem_cons.mpr ⟨⟨_, List.mem_cons_self, ha⟩, fun a hmem => ?_⟩
    obtain ⟨row, hrow, ha⟩ := ih a hmem
    exact ⟨row, List.mem_cons_of_mem _ hrow, ha⟩

/-- Images of distinct rows are distinct when no two rows share one. -/
theorem nodup_mapM {f : ρ → Except ε α} {rows : List ρ} {xs : List α} (h : rows.mapM f = .ok xs) (hrows : rows.Nodup)
    (hf : ∀ x ∈ rows, ∀ y ∈ rows, ∀ a, f x = .ok a → f y = .ok a → x = y) : xs.Nodup := by
  induction rows generalizing xs with
  | nil =>
    rw [List.mapM_nil, pure_eq_ok] at h
    exact h ▸ List.nodup_nil
  | cons row rows ih =>
    simp only [List.mapM_cons, bind_eq_ok, pure_eq_ok] at h
    obtain ⟨a, ha, rest, hrest, rfl⟩ := h
    obtain ⟨hrow, hrows⟩ := List.nodup_cons.mp hrows
    refine List.nodup_cons.mpr ⟨fun hmem => ?_, ih hrest hrows fun x hx y hy =>
      hf x (List.mem_cons_of_mem row hx) y (List.mem_cons_of_mem row hy)⟩
    obtain ⟨other, hother, heq⟩ := mem_mapM hrest a hmem
    exact hrow (hf row List.mem_cons_self other (List.mem_cons_of_mem row hother) a ha heq ▸ hother)

/-- A map after a checked map may as well be taken of each image. -/
theorem mapM_map (f : ρ → Except ε α) (g : α → β) (rows : List ρ) :
    (rows.mapM fun row => (f row).map g) = (rows.mapM f).map (List.map g) := by
  induction rows with
  | nil => rfl
  | cons row rows ih =>
    rw [List.mapM_cons, List.mapM_cons, ih]
    cases f row with
    | error e => rfl
    | ok b => cases rows.mapM f <;> rfl

/-- An image of a checked map, known row by row. -/
theorem map_mapM {f : ρ → Except ε α} {p : α → β} {q : ρ → β} {rows : List ρ} {xs : List α}
    (h : rows.mapM f = .ok xs) (hp : ∀ row ∈ rows, ∃ a, f row = .ok a ∧ p a = q row) : xs.map p = rows.map q := by
  have hrows := mapM_eq_ok h
  clear h
  induction hrows with
  | nil => rfl
  | cons ha _ ih =>
    obtain ⟨⟨b, hb, hpb⟩, hp⟩ := List.forall_mem_cons.mp hp
    obtain rfl := Except.ok.inj (ha.symm.trans hb)
    rw [List.map_cons, List.map_cons, hpb, ih hp]

theorem mapM_total {f : ρ → Except ε α} {rows : List ρ} (h : ∀ row ∈ rows, ∃ a, f row = .ok a) :
    ∃ xs, rows.mapM f = .ok xs := by
  induction rows with
  | nil => exact ⟨[], rfl⟩
  | cons row rows ih =>
    obtain ⟨⟨a, ha⟩, hrows⟩ := List.forall_mem_cons.mp h
    obtain ⟨xs, hxs⟩ := ih hrows
    exact ⟨a :: xs, by rw [List.mapM_cons, ha, ok_bind, hxs]; rfl⟩

theorem mapM_of_ok {f : ρ → Except ε α} {g : ρ → α} {rows : List ρ} (h : ∀ row ∈ rows, f row = .ok (g row)) :
    rows.mapM f = .ok (rows.map g) := by
  obtain ⟨xs, hxs⟩ := mapM_total fun row hrow => ⟨g row, h row hrow⟩
  have hmap : xs.map id = rows.map g := map_mapM hxs fun row hrow => ⟨g row, h row hrow, rfl⟩
  rw [hxs, ← hmap, List.map_id]

/-- Two checked maps in a row, when every image passes both checks. -/
theorem mapM_bind_total [Inhabited β] {f : ρ → Except ε α} {g : α → Except ε β} (rows : List ρ)
    (h : ∀ row ∈ rows, ∃ b, f row >>= g = .ok b) :
    ∃ xs, rows.mapM f = .ok xs ∧ xs.mapM g = .ok (rows.map fun row => value (f row >>= g)) := by
  induction rows with
  | nil => exact ⟨[], rfl, rfl⟩
  | cons row rows ih =>
    obtain ⟨hrow, hrows⟩ := List.forall_mem_cons.mp h
    obtain ⟨b, hb⟩ := hrow
    obtain ⟨a, ha, hab⟩ := bind_eq_ok.mp hb
    obtain ⟨xs, hxs, hys⟩ := ih hrows
    refine ⟨a :: xs, ?_, ?_⟩
    · rw [List.mapM_cons, ha, ok_bind, hxs]
      rfl
    · rw [List.mapM_cons, hab, ok_bind, hys, List.map_cons, hb]
      rfl

end FidbPoc.Lib.Checked
