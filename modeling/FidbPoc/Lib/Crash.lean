import FidbPoc.Lib.Checked

namespace FidbPoc.Lib.Crash

open FidbPoc.Lib.Checked

variable {ε σ α β : Type}

/-- A program with the states it passes after the one it starts in, in their order: a crash leaves one of them. -/
def Program (ε σ α : Type) := σ → List σ × Except ε α

/-- The state that a program leaves. -/
def after (s : σ) (passed : List σ) : σ := passed.getLastD s

def Program.bind (m : Program ε σ α) (f : α → Program ε σ β) : Program ε σ β := fun s =>
  match m s with
  | (passed, .error e) => (passed, .error e)
  | (passed, .ok a) => (passed ++ (f a (after s passed)).1, (f a (after s passed)).2)

instance monadProgram : Monad (Program ε σ) where
  pure a := fun _ => ([], .ok a)
  bind := Program.bind

/-- Look at the state, or raise. -/
def look (f : σ → Except ε α) : Program ε σ α := fun s => ([], f s)

/-- Change the state in one step, or raise. -/
def edit (f : σ → Except ε σ) : Program ε σ Unit := fun s =>
  match f s with
  | .ok t => ([t], .ok ())
  | .error e => ([], .error e)

/-- `try: m finally: cleanup`; what the cleanup raises replaces what `m` did. -/
def ending (m : Program ε σ α) (cleanup : Program ε σ Unit) : Program ε σ α := fun s =>
  let (passed, result) := m s
  let (more, cleaned) := cleanup (after s passed)
  (passed ++ more, cleaned >>= fun _ => result)

/-- Whatever a program starts from within `before`, every state it passes is in `inv`, and where it returns is in `post`. -/
structure Triple (inv before : σ → Prop) (m : Program ε σ α) (post : α → σ → Prop) : Prop where
  passes : ∀ s, before s → ∀ t ∈ (m s).1, inv t
  returns : ∀ s, before s → ∀ a, (m s).2 = .ok a → post a (after s (m s).1)

theorem after_append (s : σ) (passed more : List σ) : after s (passed ++ more) = after (after s passed) more := by
  cases more with
  | nil => rw [List.append_nil]; rfl
  | cons t more => simp [after, List.getLastD_eq_getLast?, List.getLast?_append]

theorem after_mem (s : σ) (passed : List σ) : after s passed = s ∨ after s passed ∈ passed := by
  rcases List.eq_nil_or_concat' passed with rfl | ⟨front, t, rfl⟩
  · exact .inl rfl
  · refine .inr ?_
    rw [after, List.getLastD_concat]
    exact List.mem_append_right _ (List.mem_singleton_self t)

namespace Triple

variable {inv before before' : σ → Prop} {m : Program ε σ α} {post post' : α → σ → Prop} {f : α → Program ε σ β}

theorem mono (h : Triple inv before m post) (hbefore : ∀ s, before' s → before s) (hpost : ∀ a s, post a s → post' a s) :
    Triple inv before' m post' where
  passes s hs := h.passes s (hbefore s hs)
  returns s hs a ha := hpost a _ (h.returns s (hbefore s hs) a ha)

theorem weaken {strong : σ → Prop} (h : Triple strong before m post) (hinv : ∀ s, strong s → inv s) : Triple inv before m post where
  passes s hs t ht := hinv t (h.passes s hs t ht)
  returns := h.returns

/-- Reason from one state at a time. -/
theorem start (h : ∀ s, before s → Triple inv (· = s) m post) : Triple inv before m post where
  passes s hs := (h s hs).passes s rfl
  returns s hs := (h s hs).returns s rfl

theorem given {fact : Prop} (h : fact → Triple inv before m post) : Triple inv (fun s => fact ∧ before s) m post where
  passes s hs := (h hs.1).passes s hs.2
  returns s hs := (h hs.1).returns s hs.2

theorem pure (a : α) (h : ∀ s, before s → post a s) : Triple inv before (Pure.pure a : Program ε σ α) post where
  passes _ _ _ ht := (List.not_mem_nil ht).elim
  returns s hs _ ha := Except.ok.inj ha ▸ h s hs

theorem look {f : σ → Except ε α} (h : ∀ s, before s → ∀ a, f s = .ok a → post a s) :
    Triple inv before (Crash.look f) post where
  passes _ _ _ ht := (List.not_mem_nil ht).elim
  returns s hs a ha := h s hs a ha

theorem edit {change : σ → Except ε σ} {post : Unit → σ → Prop}
    (h : ∀ s, before s → ∀ t, change s = .ok t → inv t ∧ post () t) : Triple inv before (Crash.edit change) post where
  passes s hs t ht := by
    unfold Crash.edit at ht
    cases hchange : change s with
    | error e =>
      rw [hchange] at ht
      exact (List.not_mem_nil ht).elim
    | ok u =>
      rw [hchange] at ht
      exact List.mem_singleton.mp ht ▸ (h s hs u hchange).1
  returns s hs a ha := by
    unfold Crash.edit at ha ⊢
    cases hchange : change s with
    | error e =>
      rw [hchange] at ha
      cases ha
    | ok u => exact (h s hs u hchange).2

theorem bind {post : β → σ → Prop} {middle : α → σ → Prop} (h : Triple inv before m middle)
    (hf : ∀ a, Triple inv (middle a) (f a) post) : Triple inv before (m >>= f) post where
  passes s hs t ht := by
    have hbind : (m >>= f) s = Program.bind m f s := rfl
    rw [hbind, Program.bind] at ht
    have hpassed := h.passes s hs
    have hreturns := h.returns s hs
    cases hm : m s with
    | mk passed result =>
      rw [hm] at ht hpassed hreturns
      cases result with
      | error e => exact hpassed t ht
      | ok a =>
        rcases List.mem_append.mp ht with ht | ht
        · exact hpassed t ht
        · exact (hf a).passes _ (hreturns a rfl) t ht
  returns s hs b hb := by
    have hbind : (m >>= f) s = Program.bind m f s := rfl
    rw [hbind, Program.bind] at hb ⊢
    have hreturns := h.returns s hs
    cases hm : m s with
    | mk passed result =>
      rw [hm] at hb hreturns
      cases result with
      | error e => cases hb
      | ok a =>
        dsimp only
        rw [after_append]
        exact (hf a).returns _ (hreturns a rfl) b hb

theorem lookBind (middle : α → σ → Prop) {look : σ → Except ε α} {post : β → σ → Prop}
    (h : ∀ s, before s → ∀ a, look s = .ok a → middle a s) (hf : ∀ a, Triple inv (middle a) (f a) post) :
    Triple inv before (Crash.look look >>= f) post := bind (Triple.look h) hf

theorem editBind (middle : σ → Prop) {change : σ → Except ε σ} {f : Unit → Program ε σ β} {post : β → σ → Prop}
    (h : ∀ s, before s → ∀ t, change s = .ok t → inv t ∧ middle t) (hf : Triple inv middle (f ()) post) :
    Triple inv before (Crash.edit change >>= f) post := bind (Triple.edit h) fun _ => hf

/-- A cleanup starts where the program returned, or in some state that the crash invariant holds of. -/
theorem ending {cleanup : Program ε σ Unit} (hbefore : ∀ s, before s → inv s) (h : Triple inv before m post)
    (hfail : Triple inv inv cleanup fun _ _ => True) (hdone : ∀ a, Triple inv (post a) cleanup fun _ => post' a) :
    Triple inv before (Crash.ending m cleanup) post' where
  passes s hs t ht := by
    rcases List.mem_append.mp ht with ht | ht
    · exact h.passes s hs t ht
    · refine hfail.passes _ ?_ t ht
      rcases after_mem s (m s).1 with heq | hmem
      · rw [heq]
        exact hbefore s hs
      · exact h.passes s hs _ hmem
  returns s hs a ha := by
    obtain ⟨u, hcleaned, hresult⟩ := bind_eq_ok.mp ha
    have hend := (hdone a).returns _ (h.returns s hs a hresult) u hcleaned
    rwa [← after_append] at hend

/-- A loop over rows, by what holds when some of them are done. -/
theorem forM {rows : List α} {body : α → Program ε σ Unit} {holds : List α → σ → Prop}
    (hbody : ∀ done row rest, rows = done ++ row :: rest → Triple inv (holds done) (body row) fun _ => holds (done ++ [row])) :
    Triple inv (holds []) (rows.forM body) fun _ => holds rows := by
  suffices hrun : ∀ done rest, rows = done ++ rest → Triple inv (holds done) (rest.forM body) fun _ => holds rows from
    hrun [] rows rfl
  intro done rest hrows
  induction rest generalizing done with
  | nil =>
    rw [List.append_nil] at hrows
    exact hrows ▸ Triple.pure () fun _ hs => hs
  | cons row rest ih =>
    have hstep := hbody done row rest hrows
    exact Triple.bind hstep fun _ => ih (done ++ [row]) (by rw [hrows, List.append_assoc]; rfl)

/-- A loop over rows that carries a value. -/
theorem foldlM {rows : List α} {body : β → α → Program ε σ β} {holds : List α → σ → Prop} {start : β}
    (hbody : ∀ total done row rest, rows = done ++ row :: rest →
      Triple inv (holds done) (body total row) fun _ => holds (done ++ [row])) :
    Triple inv (holds []) (rows.foldlM body start) fun _ => holds rows := by
  suffices hrun : ∀ total done rest, rows = done ++ rest →
      Triple inv (holds done) (rest.foldlM body total) fun _ => holds rows from hrun start [] rows rfl
  intro total done rest hrows
  induction rest generalizing total done with
  | nil =>
    rw [List.append_nil] at hrows
    exact hrows ▸ Triple.pure total fun _ hs => hs
  | cons row rest ih =>
    rw [List.foldlM_cons]
    exact Triple.bind (hbody total done row rest hrows) fun next => ih next (done ++ [row]) (by rw [hrows, List.append_assoc]; rfl)

end Triple

end FidbPoc.Lib.Crash
