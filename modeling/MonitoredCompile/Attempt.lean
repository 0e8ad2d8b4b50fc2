/-
MonitoredCompile/Attempt.lean

Attempts: computations that change a state and may fail, where whatever was
changed before a failure stays changed.  `exec` runs one and gives its result
with the state that it leaves; it passes through each way of building an attempt
by one equation.

`Keeps R E` is what most statements about attempts need: in whatever state it
starts, the attempt leaves one that is related by `R`, and if it fails, then with
an error in `E`.  There is again one lemma for each way of building an attempt.
-/
namespace MonitoredCompile

/-- A computation that changes a state and may fail. -/
abbrev Attempt (ε σ α : Type) := ExceptT ε (StateM σ) α

namespace Attempt

variable {ε σ α β : Type}

/-- The result of an attempt, and the state that it leaves. -/
def exec (m : Attempt ε σ α) (s : σ) : Except ε α × σ := m.run.run s

/-! ### Running -/

@[simp] theorem exec_pure (a : α) (s : σ) : exec (pure a : Attempt ε σ α) s = (.ok a, s) := rfl

@[simp] theorem exec_throw (e : ε) (s : σ) :
    exec (throw e : Attempt ε σ α) s = (.error e, s) := rfl

@[simp] theorem exec_get (s : σ) : exec (get : Attempt ε σ σ) s = (.ok s, s) := rfl

@[simp] theorem exec_set (s' s : σ) : exec (set s' : Attempt ε σ PUnit) s = (.ok ⟨⟩, s') := rfl

@[simp] theorem exec_modify (f : σ → σ) (s : σ) :
    exec (modify f : Attempt ε σ PUnit) s = (.ok ⟨⟩, f s) := rfl

@[simp] theorem exec_modifyGet (f : σ → α × σ) (s : σ) :
    exec (modifyGet f : Attempt ε σ α) s = (.ok (f s).1, (f s).2) := rfl

theorem exec_bind (m : Attempt ε σ α) (f : α → Attempt ε σ β) (s : σ) :
    exec (m >>= f) s =
      match exec m s with
      | (.ok a, s') => exec (f a) s'
      | (.error e, s') => (.error e, s') := by
  unfold exec
  simp only [ExceptT.run_bind, StateT.run_bind]
  show (match (m.run.run s).1 with
    | .ok a => (f a).run
    | .error e => pure (.error e)).run (m.run.run s).2 = _
  rcases m.run.run s with ⟨e | a, s'⟩ <;> rfl

theorem exec_tryCatch (m : Attempt ε σ α) (handler : ε → Attempt ε σ α) (s : σ) :
    exec (tryCatch m handler) s =
      match exec m s with
      | (.ok a, s') => (.ok a, s')
      | (.error e, s') => exec (handler e) s' := by
  unfold exec
  show (StateT.bind m.run fun r => match r with
    | .ok a => pure (.ok a)
    | .error e => (handler e).run) s = _
  show (match (m.run.run s).1 with
    | .ok a => (pure (.ok a) : StateM σ (Except ε α))
    | .error e => (handler e).run).run (m.run.run s).2 = _
  rcases m.run.run s with ⟨e | a, s'⟩ <;> rfl

/-- A sequence succeeds if both parts do. -/
theorem exec_bind_eq_ok {m : Attempt ε σ α} {f : α → Attempt ε σ β} {s s'' : σ} {b : β} :
    exec (m >>= f) s = (.ok b, s'') ↔
      ∃ a s', exec m s = (.ok a, s') ∧ exec (f a) s' = (.ok b, s'') := by
  rw [exec_bind]
  rcases exec m s with ⟨e | a, s'⟩
  · simp
  · exact ⟨fun h => ⟨a, s', rfl, h⟩, fun ⟨_, _, h, hf⟩ => by cases h; exact hf⟩

/-- A sequence fails if its first part does, or succeeds and the second fails. -/
theorem exec_bind_eq_error {m : Attempt ε σ α} {f : α → Attempt ε σ β} {s s'' : σ} {e : ε} :
    exec (m >>= f) s = (.error e, s'') ↔
      exec m s = (.error e, s'') ∨
        ∃ a s', exec m s = (.ok a, s') ∧ exec (f a) s' = (.error e, s'') := by
  rw [exec_bind]
  rcases exec m s with ⟨e' | a, s'⟩
  · simp
  · refine ⟨fun h => .inr ⟨a, s', rfl, h⟩, fun h => ?_⟩
    rcases h with h | ⟨_, _, h, hf⟩
    · cases h
    · cases h
      exact hf

/-! ### What an attempt keeps -/

/-- A relation between the state before and after that holds along every sequence
of steps if it holds of each. -/
structure Frame (R : σ → σ → Prop) : Prop where
  refl : ∀ s, R s s
  trans : ∀ {a b c}, R a b → R b c → R a c

/-- The relation that says nothing. -/
theorem frame_any : Frame fun _ _ : σ => True := ⟨fun _ => trivial, fun _ _ => trivial⟩

/-- The attempt leaves a state related to the one that it starts in, and fails
only with errors of one kind. -/
def Keeps (R : σ → σ → Prop) (E : ε → Prop) (m : Attempt ε σ α) : Prop :=
  ∀ s, R s (exec m s).2 ∧ ∀ e, (exec m s).1 = .error e → E e

namespace Keeps

variable {R : σ → σ → Prop} {E : ε → Prop}

theorem state {m : Attempt ε σ α} (h : Keeps R E m) {s s' : σ} {r : Except ε α}
    (hs : exec m s = (r, s')) : R s s' := by
  have := (h s).1
  rwa [hs] at this

theorem error {m : Attempt ε σ α} (h : Keeps R E m) {s s' : σ} {e : ε}
    (hs : exec m s = (.error e, s')) : E e :=
  (h s).2 e (by rw [hs])

/-- An attempt that has no error to fail with succeeds. -/
theorem exists_ok {m : Attempt ε σ α} (h : Keeps R (fun _ => False) m) (s : σ) :
    ∃ a s', exec m s = (.ok a, s') ∧ R s s' := by
  rcases hs : exec m s with ⟨e | a, s'⟩
  · exact (h.error hs).elim
  · exact ⟨a, s', rfl, h.state hs⟩

theorem pure (hR : Frame R) (a : α) : Keeps R E (pure a) :=
  fun s => ⟨hR.refl s, fun _ h => by cases h⟩

theorem throw (hR : Frame R) {e : ε} (he : E e) : Keeps R E (throw e : Attempt ε σ α) :=
  fun s => ⟨hR.refl s, fun _ h => by cases h; exact he⟩

theorem get (hR : Frame R) : Keeps R E get :=
  fun s => ⟨hR.refl s, fun _ h => by cases h⟩

theorem modify {f : σ → σ} (hf : ∀ s, R s (f s)) : Keeps R E (modify f) :=
  fun s => ⟨hf s, fun _ h => by cases h⟩

theorem bind (hR : Frame R) {m : Attempt ε σ α} {f : α → Attempt ε σ β}
    (hm : Keeps R E m) (hf : ∀ a, Keeps R E (f a)) : Keeps R E (m >>= f) := by
  intro s
  rw [exec_bind]
  rcases hx : exec m s with ⟨e | a, s'⟩
  · exact ⟨hm.state hx, fun _ h => by cases h; exact hm.error hx⟩
  · exact ⟨hR.trans (hm.state hx) (hf a s').1, (hf a s').2⟩

theorem tryCatch (hR : Frame R) {m : Attempt ε σ α} {handler : ε → Attempt ε σ α}
    {F : ε → Prop} (hm : Keeps R F m) (hh : ∀ e, F e → Keeps R E (handler e)) :
    Keeps R E (tryCatch m handler) := by
  intro s
  rw [exec_tryCatch]
  rcases hx : exec m s with ⟨e | a, s'⟩
  · have hkeeps := hh e (hm.error hx) s'
    exact ⟨hR.trans (hm.state hx) hkeeps.1, hkeeps.2⟩
  · exact ⟨hm.state hx, fun _ h => by cases h⟩

/-- What every pass of a loop keeps, the loop keeps. -/
theorem forIn (hR : Frame R) {γ : Type} (items : List γ)
    {body : γ → β → Attempt ε σ (ForInStep β)} (hbody : ∀ c ∈ items, ∀ b, Keeps R E (body c b))
    (b : β) : Keeps R E (forIn items b body) := by
  induction items generalizing b with
  | nil => exact .pure hR b
  | cons c rest ih =>
    rw [List.forIn_cons]
    refine (hbody c List.mem_cons_self b).bind hR fun step => ?_
    cases step with
    | done b => exact .pure hR b
    | yield b => exact ih (fun c hc => hbody c (List.mem_cons_of_mem _ hc)) b

end Keeps

end Attempt

end MonitoredCompile
