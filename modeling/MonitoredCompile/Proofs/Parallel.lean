/-
MonitoredCompile/Proofs/Parallel.lean

Attempts that run from two states.  `Parallel R m s s'` says that the attempt has the same
result from both, and that it leaves states related by `R`.  There is one lemma for each way of
building an attempt, so the two runs are followed part by part, and what a part asks of its
states is only shown for those that the parts before it leave.
-/
import MonitoredCompile.Attempt

namespace MonitoredCompile.Attempt

variable {ε σ α β : Type} {R : σ → σ → Prop} {s s' : σ}

/-- The attempt has the same result from both states, and leaves states that are related. -/
structure Parallel (R : σ → σ → Prop) (m : Attempt ε σ α) (s s' : σ) : Prop where
  result : (exec m s).1 = (exec m s').1
  states : R (exec m s).2 (exec m s').2

namespace Parallel

theorem of_exec {m : Attempt ε σ α} {r : Except ε α} {k k' : σ} (hm : exec m s = (r, k))
    (hm' : exec m s' = (r, k')) (hR : R k k') : Parallel R m s s' :=
  ⟨by rw [hm, hm'], by rw [hm, hm']; exact hR⟩

theorem pure (hR : R s s') (a : α) : Parallel R (pure a : Attempt ε σ α) s s' := .of_exec rfl rfl hR

theorem throw (hR : R s s') (e : ε) : Parallel R (throw e : Attempt ε σ α) s s' :=
  .of_exec rfl rfl hR

theorem bind {m : Attempt ε σ α} {f : α → Attempt ε σ β} (hm : Parallel R m s s')
    (hf : ∀ a k k', exec m s = (.ok a, k) → exec m s' = (.ok a, k') → R k k' →
      Parallel R (f a) k k') : Parallel R (m >>= f) s s' := by
  obtain ⟨hresult, hR⟩ := hm
  rcases hexec : exec m s with ⟨e | a, k⟩ <;> rcases hexec' : exec m s' with ⟨r', k'⟩ <;>
    rw [hexec, hexec'] at hresult hR <;> cases hresult
  · exact .of_exec (by rw [exec_bind, hexec]) (by rw [exec_bind, hexec']) hR
  · obtain ⟨hresult, hR⟩ := hf a k k' hexec hexec' hR
    exact ⟨by rw [exec_bind, exec_bind, hexec, hexec']; exact hresult,
      by rw [exec_bind, exec_bind, hexec, hexec']; exact hR⟩

theorem tryCatch {m : Attempt ε σ α} {handler : ε → Attempt ε σ α} (hm : Parallel R m s s')
    (hh : ∀ e k k', exec m s = (.error e, k) → exec m s' = (.error e, k') → R k k' →
      Parallel R (handler e) k k') : Parallel R (tryCatch m handler) s s' := by
  obtain ⟨hresult, hR⟩ := hm
  rcases hexec : exec m s with ⟨e | a, k⟩ <;> rcases hexec' : exec m s' with ⟨r', k'⟩ <;>
    rw [hexec, hexec'] at hresult hR <;> cases hresult
  · obtain ⟨hresult, hR⟩ := hh e k k' hexec hexec' hR
    exact ⟨by rw [exec_tryCatch, exec_tryCatch, hexec, hexec']; exact hresult,
      by rw [exec_tryCatch, exec_tryCatch, hexec, hexec']; exact hR⟩
  · exact .of_exec (by rw [exec_tryCatch, hexec]) (by rw [exec_tryCatch, hexec']) hR

/-- An attempt that depends on what it sees first, and does the same for both states. -/
theorem get_bind {f : σ → Attempt ε σ α} (hf : Parallel R (f s) s s')
    (hsame : exec (f s') s' = exec (f s) s') : Parallel R (get >>= f) s s' :=
  ⟨by rw [exec_bind, exec_bind, exec_get, exec_get]; dsimp only; rw [hsame]; exact hf.result,
    by rw [exec_bind, exec_bind, exec_get, exec_get]; dsimp only; rw [hsame]; exact hf.states⟩

/-- What holds of every pass of a loop, holds of the loop. -/
theorem forIn {γ : Type} (items : List γ) {body : γ → β → Attempt ε σ (ForInStep β)}
    (hbody : ∀ c ∈ items, ∀ b k k', R k k' → Parallel R (body c b) k k') (b : β) (hR : R s s') :
    Parallel R (forIn items b body) s s' := by
  induction items generalizing b s s' with
  | nil => exact .pure hR b
  | cons c rest ih =>
    obtain ⟨hfirst, hrest⟩ := List.forall_mem_cons.mp hbody
    rw [List.forIn_cons]
    refine (hfirst b s s' hR).bind fun step k k' _ _ hR => ?_
    cases step with
    | done b => exact .pure hR b
    | yield b => exact ih hrest b hR

end Parallel

end MonitoredCompile.Attempt
