/-!
# Runs that succeed or fault

Passes and stages are computations that keep a state and may end in a fault. `runFrom` is what such
a computation comes to. The lemmas take the run of a sequence apart: it succeeds if both parts do,
and it faults if the first part does or the second does after the first.
-/

namespace SleighForge

variable {ε σ α β : Type}

/-- The result or the fault of a computation that starts in a state, and the state it leaves. -/
def runFrom (s : σ) (x : ExceptT ε (StateM σ) α) : Except ε α × σ :=
  (x.run.run s).run

@[simp] theorem runFrom_pure (s : σ) (a : α) :
    runFrom s (pure a : ExceptT ε (StateM σ) α) = (.ok a, s) :=
  rfl

@[simp] theorem runFrom_throw (s : σ) (e : ε) :
    runFrom s (throw e : ExceptT ε (StateM σ) α) = (.error e, s) :=
  rfl

@[simp] theorem runFrom_get (s : σ) : runFrom s (get : ExceptT ε (StateM σ) σ) = (.ok s, s) :=
  rfl

@[simp] theorem runFrom_set (s t : σ) :
    runFrom s (set t : ExceptT ε (StateM σ) PUnit) = (.ok ⟨⟩, t) :=
  rfl

@[simp] theorem runFrom_modify (s : σ) (g : σ → σ) :
    runFrom s (modify g : ExceptT ε (StateM σ) PUnit) = (.ok ⟨⟩, g s) :=
  rfl

@[simp] theorem runFrom_mk (s : σ) (r : Except ε α) :
    runFrom s (ExceptT.mk (pure r) : ExceptT ε (StateM σ) α) = (r, s) :=
  rfl

/-- A run of two steps is the run of the second from where the first ends, unless this fails. -/
theorem runFrom_bind (s : σ) (x : ExceptT ε (StateM σ) α) (f : α → ExceptT ε (StateM σ) β) :
    runFrom s (x >>= f) =
      match runFrom s x with
      | (.ok a, t) => runFrom t (f a)
      | (.error e, t) => (.error e, t) := by
  -- The monad runs on from a result or a fault alike; which of the two it is, is asked only here.
  have hbind : runFrom s (x >>= f) =
      match runFrom s x with
      | (r, t) => (StateT.run (ExceptT.bindCont f r) t).run := rfl
  rw [hbind]
  rcases runFrom s x with ⟨e | a, t⟩ <;> rfl

/-- Two steps end well if both do. -/
theorem runFrom_bind_eq_ok {s u : σ} {x : ExceptT ε (StateM σ) α}
    {f : α → ExceptT ε (StateM σ) β} {b : β} :
    runFrom s (x >>= f) = (.ok b, u) ↔
      ∃ a t, runFrom s x = (.ok a, t) ∧ runFrom t (f a) = (.ok b, u) := by
  rw [runFrom_bind]
  rcases runFrom s x with ⟨e | a, t⟩
  · simp
  · simp [and_assoc]

/-- Two steps fail where the first fails, or the second after it. -/
theorem runFrom_bind_eq_error {s u : σ} {x : ExceptT ε (StateM σ) α}
    {f : α → ExceptT ε (StateM σ) β} {e : ε} :
    runFrom s (x >>= f) = (.error e, u) ↔
      runFrom s x = (.error e, u) ∨
        ∃ a t, runFrom s x = (.ok a, t) ∧ runFrom t (f a) = (.error e, u) := by
  rw [runFrom_bind]
  rcases runFrom s x with ⟨e' | a, t⟩
  · simp
  · simp [and_assoc]

/-- A computation that is found to succeed has a result. -/
theorem exists_of_isOk {s : σ} {x : ExceptT ε (StateM σ) α} (h : (runFrom s x).1.isOk = true) :
    ∃ a t, runFrom s x = (.ok a, t) := by
  rcases hrun : runFrom s x with ⟨e | a, t⟩
  · rw [hrun] at h
    cases h
  · exact ⟨a, t, rfl⟩

/-! ## Loops -/

/-- What every step of a loop keeps, the loop keeps. -/
theorem runFrom_mapM_induction {I : σ → Prop} {f : α → ExceptT ε (StateM σ) β}
    {xs : List α} (hstep : ∀ x ∈ xs, ∀ s b t, I s → runFrom s (f x) = (.ok b, t) → I t)
    {s t : σ} {bs : List β} (hs : I s) (hrun : runFrom s (xs.mapM f) = (.ok bs, t)) : I t := by
  -- On the list, from any state in which the invariant holds.
  induction xs generalizing s bs with
  | nil =>
    rw [List.mapM_nil, runFrom_pure] at hrun
    cases hrun
    exact hs
  | cons x xs ih =>
    rw [List.mapM_cons, runFrom_bind_eq_ok] at hrun
    rcases hrun with ⟨b, u, hx, hrun⟩
    rcases runFrom_bind_eq_ok.1 hrun with ⟨bs', v, hxs, hrun⟩
    cases hrun
    exact ih (fun y hy => hstep y (List.mem_cons_of_mem _ hy))
      (hstep x (List.mem_cons_self ..) s b u hs hx) hxs

/-- A loop fails only where a step fails. -/
theorem runFrom_mapM_eq_error {f : α → ExceptT ε (StateM σ) β} {xs : List α} {s t : σ} {e : ε}
    (hrun : runFrom s (xs.mapM f) = (.error e, t)) :
    ∃ x ∈ xs, ∃ u, runFrom u (f x) = (.error e, t) := by
  induction xs generalizing s with
  | nil =>
    rw [List.mapM_nil, runFrom_pure] at hrun
    cases hrun
  | cons x xs ih =>
    rw [List.mapM_cons, runFrom_bind_eq_error] at hrun
    rcases hrun with hx | ⟨b, u, -, hrun⟩
    · exact ⟨x, List.mem_cons_self .., s, hx⟩
    · rcases runFrom_bind_eq_error.1 hrun with hxs | ⟨bs, v, -, hrun⟩
      · rcases ih hxs with ⟨y, hy, hfail⟩
        exact ⟨y, List.mem_cons_of_mem _ hy, hfail⟩
      · cases hrun

end SleighForge
