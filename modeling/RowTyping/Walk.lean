namespace RowTyping

@[ext]
structure Walk (σ α : Type) where
  run : σ → α × σ
  /-- The state after each change. -/
  passed : σ → List σ

namespace Walk

variable {σ τ α β : Type}

instance : Monad (Walk σ) where
  pure a := ⟨fun s => (a, s), fun _ => []⟩
  bind m f :=
    { run := fun s => let (a, s) := m.run s; (f a).run s
      passed := fun s => m.passed s ++ let (a, s) := m.run s; (f a).passed s }

instance : MonadStateOf σ (Walk σ) where
  get := ⟨fun s => (s, s), fun _ => []⟩
  set s := ⟨fun _ => ((), s), fun _ => [s]⟩
  modifyGet f := ⟨f, fun s => [(f s).2]⟩

instance : LawfulMonad (Walk σ) :=
  LawfulMonad.mk' (Walk σ)
    (fun m => congrArg (Walk.mk m.run) (funext fun s => List.append_nil (m.passed s)))
    (fun _ _ => rfl)
    (fun m _ _ => congrArg (Walk.mk _) (funext fun s => List.append_assoc (m.passed s) _ _))

def zoom (view : σ → τ) (put : σ → τ → σ) (m : Walk τ α) : Walk σ α where
  run s := let (a, t) := m.run (view s); (a, put s t)
  passed s := (m.passed (view s)).map (put s)

section Runs

variable (m : Walk σ α) (s : σ)

@[simp]
theorem run_pure (a : α) : (pure a : Walk σ α).run s = (a, s) := rfl

@[simp]
theorem run_bind (f : α → Walk σ β) : (m >>= f).run s = (f (m.run s).1).run (m.run s).2 := rfl

@[simp]
theorem passed_pure (a : α) : (pure a : Walk σ α).passed s = [] := rfl

@[simp]
theorem passed_bind (f : α → Walk σ β) :
    (m >>= f).passed s = m.passed s ++ (f (m.run s).1).passed (m.run s).2 := rfl

end Runs

end Walk

/-- The state survives a failure: what was changed before it stays changed. -/
abbrev TryM (ε σ : Type) := ExceptT ε (Walk σ)

namespace TryM

variable {ε σ α β : Type}

def exec (m : TryM ε σ α) (s : σ) : Except ε α × σ :=
  Walk.run m s

instance : CoeFun (TryM ε σ α) fun _ => σ → Except ε α × σ :=
  ⟨exec⟩

variable (s : σ)

theorem exec_pure (a : α) : (pure a : TryM ε σ α) s = (.ok a, s) := rfl

theorem exec_throw (e : ε) : (throw e : TryM ε σ α) s = (.error e, s) := rfl

theorem exec_get : (get : TryM ε σ σ) s = (.ok s, s) := rfl

theorem exec_modify (f : σ → σ) : (modify f : TryM ε σ Unit) s = (.ok (), f s) := rfl

theorem exec_ite (c : Prop) [Decidable c] (m m' : TryM ε σ α) : (if c then m else m') s = if c then m s else m' s := by
  split <;> rfl

theorem exec_bind (m : TryM ε σ α) (f : α → TryM ε σ β) :
    (m >>= f) s = match m s with
      | (.ok a, s') => f a s'
      | (.error e, s') => (.error e, s') := by
  have hrun : (m >>= f) s = Walk.run (ExceptT.bindCont f (m s).1) (m s).2 := rfl
  rw [hrun]
  rcases m s with ⟨_ | _, _⟩ <;> rfl

theorem exec_tryCatch (m : TryM ε σ α) (handle : ε → TryM ε σ α) :
    (tryCatch m handle) s = match m s with
      | (.ok a, s') => (.ok a, s')
      | (.error e, s') => handle e s' := by
  let resume : Except ε α → Walk σ (Except ε α)
    | .ok a => pure (.ok a)
    | .error e => handle e
  have hrun : (tryCatch m handle) s = Walk.run (resume (m s).1) (m s).2 := by
    simp only [tryCatch, tryCatchThe, MonadExceptOf.tryCatch, ExceptT.tryCatch, exec]
    rfl
  rw [hrun]
  rcases m s with ⟨_ | _, _⟩ <;> rfl

end TryM

end RowTyping
