/-!
# Programs over a state

A program reads and replaces a state and ends in a value or in a failure. It is kept as the tree of
its steps, so that not only the state that a run ends in can be spoken of, but also every state that
it passes through. The state of a run that fails is kept.

## Main definitions

* `Program.run` : the result of a program and the state at its end.
* `Program.trail` : the states that a run passes through, in order.
* `Program.Always` : a property of all states that a run passes through.

## Main results

* `Program.run_bind`, `Program.trail_bind` : a program in sequence with another.
* `Program.always_bind` : a property holds all along a sequence when it does along both parts.
-/

namespace QueryPlan

/-- The steps of a program over states of type `σ`, which ends in a value or in a failure. -/
inductive Program (σ ε α : Type) : Type
  /-- The end of a program. -/
  | done (result : Except ε α)
  /-- What follows depends on the state. -/
  | read (next : σ → Program σ ε α)
  /-- The state is replaced before what follows. -/
  | write (state : σ) (next : Program σ ε α)

namespace Program

variable {σ ε α β : Type}

/-- A program in sequence with what is made of its value; nothing follows a failure. -/
def bind : Program σ ε α → (α → Program σ ε β) → Program σ ε β
  | done (.ok a), f => f a
  | done (.error e), _ => done (.error e)
  | read next, f => read fun s => (next s).bind f
  | write s next, f => write s (next.bind f)

instance : Monad (Program σ ε) where
  pure a := done (.ok a)
  bind := bind

instance : MonadStateOf σ (Program σ ε) where
  get := read fun s => done (.ok s)
  set s := write s (done (.ok ⟨⟩))
  modifyGet f := read fun s => write (f s).2 (done (.ok (f s).1))

/-- Ends a program in a failure. -/
def fail (e : ε) : Program σ ε α := done (.error e)

/-- The program that ends in a result. -/
def ofExcept (result : Except ε α) : Program σ ε α := done result

/-- The result of a program, and the state at its end. -/
def run : Program σ ε α → σ → Except ε α × σ
  | done result, s => (result, s)
  | read next, s => (next s).run s
  | write t next, _ => next.run t

/-- The states that a run passes through after its first one, in order. -/
def trail : Program σ ε α → σ → List σ
  | done _, _ => []
  | read next, s => (next s).trail s
  | write t next, _ => t :: next.trail t

/-- A property of all states that a run passes through after its first one. -/
def Always (I : σ → Prop) (m : Program σ ε α) (s : σ) : Prop := ∀ t ∈ m.trail s, I t

@[simp] theorem run_pure (a : α) (s : σ) :
    (pure a : Program σ ε α).run s = (.ok a, s) := rfl

@[simp] theorem run_fail (e : ε) (s : σ) :
    (fail e : Program σ ε α).run s = (.error e, s) := rfl

@[simp] theorem run_ofExcept (result : Except ε α) (s : σ) :
    (ofExcept result : Program σ ε α).run s = (result, s) := rfl

@[simp] theorem run_get (s : σ) : (get : Program σ ε σ).run s = (.ok s, s) := rfl

@[simp] theorem run_modify (f : σ → σ) (s : σ) :
    (modify f : Program σ ε PUnit).run s = (.ok ⟨⟩, f s) := rfl

@[simp] theorem trail_pure (a : α) (s : σ) : (pure a : Program σ ε α).trail s = [] := rfl

@[simp] theorem trail_fail (e : ε) (s : σ) : (fail e : Program σ ε α).trail s = [] := rfl

@[simp] theorem trail_ofExcept (result : Except ε α) (s : σ) :
    (ofExcept result : Program σ ε α).trail s = [] := rfl

@[simp] theorem trail_get (s : σ) : (get : Program σ ε σ).trail s = [] := rfl

@[simp] theorem trail_modify (f : σ → σ) (s : σ) :
    (modify f : Program σ ε PUnit).trail s = [f s] := rfl

/-- A sequence goes on from where its first part ends, if that does not fail. -/
theorem run_bind (m : Program σ ε α) (f : α → Program σ ε β) (s : σ) :
    (m >>= f).run s =
      match m.run s with
      | (.ok a, t) => (f a).run t
      | (.error e, t) => (.error e, t) := by
  change (m.bind f).run s = _
  induction m generalizing s with
  | done result => cases result <;> rfl
  | read next ih => exact ih s s
  | write t next ih => exact ih t

/-- A sequence passes through the states of its first part and then through those of what
follows. -/
theorem trail_bind (m : Program σ ε α) (f : α → Program σ ε β) (s : σ) :
    (m >>= f).trail s = m.trail s ++
      match m.run s with
      | (.ok a, t) => (f a).trail t
      | (.error _, _) => [] := by
  change (m.bind f).trail s = _
  induction m generalizing s with
  | done result => cases result <;> rfl
  | read next ih => exact ih s s
  | write t next ih => exact congrArg (t :: ·) (ih t)

/-- The value of a sequence is made of the value of its first part. -/
theorem run_bind_eq_ok {m : Program σ ε α} {f : α → Program σ ε β} {s u : σ} {b : β} :
    (m >>= f).run s = (.ok b, u) ↔ ∃ a t, m.run s = (.ok a, t) ∧ (f a).run t = (.ok b, u) := by
  rw [run_bind]
  rcases h : m.run s with ⟨_ | a, t⟩
  · simp
  · refine ⟨fun hb => ⟨a, t, rfl, hb⟩, ?_⟩
    rintro ⟨a', t', heq, hb⟩
    cases heq
    exact hb

theorem always_bind {I : σ → Prop} {m : Program σ ε α} {f : α → Program σ ε β} {s : σ} :
    (m >>= f).Always I s ↔
      m.Always I s ∧ ∀ a t, m.run s = (.ok a, t) → (f a).Always I t := by
  unfold Always
  rw [trail_bind]
  cases h : m.run s with
  | mk result t =>
    cases result with
    | error e => simp
    | ok a =>
      simp only [List.mem_append, or_imp, forall_and, Prod.mk.injEq, Except.ok.injEq]
      exact and_congr_right fun _ => ⟨fun h b u ⟨ha, hu⟩ => ha ▸ hu ▸ h, fun h => h a t ⟨rfl, rfl⟩⟩

@[simp] theorem always_pure (I : σ → Prop) (a : α) (s : σ) :
    (pure a : Program σ ε α).Always I s := by simp [Always]

@[simp] theorem always_fail (I : σ → Prop) (e : ε) (s : σ) :
    (fail e : Program σ ε α).Always I s := by simp [Always]

@[simp] theorem always_ofExcept (I : σ → Prop) (result : Except ε α) (s : σ) :
    (ofExcept result : Program σ ε α).Always I s := by simp [Always]

@[simp] theorem always_get (I : σ → Prop) (s : σ) :
    (get : Program σ ε σ).Always I s := by simp [Always]

@[simp] theorem always_modify (I : σ → Prop) (f : σ → σ) (s : σ) :
    (modify f : Program σ ε PUnit).Always I s ↔ I (f s) := by simp [Always]

/-- A run that starts in a state with a property that holds all along ends in such a state. -/
theorem Always.run_snd {I : σ → Prop} {m : Program σ ε α} {s : σ} (h : m.Always I s) (hs : I s) :
    I (m.run s).2 := by
  induction m generalizing s with
  | done result => exact hs
  | read next ih => exact ih s h hs
  | write t next ih =>
    exact ih (fun u hu => h u (List.mem_cons_of_mem t hu)) (h t List.mem_cons_self)

end Program

end QueryPlan
