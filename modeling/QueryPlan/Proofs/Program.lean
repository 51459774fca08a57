import Mathlib
import QueryPlan.Program

/-!
# Contracts of programs

A program *meets* a contract from a state when its run only passes through states with a given
property and, if it returns a value, that value and the last state are related as demanded. A run
that fails is only bound to the first part. Contracts are put together along the sequence of steps.

Of a run that fails, the last state and the failure are spoken of by how a program *ends*: in a
state with a given property, whether it fails or not, and with a failure of a given sort if it does.

## Main definitions

* `Program.Meets` : a program meets a contract from a state.
* `Program.Ends` : how a program ends, also when it fails.
* `Steps` : states in a row, one step for every element of a list.

## Main results

* `Program.Meets.bind`, `Program.Ends.bind` : the contract of a sequence, and how it ends.
* `Steps.induction` : what every step keeps holds at the end.
-/

namespace QueryPlan

theorem map_eq_ok_iff {ε α β : Type} {f : α → β} {result : Except ε α} {b : β} :
    result.map f = .ok b ↔ ∃ a, result = .ok a ∧ f a = b := by
  cases result <;> simp [Except.map]

theorem bind_eq_ok_iff {ε α β : Type} {f : α → Except ε β} {result : Except ε α} {b : β} :
    (result >>= f) = .ok b ↔ ∃ a, result = .ok a ∧ f a = .ok b := by
  cases result <;> simp [bind, Except.bind]

theorem toOption_eq_some_iff {ε α : Type} {result : Except ε α} {a : α} :
    result.toOption = some a ↔ result = .ok a := by
  cases result <;> simp [Except.toOption]

namespace Program

variable {σ ε α β : Type} {I : σ → Prop} {s : σ}

/-- A run from `s` only passes through states with the property `I`, and if it returns a value, then
`Q` relates it to the state at the end. -/
structure Meets (I : σ → Prop) (m : Program σ ε α) (s : σ) (Q : α → σ → Prop) : Prop where
  always : m.Always I s
  returns : ∀ {a t}, m.run s = (.ok a, t) → Q a t

namespace Meets

variable {m : Program σ ε α} {f : α → Program σ ε β} {Q Q' : α → σ → Prop} {R : β → σ → Prop}

theorem mono (hm : m.Meets I s Q) (hQ : ∀ a t, Q a t → Q' a t) : m.Meets I s Q' :=
  ⟨hm.always, fun hrun => hQ _ _ (hm.returns hrun)⟩

/-- What follows has to meet its contract from every end that the first part may come to. -/
theorem bind (hm : m.Meets I s Q) (hf : ∀ a t, Q a t → (f a).Meets I t R) :
    (m >>= f).Meets I s R := by
  constructor
  · exact always_bind.2 ⟨hm.always, fun a t hrun => (hf a t (hm.returns hrun)).always⟩
  · intro b u hrun
    obtain ⟨a, t, hm', hf'⟩ := run_bind_eq_ok.1 hrun
    exact (hf a t (hm.returns hm')).returns hf'

theorem pure {a : α} (h : Q a s) : (Pure.pure a : Program σ ε α).Meets I s Q :=
  ⟨always_pure I a s, by rintro b t ⟨⟩; exact h⟩

theorem fail (e : ε) : (Program.fail e : Program σ ε α).Meets I s Q :=
  ⟨always_fail I e s, by rintro b t ⟨⟩⟩

theorem ofExcept {result : Except ε α} (h : ∀ a, result = .ok a → Q a s) :
    (Program.ofExcept result).Meets I s Q :=
  ⟨always_ofExcept I result s, by rintro b t ⟨⟩; exact h b rfl⟩

/-- What follows a change of the state starts in the changed state. -/
theorem modify_bind {f : σ → σ} {g : PUnit → Program σ ε β} (hI : I (f s))
    (h : (g ⟨⟩).Meets I (f s) R) : ((modify f : Program σ ε PUnit) >>= g).Meets I s R :=
  bind (Q := fun _ t => t = f s)
    ⟨(always_modify I f s).2 hI, by rintro b t ⟨⟩; rfl⟩ (by rintro ⟨⟩ t rfl; exact h)

theorem modify {f : σ → σ} {Q : PUnit → σ → Prop} (hI : I (f s)) (hQ : Q ⟨⟩ (f s)) :
    (modify f : Program σ ε PUnit).Meets I s Q :=
  ⟨(always_modify I f s).2 hI, by rintro b t ⟨⟩; exact hQ⟩

/-- The state that is read is the one that the program is in. -/
theorem get_bind {f : σ → Program σ ε β} (h : (f s).Meets I s R) :
    ((get : Program σ ε σ) >>= f).Meets I s R :=
  bind (Q := fun a t => a = s ∧ t = s) ⟨always_get I s, by rintro b t ⟨⟩; exact ⟨rfl, rfl⟩⟩
    (by rintro a t ⟨rfl, rfl⟩; exact h)

end Meets

variable {K K' : ε → Prop}

/-- A run from `s` ends in a state with the property `I`, and if it fails, then in a failure with
the property `K`. -/
structure Ends (I : σ → Prop) (K : ε → Prop) (m : Program σ ε α) (s : σ) : Prop where
  state : I (m.run s).2
  fails : ∀ {e}, (m.run s).1 = .error e → K e

namespace Ends

variable {m : Program σ ε α} {f : α → Program σ ε β}

/-- What follows has to end well from where the first part returns. -/
theorem bind (hm : m.Ends I K s) (hf : ∀ a t, m.run s = (.ok a, t) → I t → (f a).Ends I K t) :
    (m >>= f).Ends I K s := by
  have hI := hm.state
  rcases hrun : m.run s with ⟨e | a, t⟩
  · have hbind : (m >>= f).run s = (.error e, t) := by rw [run_bind, hrun]
    rw [hrun] at hI
    refine ⟨hbind ▸ hI, fun he => hm.fails ?_⟩
    rw [hbind] at he
    rw [hrun, Except.error.inj he]
  · have hbind : (m >>= f).run s = (f a).run t := by rw [run_bind, hrun]
    rw [hrun] at hI
    have ht := hf a t hrun hI
    exact ⟨hbind ▸ ht.state, fun he => ht.fails (hbind ▸ he)⟩

/-- What is known of the value and the state that the first part returns may be used for what
follows. -/
theorem bind_of_meets {J : σ → Prop} {Q : α → σ → Prop} (hm : m.Ends I K s) (hq : m.Meets J s Q)
    (hf : ∀ a t, Q a t → I t → (f a).Ends I K t) : (m >>= f).Ends I K s :=
  hm.bind fun a t hrun => hf a t (hq.returns hrun)

theorem pure (hs : I s) (a : α) : (Pure.pure a : Program σ ε α).Ends I K s := ⟨hs, nofun⟩

theorem fail (hs : I s) {e : ε} (he : K e) : (Program.fail e : Program σ ε α).Ends I K s :=
  ⟨hs, by rintro _ ⟨⟩; exact he⟩

theorem ofExcept {result : Except ε α} (hs : I s) (he : ∀ e, result = .error e → K e) :
    (Program.ofExcept result).Ends I K s :=
  ⟨hs, he _⟩

theorem modify {f : σ → σ} (hs : I (f s)) :
    (modify f : Program σ ε PUnit).Ends I K s := ⟨hs, nofun⟩

theorem get_bind {f : σ → Program σ ε β} (h : (f s).Ends I K s) :
    ((get : Program σ ε σ) >>= f).Ends I K s := ⟨h.state, h.fails⟩

theorem mono {I' : σ → Prop} (hm : m.Ends I K s) (hI : ∀ t, I t → I' t) (hK : ∀ e, K e → K' e) :
    m.Ends I' K' s :=
  ⟨hI _ hm.state, fun he => hK _ (hm.fails he)⟩

theorem state_of_run (hm : m.Ends I K s) {result : Except ε α} {t : σ}
    (hrun : m.run s = (result, t)) : I t := by
  have hI := hm.state
  rwa [hrun] at hI

/-- A run that returns has no failure. -/
theorem of_run {a : α} {t : σ} (hrun : m.run s = (.ok a, t)) (ht : I t) : m.Ends I K s :=
  ⟨hrun ▸ ht, by rw [hrun]; exact nofun⟩

end Ends

end Program

/-- States in a row, where `R` relates every two neighbours by one element of a list. -/
inductive Steps {α σ : Type} (R : α → σ → σ → Prop) : List α → σ → σ → Prop
  | nil {s : σ} : Steps R [] s s
  | cons {a : α} {as : List α} {s t u : σ} (hst : R a s t) (htu : Steps R as t u) :
      Steps R (a :: as) s u

/-- What holds at the beginning and is kept by every step holds at the end. -/
theorem Steps.induction {α σ : Type} {R : α → σ → σ → Prop} {P : List α → σ → Prop} {as : List α}
    {s u : σ} (hsteps : Steps R as s u) (hbegin : P [] s)
    (hstep : ∀ done a t v, done ++ [a] <+: as → P done t → R a t v → P (done ++ [a]) v) :
    P as u := by
  have main {done rest : List α} {t : σ} (hrest : Steps R rest t u) (hsplit : done ++ rest = as)
      (hP : P done t) : P as u := by
    induction hrest generalizing done with
    | nil => exact (List.append_nil done ▸ hsplit) ▸ hP
    | @cons a rest t v u htv _ ih =>
      rw [List.append_cons] at hsplit
      exact ih hsteps hsplit (hstep done a t v ⟨rest, hsplit⟩ hP htv)
  exact main hsteps (List.nil_append as) hbegin

end QueryPlan
