import Reindent.Project.Error

/-!
# Taking failures apart

Steps of a command are chained: the first one that fails ends it.  A chain gives a result only when
each of its steps does, and it fails with an error of a document only when one of its steps does.
-/

namespace Reindent

/-! ## Results of a chain -/

theorem exists_of_bind_eq_ok
    {ε α β : Type} {first : Except ε α} {next : α → Except ε β} {b : β}
    (h : first >>= next = .ok b) :
    ∃ a, first = .ok a ∧ next a = .ok b := by
  cases first with
  | error e => cases h
  | ok a => exact ⟨a, rfl, h⟩

theorem bind_eq_ok
    {ε α β : Type} {first : Except ε α} {next : α → Except ε β} {a : α} {b : β}
    (hfirst : first = .ok a) (hnext : next a = .ok b) :
    first >>= next = .ok b := by
  rw [hfirst]
  exact hnext

theorem error_cases_of_bind
    {ε α β : Type} {first : Except ε α} {next : α → Except ε β} {e : ε}
    (h : first >>= next = .error e) :
    first = .error e ∨ ∃ a, first = .ok a ∧ next a = .error e := by
  cases first with
  | error cause => exact Or.inl (congrArg Except.error (Except.error.inj h))
  | ok a => exact Or.inr ⟨a, rfl, h⟩

theorem eq_ok_of_mapError
    {ε ε' α : Type} {f : ε → ε'} {result : Except ε α} {a : α} (h : result.mapError f = .ok a) :
    result = .ok a := by
  cases result with
  | error cause => cases h
  | ok b => exact congrArg Except.ok (Except.ok.inj h)

theorem eq_ok_of_orCrash
    {α : Type} {result : Except Crash α} {a : α} (h : orCrash result = .ok a) :
    result = .ok a :=
  eq_ok_of_mapError h

theorem mapM_cons_of_ok
    {ε α β : Type} {step : α → Except ε β} {a : α} {as : List α} {bs : List β}
    (h : (a :: as).mapM step = .ok bs) :
    ∃ b rest, step a = .ok b ∧ as.mapM step = .ok rest ∧ bs = b :: rest := by
  rw [List.mapM_cons] at h
  obtain ⟨b, hstep, h⟩ := exists_of_bind_eq_ok h
  obtain ⟨rest, hrest, h⟩ := exists_of_bind_eq_ok h
  exact ⟨b, rest, hstep, hrest, (Except.ok.inj h).symm⟩

/-- What a chain over a list collects comes from the steps for its members. -/
theorem exists_mem_of_mapM_eq_ok
    {ε α β : Type} {step : α → Except ε β} {as : List α} {bs : List β}
    (h : as.mapM step = .ok bs) {b : β} (hb : b ∈ bs) :
    ∃ a ∈ as, step a = .ok b := by
  induction as generalizing bs with
  | nil =>
      rw [List.mapM_nil] at h
      cases h
      cases hb
  | cons a as ih =>
      obtain ⟨first, rest, hfirst, hrest, rfl⟩ := mapM_cons_of_ok h
      rcases List.mem_cons.mp hb with rfl | hb
      · exact ⟨a, List.mem_cons_self, hfirst⟩
      · obtain ⟨a', ha', hstep⟩ := ih hrest hb
        exact ⟨a', List.mem_cons_of_mem a ha', hstep⟩

theorem exists_mem_mapM_of_mem
    {ε α β : Type} {step : α → Except ε β} {as : List α} {bs : List β}
    (h : as.mapM step = .ok bs) {a : α} (ha : a ∈ as) :
    ∃ b ∈ bs, step a = .ok b := by
  induction as generalizing bs with
  | nil => cases ha
  | cons a' as ih =>
      obtain ⟨first, rest, hfirst, hrest, rfl⟩ := mapM_cons_of_ok h
      rcases List.mem_cons.mp ha with rfl | ha
      · exact ⟨first, List.mem_cons_self, hfirst⟩
      · obtain ⟨b, hb, hstep⟩ := ih hrest ha
        exact ⟨b, List.mem_cons_of_mem first hb, hstep⟩

/-- A chain over a list fails as the step for one of its members does. -/
theorem exists_mem_of_mapM_eq_error
    {ε α β : Type} {step : α → Except ε β} {as : List α} {e : ε}
    (h : as.mapM step = .error e) :
    ∃ a ∈ as, step a = .error e := by
  induction as with
  | nil => cases h
  | cons a as ih =>
      rw [List.mapM_cons] at h
      rcases error_cases_of_bind h with hfirst | ⟨b, -, h⟩
      · exact ⟨a, List.mem_cons_self, hfirst⟩
      · rcases error_cases_of_bind h with hrest | ⟨bs, -, h⟩
        · obtain ⟨a', ha', hstep⟩ := ih hrest
          exact ⟨a', List.mem_cons_of_mem a ha', hstep⟩
        · cases h

/-! ## Failures that are not those of a document -/

/-- The computation does not fail with an error of a document. -/
def SparesDocuments {α : Type} (result : Except Fault α) : Prop :=
  ∀ cause, result ≠ .error (.document cause)

namespace SparesDocuments

variable {α β : Type}

theorem ok (a : α) :
    SparesDocuments (.ok a) := by
  intro cause h
  cases h

theorem error
    {fault : Fault} (h : ∀ cause, fault ≠ .document cause) :
    SparesDocuments (.error fault : Except Fault α) := by
  intro cause heq
  exact h cause (Except.error.inj heq)

theorem orCrash (result : Except Crash α) :
    SparesDocuments (orCrash result) := by
  cases result with
  | error cause => exact error nofun
  | ok a => exact ok a

theorem bind
    {first : Except Fault α} {next : α → Except Fault β}
    (hfirst : SparesDocuments first) (hnext : ∀ a, SparesDocuments (next a)) :
    SparesDocuments (first >>= next) := by
  cases first with
  | error fault =>
      intro cause h
      exact hfirst cause (congrArg Except.error (Except.error.inj h))
  | ok a => exact hnext a

theorem mapM
    {step : α → Except Fault β} (hstep : ∀ a, SparesDocuments (step a)) (as : List α) :
    SparesDocuments (as.mapM step) := by
  induction as with
  | nil => exact ok []
  | cons a as ih =>
      rw [List.mapM_cons]
      exact (hstep a).bind fun b => ih.bind fun bs => ok (b :: bs)

end SparesDocuments
end Reindent
