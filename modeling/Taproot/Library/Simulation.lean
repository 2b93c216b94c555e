import Taproot.Library.Machine

/-!
# Taproot.Library.Simulation

**Simulation** of a labelled step function by a relation. The relation says what
an abstract machine may do under a label, and may leave it a choice; `Steps` are
its runs. A step function that is matched step by step, where its guard is met,
is matched in every guarded run (`Machine.Guarded.simulated`). What is said of a
state in view of the actions that led to it is carried along runs by `traced`.
-/

namespace Machine

variable {σ τ α β : Type*} {step : σ → α → Option σ} {R : τ → β → τ → Prop}

/-- The runs of a relation. -/
inductive Steps (R : τ → β → τ → Prop) : τ → List β → τ → Prop
  | nil (t : τ) : Steps R t [] t
  | cons {t t' t'' : τ} {b : β} {bs : List β} (head : R t b t') (tail : Steps R t' bs t'') :
      Steps R t (b :: bs) t''

/-- A reflexive and transitive relation between the ends of every step is one
between the ends of every run. -/
theorem Steps.related {r : τ → τ → Prop} (hrefl : ∀ t, r t t)
    (htrans : ∀ {t t' t''}, r t t' → r t' t'' → r t t'')
    {bs : List β} (hstep : ∀ t, ∀ b ∈ bs, ∀ t', R t b t' → r t t') {t t' : τ}
    (h : Steps R t bs t') : r t t' := by
  induction h with
  | nil t => exact hrefl t
  | cons head _ ih =>
      refine htrans (hstep _ _ List.mem_cons_self _ head) (ih fun t b hb => ?_)
      exact hstep t b (List.mem_cons_of_mem _ hb)

/-- What every step keeps of a state and the actions up to it, every run keeps. -/
theorem traced {P : List α → σ → Prop}
    (hstep : ∀ past s a s', P past s → step s a = some s' → P (past ++ [a]) s')
    {s s' : σ} (past : List α) {as : List α} (h : P past s) (hrun : run step s as = some s') :
    P (past ++ as) s' := by
  induction as generalizing s past with
  | nil => rwa [List.append_nil, ← Option.some.inj hrun]
  | cons a as ih =>
      obtain ⟨t, ht, hrest⟩ := run_cons_inv hrun
      have h' := ih (past ++ [a]) (hstep past s a t h ht) hrest
      rwa [List.append_assoc] at h'

/-- The first part of a guarded run is guarded. -/
theorem Guarded.of_append {G : σ → α → Prop} {s : σ} {as as' : List α}
    (h : Guarded step G s (as ++ as')) : Guarded step G s as := by
  induction as generalizing s with
  | nil => trivial
  | cons a as ih => exact ⟨h.1, fun t ht => ih (h.2 t ht)⟩

/-- A guarded run goes on guarded from where its first part ends. -/
theorem Guarded.append {G : σ → α → Prop} {s s' : σ} {as as' : List α}
    (h : Guarded step G s (as ++ as')) (hrun : run step s as = some s') :
    Guarded step G s' as' := by
  induction as generalizing s with
  | nil => exact Option.some.inj hrun ▸ h
  | cons a as ih =>
      obtain ⟨t, ht, hrest⟩ := run_cons_inv hrun
      exact ih (h.2 t ht) hrest

/-- **Every guarded run is matched**, and goes through, if every guarded step is
and does. -/
theorem Guarded.simulated {G : σ → α → Prop} {S : σ → τ → Prop} {label : α → β}
    (hstep : ∀ s a t, S s t → G s a → ∃ s' t', step s a = some s' ∧ R t (label a) t' ∧ S s' t')
    {s : σ} {t : τ} {as : List α} (hguard : Guarded step G s as) (h : S s t) :
    ∃ s' t', run step s as = some s' ∧ Steps R t (as.map label) t' ∧ S s' t' := by
  induction as generalizing s t with
  | nil => exact ⟨s, t, rfl, .nil t, h⟩
  | cons a as ih =>
      obtain ⟨ha, has⟩ := hguard
      obtain ⟨u, v, hu, hv, hsim⟩ := hstep s a t h ha
      obtain ⟨s', t', hrun, hsteps, hend⟩ := ih (has u hu) hsim
      exact ⟨s', t', by rw [run_cons_of_step hu, hrun], .cons hv hsteps, hend⟩

/-- The case of an abstract machine that has no choice. -/
theorem Guarded.refined {G : σ → α → Prop} {S : σ → τ → Prop} {f : τ → α → τ}
    (hstep : ∀ s a t, S s t → G s a → ∃ s', step s a = some s' ∧ S s' (f t a))
    {s : σ} {t : τ} {as : List α} (hguard : Guarded step G s as) (h : S s t) :
    ∃ s', run step s as = some s' ∧ S s' (as.foldl f t) := by
  induction as generalizing s t with
  | nil => exact ⟨s, rfl, h⟩
  | cons a as ih =>
      obtain ⟨ha, has⟩ := hguard
      obtain ⟨u, hu, hsim⟩ := hstep s a t h ha
      obtain ⟨s', hrun, hend⟩ := ih (has u hu) hsim
      exact ⟨s', by rw [run_cons_of_step hu, hrun], hend⟩

end Machine
