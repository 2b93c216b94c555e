import Mathlib.Logic.Basic

/-!
# Taproot.Library.Machine

Runs of a **labelled step function**: `step s a` is the state after the action
`a`, or `none` where `a` cannot happen. An invariant of every step is an
invariant of every run (`invariant`); an invariant of the steps that meet a
guard is one of the runs that meet it throughout (`Guarded.invariant`).
-/

namespace Machine

variable {σ α : Type*} {step : σ → α → Option σ}

/-- A run of actions, one after the other. -/
def run (step : σ → α → Option σ) : σ → List α → Option σ
  | s, [] => some s
  | s, a :: as => (step s a).bind fun s' => run step s' as

@[simp] theorem run_nil (s : σ) : run step s [] = some s := rfl

theorem run_cons (s : σ) (a : α) (as : List α) :
    run step s (a :: as) = (step s a).bind fun s' => run step s' as := rfl

theorem run_cons_of_step {s s' : σ} {a : α} (h : step s a = some s') (as : List α) :
    run step s (a :: as) = run step s' as := by rw [run_cons, h]; rfl

/-- The state between the first action and the rest. -/
theorem run_cons_inv {s s'' : σ} {a : α} {as : List α} (h : run step s (a :: as) = some s'') :
    ∃ s', step s a = some s' ∧ run step s' as = some s'' :=
  Option.bind_eq_some_iff.mp h

/-- What every step keeps, every run keeps. -/
theorem invariant {P : σ → Prop} (hstep : ∀ s a s', P s → step s a = some s' → P s')
    {s s' : σ} {as : List α} (h : P s) (hrun : run step s as = some s') : P s' := by
  induction as generalizing s with
  | nil => exact Option.some.inj hrun ▸ h
  | cons a as ih =>
      obtain ⟨t, ht, hrest⟩ := run_cons_inv hrun
      exact ih (hstep s a t h ht) hrest

/-- Every action of the run meets the guard where it happens. -/
def Guarded (step : σ → α → Option σ) (G : σ → α → Prop) : σ → List α → Prop
  | _, [] => True
  | s, a :: as => G s a ∧ ∀ s', step s a = some s' → Guarded step G s' as

theorem guarded_cons_of_step {G : σ → α → Prop} {s s' : σ} {a : α} {as : List α}
    (h : step s a = some s') :
    Guarded step G s (a :: as) ↔ G s a ∧ Guarded step G s' as := by
  simp [Guarded, h]

/-- Guards that agree on the states of an invariant agree on the runs from there. -/
theorem guarded_congr {G G' : σ → α → Prop} {I : σ → Prop}
    (hstep : ∀ s a s', I s → step s a = some s' → I s') (hguard : ∀ s a, I s → (G s a ↔ G' s a))
    {s : σ} (h : I s) (as : List α) : Guarded step G s as ↔ Guarded step G' s as := by
  induction as generalizing s with
  | nil => exact Iff.rfl
  | cons a as ih =>
      exact and_congr (hguard s a h)
        (forall₂_congr fun s' hs' => ih (hstep s a s' h hs'))

instance Guarded.decidable (step : σ → α → Option σ) (G : σ → α → Prop)
    [∀ s a, Decidable (G s a)] : ∀ s as, Decidable (Guarded step G s as)
  | _, [] => isTrue trivial
  | s, a :: as =>
    match h : step s a with
    | none => decidable_of_iff (G s a) (by simp [Guarded, h])
    | some s' =>
      have := Guarded.decidable step G s' as
      decidable_of_iff (G s a ∧ Guarded step G s' as) (guarded_cons_of_step h).symm

/-- What every guarded step keeps, every guarded run keeps. -/
theorem Guarded.invariant {G : σ → α → Prop} {P : σ → Prop}
    (hstep : ∀ s a s', P s → G s a → step s a = some s' → P s')
    {s s' : σ} {as : List α} (hguard : Guarded step G s as) (h : P s)
    (hrun : run step s as = some s') : P s' := by
  induction as generalizing s with
  | nil => exact Option.some.inj hrun ▸ h
  | cons a as ih =>
      obtain ⟨t, ht, hrest⟩ := run_cons_inv hrun
      obtain ⟨ha, has⟩ := hguard
      exact ih (has t ht) (hstep s a t h ha ht) hrest

/-- A property that a step cannot restore, and that every unguarded step
destroys, holds at the end only of guarded runs. -/
theorem guarded_of_final {G : σ → α → Prop} {P : σ → Prop}
    (hback : ∀ s a s', step s a = some s' → P s' → P s)
    (hguard : ∀ s a s', step s a = some s' → P s → P s' → G s a)
    {s s' : σ} {as : List α} (hrun : run step s as = some s') (h : P s') :
    P s ∧ Guarded step G s as := by
  induction as generalizing s with
  | nil => exact ⟨Option.some.inj hrun ▸ h, trivial⟩
  | cons a as ih =>
      obtain ⟨t, ht, hrest⟩ := run_cons_inv hrun
      obtain ⟨hP, has⟩ := ih hrest
      -- `P` at the end was there before the last step, and so before every one
      have hPs : P s := hback s a t ht hP
      refine ⟨hPs, hguard s a t ht hPs hP, fun t' ht' => ?_⟩
      obtain rfl : t = t' := Option.some.inj (ht.symm.trans ht')
      exact has

/-- If the guard says of every step whether it keeps `P`, then a run goes only
through states with `P` exactly when all of it is guarded. `I` is what the steps
need to be known besides. -/
theorem forall_prefix_iff_guarded {G : σ → α → Prop} {I P : σ → Prop}
    (hstep : ∀ s a s', I s → P s → step s a = some s' → I s' ∧ (P s' ↔ G s a))
    {s s' : σ} {as : List α} (hI : I s) (hP : P s) (hrun : run step s as = some s') :
    (∀ as' t, as' <+: as → run step s as' = some t → P t) ↔ Guarded step G s as := by
  induction as generalizing s with
  | nil =>
      refine iff_of_true (fun as' t hpre ht => ?_) trivial
      obtain rfl := List.prefix_nil.mp hpre
      exact Option.some.inj ht ▸ hP
  | cons a as ih =>
      obtain ⟨t, ht, hrest⟩ := run_cons_inv hrun
      obtain ⟨hIt, hiff⟩ := hstep s a t hI hP ht
      rw [guarded_cons_of_step ht, ← hiff]
      constructor
      · intro h
        have hPt : P t := h [a] t ⟨as, rfl⟩ (by rw [run_cons_of_step ht, run_nil])
        refine ⟨hPt, (ih hIt hPt hrest).mp fun as' u hpre hu => ?_⟩
        exact h (a :: as') u (List.cons_prefix_cons.mpr ⟨rfl, hpre⟩)
          (by rw [run_cons_of_step ht, hu])
      · rintro ⟨hPt, hguard⟩ as' u hpre hu
        cases as' with
        | nil => exact Option.some.inj hu ▸ hP
        | cons b as' =>
            obtain ⟨rfl, hpre'⟩ := List.cons_prefix_cons.mp hpre
            rw [run_cons_of_step ht] at hu
            exact (ih hIt hPt hrest).mpr hguard as' u hpre' hu

end Machine
