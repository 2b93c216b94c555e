import Taproot.Library.Machine

/-!
# Taproot.Library.Progress

What a labelled step function does **in the end**. A schedule is an endless
sequence of actions that are attempted one after the other; an action that
cannot happen when its turn comes is passed over. The actions are sorted, so that
a choice that is made outside, such as how a call comes back, need not be fair. A
goal is reached under every schedule in which the helpful sorts recur, if in every
state short of the goal some sort helps: all its actions can happen and lower a
rank, and it goes on helping while others act, unless they lower the rank
themselves (`Progress.eventually`).
-/

namespace Machine

variable {σ α κ : Type*} {step : σ → α → Option σ} {sort : α → κ → Prop}

/-- An action whose turn has come. -/
def attempt (step : σ → α → Option σ) (s : σ) (a : α) : σ := (step s a).getD s

/-- The state after the first `n` turns of a schedule. -/
def scheduled (step : σ → α → Option σ) (s : σ) (turns : Nat → α) : Nat → σ
  | 0 => s
  | n + 1 => attempt step (scheduled step s turns n) (turns n)

@[simp] theorem scheduled_zero (s : σ) (turns : Nat → α) : scheduled step s turns 0 = s := rfl

theorem scheduled_succ (s : σ) (turns : Nat → α) (n : Nat) :
    scheduled step s turns (n + 1) = attempt step (scheduled step s turns n) (turns n) := rfl

theorem attempt_of_step {s s' : σ} {a : α} (h : step s a = some s') : attempt step s a = s' := by
  rw [attempt, h]
  rfl

theorem attempt_of_none {s : σ} {a : α} (h : step s a = none) : attempt step s a = s := by
  rw [attempt, h]
  rfl

/-- What every step keeps, every schedule keeps. -/
theorem scheduled_invariant {P : σ → Prop} (hstep : ∀ s a s', P s → step s a = some s' → P s')
    {s : σ} (h : P s) (turns : Nat → α) (n : Nat) : P (scheduled step s turns n) := by
  induction n with
  | zero => exact h
  | succ n ih =>
      rw [scheduled_succ]
      cases hturn : step (scheduled step s turns n) (turns n) with
      | none => rwa [attempt_of_none hturn]
      | some s' =>
          rw [attempt_of_step hturn]
          exact hstep _ _ _ ih hturn

/-- Actions of the sort `k` get their turn again and again. -/
def Recurs (sort : α → κ → Prop) (turns : Nat → α) (k : κ) : Prop :=
  ∀ n, ∃ m, n ≤ m ∧ sort (turns m) k

/-- The steps from the states of `I` lead towards `goal`. -/
structure Progress (step : σ → α → Option σ) (sort : α → κ → Prop) (I goal : σ → Prop)
    (rank : σ → Nat) (Helps : σ → κ → Prop) : Prop where
  keeps : ∀ {s a s'}, I s → ¬goal s → step s a = some s' → I s'
  exists_helps : ∀ {s}, I s → ¬goal s → ∃ k, Helps s k
  advances : ∀ {s k a}, I s → ¬goal s → Helps s k → sort a k →
    ∃ s', step s a = some s' ∧ rank s' < rank s
  /-- What others do meanwhile does not set it back. -/
  waits : ∀ {s k b s'}, I s → ¬goal s → Helps s k → step s b = some s' →
    rank s' < rank s ∨ rank s' = rank s ∧ Helps s' k

namespace Progress

variable {I goal : σ → Prop} {rank : σ → Nat} {Helps : σ → κ → Prop} {s : σ} {turns : Nat → α}

/-- An invariant is kept up to the goal. -/
theorem invariant_succ (h : Progress step sort I goal rank Helps) {n : Nat}
    (hI : I (scheduled step s turns n)) (hgoal : ¬goal (scheduled step s turns n)) :
    I (scheduled step s turns (n + 1)) := by
  rw [scheduled_succ]
  cases hstep : step (scheduled step s turns n) (turns n) with
  | none => rwa [attempt_of_none hstep]
  | some s' =>
      rw [attempt_of_step hstep]
      exact h.keeps hI hgoal hstep

/-- Before a helpful sort has its turn, the goal or a lower rank is reached, or it
still helps. -/
theorem until_turn (h : Progress step sort I goal rank Helps) {k : κ} {n : Nat}
    (hI : I (scheduled step s turns n)) (hhelps : Helps (scheduled step s turns n) k) (d : Nat) :
    (∃ m, n ≤ m ∧ I (scheduled step s turns m) ∧ (goal (scheduled step s turns m) ∨
      rank (scheduled step s turns m) < rank (scheduled step s turns n))) ∨
    I (scheduled step s turns (n + d)) ∧ Helps (scheduled step s turns (n + d)) k ∧
      rank (scheduled step s turns (n + d)) = rank (scheduled step s turns n) := by
  induction d with
  | zero => exact Or.inr ⟨hI, hhelps, rfl⟩
  | succ d ih =>
      rcases ih with hfound | ⟨hI', hhelps', hrank⟩
      · exact Or.inl hfound
      by_cases hgoal : goal (scheduled step s turns (n + d))
      · exact Or.inl ⟨n + d, Nat.le_add_right n d, hI', Or.inl hgoal⟩
      have hkept := h.invariant_succ hI' hgoal
      cases hstep : step (scheduled step s turns (n + d)) (turns (n + d)) with
      | none =>
          rw [scheduled_succ, attempt_of_none hstep] at hkept
          rw [← Nat.add_assoc, scheduled_succ, attempt_of_none hstep]
          exact Or.inr ⟨hkept, hhelps', hrank⟩
      | some s' =>
          have hnext : scheduled step s turns (n + d + 1) = s' := by
            rw [scheduled_succ, attempt_of_step hstep]
          rw [hnext] at hkept
          rcases h.waits hI' hgoal hhelps' hstep with hlower | ⟨hsame, hstill⟩
          · refine Or.inl ⟨n + d + 1, by omega, ?_, Or.inr ?_⟩
            · rwa [hnext]
            · rw [hnext, ← hrank]
              exact hlower
          · refine Or.inr ?_
            rw [← Nat.add_assoc, hnext]
            exact ⟨hkept, hstill, hsame.trans hrank⟩

/-- **The goal is reached** under every schedule in which the sorts that can help
recur. -/
theorem eventually (h : Progress step sort I goal rank Helps) (hI : I s)
    (hfair : ∀ k, (∃ s, Helps s k) → Recurs sort turns k) :
    ∃ n, goal (scheduled step s turns n) ∧ I (scheduled step s turns n) := by
  have hfrom : ∀ r n, rank (scheduled step s turns n) = r → I (scheduled step s turns n) →
      ∃ m, goal (scheduled step s turns m) ∧ I (scheduled step s turns m) := by
    intro r
    -- until the helpful sort has its turn, the goal is met or the rank falls, and at that turn
    -- it falls
    induction r using Nat.strongRecOn with
    | ind r ih =>
        intro n hrank hI
        by_cases hgoal : goal (scheduled step s turns n)
        · exact ⟨n, hgoal, hI⟩
        obtain ⟨k, hhelps⟩ := h.exists_helps hI hgoal
        obtain ⟨m, hm, hturn⟩ := hfair k ⟨_, hhelps⟩ n
        obtain ⟨d, rfl⟩ := Nat.exists_eq_add_of_le hm
        rcases h.until_turn hI hhelps d with ⟨l, -, hIl, hl⟩ | ⟨hI', hhelps', hrank'⟩
        · rcases hl with hl | hl
          · exact ⟨l, hl, hIl⟩
          · exact ih _ (hrank ▸ hl) l rfl hIl
        by_cases hgoal' : goal (scheduled step s turns (n + d))
        · exact ⟨n + d, hgoal', hI'⟩
        · -- its turn has come
          obtain ⟨s', hstep, hlower⟩ := h.advances hI' hgoal' hhelps' hturn
          have hnext : scheduled step s turns (n + d + 1) = s' := by
            rw [scheduled_succ, attempt_of_step hstep]
          refine ih _ ?_ (n + d + 1) rfl (h.invariant_succ hI' hgoal')
          rw [hnext]
          omega
  exact hfrom _ 0 rfl hI

end Progress

end Machine
