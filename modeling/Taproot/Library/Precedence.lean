import Taproot.Library.Journal

/-!
# Taproot.Library.Precedence

A **setting with several sources**, from the weakest to the strongest. Each source may
give a candidate, each candidate is checked on its own, and the last one that passes
its check stays; the default is what is there if none does.

A file of assignments is one source: of the assignments of a key the last one is the
candidate, and the others are gone even if that one does not pass
(`lookup_replay_puts_last`).
-/

namespace Journal

variable {κ ν β γ : Type*}

/-! ### The last accepted candidate -/

/-- Each candidate that is accepted replaces what was there. -/
def lastAccepted (accept : β → Option γ) (default : γ) (candidates : List β) : γ :=
  candidates.foldl (fun current candidate => (accept candidate).getD current) default

@[simp] theorem lastAccepted_nil (accept : β → Option γ) (default : γ) :
    lastAccepted accept default [] = default := rfl

@[simp] theorem lastAccepted_cons (accept : β → Option γ) (default : γ) (c : β) (cs : List β) :
    lastAccepted accept default (c :: cs) =
      lastAccepted accept ((accept c).getD default) cs := rfl

theorem lastAccepted_append (accept : β → Option γ) (default : γ) (cs ds : List β) :
    lastAccepted accept default (cs ++ ds) =
      lastAccepted accept (lastAccepted accept default cs) ds := List.foldl_append

/-- The default stays if no candidate is accepted; else a candidate stays that is
accepted, and none after it is. -/
theorem lastAccepted_spec (accept : β → Option γ) (default : γ) (cs : List β) :
    ((∀ c ∈ cs, accept c = none) ∧ lastAccepted accept default cs = default) ∨
    ∃ before c after, cs = before ++ c :: after ∧
      accept c = some (lastAccepted accept default cs) ∧ ∀ d ∈ after, accept d = none := by
  induction cs generalizing default with
  | nil => exact Or.inl ⟨fun c hc => absurd hc List.not_mem_nil, rfl⟩
  | cons c cs ih =>
      rw [lastAccepted_cons]
      rcases ih ((accept c).getD default) with ⟨hnone, hlast⟩ | ⟨before, d, after, rfl, hd, hafter⟩
      · rw [hlast]
        -- nothing behind `c` is accepted, so it stays if it is
        cases hc : accept c with
        | none => exact Or.inl ⟨List.forall_mem_cons.mpr ⟨hc, hnone⟩, rfl⟩
        | some x => exact Or.inr ⟨[], c, cs, rfl, hc, hnone⟩
      · exact Or.inr ⟨c :: before, d, after, rfl, hd, hafter⟩

/-- What holds of the default and of all that is accepted holds of what stays. -/
theorem lastAccepted_induction {P : γ → Prop} {accept : β → Option γ} {default : γ}
    (hdefault : P default) (haccept : ∀ c x, accept c = some x → P x) (cs : List β) :
    P (lastAccepted accept default cs) := by
  rcases lastAccepted_spec accept default cs with ⟨-, hlast⟩ | ⟨-, c, -, -, hc, -⟩
  · rw [hlast]
    exact hdefault
  · exact haccept c _ hc

/-! ### A file of assignments -/

variable [DecidableEq κ]

/-- The values that are assigned to a key, in order. -/
def assigned (k : κ) (es : List (Σ _ : κ, ν)) : List ν :=
  (es.filter fun e => e.1 = k).map Sigma.snd

@[simp] theorem assigned_nil (k : κ) : assigned k ([] : List (Σ _ : κ, ν)) = [] := rfl

theorem assigned_cons (k : κ) (e : Σ _ : κ, ν) (es : List (Σ _ : κ, ν)) :
    assigned k (e :: es) = if e.1 = k then e.2 :: assigned k es else assigned k es := by
  by_cases h : e.1 = k
  · rw [assigned, List.filter_cons_of_pos (by simpa using h), List.map_cons, if_pos h, assigned]
  · rw [assigned, List.filter_cons_of_neg (by simpa using h), if_neg h, assigned]

/-- A map of assignments has the last one of each key. -/
theorem lookup_replay_puts_last (m : Map κ ν) (es : List (Σ _ : κ, ν)) (k : κ) :
    (replay m (puts es)).lookup k = (assigned k es).getLast?.or (m.lookup k) := by
  induction es generalizing m with
  | nil => rfl
  | cons e es ih =>
      have hcons : replay m (puts (e :: es)) = replay (m.insert e.1 e.2) (puts es) := rfl
      rw [hcons, ih, assigned_cons]
      by_cases h : e.1 = k
      · rw [if_pos h, ← h, Finmap.lookup_insert]
        cases hlast : (assigned e.1 es).getLast? with
        | none => simp [List.getLast?_eq_none_iff.mp hlast]
        | some v => simp [List.getLast?_cons, hlast]
      · rw [if_neg h, Finmap.lookup_insert_of_ne _ (Ne.symm h)]

end Journal
