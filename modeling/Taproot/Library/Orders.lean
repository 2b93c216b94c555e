import Mathlib.Data.List.Infix

/-!
# Taproot.Library.Orders

Two sequences of the same events that **grow at their ends**, each at its own
pace: one may run ahead of the other, but as long as they are `Abreast` the one
behind has recorded nothing out of order. `Due` says what may be added to the
one behind without breaking this, and nothing else may (`abreast_concat_iff`).
-/

namespace Orders

variable {α : Type*}

/-- One of the two sequences continues the other. -/
def Abreast (xs ys : List α) : Prop := xs <+: ys ∨ ys <+: xs

/-- If `behind` has events of `ahead` to catch up with, `x` is the next of them. -/
def Due (ahead behind : List α) (x : α) : Prop :=
  behind.length < ahead.length → ahead[behind.length]? = some x

instance [DecidableEq α] (ahead behind : List α) (x : α) : Decidable (Due ahead behind x) := by
  unfold Due; infer_instance

variable {xs ys : List α} {x : α}

theorem Abreast.symm (h : Abreast xs ys) : Abreast ys xs := Or.symm h

theorem abreast_nil (xs : List α) : Abreast xs [] := Or.inr List.nil_prefix

/-- What is abreast was abreast before. -/
theorem Abreast.of_concat (h : Abreast xs (ys ++ [x])) : Abreast xs ys := by
  rcases h with h | h
  · rcases List.prefix_concat_iff.mp h with rfl | h
    · exact Or.inr (List.prefix_append ys [x])
    · exact Or.inl h
  · exact Or.inr ((List.prefix_append ys [x]).trans h)

/-- The next event of the sequence that is behind is the only one that keeps
the two abreast. -/
theorem abreast_concat_iff (h : Abreast xs ys) : Abreast xs (ys ++ [x]) ↔ Due xs ys x := by
  constructor
  · rintro (hpre | hpre) hlt
    · -- `xs` is longer than `ys` and no longer than `ys ++ [x]`
      rcases List.prefix_concat_iff.mp hpre with rfl | hpre
      · simp
      · exact absurd hpre.length_le (Nat.not_le.mpr hlt)
    · obtain ⟨zs, rfl⟩ := hpre
      simp
  · intro hdue
    by_cases hlt : ys.length < xs.length
    · have hpre : ys <+: xs := h.resolve_left fun hxs => absurd hxs.length_le (Nat.not_le.mpr hlt)
      obtain ⟨zs, rfl⟩ := hpre
      have hget := hdue hlt
      cases zs with
      | nil => simp at hget
      | cons z zs =>
          obtain rfl : z = x := by simpa using hget
          exact Or.inr ⟨zs, by simp⟩
    · have hpre : xs <+: ys := by
        rcases h with hxs | hys
        · exact hxs
        · rw [hys.eq_of_length_le (Nat.not_lt.mp hlt)]
      exact Or.inl (hpre.trans (List.prefix_append ys [x]))

/-- Abreast sequences in which every event occurs equally often are equal. -/
theorem Abreast.eq_of_count [BEq α] [LawfulBEq α] (h : Abreast xs ys)
    (hcount : ∀ x, xs.count x = ys.count x) : xs = ys :=
  have hperm : xs.Perm ys := List.perm_iff_count.mpr hcount
  h.elim (fun h => h.eq_of_length hperm.length_eq)
    fun h => (h.eq_of_length hperm.length_eq.symm).symm

end Orders
