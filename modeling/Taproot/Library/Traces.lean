import Taproot.Library.Journal

/-!
# Taproot.Library.Traces

Journals in which the updates of **every single key** come in the same order,
however the updates of different keys are mixed. Updates of different keys
commute, so one of two such journals can be taken for the other: it is a
rearrangement of it, leaves the same map and changes as much.
-/

namespace Journal

variable {κ ν : Type*} [DecidableEq κ]

/-- The two journals have the same updates of every key, in the same order. -/
def SameOnKeys (us vs : List (Update κ ν)) : Prop :=
  ∀ k, (us.filter fun u => u.key = k) = vs.filter fun u => u.key = k

namespace SameOnKeys

variable {us vs : List (Update κ ν)}

/-- They leave the same map, -/
theorem replay_eq (h : SameOnKeys us vs) (m : Map κ ν) : replay m us = replay m vs :=
  Finmap.ext_lookup fun k => lookup_replay_filter_congr rfl (h k)

/-- they have the same updates, -/
theorem perm [DecidableEq ν] (h : SameOnKeys us vs) : us.Perm vs := by
  refine List.perm_iff_count.mpr fun u => ?_
  have hcount : ∀ ws : List (Update κ ν),
      (ws.filter fun w => w.key = u.key).count u = ws.count u :=
    fun ws => List.count_filter (by simp)
  rw [← hcount us, ← hcount vs, h u.key]

/-- and the first of one is, in the other, behind updates of other keys only. -/
theorem split {u : Update κ ν} (h : SameOnKeys (u :: us) vs) :
    ∃ xs ys, vs = xs ++ u :: ys ∧ (∀ x ∈ xs, x.key ≠ u.key) ∧ SameOnKeys us (xs ++ ys) := by
  have hkey := h u.key
  rw [List.filter_cons_of_pos (by simp)] at hkey
  obtain ⟨xs, ys, rfl, hxs, -, hys⟩ := List.filter_eq_cons_iff.mp hkey.symm
  have hne : ∀ x ∈ xs, x.key ≠ u.key := fun x hx => by simpa using hxs x hx
  refine ⟨xs, ys, rfl, hne, fun k => ?_⟩
  by_cases hk : u.key = k
  · subst hk
    have hnil : (xs.filter fun x => x.key = u.key) = [] :=
      List.filter_eq_nil_iff.mpr fun x hx => by simpa using hne x hx
    rw [List.filter_append, hnil, List.nil_append, hys]
  -- of another key, neither `u` nor what is before it is seen
  · have hrest := h k
    rw [List.filter_cons_of_neg (by simpa using hk), List.filter_append,
      List.filter_cons_of_neg (by simpa using hk)] at hrest
    rw [hrest, List.filter_append]

end SameOnKeys

/-! ### Commuting one update -/

/-- What one update changes depends on its own key. -/
theorem changes_singleton_congr {m m' : Map κ ν} {u : Update κ ν}
    (h : m.lookup u.key = m'.lookup u.key) : changes m [u] = changes m' [u] := by
  cases u with
  | put k v => rfl
  | del k =>
      have hmem : k ∈ m ↔ k ∈ m' := by
        rw [← Finmap.lookup_isSome, ← Finmap.lookup_isSome]
        exact iff_of_eq (congrArg (fun o => Option.isSome o = true) h)
      simp only [changes, hmem]

theorem replay_swap {u v : Update κ ν} (h : u.key ≠ v.key) (m : Map κ ν) :
    replay m [u, v] = replay m [v, u] := by
  refine Finmap.ext_lookup fun k => ?_
  simp only [replay_cons, replay_nil, Update.lookup_apply]
  by_cases hu : u.key = k
  · have hv : v.key ≠ k := fun hv => h (hu.trans hv.symm)
    simp [hu, hv]
  · simp [hu]

theorem changes_swap {u v : Update κ ν} (h : u.key ≠ v.key) (m : Map κ ν) :
    changes m [u, v] = changes m [v, u] := by
  have hother : ∀ a b : Update κ ν, a.key ≠ b.key →
      changes m [a, b] = changes m [a] + changes m [b] := by
    intro a b hab
    rw [show [a, b] = [a] ++ [b] from rfl, changes_append]
    refine congrArg _ (changes_singleton_congr ?_)
    rw [replay_cons, replay_nil, Update.lookup_apply, if_neg hab]
  rw [hother u v h, hother v u h.symm, Nat.add_comm]

/-- An update moves to the front past updates of other keys. -/
theorem changes_move {u : Update κ ν} {xs : List (Update κ ν)} (h : ∀ x ∈ xs, x.key ≠ u.key)
    (ys : List (Update κ ν)) (m : Map κ ν) :
    changes m (xs ++ u :: ys) = changes m (u :: (xs ++ ys)) := by
  induction xs generalizing m with
  | nil => rfl
  | cons x xs ih =>
      obtain ⟨hx, hxs⟩ := List.forall_mem_cons.mp h
      calc changes m (x :: xs ++ u :: ys)
          = changes m [x] + changes (replay m [x]) (xs ++ u :: ys) := changes_append m [x] _
        _ = changes m [x] + changes (replay m [x]) (u :: (xs ++ ys)) := by rw [ih hxs]
        _ = changes m ([x, u] ++ (xs ++ ys)) := (changes_append m [x] _).symm
        _ = changes m [x, u] + changes (replay m [x, u]) (xs ++ ys) :=
            changes_append m [x, u] (xs ++ ys)
        _ = changes m [u, x] + changes (replay m [u, x]) (xs ++ ys) := by
            rw [changes_swap hx, replay_swap hx]
        _ = changes m (u :: (x :: xs ++ ys)) := (changes_append m [u, x] (xs ++ ys)).symm

/-- Journals that agree on every key change as much. -/
theorem SameOnKeys.changes_eq {us vs : List (Update κ ν)} (h : SameOnKeys us vs) (m : Map κ ν) :
    changes m us = changes m vs := by
  induction us generalizing m vs with
  | nil =>
      cases vs with
      | nil => rfl
      | cons v vs => exact absurd (h v.key).symm (by simp)
  | cons u us ih =>
      obtain ⟨xs, ys, rfl, hne, hrest⟩ := h.split
      calc changes m (u :: us)
          = changes m [u] + changes (replay m [u]) us := changes_append m [u] us
        _ = changes m [u] + changes (replay m [u]) (xs ++ ys) := by rw [ih hrest]
        _ = changes m (u :: (xs ++ ys)) := (changes_append m [u] _).symm
        _ = changes m (xs ++ u :: ys) := (changes_move hne ys m).symm

end Journal
