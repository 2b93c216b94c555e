import Mathlib.Data.Finmap
import Mathlib.Data.Set.Finite.Lemmas

/-!
# Taproot.Library.Journal

A **journal** is a list of updates of a finite map, written in the order in
which they happened. Replaying it over the map it started from gives the map it
stands for. Everything here is about arbitrary key and value types; a program
that keeps a log of its writes instantiates it at its own.

The workhorse is `lookup_replay`: what a replay leaves at a key depends only on
the updates of that key. Facts about the whole map (`replay_eq_empty_iff`,
`replay_puts_entries`) are read off it pointwise, through `Finmap.ext_lookup`.
-/

namespace Journal

variable {κ ν : Type*}

/-- The maps a journal is about. -/
abbrev Map (κ ν : Type*) := Finmap fun _ : κ => ν

/-- One update of a map. -/
inductive Update (κ ν : Type*)
  | put (k : κ) (v : ν)
  | del (k : κ)
  deriving DecidableEq, Repr

namespace Update

/-- The key an update touches. -/
def key : Update κ ν → κ
  | put k _ => k
  | del k => k

/-- What an update leaves at its key. -/
def value : Update κ ν → Option ν
  | put _ v => some v
  | del _ => none

@[simp] theorem key_put (k : κ) (v : ν) : (put k v).key = k := rfl
@[simp] theorem key_del (k : κ) : (del k : Update κ ν).key = k := rfl
@[simp] theorem value_put (k : κ) (v : ν) : (put k v).value = some v := rfl
@[simp] theorem value_del (k : κ) : (del k : Update κ ν).value = none := rfl

variable [DecidableEq κ]

/-- The effect of an update on a map. -/
def apply (m : Map κ ν) : Update κ ν → Map κ ν
  | put k v => m.insert k v
  | del k => m.erase k

@[simp] theorem apply_put (m : Map κ ν) (k : κ) (v : ν) :
    apply m (put k v) = m.insert k v := rfl
@[simp] theorem apply_del (m : Map κ ν) (k : κ) : apply m (del k) = m.erase k := rfl

/-- The key of the update holds the update's value; every other key is kept. -/
theorem lookup_apply (m : Map κ ν) (u : Update κ ν) (k : κ) :
    (apply m u).lookup k = if u.key = k then u.value else m.lookup k := by
  cases u with
  | put k' v =>
      by_cases h : k' = k
      · subst h; simp
      · simp [h, Finmap.lookup_insert_of_ne _ (Ne.symm h)]
  | del k' =>
      by_cases h : k' = k
      · subst h; simp
      · simp [h, Finmap.lookup_erase_ne (Ne.symm h)]

end Update

variable [DecidableEq κ]

/-- The map a journal stands for, read over the map it started from. -/
def replay (m : Map κ ν) (us : List (Update κ ν)) : Map κ ν :=
  us.foldl Update.apply m

@[simp] theorem replay_nil (m : Map κ ν) : replay m [] = m := rfl
@[simp] theorem replay_cons (m : Map κ ν) (u : Update κ ν) (us : List (Update κ ν)) :
    replay m (u :: us) = replay (u.apply m) us := rfl
theorem replay_append (m : Map κ ν) (us vs : List (Update κ ν)) :
    replay m (us ++ vs) = replay (replay m us) vs := List.foldl_append

/-! ### Locality: a key sees only its own updates -/

/-- Maps that agree on a key still agree on it after the same journal. -/
theorem lookup_replay_congr {m m' : Map κ ν} {k : κ} (h : m.lookup k = m'.lookup k)
    (us : List (Update κ ν)) : (replay m us).lookup k = (replay m' us).lookup k := by
  induction us generalizing m m' with
  | nil => exact h
  | cons u us ih =>
      refine ih ?_
      rw [Update.lookup_apply, Update.lookup_apply, h]

/-- What a replay leaves at a key is decided by the updates of that key. -/
theorem lookup_replay (m : Map κ ν) (us : List (Update κ ν)) (k : κ) :
    (replay m us).lookup k = (replay m (us.filter fun u => u.key = k)).lookup k := by
  induction us generalizing m with
  | nil => rfl
  | cons u us ih =>
      by_cases h : u.key = k
      · rw [List.filter_cons_of_pos (by simpa using h), replay_cons, replay_cons]
        exact ih _
      · rw [List.filter_cons_of_neg (by simpa using h), replay_cons, ih]
        refine lookup_replay_congr ?_ _
        rw [Update.lookup_apply, if_neg h]

/-- A key no update touches is kept. -/
theorem lookup_replay_of_forall_ne {m : Map κ ν} {us : List (Update κ ν)} {k : κ}
    (h : ∀ u ∈ us, u.key ≠ k) : (replay m us).lookup k = m.lookup k := by
  rw [lookup_replay, List.filter_eq_nil_iff.mpr (fun u hu => by simpa using h u hu), replay_nil]

/-- Two journals with the same updates of a key leave the same at that key. -/
theorem lookup_replay_filter_congr {m m' : Map κ ν} {us vs : List (Update κ ν)} {k : κ}
    (hm : m.lookup k = m'.lookup k)
    (h : (us.filter fun u => u.key = k) = vs.filter fun u => u.key = k) :
    (replay m us).lookup k = (replay m' vs).lookup k := by
  rw [lookup_replay m, lookup_replay m', h]
  exact lookup_replay_congr hm _

/-- A key held after a replay was held before it or is put by the journal. -/
theorem mem_or_put_of_mem_replay {m : Map κ ν} {us : List (Update κ ν)} {k : κ} {v : ν}
    (h : (replay m us).lookup k = some v) : m.lookup k = some v ∨ Update.put k v ∈ us := by
  induction us generalizing m with
  | nil => exact Or.inl h
  | cons u us ih =>
      rcases ih h with hm | hu
      · rw [Update.lookup_apply] at hm
        split at hm
        · next hk =>
            cases u with
            | put k' v' =>
                simp only [Update.key_put, Update.value_put, Option.some.injEq] at hk hm
                subst hk hm
                exact Or.inr List.mem_cons_self
            | del k' => simp at hm
        · exact Or.inl hm
      · exact Or.inr (List.mem_cons_of_mem _ hu)

/-! ### When nothing is left -/

/-- Every put is followed by a deletion of its key. -/
def Settled (us : List (Update κ ν)) : Prop :=
  ∀ xs k v ys, us = xs ++ Update.put k v :: ys → Update.del k ∈ ys

omit [DecidableEq κ] in
theorem settled_cons_iff {u : Update κ ν} {us : List (Update κ ν)} :
    Settled (u :: us) ↔ (∀ k v, u = .put k v → Update.del k ∈ us) ∧ Settled us := by
  constructor
  · intro h
    refine ⟨fun k v hu => h [] k v us (by rw [hu]; rfl), fun xs k v ys hus => ?_⟩
    exact h (u :: xs) k v ys (by rw [hus]; rfl)
  · rintro ⟨hu, hus⟩ xs k v ys heq
    cases xs with
    | nil =>
        obtain ⟨rfl, rfl⟩ := List.cons.inj heq
        exact hu k v rfl
    | cons x xs => exact hus xs k v ys (List.cons.inj heq).2

/-- What a key holds after a replay in which its last update is a deletion. -/
theorem lookup_replay_eq_none {us : List (Update κ ν)} {k : κ} {m : Map κ ν}
    (h : Settled us) (hm : m.lookup k = none ∨ Update.del k ∈ us) :
    (replay m us).lookup k = none := by
  induction us generalizing m with
  | nil =>
      rcases hm with hm | hm
      · exact hm
      · exact absurd hm List.not_mem_nil
  | cons u us ih =>
      obtain ⟨hu, hus⟩ := settled_cons_iff.mp h
      refine ih hus ?_
      rw [Update.lookup_apply]
      by_cases hk : u.key = k
      · rw [if_pos hk]
        cases u with
        | put k' v => exact Or.inr (by simpa [← hk] using hu k' v rfl)
        | del k' => exact Or.inl rfl
      · rw [if_neg hk]
        rcases hm with hm | hm
        · exact Or.inl hm
        · rcases List.mem_cons.mp hm with rfl | hm
          · exact absurd rfl hk
          · exact Or.inr hm

/-- A put with no later deletion of its key leaves the key held. -/
theorem mem_replay {us : List (Update κ ν)} {k : κ} {m : Map κ ν}
    (hm : k ∈ m) (h : Update.del k ∉ us) : k ∈ replay m us := by
  induction us generalizing m with
  | nil => exact hm
  | cons u us ih =>
      rw [List.mem_cons, not_or] at h
      refine ih ?_ h.2
      cases u with
      | put k' v => exact Finmap.mem_insert.mpr (Or.inr hm)
      | del k' => exact Finmap.mem_erase.mpr ⟨fun hk => h.1 (congrArg Update.del hk), hm⟩

/-- A replay keeps the keys of one map among those of another. -/
theorem mem_replay_mono {m m' : Map κ ν} (h : ∀ k ∈ m, k ∈ m') (us : List (Update κ ν)) :
    ∀ k ∈ replay m us, k ∈ replay m' us := by
  induction us generalizing m m' with
  | nil => exact h
  | cons u us ih =>
      refine ih fun k hk => ?_
      cases u with
      | put k' v =>
          rcases Finmap.mem_insert.mp hk with rfl | hk
          · exact Finmap.mem_insert.mpr (Or.inl rfl)
          · exact Finmap.mem_insert.mpr (Or.inr (h k hk))
      | del k' =>
          obtain ⟨hne, hk⟩ := Finmap.mem_erase.mp hk
          exact Finmap.mem_erase.mpr ⟨hne, h k hk⟩

/-- A journal leaves the empty map empty exactly when it is settled. -/
theorem replay_eq_empty_iff {us : List (Update κ ν)} :
    replay (∅ : Map κ ν) us = ∅ ↔ Settled us := by
  constructor
  · rintro h xs k v ys rfl
    by_contra hdel
    have hheld : k ∈ replay (Update.apply (replay ∅ xs) (.put k v)) ys :=
      mem_replay (Finmap.mem_insert.mpr (Or.inl rfl)) hdel
    rw [replay_append, replay_cons] at h
    rw [h] at hheld
    exact Finmap.notMem_empty hheld
  · intro h
    exact Finmap.ext_lookup fun k => by rw [lookup_replay_eq_none h (Or.inl rfl)]; rfl

/-! ### Writing a map out as a journal -/

/-- How a map is walked: for every map the list of its entries, each once, in
an order the map is free to choose. -/
structure Iteration (κ ν : Type*) where
  entries : Map κ ν → List (Σ _ : κ, ν)
  coe_entries : ∀ m, (entries m : Multiset (Σ _ : κ, ν)) = m.entries

namespace Iteration

omit [DecidableEq κ]

/-- Some walk of every map. -/
noncomputable def arbitrary (κ ν : Type*) : Iteration κ ν where
  entries m := m.entries.toList
  coe_entries m := m.entries.coe_toList

variable (it : Iteration κ ν) (m : Map κ ν)

theorem nodupKeys_entries : (it.entries m).NodupKeys := by
  rw [← Multiset.coe_nodupKeys, it.coe_entries]
  exact m.nodupKeys

end Iteration

theorem Iteration.mem_entries_iff (it : Iteration κ ν) (m : Map κ ν) {e : Σ _ : κ, ν} :
    e ∈ it.entries m ↔ m.lookup e.1 = some e.2 := by
  rw [Finmap.lookup_eq_some_iff, ← it.coe_entries, Multiset.mem_coe]

theorem Iteration.entries_singleton (it : Iteration κ ν) (k : κ) (v : ν) :
    it.entries ((∅ : Map κ ν).insert k v) = [⟨k, v⟩] := by
  have hentries := it.coe_entries ((∅ : Map κ ν).insert k v)
  rw [Finmap.entries_insert_of_notMem Finmap.notMem_empty] at hentries
  exact Multiset.coe_eq_singleton.mp hentries

/-- The puts that write a list of entries. -/
def puts (es : List (Σ _ : κ, ν)) : List (Update κ ν) :=
  es.map fun e => .put e.1 e.2

omit [DecidableEq κ] in
@[simp] theorem mem_puts {es : List (Σ _ : κ, ν)} {u : Update κ ν} :
    u ∈ puts es ↔ ∃ e ∈ es, u = .put e.1 e.2 := by
  simp [puts, eq_comm]

/-- Entries with distinct keys are all held after they are written. -/
theorem lookup_replay_puts {es : List (Σ _ : κ, ν)} (hes : es.NodupKeys) {e : Σ _ : κ, ν}
    (he : e ∈ es) (m : Map κ ν) : (replay m (puts es)).lookup e.1 = some e.2 := by
  induction es generalizing m with
  | nil => exact absurd he List.not_mem_nil
  | cons a es ih =>
      obtain ⟨ha, hes'⟩ := List.nodupKeys_cons.mp hes
      rcases List.mem_cons.mp he with rfl | he
      · have hne : ∀ u ∈ puts es, u.key ≠ e.1 := by
          intro u hu hk
          obtain ⟨e', he', rfl⟩ := mem_puts.mp hu
          exact ha (hk ▸ List.mem_keys_of_mem he')
        exact (lookup_replay_of_forall_ne hne).trans (Finmap.lookup_insert _)
      · exact ih hes' he _

/-- A map written out in any order of its entries is read back. -/
theorem replay_puts_entries (it : Iteration κ ν) (m : Map κ ν) :
    replay ∅ (puts (it.entries m)) = m := by
  refine Finmap.ext_lookup fun k => ?_
  cases hk : m.lookup k with
  | some v =>
      have he : (⟨k, v⟩ : Σ _ : κ, ν) ∈ it.entries m := (it.mem_entries_iff m).mpr hk
      exact lookup_replay_puts (it.nodupKeys_entries m) he ∅
  | none =>
      by_contra hne
      obtain ⟨v, hv⟩ := Option.ne_none_iff_exists'.mp hne
      rcases mem_or_put_of_mem_replay hv with h | h
      · simp at h
      · obtain ⟨e, he, heq⟩ := mem_puts.mp h
        obtain ⟨rfl, rfl⟩ := Update.put.inj heq
        rw [(it.mem_entries_iff m).mp he] at hk
        exact absurd hk (by simp)

omit [DecidableEq κ] in
@[simp] theorem map_key_puts (es : List (Σ _ : κ, ν)) : (puts es).map Update.key = es.keys := by
  simp [puts, List.keys, Function.comp_def]

omit [DecidableEq κ] in
/-- There is one put for each key of the map, and none for any other. -/
theorem count_puts_entries [BEq κ] [LawfulBEq κ] (it : Iteration κ ν) (m : Map κ ν) (k : κ)
    [Decidable (k ∈ m)] :
    ((puts (it.entries m)).map Update.key).count k = if k ∈ m then 1 else 0 := by
  have hmem : k ∈ (it.entries m).keys ↔ k ∈ m := by
    rw [Finmap.mem_def, ← it.coe_entries]
    rfl
  rw [map_key_puts]
  split
  · next hk => exact List.count_eq_one_of_mem (it.nodupKeys_entries m) (hmem.mpr hk)
  · next hk => exact List.count_eq_zero_of_not_mem fun h => hk (hmem.mp h)

/-- **A map is no longer than its history**: written out, it is part of any journal
that it is the replay of, each put at a place of its own. -/
theorem puts_entries_subperm (it : Iteration κ ν) (us : List (Update κ ν)) :
    (puts (it.entries (replay ∅ us))).Subperm us := by
  refine List.subperm_of_subset (List.Nodup.of_map Update.key ?_) fun u hu => ?_
  · rw [map_key_puts]
    exact it.nodupKeys_entries _
  · obtain ⟨e, he, rfl⟩ := mem_puts.mp hu
    exact (mem_or_put_of_mem_replay ((it.mem_entries_iff _).mp he)).resolve_left (by simp)

/-- A property that fails only where it fails at something heavier fails
nowhere: a map has finitely many entries. -/
theorem forall_of_heavier {m : Map κ ν} (weight : κ → ν → Nat) {p : κ → ν → Prop}
    (h : ∀ k v, m.lookup k = some v → ¬p k v →
      ∃ k' v', m.lookup k' = some v' ∧ ¬p k' v' ∧ weight k v < weight k' v') :
    ∀ k v, m.lookup k = some v → p k v := by
  intro k v hkv
  by_contra hp
  have hfinite : {e : Σ _ : κ, ν | m.lookup e.1 = some e.2 ∧ ¬p e.1 e.2}.Finite := by
    refine ((Iteration.arbitrary κ ν).entries m).finite_toSet.subset fun e he => ?_
    exact (Iteration.mem_entries_iff _ m).mpr he.1
  -- a heaviest entry for which it fails
  obtain ⟨e, he, hmax⟩ := Set.exists_max_image _ (fun e : Σ _ : κ, ν => weight e.1 e.2) hfinite
    ⟨⟨k, v⟩, hkv, hp⟩
  obtain ⟨k', v', hk', hp', hlt⟩ := h e.1 e.2 he.1 he.2
  exact absurd (hmax ⟨k', v'⟩ ⟨hk', hp'⟩) (Nat.not_le.mpr hlt)

/-! ### Counting the updates that change something -/

/-- The number of puts, plus the number of deletions that find their key, when
the journal is read over `m`. -/
def changes : Map κ ν → List (Update κ ν) → Nat
  | _, [] => 0
  | m, .put k v :: us => 1 + changes (m.insert k v) us
  | m, .del k :: us => (if k ∈ m then 1 else 0) + changes (m.erase k) us

@[simp] theorem changes_nil (m : Map κ ν) : changes m [] = 0 := rfl

theorem changes_append (m : Map κ ν) (us vs : List (Update κ ν)) :
    changes m (us ++ vs) = changes m us + changes (replay m us) vs := by
  induction us generalizing m with
  | nil => simp
  | cons u us ih =>
      cases u with
      | put k v => simp only [List.cons_append, changes, ih, replay_cons, Update.apply_put]; omega
      | del k => simp only [List.cons_append, changes, ih, replay_cons, Update.apply_del]; omega

theorem erase_eq_self {m : Map κ ν} {k : κ} (h : k ∉ m) : m.erase k = m := by
  refine Finmap.ext_lookup fun x => ?_
  by_cases hx : x = k
  · subst hx; rw [Finmap.lookup_erase, Finmap.lookup_eq_none.mpr h]
  · rw [Finmap.lookup_erase_ne hx]

/-- A journal that changes nothing leaves the map as it was. -/
theorem replay_eq_self_of_changes_eq_zero {m : Map κ ν} {us : List (Update κ ν)}
    (h : changes m us = 0) : replay m us = m := by
  induction us generalizing m with
  | nil => rfl
  | cons u us ih =>
      cases u with
      | put k v => simp only [changes] at h; omega
      | del k =>
          simp only [changes, Nat.add_eq_zero_iff] at h
          obtain ⟨hk, hrest⟩ := h
          have hnot : k ∉ m := by
            intro hmem
            rw [if_pos hmem] at hk
            exact absurd hk (by decide)
          rw [erase_eq_self hnot] at hrest
          rw [replay_cons, Update.apply_del, erase_eq_self hnot]
          exact ih hrest

/-! ### Deleting a list of keys -/

/-- Deleting a list of keys leaves the other keys alone. -/
theorem lookup_replay_dels (ks : List κ) (m : Map κ ν) (k : κ) [Decidable (k ∈ ks)] :
    (replay m (ks.map .del)).lookup k = if k ∈ ks then none else m.lookup k := by
  split
  · next hk =>
      have hsettled : Settled (ks.map (.del : κ → Update κ ν)) := by
        intro xs x v ys heq
        have hput : Update.put x v ∈ ks.map .del :=
          heq ▸ List.mem_append_right xs List.mem_cons_self
        simp at hput
      exact lookup_replay_eq_none hsettled (Or.inr (List.mem_map_of_mem hk))
  · next hk =>
      refine lookup_replay_of_forall_ne fun u hu => ?_
      obtain ⟨x, hx, rfl⟩ := List.mem_map.mp hu
      exact fun hxk => hk (hxk ▸ hx)

/-- A deletion counts once for each key that it finds, however often it is
listed. -/
theorem changes_dels (ks : List κ) (m : Map κ ν) :
    changes m (ks.map .del) = (ks.toFinset.filter (· ∈ m)).card := by
  induction ks generalizing m with
  | nil => rfl
  | cons x ks ih =>
      -- once it has been found, `x` is not found again
      have hrest : ks.toFinset.filter (· ∈ m.erase x) =
          (ks.toFinset.filter (· ∈ m)).erase x := by
        ext k
        simp only [Finset.mem_filter, Finset.mem_erase, Finmap.mem_erase]
        exact and_left_comm
      rw [List.map_cons, changes, ih, hrest, List.toFinset_cons, Finset.filter_insert]
      by_cases hx : x ∈ m
      · have hinsert : insert x ((ks.toFinset.filter (· ∈ m)).erase x) =
            insert x (ks.toFinset.filter (· ∈ m)) := by
          ext k
          by_cases hk : k = x <;> simp [hk]
        rw [if_pos hx, if_pos hx, Nat.add_comm, ← hinsert,
          Finset.card_insert_of_notMem (Finset.notMem_erase x _)]
      · have hnot : x ∉ ks.toFinset.filter (· ∈ m) := fun h => hx (Finset.mem_filter.mp h).2
        rw [if_neg hx, if_neg hx, Finset.erase_eq_of_notMem hnot, Nat.zero_add]

end Journal
