import Taproot.Traffic

/-!
# Taproot.Durability

When a keyspace that is **destroyed and constructed again** holds what it held.

What is on file at the end is either the log of everything that happened, or,
after a compaction, one put line for each pair; both are read back line by line.
A compacted keyspace comes back exactly when every stored key and value is a
fixed point of the tokenizer (`replay_reread_puts_iff`): every pair that comes
back was read off a pair at least as long, so a longest pair that does not read
back as itself has nothing to come from. A keyspace that was emptied is not
compacted, but nothing is left in its log either (`replay_reread_eq_empty`).
-/

namespace Taproot

open Posix Journal

/-! ### Reading a compacted log back -/

theorem mem_rereadRecord_put {k v k' v' : Bytes}
    (h : Update.put k' v' ∈ rereadRecord (.put k v)) :
    Readable k ∧ v ≠ [] ∧ k' = reread k ∧ v' = reread v := by
  rw [rereadRecord] at h
  split at h
  · next hr =>
      obtain ⟨rfl, rfl⟩ := Update.put.inj (List.mem_singleton.mp h)
      exact ⟨hr.1, hr.2, rfl, rfl⟩
  · exact absurd h List.not_mem_nil

theorem replay_reread_puts_iff (it : Iteration Bytes Bytes) {s : Store}
    (hs : ∀ k v, s.lookup k = some v → KeyShape k ∧ TokenShape v) :
    replay ∅ ((puts (it.entries s)).flatMap rereadRecord) = s ↔
      ∀ k v, s.lookup k = some v → FixedKey k ∧ FixedValue v := by
  have hmem : ∀ {k v}, Update.put k v ∈ puts (it.entries s) → s.lookup k = some v := by
    intro k v h
    obtain ⟨e, he, heq⟩ := mem_puts.mp h
    obtain ⟨rfl, rfl⟩ := Update.put.inj heq
    exact (it.mem_entries_iff s).mp he
  constructor
  · intro h
    refine forall_of_heavier (fun k v => k.length + v.length) fun k v hkv hfixed => ?_
    -- the pair came back, so it was read off some line
    have hback := hkv
    rw [← h] at hback
    rcases mem_or_put_of_mem_replay hback with hnone | hput
    · exact absurd hnone (by simp)
    obtain ⟨r, hr, hline⟩ := List.mem_flatMap.mp hput
    obtain ⟨⟨k', v'⟩, he, rfl⟩ := mem_puts.mp hr
    obtain ⟨hreadable, hne, rfl, rfl⟩ := mem_rereadRecord_put hline
    have hkv' : s.lookup k' = some v' := hmem hr
    obtain ⟨hk', hv'⟩ := hs k' v' hkv'
    -- the line was not that of a fixed pair, or the pair would be fixed
    have hchanged : ¬(reread k' = k' ∧ reread v' = v') := by
      rintro ⟨hkeq, hveq⟩
      rw [hkeq, hveq] at hfixed
      exact hfixed ⟨(fixedKey_iff hk').mpr ⟨hreadable, hkeq⟩, (fixedValue_iff hv').mpr ⟨hne, hveq⟩⟩
    refine ⟨k', v', hkv', fun hf => hchanged ?_, ?_⟩
    · exact ⟨((fixedKey_iff hk').mp hf.1).2, ((fixedValue_iff hv').mp hf.2).2⟩
    · show (reread k').length + (reread v').length < k'.length + v'.length
      rcases reread_eq_or_lt k' with hkeq | hklt
      · rcases reread_eq_or_lt v' with hveq | hvlt
        · exact absurd ⟨hkeq, hveq⟩ hchanged
        · rw [hkeq]
          omega
      · have := length_reread_le v'
        omega
  · intro h
    rw [flatMap_rereadRecord_of_fixed]
    · exact replay_puts_entries it s
    · intro r hr
      obtain ⟨e, -, rfl⟩ := mem_puts.mp hr
      exact hs _ _ (hmem hr)
    · intro r hr
      obtain ⟨e, -, rfl⟩ := mem_puts.mp hr
      exact h _ _ (hmem hr)

/-! ### Reading the log of an emptied keyspace back -/

/-- Every key that comes back was read off a key that is still held. -/
theorem exists_reread_of_mem (rs : List Record) :
    ∀ k', k' ∈ replay (∅ : Store) (rs.flatMap rereadRecord) →
      ∃ k, k ∈ replay (∅ : Store) rs ∧ Readable k ∧ reread k = k' := by
  induction rs using List.reverseRecOn with
  | nil => exact fun k' hk' => absurd hk' (Finmap.notMem_empty)
  | append_singleton rs r ih =>
      intro k' hk'
      rw [List.flatMap_append, List.flatMap_singleton, replay_append] at hk'
      rw [replay_append]
      cases r with
      | put k v =>
          show ∃ x, x ∈ (replay ∅ rs).insert k v ∧ _
          rw [rereadRecord] at hk'
          split at hk'
          -- the line is read as a put of another key, or of the same
          · next hr =>
              rcases Finmap.mem_insert.mp hk' with rfl | hk'
              · exact ⟨k, Finmap.mem_insert.mpr (Or.inl rfl), hr.1, rfl⟩
              · obtain ⟨x, hx, hreadable, hxk⟩ := ih k' hk'
                exact ⟨x, Finmap.mem_insert.mpr (Or.inr hx), hreadable, hxk⟩
          · obtain ⟨x, hx, hreadable, hxk⟩ := ih k' hk'
            exact ⟨x, Finmap.mem_insert.mpr (Or.inr hx), hreadable, hxk⟩
      | del k =>
          show ∃ x, x ∈ (replay ∅ rs).erase k ∧ _
          rw [rereadRecord] at hk'
          split at hk'
          -- the line of an empty key deletes nothing, and no readable key is empty
          · next hk =>
              obtain ⟨x, hx, hreadable, hxk⟩ := ih k' hk'
              have hne : x ≠ k := fun h => hreadable.1 (h.trans hk)
              exact ⟨x, Finmap.mem_erase.mpr ⟨hne, hx⟩, hreadable, hxk⟩
          · obtain ⟨hne, hk'⟩ := Finmap.mem_erase.mp (show k' ∈ Finmap.erase _ _ from hk')
            obtain ⟨x, hx, hreadable, hxk⟩ := ih k' hk'
            -- keys that are read alike are deleted alike
            have hxne : x ≠ k := fun h => hne (h ▸ hxk.symm)
            exact ⟨x, Finmap.mem_erase.mpr ⟨hxne, hx⟩, hreadable, hxk⟩

theorem replay_reread_eq_empty {rs : List Record} (h : replay (∅ : Store) rs = ∅) :
    replay (∅ : Store) (rs.flatMap rereadRecord) = ∅ := by
  refine Finmap.ext_lookup fun k' => ?_
  rw [Finmap.lookup_empty, Finmap.lookup_eq_none]
  intro hk'
  obtain ⟨k, hk, -⟩ := exists_reread_of_mem rs k' hk'
  rw [h] at hk
  exact Finmap.notMem_empty hk

/-! ### Durability -/

namespace Keyspace

/-- Destroyed and constructed again, the keyspace holds the same store. -/
def Durable (env env' : Env) (ks : Keyspace) : Prop := Reopens env env' ks ks.db.store

/-- Every stored pair reads back as itself. When the counter of changes has
come round to zero with something stored, there is no compaction, and the
history has to read back as a whole. -/
def ReadsBack (ks : Keyspace) : Prop :=
  if ks.db.dirty % SIZE_MOD = 0 ∧ ks.db.store ≠ ∅ then
    replay ∅ (ks.db.logger.appended.flatMap rereadRecord) = ks.db.store
  else
    ∀ k v, ks.db.store.lookup k = some v → FixedKey k ∧ FixedValue v

variable {name a : Bytes} {ks : Keyspace}

theorem Journaled.storeShape (h : Journaled [] ∅ ks) :
    ∀ k v, ks.db.store.lookup k = some v → KeyShape k ∧ TokenShape v := by
  intro k v hkv
  rw [h.store_eq] at hkv
  rcases mem_or_put_of_mem_replay hkv with hnone | hput
  · exact absurd hnone (by simp)
  · exact h.shaped _ hput

theorem compacted_eq (env : Env) (s : Store) :
    Log.compacted env s = logLines (puts (env.iteration.entries s)) := by
  rw [Log.compacted, logLines, puts, List.flatMap_map]
  rfl

theorem Journaled.durable_iff_readsBack (ha : Attached name a ks) (h : Journaled [] ∅ ks)
    (hpaths : Holds ks.fs name a) {env : Env} (henv : env.temp = .complete) (env' : Env) :
    Durable env env' ks ↔ ReadsBack ks := by
  rw [Durable, reopens_iff ha]
  by_cases hskips : Log.Skips ks.db.store (ks.db.dirty % SIZE_MOD)
  · rw [content_shutdown_of_skips ha hpaths.db env hskips, h.text_eq, List.nil_append,
      runRecords_getlines_logLines h.shaped]
    by_cases hempty : ks.db.store = ∅
    -- a store that is empty again leaves a history that comes back empty
    · have hback : replay (∅ : Store) (ks.db.logger.appended.flatMap rereadRecord) = ∅ :=
        replay_reread_eq_empty (h.store_eq.symm.trans hempty)
      rw [ReadsBack, if_neg fun hc => hc.2 hempty, hempty]
      exact iff_of_true hback fun k v hkv => absurd hkv (by simp)
    -- the counter has come round: the file is the history
    · have hzero : ks.db.dirty % SIZE_MOD = 0 :=
        Nat.le_zero.mp (hskips.resolve_right hempty)
      rw [ReadsBack, if_pos ⟨hzero, hempty⟩]
  · have hcond : ¬(ks.db.dirty % SIZE_MOD = 0 ∧ ks.db.store ≠ ∅) :=
      fun hc => hskips (Or.inl (Nat.le_zero.mpr hc.1))
    rw [content_shutdown_of_compacts ha hpaths henv hskips, compacted_eq,
      runRecords_getlines_logLines, ReadsBack, if_neg hcond,
      replay_reread_puts_iff env.iteration h.storeShape]
    intro r hr
    obtain ⟨e, he, rfl⟩ := mem_puts.mp hr
    exact h.storeShape _ _ ((env.iteration.mem_entries_iff _).mp he)

/-- **Durability of the command language.** Whatever commands a keyspace gets
whose file starts empty, and however the flusher's rounds fall between them, it
comes back with the same store exactly if what it holds reads back. -/
theorem durable_iff {fs fs' : Files} {db : DB} {env env₁ : Env} {es : List Event}
    (hpaths : Holds fs name a) (hempty : (fs.read (aofPath name)).getD [] = [])
    (hreplaying : env.replaying = false) (hnew : DB.new env fs name = (fs', .ok db))
    (hes : ∀ e ∈ es, e.isTraffic = true) (htemp : env₁.temp = .complete) (env₂ : Env) :
    Durable env₁ env₂ (run ⟨fs', db⟩ es) ↔ ReadsBack (run ⟨fs', db⟩ es) := by
  obtain ⟨a', i, hp, hfs, hdb, ha, hread⟩ := new_inv hnew
  obtain rfl : a = a' := Option.some.inj (hpaths.aof.symm.trans hp)
  rw [hempty] at hdb hread
  have hresolve : (run ⟨fs', db⟩ es).fs.resolve = fs.resolve := by
    rw [run_resolve, hfs, FS.openAppend_resolve]
  exact (journaled_run ha (journaled_new hreplaying hdb hread) hes).durable_iff_readsBack
    (attached_run ha es) (hpaths.congr hresolve) htemp env₂

/-- The quoted arguments of `mput` keep their quotation marks in the log. -/
theorem durable_iff_phrases :
    Durable Env.calm Env.calm ((fresh (ascii "a")).run
        [.command (ascii "mput \"a b\" 1 k \"c d"), .swap, .command (ascii "del k"), .write]) ↔
      ReadsBack ((fresh (ascii "a")).run
        [.command (ascii "mput \"a b\" 1 k \"c d"), .swap, .command (ascii "del k"), .write]) :=
  durable_iff (holds_blankFiles (ascii "a")) rfl rfl (new_blankFiles (ascii "a"))
    (by decide) rfl Env.calm

theorem journaled_fresh (name : Bytes) : Journaled [] ∅ (fresh name) :=
  journaled_new rfl rfl (FS.read_openAppend (holds_blankFiles name).aof)

/-- An empty key is lost: its line has one argument left. -/
theorem not_durable_empty_key :
    ¬Durable Env.calm Env.calm
      ((fresh (ascii "a")).run [.command (ascii "put \"\" x")]) := by
  have ha := attached_fresh (ascii "a")
  have hj : Journaled [] ∅ ((fresh (ascii "a")).run [.command (ascii "put \"\" x")]) :=
    journaled_run ha (journaled_fresh _) (by decide)
  have hrecords : commandRecords (tokens (ascii "put \"\" x")) = [.put [] (ascii "x")] := by decide
  have hstep : (fresh (ascii "a")).run [.command (ascii "put \"\" x")] =
      { fresh (ascii "a") with
        db := (fresh (ascii "a")).db.execute (tokens (ascii "put \"\" x")) } := by
    rw [run_cons, step_command (ha.appends none), run_nil]
  have hpaths := (holds_fresh (ascii "a")).congr
    (run_resolve _ [.command (ascii "put \"\" x")])
  rw [hj.durable_iff_readsBack (attached_run ha _) hpaths rfl, ReadsBack, hstep,
    DB.execute_eq rfl, hrecords, if_neg (fun h => absurd h.1 (by decide))]
  intro h
  have hheld : (Finmap.insert [] (ascii "x") (fresh (ascii "a")).db.store).lookup [] =
      some (ascii "x") := Finmap.lookup_insert _
  have hkey := (h [] (ascii "x") hheld).1
  have hbare : KeyShape [] := Or.inl fun c hc => absurd hc List.not_mem_nil
  exact ((fixedKey_iff hbare).mp hkey).1.1 rfl

end Keyspace

end Taproot
