import Taproot.Durability

/-!
# Taproot.Skipping

When a shutdown may **skip the compaction**: because nothing was counted as
changed, or because nothing is left to write.

`logged` is the store that the text of the log stands for. The invariant
(`Backed`) says that it is the store itself as long as nothing has changed, and
that it never holds a key that the store does not; a compaction of keys that do
not read back as themselves may break the latter, but such a key, which only an
older file can bring in, stays in the store for good, so the store is never
empty again. What breaks the invariant is a deletion that is not logged, by the
API or after the log is closed, of a key that the log still holds: `Guarded`
rules it out (`backed_run`).
-/

namespace Taproot

open Posix Journal

/-! ### The invariant -/

namespace Keyspace

/-- The store that the text of the log stands for. -/
def logged (ks : Keyspace) : Store := replay ∅ (runRecords (getlines ks.text))

/-- The log stands for no key too many, and for the store itself while nothing
has changed. -/
structure Backed (ks : Keyspace) : Prop where
  replaying : ks.db.replaying = false
  terminated : Words.Terminated NEWLINE ks.text
  shaped : ∀ k v, ks.db.store.lookup k = some v → KeyShape k ∧ TokenShape v
  clean : ks.db.dirty = 0 → ks.logged = ks.db.store
  covered : (∃ k ∈ ks.db.store, ¬Plain k) ∨ ∀ k ∈ ks.logged, k ∈ ks.db.store

/-- No deletion among the records takes a key from the store that the log holds. -/
def KeepsLogged (ks : Keyspace) (rs : List Record) : Prop :=
  ∀ k, Update.del k ∈ rs → k ∈ ks.logged → k ∉ ks.db.store

/-- What an event must not do: delete, without logging it, a key that the log
holds, or compact without writing the temporary file out. A shutdown that does not
compact opens no such file. -/
def Guarded (ks : Keyspace) : Event → Prop
  | .command c => ks.db.logger.logfile = none → KeepsLogged ks (commandRecords (tokens c))
  | .call c => KeepsLogged ks c.records
  | .shutdown env =>
    ¬Log.Skips ks.db.store (ks.db.dirty % SIZE_MOD) → env.temp = .complete
  | _ => True

/-- Every step of the run is guarded. -/
def GuardedRun : Keyspace → List Event → Prop
  | _, [] => True
  | ks, e :: es => Guarded ks e ∧ GuardedRun (ks.step e).1 es

end Keyspace

/-- The commands and calls over plain words, rounds of the flusher, and
shutdowns. -/
def Event.IsPlain : Event → Prop
  | command c => ∀ r ∈ commandRecords (tokens c), PlainRecord r
  | call c => ∀ r ∈ c.records, PlainRecord r
  | clearData => False
  | _ => True

namespace Keyspace

variable {name a : Bytes} {ks ks' : Keyspace} {rs : List Record}

theorem shaped_replay {s : Store} (h : ∀ k v, s.lookup k = some v → KeyShape k ∧ TokenShape v)
    (hrs : ∀ r ∈ rs, PlainRecord r) :
    ∀ k v, (replay s rs).lookup k = some v → KeyShape k ∧ TokenShape v := by
  intro k v hkv
  rcases mem_or_put_of_mem_replay hkv with hkv | hput
  · exact h k v hkv
  · exact (hrs _ hput).shape

/-- A key that is not a plain word stays. -/
theorem mem_replay_of_not_plain {s : Store} {k : Bytes} (hk : k ∈ s) (hplain : ¬Plain k)
    (hrs : ∀ r ∈ rs, PlainRecord r) : k ∈ replay s rs :=
  mem_replay hk fun hdel => hplain (hrs _ hdel)

/-- Records that reach the store and the log. -/
theorem Backed.logged_records (h : Backed ks) (hrs : ∀ r ∈ rs, PlainRecord r)
    (hreplaying : ks'.db.replaying = false) (htext : ks'.text = ks.text ++ logLines rs)
    (hstore : ks'.db.store = replay ks.db.store rs)
    (hdirty : ks'.db.dirty = ks.db.dirty + changes ks.db.store rs) : Backed ks' := by
  have hlogged : ks'.logged = replay ks.logged rs := by
    rw [logged, htext, runRecords_getlines_append h.terminated hrs, replay_append]
    rfl
  exact {
    replaying := hreplaying
    terminated := by rw [htext]; exact h.terminated.append (terminated_logLines rs)
    shaped := by rw [hstore]; exact shaped_replay h.shaped hrs
    clean := by
      intro hzero
      rw [hlogged, hstore, h.clean (by omega)]
    covered := by
      rw [hlogged, hstore]
      -- no plain record deletes a key that is not plain
      rcases h.covered with ⟨k, hk, hplain⟩ | hsub
      · exact Or.inl ⟨k, mem_replay_of_not_plain hk hplain hrs, hplain⟩
      · exact Or.inr (mem_replay_mono hsub rs) }

/-- Records that reach the store alone. -/
theorem Backed.unlogged_records (h : Backed ks) (hrs : ∀ r ∈ rs, PlainRecord r)
    (hkeeps : KeepsLogged ks rs) (hreplaying : ks'.db.replaying = false)
    (htext : ks'.text = ks.text) (hstore : ks'.db.store = replay ks.db.store rs)
    (hdirty : ks'.db.dirty = ks.db.dirty + changes ks.db.store rs) : Backed ks' := by
  have hlogged : ks'.logged = ks.logged := by rw [logged, htext]; rfl
  exact {
    replaying := hreplaying
    terminated := htext ▸ h.terminated
    shaped := by rw [hstore]; exact shaped_replay h.shaped hrs
    clean := by
      intro hzero
      -- a counter that has not moved has seen no change
      rw [hlogged, hstore, replay_eq_self_of_changes_eq_zero (by omega), h.clean (by omega)]
    covered := by
      rw [hlogged, hstore]
      rcases h.covered with ⟨k, hk, hplain⟩ | hsub
      · exact Or.inl ⟨k, mem_replay_of_not_plain hk hplain hrs, hplain⟩
      · exact Or.inr fun k hk => mem_replay (hsub k hk) fun hdel => hkeeps k hdel hk (hsub k hk) }

/-- A shutdown closes the log and may compact it. -/
theorem Backed.shutdown (ha : Attached name a ks) (hpaths : Holds ks.fs name a) (h : Backed ks)
    {env : Env} (henv : ¬Log.Skips ks.db.store (ks.db.dirty % SIZE_MOD) → env.temp = .complete) :
    Backed (ks.step (.shutdown env)).1 := by
  have hdb := step_shutdown_db ha.sound env
  have htext : (ks.step (.shutdown env)).1.text = (ks.step (.shutdown env)).1.content := by
    rw [text, hdb]
    exact List.append_nil _
  have hstore : (ks.step (.shutdown env)).1.db.store = ks.db.store := by rw [hdb]
  have hdirty : (ks.step (.shutdown env)).1.db.dirty = ks.db.dirty := by rw [hdb]
  have hreplaying : (ks.step (.shutdown env)).1.db.replaying = false := by
    rw [hdb]; exact h.replaying
  by_cases hskips : Log.Skips ks.db.store (ks.db.dirty % SIZE_MOD)
  · rw [content_shutdown_of_skips ha hpaths.db env hskips] at htext
    have hlogged : (ks.step (.shutdown env)).1.logged = ks.logged := by rw [logged, htext]; rfl
    exact {
      replaying := hreplaying
      terminated := htext ▸ h.terminated
      shaped := hstore ▸ h.shaped
      clean := fun hzero => by rw [hlogged, hstore]; exact h.clean (hdirty ▸ hzero)
      covered := by rw [hlogged, hstore]; exact h.covered }
  · rw [content_shutdown_of_compacts ha hpaths (henv hskips) hskips, compacted_eq] at htext
    have hheld : ∀ {k v}, Update.put k v ∈ puts (env.iteration.entries ks.db.store) →
        ks.db.store.lookup k = some v := by
      intro k v hput
      obtain ⟨e, he, heq⟩ := mem_puts.mp hput
      obtain ⟨rfl, rfl⟩ := Update.put.inj heq
      exact (env.iteration.mem_entries_iff _).mp he
    have hlogged : (ks.step (.shutdown env)).1.logged =
        replay ∅ ((puts (env.iteration.entries ks.db.store)).flatMap rereadRecord) := by
      rw [logged, htext, runRecords_getlines_logLines]
      intro r hr
      obtain ⟨e, -, rfl⟩ := mem_puts.mp hr
      exact h.shaped _ _ (hheld hr)
    exact {
      replaying := hreplaying
      terminated := by rw [htext]; exact terminated_logLines _
      shaped := hstore ▸ h.shaped
      clean := by
        intro hzero
        rw [hdirty] at hzero
        exact absurd (Or.inl (by rw [hzero]; rfl)) hskips
      covered := by
        rw [hlogged, hstore]
        by_cases hplain : ∃ k ∈ ks.db.store, ¬Plain k
        · exact Or.inl hplain
        · refine Or.inr fun k hk => ?_
          -- a plain key is read back as itself
          obtain ⟨v, hv⟩ := Option.isSome_iff_exists.mp (Finmap.lookup_isSome.mpr hk)
          rcases mem_or_put_of_mem_replay hv with hnone | hput
          · exact absurd hnone (by simp)
          obtain ⟨r, hr, hline⟩ := List.mem_flatMap.mp hput
          obtain ⟨⟨k', v'⟩, -, rfl⟩ := mem_puts.mp hr
          obtain ⟨-, -, rfl, -⟩ := mem_rereadRecord_put hline
          have hk' : k' ∈ ks.db.store := Finmap.lookup_isSome.mp (by rw [hheld hr]; rfl)
          have hp' : Plain k' := by
            by_contra hp
            exact hplain ⟨k', hk', hp⟩
          rw [hp'.reread_eq]
          exact hk' }

theorem backed_step (ha : Attached name a ks) (hpaths : Holds ks.fs name a) (h : Backed ks)
    {ev : Event} (hplain : ev.IsPlain) (hguard : Guarded ks ev) : Backed (ks.step ev).1 := by
  cases ev with
  | command c =>
      have htext := text_command (ha.appends none) c
      have hdirty := step_dirty h.replaying (ha.appends none) (.command c)
      have hstore : (ks.step (.command c)).1.db.store =
          replay ks.db.store (commandRecords (tokens c)) := by
        rw [step_command (ha.appends none)]
        rfl
      have hreplaying := (step_replaying ks (.command c)).trans h.replaying
      rw [h.replaying, loggedRecords_false] at htext
      -- after a quit the store goes on without the log
      cases hopen : ks.db.logger.logfile with
      | some i =>
          rw [hopen, Option.isSome_some, if_pos rfl] at htext
          exact h.logged_records hplain hreplaying htext hstore hdirty
      | none =>
          rw [hopen, if_neg (by simp), List.append_nil] at htext
          exact h.unlogged_records hplain (hguard hopen) hreplaying htext hstore hdirty
  | call c =>
      refine h.unlogged_records hplain hguard ((step_replaying ks (.call c)).trans h.replaying)
        (text_call ks c) ?_ (step_dirty h.replaying (ha.appends none) (.call c))
      rw [step_call]
      rfl
  | clearData => exact absurd hplain id
  | swap =>
      have hlogged : (ks.step .swap).1.logged = ks.logged := by rw [logged, text_swap]; rfl
      exact {
        replaying := h.replaying
        terminated := text_swap ks ▸ h.terminated
        shaped := h.shaped
        clean := fun hzero => hlogged.trans (h.clean hzero)
        covered := hlogged ▸ h.covered }
  | write =>
      have hlogged : (ks.step .write).1.logged = ks.logged := by rw [logged, text_write ha]; rfl
      exact {
        replaying := h.replaying
        terminated := text_write ha ▸ h.terminated
        shaped := h.shaped
        clean := fun hzero => hlogged.trans (h.clean hzero)
        covered := hlogged ▸ h.covered }
  | shutdown env => exact h.shutdown ha hpaths hguard

theorem backed_run (ha : Attached name a ks) (hpaths : Holds ks.fs name a) (h : Backed ks)
    {es : List Event} (hplain : ∀ e ∈ es, e.IsPlain) (hguard : GuardedRun ks es) :
    Backed (ks.run es) := by
  induction es generalizing ks with
  | nil => exact h
  | cons e es ih =>
      obtain ⟨he, hes⟩ := hguard
      exact ih (attached_step ha e) (hpaths.congr (step_resolve _ e))
        (backed_step ha hpaths h (hplain e List.mem_cons_self) he)
        (fun e' he' => hplain e' (List.mem_cons_of_mem e he')) hes

/-! ### Skipping -/

/-- What a keyspace has to be constructed from: a file that ends with a line
end and holds no batch command, and a flag that is down if there is no line to
lower it. -/
structure CleanStart (env : Env) (content : Bytes) : Prop where
  terminated : Words.Terminated NEWLINE content
  noBatch : ∀ line ∈ getlines content, isBatch (tokens line) = true → ¬IsMutation (tokens line)
  replaying : getlines content = [] → env.replaying = false

theorem CleanStart.replayedRecords_eq_nil {env : Env} {content : Bytes}
    (h : CleanStart env content) : DB.replayedRecords (getlines content) = [] :=
  DB.replayedRecords_eq_nil_iff.mpr h.noBatch

theorem backed_new {fs fs' : Files} {env : Env} {db : DB}
    (hstart : CleanStart env ((fs.read (aofPath name)).getD []))
    (hnew : DB.new env fs name = (fs', .ok db)) : Backed ⟨fs', db⟩ := by
  obtain ⟨a, i, -, -, hdb, -, hread⟩ := new_inv hnew
  subst hdb
  have htext : text ⟨fs', DB.loaded env name i ((fs.read (aofPath name)).getD [])⟩ =
      (fs.read (aofPath name)).getD [] := by
    show (fs'.read (aofPath name)).getD [] ++ Log.pending (Log.appendAll _ _) = _
    rw [hread, hstart.replayedRecords_eq_nil, Log.appendAll_nil]
    exact List.append_nil _
  have hlogged : logged ⟨fs', DB.loaded env name i ((fs.read (aofPath name)).getD [])⟩ =
      replay ∅ (runRecords (getlines ((fs.read (aofPath name)).getD []))) := by
    rw [logged, htext]
  exact {
    replaying := by
      show (if getlines _ = [] then env.replaying else false) = false
      split
      · next hnil => exact hstart.replaying hnil
      · rfl
    terminated := by rw [htext]; exact hstart.terminated
    shaped := by
      intro k v hkv
      rcases mem_or_put_of_mem_replay (show (replay ∅ (runRecords (getlines _))).lookup k = some v
        from hkv) with hnone | hput
      · exact absurd hnone (by simp)
      · exact recordShape_of_mem_runRecords _ hput
    clean := fun _ => hlogged
    covered := by
      refine Or.inr fun k hk => ?_
      rw [hlogged] at hk
      exact hk }

/-- **Skipping the compaction is sound** in every guarded run of a keyspace
that started clean: when a shutdown skips it, though the counter of changes has
not come round to zero, the log left behind stands for the store. -/
theorem skipping_sound {fs fs' : Files} {db : DB} {env : Env} {es : List Event}
    (hpaths : Holds fs name a) (hstart : CleanStart env ((fs.read (aofPath name)).getD []))
    (hnew : DB.new env fs name = (fs', .ok db)) (hplain : ∀ e ∈ es, e.IsPlain)
    (hguard : GuardedRun ⟨fs', db⟩ es)
    (hskips : Log.Skips (run ⟨fs', db⟩ es).db.store ((run ⟨fs', db⟩ es).db.dirty % SIZE_MOD))
    (hwrap : (run ⟨fs', db⟩ es).db.dirty % SIZE_MOD = 0 → (run ⟨fs', db⟩ es).db.dirty = 0)
    (env₁ env₂ : Env) :
    Reopens env₁ env₂ (run ⟨fs', db⟩ es) (run ⟨fs', db⟩ es).db.store := by
  obtain ⟨a', i, hp, hfs, -, ha, -⟩ := new_inv hnew
  obtain rfl : a = a' := Option.some.inj (hpaths.aof.symm.trans hp)
  have hpaths' : Holds fs' name a := hpaths.congr (by rw [hfs, FS.openAppend_resolve])
  have hbacked := backed_run ha hpaths' (backed_new hstart hnew) hplain hguard
  rw [reopens_iff (attached_run ha es),
    content_shutdown_of_skips (attached_run ha es) (hpaths'.congr (run_resolve _ es)).db env₁
      hskips]
  show logged _ = _
  -- the counter says that log and store agree; an empty store, that no key is left in the log
  rcases hskips with hzero | hempty
  · exact hbacked.clean (hwrap (Nat.le_zero.mp hzero))
  · rcases hbacked.covered with ⟨k, hk, -⟩ | hsub
    · rw [hempty] at hk
      exact absurd hk Finmap.notMem_empty
    · rw [hempty] at hsub ⊢
      refine Finmap.ext_lookup fun k => ?_
      rw [Finmap.lookup_empty, Finmap.lookup_eq_none]
      exact fun hk => Finmap.notMem_empty (hsub k hk)

/-- A deletion that is logged leaves nothing to compact. -/
theorem skipping_sound_deleted :
    Reopens Env.calm Env.calm
      ((fresh (ascii "a")).run [.command (ascii "put k v"), .command (ascii "del k")])
      ((fresh (ascii "a")).run
        [.command (ascii "put k v"), .command (ascii "del k")]).db.store := by
  refine skipping_sound (holds_blankFiles (ascii "a")) ?_ (new_blankFiles (ascii "a"))
    ?_ ?_ (Or.inr ?_) ?_ Env.calm Env.calm
  · exact ⟨Or.inl rfl, fun line hline => absurd hline List.not_mem_nil, fun _ => rfl⟩
  · intro e he
    rcases List.mem_cons.mp he with rfl | he
    · show ∀ r ∈ commandRecords (tokens (ascii "put k v")), PlainRecord r
      decide
    · obtain rfl := List.mem_singleton.mp he
      show ∀ r ∈ commandRecords (tokens (ascii "del k")), PlainRecord r
      decide
  · exact ⟨fun h => absurd h (by simp [fresh, DB.loaded, Log.opened]),
      fun h => absurd h (by decide), trivial⟩
  · decide
  · decide

/-- A deletion through the API is not logged: emptied by one, the keyspace is
not compacted, and comes back. -/
theorem not_skipping_sound :
    Log.Skips ((fresh (ascii "a")).run
        [.command (ascii "put k v"), .call (.del (ascii "k"))]).db.store
      (((fresh (ascii "a")).run
        [.command (ascii "put k v"), .call (.del (ascii "k"))]).db.dirty % SIZE_MOD) ∧
    ¬Reopens Env.calm Env.calm
      ((fresh (ascii "a")).run [.command (ascii "put k v"), .call (.del (ascii "k"))])
      ((fresh (ascii "a")).run
        [.command (ascii "put k v"), .call (.del (ascii "k"))]).db.store := by
  have hempty : ((fresh (ascii "a")).run
      [.command (ascii "put k v"), .call (.del (ascii "k"))]).db.store = ∅ := by decide
  have ha := attached_run (attached_fresh (ascii "a"))
    [.command (ascii "put k v"), .call (.del (ascii "k"))]
  have hpaths := (holds_fresh (ascii "a")).congr (run_resolve (fresh (ascii "a"))
    [.command (ascii "put k v"), .call (.del (ascii "k"))])
  refine ⟨Or.inr hempty, ?_⟩
  have hrecords : runRecords (getlines ((fresh (ascii "a")).run
      [.command (ascii "put k v"), .call (.del (ascii "k"))]).text) =
        [.put (ascii "k") (ascii "v")] := by decide
  rw [reopens_iff ha, content_shutdown_of_skips ha hpaths.db Env.calm (Or.inr hempty), hrecords,
    hempty]
  intro h
  have hheld := congrArg (·.lookup (ascii "k")) h
  exact absurd hheld (by decide)

end Keyspace

end Taproot
