import Taproot.Durability
import Mathlib.Data.List.Flatten

/-!
# Taproot.Shrinking

A compaction never makes the **log longer**.

Every pair of the store was put by some record of the history, and a compaction
writes each pair once. So the records that it writes are among those that it
drops, each at a place of its own (`Journal.puts_entries_subperm`), and whatever
is added up over the records of a log cannot grow: its bytes, its lines.
-/

namespace Taproot

open Posix Journal

/-! ### Part of a log -/

theorem length_logLines_le {rs rs' : List Record} (h : rs.Subperm rs') :
    (logLines rs).length ≤ (logLines rs').length := by
  obtain ⟨rs₁, hperm, hsub⟩ := h
  calc (logLines rs).length
      = (logLines rs₁).length := (hperm.flatMap_right Record.line).length_eq.symm
    _ ≤ (logLines rs').length := (hsub.flatMap Record.line).length_le

theorem length_getlines_logLines_le {rs rs' : List Record} (h : rs.Subperm rs')
    (hshape : ∀ r ∈ rs', RecordShape r) :
    (getlines (logLines rs)).length ≤ (getlines (logLines rs')).length := by
  rw [getlines_logLines hshape, getlines_logLines fun r hr => hshape r (h.subset hr),
    List.length_map, List.length_map]
  exact h.length_le

namespace Keyspace

variable {name a : Bytes} {ks : Keyspace}

/-- What a compaction writes is part of the history. -/
theorem Journaled.compacted_subperm (h : Journaled [] ∅ ks) (env : Env) :
    (puts (env.iteration.entries ks.db.store)).Subperm ks.db.logger.appended := by
  rw [h.store_eq]
  exact puts_entries_subperm env.iteration ks.db.logger.appended

/-! ### The file -/

/-- Closing the log of a keyspace leaves its text in the file. -/
theorem Attached.read_closeLog (ha : Attached name a ks) :
    (ks.db.logger.closeLog ks.fs).1.read (aofPath name) = some ks.text := by
  obtain ⟨i, hi⟩ := ha.view_write_pending
  have haof : (ks.db.logger.write ks.fs ks.db.logger.pending).resolve (aofPath name) = some a := by
    rw [Log.write_resolve]
    exact ha.aof
  rw [Log.closeLog_eq ha.sound, FS.read_eq haof, hi]
  rfl

/-- A compaction that is carried out replaces it. -/
theorem Attached.read_compactLog (ha : Attached name a ks) {env : Env}
    (htemp : env.temp = .complete) (ht : (ks.fs.resolve (tempPath name)).isSome)
    (hskips : ¬Log.Skips ks.db.store (ks.db.dirty % SIZE_MOD)) :
    ((ks.db.logger.closeLog ks.fs).2.compactLog env (ks.db.logger.closeLog ks.fs).1 ks.db.store
      (ks.db.dirty % SIZE_MOD)).1.read (aofPath name) =
        some (Log.compacted env ks.db.store) := by
  obtain ⟨t, ht⟩ := Option.isSome_iff_exists.mp ht
  obtain ⟨⟨i, hi⟩, -⟩ := compactedFiles_of_compacts ha ht htemp hskips
  have haof : (ks.db.compactedFiles env ks.fs).resolve (aofPath name) = some a := by
    rw [DB.compactedFiles, Log.compactLog_resolve, Log.write_resolve]
    exact ha.aof
  rw [Log.closeLog_eq ha.sound]
  show (ks.db.compactedFiles env ks.fs).read (aofPath name) = _
  rw [FS.read_eq haof, hi]
  rfl

/-- **Compaction preserves the meaning of a log and does not make it longer.** In
every run of commands and rounds of the flusher on a file that starts empty, and
in whatever order the map is walked: the records that a compaction writes are
puts, one for each key; replayed, they give the store; and the file that they
make has no more lines and no more bytes than the flushed log it replaces. -/
theorem run_shrinks {fs fs' : Files} {db : DB} {env : Env} {es : List Event}
    (hempty : (fs.read (aofPath name)).getD [] = []) (hreplaying : env.replaying = false)
    (hnew : DB.new env fs name = (fs', .ok db)) (hes : ∀ e ∈ es, e.isTraffic = true)
    (hstore : (run ⟨fs', db⟩ es).db.store ≠ ∅) (hdirty : (run ⟨fs', db⟩ es).db.dirty < SIZE_MOD)
    (env₁ : Env) :
    let ks := run ⟨fs', db⟩ es
    let flushed := (ks.db.logger.closeLog ks.fs).1
    let rs := puts (env₁.iteration.entries ks.db.store)
    ∃ log, flushed.read (aofPath name) = some log ∧
      Log.compacted env₁ ks.db.store = logLines rs ∧
      (env₁.temp = .complete → (fs.resolve (tempPath name)).isSome →
        ((ks.db.logger.closeLog ks.fs).2.compactLog env₁ flushed ks.db.store
          (ks.db.dirty % SIZE_MOD)).1.read (aofPath name) = some (logLines rs)) ∧
      replay ∅ rs = ks.db.store ∧
      (∀ k, (rs.map Update.key).count k = if k ∈ ks.db.store then 1 else 0) ∧
      (getlines (logLines rs)).length ≤ (getlines log).length ∧
      (logLines rs).length ≤ log.length := by
  intro ks flushed rs
  obtain ⟨a, i, -, hfs, hdb, ha, hread⟩ := new_inv hnew
  rw [hempty] at hdb hread
  have hks : Attached name a ks := attached_run ha es
  have hj : Journaled [] ∅ ks := journaled_run ha (journaled_new hreplaying hdb hread) hes
  have hresolve : ks.fs.resolve = fs.resolve := by
    rw [run_resolve, hfs, FS.openAppend_resolve]
  have htext : ks.text = logLines ks.db.logger.appended := hj.text_eq
  have hsub : rs.Subperm ks.db.logger.appended := hj.compacted_subperm env₁
  -- something is stored, so something was counted
  have hskips : ¬Log.Skips ks.db.store (ks.db.dirty % SIZE_MOD) := by
    intro hskips
    rcases hskips with hzero | hnone
    · have hzero' : changes ∅ ks.db.logger.appended = 0 := by
        rw [← hj.dirty_eq]
        exact (Nat.mod_eq_of_lt hdirty).symm.trans (Nat.le_zero.mp hzero)
      exact hstore (hj.store_eq.trans (replay_eq_self_of_changes_eq_zero hzero'))
    · exact hstore hnone
  -- a compaction has a record for each key, and each of them is in the history
  refine ⟨ks.text, hks.read_closeLog, compacted_eq env₁ ks.db.store, ?_,
    replay_puts_entries env₁.iteration ks.db.store,
    fun k => count_puts_entries env₁.iteration ks.db.store k, ?_, ?_⟩
  · intro htemp ht
    rw [hks.read_compactLog htemp (hresolve ▸ ht) hskips, compacted_eq]
  · rw [htext]
    exact length_getlines_logLines_le hsub hj.shaped
  · rw [htext]
    exact length_logLines_le hsub

/-- A key that is put twice and a key that is deleted and put again. -/
theorem run_shrinks_again :
    let ks := (fresh (ascii "a")).run
      [.command (ascii "put k 1"), .swap, .command (ascii "mput k 2 l 3"), .write,
        .command (ascii "del l"), .command (ascii "put l 4")]
    ∃ log, (ks.db.logger.closeLog ks.fs).1.read (aofPath (ascii "a")) = some log ∧
      (logLines (puts (Env.calm.iteration.entries ks.db.store))).length ≤ log.length := by
  intro ks
  have hes : ∀ e ∈ [Event.command (ascii "put k 1"), .swap, .command (ascii "mput k 2 l 3"),
      .write, .command (ascii "del l"), .command (ascii "put l 4")], e.isTraffic = true := by decide
  have hstore : ks.db.store ≠ ∅ := by
    intro h
    exact absurd (congrArg (·.lookup (ascii "k")) h) (by decide)
  obtain ⟨log, hlog, -, -, -, -, -, hbytes⟩ :=
    run_shrinks rfl rfl (new_blankFiles (ascii "a")) hes hstore (by decide) Env.calm
  exact ⟨log, hlog, hbytes⟩

end Keyspace

end Taproot
