import Taproot.Keyspace

/-!
# Taproot.Clearing

What survives **`clearData`**: it empties the map and both files, but not the
buffer of the log nor what the flusher has taken from it. Those lines are
written later, to the emptied file, and an empty store is not compacted, so a
keyspace that is cleared comes back with what they stand for.
-/

namespace Taproot

open Posix Journal

namespace Keyspace

variable {name a : Bytes} {ks : Keyspace}

/-- A keyspace that is cleared comes back empty exactly if the lines that were
pending leave nothing. -/
theorem Attached.cleared_reopens_iff (ha : Attached name a ks) (hpaths : Holds ks.fs name a)
    {es : List Event} (hes : ∀ e ∈ es, e.isFlush = true) (env env' : Env) :
    Reopens env env' ((ks.step .clearData).1.run es) ∅ ↔
      Settled (runRecords (getlines ks.db.logger.pending)) := by
  have hcleared := attached_step ha .clearData
  have htext : (ks.step .clearData).1.text = ks.db.logger.pending := by
    rw [text, content_clearData ha hpaths]
    rfl
  obtain ⟨htext', hstore', -⟩ := flush_run hcleared hes
  have hfinal := attached_run hcleared es
  have hresolve : ((ks.step .clearData).1.run es).fs.resolve = ks.fs.resolve :=
    (run_resolve _ es).trans (step_resolve _ .clearData)
  -- the store is empty, so nothing is compacted
  rw [reopens_iff hfinal, content_shutdown_of_skips hfinal (hpaths.congr hresolve).db env
    (Or.inr hstore'), htext'.trans htext, replay_eq_empty_iff]

/-- **Clearing** a keyspace at any point of its life, with no command
afterwards, is durable exactly if, among the lines that have not reached the
file by then, every put is followed by a deletion of its key. -/
theorem clearData_durable_iff {fs fs' : Files} {db : DB} {env : Env} {es es' : List Event}
    (hpaths : Holds fs name a) (hnew : DB.new env fs name = (fs', .ok db))
    (hes' : ∀ e ∈ es', e.isFlush = true) (env₁ env₂ : Env) :
    Reopens env₁ env₂ (((run ⟨fs', db⟩ es).step .clearData).1.run es') ∅ ↔
      Settled (runRecords (getlines (run ⟨fs', db⟩ es).db.logger.pending)) := by
  obtain ⟨a', i, hp, hfs, -, ha, -⟩ := new_inv hnew
  obtain rfl : a = a' := Option.some.inj (hpaths.aof.symm.trans hp)
  have hresolve : (run ⟨fs', db⟩ es).fs.resolve = fs.resolve := by
    rw [run_resolve, hfs, FS.openAppend_resolve]
  exact (attached_run ha es).cleared_reopens_iff (hpaths.congr hresolve) hes' env₁ env₂

/-- What was flushed before is gone for good. -/
theorem clearData_durable_flushed :
    Reopens Env.calm Env.calm
      ((((fresh (ascii "a")).run [.command (ascii "put k v"), .swap, .write]).step
        .clearData).1.run [.swap, .write]) ∅ := by
  refine (clearData_durable_iff (holds_blankFiles (ascii "a")) (new_blankFiles (ascii "a"))
    (by decide) Env.calm Env.calm).mpr ?_
  have hpending : ((fresh (ascii "a")).run
      [.command (ascii "put k v"), .swap, .write]).db.logger.pending = [] := rfl
  rw [show run ⟨(fresh (ascii "a")).fs, (fresh (ascii "a")).db⟩ _ = _ from rfl, hpending]
  exact fun xs k v ys h => absurd h (by simp [getlines, runRecords])

/-- A line that waits in the buffer comes back. -/
theorem not_clearData_durable :
    ¬Reopens Env.calm Env.calm
      ((((fresh (ascii "a")).run [.command (ascii "put k v")]).step .clearData).1.run []) ∅ := by
  have ha := attached_run (attached_fresh (ascii "a")) [.command (ascii "put k v")]
  have hpaths := (holds_fresh (ascii "a")).congr
    (run_resolve (fresh (ascii "a")) [.command (ascii "put k v")])
  have hpending : runRecords (getlines ((fresh (ascii "a")).run
      [.command (ascii "put k v")]).db.logger.pending) = [.put (ascii "k") (ascii "v")] := by decide
  rw [ha.cleared_reopens_iff hpaths (by decide), hpending]
  exact fun h => absurd (h [] (ascii "k") (ascii "v") [] rfl) List.not_mem_nil

end Keyspace

end Taproot
