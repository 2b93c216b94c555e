import Taproot.Keyspace

/-!
# Taproot.Dying

The **moments of a shutdown** at which the process can be killed, and what it
leaves in the files at each of them. A kill while the log is closed leaves a part
of what was pending unwritten; the temporary file of a compaction and the
snapshot may be cut off anywhere, but neither is the log. So the path of the log
holds a first part of the text, the whole text, or the compacted text, and
nothing in between (`content_killed`).
-/

namespace Taproot

open Posix Journal

/-- How far a shutdown has got. -/
inductive Stage
  /-- `closeLog` has written the first bytes of what was pending. -/
  | closing (bytes : Nat)
  /-- `compactLog` has written the first bytes of the temporary file. -/
  | compacting (bytes : Nat)
  /-- `compactLog` has returned. -/
  | compacted
  /-- `writeBinarySnapshot` has written the first bytes of the snapshot. -/
  | saving (bytes : Nat)
  deriving DecidableEq, Repr

namespace DB

/-- The files of a `DB::shutdown` that is killed at a stage. -/
def killed (env : Env) (fs : Files) (db : DB) : Stage → Files
  | .closing bytes => db.logger.write fs (db.logger.pending.take bytes)
  | .compacting bytes =>
    let fs := db.logger.write fs db.logger.pending
    if Log.Skips db.store (db.dirty % SIZE_MOD) then fs
    else
      match db.logger.keyspaceName.read env.staleName with
      | .ok keyspaceName =>
        Log.writeTemp { env with temp := ⟨true, some bytes⟩ } fs (tempPath keyspaceName)
          (Log.compacted env db.store)
      | .error _ => fs
  | .compacted => db.compactedFiles env fs
  | .saving bytes =>
    match (db.compactedFiles env fs).openTrunc db.logger.dbFilepath with
    | (fs, some writer) =>
      fs.append writer (((Log.snapshotText env db.store).toOption.getD []).take bytes)
    | (fs, none) => fs

variable {fs : Files} {db : DB}

/-- Once all that was pending is written, the log is closed. -/
theorem killed_closing {bytes : Nat} (h : db.logger.Sound)
    (hbytes : db.logger.pending.length ≤ bytes) (env : Env) :
    db.killed env fs (.closing bytes) = (db.logger.closeLog fs).1 := by
  rw [killed, List.take_of_length_le hbytes, Log.closeLog_eq h]

/-- Once all of the snapshot is written, the shutdown is over. -/
theorem killed_saving {bytes : Nat} (h : db.logger.Sound) {env : Env}
    (hcompact : (db.logger.closed.compactLog env (db.logger.write fs db.logger.pending) db.store
      (db.dirty % SIZE_MOD)).2 = .ok ())
    (hbytes : ((Log.snapshotText env db.store).toOption.getD []).length ≤ bytes) :
    db.killed env fs (.saving bytes) = (db.shutdown env fs).1 := by
  rw [shutdown_of_compacts h hcompact, killed, List.take_of_length_le hbytes]
  rw [Log.writeBinarySnapshot_eq, show db.logger.closed.dbFilepath = db.logger.dbFilepath from rfl]
  generalize (db.compactedFiles env fs).openTrunc db.logger.dbFilepath = opened
  obtain ⟨fs', writer⟩ := opened
  cases writer with
  | none => rfl
  | some writer =>
      cases Log.snapshotText env db.store with
      | error e => exact FS.append_nil _ _
      | ok text => rfl

theorem killed_resolve (env : Env) (fs : Files) (db : DB) (stage : Stage) :
    (db.killed env fs stage).resolve = fs.resolve := by
  have hcompacted : (db.compactedFiles env fs).resolve = fs.resolve := by
    rw [compactedFiles, Log.compactLog_resolve, Log.write_resolve]
  cases stage with
  | closing bytes => exact Log.write_resolve _ _ _
  | compacting bytes =>
      rw [killed]
      split
      · exact Log.write_resolve _ _ _
      split
      · rw [Log.writeTemp_resolve, Log.write_resolve]
      · exact Log.write_resolve _ _ _
  | compacted => exact hcompacted
  | saving bytes =>
      have hopen := FS.openTrunc_resolve (db.compactedFiles env fs) db.logger.dbFilepath
      rw [killed]
      split
      · next heq => rw [heq] at hopen; exact hopen.trans hcompacted
      · next heq => rw [heq] at hopen; exact hopen.trans hcompacted

/-- The snapshot is written elsewhere, however much of it. -/
theorem view_killed_saving {e : Bytes} (env : Env) (hdb : fs.resolve db.logger.dbFilepath ≠ some e)
    (bytes : Nat) :
    (db.killed env fs (.saving bytes)).view e = (db.compactedFiles env fs).view e := by
  have hne : (db.compactedFiles env fs).resolve db.logger.dbFilepath ≠ some e := by
    rw [show (db.compactedFiles env fs).resolve = fs.resolve from
      killed_resolve env fs db .compacted]
    exact hdb
  have hview := FS.view_openTrunc_of_ne hne
  rw [killed]
  split
  · next fs' writer heq =>
      have hwriter := FS.openTrunc_dir_ne hne (congrArg Prod.snd heq)
      rw [heq] at hwriter hview
      exact (FS.view_append_of_ne hwriter _).trans hview
  · next heq => rw [← hview, heq]

/-- If the shutdown compacts, its temporary file is written out. -/
def WritesOut (env : Env) (db : DB) : Prop :=
  ¬Log.Skips db.store (db.dirty % SIZE_MOD) → env.temp = .complete

end DB

namespace Keyspace

variable {name a : Bytes} {ks : Keyspace}

/-- What the path of the log holds when a shutdown is killed. -/
def killedContent (env : Env) (ks : Keyspace) : Stage → Bytes
  | .closing bytes => ks.content ++ ks.db.logger.pending.take bytes
  | .compacting _ => ks.text
  | _ =>
    if Log.Skips ks.db.store (ks.db.dirty % SIZE_MOD) then ks.text
    else Log.compacted env ks.db.store

/-- Writing some of what is pending, with the stream on the file of the log. -/
theorem Attached.view_write (h : Attached name a ks) {i : Ino}
    (hopen : ks.db.logger.logfile = some i) (bytes : Bytes) :
    (ks.db.logger.write ks.fs bytes).view a = some (i, ks.content ++ bytes) := by
  obtain ⟨j, hj⟩ := h.view_eq
  obtain rfl : j = i := by
    have hdir := (FS.view_eq_some_iff.mp hj).1
    rw [h.stream i hopen] at hdir
    exact (Option.some.inj hdir).symm
  exact Log.view_write_self hopen hj bytes

/-- **What a killed shutdown leaves in the log**: no half of a compaction. -/
theorem content_killed (h : Attached name a ks) (hpaths : Holds ks.fs name a)
    (htemp : ks.fs.resolve (tempPath name) ≠ some a)
    {env : Env} (henv : ks.db.WritesOut env) (stage : Stage) :
    (ks.db.killed env ks.fs stage).read (aofPath name) = some (ks.killedContent env stage) := by
  have hread : ∀ {bytes : Bytes}, (∃ i, (ks.db.killed env ks.fs stage).view a = some (i, bytes)) →
      (ks.db.killed env ks.fs stage).read (aofPath name) = some bytes := by
    rintro bytes ⟨i, hi⟩
    rw [FS.read_eq ((congrFun (DB.killed_resolve env ks.fs ks.db stage) _).trans h.aof), hi]
    rfl
  -- the rename puts the whole compaction in place, or none of it
  have hcompacted : ∃ i, (ks.db.compactedFiles env ks.fs).view a =
      some (i, if Log.Skips ks.db.store (ks.db.dirty % SIZE_MOD) then ks.text
        else Log.compacted env ks.db.store) := by
    split
    · next hskips =>
        rw [DB.compactedFiles, Log.compactLog_of_skips hskips]
        exact h.view_write_pending
    · next hskips =>
        obtain ⟨t, ht⟩ := Option.isSome_iff_exists.mp hpaths.temp
        exact (compactedFiles_of_compacts h ht (henv hskips) hskips).1
  refine hread ?_
  cases stage with
  | closing bytes =>
      rw [DB.killed, killedContent]
      cases hopen : ks.db.logger.logfile with
      | none =>
          obtain ⟨i, hi⟩ := h.view_eq
          rw [Log.write_of_closed hopen, h.sound.pending_eq_nil hopen, List.take_nil,
            List.append_nil]
          exact ⟨i, hi⟩
      | some i => exact ⟨i, h.view_write hopen _⟩
  | compacting bytes =>
      rw [DB.killed, killedContent]
      split
      · exact h.view_write_pending
      -- the half of the compaction is under the temporary path
      · rw [h.keyspaceName_eq, NameRef.read_bound]
        dsimp only
        rw [Log.view_writeTemp_of_ne]
        · exact h.view_write_pending
        · rw [Log.write_resolve]
          exact htemp
  | compacted => exact hcompacted
  | saving bytes =>
      rw [DB.view_killed_saving env (h.dbFilepath_eq ▸ hpaths.db)]
      exact hcompacted

/-- No other entry is touched. -/
theorem view_killed_of_ne {e : Bytes} (h : Attached name a ks) (ha : a ≠ e)
    (hdb : ks.fs.resolve (dbPath name) ≠ some e) (htemp : ks.fs.resolve (tempPath name) ≠ some e)
    (env : Env) (stage : Stage) : (ks.db.killed env ks.fs stage).view e = ks.fs.view e := by
  have haof : ks.fs.resolve (aofPath name) ≠ some e := by
    rw [h.aof]
    exact fun heq => ha (Option.some.inj heq)
  -- the stream is the file of the log, and a file has one entry
  have hstream : ∀ i, ks.db.logger.logfile = some i → ks.fs.dir e ≠ some i :=
    fun i hi hdir => ha (ks.fs.dir_inj (h.stream i hi) hdir)
  have hcompacted : (ks.db.compactedFiles env ks.fs).view e = ks.fs.view e := by
    rw [DB.compactedFiles, Log.view_compactLog_of_ne, Log.view_write_of_ne hstream]
    · intro name' hread
      have hbound : ks.db.logger.keyspaceName.read env.staleName = .ok name' := hread
      rw [h.keyspaceName_eq, NameRef.read_bound] at hbound
      rw [Log.write_resolve, ← Except.ok.inj hbound]
      exact htemp
    · rw [Log.write_resolve]
      exact h.logFilepath_eq ▸ haof
  cases stage with
  | closing bytes => exact Log.view_write_of_ne hstream _
  | compacting bytes =>
      rw [DB.killed, h.keyspaceName_eq, NameRef.read_bound]
      dsimp only
      split
      · exact Log.view_write_of_ne hstream _
      · rw [Log.view_writeTemp_of_ne _ (by rw [Log.write_resolve]; exact htemp),
          Log.view_write_of_ne hstream]
  | compacted => exact hcompacted
  | saving bytes =>
      rw [DB.view_killed_saving env (h.dbFilepath_eq ▸ hdb)]
      exact hcompacted

end Keyspace

end Taproot
