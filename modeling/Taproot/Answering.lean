import Taproot.Compacting
import Taproot.Compressing
import Taproot.Server

/-!
# Taproot.Answering

Which requests are **answered**.

The dispatcher reads the first token before anything has looked whether there is
one, so a blank request is undefined behaviour; the command parser, which has a
guard, is not reached. So is reading a name whose string is gone, as after every
`use`: for the temporary path of a shutdown that compacts, and for the message of
an append to a closed log. Other requests fail only where a shutdown throws: at the
end, as nothing catches it there; and in a switch, where what the first shutdown
throws is caught and answered, but not what the destructor of the old `DB` throws
when it shuts it down once more (`dispatcher_answers_iff`).

When a shutdown throws is read off the state before it (`shutdown_ok_iff`), also
for the second one: what the first has done to the files is known.
-/

namespace Taproot

open Posix Journal

namespace DB

variable {env env' : Env} {fs : Files} {db : DB}

/-! ### When a shutdown throws -/

/-- The snapshot can be opened, and is long enough to be compressed, but cannot be. -/
def SnapshotThrows (env : Env) (fs : Files) (db : DB) : Prop :=
  (fs.resolve db.logger.dbFilepath).isSome = true ∧
    Log.COMPRESSION_THRESHOLD < (Log.serialize env db.store).length ∧
    ¬Log.Compresses env.lz4 (Log.serialize env db.store)

/-- The compaction cannot rename its file, or the snapshot throws. -/
def ShutdownThrows (env : Env) (fs : Files) (db : DB) : Prop :=
  Log.RenameFails env fs db.logger db.store (db.dirty % SIZE_MOD) ∨ SnapshotThrows env fs db

theorem ok_iff_not_error (res : Except Fault Unit) : res = .ok () ↔ ¬∃ e, res = .error e := by
  cases res <;> simp

/-- A shutdown returns exactly if its name is not lost and neither throws. -/
theorem shutdown_ok_iff (env : Env) (fs : Files) (db : DB) :
    (db.shutdown env fs).2.2 = .ok () ↔
      ¬Log.NameLost env.staleName db.logger db.store (db.dirty % SIZE_MOD) ∧
        ¬ShutdownThrows env fs db := by
  rw [shutdown_snd, ShutdownThrows]
  split
  · next hlost => exact iff_of_false (by simp) fun h => h.1 hlost
  next hnamed =>
  rw [and_iff_right hnamed]
  split
  · next hfails => exact iff_of_false (by simp) fun h => h (Or.inl hfails)
  · next hfails =>
      rw [or_iff_right hfails, SnapshotThrows, ok_iff_not_error, Log.writeBinarySnapshot_throws_iff,
        Log.closeLog_dbFilepath, Log.compactLog_resolve, Log.closeLog_resolve]

/-- What it throws, once it has its name, is an exception. -/
theorem shutdown_error {e : Fault}
    (hnamed : ¬Log.NameLost env.staleName db.logger db.store (db.dirty % SIZE_MOD))
    (h : (db.shutdown env fs).2.2 = .error e) : ∃ what, e = .exception what := by
  rw [shutdown_snd, if_neg hnamed] at h
  split at h
  · exact ⟨_, (Except.error.inj h).symm⟩
  · exact ⟨_, Log.writeBinarySnapshot_error h⟩

/-- A shutdown reads a name whose string is gone. -/
def ReadsStale (db : DB) : Prop :=
  db.logger.keyspaceName = .dangling ∧ ¬Log.Skips db.store (db.dirty % SIZE_MOD)

instance (db : DB) : Decidable db.ReadsStale := by
  unfold ReadsStale; infer_instance

/-- Two shutdowns read the same name, if they read one. -/
def ReadsAlike (env env' : Env) (db : DB) : Prop :=
  ¬Log.Skips db.store (db.dirty % SIZE_MOD) →
    ∃ name, db.logger.keyspaceName.read env.staleName = .ok name ∧
      db.logger.keyspaceName.read env'.staleName = .ok name

theorem ReadsAlike.not_nameLost (h : ReadsAlike env env' db) :
    ¬Log.NameLost env.staleName db.logger db.store (db.dirty % SIZE_MOD) := by
  rintro ⟨hskips, hlost⟩
  obtain ⟨name, hname, -⟩ := h hskips
  exact absurd (hname.symm.trans hlost) (by simp)

theorem readsAlike_of_not_readsStale (h : ¬db.ReadsStale) (env env' : Env) :
    ReadsAlike env env' db := by
  intro hskips
  cases hname : db.logger.keyspaceName with
  | bound name => exact ⟨name, rfl, rfl⟩
  | dangling => exact absurd ⟨hname, hskips⟩ h

/-- What a read through a reference that is gone would yield is of no account then. -/
theorem shutdownThrows_congr (h : ¬db.ReadsStale) (env : Env) (staleName : Option Bytes)
    (fs : Files) :
    ShutdownThrows { env with staleName } fs db ↔ ShutdownThrows env fs db := by
  refine or_congr_left (and_congr_right fun hskips => ?_)
  cases hname : db.logger.keyspaceName with
  | bound name => simp [Log.NameLost, Log.leftover, Log.compacted, hname]
  | dangling => exact absurd ⟨hname, hskips⟩ h

/-- A shutdown that returns has compacted the log and written the snapshot. -/
theorem shutdown_of_ok (h : (db.shutdown env fs).2.2 = .ok ()) :
    ((db.logger.closeLog fs).2.compactLog env (db.logger.closeLog fs).1 db.store
        (db.dirty % SIZE_MOD)).2 = .ok () ∧
      (db.shutdown env fs).1 = ((db.logger.closeLog fs).2.writeBinarySnapshot env
        ((db.logger.closeLog fs).2.compactLog env (db.logger.closeLog fs).1 db.store
          (db.dirty % SIZE_MOD)).1 db.store).1 := by
  rw [shutdown] at h ⊢
  dsimp only at h ⊢
  split at h
  · exact absurd h (by simp)
  · next heq => rw [heq]; exact ⟨rfl, rfl⟩

/-- **Where no file is left by a shutdown** that compacts and returns: where there was
none, and behind the temporary path; but not behind the paths of the log and the
snapshot. -/
theorem shutdown_dir_eq_none_iff {name : Bytes} (h : (db.shutdown env fs).2.2 = .ok ())
    (hskips : ¬Log.Skips db.store (db.dirty % SIZE_MOD))
    (hread : db.logger.keyspaceName.read env.staleName = .ok name) (x : Bytes) :
    (db.shutdown env fs).1.dir x = none ↔
      (fs.resolve (tempPath name) = some x ∨ fs.dir x = none) ∧
      fs.resolve db.logger.logFilepath ≠ some x ∧ fs.resolve db.logger.dbFilepath ≠ some x := by
  obtain ⟨hcompact, hfs⟩ := shutdown_of_ok h
  have hclosed : (db.logger.closeLog fs).2.keyspaceName.read env.staleName = .ok name := by
    rw [Log.closeLog_keyspaceName, hread]
  rw [hfs, Log.writeBinarySnapshot_dir_eq_none_iff,
    Log.compactLog_dir_eq_none_iff hcompact hskips hclosed, Log.compactLog_resolve,
    Log.closeLog_resolve, Log.closeLog_dir, Log.closeLog_dbFilepath, Log.closeLog_logFilepath]
  tauto

end DB

namespace Server

variable {env env' : Env} {s : Server} {input name : Bytes}

/-- The destructor finds no file to rename: it cannot open one of its own, and what was
there the first shutdown has renamed, to a path that is not the same entry; nor does the
snapshot or the new log lie there. -/
def TempGone (env' : Env) (s : Server) (name : Bytes) : Prop :=
  env'.temp.opened = false ∧ ∃ read, s.db.logger.keyspaceName.read env'.staleName = .ok read ∧
    s.fs.resolve (tempPath read) ≠ s.fs.resolve s.db.logger.logFilepath ∧
    s.fs.resolve (tempPath read) ≠ s.fs.resolve s.db.logger.dbFilepath ∧
    s.fs.resolve (tempPath read) ≠ s.fs.resolve (aofPath name)

/-- The destructor of the old `DB` throws, after a shutdown that has returned. -/
def DestructorThrows (env' : Env) (s : Server) (name : Bytes) : Prop :=
  ¬Log.Skips s.db.store (s.db.dirty % SIZE_MOD) ∧ s.TempGone env' name ∨
    DB.SnapshotThrows env' s.fs s.db

theorem destructorThrows_congr (h : ¬s.db.ReadsStale) (env' : Env) (staleName : Option Bytes)
    (name : Bytes) :
    s.DestructorThrows { env' with staleName } name ↔ s.DestructorThrows env' name := by
  refine or_congr_left (and_congr_right fun hskips => ?_)
  cases hname : s.db.logger.keyspaceName with
  | bound name => simp [TempGone, hname]
  | dangling => exact absurd ⟨hname, hskips⟩ h

/-- The files that the destructor finds: those of the first shutdown, and the log of
the new `DB`. -/
def switchedFiles (env : Env) (s : Server) (name : Bytes) : Files :=
  ((s.db.shutdown env s.fs).1.openAppend (aofPath name)).1

theorem switchedFiles_resolve (env : Env) (s : Server) (name : Bytes) :
    (s.switchedFiles env name).resolve = s.fs.resolve := by
  rw [switchedFiles, FS.openAppend_resolve, DB.shutdown_resolve]

/-- A shutdown that has compacted has had somewhere to put its temporary file. -/
theorem resolve_temp_of_ok {temp : Bytes} (h : (s.db.shutdown env s.fs).2.2 = .ok ())
    (hskips : ¬Log.Skips s.db.store (s.db.dirty % SIZE_MOD))
    (hread : s.db.logger.keyspaceName.read env.staleName = .ok temp) :
    ∃ t, s.fs.resolve (tempPath temp) = some t := by
  obtain ⟨hnamed, hthrows⟩ := (DB.shutdown_ok_iff env s.fs s.db).mp h
  refine Option.ne_none_iff_exists'.mp fun hnone => hthrows (Or.inl ⟨hskips, hnamed, Or.inr ?_⟩)
  rw [Log.leftover_of_read hread, hnone, if_neg (by simp), Log.read_eq_none hnone]

/-- The compaction of the destructor has nothing to rename exactly if the temporary
file is gone. -/
theorem leftover_switchedFiles_iff {temp : Bytes} (h : (s.db.shutdown env s.fs).2.2 = .ok ())
    (hskips : ¬Log.Skips s.db.store (s.db.dirty % SIZE_MOD))
    (hread : s.db.logger.keyspaceName.read env.staleName = .ok temp)
    (hread' : s.db.logger.keyspaceName.read env'.staleName = .ok temp) :
    Log.leftover env' (s.switchedFiles env name) (s.db.logger.closeLog s.fs).2 s.db.store = none ↔
      s.TempGone env' name := by
  -- the first shutdown has renamed the file away, unless the paths are one entry
  obtain ⟨t, ht⟩ := resolve_temp_of_ok h hskips hread
  have hclosed : (s.db.logger.closeLog s.fs).2.keyspaceName.read env'.staleName = .ok temp := by
    rw [Log.closeLog_keyspaceName, hread']
  have hino : (s.switchedFiles env name).ino (tempPath temp) = (s.switchedFiles env name).dir t :=
    FS.ino_eq ((congrFun (switchedFiles_resolve env s name) _).trans ht)
  rw [Log.leftover_eq_none_iff hclosed, switchedFiles_resolve, hino, switchedFiles,
    FS.openAppend_dir_eq_none_iff, DB.shutdown_dir_eq_none_iff h hskips hread, DB.shutdown_resolve,
    TempGone]
  simp only [hread', Except.ok.injEq, exists_eq_left', ht, Option.isSome_some, and_true,
    Bool.not_eq_true, true_or, true_and, ne_eq, eq_comm (a := some t), and_assoc]

/-- **When the destructor of a switch throws**, read off the state before the switch. -/
theorem destructor_ok_iff (h : (s.db.shutdown env s.fs).2.2 = .ok ())
    (hreads : DB.ReadsAlike env env' s.db) :
    ((s.db.shutdown env s.fs).2.1.shutdown env' (s.switchedFiles env name)).2.2 = .ok () ↔
      ¬s.DestructorThrows env' name := by
  obtain ⟨hnamed, hthrows⟩ := (DB.shutdown_ok_iff env s.fs s.db).mp h
  have hnamed' : ¬Log.NameLost env'.staleName (s.db.logger.closeLog s.fs).2 s.db.store
      (s.db.dirty % SIZE_MOD) := by
    rw [Log.nameLost_closeLog]
    rintro ⟨hskips, hlost⟩
    obtain ⟨temp, -, hread'⟩ := hreads hskips
    exact absurd (hread'.symm.trans hlost) (by simp)
  rw [DB.shutdown_ok_iff, DB.shutdown_db, and_iff_right hnamed', not_iff_not, DB.ShutdownThrows,
    DestructorThrows, DB.SnapshotThrows, DB.SnapshotThrows, Log.RenameFails, switchedFiles_resolve,
    Log.closeLog_dbFilepath]
  refine or_congr_left (and_congr_right fun hskips => ?_)
  -- both shutdowns go by one name, so by one temporary path
  obtain ⟨temp, hread, hread'⟩ := hreads hskips
  rw [and_iff_right hnamed', Log.closeLog_logFilepath,
    leftover_switchedFiles_iff h hskips hread hread']
  -- the first shutdown has renamed to the path of the log, so it resolves
  exact or_iff_right fun haof => hthrows (Or.inl ⟨hskips, hnamed, Or.inl haof⟩)

/-- **When a switch is answered** that reads no name, or the same one twice. -/
theorem useKeyspace_answers_iff (hreads : DB.ReadsAlike env env' s.db) (name : Bytes) :
    (∃ reply, (s.useKeyspace env env' name).2 = .ok reply) ↔
      (¬DB.ShutdownThrows env s.fs s.db → (s.fs.resolve (aofPath name)).isSome = true →
        ¬s.DestructorThrows env' name) := by
  have hok := DB.shutdown_ok_iff env s.fs s.db
  rw [and_iff_right hreads.not_nameLost] at hok
  rw [← hok]
  cases hres : (s.db.shutdown env s.fs).2.2 with
  | error e =>
      -- what the first shutdown throws is caught, and answered with an error
      obtain ⟨what, rfl⟩ := DB.shutdown_error hreads.not_nameLost hres
      refine iff_of_true ?_ fun h => absurd h (by simp)
      rw [useKeyspace]
      split
      · exact ⟨_, rfl⟩
      · next hother heq =>
          rw [heq] at hres
          exact absurd (Except.error.inj hres) (hother what)
      · next heq =>
          rw [heq] at hres
          exact absurd hres (by simp)
  | ok =>
      have hdestructor :
          ((s.db.shutdown env s.fs).2.1.shutdown env' (s.switchedFiles env name)).2.2 = .ok () ↔
            ¬s.DestructorThrows env' name := destructor_ok_iff hres hreads
      have hresolve := congrFun (DB.shutdown_resolve env s.fs s.db) (aofPath name)
      rw [eq_self, true_imp_iff]
      rw [useKeyspace]
      split
      · next heq => rw [heq] at hres; exact absurd hres (by simp)
      · next heq => rw [heq] at hres; exact absurd hres (by simp)
      · next fs₁ old heq =>
          rw [switchedFiles, heq] at hdestructor
          rw [heq] at hresolve
          cases hp : s.fs.resolve (aofPath name) with
          -- so is what the constructor throws, and the old `DB` is kept
          | none =>
              rw [DB.new_eq_error env (hresolve.trans hp)]
              exact iff_of_true ⟨_, rfl⟩ (by simp)
          -- what the destructor throws ends the program
          | some a =>
              obtain ⟨i, -, hnew⟩ := DB.new_eq env (hresolve.trans hp)
              rw [hnew]
              dsimp only
              rw [Option.isSome_some, eq_self, true_imp_iff, ← hdestructor, ← DB.destroy_snd_ok]
              split
              · next hdestroy => rw [hdestroy]; simp
              · next hdestroy => rw [hdestroy]; simp

/-- A switch that reads a name whose string is gone may not be answered. -/
theorem useKeyspace_of_nameLost
    (h : Log.NameLost env.staleName s.db.logger s.db.store (s.db.dirty % SIZE_MOD)) (name : Bytes) :
    (s.useKeyspace env env' name).2 = .error .undefinedBehaviour := by
  have hres := DB.shutdown_snd env s.fs s.db
  rw [if_pos h] at hres
  rw [useKeyspace]
  split
  · next heq => rw [heq] at hres; exact absurd hres (by simp)
  · next heq => rw [heq] at hres; exact congrArg Except.error (Except.error.inj hres)
  · next heq => rw [heq] at hres; exact absurd hres (by simp)

/-- A blank request has no first token. -/
theorem dispatcher_blank (h : tokens input = []) :
    (s.dispatcher env env' input).2 = .error .undefinedBehaviour := by
  have hstats : input ≠ ascii "stats" := by
    intro heq
    rw [heq] at h
    exact absurd h (by decide)
  have hclear : input ≠ ascii "clear" := by
    intro heq
    rw [heq] at h
    exact absurd h (by decide)
  rw [dispatcher, tokenize_eq]
  dsimp only
  rw [if_neg hstats, if_neg hclear, h]
  rfl

theorem dispatcher_display (h : IsDisplay input) :
    ∃ reply, (s.dispatcher env env' input).2 = .ok reply := by
  rcases h with rfl | rfl | rfl | rfl
  · exact ⟨s.db.displayStats env, rfl⟩
  · exact ⟨s.db.display env, rfl⟩
  · exact ⟨s.db.displayKeys env, rfl⟩
  · exact ⟨s.db.displayValues env, rfl⟩

theorem quit_answers_iff (env : Env) (s : Server) :
    (∃ reply, (s.quit env).2 = .ok reply) ↔
      ¬Log.NameLost env.staleName s.db.logger s.db.store (s.db.dirty % SIZE_MOD) ∧
        ¬DB.ShutdownThrows env s.fs s.db := by
  rw [← DB.shutdown_ok_iff, quit]
  split
  · next heq => rw [heq]; simp
  · next heq => rw [heq]; simp

theorem nameLost_of_readsStale (h : s.db.ReadsStale) :
    Log.NameLost none s.db.logger s.db.store (s.db.dirty % SIZE_MOD) :=
  ⟨h.2, by rw [h.1]; rfl⟩

/-- Commands that come back with nothing from a name that is gone come back with anything. -/
theorem executes_of_none {ts : List Bytes} (h : s.db.Executes none ts)
    (staleName : Option Bytes) : s.db.Executes staleName ts := by
  refine h.imp_left fun happends => happends.imp_right fun hread => ?_
  cases hname : s.db.logger.keyspaceName with
  | bound name => rfl
  | dangling =>
      rw [hname] at hread
      exact absurd hread Bool.false_ne_true

/-- **Which requests are answered**, whatever a name yields whose string is gone, or if it
does not come back: those that are not blank and append nothing to a closed log with such a
name; except for a `quit` or a switch whose shutdown reads such a name, a `quit` whose
shutdown throws, and a switch that goes through but whose destructor throws. -/
theorem dispatcher_answers_iff (env env' : Env) (s : Server) (input : Bytes) :
    (∀ stale stale', ∃ reply, (s.dispatcher { env with staleName := stale }
        { env' with staleName := stale' } input).2 = .ok reply) ↔
      ¬(input.length = 0 ∨ isAllSpace input = true) ∧ s.db.Executes none (tokens input) ∧
      (IsQuit input → ¬s.db.ReadsStale ∧ ¬DB.ShutdownThrows env s.fs s.db) ∧
      ∀ name, tokens input = [ascii "use", name] → ¬s.db.ReadsStale ∧
        (¬DB.ShutdownThrows env s.fs s.db → (s.fs.resolve (aofPath name)).isSome = true →
          ¬s.DestructorThrows env' name) := by
  by_cases hblank : input.length = 0 ∨ isAllSpace input = true
  · refine iff_of_false (fun h => ?_) fun h => h.1 hblank
    obtain ⟨reply, hreply⟩ := h none none
    rw [dispatcher_blank (DB.tokens_eq_nil_of_blank hblank)] at hreply
    exact absurd hreply (by simp)
  rw [and_iff_right hblank]
  -- a `use` and a `quit` shut the `DB` down, the others only run a command
  by_cases huse : ∃ name, tokens input = [ascii "use", name]
  · obtain ⟨name, htokens⟩ := huse
    have hquit : ¬IsQuit input := by
      intro h
      have hlength := length_tokens_of_isQuit h
      rw [htokens] at hlength
      exact absurd hlength (by simp)
    have hexecutes : s.db.Executes none (tokens input) :=
      DB.executes_of_records_nil (by rw [htokens]; rfl) _ _
    rw [and_iff_right hexecutes, and_iff_right fun h => absurd h hquit]
    simp only [htokens, List.cons.injEq, and_true, true_and, forall_eq', dispatcher_use htokens]
    constructor
    · intro h
      -- a read that does not come back is among the possible ones
      have hnamed : ¬s.db.ReadsStale := fun hstale => by
        obtain ⟨reply, hreply⟩ := h none none
        rw [useKeyspace_of_nameLost (nameLost_of_readsStale hstale)] at hreply
        exact absurd hreply (by simp)
      exact ⟨hnamed, (useKeyspace_answers_iff (DB.readsAlike_of_not_readsStale hnamed _ _) name).mp
        (h env.staleName env'.staleName)⟩
    · rintro ⟨hnamed, h⟩ stale stale'
      rw [useKeyspace_answers_iff (DB.readsAlike_of_not_readsStale hnamed _ _) name,
        DB.shutdownThrows_congr hnamed, destructorThrows_congr hnamed]
      exact h
  have huse' : ∀ name, tokens input ≠ [ascii "use", name] := fun name h => huse ⟨name, h⟩
  by_cases hquit : IsQuit input
  · have hdispatch : ∀ env env' : Env, s.dispatcher env env' input = s.quit env := by
      intro env env'
      rcases hquit with rfl | rfl <;> rfl
    have hexecutes : s.db.Executes none (tokens input) := by
      refine DB.executes_of_records_nil ?_ _ _
      rcases hquit with rfl | rfl <;> decide
    rw [and_iff_right hexecutes, and_iff_left fun name h => absurd h (huse' name)]
    simp only [hdispatch, quit_answers_iff, hquit, true_imp_iff]
    constructor
    · intro h
      have hnamed : ¬s.db.ReadsStale := fun hstale =>
        (h none none).1 (nameLost_of_readsStale hstale)
      exact ⟨hnamed, (h env.staleName env'.staleName).2⟩
    · rintro ⟨hnamed, h⟩ stale stale'
      refine ⟨(DB.readsAlike_of_not_readsStale hnamed { env with staleName := stale }
        env').not_nameLost, ?_⟩
      rwa [DB.shutdownThrows_congr hnamed]
  rw [and_iff_left ⟨fun h => absurd h hquit, fun name h => absurd h (huse' name)⟩]
  constructor
  · intro h
    obtain ⟨reply, hreply⟩ := h none none
    by_contra hstuck
    rcases dispatcher_cases { env with staleName := none } { env' with staleName := none } s input
      with h | ⟨rfl, -⟩ | ⟨h, -⟩ | ⟨h, -⟩ | ⟨-, h⟩ | ⟨h | h, -⟩
    · exact huse h
    · exact hstuck (DB.executes_of_records_nil (by decide) _ _)
    · exact hquit h
    · exact hstuck h
    · rw [h] at hreply
      exact absurd hreply (by simp)
    · exact DB.tokens_ne_nil hblank h
    · refine hstuck (DB.executes_of_records_nil ?_ _ _)
      rcases h with rfl | rfl | rfl | rfl <;> decide
  · intro hexecutes stale stale'
    rcases dispatcher_cases { env with staleName := stale } { env' with staleName := stale' } s
      input with h | ⟨-, h⟩ | ⟨h, -⟩ | ⟨-, res, h⟩ | ⟨h, -⟩ | ⟨h | h, -⟩
    · exact absurd h huse
    · exact ⟨_, congrArg Prod.snd h⟩
    · exact absurd h hquit
    · exact ⟨res, congrArg Prod.snd h⟩
    · exact absurd (executes_of_none hexecutes stale) h
    · exact absurd h (DB.tokens_ne_nil hblank)
    · exact dispatcher_display h

/-- A new server is sent a blank line: the first token of none is read, though the
command parser takes the line for an empty command. -/
theorem not_dispatcher_answers :
    ∃ s, Server.new Env.calm blankFiles (ascii "a") = (s.fs, .ok s) ∧
      (s.dispatcher Env.calm Env.calm (ascii " ")).2 = .error .undefinedBehaviour ∧
      s.db.parseCommand none (ascii " ") = .ok (s.db, []) := by
  refine ⟨⟨(Keyspace.fresh (ascii "a")).fs, (Keyspace.fresh (ascii "a")).db, false⟩, ?_, ?_, rfl⟩
  · rw [Server.new, Keyspace.new_blankFiles]
  · exact dispatcher_blank (by decide)

end Server

end Taproot
