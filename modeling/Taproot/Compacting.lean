import Taproot.Keyspace

/-!
# Taproot.Compacting

What a compaction leaves behind the **path of the log** when its temporary file
goes wrong.

The rename does not ask how the writing went. It takes whatever the temporary
path names by then (`leftover`): the buffer, the part of it that reached the
file, or a file of that name from an earlier failure. Only if nothing is there
does the log keep its content (`read_compactLog`), and only then, or if there is
nowhere to rename it to, does a compaction throw (`compactLog_snd`).
-/

namespace Taproot

open Posix Journal

namespace Log

variable {env : Env} {fs : Files} {log : Log} {state : Store} {dirty : Nat}

/-- What the temporary path holds when it is renamed: the part of the text that
was written, or, if the file could not be opened, what was there before. Nothing is
renamed if the name cannot be read that the path is made of. -/
def leftover (env : Env) (fs : Files) (log : Log) (state : Store) : Option Bytes :=
  match log.keyspaceName.read env.staleName with
  | .error _ => none
  | .ok keyspaceName =>
    let tempAof := tempPath keyspaceName
    if env.temp.opened ∧ (fs.resolve tempAof).isSome then
      some (env.temp.kept (compacted env state))
    else fs.read tempAof

theorem leftover_of_read {name : Bytes} (hread : log.keyspaceName.read env.staleName = .ok name)
    (fs : Files) (state : Store) : leftover env fs log state =
      if env.temp.opened ∧ (fs.resolve (tempPath name)).isSome then
        some (env.temp.kept (compacted env state))
      else fs.read (tempPath name) := by
  rw [leftover, hread]

theorem leftover_of_error {e : Fault} (hread : log.keyspaceName.read env.staleName = .error e)
    (fs : Files) (state : Store) : leftover env fs log state = none := by
  rw [leftover, hread]

theorem read_eq_none {temp : Bytes} (h : fs.resolve temp = none) : fs.read temp = none := by
  rw [FS.read, FS.ino, h]
  rfl

/-- A temporary file that is not opened is not written. -/
theorem writeTemp_of_not_opened {temp : Bytes}
    (h : ¬(env.temp.opened ∧ (fs.resolve temp).isSome)) (buffer : Bytes) :
    writeTemp env fs temp buffer = fs := by
  rw [writeTemp]
  split
  · next hopened =>
      have hp : fs.resolve temp = none := by simpa [hopened] using h
      rw [FS.openTrunc, FS.openAppend_eq_none hp]
  · rfl

theorem read_writeTemp (env : Env) (fs : Files) (temp buffer : Bytes) :
    (writeTemp env fs temp buffer).read temp =
      if env.temp.opened ∧ (fs.resolve temp).isSome then some (env.temp.kept buffer)
      else fs.read temp := by
  split
  · next h =>
      obtain ⟨t, hp⟩ := Option.isSome_iff_exists.mp h.2
      obtain ⟨i, hi, hself, -⟩ := FS.view_openTrunc_self hp
      obtain ⟨hdir, hdata⟩ := FS.view_eq_some_iff.mp hself
      obtain ⟨fs', hfs⟩ : ∃ fs', fs.openTrunc temp = (fs', some i) := ⟨_, Prod.ext rfl hi⟩
      have hp' : fs'.resolve temp = some t := by
        have hresolve := FS.openTrunc_resolve fs temp
        rw [hfs] at hresolve
        rw [hresolve, hp]
      rw [hfs] at hdir hdata
      rw [writeTemp, if_pos h.1, hfs]
      dsimp only
      rw [FS.read_eq ((congrFun (FS.append_resolve fs' i _) temp).trans hp'),
        FS.view_append_self hdir, hdata]
      rfl
  · next h => rw [writeTemp_of_not_opened h]

theorem read_writeTemp_compacted {name : Bytes}
    (hread : log.keyspaceName.read env.staleName = .ok name) (fs : Files) (state : Store) :
    (writeTemp env fs (tempPath name) (compacted env state)).read (tempPath name) =
      leftover env fs log state := by
  rw [leftover_of_read hread, read_writeTemp]

/-- The rename, if there is something to rename and somewhere to rename it to. -/
theorem read_rename (fs : Files) (p q : Bytes) : (match fs.rename p q with
      | some fs' => fs'.read q
      | none => fs.read q) =
    if (fs.read p).isSome ∧ (fs.resolve q).isSome then fs.read p else fs.read q := by
  have hread : (fs.read p).isSome = (fs.ino p).isSome := by rw [FS.read, Option.isSome_map]
  rw [hread]
  cases hr : fs.rename p q with
  | none => rw [if_neg fun h => by simpa [hr] using FS.rename_isSome_iff.mpr h]
  | some fs' =>
      rw [if_pos (FS.rename_isSome_iff.mp (by rw [hr]; rfl))]
      obtain ⟨e, e', hp, hq, -⟩ := FS.rename_inv hr
      have hq' : fs'.resolve q = some e' := by rw [FS.rename_resolve hr, hq]
      dsimp only
      rw [FS.read_eq hq', FS.read_eq hp, FS.view_rename_dst hp hq hr]

/-- **What is behind the path of the log** after a compaction: what was left
behind the temporary path, if there is anything to compact and to rename. -/
theorem read_compactLog (env : Env) (fs : Files) (log : Log) (state : Store) (dirty : Nat) :
    (log.compactLog env fs state dirty).1.read log.logFilepath =
      if Skips state dirty ∨ fs.resolve log.logFilepath = none ∨ leftover env fs log state = none
      then fs.read log.logFilepath
      else leftover env fs log state := by
  by_cases hskips : Skips state dirty
  · rw [compactLog_of_skips hskips, if_pos (Or.inl hskips)]
  cases hname : log.keyspaceName.read env.staleName with
  | error e =>
      rw [compactLog_of_error hskips hname, if_pos (Or.inr (Or.inr (leftover_of_error hname ..)))]
  | ok name =>
  have htemp := read_writeTemp_compacted hname fs state
  -- in the source the rename is outside the test that the temporary file is open
  have hread : (log.compactLog env fs state dirty).1.read log.logFilepath =
      if (leftover env fs log state).isSome ∧ (fs.resolve log.logFilepath).isSome then
        leftover env fs log state
      else (writeTemp env fs (tempPath name) (compacted env state)).read log.logFilepath := by
    have hrename := read_rename (writeTemp env fs (tempPath name) (compacted env state))
      (tempPath name) log.logFilepath
    rw [htemp, writeTemp_resolve] at hrename
    rw [← hrename, compactLog_of_read hskips hname]
    cases (writeTemp env fs (tempPath name) (compacted env state)).rename (tempPath name)
        log.logFilepath with
    | none => rfl
    | some fs' => rfl
  rw [hread]
  cases hleft : leftover env fs log state with
  | some c =>
      cases haof : fs.resolve log.logFilepath with
      | some a => rw [if_pos ⟨rfl, rfl⟩, if_neg (by simpa using hskips)]
      | none =>
          rw [if_neg (by simp), if_pos (Or.inr (Or.inl rfl)), read_eq_none haof,
            read_eq_none ((congrFun (writeTemp_resolve ..) _).trans haof)]
  | none =>
      rw [if_neg (by simp), if_pos (Or.inr (Or.inr rfl)), writeTemp_of_not_opened]
      intro hopened
      rw [leftover_of_read hname, if_pos hopened] at hleft
      exact absurd hleft (by simp)

/-! ### What is thrown -/

theorem leftover_eq_none_iff {name : Bytes}
    (hread : log.keyspaceName.read env.staleName = .ok name) : leftover env fs log state = none ↔
      ¬(env.temp.opened = true ∧ (fs.resolve (tempPath name)).isSome = true) ∧
        fs.ino (tempPath name) = none := by
  rw [leftover_of_read hread]
  split
  · next h => exact iff_of_false (by simp) fun h' => h'.1 h
  · next h => rw [and_iff_right h, FS.read, Option.map_eq_none_iff]

/-- There is something to compact, and the name that it is to go by is gone. -/
def NameLost (staleName : Option Bytes) (log : Log) (state : Store) (dirty : Nat) : Prop :=
  ¬Skips state dirty ∧ log.keyspaceName.read staleName = .error .undefinedBehaviour

instance (staleName : Option Bytes) (log : Log) (state : Store) (dirty : Nat) :
    Decidable (NameLost staleName log state dirty) := by
  unfold NameLost
  infer_instance

/-- The rename of a compaction has nothing to rename or nowhere to rename it to. -/
def RenameFails (env : Env) (fs : Files) (log : Log) (state : Store) (dirty : Nat) : Prop :=
  ¬Skips state dirty ∧ ¬NameLost env.staleName log state dirty ∧
    (fs.resolve log.logFilepath = none ∨ leftover env fs log state = none)

instance (env : Env) (fs : Files) (log : Log) (state : Store) (dirty : Nat) :
    Decidable (RenameFails env fs log state dirty) := by
  unfold RenameFails
  infer_instance

theorem read_error {k : NameRef} {staleName : Option Bytes} {e : Fault}
    (h : k.read staleName = .error e) : e = .undefinedBehaviour := by
  cases k with
  | bound name => exact absurd h (by simp)
  | dangling =>
      cases staleName with
      | some name => exact absurd h (by simp [NameRef.read])
      | none => exact (Except.error.inj h).symm

/-- **How a compaction ends**: it does not come back from reading its name, or it throws
the error of its rename, or it returns. -/
theorem compactLog_snd (env : Env) (fs : Files) (log : Log) (state : Store) (dirty : Nat) :
    (log.compactLog env fs state dirty).2 =
      if NameLost env.staleName log state dirty then .error .undefinedBehaviour
      else if RenameFails env fs log state dirty then .error (.exception env.renameError)
      else .ok () := by
  by_cases hskips : Skips state dirty
  · rw [compactLog_of_skips hskips, if_neg fun h => h.1 hskips, if_neg fun h => h.1 hskips]
  cases hname : log.keyspaceName.read env.staleName with
  | error e =>
      obtain rfl := read_error hname
      rw [compactLog_of_error hskips hname, if_pos ⟨hskips, hname⟩]
  | ok name =>
  have htemp := read_writeTemp_compacted hname fs state
  have hread : ¬NameLost env.staleName log state dirty := fun h => by simp [h.2] at hname
  -- it fails where the temporary file is not there or the path of the log is not resolved
  have hrename : ((writeTemp env fs (tempPath name) (compacted env state)).rename (tempPath name)
      log.logFilepath).isSome ↔ ¬RenameFails env fs log state dirty := by
    rw [FS.rename_isSome_iff, writeTemp_resolve, RenameFails, and_iff_right hskips,
      and_iff_right hread, ← htemp, FS.read, Option.map_eq_none_iff, not_or,
      Option.isSome_iff_ne_none, Option.isSome_iff_ne_none, and_comm]
  rw [compactLog_of_read hskips hname, if_neg hread]
  split
  · next hr => rw [if_neg (hrename.mp (by rw [hr]; rfl))]
  · next hr => rw [if_pos (not_not.mp (mt hrename.mpr (by rw [hr]; simp)))]

/-- Closing the log first makes no difference. -/
theorem nameLost_closeLog (staleName : Option Bytes) (fs : Files) (log : Log) (state : Store)
    (dirty : Nat) : NameLost staleName (log.closeLog fs).2 state dirty ↔
      NameLost staleName log state dirty := by
  rw [NameLost, NameLost, closeLog_keyspaceName]

theorem renameFails_closeLog (env : Env) (fs : Files) (log : Log) (state : Store) (dirty : Nat) :
    RenameFails env (log.closeLog fs).1 (log.closeLog fs).2 state dirty ↔
      RenameFails env fs log state dirty := by
  have hino (p : Bytes) : (log.closeLog fs).1.ino p = fs.ino p := by
    rw [FS.ino, FS.ino, closeLog_resolve, closeLog_dir]
  rw [RenameFails, RenameFails, nameLost_closeLog, closeLog_logFilepath, closeLog_resolve]
  refine and_congr_right fun _ => and_congr_right fun _ => or_congr_right ?_
  have hname := congrArg (NameRef.read env.staleName) (closeLog_keyspaceName fs log)
  cases hread : log.keyspaceName.read env.staleName with
  | error e =>
      exact iff_of_true (leftover_of_error (hname.trans hread) ..) (leftover_of_error hread ..)
  | ok name =>
      rw [leftover_eq_none_iff (hname.trans hread), leftover_eq_none_iff hread, closeLog_resolve,
        hino]

end Log

/-- A shutdown ends as its compaction does, or if that returns, as its snapshot. -/
theorem DB.shutdown_snd_eq_bind (env : Env) (fs : Files) (db : DB) :
    (db.shutdown env fs).2.2 =
      ((db.logger.closeLog fs).2.compactLog env (db.logger.closeLog fs).1 db.store
        (db.dirty % SIZE_MOD)).2.bind fun _ =>
      ((db.logger.closeLog fs).2.writeBinarySnapshot env ((db.logger.closeLog fs).2.compactLog env
        (db.logger.closeLog fs).1 db.store (db.dirty % SIZE_MOD)).1 db.store).2 := by
  rw [shutdown]
  dsimp only
  split
  · next heq => rw [heq]; rfl
  · next heq => rw [heq]; rfl

/-- **How a shutdown ends**: its compaction does not come back, or throws the error of its
rename, or it ends as its snapshot does. -/
theorem DB.shutdown_snd (env : Env) (fs : Files) (db : DB) :
    (db.shutdown env fs).2.2 =
      if Log.NameLost env.staleName db.logger db.store (db.dirty % SIZE_MOD) then
        .error .undefinedBehaviour
      else if Log.RenameFails env fs db.logger db.store (db.dirty % SIZE_MOD) then
        .error (.exception env.renameError)
      else
        ((db.logger.closeLog fs).2.writeBinarySnapshot env ((db.logger.closeLog fs).2.compactLog env
          (db.logger.closeLog fs).1 db.store (db.dirty % SIZE_MOD)).1 db.store).2 := by
  rw [shutdown_snd_eq_bind, Log.compactLog_snd]
  simp only [Log.nameLost_closeLog, Log.renameFails_closeLog]
  split
  · rfl
  · split <;> rfl

namespace Log

/-! ### All or nothing -/

/-- **Compaction is all or nothing** exactly if there is nothing to do, nothing to
rename, or what is left behind the temporary path is the complete text or the
former content. -/
theorem compactLog_whole_iff (env : Env) (fs : Files) (log : Log) (state : Store) (dirty : Nat) :
    ((log.compactLog env fs state dirty).1.read log.logFilepath = fs.read log.logFilepath ∨
      (log.compactLog env fs state dirty).1.read log.logFilepath = some (compacted env state)) ↔
    Skips state dirty ∨ fs.resolve log.logFilepath = none ∨ leftover env fs log state = none ∨
      leftover env fs log state = fs.read log.logFilepath ∨
      leftover env fs log state = some (compacted env state) := by
  rw [read_compactLog]
  by_cases h : Skips state dirty ∨ fs.resolve log.logFilepath = none ∨
      leftover env fs log state = none
  · rw [if_pos h]
    refine iff_of_true (Or.inl rfl) ?_
    rcases h with h | h | h
    · exact Or.inl h
    · exact Or.inr (Or.inl h)
    · exact Or.inr (Or.inr (Or.inl h))
  · rw [if_neg h]
    obtain ⟨hskips, h⟩ := not_or.mp h
    obtain ⟨haof, hleft⟩ := not_or.mp h
    rw [or_iff_right hskips, or_iff_right haof, or_iff_right hleft]

/-- The writing stops after three bytes, and they replace the log. -/
theorem not_compactLog_whole :
    ((Log.opened (ascii "a") 0).closed.compactLog { Env.calm with temp := ⟨true, some 3⟩ }
        (Keyspace.savedFiles (ascii "a") (ascii "put k 1\n"))
        ((∅ : Store).insert (ascii "k") (ascii "1")) 1).1.read (aofPath (ascii "a")) =
      some (ascii "put") ∧
    some (ascii "put") ≠
      (Keyspace.savedFiles (ascii "a") (ascii "put k 1\n")).read (aofPath (ascii "a")) ∧
    some (ascii "put") ≠ some (compacted { Env.calm with temp := ⟨true, some 3⟩ }
      ((∅ : Store).insert (ascii "k") (ascii "1"))) := by
  have hcompacted : compacted { Env.calm with temp := ⟨true, some 3⟩ }
      ((∅ : Store).insert (ascii "k") (ascii "1")) = ascii "put k 1\n" := by
    rw [compacted, Iteration.entries_singleton]
    decide
  have hleft : leftover { Env.calm with temp := ⟨true, some 3⟩ }
      (Keyspace.savedFiles (ascii "a") (ascii "put k 1\n")) (Log.opened (ascii "a") 0).closed
      ((∅ : Store).insert (ascii "k") (ascii "1")) = some (ascii "put") := by
    rw [leftover_of_read (NameRef.read_bound ..), hcompacted, if_pos ⟨rfl, rfl⟩]
    decide
  refine ⟨?_, ?_, ?_⟩
  · have hread := read_compactLog { Env.calm with temp := ⟨true, some 3⟩ }
      (Keyspace.savedFiles (ascii "a") (ascii "put k 1\n")) (Log.opened (ascii "a") 0).closed
      ((∅ : Store).insert (ascii "k") (ascii "1")) 1
    rw [hleft, if_neg] at hread
    · exact hread
    · rintro (hskips | haof | hnone)
      · exact absurd hskips (by decide)
      · exact absurd haof (by decide)
      · exact absurd hnone (by simp)
  · rw [Keyspace.read_savedFiles]
    decide
  · rw [hcompacted]
    decide

end Log

end Taproot
