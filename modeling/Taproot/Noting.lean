import Taproot.Switching

/-!
# Taproot.Noting

What the code **opens and renames** when it compacts.

The functions from which `compactLog` is reached have twins here that note down the
two paths of each rename. Erased, the twins are the functions (`dispatcherNoted_fst`,
`destroyNoted_fst`), and what they note is read off the state before them: a shutdown
compacts once, a switch and the destruction of the server once more at most.
-/

namespace Taproot

open Posix Journal

/-! ### Notes of compactions -/

/-- What a compaction opens and renames, and what it renames it to. -/
structure Compaction where
  tempAof : Bytes
  logFilepath : Bytes
  deriving DecidableEq

/-- `Log::compactLog`, with a note of its rename. -/
def Log.compactLogNoted (env : Env) (fs : Files) (log : Log) (state : Store) (dirty : Nat) :
    (Files × Except Fault Unit) × List Compaction :=
  if dirty ≤ 0 ∨ state = ∅ then
    ((fs, .ok ()), [])
  else
    match log.keyspaceName.read env.staleName with
    | .error e => ((fs, .error e), [])
    | .ok keyspaceName =>
      let tempAof := tempPath keyspaceName
      let fs := writeTemp env fs tempAof (compacted env state)
      match fs.rename tempAof log.logFilepath with
      | some fs => ((fs, .ok ()), [⟨tempAof, log.logFilepath⟩])
      | none => ((fs, .error (.exception env.renameError)), [⟨tempAof, log.logFilepath⟩])

/-- `DB::shutdown`. -/
def DB.shutdownNoted (env : Env) (fs : Files) (db : DB) :
    (Files × DB × Except Fault Unit) × List Compaction :=
  let (fs, logger) := db.logger.closeLog fs
  let db := { db with logger }
  match db.logger.compactLogNoted env fs db.store (db.dirty % SIZE_MOD) with
  | ((fs, .error e), notes) => ((fs, db, .error e), notes)
  | ((fs, .ok ()), notes) =>
    let (fs, res) := db.logger.writeBinarySnapshot env fs db.store
    ((fs, db, res), notes)

/-- `DB::~DB`. -/
def DB.destroyNoted (env : Env) (fs : Files) (db : DB) :
    (Files × Except Fault Unit) × List Compaction :=
  match db.shutdownNoted env fs with
  | ((fs, _, .error (.exception _)), notes) => ((fs, .error .terminate), notes)
  | ((fs, _, .error e), notes) => ((fs, .error e), notes)
  | ((fs, db, .ok ()), notes) => (((db.logger.destroy fs).1, .ok ()), notes)

namespace Server

/-- The `use` branch. -/
def useKeyspaceNoted (env env' : Env) (s : Server) (name : Bytes) :
    (Server × Except Fault Bytes) × List Compaction :=
  match s.db.shutdownNoted env s.fs with
  | ((fs, db, .error (.exception what)), notes) =>
    (({ s with fs, db }, .ok (switchError name what)), notes)
  | ((fs, db, .error e), notes) => (({ s with fs, db }, .error e), notes)
  | ((fs, old, .ok ()), notes) =>
    match DB.new env fs name with
    | (fs, .error (.exception what)) =>
      (({ s with fs, db := old }, .ok (switchError name what)), notes)
    | (fs, .error e) => (({ s with fs, db := old }, .error e), notes)
    | (fs, .ok db) =>
      match old.destroyNoted env' fs with
      | ((fs, .error e), notes') => (({ s with fs, db := db.orphaned }, .error e), notes ++ notes')
      | ((fs, .ok ()), notes') =>
        (({ s with fs, db := db.orphaned }, .ok (ascii "OK switched keyspace to " ++ name)),
          notes ++ notes')

/-- The `quit` branch. -/
def quitNoted (env : Env) (s : Server) : (Server × Except Fault Bytes) × List Compaction :=
  match s.db.shutdownNoted env s.fs with
  | ((fs, db, .error e), notes) => (({ s with fs, db, running := false }, .error e), notes)
  | ((fs, db, .ok ()), notes) =>
    (({ s with fs, db, running := false }, .ok (ascii "BYE")), notes)

/-- `Server::dispatcher`. -/
def dispatcherNoted (env env' : Env) (s : Server) (input : Bytes) :
    (Server × Except Fault Bytes) × List Compaction :=
  match tokenize input with
  | .error e => ((s, .error e), [])
  | .ok tokens =>
    if input = ascii "stats" then
      ((s, .ok (s.db.displayStats env)), [])
    else if input = ascii "clear" then
      let (fs, db) := s.db.clearData s.fs
      (({ s with fs, db }, .ok (ascii "OK")), [])
    else
      match subscript tokens 0 with
      | .error e => ((s, .error e), [])
      | .ok op =>
        if op = ascii "use" ∧ tokens.length = 2 then
          match subscript tokens 1 with
          | .error e => ((s, .error e), [])
          | .ok name => s.useKeyspaceNoted env env' name
        else if input = ascii "show" then
          ((s, .ok (s.db.display env)), [])
        else if input = ascii "keys" then
          ((s, .ok (s.db.displayKeys env)), [])
        else if input = ascii "values" then
          ((s, .ok (s.db.displayValues env)), [])
        else if input = ascii "quit" ∨ input = ascii "exit" then
          s.quitNoted env
        else
          match s.db.parseCommand env.staleName input with
          | .error e => ((s, .error e), [])
          | .ok (db, res) =>
            (({ s with db }, .ok (if res = [] then [] else printVector res)), [])

/-- `Server::~Server`, and then the `DB` that it owns. -/
def destroyNoted (env env' : Env) (s : Server) : (Files × Except Fault Unit) × List Compaction :=
  match s.db.shutdownNoted env s.fs with
  | ((fs, _, .error (.exception _)), notes) => ((fs, .error .terminate), notes)
  | ((fs, _, .error e), notes) => ((fs, .error e), notes)
  | ((fs, db, .ok ()), notes) =>
    let (res, notes') := db.destroyNoted env' fs
    (res, notes ++ notes')

end Server

/-! ### Erasing the notes -/

theorem Log.compactLogNoted_fst (env : Env) (fs : Files) (log : Log) (state : Store)
    (dirty : Nat) : (log.compactLogNoted env fs state dirty).1 =
      log.compactLog env fs state dirty := by
  rw [compactLogNoted, compactLog]
  split
  · rfl
  cases log.keyspaceName.read env.staleName with
  | error e => rfl
  | ok name =>
      dsimp only
      cases (writeTemp env fs (tempPath name) (compacted env state)).rename (tempPath name)
        log.logFilepath <;> rfl

theorem DB.shutdownNoted_fst (env : Env) (fs : Files) (db : DB) :
    (db.shutdownNoted env fs).1 = db.shutdown env fs := by
  rw [shutdownNoted, shutdown]
  dsimp only
  rw [← Log.compactLogNoted_fst]
  generalize Log.compactLogNoted _ _ _ _ _ = run
  obtain ⟨⟨fs', res⟩, notes⟩ := run
  cases res <;> rfl

theorem DB.destroyNoted_fst (env : Env) (fs : Files) (db : DB) :
    (db.destroyNoted env fs).1 = db.destroy env fs := by
  rw [destroyNoted, destroy, ← shutdownNoted_fst]
  generalize db.shutdownNoted env fs = run
  obtain ⟨⟨fs', db', res⟩, notes⟩ := run
  cases res with
  | ok => rfl
  | error e => cases e <;> rfl

namespace Server

theorem useKeyspaceNoted_fst (env env' : Env) (s : Server) (name : Bytes) :
    (s.useKeyspaceNoted env env' name).1 = s.useKeyspace env env' name := by
  rw [useKeyspaceNoted, useKeyspace, ← DB.shutdownNoted_fst]
  generalize s.db.shutdownNoted env s.fs = run
  obtain ⟨⟨fs, old, res⟩, notes⟩ := run
  cases res with
  | error e => cases e <;> rfl
  | ok =>
      dsimp only
      generalize DB.new env fs name = opened
      obtain ⟨fs', res⟩ := opened
      cases res with
      | error e => cases e <;> rfl
      | ok db =>
          dsimp only
          rw [← DB.destroyNoted_fst]
          generalize old.destroyNoted env' fs' = run'
          obtain ⟨⟨fs'', res⟩, notes'⟩ := run'
          cases res <;> rfl

theorem quitNoted_fst (env : Env) (s : Server) : (s.quitNoted env).1 = s.quit env := by
  rw [quitNoted, quit, ← DB.shutdownNoted_fst]
  generalize s.db.shutdownNoted env s.fs = run
  obtain ⟨⟨fs, db, res⟩, notes⟩ := run
  cases res <;> rfl

/-- **Erased, the dispatcher with notes is the dispatcher.** -/
theorem dispatcherNoted_fst (env env' : Env) (s : Server) (input : Bytes) :
    (s.dispatcherNoted env env' input).1 = s.dispatcher env env' input := by
  rw [dispatcherNoted, dispatcher]
  cases tokenize input with
  | error e => rfl
  | ok tokens =>
      dsimp only
      by_cases hstats : input = ascii "stats"
      · rw [if_pos hstats, if_pos hstats]
      by_cases hclear : input = ascii "clear"
      · rw [if_neg hstats, if_neg hstats, if_pos hclear, if_pos hclear]
      rw [if_neg hstats, if_neg hstats, if_neg hclear, if_neg hclear]
      cases subscript tokens 0 with
      | error e => rfl
      | ok op =>
          dsimp only
          by_cases huse : op = ascii "use" ∧ tokens.length = 2
          · rw [if_pos huse, if_pos huse]
            cases subscript tokens 1 with
            | error e => rfl
            | ok name => exact useKeyspaceNoted_fst env env' s name
          rw [if_neg huse, if_neg huse]
          by_cases hshow : input = ascii "show"
          · rw [if_pos hshow, if_pos hshow]
          by_cases hkeys : input = ascii "keys"
          · rw [if_neg hshow, if_neg hshow, if_pos hkeys, if_pos hkeys]
          by_cases hvalues : input = ascii "values"
          · rw [if_neg hshow, if_neg hshow, if_neg hkeys, if_neg hkeys, if_pos hvalues,
              if_pos hvalues]
          rw [if_neg hshow, if_neg hshow, if_neg hkeys, if_neg hkeys, if_neg hvalues,
            if_neg hvalues]
          by_cases hquit : input = ascii "quit" ∨ input = ascii "exit"
          · rw [if_pos hquit, if_pos hquit]
            exact quitNoted_fst env s
          · rw [if_neg hquit, if_neg hquit]
            cases s.db.parseCommand env.staleName input <;> rfl

theorem destroyNoted_fst (env env' : Env) (s : Server) :
    (s.destroyNoted env env').1 = s.destroy env env' := by
  rw [destroyNoted, destroy, ← DB.shutdownNoted_fst]
  generalize s.db.shutdownNoted env s.fs = run
  obtain ⟨⟨fs, db, res⟩, notes⟩ := run
  cases res with
  | error e => cases e <;> rfl
  | ok => exact DB.destroyNoted_fst env' fs db

end Server

/-! ### What is noted -/

/-- What a shutdown compacts: nothing, if it skips the compaction or does not come back
from reading its name. -/
def DB.compactions (staleName : Option Bytes) (db : DB) : List Compaction :=
  if Log.Skips db.store (db.dirty % SIZE_MOD) then []
  else
    match db.logger.keyspaceName.read staleName with
    | .error _ => []
    | .ok keyspaceName => [⟨tempPath keyspaceName, db.logger.logFilepath⟩]

namespace DB

variable {env : Env} {fs : Files} {db : DB}

theorem mem_compactions_iff {staleName : Option Bytes} {c : Compaction} :
    c ∈ db.compactions staleName ↔ ¬Log.Skips db.store (db.dirty % SIZE_MOD) ∧
      ∃ name, db.logger.keyspaceName.read staleName = .ok name ∧
        c = ⟨tempPath name, db.logger.logFilepath⟩ := by
  rw [compactions]
  split
  · next hskips => exact iff_of_false List.not_mem_nil fun h => h.1 hskips
  · next hskips =>
      rw [and_iff_right hskips]
      cases db.logger.keyspaceName.read staleName with
      | error e => simp
      | ok name => simp

/-- A shutdown notes down what it compacts, -/
theorem shutdownNoted_snd (env : Env) (fs : Files) (db : DB) :
    (db.shutdownNoted env fs).2 = db.compactions env.staleName := by
  have hnoted : (Log.compactLogNoted env (db.logger.closeLog fs).1 (db.logger.closeLog fs).2
      db.store (db.dirty % SIZE_MOD)).2 = db.compactions env.staleName := by
    rw [Log.compactLogNoted, compactions, Log.closeLog_keyspaceName, Log.closeLog_logFilepath]
    split
    · rfl
    · cases db.logger.keyspaceName.read env.staleName with
      | error e => rfl
      | ok name =>
          dsimp only
          split <;> rfl
  rw [← hnoted, shutdownNoted]
  dsimp only
  generalize Log.compactLogNoted _ _ _ _ _ = run
  obtain ⟨⟨fs', res⟩, notes⟩ := run
  cases res <;> rfl

theorem destroyNoted_snd (env : Env) (fs : Files) (db : DB) :
    (db.destroyNoted env fs).2 = db.compactions env.staleName := by
  rw [← shutdownNoted_snd env fs, destroyNoted]
  generalize db.shutdownNoted env fs = run
  obtain ⟨⟨fs', db', res⟩, notes⟩ := run
  cases res with
  | ok => rfl
  | error e => cases e <;> rfl

/-- and would do so again. -/
theorem compactions_shutdown (env : Env) (fs : Files) (db : DB) (staleName : Option Bytes) :
    (db.shutdown env fs).2.1.compactions staleName = db.compactions staleName := by
  rw [shutdown_db, compactions, compactions, Log.closeLog_keyspaceName, Log.closeLog_logFilepath]

end DB

namespace Server

/-- A switch compacts what its shutdown does, and maybe what the destructor does. -/
theorem useKeyspaceNoted_snd (env env' : Env) (s : Server) (name : Bytes) :
    ∃ more, (s.useKeyspaceNoted env env' name).2 = s.db.compactions env.staleName ++ more ∧
      (more = [] ∨ more = s.db.compactions env'.staleName) := by
  have hnoted := DB.shutdownNoted_snd env s.fs s.db
  have hold := congrArg (fun run => run.2.1) (DB.shutdownNoted_fst env s.fs s.db)
  rw [useKeyspaceNoted]
  generalize s.db.shutdownNoted env s.fs = run at hnoted hold
  obtain ⟨⟨fs, old, res⟩, notes⟩ := run
  obtain rfl : notes = s.db.compactions env.staleName := hnoted
  have hagain : old.compactions env'.staleName = s.db.compactions env'.staleName := by
    rw [show old = _ from hold, DB.compactions_shutdown]
  have hsame : ∃ more, s.db.compactions env.staleName = s.db.compactions env.staleName ++ more ∧
      (more = [] ∨ more = s.db.compactions env'.staleName) :=
    ⟨[], (List.append_nil _).symm, Or.inl rfl⟩
  cases res with
  | error e => cases e <;> exact hsame
  | ok =>
      dsimp only
      generalize DB.new env fs name = opened
      obtain ⟨fs', res⟩ := opened
      cases res with
      | error e => cases e <;> exact hsame
      | ok db =>
          have hnoted' := DB.destroyNoted_snd env' fs' old
          dsimp only
          generalize old.destroyNoted env' fs' = run' at hnoted'
          obtain ⟨⟨fs'', res⟩, notes'⟩ := run'
          have hmore : notes' = s.db.compactions env'.staleName := Eq.trans hnoted' hagain
          cases res <;> exact ⟨notes', rfl, Or.inr hmore⟩

theorem quitNoted_snd (env : Env) (s : Server) :
    (s.quitNoted env).2 = s.db.compactions env.staleName := by
  rw [← DB.shutdownNoted_snd env s.fs s.db, quitNoted]
  generalize s.db.shutdownNoted env s.fs = run
  obtain ⟨⟨fs, db, res⟩, notes⟩ := run
  cases res <;> rfl

/-- The destruction of the server compacts what the shutdown does, and maybe what the
destructor of the `DB` does. -/
theorem destroyNoted_snd (env env' : Env) (s : Server) :
    ∃ more, (s.destroyNoted env env').2 = s.db.compactions env.staleName ++ more ∧
      (more = [] ∨ more = s.db.compactions env'.staleName) := by
  have hnoted := DB.shutdownNoted_snd env s.fs s.db
  have hold := congrArg (fun run => run.2.1) (DB.shutdownNoted_fst env s.fs s.db)
  rw [destroyNoted]
  generalize s.db.shutdownNoted env s.fs = run at hnoted hold
  obtain ⟨⟨fs, db, res⟩, notes⟩ := run
  obtain rfl : notes = s.db.compactions env.staleName := hnoted
  cases res with
  | error e => cases e <;> exact ⟨[], (List.append_nil _).symm, Or.inl rfl⟩
  | ok =>
      refine ⟨_, rfl, Or.inr ?_⟩
      rw [DB.destroyNoted_snd, show db = _ from hold, DB.compactions_shutdown]

end Server

end Taproot
