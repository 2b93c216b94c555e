import Taproot.Command

/-!
# Taproot.Loading

What constructing a `DB` leaves. The loop of `loadFromLog` is a fold of
`execute` with the flag raised for each line, so the store is the replay of the
updates that the lines of the file stand for (`new_eq`). Two things besides the
store depend on the file: the batch commands in it are appended to the log once
more, and the flag is lowered only if there is a line.
-/

namespace Taproot

open Posix Journal

namespace DB

/-- The records that are appended while the lines are replayed. -/
def replayedRecords (lines : List Bytes) : List Record :=
  lines.flatMap fun line => loggedRecords true (tokens line)

/-- Replaying appends nothing exactly if no line is a batch command that is
accepted. -/
theorem replayedRecords_eq_nil_iff {lines : List Bytes} : replayedRecords lines = [] ↔
    ∀ line ∈ lines, isBatch (tokens line) = true → ¬IsMutation (tokens line) := by
  rw [replayedRecords, List.flatMap_eq_nil_iff]
  refine forall₂_congr fun line _ => ?_
  cases hbatch : isBatch (tokens line) with
  | false => simp [loggedRecords, hbatch]
  | true =>
      rw [loggedRecords, hbatch, Bool.not_true, Bool.and_false, if_neg Bool.false_ne_true]
      exact ⟨fun hnil _ h => commandRecords_ne_nil h hnil, fun h => commandRecords_eq_nil (h rfl)⟩

/-- The keyspace after its constructor, opened on the file `i` with `content`. -/
def loaded (env : Env) (name : Bytes) (i : Ino) (content : Bytes) : DB where
  store := replay ∅ (runRecords (getlines content))
  name := name
  logger := (Log.opened name i).appendAll (replayedRecords (getlines content))
  replaying := if getlines content = [] then env.replaying else false
  dirty := 0

variable {staleName : Option Bytes}

theorem replayLine_eq {db : DB} (happends : db.logger.Appends staleName) (line : Bytes) :
    replayLine staleName db line = .ok { db with
      store := replay db.store (commandRecords (tokens line))
      logger := db.logger.appendAll (loggedRecords true (tokens line))
      replaying := false } := by
  have hreplaying : ({ db with replaying := true } : DB).logger.Appends staleName := happends
  -- the flag goes up for the command and down again
  rw [replayLine, parseCommand_eq (executes_of_appends hreplaying _)]
  rfl

theorem foldlM_replayLine {db : DB} (happends : db.logger.Appends staleName)
    (lines : List Bytes) : lines.foldlM (replayLine staleName) db = .ok { db with
      store := replay db.store (runRecords lines)
      logger := db.logger.appendAll (replayedRecords lines)
      replaying := if lines = [] then db.replaying else false } := by
  induction lines generalizing db with
  | nil => simp [runRecords, replayedRecords]
  | cons line lines ih =>
      rw [List.foldlM_cons, replayLine_eq happends, ok_bind,
        ih ((Log.appendAll_appends ..).mpr happends), Log.appendAll_appendAll, ← replay_append]
      simp [runRecords, replayedRecords]

theorem loadFromLog_eq {fs : Files} {db : DB} {content : Bytes}
    (happends : db.logger.Appends staleName)
    (hread : fs.read (aofPath db.name) = some content) (hstore : db.store = ∅) :
    loadFromLog staleName fs db = .ok { db with
      store := replay db.store (runRecords (getlines content))
      logger := db.logger.appendAll (replayedRecords (getlines content))
      replaying := if getlines content = [] then db.replaying else false } := by
  rw [loadFromLog, hread, ← foldlM_replayLine happends]
  exact if_pos hstore

/-- **What the constructor leaves**, when the path of the log can be opened. -/
theorem new_eq {fs : Files} {name a : Bytes} (env : Env)
    (hp : fs.resolve (aofPath name) = some a) :
    ∃ i, (fs.openAppend (aofPath name)).2 = some i ∧
      DB.new env fs name = ((fs.openAppend (aofPath name)).1,
        .ok (loaded env name i ((fs.read (aofPath name)).getD []))) := by
  obtain ⟨i, hi⟩ : ∃ i, (fs.openAppend (aofPath name)).2 = some i :=
    Option.isSome_iff_exists.mp ((FS.openAppend_isSome_iff fs _).mpr (by simp [hp]))
  refine ⟨i, hi, ?_⟩
  obtain ⟨fs', hfs⟩ : ∃ fs', fs.openAppend (aofPath name) = (fs', some i) := ⟨_, Prod.ext rfl hi⟩
  have hread : fs'.read (aofPath name) = some ((fs.read (aofPath name)).getD []) := by
    have := FS.read_openAppend hp
    rwa [hfs] at this
  rw [new, Log.new, hfs]
  have happends : (unloaded env name (Log.opened name i)).logger.Appends env.staleName :=
    Log.appends_of_bound rfl _
  exact congrArg (Prod.mk fs') (loadFromLog_eq happends hread rfl)

/-- A log that cannot be opened makes the constructor throw, and touches nothing. -/
theorem new_eq_error {fs : Files} {name : Bytes} (env : Env)
    (hp : fs.resolve (aofPath name) = none) :
    DB.new env fs name =
      (fs, .error (.exception (ascii "Failed to open log file descriptor."))) := by
  rw [new, Log.new, FS.openAppend_eq_none hp]

/-- Nothing else makes it throw. -/
theorem new_error {env : Env} {fs : Files} {name : Bytes} {e : Fault}
    (h : (DB.new env fs name).2 = .error e) :
    e = .exception (ascii "Failed to open log file descriptor.") := by
  cases hp : fs.resolve (aofPath name) with
  | none =>
      rw [DB.new_eq_error env hp] at h
      exact (Except.error.inj h).symm
  | some a =>
      obtain ⟨i, -, hnew⟩ := DB.new_eq env hp
      rw [hnew] at h
      exact absurd h (by simp)

end DB

end Taproot
