import Taproot.DB
import Taproot.Tokens

/-!
# Taproot.Command

What one command does, as data: `commandRecords ts` is the list of updates that
the tokens `ts` stand for, and `DB.execute` applies them to the three parts of
a keyspace that a command can change. `parseCommand_eq` is the specification of
`DB::parseCommand` that everything else uses: it returns with that state and with
the values that a query asks for (`DB.answer`), unless it has something to append
to a closed log and the name for the message cannot be read (`DB.Executes`). The
order of the two loops in the batch branches does not show in it.
-/

namespace Taproot

open Journal

/-! ### Records -/

/-- The puts of a list `k₁ v₁ … kₙ vₙ`. -/
def pairRecords : List Bytes → List Record
  | k :: v :: items => .put k v :: pairRecords items
  | _ => []

theorem pairRecords_flatMap (pairs : List (Bytes × Bytes)) :
    pairRecords (pairs.flatMap fun p => [p.1, p.2]) = pairs.map fun p => .put p.1 p.2 := by
  induction pairs with
  | nil => rfl
  | cons p pairs ih => exact congrArg _ ih

/-- The updates that a list of tokens stands for. -/
def commandRecords : List Bytes → List Record
  | [] => []
  | op :: args =>
    if op = ascii "put" ∧ args.length = 2 then pairRecords args
    else if op = ascii "del" ∧ args.length = 1 then args.map .del
    else if op = ascii "mput" ∧ 4 ≤ args.length ∧ args.length % 2 = 0 then pairRecords args
    else if op = ascii "mdel" ∧ 2 ≤ args.length then args.map .del
    else []

/-- The updates that a run of commands stands for. -/
def runRecords (cs : List Bytes) : List Record := cs.flatMap fun c => commandRecords (tokens c)

/-- The tokens of a command that one of the four writing branches accepts. -/
def IsMutation (ts : List Bytes) : Prop :=
  ts.head? = some (ascii "put") ∧ ts.length = 3 ∨
  ts.head? = some (ascii "del") ∧ ts.length = 2 ∨
  ts.head? = some (ascii "mput") ∧ 5 ≤ ts.length ∧ ts.length % 2 ≠ 0 ∨
  ts.head? = some (ascii "mdel") ∧ 3 ≤ ts.length

instance (ts : List Bytes) : Decidable (IsMutation ts) := by
  unfold IsMutation; infer_instance

theorem commandRecords_eq_nil {ts : List Bytes} (h : ¬IsMutation ts) : commandRecords ts = [] := by
  cases ts with
  | nil => rfl
  | cons op args =>
      simp only [IsMutation, List.head?_cons, Option.some.injEq, List.length_cons, not_or] at h
      obtain ⟨hput, hdel, hmput, hmdel⟩ := h
      rw [commandRecords, if_neg fun h => hput ⟨h.1, by omega⟩,
        if_neg fun h => hdel ⟨h.1, by omega⟩,
        if_neg fun h => hmput ⟨h.1, by omega, by omega⟩,
        if_neg fun h => hmdel ⟨h.1, by omega⟩]

/-- A command that a writing branch accepts makes a record. -/
theorem commandRecords_ne_nil {ts : List Bytes} (h : IsMutation ts) : commandRecords ts ≠ [] := by
  have hpairs : ∀ args : List Bytes, 2 ≤ args.length → pairRecords args ≠ [] := by
    intro args hlen
    match args with
    | k :: v :: items => exact List.cons_ne_nil _ _
  have hdels : ∀ args : List Bytes, 1 ≤ args.length → args.map Update.del ≠ ([] : List Record) := by
    intro args hlen hnil
    rw [List.map_eq_nil_iff.mp hnil] at hlen
    exact absurd hlen (by simp)
  cases ts with
  | nil => simp [IsMutation] at h
  | cons op args =>
      simp only [IsMutation, List.head?_cons, Option.some.injEq, List.length_cons] at h
      rw [commandRecords]
      split
      · exact hpairs args (by omega)
      split
      · exact hdels args (by omega)
      split
      · exact hpairs args (by omega)
      split
      · exact hdels args (by omega)
      · next hput hdel hmput hmdel =>
          rcases h with ⟨hop, h⟩ | ⟨hop, h⟩ | ⟨hop, h⟩ | ⟨hop, h⟩
          · exact absurd ⟨hop, by omega⟩ hput
          · exact absurd ⟨hop, by omega⟩ hdel
          · exact absurd ⟨hop, by omega⟩ hmput
          · exact absurd ⟨hop, by omega⟩ hmdel

/-- The command is one of the two that log while replaying. -/
def isBatch (ts : List Bytes) : Bool :=
  ts.head? = some (ascii "mput") || ts.head? = some (ascii "mdel")

/-- The records that reach `appendCommand`. -/
def loggedRecords (replaying : Bool) (ts : List Bytes) : List Record :=
  if replaying && !isBatch ts then [] else commandRecords ts

@[simp] theorem loggedRecords_false (ts : List Bytes) :
    loggedRecords false ts = commandRecords ts := rfl

/-- The lines of a list of records. -/
def logLines (rs : List Record) : Bytes := rs.flatMap Record.line

@[simp] theorem logLines_nil : logLines [] = [] := rfl
theorem logLines_append (rs rs' : List Record) :
    logLines (rs ++ rs') = logLines rs ++ logLines rs' := List.flatMap_append

/-- Appending records one after the other. -/
def Log.appendAll (log : Log) (rs : List Record) : Log :=
  if log.logfile.isNone then log
  else { log with
    logBuffer := log.logBuffer ++ logLines rs
    appended := log.appended ++ rs }

namespace Log

theorem appendAll_of_closed {log : Log} (h : log.logfile = none) (rs : List Record) :
    log.appendAll rs = log := by simp [appendAll, h]

theorem appendAll_of_open {log : Log} {i : Posix.Ino} (h : log.logfile = some i)
    (rs : List Record) :
    log.appendAll rs = { log with
      logBuffer := log.logBuffer ++ logLines rs, appended := log.appended ++ rs } := by
  simp [appendAll, h]

@[simp] theorem appendAll_nil (log : Log) : log.appendAll [] = log := by
  simp [appendAll]

theorem appendAll_appendAll (log : Log) (rs rs' : List Record) :
    (log.appendAll rs).appendAll rs' = log.appendAll (rs ++ rs') := by
  cases h : log.logfile with
  | none => simp [appendAll, h]
  | some i => simp [appendAll, h, logLines_append]

@[simp] theorem appendAll_keyspaceName (log : Log) (rs : List Record) :
    (log.appendAll rs).keyspaceName = log.keyspaceName := by unfold appendAll; split <;> rfl
@[simp] theorem appendAll_logFilepath (log : Log) (rs : List Record) :
    (log.appendAll rs).logFilepath = log.logFilepath := by unfold appendAll; split <;> rfl
@[simp] theorem appendAll_dbFilepath (log : Log) (rs : List Record) :
    (log.appendAll rs).dbFilepath = log.dbFilepath := by unfold appendAll; split <;> rfl
@[simp] theorem appendAll_logfile (log : Log) (rs : List Record) :
    (log.appendAll rs).logfile = log.logfile := by unfold appendAll; split <;> rfl
@[simp] theorem appendAll_flushThread (log : Log) (rs : List Record) :
    (log.appendAll rs).flushThread = log.flushThread := by unfold appendAll; split <;> rfl

/-- `appendCommand` comes back: the log is open, or its name can be read for the message
that it is not. -/
def Appends (staleName : Option Bytes) (log : Log) : Prop :=
  log.logfile.isSome = true ∨ (log.keyspaceName.read staleName).isOk = true

instance (staleName : Option Bytes) (log : Log) : Decidable (log.Appends staleName) := by
  unfold Appends; infer_instance

theorem appends_of_bound {log : Log} {name : Bytes} (h : log.keyspaceName = .bound name)
    (staleName : Option Bytes) : log.Appends staleName := by
  rw [Appends, h]
  exact Or.inr rfl

@[simp] theorem appendAll_appends (staleName : Option Bytes) (log : Log) (rs : List Record) :
    (log.appendAll rs).Appends staleName ↔ log.Appends staleName := by simp [Appends]

variable {staleName : Option Bytes} {log : Log}

/-- With a closed log, the message is all that is made. -/
theorem appendCommand_of_closed (h : log.Appends staleName) (hclosed : log.logfile = none)
    (op : Ops) (k v : Bytes) : log.appendCommand staleName op k v = .ok log := by
  rw [Appends, hclosed] at h
  unfold appendCommand
  rw [if_pos (by rw [hclosed]; rfl)]
  cases hread : log.keyspaceName.read staleName with
  | ok name => rfl
  | error e =>
      rw [hread] at h
      exact absurd h (by simp [Except.isOk, Except.toBool])

theorem appendCommand_put (h : log.Appends staleName) (k v : Bytes) :
    log.appendCommand staleName .PUT k v = .ok (log.appendAll [.put k v]) := by
  cases hopen : log.logfile with
  | none => rw [appendCommand_of_closed h hopen, appendAll_of_closed hopen]
  | some i => simp [appendCommand, appendAll, hopen, logLines, Record.line]

theorem appendCommand_del (h : log.Appends staleName) (k v : Bytes) :
    log.appendCommand staleName .DEL k v = .ok (log.appendAll [.del k]) := by
  cases hopen : log.logfile with
  | none => rw [appendCommand_of_closed h hopen, appendAll_of_closed hopen]
  | some i => simp [appendCommand, appendAll, hopen, logLines, Record.line]

/-- What is read for the message is gone. -/
theorem appendCommand_of_not_appends (h : ¬log.Appends staleName) (op : Ops) (k v : Bytes) :
    log.appendCommand staleName op k v = .error .undefinedBehaviour := by
  obtain ⟨hclosed, hread⟩ := not_or.mp h
  unfold appendCommand
  rw [if_pos (by simpa using hclosed)]
  revert hread
  cases log.keyspaceName with
  | bound name => exact fun hread => absurd rfl hread
  | dangling =>
      cases staleName with
      | some name => exact fun hread => absurd rfl hread
      | none => exact fun _ => rfl

end Log

/-! ### Applying records to the store -/

namespace DB

/-- Applying records to the map, counting the changes outside a replay. -/
def update (db : DB) (rs : List Record) : DB :=
  { db with
    store := replay db.store rs
    dirty := if db.replaying then db.dirty else db.dirty + changes db.store rs }

/-- The state after a command with the tokens `ts`. -/
def execute (db : DB) (ts : List Bytes) : DB :=
  { db.update (commandRecords ts) with
    logger := db.logger.appendAll (loggedRecords db.replaying ts) }

@[simp] theorem update_logger (db : DB) (rs : List Record) :
    (db.update rs).logger = db.logger := rfl
@[simp] theorem update_replaying (db : DB) (rs : List Record) :
    (db.update rs).replaying = db.replaying := rfl

@[simp] theorem update_nil (db : DB) : db.update [] = db := by
  simp [update]

theorem update_update (db : DB) (rs rs' : List Record) :
    (db.update rs).update rs' = db.update (rs ++ rs') := by
  cases h : db.replaying <;> simp [update, h, replay_append, changes_append, Nat.add_assoc]

theorem put_eq (db : DB) (k v : Bytes) : db.put k v = db.update [.put k v] := by
  simp [put, update, changes]

theorem del_fst (db : DB) (k : Bytes) : (db.del k).1 = db.update [.del k] := by
  unfold del update
  split
  · next h => simp [changes, h]
  · next h => simp [changes, h, erase_eq_self h]

theorem mput_eq {items : List Bytes} (h : items.length % 2 = 0) (db : DB) :
    db.mput items = .ok (db.update (pairRecords items)) := by
  fun_induction pairRecords items generalizing db with
  | case1 k v items ih =>
      have hitems : items.length % 2 = 0 := by
        rw [List.length_cons, List.length_cons] at h
        omega
      rw [mput, put_eq, ih hitems, update_update]
      rfl
  | case2 items hne =>
      -- an odd list is excluded by its length
      match items, hne with
      | [], _ => rw [update_nil]; rfl
      | [x], _ => exact absurd h (by simp)
      | k :: v :: items, hne => exact absurd rfl (hne k v items)

theorem mdel_fst (db : DB) (keys : List Bytes) :
    (db.mdel keys).1 = db.update (keys.map .del) := by
  have hloop : ∀ (status : Bool) (db : DB),
      (keys.foldl (fun (p : DB × Bool) key =>
        ((p.1.del key).1, if (p.1.del key).2 then p.2 else false)) (db, status)).1 =
          db.update (keys.map .del) := by
    induction keys with
    | nil => intro status db; simp
    | cons k keys ih =>
        intro status db
        rw [List.foldl_cons, ih, List.map_cons, del_fst, update_update]
        rfl
  exact hloop true db

/-! ### The loops of the batch branches -/

theorem substr_mput : substr (ascii "mput") 1 (SIZE_MOD - 1) = .ok (ascii "put") := by decide
theorem substr_mdel : substr (ascii "mdel") 1 (SIZE_MOD - 1) = .ok (ascii "del") := by decide

variable {staleName : Option Bytes}

theorem logPairs_eq {args : List Bytes} (h : args.length % 2 = 0) {logger : Log}
    (happends : logger.Appends staleName) (items : List Bytes) :
    logPairs staleName logger (ascii "mput") items args =
      .ok (logger.appendAll (pairRecords args), items ++ args) := by
  fun_induction pairRecords args generalizing logger items with
  | case1 k v args ih =>
      have hargs : args.length % 2 = 0 := by
        rw [List.length_cons, List.length_cons] at h
        omega
      rw [logPairs, substr_mput, ok_bind, convertStr_put, ok_bind,
        Log.appendCommand_put happends, ok_bind,
        ih hargs ((Log.appendAll_appends ..).mpr happends), Log.appendAll_appendAll]
      simp
  | case2 args hne =>
      match args, hne with
      | [], _ => simp [logPairs]
      | [x], _ => exact absurd h (by simp)
      | k :: v :: args, hne => exact absurd rfl (hne k v args)

theorem logPairs_of_not_appends {logger : Log} (happends : ¬logger.Appends staleName)
    (items : List Bytes) (k v : Bytes) (args : List Bytes) :
    logPairs staleName logger (ascii "mput") items (k :: v :: args) =
      .error .undefinedBehaviour := by
  rw [logPairs, substr_mput, ok_bind, convertStr_put, ok_bind,
    Log.appendCommand_of_not_appends happends]
  rfl

theorem logKeys_eq (args : List Bytes) {logger : Log} (happends : logger.Appends staleName)
    (keys : List Bytes) : logKeys staleName logger (ascii "mdel") keys args =
      .ok (logger.appendAll (args.map .del), keys ++ args) := by
  induction args generalizing logger keys with
  | nil => simp [logKeys]
  | cons k args ih =>
      rw [logKeys, substr_mdel, ok_bind, convertStr_del, ok_bind,
        Log.appendCommand_del happends, ok_bind, ih ((Log.appendAll_appends ..).mpr happends),
        Log.appendAll_appendAll]
      simp

theorem logKeys_of_not_appends {logger : Log} (happends : ¬logger.Appends staleName)
    (keys : List Bytes) (k : Bytes) (args : List Bytes) :
    logKeys staleName logger (ascii "mdel") keys (k :: args) = .error .undefinedBehaviour := by
  rw [logKeys, substr_mdel, ok_bind, convertStr_del, ok_bind,
    Log.appendCommand_of_not_appends happends]
  rfl

/-! ### The specification of `parseCommand` -/

theorem tokens_eq_nil_of_blank {command : Bytes}
    (h : command.length = 0 ∨ isAllSpace command = true) : tokens command = [] := by
  have hall : ∀ c ∈ command, isspace c = true := by
    rcases h with h | h
    · rw [List.eq_nil_of_length_eq_zero h]
      exact fun c hc => absurd hc List.not_mem_nil
    · simpa [isAllSpace] using h
  have hwords : words command = [] := Words.words_eq_nil_iff.mpr hall
  rw [tokens, hwords]
  rfl

/-- A command that is not blank has a first token. -/
theorem tokens_ne_nil {command : Bytes}
    (h : ¬(command.length = 0 ∨ isAllSpace command = true)) : tokens command ≠ [] := by
  intro hnil
  have hwords : words command ≠ [] := by
    intro hw
    have hall := Words.words_eq_nil_iff.mp hw
    exact h (Or.inr (by simpa [isAllSpace] using hall))
  obtain ⟨w, ws, hws⟩ := List.exists_cons_of_ne_nil hwords
  have hsome : ∀ (ws : List Bytes) (b : Bytes), group (some b) ws ≠ [] := by
    intro ws
    induction ws with
    | nil => intro b; simp [group]
    | cons x ws ih => intro b; rw [group]; split <;> simp [ih]
  rw [tokens, hws, group] at hnil
  split at hnil
  · split at hnil
    · exact absurd hnil (by simp)
    · exact hsome ws w hnil
  · exact absurd hnil (by simp)

/-- What a command with the tokens `ts` is answered with: the values of the keys
that it asks for, as far as there are any. -/
def answer (db : DB) : List Bytes → List Bytes
  | [] => []
  | op :: args =>
    if op = ascii "get" ∧ args.length = 1 ∨ op = ascii "mget" ∧ 2 ≤ args.length then
      args.filterMap db.get
    else []

/-- A command that is answered changes nothing. -/
theorem records_nil_of_answer {db : DB} {ts : List Bytes} (h : db.answer ts ≠ []) :
    commandRecords ts = [] := by
  cases ts with
  | nil => rfl
  | cons op args =>
      rw [answer] at h
      split at h
      · next hquery =>
          refine commandRecords_eq_nil fun hmutation => ?_
          simp only [IsMutation, List.head?_cons, Option.some.injEq] at hmutation
          rcases hquery with ⟨rfl, -⟩ | ⟨rfl, -⟩
          · exact absurd hmutation (by simp [ascii])
          · exact absurd hmutation (by simp [ascii])
      · exact absurd rfl h

theorem execute_of_records_nil {ts : List Bytes} (h : commandRecords ts = []) (db : DB) :
    db.execute ts = db := by
  simp [execute, h, loggedRecords]

/-- The command has nothing to append, or its appends come back. -/
def Executes (staleName : Option Bytes) (db : DB) (ts : List Bytes) : Prop :=
  db.logger.Appends staleName ∨ loggedRecords db.replaying ts = []

instance (staleName : Option Bytes) (db : DB) (ts : List Bytes) :
    Decidable (db.Executes staleName ts) := by unfold Executes; infer_instance

theorem executes_of_appends {staleName : Option Bytes} {db : DB}
    (h : db.logger.Appends staleName) (ts : List Bytes) : db.Executes staleName ts := Or.inl h

theorem executes_of_records_nil {ts : List Bytes} (h : commandRecords ts = [])
    (staleName : Option Bytes) (db : DB) : db.Executes staleName ts :=
  Or.inr (by rw [loggedRecords, h, ite_self])

/-- **What `parseCommand` does**, for every command and state: what it leaves is
what `execute` says, and its result is the `answer`, unless an append does not come
back. -/
theorem parseCommand_eq_ite (staleName : Option Bytes) (db : DB) (command : Bytes) :
    db.parseCommand staleName command =
      if db.Executes staleName (tokens command) then
        .ok (db.execute (tokens command), db.answer (tokens command))
      else .error .undefinedBehaviour := by
  by_cases hblank : command.length = 0 ∨ isAllSpace command = true
  · rw [parseCommand, if_pos hblank, tokens_eq_nil_of_blank hblank,
      if_pos (executes_of_records_nil rfl _ _), execute_of_records_nil rfl]
    rfl
  · obtain ⟨op, args, hts⟩ := List.exists_cons_of_ne_nil (tokens_ne_nil hblank)
    simp only [parseCommand, if_neg hblank, tokenize_eq, ok_bind, hts, subscript_cons_zero,
      List.length_cons, List.drop_one, List.tail_cons, pure_eq_ok, isReplaying]
    split
    -- `put`: the store first; no record while a log is replayed
    · next h =>
        obtain ⟨rfl, hlen⟩ := h
        obtain ⟨k, v, rfl⟩ := List.length_eq_two.mp (Nat.succ.inj hlen)
        have hrecords : commandRecords [ascii "put", k, v] = [.put k v] := rfl
        have hbatch : isBatch [ascii "put", k, v] = false := rfl
        have hanswer : db.answer [ascii "put", k, v] = [] := rfl
        simp only [subscript_cons_succ, subscript_cons_zero, ok_bind, put_eq, convertStr_put,
          update_logger, update_replaying, hanswer]
        cases hr : db.replaying with
        | true => simp [execute, Executes, update, loggedRecords, hbatch, hrecords, hr]
        | false =>
            by_cases happends : db.logger.Appends staleName
            · rw [if_pos (executes_of_appends happends _), Log.appendCommand_put happends]
              simp [execute, hrecords, hr]
            · have hstuck : ¬db.Executes staleName [ascii "put", k, v] := by
                simp [Executes, happends, hr, hrecords]
              rw [if_neg hstuck, Log.appendCommand_of_not_appends happends]
              rfl
    split
    -- `del`: as `put`, whether or not the key is there
    · next h =>
        obtain ⟨rfl, hlen⟩ := h
        obtain ⟨k, rfl⟩ := List.length_eq_one_iff.mp (Nat.succ.inj hlen)
        have hrecords : commandRecords [ascii "del", k] = [.del k] := rfl
        have hbatch : isBatch [ascii "del", k] = false := rfl
        have hanswer : db.answer [ascii "del", k] = [] := rfl
        simp only [subscript_cons_succ, subscript_cons_zero, ok_bind, del_fst, convertStr_del,
          update_logger, update_replaying, hanswer]
        cases hr : db.replaying with
        | true => simp [execute, Executes, update, loggedRecords, hbatch, hrecords, hr]
        | false =>
            by_cases happends : db.logger.Appends staleName
            · rw [if_pos (executes_of_appends happends _), Log.appendCommand_del happends]
              simp [execute, hrecords, hr]
            · have hstuck : ¬db.Executes staleName [ascii "del", k] := by
                simp [Executes, happends, hr, hrecords]
              rw [if_neg hstuck, Log.appendCommand_of_not_appends happends]
              rfl
    next hput hdel =>
    have hput' : ¬(op = ascii "put" ∧ args.length = 2) := fun h => hput ⟨h.1, by omega⟩
    have hdel' : ¬(op = ascii "del" ∧ args.length = 1) := fun h => hdel ⟨h.1, by omega⟩
    split
    -- `get`: nothing changes
    · next h =>
        obtain ⟨rfl, hlen⟩ := h
        obtain ⟨k, rfl⟩ := List.length_eq_one_iff.mp (Nat.succ.inj hlen)
        have hanswer : db.answer [ascii "get", k] = [k].filterMap db.get := rfl
        rw [if_pos (executes_of_records_nil rfl _ _), execute_of_records_nil rfl, hanswer,
          subscript_cons_succ, subscript_cons_zero, ok_bind]
        cases hget : db.get k <;> simp [hget]
    next hget =>
    split
    -- `mput`: every record is appended before the store changes, replaying or not
    · next h =>
        obtain ⟨rfl, hlen, hodd⟩ := h
        have heven : args.length % 2 = 0 := by omega
        have hrecords : commandRecords (ascii "mput" :: args) = pairRecords args := by
          rw [commandRecords, if_neg hput', if_neg hdel', if_pos ⟨rfl, by omega, heven⟩]
        have hbatch : isBatch (ascii "mput" :: args) = true := rfl
        have hanswer : db.answer (ascii "mput" :: args) = [] := rfl
        by_cases happends : db.logger.Appends staleName
        · rw [if_pos (executes_of_appends happends _), logPairs_eq heven happends, ok_bind,
            List.nil_append, mput_eq heven, ok_bind, hanswer]
          simp [execute, update, loggedRecords, hbatch, hrecords]
        · have hargs : 0 < args.length := by omega
          obtain ⟨k, rest, rfl⟩ := List.exists_cons_of_length_pos hargs
          have hrest : 0 < rest.length := by
            rw [List.length_cons] at hlen
            omega
          obtain ⟨v, rest, rfl⟩ := List.exists_cons_of_length_pos hrest
          rw [logPairs_of_not_appends happends, if_neg]
          · rfl
          · simp [Executes, happends, loggedRecords, hbatch, hrecords, pairRecords]
    next hmput =>
    have hmput' : ¬(op = ascii "mput" ∧ 4 ≤ args.length ∧ args.length % 2 = 0) :=
      fun h => hmput ⟨h.1, by omega, by omega⟩
    split
    -- `mdel`: as `mput`
    · next h =>
        obtain ⟨rfl, hlen⟩ := h
        have hrecords : commandRecords (ascii "mdel" :: args) = args.map .del := by
          rw [commandRecords, if_neg hput', if_neg hdel', if_neg hmput', if_pos ⟨rfl, by omega⟩]
        have hbatch : isBatch (ascii "mdel" :: args) = true := rfl
        have hanswer : db.answer (ascii "mdel" :: args) = [] := rfl
        by_cases happends : db.logger.Appends staleName
        · rw [if_pos (executes_of_appends happends _), logKeys_eq args happends, ok_bind,
            List.nil_append, mdel_fst, hanswer]
          simp [execute, update, loggedRecords, hbatch, hrecords]
        · have hargs : 0 < args.length := by omega
          obtain ⟨k, rest, rfl⟩ := List.exists_cons_of_length_pos hargs
          rw [logKeys_of_not_appends happends, if_neg]
          · rfl
          · simp [Executes, happends, loggedRecords, hbatch, hrecords]
    next hmdel =>
    -- `mget`, or a command that is not accepted: nothing changes
    have hrecords : commandRecords (op :: args) = [] := by
      rw [commandRecords, if_neg hput', if_neg hdel', if_neg hmput',
        if_neg fun h => hmdel ⟨h.1, by omega⟩]
    rw [if_pos (executes_of_records_nil hrecords _ _), execute_of_records_nil hrecords, answer]
    split
    · next h =>
        rw [if_pos (Or.inr ⟨h.1, by omega⟩), mget, List.filterMap_map]
        rfl
    · next hmget =>
        rw [if_neg]
        rintro (h | h)
        · exact hget ⟨h.1, by omega⟩
        · exact hmget ⟨h.1, by omega⟩

theorem parseCommand_eq {staleName : Option Bytes} {db : DB} {command : Bytes}
    (h : db.Executes staleName (tokens command)) : db.parseCommand staleName command =
      .ok (db.execute (tokens command), db.answer (tokens command)) := by
  rw [parseCommand_eq_ite, if_pos h]

theorem parseCommand_of_not_executes {staleName : Option Bytes} {db : DB} {command : Bytes}
    (h : ¬db.Executes staleName (tokens command)) :
    db.parseCommand staleName command = .error .undefinedBehaviour := by
  rw [parseCommand_eq_ite, if_neg h]

/-- **When `parseCommand` is total**: every line is tokenized, into no tokens exactly if
it is blank, and no command throws or reads past its tokens. What keeps one from
returning is the message about a closed log, which reads a name that may be gone. -/
theorem parseCommand_total_iff (db : DB) (command : Bytes) :
    ((∃ ts, tokenize command = .ok ts ∧
        (ts = [] ↔ command.length = 0 ∨ isAllSpace command = true)) ∧
      ∀ staleName, ∃ db' res, db.parseCommand staleName command = .ok (db', res)) ↔
    db.logger.logfile.isSome = true ∨ (∃ name, db.logger.keyspaceName = .bound name) ∨
      ¬IsMutation (tokens command) ∨
      db.isReplaying = true ∧ isBatch (tokens command) = false := by
  have htokens : ∃ ts, tokenize command = .ok ts ∧
      (ts = [] ↔ command.length = 0 ∨ isAllSpace command = true) := by
    refine ⟨tokens command, tokenize_eq command, fun hnil => ?_, tokens_eq_nil_of_blank⟩
    by_contra hblank
    exact tokens_ne_nil hblank hnil
  have hlogged : loggedRecords db.replaying (tokens command) = [] ↔
      ¬IsMutation (tokens command) ∨
        db.isReplaying = true ∧ isBatch (tokens command) = false := by
    rw [loggedRecords, isReplaying]
    split
    · next hsilent => exact iff_of_true rfl (Or.inr (by simpa using hsilent))
    · next hsilent =>
        rw [or_iff_left (by simpa using hsilent)]
        exact ⟨fun hnil hmutation => commandRecords_ne_nil hmutation hnil, commandRecords_eq_nil⟩
  rw [and_iff_right htokens, ← hlogged]
  constructor
  · intro hreturns
    -- a read that does not come back is the only way not to return
    obtain ⟨db', res, hparse⟩ := hreturns none
    by_contra hcut
    obtain ⟨hclosed, hcut⟩ := not_or.mp hcut
    obtain ⟨hgone, hlogs⟩ := not_or.mp hcut
    have hread : ¬(db.logger.keyspaceName.read none).isOk = true := by
      cases hname : db.logger.keyspaceName with
      | bound name => exact absurd ⟨name, hname⟩ hgone
      | dangling => exact Bool.false_ne_true
    have hstuck : ¬db.Executes none (tokens command) :=
      not_or.mpr ⟨not_or.mpr ⟨hclosed, hread⟩, hlogs⟩
    rw [parseCommand_of_not_executes hstuck] at hparse
    exact absurd hparse (by simp)
  · intro h staleName
    refine ⟨_, _, parseCommand_eq ?_⟩
    rcases h with hopen | ⟨name, hname⟩ | hlogs
    · exact Or.inl (Or.inl hopen)
    · exact Or.inl (Log.appends_of_bound hname staleName)
    · exact Or.inr hlogs

/-- A keyspace that was opened by `use` and whose log was closed by a `use` that failed. -/
theorem not_parseCommand_total :
    parseCommand none ⟨∅, ascii "b", { (Log.opened (ascii "b") 0) with
        keyspaceName := .dangling, logfile := none, flushThread := false, stopFlushThread := true,
        fileDescriptor := none }, false, 0⟩ (ascii "put k 1") = .error .undefinedBehaviour :=
  parseCommand_of_not_executes (by decide)

/-! ### Runs of commands -/

/-- Executing commands one after the other. -/
def runCommands (staleName : Option Bytes) (db : DB) (cs : List Bytes) : Except Fault DB :=
  cs.foldlM (fun db c => do
    let (db, _) ← parseCommand staleName db c
    return db) db

/-- Outside a replay, a command updates the store and appends the same records. -/
theorem execute_eq {db : DB} (hreplaying : db.replaying = false) (ts : List Bytes) :
    db.execute ts =
      { db.update (commandRecords ts) with logger := db.logger.appendAll (commandRecords ts) } := by
  rw [execute, hreplaying, loggedRecords_false]

/-- Outside a replay, token lists that are executed one after the other update the
store and append the same records, in their order. -/
theorem foldl_execute {db : DB} (hreplaying : db.replaying = false) (tss : List (List Bytes)) :
    tss.foldl execute db =
      { db.update (tss.flatMap commandRecords) with
        logger := db.logger.appendAll (tss.flatMap commandRecords) } := by
  induction tss generalizing db with
  | nil => simp
  | cons ts tss ih =>
      have hkept : (db.execute ts).replaying = false := hreplaying
      rw [List.foldl_cons, ih hkept, execute_eq hreplaying, Log.appendAll_appendAll,
        List.flatMap_cons]
      have hupdate := update_update db (commandRecords ts) (tss.flatMap commandRecords)
      rw [← hupdate]
      rfl

theorem execute_appends {staleName : Option Bytes} {db : DB} (h : db.logger.Appends staleName)
    (ts : List Bytes) : (db.execute ts).logger.Appends staleName :=
  (Log.appendAll_appends ..).mpr h

theorem runCommands_foldl {staleName : Option Bytes} {db : DB}
    (happends : db.logger.Appends staleName) (cs : List Bytes) :
    db.runCommands staleName cs = .ok ((cs.map tokens).foldl execute db) := by
  induction cs generalizing db with
  | nil => rfl
  | cons c cs ih =>
      rw [runCommands, List.foldlM_cons, parseCommand_eq (executes_of_appends happends _)]
      exact ih (execute_appends happends _)

theorem runCommands_of_records_nil {staleName : Option Bytes} {db : DB} {cs : List Bytes}
    (h : runRecords cs = []) : db.runCommands staleName cs = .ok db := by
  induction cs with
  | nil => rfl
  | cons c cs ih =>
      obtain ⟨hc, hcs⟩ := List.append_eq_nil_iff.mp
        (show commandRecords (tokens c) ++ runRecords cs = [] from h)
      rw [runCommands, List.foldlM_cons, parseCommand_eq (executes_of_records_nil hc _ _),
        execute_of_records_nil hc]
      exact ih hcs

/-- A run returns, and its updates are appended in the order of the commands. -/
theorem runCommands_eq {staleName : Option Bytes} {db : DB} {cs : List Bytes}
    (h : db.logger.Appends staleName ∨ runRecords cs = []) (hreplaying : db.replaying = false) :
    db.runCommands staleName cs =
      .ok { db.update (runRecords cs) with logger := db.logger.appendAll (runRecords cs) } := by
  rcases h with happends | hnil
  · rw [runCommands_foldl happends, foldl_execute hreplaying, List.flatMap_map]
    rfl
  · rw [runCommands_of_records_nil hnil, hnil, update_nil, Log.appendAll_nil]

/-- **Every state change is mirrored in the log.** A run of commands on a
keyspace that is not replaying and whose log is open appends records whose
replay over the first store is the last one, and `dirty` counts the records
that changed something. A command that no writing branch accepts changes
nothing at all. -/
theorem runCommands_mirrored (staleName : Option Bytes) (db : DB) (cs : List Bytes)
    (hreplaying : db.isReplaying = false) (hopen : db.logger.logfile.isSome = true) :
    ∃ db' rs, db.runCommands staleName cs = .ok db' ∧
      db'.logger.appended = db.logger.appended ++ rs ∧
      db'.logger.logBuffer = db.logger.logBuffer ++ logLines rs ∧
      db'.store = replay db.store rs ∧
      db'.dirty = db.dirty + changes db.store rs ∧
      ∀ c, ¬IsMutation (tokens c) → ∃ res, db.parseCommand staleName c = .ok (db, res) := by
  obtain ⟨i, hi⟩ := Option.isSome_iff_exists.mp hopen
  have hfalse : db.replaying = false := hreplaying
  refine ⟨_, runRecords cs, runCommands_eq (Or.inl (Or.inl hopen)) hfalse, ?_, ?_, rfl, ?_,
    fun c hc => ?_⟩
  · rw [Log.appendAll_of_open hi]
  · rw [Log.appendAll_of_open hi]
  · show (if db.replaying then db.dirty else _) = _
    rw [hfalse, if_neg Bool.false_ne_true]
  · have hsilent := commandRecords_eq_nil hc
    exact ⟨_, by
      rw [parseCommand_eq (executes_of_records_nil hsilent _ _), execute_of_records_nil hsilent]⟩

theorem runCommands_mirrored_opened :
    ∃ db', runCommands none ⟨∅, ascii "a", Log.opened (ascii "a") 0, false, 0⟩
        [ascii "mput k 1 k 2", ascii "get k", ascii "mdel k k"] = .ok db' ∧
      db'.store = replay ∅ db'.logger.appended ∧ db'.dirty = changes ∅ db'.logger.appended := by
  obtain ⟨db', rs, hrun, happended, -, hstore, hdirty, -⟩ :=
    runCommands_mirrored none ⟨∅, ascii "a", Log.opened (ascii "a") 0, false, 0⟩
      [ascii "mput k 1 k 2", ascii "get k", ascii "mdel k k"] rfl rfl
  rw [show (Log.opened (ascii "a") 0).appended = [] from rfl, List.nil_append] at happended
  refine ⟨db', hrun, ?_, ?_⟩
  · rw [hstore, happended]
  · rw [hdirty, happended, Nat.zero_add]

end DB

end Taproot
