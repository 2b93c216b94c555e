import Taproot.Log

/-!
# Taproot.DB

`db.cpp`: the in-memory store of a keyspace, its commands, and how it is loaded
from and shut down to its files.

`dirty` is a `size_t`. The model counts without wrap-around and reduces the
count where it is read, in `shutdown`.
-/

namespace Taproot

open Posix Journal

/-- `DB`. -/
structure DB where
  store : Store
  name : Bytes
  logger : Log
  replaying : Bool
  dirty : Nat

namespace DB

/-! ### Base functionality -/

/-- `DB::put`. -/
def put (db : DB) (key value : Bytes) : DB :=
  { db with
    store := db.store.insert key value
    dirty := if db.replaying then db.dirty else db.dirty + 1 }

/-- `DB::del`. -/
def del (db : DB) (key : Bytes) : DB × Bool :=
  if key ∈ db.store then
    ({ db with
      store := db.store.erase key
      dirty := if db.replaying then db.dirty else db.dirty + 1 }, true)
  else
    (db, false)

/-- `DB::get`. -/
def get (db : DB) (key : Bytes) : Option Bytes := db.store.lookup key

/-- `DB::mput`: two items at a time, so a last item of its own is read past. -/
def mput (db : DB) : List Bytes → Except Fault DB
  | [] => .ok db
  | [_] => .error .undefinedBehaviour
  | key :: value :: items => (db.put key value).mput items

/-- `DB::mdel`. -/
def mdel (db : DB) (keys : List Bytes) : DB × Bool :=
  keys.foldl
    (fun (db, status) key =>
      let (db, found) := db.del key
      (db, if found then status else false))
    (db, true)

/-- `DB::mget`. -/
def mget (db : DB) (keys : List Bytes) : List (Option Bytes) := keys.map db.get

/-- `DB::isReplaying`. -/
def isReplaying (db : DB) : Bool := db.replaying

/-- `DB::clearData`: wipe the map and both files. -/
def clearData (fs : Files) (db : DB) : Files × DB :=
  let (fs, _) := fs.openTrunc db.logger.logFilepath
  let (fs, _) := fs.openTrunc db.logger.dbFilepath
  (fs, { db with store := ∅ })

/-! ### Console print -/

/-- The frame around every display. -/
def framed (body : Bytes) : Bytes :=
  ascii "\n============\n" ++ body ++ ascii "============\n"

/-- `DB::display`. -/
def display (env : Env) (db : DB) : Bytes :=
  framed (ascii "| Key-values for keyspace: '" ++ db.name ++ ascii "'\n" ++
    (env.iteration.entries db.store).flatMap fun item =>
      item.1 ++ ascii ": " ++ item.2 ++ ascii "\n")

/-- `DB::displayKeys`. -/
def displayKeys (env : Env) (db : DB) : Bytes :=
  framed (ascii "| Keys for keyspace: '" ++ db.name ++ ascii "'\n" ++
    (env.iteration.entries db.store).flatMap fun item => item.1 ++ ascii "\n")

/-- `DB::displayValues`. -/
def displayValues (env : Env) (db : DB) : Bytes :=
  framed (ascii "| Values for keyspace: '" ++ db.name ++ ascii "'\n" ++
    (env.iteration.entries db.store).flatMap fun item => item.2 ++ ascii "\n")

/-- `DB::displayStats`. -/
def displayStats (env : Env) (db : DB) : Bytes :=
  let totalBytes := (env.iteration.entries db.store).foldl
    (fun totalBytes item => (totalBytes + (item.1.length + item.2.length)) % SIZE_MOD) 0
  framed (ascii "| Stats for keyspace: '" ++ db.name ++ ascii "'\n" ++
    ascii "Total keys: " ++ ascii (toString db.store.entries.card) ++ ascii "\n" ++
    ascii "Total bytes: " ++ ascii (toString totalBytes) ++ ascii "\n")

/-! ### Incoming commands -/

/-- The loop of the `mput` branch over the tokens after the first. -/
def logPairs (staleName : Option Bytes) (logger : Log) (op : Bytes) (items : List Bytes) :
    List Bytes → Except Fault (Log × List Bytes)
  | [] => .ok (logger, items)
  | [_] => .error .undefinedBehaviour
  | key :: value :: tokens => do
    let logger ← logger.appendCommand staleName (← convertStr (← substr op 1 (SIZE_MOD - 1)))
      key value
    logPairs staleName logger op (items ++ [key, value]) tokens

/-- The loop of the `mdel` branch. -/
def logKeys (staleName : Option Bytes) (logger : Log) (op : Bytes) (keys : List Bytes) :
    List Bytes → Except Fault (Log × List Bytes)
  | [] => .ok (logger, keys)
  | key :: tokens => do
    let logger ← logger.appendCommand staleName (← convertStr (← substr op 1 (SIZE_MOD - 1)))
      key []
    logKeys staleName logger op (keys ++ [key]) tokens

/-- `DB::parseCommand`: the new state and the values to answer with. -/
def parseCommand (staleName : Option Bytes) (db : DB) (command : Bytes) :
    Except Fault (DB × List Bytes) := do
  if command.length = 0 ∨ isAllSpace command then
    return (db, [])
  let tokens ← tokenize command
  let op ← subscript tokens 0
  if op = ascii "put" ∧ tokens.length = 3 then
    let db := db.put (← subscript tokens 1) (← subscript tokens 2)
    if !db.isReplaying then
      let logger ← db.logger.appendCommand staleName (← convertStr op)
        (← subscript tokens 1) (← subscript tokens 2)
      return ({ db with logger }, [])
    else
      return (db, [])
  else if op = ascii "del" ∧ tokens.length = 2 then
    let (db, _) := db.del (← subscript tokens 1)
    if !db.isReplaying then
      let logger ← db.logger.appendCommand staleName (← convertStr op) (← subscript tokens 1) []
      return ({ db with logger }, [])
    else
      return (db, [])
  else if op = ascii "get" ∧ tokens.length = 2 then
    return (db, (db.get (← subscript tokens 1)).toList)
  else if op = ascii "mput" ∧ tokens.length ≥ 5 ∧ tokens.length % 2 ≠ 0 then
    -- the records are appended before the store changes, and also while replaying
    let (logger, items) ← logPairs staleName db.logger op [] (tokens.drop 1)
    return (← { db with logger }.mput items, [])
  else if op = ascii "mdel" ∧ tokens.length ≥ 3 then
    let (logger, keys) ← logKeys staleName db.logger op [] (tokens.drop 1)
    let (db, _) := { db with logger }.mdel keys
    return (db, [])
  else if op = ascii "mget" ∧ tokens.length ≥ 3 then
    return (db, (db.mget (tokens.drop 1)).filterMap id)
  else
    return (db, [])

/-! ### Loading and shutting down -/

/-- The `DB` after the string that its log was named by is gone. -/
def orphaned (db : DB) : DB :=
  { db with logger := { db.logger with keyspaceName := .dangling } }

/-- One round of the loop in `DB::loadFromLog`. -/
def replayLine (staleName : Option Bytes) (db : DB) (line : Bytes) : Except Fault DB := do
  let (db, _) ← parseCommand staleName { db with replaying := true } line
  return { db with replaying := false }

/-- `DB::loadFromLog`. -/
def loadFromLog (staleName : Option Bytes) (fs : Files) (db : DB) : Except Fault DB :=
  match fs.read (aofPath db.name) with
  | some content =>
    if db.store = ∅ then (getlines content).foldlM (replayLine staleName) db else .ok db
  | none => .ok db

/-- The members of a `DB` before it is loaded; `replaying` is not initialised. -/
def unloaded (env : Env) (name : Bytes) (logger : Log) : DB where
  store := ∅
  name := name
  logger := logger
  replaying := env.replaying
  dirty := 0

/-- `DB::DB(name)`. -/
def new (env : Env) (fs : Files) (name : Bytes) : Files × Except Fault DB :=
  match Log.new fs name with
  | (fs, .error e) => (fs, .error e)
  | (fs, .ok logger) => (fs, loadFromLog env.staleName fs (unloaded env name logger))

/-- `DB::DB(name, store)`, which loads nothing. Neither `replaying` nor `dirty` is
initialised. -/
def newWith (env : Env) (dirty : Nat) (fs : Files) (name : Bytes) (store : Store) :
    Files × Except Fault DB :=
  match Log.new fs name with
  | (fs, .error e) => (fs, .error e)
  | (fs, .ok logger) => (fs, .ok { store, name, logger, replaying := env.replaying, dirty })

/-- `DB::shutdown`. -/
def shutdown (env : Env) (fs : Files) (db : DB) : Files × DB × Except Fault Unit :=
  let (fs, logger) := db.logger.closeLog fs
  let db := { db with logger }
  match db.logger.compactLog env fs db.store (db.dirty % SIZE_MOD) with
  | (fs, .error e) => (fs, db, .error e)
  | (fs, .ok ()) =>
    let (fs, res) := db.logger.writeBinarySnapshot env fs db.store
    (fs, db, res)

/-- `DB::~DB`, which also destroys the log. An exception must not leave it. -/
def destroy (env : Env) (fs : Files) (db : DB) : Files × Except Fault Unit :=
  match db.shutdown env fs with
  | (fs, _, .error (.exception _)) => (fs, .error .terminate)
  | (fs, _, .error e) => (fs, .error e)
  | (fs, db, .ok ()) => ((db.logger.destroy fs).1, .ok ())

end DB

end Taproot
