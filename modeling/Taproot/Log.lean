import Taproot.Library.Journal
import Taproot.Library.Posix
import Taproot.Utils

/-!
# Taproot.Log

`log.cpp`: the append-only file of a keyspace, its buffer and flusher, its
compaction and its binary snapshot.

Functions that touch files take and return the file system next to the `Log`.
Those that can throw return their effects together with `Except Fault Unit`,
because what was written before the exception stays written.

What the code leaves to its surroundings is gathered in `Env`: the order in
which a hash table is walked, what happens to the temporary file of a
compaction, the compression library, and what is read through a reference
whose string is gone or from a member that was never set.
-/

namespace Taproot

open Posix Journal

/-- The key-value pairs of a keyspace. -/
abbrev Store := Map Bytes Bytes

/-- A line of the append-only file, before it is printed. -/
abbrev Record := Update Bytes Bytes

/-- Files named by byte strings. -/
abbrev Files := FS Bytes Bytes UInt8

/-! ### The surroundings -/

/-- What happens to the temporary file of a compaction: whether it can be
opened, and how many bytes of the buffer reach it (`none` for all). -/
structure TempOutcome where
  opened : Bool
  cut : Option Nat
  deriving DecidableEq, Repr

/-- The temporary file is opened and written out. -/
def TempOutcome.complete : TempOutcome := ⟨true, none⟩

/-- The part of the buffer that reaches the file. -/
def TempOutcome.kept (o : TempOutcome) (buffer : Bytes) : Bytes :=
  match o.cut with
  | some n => buffer.take n
  | none => buffer

@[simp] theorem TempOutcome.kept_complete (buffer : Bytes) :
    TempOutcome.complete.kept buffer = buffer := rfl

/-- The two functions of LZ4 that are called, on `int` arguments. The second
returns its result together with the destination buffer. -/
structure Lz4 where
  LZ4_compressBound : Int → Int
  LZ4_compress_default : Bytes → Int → Int → Int × Bytes

/-- What the code leaves to its surroundings. -/
structure Env where
  /-- What a read through a dangling name reference yields, if it comes back. -/
  staleName : Option Bytes
  /-- The order in which the hash table is walked. -/
  iteration : Iteration Bytes Bytes
  /-- The fate of the temporary file. -/
  temp : TempOutcome
  /-- The message of a `filesystem_error` from `rename`. -/
  renameError : Bytes
  lz4 : Lz4
  /-- What `DB::replaying` holds before it is first set. -/
  replaying : Bool

/-- Surroundings in which everything goes well. -/
noncomputable def Env.calm : Env where
  staleName := some []
  iteration := Iteration.arbitrary Bytes Bytes
  temp := .complete
  renameError := []
  lz4 := ⟨fun _ => 0, fun _ _ _ => (0, [])⟩
  replaying := false

/-- No files yet; every path string is an entry of its own. -/
def blankFiles : Files := FS.empty id

/-- Files in which `path` holds `content`, and nothing else is. -/
def filesWith (path content : Bytes) : Files := (blankFiles.openAppend path).1.append 0 content

theorem read_filesWith (path content : Bytes) :
    (filesWith path content).read path = some content := by
  have hp : blankFiles.resolve path = some path := rfl
  have hresolve : (filesWith path content).resolve path = some path :=
    congrFun (FS.openAppend_resolve blankFiles path) path
  rw [FS.read_eq hresolve]
  exact congrArg (Option.map Prod.snd) (FS.view_append_self (FS.openAppend_dir hp) content)

/-! ### The log of a keyspace -/

/-- `const std::string& keyspaceName`: bound to a string that is alive, or to
one that is gone. -/
inductive NameRef
  | bound (name : Bytes)
  | dangling
  deriving DecidableEq, Repr

/-- Reading through the reference. If the string is gone, that is undefined: the read may
yield anything, or never come back. -/
def NameRef.read (staleName : Option Bytes) : NameRef → Except Fault Bytes
  | bound name => .ok name
  | dangling =>
    match staleName with
    | some name => .ok name
    | none => .error .undefinedBehaviour

@[simp] theorem NameRef.read_bound (staleName : Option Bytes) (name : Bytes) :
    (NameRef.bound name).read staleName = .ok name := rfl

/-- `Log`. The stream and the descriptor are the files they were opened on;
`localBuffer` is the flusher's variable, non-empty between its swap and its
write; `flushThread` says whether the thread can be joined. `appended` is the
history of the records that entered `logBuffer`; no function reads it. -/
structure Log where
  keyspaceName : NameRef
  logFilepath : Bytes
  dbFilepath : Bytes
  logfile : Option Ino
  logBuffer : Bytes
  localBuffer : Bytes
  flushThread : Bool
  stopFlushThread : Bool
  fileDescriptor : Option Ino
  appended : List Record

/-- `std::format("logs/{}.db", name)`. -/
def dbPath (name : Bytes) : Bytes := ascii "logs/" ++ name ++ ascii ".db"

/-- `std::format("logs/{}.aof", name)`. -/
def aofPath (name : Bytes) : Bytes := ascii "logs/" ++ name ++ ascii ".aof"

/-- `std::format("logs/{}_temp.aof", name)`. -/
def tempPath (name : Bytes) : Bytes := ascii "logs/" ++ name ++ ascii "_temp.aof"

/-- `"put " + key + " " + value + "\n"`. -/
def putLine (key value : Bytes) : Bytes :=
  ascii "put " ++ key ++ ascii " " ++ value ++ ascii "\n"

/-- `"del " + key + "\n"`. -/
def delLine (key : Bytes) : Bytes := ascii "del " ++ key ++ ascii "\n"

/-- The line of a record. -/
def Record.line : Record → Bytes
  | .put k v => putLine k v
  | .del k => delLine k

namespace Log

/-- A log whose stream and descriptor are open on the file `i`. -/
def opened (keyspaceName : Bytes) (i : Ino) : Log where
  keyspaceName := .bound keyspaceName
  logFilepath := aofPath keyspaceName
  dbFilepath := dbPath keyspaceName
  logfile := some i
  logBuffer := []
  localBuffer := []
  flushThread := true
  stopFlushThread := false
  fileDescriptor := some i
  appended := []

/-- `Log::Log`. -/
def new (fs : Files) (keyspaceName : Bytes) : Files × Except Fault Log :=
  match fs.openAppend (aofPath keyspaceName) with
  | (fs, none) => (fs, .error (.exception (ascii "Failed to open log file descriptor.")))
  | (fs, some i) => (fs, .ok (opened keyspaceName i))

/-- `logfile.write`, then a flush: a stream that is not open writes nothing. -/
def write (fs : Files) (log : Log) (bytes : Bytes) : Files :=
  match log.logfile with
  | some i => fs.append i bytes
  | none => fs

/-! ### The flusher -/

/-- One round of the flusher under the mutex: take over a non-empty buffer.
It runs while the thread does, and only with an empty buffer of its own. -/
def flusherSwap (log : Log) : Log :=
  if log.flushThread ∧ log.localBuffer = [] then
    { log with localBuffer := log.logBuffer, logBuffer := [] }
  else log

/-- The rest of the round, outside the mutex. -/
def flusherWrite (fs : Files) (log : Log) : Files × Log :=
  (log.write fs log.localBuffer, { log with localBuffer := [] })

/-! ### `appendCommand` -/

/-- `Log::appendCommand`. The message that a file is not open names the keyspace. -/
def appendCommand (staleName : Option Bytes) (log : Log) (op : Ops) (key value : Bytes) :
    Except Fault Log :=
  if log.logfile.isNone then
    (log.keyspaceName.read staleName).map fun _ => log
  else
    match op with
    | .PUT => .ok { log with
        logBuffer := log.logBuffer ++ putLine key value
        appended := log.appended ++ [.put key value] }
    | .DEL => .ok { log with
        logBuffer := log.logBuffer ++ delLine key
        appended := log.appended ++ [.del key] }
    | _ => .error (.exception (ascii "Cannot recognize command to be appended."))

/-! ### `writeBinarySnapshot` -/

/-- `Log::COMPRESSION_THRESHOLD`. -/
def COMPRESSION_THRESHOLD : Nat := 10 * 1024 * 1024

/-- The bytes of an unsigned integer, least significant first. -/
def leBytes : Nat → Nat → Bytes
  | 0, _ => []
  | width + 1, n => UInt8.ofNat (n % 256) :: leBytes width (n / 256)

/-- The bytes of a `size_t`. -/
def sizeBytes (n : Nat) : Bytes := leBytes 8 n

/-- What is written to `datastream`. -/
def serialize (env : Env) (state : Store) : Bytes :=
  ascii "TDB" ++ sizeBytes state.entries.card ++
    (env.iteration.entries state).flatMap fun pair =>
      sizeBytes pair.1.length ++ pair.1 ++ sizeBytes pair.2.length ++ pair.2

/-- The conversion of a `size_t` to `int`. -/
def toInt (n : Nat) : Int := ((n : Int) + 2 ^ 31) % 2 ^ 32 - 2 ^ 31

/-- `Log::compress`. -/
def compress (lz4 : Lz4) (input : Bytes) : Except Fault Bytes :=
  if input = [] then
    .ok []
  else
    let maxCompressedSize := lz4.LZ4_compressBound (toInt input.length)
    let (compressedSize, compressed) :=
      lz4.LZ4_compress_default input (toInt input.length) maxCompressedSize
    if compressedSize ≤ 0 then
      .error (.exception (ascii "Cannot compress data."))
    else
      .ok (compressed.takeD compressedSize.toNat 0)

/-- `Log::writeBinarySnapshot`. -/
def writeBinarySnapshot (env : Env) (fs : Files) (log : Log) (state : Store) :
    Files × Except Fault Unit :=
  let serializedDatastream := serialize env state
  match fs.openTrunc log.dbFilepath with
  | (fs, none) => (fs, .ok ())
  | (fs, some writer) =>
    if COMPRESSION_THRESHOLD < serializedDatastream.length then
      match compress env.lz4 serializedDatastream with
      | .error e => (fs, .error e)
      | .ok compressedDatastream =>
        if compressedDatastream.length < serializedDatastream.length then
          let fs := fs.append writer [1]
          let fs := fs.append writer (sizeBytes serializedDatastream.length)
          (fs.append writer compressedDatastream, .ok ())
        else
          let fs := fs.append writer [0]
          (fs.append writer serializedDatastream, .ok ())
    else
      (fs.append writer serializedDatastream, .ok ())

/-! ### `compactLog` -/

/-- The text a compaction writes: a put line for every pair. -/
def compacted (env : Env) (state : Store) : Bytes :=
  (env.iteration.entries state).flatMap fun pair => putLine pair.1 pair.2

/-- Opening and writing the temporary file. -/
def writeTemp (env : Env) (fs : Files) (tempAof buffer : Bytes) : Files :=
  if env.temp.opened then
    match fs.openTrunc tempAof with
    | (fs, some writer) => fs.append writer (env.temp.kept buffer)
    | (fs, none) => fs
  else fs

/-- `Log::compactLog`. `dirty` is a `size_t`. -/
def compactLog (env : Env) (fs : Files) (log : Log) (state : Store) (dirty : Nat) :
    Files × Except Fault Unit :=
  if dirty ≤ 0 ∨ state = ∅ then
    (fs, .ok ())
  else
    match log.keyspaceName.read env.staleName with
    | .error e => (fs, .error e)
    | .ok keyspaceName =>
      let tempAof := tempPath keyspaceName
      let fs := writeTemp env fs tempAof (compacted env state)
      -- the rename is outside the test that the file is open
      match fs.rename tempAof log.logFilepath with
      | some fs => (fs, .ok ())
      | none => (fs, .error (.exception env.renameError))

/-! ### `closeLog` -/

/-- `Log::closeLog`. The join waits for the flusher, which finishes the write
it has started. -/
def closeLog (fs : Files) (log : Log) : Files × Log :=
  let (fs, log) :=
    if log.flushThread then log.flusherWrite fs else (fs, log)
  let (fs, log) :=
    if log.logBuffer = [] then (fs, log)
    else (log.write fs log.logBuffer, { log with logBuffer := [] })
  (fs, { log with
    stopFlushThread := true, flushThread := false, logfile := none, fileDescriptor := none })

/-- `Log::~Log`. -/
def destroy (fs : Files) (log : Log) : Files × Log :=
  if log.stopFlushThread then (fs, log) else closeLog fs log

end Log

end Taproot
