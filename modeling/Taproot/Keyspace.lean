import Taproot.Loading
import Taproot.LogFiles
import Taproot.Paths

/-!
# Taproot.Keyspace

A **keyspace as a machine**: the files, its `DB`, and everything that can
happen between construction and destruction, in any order: commands, calls of
the API, `clearData`, rounds of the flusher in two halves, shutdowns.

`Attached` is the invariant of all runs (`attached_run`): the log has the paths
of its name, and while it is open, its stream is the file behind the path of
the log. Two kinds of facts are derived from it, one lemma for each event: what
becomes of the **text** of the log (what the file holds and what is still to be
written, in order), and that no other entry is touched (`view_step_of_ne`).
-/

namespace Taproot

open Posix Journal

/-! ### Calls of the API -/

/-- The calls that write. The items of `mput` come in pairs, which is what its
callers owe it. -/
inductive Call
  | put (key value : Bytes)
  | del (key : Bytes)
  | mput (pairs : List (Bytes × Bytes))
  | mdel (keys : List Bytes)
  deriving DecidableEq, Repr

/-- The updates a call makes. -/
def Call.records : Call → List Record
  | put key value => [.put key value]
  | del key => [.del key]
  | mput pairs => pairs.map fun p => .put p.1 p.2
  | mdel keys => keys.map .del

/-- A call of the API, the results aside. -/
def DB.call (db : DB) : Call → Except Fault DB
  | .put key value => .ok (db.put key value)
  | .del key => .ok (db.del key).1
  | .mput pairs => db.mput (pairs.flatMap fun p => [p.1, p.2])
  | .mdel keys => .ok (db.mdel keys).1

/-- A call returns, and updates the store without a word to the log. -/
theorem DB.call_eq (db : DB) (c : Call) : db.call c = .ok (db.update c.records) := by
  cases c with
  | put key value => exact congrArg Except.ok (put_eq db key value)
  | del key => exact congrArg Except.ok (del_fst db key)
  | mput pairs =>
      have heven : (pairs.flatMap fun p => [p.1, p.2]).length % 2 = 0 := by
        simp [List.length_flatMap]
      rw [call, mput_eq heven, pairRecords_flatMap]
      rfl
  | mdel keys => exact congrArg Except.ok (mdel_fst db keys)

/-! ### The machine -/

/-- The files and the `DB` of a keyspace. -/
structure Keyspace where
  fs : Files
  db : DB

/-- What can happen to a keyspace. -/
inductive Event
  | command (command : Bytes)
  | call (call : Call)
  | clearData
  /-- The flusher takes the buffer over. -/
  | swap
  /-- The flusher writes what it took. -/
  | write
  | shutdown (env : Env)

/-- The updates that an event makes to the store. -/
def Event.records : Event → List Record
  | command c => commandRecords (tokens c)
  | call c => c.records
  | _ => []

/-- The two halves of a round of the flusher. -/
def Event.isFlush : Event → Bool
  | swap => true
  | write => true
  | _ => false

/-- The three paths of a name as the file system sees them: the log is the
entry `a`, the snapshot is another, and the temporary file can be opened. -/
structure Holds (fs : Files) (name a : Bytes) : Prop where
  aof : fs.resolve (aofPath name) = some a
  db : fs.resolve (dbPath name) ≠ some a
  temp : (fs.resolve (tempPath name)).isSome

theorem Holds.congr {fs fs' : Files} {name a : Bytes} (h : Holds fs name a)
    (hresolve : fs'.resolve = fs.resolve) : Holds fs' name a where
  aof := hresolve ▸ h.aof
  db := hresolve ▸ h.db
  temp := hresolve ▸ h.temp

namespace Keyspace

/-- One event. An exception is thrown to the caller; what was done stays done. The name
of the keyspace is alive, so nothing is left of one that is gone. -/
def step (ks : Keyspace) : Event → Keyspace × Except Fault Unit
  | .command command =>
    match ks.db.parseCommand none command with
    | .ok (db, _) => ({ ks with db }, .ok ())
    | .error e => (ks, .error e)
  | .call call =>
    match ks.db.call call with
    | .ok db => ({ ks with db }, .ok ())
    | .error e => (ks, .error e)
  | .clearData =>
    let (fs, db) := ks.db.clearData ks.fs
    (⟨fs, db⟩, .ok ())
  | .swap => ({ ks with db := { ks.db with logger := ks.db.logger.flusherSwap } }, .ok ())
  | .write =>
    let (fs, logger) := ks.db.logger.flusherWrite ks.fs
    (⟨fs, { ks.db with logger }⟩, .ok ())
  | .shutdown env =>
    let (fs, db, res) := ks.db.shutdown env ks.fs
    (⟨fs, db⟩, res)

/-- A run of events. -/
def run (ks : Keyspace) (es : List Event) : Keyspace :=
  es.foldl (fun ks e => (ks.step e).1) ks

@[simp] theorem run_nil (ks : Keyspace) : ks.run [] = ks := rfl
@[simp] theorem run_cons (ks : Keyspace) (e : Event) (es : List Event) :
    ks.run (e :: es) = (ks.step e).1.run es := rfl
theorem step_command {ks : Keyspace} (happends : ks.db.logger.Appends none) (c : Bytes) :
    ks.step (.command c) = ({ ks with db := ks.db.execute (tokens c) }, .ok ()) := by
  rw [step, DB.parseCommand_eq (DB.executes_of_appends happends _)]

/-- The two outcomes of a command. -/
theorem step_command_cases (ks : Keyspace) (c : Bytes) :
    (ks.step (.command c)).1 = { ks with db := ks.db.execute (tokens c) } ∨
      (ks.step (.command c)).1 = ks := by
  by_cases hexecutes : ks.db.Executes none (tokens c)
  · rw [step, DB.parseCommand_eq hexecutes]
    exact Or.inl rfl
  · rw [step, DB.parseCommand_of_not_executes hexecutes]
    exact Or.inr rfl

@[simp] theorem step_call (ks : Keyspace) (c : Call) :
    ks.step (.call c) = ({ ks with db := ks.db.update c.records }, .ok ()) := by
  rw [step, DB.call_eq]

/-- An invariant of every event is an invariant of every run. -/
theorem run_induction {P : Keyspace → Prop} {es : List Event}
    (hstep : ∀ ks, ∀ e ∈ es, P ks → P (ks.step e).1) {ks : Keyspace} (h : P ks) :
    P (ks.run es) := by
  induction es generalizing ks with
  | nil => exact h
  | cons e es ih =>
      rw [run_cons]
      exact ih (fun ks e' he' => hstep ks e' (List.mem_cons_of_mem e he'))
        (hstep ks e List.mem_cons_self h)

/-! ### The invariant -/

/-- The keyspace `name`, whose log is behind the entry `a`. -/
structure Attached (name a : Bytes) (ks : Keyspace) : Prop where
  aof : ks.fs.resolve (aofPath name) = some a
  present : (ks.fs.dir a).isSome
  name_eq : ks.db.name = name
  keyspaceName_eq : ks.db.logger.keyspaceName = .bound name
  logFilepath_eq : ks.db.logger.logFilepath = aofPath name
  dbFilepath_eq : ks.db.logger.dbFilepath = dbPath name
  /-- An open stream is the file behind the entry. -/
  stream : ∀ i, ks.db.logger.logfile = some i → ks.fs.dir a = some i
  sound : ks.db.logger.Sound

/-- What an attached keyspace is told about a closed log can always be printed. -/
theorem Attached.appends {name a : Bytes} {ks : Keyspace} (h : Attached name a ks)
    (staleName : Option Bytes) : ks.db.logger.Appends staleName :=
  Log.appends_of_bound h.keyspaceName_eq staleName

end Keyspace

namespace Log

theorem Sound.appendAll {log : Log} (h : log.Sound) (rs : List Record) :
    (log.appendAll rs).Sound where
  thread := by rw [appendAll_flushThread, appendAll_logfile, h.thread]
  drained := by
    intro hclosed
    rw [appendAll_logfile] at hclosed
    rw [appendAll_of_closed hclosed]
    exact h.drained hclosed

theorem pending_appendAll {log : Log} (rs : List Record) :
    (log.appendAll rs).pending = log.pending ++ if log.logfile.isSome then logLines rs else [] := by
  cases hi : log.logfile with
  | none => simp [appendAll_of_closed hi]
  | some i => simp [appendAll_of_open hi, pending]

/-- The two outcomes of a swap. -/
theorem flusherSwap_cases (log : Log) :
    log.flusherSwap = log ∨ (log.flushThread = true ∧ log.localBuffer = [] ∧
      log.flusherSwap = { log with localBuffer := log.logBuffer, logBuffer := [] }) := by
  unfold flusherSwap
  split
  · next h => exact Or.inr ⟨h.1, h.2, rfl⟩
  · exact Or.inl rfl

theorem Sound.flusherSwap {log : Log} (h : log.Sound) : log.flusherSwap.Sound := by
  rcases flusherSwap_cases log with heq | ⟨hthread, -, heq⟩
  · rw [heq]; exact h
  · rw [heq]
    refine ⟨h.thread, fun hclosed => ?_⟩
    rw [h.thread, hclosed] at hthread
    exact absurd hthread (by simp)

/-- A swap moves what is pending, and loses none of it. -/
theorem pending_flusherSwap (log : Log) : log.flusherSwap.pending = log.pending := by
  rcases flusherSwap_cases log with heq | ⟨-, hlocal, heq⟩
  · rw [heq]
  · rw [heq]; simp [pending, hlocal]

@[simp] theorem flusherSwap_logfile (log : Log) : log.flusherSwap.logfile = log.logfile := by
  unfold flusherSwap; split <;> rfl
@[simp] theorem flusherSwap_appended (log : Log) : log.flusherSwap.appended = log.appended := by
  unfold flusherSwap; split <;> rfl
@[simp] theorem flusherSwap_keyspaceName (log : Log) :
    log.flusherSwap.keyspaceName = log.keyspaceName := by unfold flusherSwap; split <;> rfl
@[simp] theorem flusherSwap_logFilepath (log : Log) :
    log.flusherSwap.logFilepath = log.logFilepath := by unfold flusherSwap; split <;> rfl
@[simp] theorem flusherSwap_dbFilepath (log : Log) :
    log.flusherSwap.dbFilepath = log.dbFilepath := by unfold flusherSwap; split <;> rfl

end Log

/-- A `DB` that has just been loaded has something to compact after a `put`. -/
theorem DB.not_skips_update {db : DB} (hreplaying : db.replaying = false) (hdirty : db.dirty = 0)
    (k v : Bytes) : ¬Log.Skips (db.update [.put k v]).store
      ((db.update [.put k v]).dirty % SIZE_MOD) := by
  intro hskips
  -- the put has been counted, and its pair is there
  rcases hskips with hzero | hempty
  · have hone : (db.update [.put k v]).dirty = 1 := by
      simp [DB.update, hreplaying, hdirty, changes]
    rw [hone] at hzero
    exact absurd hzero (by decide)
  · have hheld : (db.update [.put k v]).store.lookup k = some v := Finmap.lookup_insert _
    rw [hempty] at hheld
    exact absurd hheld (by simp)

namespace Keyspace

variable {name a e : Bytes} {ks : Keyspace}

/-- What a shutdown leaves of the `DB`. -/
theorem step_shutdown_db (h : ks.db.logger.Sound) (env : Env) :
    (ks.step (.shutdown env)).1.db = { ks.db with logger := ks.db.logger.closed } :=
  (DB.shutdown_eq h env ks.fs).1

/-- No event changes what the path strings stand for. -/
theorem step_resolve (ks : Keyspace) (ev : Event) :
    (ks.step ev).1.fs.resolve = ks.fs.resolve := by
  cases ev with
  | command c =>
      rcases step_command_cases ks c with h | h
      · rw [h]
      · rw [h]
  | call c => rw [step_call]
  | clearData => exact DB.clearData_resolve ks.fs ks.db
  | swap => rfl
  | write => exact Log.write_resolve ks.fs ks.db.logger _
  | shutdown env => exact DB.shutdown_resolve env ks.fs ks.db

/-- A shutdown leaves a file behind the path of the log. -/
theorem Attached.shutdown_present (h : Attached name a ks) (env : Env) :
    ((ks.step (.shutdown env)).1.fs.dir a).isSome := by
  have haof : (ks.db.logger.write ks.fs ks.db.logger.pending).resolve
      ks.db.logger.closed.logFilepath = some a := by
    rw [Log.write_resolve]
    exact h.logFilepath_eq ▸ h.aof
  have hcompacted : ((ks.db.compactedFiles env ks.fs).dir a).isSome :=
    Log.compactLog_present haof (by rw [Log.write_dir]; exact h.present) env _ _
  rcases (DB.shutdown_eq h.sound env ks.fs).2 with hfs | hfs
  · exact (congrArg (·.dir a) hfs) ▸ hcompacted
  · obtain ⟨j, hj⟩ := Option.isSome_iff_exists.mp hcompacted
    have hdir := Log.writeBinarySnapshot_dir_of_some hj env ks.db.logger.closed ks.db.store
    exact Option.isSome_iff_exists.mpr ⟨j, (congrArg (·.dir a) hfs).trans hdir⟩

/-- **Every event keeps a keyspace attached.** -/
theorem attached_step (h : Attached name a ks) (ev : Event) : Attached name a (ks.step ev).1 := by
  obtain ⟨i, hi⟩ := Option.isSome_iff_exists.mp h.present
  cases ev with
  | command c =>
      rw [step_command (h.appends none)]
      exact {
        aof := h.aof
        present := h.present
        name_eq := h.name_eq
        keyspaceName_eq := (Log.appendAll_keyspaceName _ _).trans h.keyspaceName_eq
        logFilepath_eq := (Log.appendAll_logFilepath _ _).trans h.logFilepath_eq
        dbFilepath_eq := (Log.appendAll_dbFilepath _ _).trans h.dbFilepath_eq
        stream := fun j hj => h.stream j ((Log.appendAll_logfile _ _).symm.trans hj)
        sound := h.sound.appendAll _ }
  | call c =>
      rw [step_call]
      exact { h with }
  | clearData =>
      -- truncated files are still the same files
      have hdir : ∀ j, ks.fs.dir a = some j → (ks.db.clearData ks.fs).1.dir a = some j :=
        fun j hj => DB.clearData_dir_of_some hj
      exact { h with
        aof := (congrFun (step_resolve ks .clearData) _).trans h.aof
        present := Option.isSome_iff_exists.mpr ⟨i, hdir i hi⟩
        stream := fun j hj => hdir j (h.stream j hj) }
  | swap =>
      exact { h with
        keyspaceName_eq := (Log.flusherSwap_keyspaceName _).trans h.keyspaceName_eq
        logFilepath_eq := (Log.flusherSwap_logFilepath _).trans h.logFilepath_eq
        dbFilepath_eq := (Log.flusherSwap_dbFilepath _).trans h.dbFilepath_eq
        stream := fun j hj => h.stream j ((Log.flusherSwap_logfile _).symm.trans hj)
        sound := h.sound.flusherSwap }
  | write =>
      exact { h with
        aof := (congrFun (step_resolve ks .write) _).trans h.aof
        present := by
          show ((ks.db.logger.write ks.fs _).dir a).isSome = true
          rw [Log.write_dir]
          exact h.present
        stream := fun j hj => by
          show (ks.db.logger.write ks.fs _).dir a = some j
          rw [Log.write_dir]
          exact h.stream j hj
        sound := ⟨h.sound.thread, fun hclosed => ⟨rfl, (h.sound.drained hclosed).2⟩⟩ }
  | shutdown env =>
      -- the stream is closed, so that the file may have been replaced
      have hdb := step_shutdown_db h.sound env
      exact {
        aof := (congrFun (step_resolve ks (.shutdown env)) _).trans h.aof
        present := h.shutdown_present env
        name_eq := by rw [hdb]; exact h.name_eq
        keyspaceName_eq := by rw [hdb]; exact h.keyspaceName_eq
        logFilepath_eq := by rw [hdb]; exact h.logFilepath_eq
        dbFilepath_eq := by rw [hdb]; exact h.dbFilepath_eq
        stream := fun j hj => by rw [hdb] at hj; exact absurd hj (by simp [Log.closed])
        sound := by rw [hdb]; exact Log.sound_closed _ }

theorem attached_run (h : Attached name a ks) (es : List Event) : Attached name a (ks.run es) :=
  run_induction (P := Attached name a) (fun _ ev _ h => attached_step h ev) h

theorem run_resolve (ks : Keyspace) (es : List Event) :
    (ks.run es).fs.resolve = ks.fs.resolve :=
  run_induction (P := fun ks' => ks'.fs.resolve = ks.fs.resolve)
    (fun ks' ev _ hks => (step_resolve ks' ev).trans hks) rfl

/-! ### The store and its counter -/

/-- The flag is set nowhere but in loading. -/
theorem step_replaying (ks : Keyspace) (ev : Event) :
    (ks.step ev).1.db.replaying = ks.db.replaying := by
  cases ev with
  | command c =>
      rcases step_command_cases ks c with h | h
      · rw [h]
        rfl
      · rw [h]
  | call c => rw [step_call]; rfl
  | clearData => rfl
  | swap => rfl
  | write => rfl
  | shutdown env => exact (congrArg DB.replaying (DB.shutdown_db env ks.fs ks.db)).trans rfl

/-- The counter goes up by what an event changes. -/
theorem step_dirty (h : ks.db.replaying = false) (happends : ks.db.logger.Appends none)
    (ev : Event) : (ks.step ev).1.db.dirty = ks.db.dirty + changes ks.db.store ev.records := by
  cases ev with
  | command c =>
      rw [step_command happends]
      show (if ks.db.replaying then ks.db.dirty else _) = _
      rw [h, if_neg Bool.false_ne_true]
      rfl
  | call c =>
      rw [step_call]
      -- a call counts like a command
      show (if ks.db.replaying then ks.db.dirty else _) = _
      rw [h, if_neg Bool.false_ne_true]
      rfl
  | clearData => rfl
  | swap => rfl
  | write => rfl
  | shutdown env => exact (congrArg DB.dirty (DB.shutdown_db env ks.fs ks.db)).trans rfl

/-! ### The text of the log -/

/-- What the path of the log holds. -/
def content (ks : Keyspace) : Bytes := (ks.fs.read (aofPath ks.db.name)).getD []

/-- What it will hold when all that is pending is written. -/
def text (ks : Keyspace) : Bytes := ks.content ++ ks.db.logger.pending

theorem Attached.content_eq (h : Attached name a ks) :
    ks.content = ((ks.fs.view a).map Prod.snd).getD [] := by
  rw [content, h.name_eq, FS.read_eq h.aof]

theorem Attached.view_eq (h : Attached name a ks) : ∃ i, ks.fs.view a = some (i, ks.content) := by
  obtain ⟨i, hi⟩ := Option.isSome_iff_exists.mp h.present
  refine ⟨i, FS.view_eq_some_iff.mpr ⟨hi, ?_⟩⟩
  rw [h.content_eq, FS.view, hi]
  rfl

/-- Writing all that is pending writes the text. -/
theorem Attached.view_write_pending (h : Attached name a ks) :
    ∃ i, (ks.db.logger.write ks.fs ks.db.logger.pending).view a = some (i, ks.text) := by
  obtain ⟨i, hi⟩ := h.view_eq
  cases hopen : ks.db.logger.logfile with
  | none =>
      refine ⟨i, ?_⟩
      rw [Log.write_of_closed hopen, hi, text, h.sound.pending_eq_nil hopen, List.append_nil]
  | some j =>
      obtain rfl : i = j := by
        have := (FS.view_eq_some_iff.mp hi).1
        rw [h.stream j hopen] at this
        exact (Option.some.inj this).symm
      exact ⟨i, Log.view_write_self hopen hi _⟩

theorem text_command (happends : ks.db.logger.Appends none) (c : Bytes) :
    (ks.step (.command c)).1.text = ks.text ++
      if ks.db.logger.logfile.isSome then logLines (loggedRecords ks.db.replaying (tokens c))
      else [] := by
  rw [step_command happends, text, text, List.append_assoc, ← Log.pending_appendAll]
  rfl

theorem text_call (ks : Keyspace) (c : Call) : (ks.step (.call c)).1.text = ks.text := by
  rw [step_call]
  rfl

theorem text_swap (ks : Keyspace) : (ks.step .swap).1.text = ks.text :=
  congrArg (ks.content ++ ·) (Log.pending_flusherSwap ks.db.logger)

theorem text_write (h : Attached name a ks) : (ks.step .write).1.text = ks.text := by
  have h' := attached_step h .write
  have hpending : (ks.step .write).1.db.logger.pending = ks.db.logger.logBuffer := rfl
  obtain ⟨i, hi⟩ := h.view_eq
  -- a closed log has nothing to write; an open stream is the file of the path
  cases hopen : ks.db.logger.logfile with
  | none =>
      have hfs : (ks.step .write).1.fs = ks.fs := Log.write_of_closed hopen _
      have hcontent : (ks.step .write).1.content = ks.content := by
        rw [h'.content_eq, hfs, h.content_eq]
      rw [text, hcontent, hpending, text, Log.pending, (h.sound.drained hopen).1]
      rfl
  | some j =>
      obtain rfl : i = j := by
        have := (FS.view_eq_some_iff.mp hi).1
        rw [h.stream j hopen] at this
        exact (Option.some.inj this).symm
      have hview : (ks.step .write).1.fs.view a =
          some (i, ks.content ++ ks.db.logger.localBuffer) :=
        Log.view_write_self hopen hi _
      have hcontent : (ks.step .write).1.content = ks.content ++ ks.db.logger.localBuffer := by
        rw [h'.content_eq, hview]
        rfl
      rw [text, hcontent, hpending, text, Log.pending, List.append_assoc]

/-- While only the flusher runs, the text, the store and the counter stay. -/
theorem flush_run (h : Attached name a ks) {es : List Event} (hes : ∀ e ∈ es, e.isFlush = true) :
    (ks.run es).text = ks.text ∧ (ks.run es).db.store = ks.db.store ∧
      (ks.run es).db.dirty = ks.db.dirty := by
  refine (run_induction (P := fun ks' => Attached name a ks' ∧ ks'.text = ks.text ∧
      ks'.db.store = ks.db.store ∧ ks'.db.dirty = ks.db.dirty)
    (fun ks' e he hks => ⟨attached_step hks.1 e, ?_⟩) ⟨h, rfl, rfl, rfl⟩).2
  cases e with
  | swap => exact ⟨(text_swap ks').trans hks.2.1, hks.2.2⟩
  | write => exact ⟨(text_write hks.1).trans hks.2.1, hks.2.2⟩
  | command c => exact absurd (hes _ he) Bool.false_ne_true
  | call c => exact absurd (hes _ he) Bool.false_ne_true
  | clearData => exact absurd (hes _ he) Bool.false_ne_true
  | shutdown env => exact absurd (hes _ he) Bool.false_ne_true

/-- Clearing empties the file, and leaves what is pending. -/
theorem content_clearData (h : Attached name a ks) (hpaths : Holds ks.fs name a) :
    (ks.step .clearData).1.content = [] := by
  obtain ⟨i, hi⟩ := Option.isSome_iff_exists.mp h.present
  have hview : (ks.step .clearData).1.fs.view a = some (i, []) :=
    DB.view_clearData_self (h.logFilepath_eq ▸ h.aof) (h.dbFilepath_eq ▸ hpaths.db) hi
  rw [(attached_step h .clearData).content_eq, hview]
  rfl

/-- The snapshot of a shutdown is written elsewhere. -/
theorem content_shutdown (h : Attached name a ks) (hdb : ks.fs.resolve (dbPath name) ≠ some a)
    (env : Env) : (ks.step (.shutdown env)).1.content =
      (((ks.db.compactedFiles env ks.fs).view a).map Prod.snd).getD [] := by
  rw [(attached_step h (.shutdown env)).content_eq]
  rcases (DB.shutdown_eq h.sound env ks.fs).2 with hfs | hfs
  · exact congrArg (fun fs : Files => ((fs.view a).map Prod.snd).getD []) hfs
  · have hview := congrArg (fun fs : Files => ((fs.view a).map Prod.snd).getD []) hfs
    refine hview.trans (congrArg (fun v => (Option.map Prod.snd v).getD []) ?_)
    refine Log.view_writeBinarySnapshot_of_ne ?_ env _
    rw [DB.compactedFiles, Log.compactLog_resolve, Log.write_resolve]
    exact h.dbFilepath_eq ▸ hdb

/-- A shutdown that does not compact leaves the text in the file. -/
theorem content_shutdown_of_skips (h : Attached name a ks)
    (hdb : ks.fs.resolve (dbPath name) ≠ some a) (env : Env)
    (hskips : Log.Skips ks.db.store (ks.db.dirty % SIZE_MOD)) :
    (ks.step (.shutdown env)).1.content = ks.text := by
  obtain ⟨i, hi⟩ := h.view_write_pending
  rw [content_shutdown h hdb, DB.compactedFiles, Log.compactLog_of_skips hskips, hi]
  rfl

/-- The files after a compaction that is carried out. -/
theorem compactedFiles_of_compacts {t : Bytes} (h : Attached name a ks)
    (ht : ks.fs.resolve (tempPath name) = some t) {env : Env} (henv : env.temp = .complete)
    (hskips : ¬Log.Skips ks.db.store (ks.db.dirty % SIZE_MOD)) :
    (∃ i, (ks.db.compactedFiles env ks.fs).view a = some (i, Log.compacted env ks.db.store)) ∧
      (t ≠ a → (ks.db.compactedFiles env ks.fs).view t = none) :=
  DB.view_compactedFiles (h.logFilepath_eq ▸ h.aof)
    (by rw [h.keyspaceName_eq, NameRef.read_bound]) ht henv hskips

/-- A shutdown that compacts leaves the compacted text in the file. -/
theorem content_shutdown_of_compacts (h : Attached name a ks)
    (hpaths : Holds ks.fs name a) {env : Env} (henv : env.temp = .complete)
    (hskips : ¬Log.Skips ks.db.store (ks.db.dirty % SIZE_MOD)) :
    (ks.step (.shutdown env)).1.content = Log.compacted env ks.db.store := by
  obtain ⟨t, ht⟩ := Option.isSome_iff_exists.mp hpaths.temp
  obtain ⟨⟨i, hi⟩, -⟩ := compactedFiles_of_compacts h ht henv hskips
  rw [content_shutdown h hpaths.db, hi]
  rfl

/-! ### Construction -/

/-- **A new keyspace is attached**, and what it holds is what the file holds,
line by line. -/
theorem new_attached {fs : Files} (env : Env) (hp : fs.resolve (aofPath name) = some a) :
    ∃ fs' i, DB.new env fs name =
        (fs', .ok (DB.loaded env name i ((fs.read (aofPath name)).getD []))) ∧
      Attached name a ⟨fs', DB.loaded env name i ((fs.read (aofPath name)).getD [])⟩ ∧
      fs'.read (aofPath name) = some ((fs.read (aofPath name)).getD []) := by
  obtain ⟨i, hi, hnew⟩ := DB.new_eq env hp
  have hdir : (fs.openAppend (aofPath name)).1.dir a = some i := (FS.openAppend_dir hp).trans hi
  refine ⟨_, i, hnew, ?_, FS.read_openAppend hp⟩
  exact {
    aof := (congrFun (FS.openAppend_resolve fs _) _).trans hp
    present := Option.isSome_iff_exists.mpr ⟨i, hdir⟩
    name_eq := rfl
    keyspaceName_eq := Log.appendAll_keyspaceName _ _
    logFilepath_eq := Log.appendAll_logFilepath _ _
    dbFilepath_eq := Log.appendAll_dbFilepath _ _
    stream := fun j hj => by
      rw [DB.loaded, Log.appendAll_logfile] at hj
      exact hdir.trans hj
    sound := (Log.sound_opened name i).appendAll _ }

/-- What a constructor that returns has found and left. -/
theorem new_inv {fs fs' : Files} {env : Env} {db : DB}
    (hnew : DB.new env fs name = (fs', .ok db)) :
    ∃ a i, fs.resolve (aofPath name) = some a ∧
      fs' = (fs.openAppend (aofPath name)).1 ∧
      db = DB.loaded env name i ((fs.read (aofPath name)).getD []) ∧
      Attached name a ⟨fs', db⟩ ∧
      fs'.read (aofPath name) = some ((fs.read (aofPath name)).getD []) := by
  cases hp : fs.resolve (aofPath name) with
  | none =>
      rw [DB.new_eq_error env hp] at hnew
      exact absurd (Prod.mk.inj hnew).2 (by simp)
  | some a =>
      obtain ⟨fs'', i, hnew', ha, hread⟩ := new_attached env hp
      -- the two descriptions of one constructor
      obtain ⟨j, -, hnew''⟩ := DB.new_eq env hp
      have hfs : fs' = (fs.openAppend (aofPath name)).1 := (Prod.mk.inj (hnew.symm.trans hnew'')).1
      obtain ⟨rfl, hdb⟩ := Prod.mk.inj (hnew.symm.trans hnew')
      obtain rfl := Except.ok.inj hdb
      exact ⟨a, i, rfl, hfs, rfl, ha, hread⟩

theorem holds_blankFiles (name : Bytes) : Holds blankFiles name (aofPath name) where
  aof := rfl
  db := fun h => dbPath_ne_aofPath name name (Option.some.inj h)
  temp := rfl

/-- Files in which the log of a keyspace holds `content`, and nothing else is. -/
def savedFiles (name content : Bytes) : Files :=
  (blankFiles.openAppend (aofPath name)).1.append 0 content

theorem holds_savedFiles (name content : Bytes) :
    Holds (savedFiles name content) name (aofPath name) :=
  (holds_blankFiles name).congr (FS.openAppend_resolve _ _)

theorem read_savedFiles (name content : Bytes) :
    (savedFiles name content).read (aofPath name) = some content :=
  read_filesWith (aofPath name) content

/-- Loading them changes no file. -/
theorem new_savedFiles (env : Env) (name content : Bytes) :
    DB.new env (savedFiles name content) name =
      (savedFiles name content, .ok (DB.loaded env name 0 content)) := by
  have hdir : (blankFiles.openAppend (aofPath name)).1.dir (aofPath name) = some 0 :=
    FS.openAppend_dir (holds_blankFiles name).aof
  have hopen : (savedFiles name content).openAppend (aofPath name) =
      (savedFiles name content, some 0) := by
    rw [FS.openAppend, (holds_savedFiles name content).aof]
    dsimp only
    rw [show (savedFiles name content).dir (aofPath name) = some 0 from hdir]
  obtain ⟨i, hi, hnew⟩ := DB.new_eq env (holds_savedFiles name content).aof
  rw [hopen] at hi hnew
  obtain rfl : 0 = i := Option.some.inj hi
  rw [read_savedFiles] at hnew
  exact hnew

/-- A keyspace that is constructed where there are no files yet. -/
noncomputable def fresh (name : Bytes) : Keyspace :=
  ⟨(blankFiles.openAppend (aofPath name)).1, DB.loaded Env.calm name 0 []⟩

theorem new_blankFiles (name : Bytes) :
    DB.new Env.calm blankFiles name = ((fresh name).fs, .ok (fresh name).db) := by
  obtain ⟨i, hi, hnew⟩ := DB.new_eq Env.calm (holds_blankFiles name).aof
  obtain rfl : 0 = i := Option.some.inj hi
  exact hnew

theorem holds_fresh (name : Bytes) : Holds (fresh name).fs name (aofPath name) :=
  (holds_blankFiles name).congr (FS.openAppend_resolve _ _)

theorem attached_fresh (name : Bytes) : Attached name (aofPath name) (fresh name) := by
  obtain ⟨a, i, hp, -, -, ha, -⟩ := new_inv (new_blankFiles name)
  obtain rfl : aofPath name = a := Option.some.inj hp
  exact ha

/-- Destroyed and constructed again, the keyspace holds `s`. -/
def Reopens (env env' : Env) (ks : Keyspace) (s : Store) : Prop :=
  ∃ fs' db', DB.new env' (ks.db.destroy env ks.fs).1 ks.db.name = (fs', .ok db') ∧ db'.store = s

/-- **What a keyspace reopens with** is what the lines stand for that a
shutdown leaves in the file. -/
theorem reopens_iff (h : Attached name a ks) (env env' : Env) (s : Store) :
    Reopens env env' ks s ↔
      replay ∅ (runRecords (getlines (ks.step (.shutdown env)).1.content)) = s := by
  have h' := attached_step h (.shutdown env)
  have hfs : (ks.db.destroy env ks.fs).1 = (ks.step (.shutdown env)).1.fs :=
    DB.destroy_fst env ks.fs ks.db
  obtain ⟨fs', i, hnew, -, -⟩ := new_attached env' (hfs ▸ h'.aof)
  have hcontent : ((ks.db.destroy env ks.fs).1.read (aofPath name)).getD [] =
      (ks.step (.shutdown env)).1.content := by
    rw [hfs, content, h'.name_eq]
  rw [hcontent] at hnew
  rw [Reopens, h.name_eq]
  constructor
  · rintro ⟨fs'', db'', hnew', rfl⟩
    obtain ⟨-, hdb⟩ := Prod.mk.inj (hnew.symm.trans hnew')
    rw [← Except.ok.inj hdb]
    rfl
  · exact fun heq => ⟨fs', _, hnew, heq⟩

/-! ### Other entries -/

/-- **No other entry is touched** by any event. -/
theorem view_step_of_ne (h : Attached name a ks) (ha : a ≠ e)
    (hdb : ks.fs.resolve (dbPath name) ≠ some e) (htemp : ks.fs.resolve (tempPath name) ≠ some e)
    (ev : Event) : (ks.step ev).1.fs.view e = ks.fs.view e := by
  have haof : ks.fs.resolve (aofPath name) ≠ some e := by
    rw [h.aof]
    exact fun heq => ha (Option.some.inj heq)
  -- the stream is on a file of its own, for no file has two entries
  have hstream : ∀ i, ks.db.logger.logfile = some i → ks.fs.dir e ≠ some i :=
    fun i hi hdir => ha (ks.fs.dir_inj (h.stream i hi) hdir)
  cases ev with
  | command c => rw [step_command (h.appends none)]
  | call c => rw [step_call]
  | clearData =>
      exact DB.view_clearData_of_ne (h.logFilepath_eq ▸ haof) (h.dbFilepath_eq ▸ hdb)
  | swap => rfl
  | write => exact Log.view_write_of_ne hstream _
  | shutdown env =>
      have hcompacted : (ks.db.compactedFiles env ks.fs).view e = ks.fs.view e := by
        rw [DB.compactedFiles, Log.view_compactLog_of_ne, Log.view_write_of_ne hstream]
        · intro name' hread
          have hbound : ks.db.logger.keyspaceName.read env.staleName = .ok name' := hread
          rw [h.keyspaceName_eq, NameRef.read_bound] at hbound
          rw [Log.write_resolve, ← Except.ok.inj hbound]
          exact htemp
        · rw [Log.write_resolve]
          exact h.logFilepath_eq ▸ haof
      rcases (DB.shutdown_eq h.sound env ks.fs).2 with hfs | hfs
      · exact (congrArg (·.view e) hfs).trans hcompacted
      · refine (congrArg (·.view e) hfs).trans (Eq.trans ?_ hcompacted)
        refine Log.view_writeBinarySnapshot_of_ne ?_ env _
        rw [DB.compactedFiles, Log.compactLog_resolve, Log.write_resolve]
        exact h.dbFilepath_eq ▸ hdb

/-- **No other entry is touched** by any run. -/
theorem view_run_of_ne (h : Attached name a ks) (ha : a ≠ e)
    (hdb : ks.fs.resolve (dbPath name) ≠ some e) (htemp : ks.fs.resolve (tempPath name) ≠ some e)
    (es : List Event) : (ks.run es).fs.view e = ks.fs.view e := by
  induction es generalizing ks with
  | nil => rfl
  | cons ev es ih =>
      have hresolve := step_resolve ks ev
      rw [run_cons, ih (attached_step h ev) (hresolve ▸ hdb) (hresolve ▸ htemp),
        view_step_of_ne h ha hdb htemp]

end Keyspace

end Taproot
