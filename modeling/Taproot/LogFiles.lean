import Taproot.DB

/-!
# Taproot.LogFiles

What the operations of a log do to the files.

Each operation writes to few entries, so its lemmas come in pairs: what an
observer of the entry it is about sees afterwards, and that an observer of any
other entry sees nothing. Closing a log is one append of everything that was
pending (`closeLog_eq`); a compaction whose temporary file is written out leaves
the compacted text behind the path of the log (`view_compactLog_complete`); a
snapshot appends to the file it has emptied (`writeBinarySnapshot_fs`).
-/

namespace Taproot

open Posix Journal

namespace Log

variable {fs : Files} {log : Log} {e : Bytes}

/-! ### Writing -/

@[simp] theorem write_resolve (fs : Files) (log : Log) (bytes : Bytes) :
    (log.write fs bytes).resolve = fs.resolve := by
  unfold write; split <;> rfl

@[simp] theorem write_dir (fs : Files) (log : Log) (bytes : Bytes) :
    (log.write fs bytes).dir = fs.dir := by
  unfold write; split <;> rfl

theorem write_of_closed (h : log.logfile = none) (bytes : Bytes) : log.write fs bytes = fs := by
  rw [write, h]

theorem write_write (fs : Files) (log : Log) (bytes bytes' : Bytes) :
    log.write (log.write fs bytes) bytes' = log.write fs (bytes ++ bytes') := by
  unfold write; split
  · exact FS.append_append fs _ bytes bytes'
  · rfl

theorem view_write_of_ne (h : ∀ i, log.logfile = some i → fs.dir e ≠ some i) (bytes : Bytes) :
    (log.write fs bytes).view e = fs.view e := by
  unfold write
  split
  · next i hi => exact FS.view_append_of_ne (h i hi) bytes
  · rfl

theorem view_write_self {i : Ino} {l : Bytes} (hi : log.logfile = some i)
    (he : fs.view e = some (i, l)) (bytes : Bytes) :
    (log.write fs bytes).view e = some (i, l ++ bytes) := by
  obtain ⟨hdir, hdata⟩ := FS.view_eq_some_iff.mp he
  rw [write, hi]
  exact hdata ▸ FS.view_append_self hdir bytes

/-! ### Closing -/

/-- What was appended and has not reached the file. -/
def pending (log : Log) : Bytes := log.localBuffer ++ log.logBuffer

/-- The flusher runs while the stream is open, and a closed log has nothing
left to write. -/
structure Sound (log : Log) : Prop where
  thread : log.flushThread = log.logfile.isSome
  drained : log.logfile = none → log.localBuffer = [] ∧ log.logBuffer = []

/-- A log after `closeLog`. -/
def closed (log : Log) : Log :=
  { log with
    logBuffer := [], localBuffer := [], stopFlushThread := true, flushThread := false
    logfile := none, fileDescriptor := none }

theorem sound_opened (name : Bytes) (i : Ino) : (opened name i).Sound :=
  ⟨rfl, fun h => absurd h (by simp [opened])⟩

theorem sound_closed (log : Log) : log.closed.Sound := ⟨rfl, fun _ => ⟨rfl, rfl⟩⟩

theorem Sound.pending_eq_nil (h : log.Sound) (hclosed : log.logfile = none) :
    log.pending = [] := by
  obtain ⟨hlocal, hbuffer⟩ := h.drained hclosed
  rw [pending, hlocal, hbuffer]
  rfl

/-- **Closing a log** appends all that is pending, in order. -/
theorem closeLog_eq (h : log.Sound) (fs : Files) :
    log.closeLog fs = (log.write fs log.pending, log.closed) := by
  cases hi : log.logfile with
  | none =>
      obtain ⟨hlocal, hbuffer⟩ := h.drained hi
      have hthread : log.flushThread = false := by rw [h.thread, hi]; rfl
      simp [closeLog, hthread, hbuffer, write_of_closed hi, closed, hlocal]
  | some i =>
      have hthread : log.flushThread = true := by rw [h.thread, hi]; rfl
      by_cases hbuffer : log.logBuffer = []
      · simp [closeLog, hthread, flusherWrite, hbuffer, pending, closed]
      · simp [closeLog, hthread, flusherWrite, hbuffer, pending, closed, write, hi,
          FS.append_append]

/-- A log that is not sound is closed like any other, but for the local buffer, which
is only written out by a running flusher. -/
theorem closeLog_snd (fs : Files) (log : Log) :
    (log.closeLog fs).2 =
      { log.closed with localBuffer := if log.flushThread then [] else log.localBuffer } := by
  unfold closeLog closed
  cases log.flushThread <;> by_cases hbuffer : log.logBuffer = [] <;> simp [flusherWrite, hbuffer]

theorem closeLog_keyspaceName (fs : Files) (log : Log) :
    (log.closeLog fs).2.keyspaceName = log.keyspaceName := by rw [closeLog_snd]; rfl

theorem closeLog_logFilepath (fs : Files) (log : Log) :
    (log.closeLog fs).2.logFilepath = log.logFilepath := by rw [closeLog_snd]; rfl

theorem closeLog_dbFilepath (fs : Files) (log : Log) :
    (log.closeLog fs).2.dbFilepath = log.dbFilepath := by rw [closeLog_snd]; rfl

/-- Closing a log writes to its file. -/
theorem closeLog_writes (fs : Files) (log : Log) :
    ∃ bytes, (log.closeLog fs).1 = log.write fs bytes := by
  have hnil : log.write fs [] = fs := by
    rw [write]
    split
    · exact FS.append_nil _ _
    · rfl
  -- a flusher that is still there writes its own buffer first
  cases hflush : log.flushThread with
  | true =>
      by_cases hbuffer : log.logBuffer = []
      · exact ⟨log.localBuffer, by simp [closeLog, flusherWrite, hflush, hbuffer]⟩
      · refine ⟨log.localBuffer ++ log.logBuffer, ?_⟩
        rw [← write_write]
        simp [closeLog, flusherWrite, hflush, hbuffer, write]
  | false =>
      by_cases hbuffer : log.logBuffer = []
      · exact ⟨[], by simp [closeLog, hflush, hbuffer, hnil]⟩
      · exact ⟨log.logBuffer, by simp [closeLog, hflush, hbuffer]⟩

theorem closeLog_resolve (fs : Files) (log : Log) : (log.closeLog fs).1.resolve = fs.resolve := by
  obtain ⟨bytes, hfs⟩ := closeLog_writes fs log
  rw [hfs, write_resolve]

theorem closeLog_dir (fs : Files) (log : Log) : (log.closeLog fs).1.dir = fs.dir := by
  obtain ⟨bytes, hfs⟩ := closeLog_writes fs log
  rw [hfs, write_dir]

/-! ### Compacting -/

variable {env : Env} {state : Store} {dirty : Nat} {temp : Bytes}

@[simp] theorem writeTemp_resolve (env : Env) (fs : Files) (temp buffer : Bytes) :
    (writeTemp env fs temp buffer).resolve = fs.resolve := by
  unfold writeTemp
  split
  · have hresolve := FS.openTrunc_resolve fs temp
    split
    · next heq => rw [heq] at hresolve; exact hresolve
    · next heq => rw [heq] at hresolve; exact hresolve
  · rfl

theorem view_writeTemp_of_ne (env : Env) (h : fs.resolve temp ≠ some e) (buffer : Bytes) :
    (writeTemp env fs temp buffer).view e = fs.view e := by
  unfold writeTemp
  split
  · have hview := FS.view_openTrunc_of_ne h
    split
    · next fs' writer heq =>
        rw [heq] at hview
        refine (FS.view_append_of_ne (fun hdir => ?_) _).trans hview
        -- the stream is open on the file of the path, which is another entry
        cases hp : fs.resolve temp with
        | none =>
            have hnone := FS.openAppend_eq_none hp
            rw [FS.openTrunc, hnone] at heq
            exact absurd (congrArg Prod.snd heq) (by simp)
        | some t =>
            obtain ⟨i, hi, hself, -⟩ := FS.view_openTrunc_self hp
            rw [heq] at hi hself
            obtain rfl := Option.some.inj hi
            exact h (hp.trans (congrArg some (fs'.dir_inj (FS.view_eq_some_iff.mp hself).1 hdir)))
    · next heq => rw [heq] at hview; exact hview
  · rfl

theorem writeTemp_next_le (env : Env) (fs : Files) (temp buffer : Bytes) :
    fs.next ≤ (writeTemp env fs temp buffer).next := by
  unfold writeTemp
  split
  · have hle := FS.openTrunc_next_le fs temp
    split
    · next heq => rw [heq] at hle; exact hle
    · next heq => rw [heq] at hle; exact hle
  · exact Nat.le_refl _

/-- A temporary file that is opened and written out holds the buffer. -/
theorem view_writeTemp_complete {t : Bytes} (hp : fs.resolve temp = some t)
    (htemp : env.temp = .complete) (buffer : Bytes) :
    ∃ i, (writeTemp env fs temp buffer).view t = some (i, buffer) := by
  obtain ⟨i, hi, hself, -⟩ := FS.view_openTrunc_self hp
  obtain ⟨hdir, hdata⟩ := FS.view_eq_some_iff.mp hself
  refine ⟨i, ?_⟩
  rw [writeTemp, htemp, if_pos (show TempOutcome.complete.opened = true from rfl)]
  split
  · next fs' writer heq =>
      rw [heq] at hi hdir hdata
      obtain rfl := Option.some.inj hi
      rw [FS.view_append_self hdir, hdata]
      rfl
  · next fs' heq => rw [heq] at hi; exact absurd hi (by simp)

/-- The condition under which a compaction returns early. -/
abbrev Skips (state : Store) (dirty : Nat) : Prop := dirty ≤ 0 ∨ state = ∅

theorem compactLog_of_skips (h : Skips state dirty) (fs : Files) :
    log.compactLog env fs state dirty = (fs, .ok ()) := by
  rw [compactLog, if_pos h]

/-- A compaction whose name cannot be read does nothing. -/
theorem compactLog_of_error {e : Fault} (hskips : ¬Skips state dirty)
    (hread : log.keyspaceName.read env.staleName = .error e) (fs : Files) :
    log.compactLog env fs state dirty = (fs, .error e) := by
  rw [compactLog, if_neg hskips, hread]

/-- The compaction that is carried out under the name `name`. -/
theorem compactLog_of_read {name : Bytes} (hskips : ¬Skips state dirty)
    (hread : log.keyspaceName.read env.staleName = .ok name) (fs : Files) :
    log.compactLog env fs state dirty =
      match (writeTemp env fs (tempPath name) (compacted env state)).rename (tempPath name)
        log.logFilepath with
      | some fs => (fs, .ok ())
      | none => (writeTemp env fs (tempPath name) (compacted env state),
          .error (.exception env.renameError)) := by
  cases hrename : (writeTemp env fs (tempPath name) (compacted env state)).rename (tempPath name)
      log.logFilepath with
  | none =>
      rw [compactLog, if_neg hskips, hread]
      dsimp only
      rw [hrename]
  | some fs' =>
      rw [compactLog, if_neg hskips, hread]
      dsimp only
      rw [hrename]

/-- **What a compaction can do**: nothing, if it is skipped or its name cannot be read;
or it writes the temporary file of the name that it reads, and renames it or not. -/
theorem compactLog_cases (env : Env) (fs : Files) (log : Log) (state : Store) (dirty : Nat) :
    (Skips state dirty ∧ log.compactLog env fs state dirty = (fs, .ok ())) ∨
    (¬Skips state dirty ∧ ∃ e, log.keyspaceName.read env.staleName = .error e ∧
      log.compactLog env fs state dirty = (fs, .error e)) ∨
    (¬Skips state dirty ∧ ∃ name, log.keyspaceName.read env.staleName = .ok name ∧
      ((∃ fs', (writeTemp env fs (tempPath name) (compacted env state)).rename (tempPath name)
          log.logFilepath = some fs' ∧ log.compactLog env fs state dirty = (fs', .ok ())) ∨
        ((writeTemp env fs (tempPath name) (compacted env state)).rename (tempPath name)
          log.logFilepath = none ∧ log.compactLog env fs state dirty =
            (writeTemp env fs (tempPath name) (compacted env state),
              .error (.exception env.renameError))))) := by
  by_cases hskips : Skips state dirty
  · exact Or.inl ⟨hskips, compactLog_of_skips hskips fs⟩
  cases hread : log.keyspaceName.read env.staleName with
  | error e => exact Or.inr (Or.inl ⟨hskips, e, rfl, compactLog_of_error hskips hread fs⟩)
  | ok name =>
      refine Or.inr (Or.inr ⟨hskips, name, rfl, ?_⟩)
      rw [compactLog_of_read hskips hread]
      split
      · next fs' hr => exact Or.inl ⟨fs', hr, rfl⟩
      · next hr => exact Or.inr ⟨hr, rfl⟩

@[simp] theorem compactLog_resolve (env : Env) (fs : Files) (log : Log) (state : Store)
    (dirty : Nat) : (log.compactLog env fs state dirty).1.resolve = fs.resolve := by
  rcases compactLog_cases env fs log state dirty with ⟨-, h⟩ | ⟨-, e, -, h⟩ |
    ⟨-, name, -, ⟨fs', hr, h⟩ | ⟨-, h⟩⟩
  · rw [h]
  · rw [h]
  · rw [h]
    exact (FS.rename_resolve hr).trans (writeTemp_resolve ..)
  · rw [h]
    exact writeTemp_resolve ..

theorem compactLog_next_le (env : Env) (fs : Files) (log : Log) (state : Store) (dirty : Nat) :
    fs.next ≤ (log.compactLog env fs state dirty).1.next := by
  rcases compactLog_cases env fs log state dirty with ⟨-, h⟩ | ⟨-, e, -, h⟩ |
    ⟨-, name, -, ⟨fs', hr, h⟩ | ⟨-, h⟩⟩
  · rw [h]
  · rw [h]
  · rw [h]
    exact FS.rename_next hr ▸ writeTemp_next_le env fs (tempPath name) (compacted env state)
  · rw [h]
    exact writeTemp_next_le env fs (tempPath name) (compacted env state)

/-- Only the temporary file and the path of the log are touched. -/
theorem view_compactLog_of_ne (htemp : ∀ name, log.keyspaceName.read env.staleName = .ok name →
      fs.resolve (tempPath name) ≠ some e)
    (haof : fs.resolve log.logFilepath ≠ some e) (state : Store) (dirty : Nat) :
    (log.compactLog env fs state dirty).1.view e = fs.view e := by
  rcases compactLog_cases env fs log state dirty with ⟨-, h⟩ | ⟨-, e', -, h⟩ |
    ⟨-, name, hread, ⟨fs', hr, h⟩ | ⟨-, h⟩⟩
  · rw [h]
  · rw [h]
  · rw [h]
    refine (FS.view_rename_of_ne ?_ ?_ hr).trans
      (view_writeTemp_of_ne env (htemp name hread) (compacted env state))
    · rw [writeTemp_resolve]
      exact htemp name hread
    · rw [writeTemp_resolve]
      exact haof
  · rw [h]
    exact view_writeTemp_of_ne env (htemp name hread) (compacted env state)

theorem writeTemp_dir_of_some {i : Ino} (h : fs.dir e = some i) (env : Env)
    (temp buffer : Bytes) : (writeTemp env fs temp buffer).dir e = some i := by
  unfold writeTemp
  split
  · have hdir : (fs.openTrunc temp).1.dir e = some i := FS.openTrunc_dir_of_some h
    split
    · next heq => rw [heq] at hdir; exact hdir
    · next heq => rw [heq] at hdir; exact hdir
  · exact h

/-- The path of the log still names a file. -/
theorem compactLog_present {a : Bytes} (haof : fs.resolve log.logFilepath = some a)
    (h : (fs.dir a).isSome) (env : Env) (state : Store) (dirty : Nat) :
    ((log.compactLog env fs state dirty).1.dir a).isSome := by
  obtain ⟨i, hi⟩ := Option.isSome_iff_exists.mp h
  rcases compactLog_cases env fs log state dirty with ⟨-, heq⟩ | ⟨-, e', -, heq⟩ |
    ⟨-, name, -, ⟨fs', hr, heq⟩ | ⟨-, heq⟩⟩
  · rw [heq]
    exact h
  · rw [heq]
    exact h
  · obtain ⟨t, a', ht, ha', hdir⟩ := FS.rename_inv hr
    rw [writeTemp_resolve, haof] at ha'
    obtain rfl := Option.some.inj ha'
    rw [heq, FS.rename_dir_dst ht (by rw [writeTemp_resolve]; exact haof) hr]
    exact hdir
  · rw [heq, writeTemp_dir_of_some hi]
    rfl

/-- **Which entries a compaction takes from their files**: those that are either
the temporary path or the path of the log, but not both. -/
theorem compactLog_dir_iff {i : Ino} (hok : (log.compactLog env fs state dirty).2 = .ok ())
    (hi : fs.dir e = some i) :
    (log.compactLog env fs state dirty).1.dir e = some i ↔ Skips state dirty ∨
      ∀ name, log.keyspaceName.read env.staleName = .ok name →
        (fs.resolve (tempPath name) = some e ↔ fs.resolve log.logFilepath = some e) := by
  rcases compactLog_cases env fs log state dirty with ⟨hskips, h⟩ | ⟨-, e', -, h⟩ |
    ⟨hskips, name, hread, ⟨fs', hr, h⟩ | ⟨-, h⟩⟩
  · rw [h]
    exact iff_of_true hi (Or.inl hskips)
  · rw [h] at hok
    exact absurd hok (by simp)
  · obtain ⟨t, a, ht, ha, -⟩ := FS.rename_inv hr
    -- an entry that has a file keeps it when the temporary file is opened
    have hi' := writeTemp_dir_of_some hi env (tempPath name) (compacted env state)
    rw [h, or_iff_right hskips, FS.rename_dir_eq_iff ht ha hr hi']
    rw [writeTemp_resolve] at ht ha
    simp only [hread, Except.ok.injEq, forall_eq', ht, ha, Option.some.injEq]
  · rw [h] at hok
    exact absurd hok (by simp)

theorem writeTemp_dir_eq_none_iff (env : Env) (fs : Files) (temp buffer : Bytes) (x : Bytes) :
    (writeTemp env fs temp buffer).dir x = none ↔
      fs.dir x = none ∧ ¬(env.temp.opened = true ∧ fs.resolve temp = some x) := by
  unfold writeTemp
  split
  · next hopened =>
      have hnone := FS.openTrunc_dir_eq_none_iff fs temp x
      rw [hopened, eq_self, true_and]
      split
      · next heq => rw [heq] at hnone; exact hnone
      · next heq => rw [heq] at hnone; exact hnone
  · next hopened => exact (and_iff_left fun h => hopened h.1).symm

/-- **Where no file is left by a compaction** that is carried out: behind the
temporary path, unless that is the path of the log. -/
theorem compactLog_dir_eq_none_iff {name : Bytes}
    (hok : (log.compactLog env fs state dirty).2 = .ok ()) (hskips : ¬Skips state dirty)
    (hread : log.keyspaceName.read env.staleName = .ok name) (x : Bytes) :
    (log.compactLog env fs state dirty).1.dir x = none ↔ fs.resolve log.logFilepath ≠ some x ∧
      (fs.resolve (tempPath name) = some x ∨ fs.dir x = none) := by
  rw [compactLog_of_read hskips hread] at hok ⊢
  split
  · next fs' hr =>
      obtain ⟨t, a, ht, ha, -⟩ := FS.rename_inv hr
      rw [FS.rename_dir_eq_none_iff ht ha hr, writeTemp_dir_eq_none_iff]
      rw [writeTemp_resolve] at ht ha
      rw [ht, ha]
      simp only [Option.some.injEq, ne_eq]
      by_cases hx : t = x
      · simp [hx]
      · simp [hx]
  · next hr =>
      rw [hr] at hok
      exact absurd hok (by simp)

/-- **A compaction that is carried out** leaves the compacted text behind the
path of the log, and no temporary file. -/
theorem view_compactLog_complete (log : Log) {a t name : Bytes} (hskips : ¬Skips state dirty)
    (haof : fs.resolve log.logFilepath = some a)
    (hread : log.keyspaceName.read env.staleName = .ok name)
    (ht : fs.resolve (tempPath name) = some t) (htemp : env.temp = .complete) :
    (log.compactLog env fs state dirty).2 = .ok () ∧
      (∃ i, (log.compactLog env fs state dirty).1.view a = some (i, compacted env state)) ∧
      (t ≠ a → (log.compactLog env fs state dirty).1.view t = none) := by
  obtain ⟨i, hi⟩ := view_writeTemp_complete ht htemp (compacted env state)
  have ht' : (writeTemp env fs (tempPath name) (compacted env state)).resolve (tempPath name) =
      some t := by
    rw [writeTemp_resolve]; exact ht
  have haof' : (writeTemp env fs (tempPath name) (compacted env state)).resolve
      log.logFilepath = some a := by
    rw [writeTemp_resolve]; exact haof
  -- the rename finds a file, for it has just been written
  obtain ⟨fs', hr⟩ := Option.isSome_iff_exists.mp (FS.rename_isSome_iff.mpr
    ⟨by rw [FS.ino_eq ht', (FS.view_eq_some_iff.mp hi).1]; rfl, by rw [haof']; rfl⟩)
  rw [compactLog_of_read hskips hread, hr]
  exact ⟨rfl, ⟨i, (FS.view_rename_dst ht' haof' hr).trans hi⟩,
    fun hne => FS.view_rename_src ht' haof' hne hr⟩

/-- A compaction that reads a name and can open both ends of its rename does not throw. -/
theorem compactLog_ok (h : ¬Skips state dirty → env.temp = .complete ∧
    (fs.resolve log.logFilepath).isSome = true ∧
    ∃ name, log.keyspaceName.read env.staleName = .ok name ∧
      (fs.resolve (tempPath name)).isSome = true) :
    (log.compactLog env fs state dirty).2 = .ok () := by
  by_cases hskips : Skips state dirty
  · rw [compactLog_of_skips hskips]
  · obtain ⟨htemp, haof, name, hread, ht⟩ := h hskips
    obtain ⟨a, ha⟩ := Option.isSome_iff_exists.mp haof
    obtain ⟨t, ht⟩ := Option.isSome_iff_exists.mp ht
    exact (view_compactLog_complete log hskips ha hread ht htemp).1

/-! ### The snapshot -/

/-- The bytes of a snapshot, or what its compression throws. -/
def snapshotText (env : Env) (state : Store) : Except Fault Bytes :=
  let serializedDatastream := serialize env state
  if COMPRESSION_THRESHOLD < serializedDatastream.length then
    (compress env.lz4 serializedDatastream).map fun compressedDatastream =>
      if compressedDatastream.length < serializedDatastream.length then
        1 :: (sizeBytes serializedDatastream.length ++ compressedDatastream)
      else 0 :: serializedDatastream
  else .ok serializedDatastream

/-- **The snapshot empties its file**, and then compresses and appends. -/
theorem writeBinarySnapshot_eq (env : Env) (fs : Files) (log : Log) (state : Store) :
    log.writeBinarySnapshot env fs state =
      match (fs.openTrunc log.dbFilepath).2, snapshotText env state with
      | none, _ => ((fs.openTrunc log.dbFilepath).1, .ok ())
      | some _, .error e => ((fs.openTrunc log.dbFilepath).1, .error e)
      | some writer, .ok bytes =>
        ((fs.openTrunc log.dbFilepath).1.append writer bytes, .ok ()) := by
  rw [writeBinarySnapshot, snapshotText]
  dsimp only
  split
  · next heq => rw [heq]
  · next fs' writer heq =>
      rw [heq]
      split
      · cases compress env.lz4 (serialize env state) with
        | error e => rfl
        | ok compressedDatastream =>
            dsimp only [Except.map]
            split
            · rw [FS.append_append, FS.append_append]
              rfl
            · rw [FS.append_append]
              rfl
      · rfl

theorem writeBinarySnapshot_of_unresolved (h : fs.resolve log.dbFilepath = none) (env : Env)
    (state : Store) : log.writeBinarySnapshot env fs state = (fs, .ok ()) := by
  have hopen : fs.openTrunc log.dbFilepath = (fs, none) := by
    rw [FS.openTrunc, FS.openAppend_eq_none h]
  rw [writeBinarySnapshot_eq, hopen]

/-- What a snapshot leaves in its file: nothing, if the compression throws. -/
theorem view_writeBinarySnapshot_self (h : fs.resolve log.dbFilepath = some e) (env : Env)
    (state : Store) :
    (∃ i, (log.writeBinarySnapshot env fs state).1.view e =
      some (i, (snapshotText env state).toOption.getD [])) ∧
    (log.writeBinarySnapshot env fs state).2 = (snapshotText env state).map fun _ => () := by
  obtain ⟨writer, hwriter, hself, -⟩ := FS.view_openTrunc_self h
  obtain ⟨hdir, hdata⟩ := FS.view_eq_some_iff.mp hself
  rw [writeBinarySnapshot_eq, hwriter]
  cases snapshotText env state with
  | error e => exact ⟨⟨writer, hself⟩, rfl⟩
  | ok bytes =>
      refine ⟨⟨writer, ?_⟩, rfl⟩
      rw [FS.view_append_self hdir, hdata]
      rfl

/-- The snapshot empties its file and appends to it, if it can be opened. -/
theorem writeBinarySnapshot_fs (env : Env) (fs : Files) (log : Log) (state : Store) :
    ((fs.openTrunc log.dbFilepath).2 = none ∧
      (log.writeBinarySnapshot env fs state).1 = (fs.openTrunc log.dbFilepath).1) ∨
    ∃ writer bytes, (fs.openTrunc log.dbFilepath).2 = some writer ∧
      (log.writeBinarySnapshot env fs state).1 =
        (fs.openTrunc log.dbFilepath).1.append writer bytes := by
  rw [writeBinarySnapshot_eq]
  split
  · next heq => exact Or.inl ⟨heq, rfl⟩
  · next heq _ => exact Or.inr ⟨_, [], heq, (FS.append_nil _ _).symm⟩
  · next heq _ => exact Or.inr ⟨_, _, heq, rfl⟩

@[simp] theorem writeBinarySnapshot_resolve (env : Env) (fs : Files) (log : Log) (state : Store) :
    (log.writeBinarySnapshot env fs state).1.resolve = fs.resolve := by
  rcases writeBinarySnapshot_fs env fs log state with ⟨-, h⟩ | ⟨writer, bytes, -, h⟩
  · rw [h, FS.openTrunc_resolve]
  · rw [h, FS.append_resolve, FS.openTrunc_resolve]

theorem read_writeBinarySnapshot (env : Env) (fs : Files) (log : Log) (state : Store) :
    (log.writeBinarySnapshot env fs state).1.read log.dbFilepath =
      (fs.resolve log.dbFilepath).map fun _ => (snapshotText env state).toOption.getD [] := by
  cases h : fs.resolve log.dbFilepath with
  | none =>
      rw [writeBinarySnapshot_of_unresolved h, FS.read, FS.ino, h]
      rfl
  | some e =>
      obtain ⟨⟨i, hview⟩, -⟩ := view_writeBinarySnapshot_self h env state
      have hresolve : (log.writeBinarySnapshot env fs state).1.resolve log.dbFilepath = some e := by
        rw [writeBinarySnapshot_resolve, h]
      rw [FS.read_eq hresolve, hview]
      rfl

theorem writeBinarySnapshot_dir_of_some {i : Ino} (h : fs.dir e = some i) (env : Env) (log : Log)
    (state : Store) : (log.writeBinarySnapshot env fs state).1.dir e = some i := by
  rcases writeBinarySnapshot_fs env fs log state with ⟨-, h'⟩ | ⟨writer, bytes, -, h'⟩
  · rw [h']; exact FS.openTrunc_dir_of_some h
  · rw [h', FS.append_dir]; exact FS.openTrunc_dir_of_some h

/-- The snapshot gives no entry a file that was in use. -/
theorem writeBinarySnapshot_dir_iff {i : Ino} (hi : i < fs.next) (env : Env) (log : Log)
    (state : Store) : (log.writeBinarySnapshot env fs state).1.dir e = some i ↔
      fs.dir e = some i := by
  rcases writeBinarySnapshot_fs env fs log state with ⟨-, h'⟩ | ⟨writer, bytes, -, h'⟩
  · rw [h', FS.openTrunc_dir_iff hi]
  · rw [h', FS.append_dir, FS.openTrunc_dir_iff hi]

theorem writeBinarySnapshot_dir_eq_none_iff (env : Env) (fs : Files) (log : Log) (state : Store)
    (x : Bytes) : (log.writeBinarySnapshot env fs state).1.dir x = none ↔
      fs.dir x = none ∧ fs.resolve log.dbFilepath ≠ some x := by
  rcases writeBinarySnapshot_fs env fs log state with ⟨-, h'⟩ | ⟨writer, bytes, -, h'⟩
  · rw [h', FS.openTrunc_dir_eq_none_iff]
  · rw [h', FS.append_dir, FS.openTrunc_dir_eq_none_iff]

/-- Only the path of the snapshot is touched. -/
theorem view_writeBinarySnapshot_of_ne (h : fs.resolve log.dbFilepath ≠ some e) (env : Env)
    (state : Store) : (log.writeBinarySnapshot env fs state).1.view e = fs.view e := by
  rcases writeBinarySnapshot_fs env fs log state with ⟨-, h'⟩ | ⟨writer, bytes, hw, h'⟩
  · rw [h', FS.view_openTrunc_of_ne h]
  · rw [h', FS.view_append_of_ne, FS.view_openTrunc_of_ne h]
    exact FS.openTrunc_dir_ne h hw

/-- A snapshot that is not compressed does not throw. -/
theorem writeBinarySnapshot_ok (h : (serialize env state).length ≤ COMPRESSION_THRESHOLD)
    (fs : Files) (log : Log) : (log.writeBinarySnapshot env fs state).2 = .ok () := by
  have htext : snapshotText env state = .ok (serialize env state) := if_neg (Nat.not_lt.mpr h)
  rw [writeBinarySnapshot_eq, htext]
  split
  · rfl
  · next heq => exact absurd heq (by simp)
  · rfl

theorem compress_error {lz4 : Lz4} {input : Bytes} {e : Fault} (h : compress lz4 input = .error e) :
    e = .exception (ascii "Cannot compress data.") := by
  rw [compress] at h
  split at h
  · exact absurd h (by simp)
  · dsimp only at h
    split at h
    · exact (Except.error.inj h).symm
    · exact absurd h (by simp)

/-- When the text of a snapshot cannot be made: it is compressed, and that fails. -/
theorem snapshotText_error_iff {e : Fault} : snapshotText env state = .error e ↔
    COMPRESSION_THRESHOLD < (serialize env state).length ∧
      compress env.lz4 (serialize env state) = .error e := by
  rw [snapshotText]
  split
  · next hlarge =>
      rw [and_iff_right hlarge]
      cases compress env.lz4 (serialize env state) with
      | error e' => exact Iff.rfl
      | ok bytes => exact iff_of_false (by simp [Except.map]) (by simp)
  · next hsmall => exact iff_of_false (by simp) fun h => hsmall h.1

/-- **When a snapshot throws**: its file can be opened and the text cannot be made. -/
theorem writeBinarySnapshot_error_iff {e : Fault} :
    (log.writeBinarySnapshot env fs state).2 = .error e ↔
      (fs.resolve log.dbFilepath).isSome = true ∧ snapshotText env state = .error e := by
  cases h : fs.resolve log.dbFilepath with
  | none =>
      rw [writeBinarySnapshot_of_unresolved h]
      exact iff_of_false (by simp) (by simp)
  | some x =>
      rw [(view_writeBinarySnapshot_self h env state).2]
      cases snapshotText env state <;> simp [Except.map]

/-- A snapshot fails only because of its compression. -/
theorem writeBinarySnapshot_error {e : Fault}
    (h : (log.writeBinarySnapshot env fs state).2 = .error e) :
    e = .exception (ascii "Cannot compress data.") :=
  compress_error (snapshotText_error_iff.mp (writeBinarySnapshot_error_iff.mp h).2).2

end Log

/-! ### Clearing and shutting down -/

namespace DB

variable {fs : Files} {db : DB} {e : Bytes}

theorem clearData_fst (fs : Files) (db : DB) : (db.clearData fs).1 =
    ((fs.openTrunc db.logger.logFilepath).1.openTrunc db.logger.dbFilepath).1 := rfl

@[simp] theorem clearData_resolve (fs : Files) (db : DB) :
    (db.clearData fs).1.resolve = fs.resolve := by
  rw [clearData_fst, FS.openTrunc_resolve, FS.openTrunc_resolve]

theorem view_clearData_of_ne (haof : fs.resolve db.logger.logFilepath ≠ some e)
    (hdb : fs.resolve db.logger.dbFilepath ≠ some e) :
    (db.clearData fs).1.view e = fs.view e := by
  rw [clearData_fst, FS.view_openTrunc_of_ne, FS.view_openTrunc_of_ne haof]
  rwa [FS.openTrunc_resolve]

theorem clearData_dir_of_some {i : Ino} (h : fs.dir e = some i) :
    (db.clearData fs).1.dir e = some i := by
  rw [clearData_fst]
  exact FS.openTrunc_dir_of_some (FS.openTrunc_dir_of_some h)

/-- The file of the log is empty afterwards, and still the same file. -/
theorem view_clearData_self {i : Ino} (haof : fs.resolve db.logger.logFilepath = some e)
    (hdb : fs.resolve db.logger.dbFilepath ≠ some e) (h : fs.dir e = some i) :
    (db.clearData fs).1.view e = some (i, []) := by
  obtain ⟨j, -, hself, hsame⟩ := FS.view_openTrunc_self haof
  obtain rfl := hsame i h
  rw [clearData_fst, FS.view_openTrunc_of_ne, hself]
  rwa [FS.openTrunc_resolve]

/-- Both files are empty afterwards. -/
theorem view_clearData_of_mem {i : Ino} (h : fs.dir e = some i)
    (he : fs.resolve db.logger.logFilepath = some e ∨ fs.resolve db.logger.dbFilepath = some e) :
    (db.clearData fs).1.view e = some (i, []) := by
  -- the snapshot is truncated last, over the log if they are one entry
  by_cases hdb : fs.resolve db.logger.dbFilepath = some e
  · have hresolve :
        (fs.openTrunc db.logger.logFilepath).1.resolve db.logger.dbFilepath = some e := by
      rw [FS.openTrunc_resolve]; exact hdb
    obtain ⟨j, -, hself, hsame⟩ := FS.view_openTrunc_self hresolve
    obtain rfl := hsame i (FS.openTrunc_dir_of_some h)
    exact hself
  · exact view_clearData_self (he.resolve_right hdb) hdb h

/-- A shutdown closes the log, whatever else goes wrong. -/
theorem shutdown_db (env : Env) (fs : Files) (db : DB) :
    (db.shutdown env fs).2.1 = { db with logger := (db.logger.closeLog fs).2 } := by
  unfold shutdown
  dsimp only
  split <;> rfl

/-- The files after the log of a shutdown is closed and compacted. -/
def compactedFiles (env : Env) (fs : Files) (db : DB) : Files :=
  (db.logger.closed.compactLog env (db.logger.write fs db.logger.pending) db.store
    (db.dirty % SIZE_MOD)).1

/-- A shutdown closes the log, compacts it, and writes a snapshot unless the
compaction throws. -/
theorem shutdown_eq (h : db.logger.Sound) (env : Env) (fs : Files) :
    (db.shutdown env fs).2.1 = { db with logger := db.logger.closed } ∧
    ((db.shutdown env fs).1 = db.compactedFiles env fs ∨
      (db.shutdown env fs).1 =
        (db.logger.closed.writeBinarySnapshot env (db.compactedFiles env fs) db.store).1) := by
  unfold shutdown compactedFiles
  rw [Log.closeLog_eq h]
  dsimp only
  split
  · next heq => exact ⟨rfl, Or.inl (by rw [heq])⟩
  · next heq => exact ⟨rfl, Or.inr (by rw [heq])⟩

theorem shutdown_resolve (env : Env) (fs : Files) (db : DB) :
    (db.shutdown env fs).1.resolve = fs.resolve := by
  have hcompact := Log.compactLog_resolve env (db.logger.closeLog fs).1 (db.logger.closeLog fs).2
    db.store (db.dirty % SIZE_MOD)
  rw [Log.closeLog_resolve] at hcompact
  unfold shutdown
  dsimp only
  split
  · next heq => rw [heq] at hcompact; exact hcompact
  · next heq =>
      rw [heq] at hcompact
      rw [Log.writeBinarySnapshot_resolve]
      exact hcompact

/-- Destroying the `DB` does to the files what a shutdown does: the log is
closed by then. -/
theorem destroy_fst (env : Env) (fs : Files) (db : DB) :
    (db.destroy env fs).1 = (db.shutdown env fs).1 := by
  have hdb := shutdown_db env fs db
  unfold destroy
  split
  · next heq => rw [heq]
  · next heq => rw [heq]
  · next fs' db' heq =>
      rw [heq] at hdb
      -- the destructor of the log tests the flag that `closeLog` has set
      have hstop : db'.logger.stopFlushThread = true := by rw [show db' = _ from hdb]; rfl
      rw [heq, Log.destroy, if_pos hstop]

/-- A shutdown whose compaction goes through ends with the snapshot. -/
theorem shutdown_of_compacts (h : db.logger.Sound) {env : Env}
    (hcompact : (db.logger.closed.compactLog env (db.logger.write fs db.logger.pending) db.store
      (db.dirty % SIZE_MOD)).2 = .ok ()) :
    db.shutdown env fs =
      let snapshot := db.logger.closed.writeBinarySnapshot env (db.compactedFiles env fs) db.store
      (snapshot.1, { db with logger := db.logger.closed }, snapshot.2) := by
  rw [shutdown, Log.closeLog_eq h]
  dsimp only
  -- only an error of the compaction keeps the snapshot from being written
  split
  · next heq => rw [heq] at hcompact; exact absurd hcompact (by simp)
  · next heq => rw [compactedFiles, heq]

/-- When a shutdown returns: the compaction goes through, and the snapshot is
not compressed. -/
theorem shutdown_ok (h : db.logger.Sound) {env : Env}
    (hcompacts : ¬Log.Skips db.store (db.dirty % SIZE_MOD) → env.temp = .complete ∧
      (fs.resolve db.logger.logFilepath).isSome = true ∧
      ∃ name, db.logger.keyspaceName.read env.staleName = .ok name ∧
        (fs.resolve (tempPath name)).isSome = true)
    (hsmall : (Log.serialize env db.store).length ≤ Log.COMPRESSION_THRESHOLD) :
    (db.shutdown env fs).2.2 = .ok () := by
  rw [shutdown_of_compacts h]
  · exact Log.writeBinarySnapshot_ok hsmall _ _
  · refine Log.compactLog_ok fun hskips => ?_
    rw [Log.write_resolve]
    exact hcompacts hskips

/-- The files after a compaction that is carried out under the name that is read. -/
theorem view_compactedFiles {a t name : Bytes} (haof : fs.resolve db.logger.logFilepath = some a)
    {env : Env} (hread : db.logger.keyspaceName.read env.staleName = .ok name)
    (ht : fs.resolve (tempPath name) = some t) (henv : env.temp = .complete)
    (hskips : ¬Log.Skips db.store (db.dirty % SIZE_MOD)) :
    (∃ i, (db.compactedFiles env fs).view a = some (i, Log.compacted env db.store)) ∧
      (t ≠ a → (db.compactedFiles env fs).view t = none) := by
  have haof' : (db.logger.write fs db.logger.pending).resolve db.logger.closed.logFilepath =
      some a := by
    rw [Log.write_resolve]
    exact haof
  exact (Log.view_compactLog_complete db.logger.closed hskips haof' hread
    (by rw [Log.write_resolve]; exact ht) henv).2

/-- The temporary file of a shutdown is gone. -/
theorem view_shutdown_temp {a t name : Bytes} (h : db.logger.Sound)
    (haof : fs.resolve db.logger.logFilepath = some a) {env : Env}
    (hread : db.logger.keyspaceName.read env.staleName = .ok name)
    (ht : fs.resolve (tempPath name) = some t) (hta : t ≠ a)
    (htdb : fs.resolve db.logger.dbFilepath ≠ some t) (henv : env.temp = .complete)
    (hskips : ¬Log.Skips db.store (db.dirty % SIZE_MOD)) :
    (db.shutdown env fs).1.view t = none := by
  have hgone := (view_compactedFiles haof hread ht henv hskips).2 hta
  rcases (shutdown_eq h env fs).2 with hfs | hfs
  · exact (congrArg (·.view t) hfs).trans hgone
  · refine (congrArg (·.view t) hfs).trans (Eq.trans ?_ hgone)
    refine Log.view_writeBinarySnapshot_of_ne ?_ env _
    rw [compactedFiles, Log.compactLog_resolve, Log.write_resolve]
    exact htdb

theorem destroy_snd_ok (env : Env) (fs : Files) (db : DB) :
    (db.destroy env fs).2 = .ok () ↔ (db.shutdown env fs).2.2 = .ok () := by
  unfold destroy
  split
  · next heq => rw [heq]; simp
  · next heq => rw [heq]
  · next heq => rw [heq]

/-- **What a shutdown that returns takes from its file**: nothing but what its
compaction does. -/
theorem shutdown_dir_iff {i : Ino} (h : db.logger.Sound) (env : Env)
    (hok : (db.shutdown env fs).2.2 = .ok ()) (hi : fs.dir e = some i) :
    (db.shutdown env fs).1.dir e = some i ↔ Log.Skips db.store (db.dirty % SIZE_MOD) ∨
      ∀ name, db.logger.keyspaceName.read env.staleName = .ok name →
        (fs.resolve (tempPath name) = some e ↔ fs.resolve db.logger.logFilepath = some e) := by
  have hwrite : (db.logger.write fs db.logger.pending).dir e = some i := by
    rw [Log.write_dir]; exact hi
  have hcompacted : (db.logger.closed.compactLog env (db.logger.write fs db.logger.pending)
      db.store (db.dirty % SIZE_MOD)).2 = .ok () := by
    rw [shutdown, Log.closeLog_eq h] at hok
    dsimp only at hok
    split at hok
    · exact absurd hok (by simp)
    · next heq => rw [heq]
  have hdir := Log.compactLog_dir_iff hcompacted hwrite
  rw [Log.write_resolve] at hdir
  refine Iff.trans ?_ hdir
  -- the number of the file stays in use, so the snapshot is not given it
  have hlt : i < (db.compactedFiles env fs).next :=
    Nat.lt_of_lt_of_le ((db.logger.write fs db.logger.pending).dir_lt hwrite)
      (Log.compactLog_next_le ..)
  rcases (shutdown_eq h env fs).2 with hfs | hfs
  · rw [hfs]; rfl
  · rw [hfs, Log.writeBinarySnapshot_dir_iff hlt]; rfl

theorem destroy_resolve (env : Env) (fs : Files) (db : DB) :
    (db.destroy env fs).1.resolve = fs.resolve := by
  rw [destroy_fst, shutdown_resolve]

/-- The same of a destructor. -/
theorem destroy_dir_iff {i : Ino} (h : db.logger.Sound) (env : Env)
    (hok : (db.destroy env fs).2 = .ok ()) (hi : fs.dir e = some i) :
    (db.destroy env fs).1.dir e = some i ↔ Log.Skips db.store (db.dirty % SIZE_MOD) ∨
      ∀ name, db.logger.keyspaceName.read env.staleName = .ok name →
        (fs.resolve (tempPath name) = some e ↔ fs.resolve db.logger.logFilepath = some e) := by
  rw [destroy_fst]
  exact shutdown_dir_iff h env ((destroy_snd_ok env fs db).mp hok) hi

end DB

end Taproot
