import Taproot.Library.Machine
import Taproot.LogFiles
import Taproot.Command

/-!
# Taproot.Flusher

The **threads of a log**: any number of callers of `appendCommand`, the flusher,
and `closeLog`, one atomic step at a time.

A caller that has found the stream open appends its line later, under the
mutex; the flusher goes round from the test of the stop flag to the wait, the
swap under the mutex and the write outside it; `closeLog` raises the flag, joins
the flusher, flushes what is left under the mutex and closes the stream. The
flag can be raised at any point of the flusher's round.

`Conserved` is the invariant: the file, the flusher's buffer and the shared
buffer are, in this order, what the file held and all that was appended
(`step_conserved`). Alone, `closeLog` does what the sequential `Log.closeLog`
does (`closeLog_run`).
-/

namespace Taproot

open Posix Journal

/-- Where the flusher is in its loop. -/
inductive FlusherPc
  /-- At the test of the stop flag. -/
  | test
  /-- In `wait_for`, or past it and before the mutex. -/
  | waiting
  /-- Past the swap, with a buffer to write. -/
  | writing
  /-- Past the loop. -/
  | ended
  deriving DecidableEq, Repr

/-- Where `closeLog` is; past its flush, with what was appended by then. -/
inductive CloserPc
  | idle
  | stopped
  | joined
  | flushed (records : List Record)
  | returned (records : List Record)
  deriving DecidableEq, Repr

/-- What had been appended by the last flush, once there was one. -/
def CloserPc.flushedRecords : CloserPc → Option (List Record)
  | flushed records => some records
  | returned records => some records
  | _ => none

/-- `closeLog` has joined the flusher. -/
def CloserPc.hasJoined : CloserPc → Bool
  | idle => false
  | stopped => false
  | _ => true

theorem CloserPc.hasJoined_of_flushed {pc : CloserPc} {records : List Record}
    (h : pc.flushedRecords = some records) : pc.hasJoined = true := by
  cases pc with
  | flushed records => rfl
  | returned records => rfl
  | idle => exact absurd h (by simp [flushedRecords])
  | stopped => exact absurd h (by simp [flushedRecords])
  | joined => rfl

/-- The files, the log, and the threads at work on it. `entered` are the
records whose `appendCommand` has found the stream open. -/
structure Threads where
  fs : Files
  log : Log
  flusher : FlusherPc
  closer : CloserPc
  entered : List Record

/-- The atomic steps. -/
inductive Act
  /-- `appendCommand` tests the stream. -/
  | enter (record : Record)
  /-- It adds its line to the buffer, under the mutex. -/
  | append (record : Record)
  /-- The flusher tests the stop flag. -/
  | test
  /-- It wakes and looks at the buffer, under the mutex. -/
  | wake
  /-- It writes what it took. -/
  | write
  /-- `closeLog` raises the stop flag. -/
  | stop
  /-- It joins the flusher, if that can be joined. -/
  | join
  /-- It writes what is left, under the mutex. -/
  | flush
  /-- It closes the stream and the descriptor. -/
  | close
  deriving DecidableEq, Repr

namespace Log

/-- The last two statements of `appendCommand`. -/
def enqueue (log : Log) (r : Record) : Log :=
  { log with logBuffer := log.logBuffer ++ r.line, appended := log.appended ++ [r] }

/-- `appendCommand` is its test and then the two statements. -/
theorem appendCommand_eq_enqueue {log : Log} (h : log.logfile.isSome) (staleName : Option Bytes)
    (k v : Bytes) :
    log.appendCommand staleName .PUT k v = .ok (log.enqueue (.put k v)) ∧
      log.appendCommand staleName .DEL k v = .ok (log.enqueue (.del k)) := by
  have hopen : log.logfile.isNone = false := by simpa using h
  unfold appendCommand
  rw [hopen]
  exact ⟨rfl, rfl⟩

end Log

namespace Threads

/-- One step, `none` where the thread is not at that point. -/
def step (s : Threads) : Act → Option Threads
  | .enter r =>
    if s.log.logfile.isSome then some { s with entered := r :: s.entered } else some s
  | .append r =>
    if r ∈ s.entered then
      some { s with log := s.log.enqueue r, entered := s.entered.erase r }
    else none
  | .test =>
    if s.flusher = .test then
      some { s with flusher := if s.log.stopFlushThread then .ended else .waiting }
    else none
  | .wake =>
    if s.flusher = .waiting then
      if s.log.logBuffer = [] then some { s with flusher := .test }
      else some { s with
        log := { s.log with localBuffer := s.log.logBuffer, logBuffer := [] }
        flusher := .writing }
    else none
  | .write =>
    if s.flusher = .writing then
      let (fs, log) := s.log.flusherWrite s.fs
      some { s with fs, log, flusher := .test }
    else none
  | .stop =>
    match s.closer with
    | .idle | .returned _ =>
      some { s with log := { s.log with stopFlushThread := true }, closer := .stopped }
    | _ => none
  | .join =>
    if s.closer = .stopped ∧ (s.log.flushThread = true → s.flusher = .ended) then
      some { s with log := { s.log with flushThread := false }, closer := .joined }
    else none
  | .flush =>
    -- to a stream that is closed nothing is written, and the buffer is cleared all the same
    if s.closer = .joined then
      some { s with
        fs := s.log.write s.fs s.log.logBuffer
        log := { s.log with logBuffer := [] }
        closer := .flushed s.log.appended }
    else none
  | .close =>
    match s.closer with
    | .flushed records =>
      some { s with
        log := { s.log with logfile := none, fileDescriptor := none }
        closer := .returned records }
    | _ => none

/-- **What a step can be**, one rule for each way to take one. -/
inductive Moves (s : Threads) : Act → Threads → Prop
  | enter {r : Record} : Moves s (.enter r) { s with entered := r :: s.entered }
  /-- The stream is closed. -/
  | refuse {r : Record} : Moves s (.enter r) s
  | append {r : Record} :
      Moves s (.append r) { s with log := s.log.enqueue r, entered := s.entered.erase r }
  | test : s.flusher = .test →
      Moves s .test { s with flusher := if s.log.stopFlushThread then .ended else .waiting }
  /-- There is nothing to write. -/
  | wake : s.flusher = .waiting → s.log.logBuffer = [] → Moves s .wake { s with flusher := .test }
  | swap : s.flusher = .waiting → s.log.logBuffer ≠ [] →
      Moves s .wake { s with
        log := { s.log with localBuffer := s.log.logBuffer, logBuffer := [] }
        flusher := .writing }
  | write : s.flusher = .writing →
      Moves s .write { s with
        fs := s.log.write s.fs s.log.localBuffer
        log := { s.log with localBuffer := [] }
        flusher := .test }
  | stop : (s.closer = .idle ∨ ∃ records, s.closer = .returned records) →
      Moves s .stop { s with log := { s.log with stopFlushThread := true }, closer := .stopped }
  | join : s.closer = .stopped → (s.log.flushThread = true → s.flusher = .ended) →
      Moves s .join { s with log := { s.log with flushThread := false }, closer := .joined }
  | flush : s.closer = .joined →
      Moves s .flush { s with
        fs := s.log.write s.fs s.log.logBuffer
        log := { s.log with logBuffer := [] }
        closer := .flushed s.log.appended }
  | close {records : List Record} : s.closer = .flushed records →
      Moves s .close { s with
        log := { s.log with logfile := none, fileDescriptor := none }
        closer := .returned records }

/-- What the step writes reaches the file. The flusher only writes while the stream is open;
a call of `closeLog` after another may find lines that came too late for that one. -/
def WritesSucceed (s : Threads) (act : Act) : Prop :=
  act = .flush → s.log.logBuffer = [] ∨ s.log.logfile.isSome = true

instance (s : Threads) (act : Act) : Decidable (WritesSucceed s act) := by
  unfold WritesSucceed; infer_instance

/-- A log that has just been opened, with its flusher started. -/
def start (fs : Files) (name : Bytes) (i : Ino) : Threads where
  fs := fs
  log := Log.opened name i
  flusher := .test
  closer := .idle
  entered := []

/-! ### The invariant -/

/-- Nothing is lost, duplicated or reordered on the way to the file `i`, which
held `opening` at the start. -/
structure Conserved (i : Ino) (opening : Bytes) (s : Threads) : Prop where
  text_eq : s.fs.data i ++ s.log.localBuffer ++ s.log.logBuffer =
    opening ++ logLines s.log.appended
  /-- The flusher has a buffer of its own only between swap and write. -/
  drained : s.flusher ≠ .writing → s.log.localBuffer = []
  /-- The stream is closed only when the flusher is gone. -/
  stream : s.log.logfile = some i ∨ s.log.logfile = none ∧ s.flusher = .ended
  joined : s.log.flushThread = false ∨ s.closer.hasJoined = true → s.flusher = .ended
  flushed : ∀ records, s.closer.flushedRecords = some records →
    s.fs.data i = opening ++ logLines records ∧ records <+: s.log.appended

variable {i : Ino} {opening : Bytes} {s s' : Threads}

theorem conserved_start (fs : Files) (name : Bytes) (i : Ino) :
    Conserved i (fs.data i) (start fs name i) where
  text_eq := by simp [start, Log.opened]
  drained := fun _ => rfl
  stream := Or.inl rfl
  joined := fun h => absurd h (by simp [start, Log.opened, CloserPc.hasJoined])
  flushed := fun records h => absurd h (by simp [start, CloserPc.flushedRecords])

theorem moves_of_step {act : Act} (hstep : step s act = some s') : Moves s act s' := by
  cases act with
  | enter r =>
      simp only [step] at hstep
      split at hstep
      · exact Option.some.inj hstep ▸ .enter
      · exact Option.some.inj hstep ▸ .refuse
  | append r =>
      simp only [step] at hstep
      split at hstep
      · exact Option.some.inj hstep ▸ .append
      · exact absurd hstep (by simp)
  | test =>
      simp only [step] at hstep
      split at hstep
      · next hpc => exact Option.some.inj hstep ▸ .test hpc
      · exact absurd hstep (by simp)
  | wake =>
      simp only [step] at hstep
      split at hstep
      · next hpc =>
          split at hstep
          · next hbuffer => exact Option.some.inj hstep ▸ .wake hpc hbuffer
          · next hbuffer => exact Option.some.inj hstep ▸ .swap hpc hbuffer
      · exact absurd hstep (by simp)
  | write =>
      simp only [step] at hstep
      split at hstep
      · next hpc => exact Option.some.inj hstep ▸ .write hpc
      · exact absurd hstep (by simp)
  | stop =>
      simp only [step] at hstep
      split at hstep
      · next hidle => exact Option.some.inj hstep ▸ .stop (Or.inl hidle)
      · next records hreturned =>
          exact Option.some.inj hstep ▸ .stop (Or.inr ⟨records, hreturned⟩)
      · exact absurd hstep (by simp)
  | join =>
      simp only [step] at hstep
      split at hstep
      · next hjoin => exact Option.some.inj hstep ▸ .join hjoin.1 hjoin.2
      · exact absurd hstep (by simp)
  | flush =>
      simp only [step] at hstep
      split at hstep
      · next hjoined => exact Option.some.inj hstep ▸ .flush hjoined
      · exact absurd hstep (by simp)
  | close =>
      simp only [step] at hstep
      split at hstep
      · next hflushed => exact Option.some.inj hstep ▸ .close hflushed
      · exact absurd hstep (by simp)

theorem data_write {fs : Files} {log : Log} (h : log.logfile = some i) (bytes : Bytes) :
    (log.write fs bytes).data i = fs.data i ++ bytes := by
  rw [Log.write, h]
  exact FS.append_data_self fs i bytes

/-- A flusher that has not ended writes to an open stream. -/
theorem Conserved.stream_open (h : Conserved i opening s) (hrunning : s.flusher ≠ .ended) :
    s.log.logfile = some i :=
  h.stream.resolve_right fun hclosed => hrunning hclosed.2

/-- What the flusher has to conserve: its buffers. Until it has ended, no other thread
depends on it. -/
theorem Conserved.flusher_step (h : Conserved i opening s) (hrunning : s.flusher ≠ .ended)
    (hlogfile : s'.log.logfile = s.log.logfile) (hthread : s'.log.flushThread = s.log.flushThread)
    (hcloser : s'.closer = s.closer)
    (htext : s'.fs.data i ++ s'.log.localBuffer ++ s'.log.logBuffer =
      opening ++ logLines s'.log.appended)
    (hdrained : s'.flusher ≠ .writing → s'.log.localBuffer = []) : Conserved i opening s' where
  text_eq := htext
  drained := hdrained
  stream := Or.inl (hlogfile.trans (h.stream_open hrunning))
  joined := fun hj => absurd (h.joined (by rwa [hthread, hcloser] at hj)) hrunning
  flushed := by
    intro records hr
    rw [hcloser] at hr
    exact absurd (h.joined (Or.inr (CloserPc.hasJoined_of_flushed hr))) hrunning

/-- Raising the flag, by which the thread of `closeLog` starts over. -/
theorem Conserved.stop (h : Conserved i opening s) : Conserved i opening
    { s with log := { s.log with stopFlushThread := true }, closer := .stopped } :=
  { h with
    joined := by
      intro hj
      refine h.joined (hj.imp_right fun hc => ?_)
      exact absurd hc (by simp [CloserPc.hasJoined])
    flushed := fun records hr => absurd hr (by simp [CloserPc.flushedRecords]) }

/-- **One step** of any thread conserves the text, if what it writes reaches the file. -/
theorem step_conserved (h : Conserved i opening s) {act : Act} (hwrites : WritesSucceed s act)
    (hstep : step s act = some s') : Conserved i opening s' := by
  cases moves_of_step hstep with
  | enter => exact { h with }
  | refuse => exact h
  | @append r =>
      exact { h with
        text_eq := by
          show s.fs.data i ++ s.log.localBuffer ++ (s.log.logBuffer ++ r.line) =
            opening ++ logLines (s.log.appended ++ [r])
          rw [← List.append_assoc, h.text_eq, logLines_append, List.append_assoc]
          simp [logLines]
        flushed := fun records hr =>
          ⟨(h.flushed records hr).1, (h.flushed records hr).2.trans (List.prefix_append _ [r])⟩ }
  | test hpc =>
      have hlocal : s.log.localBuffer = [] := h.drained (by simp [hpc])
      exact h.flusher_step (by simp [hpc]) rfl rfl rfl h.text_eq fun _ => hlocal
  | wake hpc hbuffer =>
      have hlocal : s.log.localBuffer = [] := h.drained (by simp [hpc])
      exact h.flusher_step (by simp [hpc]) rfl rfl rfl h.text_eq fun _ => hlocal
  | swap hpc hbuffer =>
      -- the flusher has written what it took over before
      have hlocal : s.log.localBuffer = [] := h.drained (by simp [hpc])
      have htext : s.fs.data i ++ s.log.logBuffer ++ [] =
          opening ++ logLines s.log.appended := by
        rw [← h.text_eq, hlocal, List.append_nil, List.append_nil]
      exact h.flusher_step (by simp [hpc]) rfl rfl rfl htext fun hw => absurd rfl hw
  | write hpc =>
      have hrunning : s.flusher ≠ .ended := by simp [hpc]
      have htext : (s.log.write s.fs s.log.localBuffer).data i ++ [] ++ s.log.logBuffer =
          opening ++ logLines s.log.appended := by
        rw [data_write (h.stream_open hrunning), List.append_nil]
        exact h.text_eq
      exact h.flusher_step hrunning rfl rfl rfl htext fun _ => rfl
  | stop => exact h.stop
  | join hstopped hjoinable =>
      -- a flusher that cannot be joined was joined before
      have hended : s.flusher = .ended := by
        cases hthread : s.log.flushThread with
        | true => exact hjoinable hthread
        | false => exact h.joined (Or.inl hthread)
      exact { h with
        joined := fun _ => hended
        flushed := fun records hr => absurd hr (by simp [CloserPc.flushedRecords]) }
  | flush hjoined =>
      have hended : s.flusher = .ended := h.joined (Or.inr (by rw [hjoined]; rfl))
      have hlocal : s.log.localBuffer = [] := h.drained (by simp [hended])
      have hdata : (s.log.write s.fs s.log.logBuffer).data i =
          opening ++ logLines s.log.appended := by
        rw [← h.text_eq, hlocal, List.append_nil]
        -- a second call may find the stream closed, and then nothing to write
        rcases h.stream with hopen | ⟨hclosed, -⟩
        · exact data_write hopen _
        · have hbuffer : s.log.logBuffer = [] :=
            (hwrites rfl).resolve_right (by rw [hclosed]; exact Bool.false_ne_true)
          rw [Log.write_of_closed hclosed, hbuffer, List.append_nil]
      exact { h with
        text_eq := by
          show (s.log.write s.fs s.log.logBuffer).data i ++ s.log.localBuffer ++ [] = _
          rw [hlocal, List.append_nil, List.append_nil, hdata]
        joined := fun _ => hended
        flushed := by
          intro records hr
          obtain rfl := Option.some.inj hr
          exact ⟨hdata, List.prefix_refl _⟩ }
  | @close records hflushed =>
      have hended : s.flusher = .ended := h.joined (Or.inr (by rw [hflushed]; rfl))
      exact { h with
        stream := Or.inr ⟨rfl, hended⟩
        joined := fun _ => hended
        flushed := by
          intro records' hr
          obtain rfl := Option.some.inj hr
          exact h.flushed records (by rw [hflushed]; rfl) }

/-- **The append buffer loses, duplicates and reorders nothing**, whatever the
order of the threads' steps, as long as what they write reaches the file; and when
`closeLog` has returned, the file alone is what it was followed by all lines appended
before the last flush. Lines that are appended later stay in the buffer. -/
theorem run_conserves {fs : Files} {name : Bytes} {acts : List Act}
    (hwrites : Machine.Guarded step WritesSucceed (start fs name i) acts)
    (hrun : Machine.run step (start fs name i) acts = some s) :
    s.fs.data i ++ s.log.localBuffer ++ s.log.logBuffer =
        fs.data i ++ logLines s.log.appended ∧
      ∀ records, s.closer = .returned records →
        s.fs.data i = fs.data i ++ logLines records ∧ records <+: s.log.appended := by
  have h : Conserved i (fs.data i) s :=
    hwrites.invariant (P := Conserved i (fs.data i))
      (fun _ _ _ hs hwrites hstep => step_conserved hs hwrites hstep)
      (conserved_start fs name i) hrun
  exact ⟨h.text_eq, fun records hr => h.flushed records (by rw [hr]; rfl)⟩

/-- The flag is raised between swap and write; the second line waits in the
buffer until the last flush. -/
theorem run_conserves_interleaved :
    ∃ s, Machine.run step (start blankFiles (ascii "a") 0)
        [.enter (.put (ascii "k") (ascii "1")), .append (.put (ascii "k") (ascii "1")), .test,
          .enter (.del (ascii "k")), .wake, .stop, .append (.del (ascii "k")), .write, .test,
          .join, .flush, .close] = some s ∧
      s.fs.data 0 = logLines [.put (ascii "k") (ascii "1"), .del (ascii "k")] := by
  have hcloser : (Machine.run step (start blankFiles (ascii "a") 0)
      [.enter (.put (ascii "k") (ascii "1")), .append (.put (ascii "k") (ascii "1")), .test,
        .enter (.del (ascii "k")), .wake, .stop, .append (.del (ascii "k")), .write, .test,
        .join, .flush, .close]).map Threads.closer =
      some (.returned [.put (ascii "k") (ascii "1"), .del (ascii "k")]) := by decide
  obtain ⟨s, hrun, hs⟩ := Option.map_eq_some_iff.mp hcloser
  exact ⟨s, hrun, ((run_conserves (by decide) hrun).2 _ hs).1⟩

/-! ### `closeLog` alone -/

/-- The state after `closeLog`, if nobody appends meanwhile. -/
def finished (s : Threads) : Threads :=
  { s with
    fs := (s.log.closeLog s.fs).1
    log := (s.log.closeLog s.fs).2
    flusher := .ended
    closer := .returned s.log.appended }

/-- `closeLog` has raised the flag, with the stream open. -/
structure Closing (s : Threads) : Prop where
  closer : s.closer = .stopped
  stop : s.log.stopFlushThread = true
  isOpen : s.log.logfile.isSome = true
  sound : s.log.Sound

theorem exists_run_of_step {act : Act} {t : Threads} (hstep : step s act = some s')
    (h : ∃ acts, Machine.run step s' acts = some t) :
    ∃ acts, Machine.run step s acts = some t := by
  obtain ⟨acts, hacts⟩ := h
  exact ⟨act :: acts, (Machine.run_cons_of_step hstep acts).trans hacts⟩

/-- The flusher past its loop: `closeLog` goes through. -/
theorem Closing.run_of_ended (h : Closing s) (hpc : s.flusher = .ended)
    (hlocal : s.log.localBuffer = []) : ∃ acts, Machine.run step s acts = some (finished s) := by
  refine ⟨[.join, .flush, .close], ?_⟩
  rw [finished, Log.closeLog_eq h.sound, Log.pending, hlocal]
  simp [Machine.run, step, h.closer, hpc, hlocal, h.stop, Log.closed, Log.write]

/-- The flusher at its test finds the flag raised. -/
theorem Closing.run_of_test (h : Closing s) (hpc : s.flusher = .test)
    (hlocal : s.log.localBuffer = []) : ∃ acts, Machine.run step s acts = some (finished s) := by
  have hstep : step s .test = some { s with flusher := .ended } := by
    simp [step, hpc, h.stop]
  have hended : Closing { s with flusher := .ended } := { h with }
  exact exists_run_of_step hstep (hended.run_of_ended rfl hlocal)

/-- The flusher finishes the write it has started. -/
theorem Closing.run_of_writing (h : Closing s) (hpc : s.flusher = .writing) :
    ∃ acts, Machine.run step s acts = some (finished s) := by
  let t : Threads := { s with
    fs := s.log.write s.fs s.log.localBuffer
    log := { s.log with localBuffer := [] }
    flusher := .test }
  have hstep : step s .write = some t := by simp [step, hpc, Log.flusherWrite, t]
  have hsound : t.log.Sound :=
    ⟨h.sound.thread, fun hclosed => ⟨rfl, (h.sound.drained hclosed).2⟩⟩
  have ht : Closing t := ⟨h.closer, h.stop, h.isOpen, hsound⟩
  -- two writes one after the other are one write of both
  have hfinished : finished t = finished s := by
    have hwrite : t.log.write t.fs t.log.pending = s.log.write s.fs s.log.pending :=
      Log.write_write s.fs s.log s.log.localBuffer s.log.logBuffer
    rw [finished, finished, Log.closeLog_eq hsound, Log.closeLog_eq h.sound, hwrite]
    rfl
  exact hfinished ▸ exists_run_of_step hstep (ht.run_of_test rfl rfl)

/-- The flusher in its wait takes the buffer over once more, if there is one. -/
theorem Closing.run_of_waiting (h : Closing s) (hpc : s.flusher = .waiting)
    (hlocal : s.log.localBuffer = []) : ∃ acts, Machine.run step s acts = some (finished s) := by
  by_cases hbuffer : s.log.logBuffer = []
  · have hstep : step s .wake = some { s with flusher := .test } := by simp [step, hpc, hbuffer]
    have ht : Closing { s with flusher := .test } := { h with }
    exact exists_run_of_step hstep (ht.run_of_test rfl hlocal)
  · let t : Threads := { s with
      log := { s.log with localBuffer := s.log.logBuffer, logBuffer := [] }
      flusher := .writing }
    have hstep : step s .wake = some t := by simp [step, hpc, hbuffer, t]
    have hsound : t.log.Sound := by
      refine ⟨h.sound.thread, fun hclosed => ?_⟩
      rw [show t.log.logfile = s.log.logfile from rfl] at hclosed
      exact absurd h.isOpen (by rw [hclosed]; simp)
    have ht : Closing t := ⟨h.closer, h.stop, h.isOpen, hsound⟩
    have hfinished : finished t = finished s := by
      have hpending : t.log.pending = s.log.pending := by simp [Log.pending, t, hlocal]
      rw [finished, finished, Log.closeLog_eq hsound, Log.closeLog_eq h.sound, hpending]
      rfl
    exact hfinished ▸ exists_run_of_step hstep (ht.run_of_writing rfl)

/-- **`closeLog` returns** if nobody appends meanwhile, wherever the flusher is,
and has done what the sequential `Log.closeLog` does. -/
theorem closeLog_run (h : Conserved i opening s) (hsound : s.log.Sound)
    (hopen : s.log.logfile.isSome = true) (hcloser : s.closer = .idle) :
    ∃ acts, Machine.run step s acts = some (finished s) := by
  let t : Threads := { s with
    log := { s.log with stopFlushThread := true }, closer := .stopped }
  have hstop : step s .stop = some t := by simp only [step, hcloser, t]
  have ht : Closing t := ⟨rfl, rfl, hopen, ⟨hsound.thread, hsound.drained⟩⟩
  have hfinished : finished t = finished s := by
    rw [finished, finished, Log.closeLog_eq ht.sound, Log.closeLog_eq hsound]
    rfl
  refine hfinished ▸ exists_run_of_step hstop ?_
  -- from each place of the flusher to the end of its loop
  cases hpc : s.flusher with
  | test => exact ht.run_of_test hpc (h.drained (by simp [hpc]))
  | waiting => exact ht.run_of_waiting hpc (h.drained (by simp [hpc]))
  | writing => exact ht.run_of_writing hpc
  | ended => exact ht.run_of_ended hpc (h.drained (by simp [hpc]))

end Threads

end Taproot
