import Taproot.Flusher
import Taproot.Library.Progress

/-!
# Taproot.Liveness

What the threads of a log get done **in the end**, whatever the order in which
they are scheduled, as long as each of them is scheduled again and again.

While the stop flag is down, everything that has been appended gets to the file
(`appended_reaches_file`). Once `closeLog` has raised it, the flusher's loop ends
and `closeLog` returns, with everything on the file that had been appended
before, however many lines other threads go on appending (`closeLog_returns`):
none of their steps holds up the flusher or `closeLog`.
-/

namespace Taproot

/-- How many steps the flusher takes at most, once the flag is up. -/
def FlusherPc.left : FlusherPc → Nat
  | waiting => 3
  | writing => 2
  | test => 1
  | ended => 0

/-- How many steps it takes to have taken what is in the shared buffer, with one
more to write it. -/
def FlusherPc.round : FlusherPc → Nat
  | writing => 4
  | test => 3
  | waiting => 2
  | ended => 0

/-- How many steps `closeLog` still takes. -/
def CloserPc.left : CloserPc → Nat
  | idle => 4
  | stopped => 3
  | joined => 2
  | flushed _ => 1
  | returned _ => 0

namespace Threads

open Posix

variable {i : Ino} {opening : Bytes} {past : List Record} {s s' : Threads}

/-- The flusher's next step, and `closeLog`'s when the flusher is gone. -/
def due (s : Threads) : Option Act :=
  match s.flusher, s.closer with
  | .test, _ => some .test
  | .waiting, _ => some .wake
  | .writing, _ => some .write
  | .ended, .stopped => some .join
  | .ended, .joined => some .flush
  | .ended, .flushed _ => some .close
  | .ended, _ => none

/-- The steps that the two threads still have to take. -/
def left (s : Threads) : Nat := s.flusher.left + s.closer.left

/-- `closeLog` has returned. -/
def Returned (s : Threads) : Prop := ∃ records, s.closer = .returned records

/-- A log up to the return of its `closeLog`, since a moment at which `past` had
been appended. -/
structure Attended (i : Ino) (opening : Bytes) (past : List Record) (s : Threads) : Prop where
  conserved : Conserved i opening s
  raised : s.log.stopFlushThread = true ↔ s.closer ≠ .idle
  looping : s.closer = .idle → s.flusher ≠ .ended
  isOpen : 2 ≤ s.closer.left → s.log.logfile.isSome = true
  appended : past <+: s.log.appended
  flushed : ∀ records, s.closer.flushedRecords = some records → past <+: records

theorem attended_start (fs : Files) (name : Bytes) (i : Ino) :
    Attended i (fs.data i) [] (start fs name i) where
  conserved := conserved_start fs name i
  raised := by simp [start, Log.opened]
  looping := fun _ => by simp [start]
  isOpen := fun _ => rfl
  appended := List.nil_prefix
  flushed := fun records _ => List.nil_prefix

/-- Every step short of the return keeps it so. -/
theorem Attended.step (h : Attended i opening past s) (hreturned : ¬Returned s) {act : Act}
    (hstep : Threads.step s act = some s') : Attended i opening past s' := by
  have hmoves := moves_of_step hstep
  -- before its return `closeLog` has not closed the stream, so its flush reaches the file
  have hwrites : WritesSucceed s act := by
    rintro rfl
    cases hmoves with
    | flush hjoined => exact Or.inr (h.isOpen (by simp [hjoined, CloserPc.left]))
  have hconserved := step_conserved h.conserved hwrites hstep
  cases hmoves with
  | enter => exact { h with conserved := hconserved }
  | refuse => exact h
  | @append r =>
      exact { h with
        conserved := hconserved
        appended := h.appended.trans (List.prefix_append _ [r]) }
  | test hpc =>
      refine { h with conserved := hconserved, looping := fun hidle => ?_ }
      have hdown : s.log.stopFlushThread = false := by
        simpa using mt h.raised.mp (not_not_intro hidle)
      simp [hdown]
  | wake hpc hbuffer => exact { h with conserved := hconserved, looping := fun _ => by simp }
  | swap hpc hbuffer => exact { h with conserved := hconserved, looping := fun _ => by simp }
  | write hpc => exact { h with conserved := hconserved, looping := fun _ => by simp }
  | stop hcloser =>
      have hidle : s.closer = .idle := hcloser.resolve_right hreturned
      exact { h with
        conserved := hconserved
        raised := by simp
        looping := fun hne => absurd hne (by simp)
        isOpen := fun _ => h.isOpen (by simp [hidle, CloserPc.left])
        flushed := fun records hr => absurd hr (by simp [CloserPc.flushedRecords]) }
  | join hstopped hjoinable =>
      have hup := h.raised.mpr (by simp [hstopped])
      exact { h with
        conserved := hconserved
        raised := by simpa using hup
        looping := fun hne => absurd hne (by simp)
        isOpen := fun _ => h.isOpen (by simp [hstopped, CloserPc.left])
        flushed := fun records hr => absurd hr (by simp [CloserPc.flushedRecords]) }
  | flush hjoined =>
      have hup := h.raised.mpr (by simp [hjoined])
      exact { h with
        conserved := hconserved
        raised := by simpa using hup
        looping := fun hne => absurd hne (by simp)
        isOpen := fun hleft => absurd hleft (by simp [CloserPc.left])
        flushed := by
          intro records hr
          obtain rfl := Option.some.inj hr
          exact h.appended }
  | @close records hflushed =>
      have hup := h.raised.mpr (by simp [hflushed])
      exact { h with
        conserved := hconserved
        raised := by simpa using hup
        looping := fun hne => absurd hne (by simp)
        isOpen := fun hleft => absurd hleft (by simp [CloserPc.left])
        flushed := by
          intro records' hr
          obtain rfl := Option.some.inj hr
          exact h.flushed records (by rw [hflushed]; rfl) }

/-- With the flag up, a step leaves both threads where they are or brings one of them
on. -/
theorem Attended.step_left (h : Attended i opening past s) (hstarted : s.closer ≠ .idle)
    (hreturned : ¬Returned s) {act : Act} (hstep : Threads.step s act = some s') :
    s'.flusher = s.flusher ∧ s'.closer = s.closer ∨ s'.left < s.left := by
  cases moves_of_step hstep with
  | enter => exact Or.inl ⟨rfl, rfl⟩
  | refuse => exact Or.inl ⟨rfl, rfl⟩
  | append => exact Or.inl ⟨rfl, rfl⟩
  -- with the flag up, the test ends the loop
  | test hpc =>
      right
      simp [left, h.raised.mpr hstarted, hpc, FlusherPc.left]
  | wake hpc hbuffer =>
      right
      simp [left, hpc, FlusherPc.left]
  | swap hpc hbuffer =>
      right
      simp [left, hpc, FlusherPc.left]
  | write hpc =>
      right
      simp [left, hpc, FlusherPc.left]
  | stop hcloser => exact absurd hcloser (not_or.mpr ⟨hstarted, hreturned⟩)
  | join hstopped hjoinable =>
      right
      simp [left, hstopped, CloserPc.left]
  | flush hjoined =>
      right
      simp [left, hjoined, CloserPc.left]
  | close hflushed =>
      right
      simp [left, hflushed, CloserPc.left]

/-- The step that is due can be taken, and brings a thread on. -/
theorem due_step {act : Act} (hdue : s.due = some act) :
    ∃ s', Threads.step s act = some s' ∧ ¬(s'.flusher = s.flusher ∧ s'.closer = s.closer) := by
  cases hpc : s.flusher with
  | test =>
      obtain rfl : Act.test = act := by simpa [due, hpc] using hdue
      refine ⟨_, if_pos hpc, ?_⟩
      by_cases hflag : s.log.stopFlushThread = true <;> simp [hflag]
  | waiting =>
      obtain rfl : Act.wake = act := by simpa [due, hpc] using hdue
      by_cases hbuffer : s.log.logBuffer = []
      · exact ⟨_, by rw [Threads.step, if_pos hpc, if_pos hbuffer], by simp⟩
      · exact ⟨_, by rw [Threads.step, if_pos hpc, if_neg hbuffer], by simp⟩
  | writing =>
      obtain rfl : Act.write = act := by simpa [due, hpc] using hdue
      exact ⟨_, if_pos hpc, by simp⟩
  | ended =>
      cases hcloser : s.closer with
      | idle => simp [due, hpc, hcloser] at hdue
      | stopped =>
          obtain rfl : Act.join = act := by simpa [due, hpc, hcloser] using hdue
          exact ⟨_, if_pos ⟨hcloser, fun _ => hpc⟩, by simp⟩
      | joined =>
          obtain rfl : Act.flush = act := by simpa [due, hpc, hcloser] using hdue
          exact ⟨_, if_pos hcloser, by simp⟩
      | flushed records =>
          obtain rfl : Act.close = act := by simpa [due, hpc, hcloser] using hdue
          exact ⟨_, by rw [Threads.step, hcloser], by simp⟩
      | returned records => simp [due, hpc, hcloser] at hdue

/-- Something is due until `closeLog` has returned. -/
theorem Attended.exists_due (h : Attended i opening past s) (hreturned : ¬Returned s) :
    ∃ act, s.due = some act := by
  cases hpc : s.flusher with
  | test => exact ⟨.test, by simp [due, hpc]⟩
  | waiting => exact ⟨.wake, by simp [due, hpc]⟩
  | writing => exact ⟨.write, by simp [due, hpc]⟩
  | ended =>
      cases hcloser : s.closer with
      | idle => exact absurd hpc (h.looping hcloser)
      | stopped => exact ⟨.join, by simp [due, hpc, hcloser]⟩
      | joined => exact ⟨.flush, by simp [due, hpc, hcloser]⟩
      | flushed records => exact ⟨.close, by simp [due, hpc, hcloser]⟩
      | returned records => exact absurd ⟨records, hcloser⟩ hreturned

theorem due_congr (hflusher : s'.flusher = s.flusher) (hcloser : s'.closer = s.closer) :
    s'.due = s.due := by
  rw [due, due, hflusher, hcloser]

/-- A `closeLog` that has been called stays so. -/
theorem closer_ne_idle (hstarted : s.closer ≠ .idle) {act : Act}
    (hstep : step s act = some s') : s'.closer ≠ .idle := by
  cases moves_of_step hstep <;> simp [hstarted]

/-- The two threads get on, to the return of `closeLog`. -/
theorem progress_closing (i : Ino) (opening : Bytes) (past : List Record) :
    Machine.Progress step Eq (fun s => Attended i opening past s ∧ s.closer ≠ .idle) Returned left
      (fun s act => s.due = some act) where
  keeps := fun h hreturned hstep => ⟨h.1.step hreturned hstep, closer_ne_idle h.2 hstep⟩
  exists_helps := fun h hreturned => h.1.exists_due hreturned
  advances := by
    rintro s act _ h hreturned hdue rfl
    obtain ⟨s', hstep, hmoved⟩ := due_step hdue
    exact ⟨s', hstep, (h.1.step_left h.2 hreturned hstep).resolve_left hmoved⟩
  waits := by
    intro s act act' s' h hreturned hdue hstep
    rcases h.1.step_left h.2 hreturned hstep with ⟨hflusher, hcloser⟩ | hlower
    · exact Or.inr ⟨by rw [left, left, hflusher, hcloser], (due_congr hflusher hcloser).trans hdue⟩
    · exact Or.inl hlower

/-! ### Getting to the file -/

/-- What had been appended has been taken from the shared buffer, -/
def Taken (i : Ino) (opening : Bytes) (past : List Record) (s : Threads) : Prop :=
  opening ++ logLines past <+: s.fs.data i ++ s.log.localBuffer

/-- and is on the file. -/
def Stored (i : Ino) (opening : Bytes) (past : List Record) (s : Threads) : Prop :=
  opening ++ logLines past <+: s.fs.data i

instance (i : Ino) (opening : Bytes) (past : List Record) (s : Threads) :
    Decidable (Taken i opening past s) := by unfold Taken; infer_instance

instance (i : Ino) (opening : Bytes) (past : List Record) (s : Threads) :
    Decidable (Stored i opening past s) := by unfold Stored; infer_instance

theorem Stored.taken (h : Stored i opening past s) : Taken i opening past s :=
  h.trans (List.prefix_append _ _)

/-- Only the flusher that is about to write has something that is not on the file. -/
theorem Attended.stored_of_taken (h : Attended i opening past s) (htaken : Taken i opening past s)
    (hpc : s.flusher ≠ .writing) : Stored i opening past s := by
  rwa [Taken, h.conserved.drained hpc, List.append_nil] at htaken

/-- What has not been taken is in the shared buffer. -/
theorem Attended.taken_of_nil (h : Attended i opening past s) (hbuffer : s.log.logBuffer = []) :
    Taken i opening past s := by
  obtain ⟨later, hlater⟩ := h.appended
  have htext := h.conserved.text_eq
  rw [hbuffer, List.append_nil] at htext
  rw [Taken, htext, ← hlater, logLines_append, ← List.append_assoc]
  exact List.prefix_append _ _

/-- After its last flush `closeLog` has nothing left. -/
theorem Attended.stored_of_flushed (h : Attended i opening past s) {records : List Record}
    (hcloser : s.closer.flushedRecords = some records) : Stored i opening past s := by
  obtain ⟨later, hlater⟩ := h.flushed records hcloser
  rw [Stored, (h.conserved.flushed records hcloser).1, ← hlater, logLines_append,
    ← List.append_assoc]
  exact List.prefix_append _ _

theorem Attended.not_returned (h : Attended i opening past s)
    (hstored : ¬Stored i opening past s) : ¬Returned s := by
  rintro ⟨records, hcloser⟩
  exact hstored (h.stored_of_flushed (by rw [hcloser]; rfl))

/-- How far the flusher is from having it on the file, with the flag down. -/
def phase (i : Ino) (opening : Bytes) (past : List Record) (s : Threads) : Nat :=
  if Stored i opening past s then 0 else if Taken i opening past s then 1 else s.flusher.round

/-- How far the two threads are from having it on the file. -/
def away (i : Ino) (opening : Bytes) (past : List Record) (s : Threads) : Nat :=
  if s.closer = .idle then 7 + phase i opening past s else s.left

theorem phase_of_taken (htaken : Taken i opening past s) : phase i opening past s ≤ 1 := by
  rw [phase, if_pos htaken]
  split <;> simp

theorem phase_of_not_taken (htaken : ¬Taken i opening past s) :
    phase i opening past s = s.flusher.round := by
  rw [phase, if_neg fun h => htaken h.taken, if_neg htaken]

/-- With the flag down, a step of the flusher brings it nearer to the file. -/
theorem Attended.flusher_phase (h : Attended i opening past s) (hidle : s.closer = .idle)
    (hstored : ¬Stored i opening past s) {act : Act}
    (hact : act = .test ∨ act = .wake ∨ act = .write) (hstep : Threads.step s act = some s') :
    s'.closer = s.closer ∧ phase i opening past s' < phase i opening past s := by
  cases moves_of_step hstep with
  -- with the flag down the loop goes on
  | test hpc =>
      have hdown : s.log.stopFlushThread = false := by
        simpa using mt h.raised.mp (not_not_intro hidle)
      have htaken : ¬Taken i opening past s :=
        fun htaken => hstored (h.stored_of_taken htaken (by simp [hpc]))
      refine ⟨rfl, ?_⟩
      rw [phase_of_not_taken htaken, phase_of_not_taken (by exact htaken)]
      simp [hdown, hpc, FlusherPc.round]
  -- what is not on the file is in the buffer, and is taken
  | wake hpc hbuffer =>
      exact absurd (h.stored_of_taken (h.taken_of_nil hbuffer) (by simp [hpc])) hstored
  | swap hpc hbuffer =>
      have htaken : ¬Taken i opening past s :=
        fun htaken => hstored (h.stored_of_taken htaken (by simp [hpc]))
      have hnow : Taken i opening past { s with
          log := { s.log with localBuffer := s.log.logBuffer, logBuffer := [] }
          flusher := .writing } := by
        obtain ⟨later, hlater⟩ := h.appended
        have htext := h.conserved.text_eq
        rw [h.conserved.drained (by simp [hpc]), List.append_nil] at htext
        rw [Taken, htext, ← hlater, logLines_append, ← List.append_assoc]
        exact List.prefix_append _ _
      refine ⟨rfl, ?_⟩
      have hlow := phase_of_taken hnow
      rw [phase_of_not_taken htaken, hpc]
      exact Nat.lt_succ_of_le hlow
  -- what was taken is stored, or a next round has to take it
  | write hpc =>
      have hopen : s.log.logfile = some i := h.conserved.stream_open (by simp [hpc])
      have hdata : (s.log.write s.fs s.log.localBuffer).data i =
          s.fs.data i ++ s.log.localBuffer := data_write hopen s.log.localBuffer
      refine ⟨rfl, ?_⟩
      by_cases htaken : Taken i opening past s
      · have hnow : Stored i opening past { s with
            fs := s.log.write s.fs s.log.localBuffer
            log := { s.log with localBuffer := [] }
            flusher := .test } := by
          rw [Stored, hdata]
          exact htaken
        rw [phase, if_pos hnow, phase, if_neg hstored, if_pos htaken]
        exact Nat.one_pos
      · have hnot : ¬Taken i opening past { s with
            fs := s.log.write s.fs s.log.localBuffer
            log := { s.log with localBuffer := [] }
            flusher := .test } := by
          rw [Taken, hdata, List.append_nil]
          exact htaken
        rw [phase_of_not_taken hnot, phase_of_not_taken htaken, hpc]
        exact Nat.lt_succ_self 3
  | enter => exact absurd hact (by simp)
  | refuse => exact absurd hact (by simp)
  | append => exact absurd hact (by simp)
  | stop => exact absurd hact (by simp)
  | join => exact absurd hact (by simp)
  | flush => exact absurd hact (by simp)
  | close => exact absurd hact (by simp)

/-- A step that leaves the two threads where they are leaves it as far away. -/
theorem away_congr (hfs : s'.fs = s.fs) (hlocal : s'.log.localBuffer = s.log.localBuffer)
    (hflusher : s'.flusher = s.flusher) (hcloser : s'.closer = s.closer) :
    away i opening past s' = away i opening past s := by
  simp only [away, phase, Stored, Taken, left, hfs, hlocal, hflusher, hcloser]

/-- With the flag down, a step leaves the two threads where they are, as far away
as before, or brings it nearer; -/
theorem Attended.step_away_idle (h : Attended i opening past s) (hidle : s.closer = .idle)
    (hstored : ¬Stored i opening past s) {act : Act} (hstep : Threads.step s act = some s') :
    (s'.flusher = s.flusher ∧ s'.closer = s.closer) ∧
        away i opening past s' = away i opening past s ∨
      away i opening past s' < away i opening past s := by
  have hflusher : act = .test ∨ act = .wake ∨ act = .write →
      away i opening past s' < away i opening past s := by
    intro hact
    obtain ⟨hcloser, hphase⟩ := h.flusher_phase hidle hstored hact hstep
    rw [away, away, if_pos (hcloser.trans hidle), if_pos hidle]
    omega
  cases moves_of_step hstep with
  | enter => exact Or.inl ⟨⟨rfl, rfl⟩, away_congr rfl rfl rfl rfl⟩
  | refuse => exact Or.inl ⟨⟨rfl, rfl⟩, rfl⟩
  | append => exact Or.inl ⟨⟨rfl, rfl⟩, away_congr rfl rfl rfl rfl⟩
  | test => exact Or.inr (hflusher (by simp))
  | wake => exact Or.inr (hflusher (by simp))
  | swap => exact Or.inr (hflusher (by simp))
  | write => exact Or.inr (hflusher (by simp))
  | stop =>
      right
      -- from the call on the steps left are counted, fewer than seven
      rw [away, away, if_neg (by simp), if_pos hidle, left]
      cases hpc : s.flusher <;> simp only [FlusherPc.left, CloserPc.left] <;> omega
  | join hstopped hjoinable => exact absurd (hidle.symm.trans hstopped) (by simp)
  | flush hjoined => exact absurd (hidle.symm.trans hjoined) (by simp)
  | close hflushed => exact absurd (hidle.symm.trans hflushed) (by simp)

/-- and so it does with the flag up. -/
theorem Attended.step_away (h : Attended i opening past s) (hstored : ¬Stored i opening past s)
    {act : Act} (hstep : Threads.step s act = some s') :
    (s'.flusher = s.flusher ∧ s'.closer = s.closer) ∧
        away i opening past s' = away i opening past s ∨
      away i opening past s' < away i opening past s := by
  by_cases hidle : s.closer = .idle
  · exact h.step_away_idle hidle hstored hstep
  · rw [away, away, if_neg (closer_ne_idle hidle hstep), if_neg hidle]
    rcases h.step_left hidle (h.not_returned hstored) hstep with ⟨hflusher, hcloser⟩ | hlower
    · exact Or.inl ⟨⟨hflusher, hcloser⟩, by rw [left, left, hflusher, hcloser]⟩
    · exact Or.inr hlower

/-- The two threads get on, to the file. -/
theorem progress_storing (i : Ino) (opening : Bytes) (past : List Record) :
    Machine.Progress step Eq (Attended i opening past) (Stored i opening past)
      (away i opening past) (fun s act => s.due = some act) where
  keeps := fun h hstored hstep => h.step (h.not_returned hstored) hstep
  exists_helps := fun h hstored => h.exists_due (h.not_returned hstored)
  advances := by
    rintro s act _ h hstored hdue rfl
    obtain ⟨s', hstep, hmoved⟩ := due_step hdue
    exact ⟨s', hstep, (h.step_away hstored hstep).resolve_left fun hsame => hmoved hsame.1⟩
  waits := by
    intro s act act' s' h hstored hdue hstep
    rcases h.step_away hstored hstep with ⟨⟨hflusher, hcloser⟩, hsame⟩ | hlower
    · exact Or.inr ⟨hsame, (due_congr hflusher hcloser).trans hdue⟩
    · exact Or.inl hlower

/-! ### Fair schedules -/

/-- The flusher and `closeLog` get their turns again and again. -/
def Fair (turns : Nat → Act) : Prop :=
  ∀ act ∈ [Act.test, .wake, .write, .join, .flush, .close], Machine.Recurs Eq turns act

theorem Fair.due {turns : Nat → Act} (h : Fair turns) {act : Act}
    (hdue : ∃ s : Threads, s.due = some act) : Machine.Recurs Eq turns act := by
  obtain ⟨s, hs⟩ := hdue
  refine h act ?_
  simp only [Threads.due] at hs
  split at hs <;> simp_all

/-- A schedule in which they take turns. -/
def inTurns (n : Nat) : Act :=
  match n % 6 with
  | 0 => .test
  | 1 => .wake
  | 2 => .write
  | 3 => .join
  | 4 => .flush
  | _ => .close

theorem fair_inTurns : Fair inTurns := by
  have hrecurs : ∀ k < 6, Machine.Recurs Eq inTurns (inTurns k) := by
    intro k hk n
    refine ⟨6 * n + k, by omega, ?_⟩
    have hmod : (6 * n + k) % 6 = k % 6 := by omega
    rw [inTurns, inTurns, hmod]
  intro act hact
  simp only [List.mem_cons, List.not_mem_nil, or_false] at hact
  rcases hact with rfl | rfl | rfl | rfl | rfl | rfl
  · exact hrecurs 0 (by decide)
  · exact hrecurs 1 (by decide)
  · exact hrecurs 2 (by decide)
  · exact hrecurs 3 (by decide)
  · exact hrecurs 4 (by decide)
  · exact hrecurs 5 (by decide)

/-- Up to the call of `closeLog`, a log is attended from any moment on. -/
theorem attended_run {fs : Files} {name : Bytes} {acts : List Act}
    (hrun : Machine.run step (start fs name i) acts = some s) (hidle : s.closer = .idle) :
    Attended i (fs.data i) s.log.appended s := by
  have h : s.closer = .idle → Attended i (fs.data i) [] s := by
    refine Machine.invariant (P := fun s => s.closer = .idle → Attended i (fs.data i) [] s)
      (fun s act s' h hstep hidle' => ?_) (fun _ => attended_start fs name i) hrun
    -- a `closeLog` is not taken back, so it had not been called before either
    have hbefore : s.closer = .idle := by
      by_contra hstarted
      exact closer_ne_idle hstarted hstep hidle'
    exact (h hbefore).step (by rintro ⟨records, hr⟩; simp [hr] at hbefore) hstep
  exact { h hidle with
    appended := List.prefix_refl _
    flushed := fun records hr => absurd hr (by simp [hidle, CloserPc.flushedRecords]) }

/-- **Everything that is appended gets to the file**, under every fair schedule: of
what has been appended by some moment before `closeLog` is called, nothing is in the
buffers for ever. -/
theorem appended_reaches_file {fs : Files} {name : Bytes} {acts : List Act}
    (hrun : Machine.run step (start fs name i) acts = some s) (hidle : s.closer = .idle)
    {turns : Nat → Act} (hfair : Fair turns) :
    ∃ n, fs.data i ++ logLines s.log.appended <+:
      (Machine.scheduled step s turns n).fs.data i := by
  obtain ⟨n, hstored, -⟩ := (progress_storing i (fs.data i) s.log.appended).eventually
    (attended_run hrun hidle) (fun _ hdue => hfair.due hdue)
  exact ⟨n, hstored⟩

/-- A line that is in the buffer when the schedule begins. -/
theorem appended_reaches_file_put :
    ∃ s, Machine.run step (start blankFiles (ascii "a") 0)
        [.test, .enter (.put (ascii "k") (ascii "1")), .append (.put (ascii "k") (ascii "1"))] =
          some s ∧
      ∃ n, ascii "put k 1\n" <+: (Machine.scheduled step s inTurns n).fs.data 0 := by
  have hend : (Machine.run step (start blankFiles (ascii "a") 0)
      [.test, .enter (.put (ascii "k") (ascii "1")), .append (.put (ascii "k") (ascii "1"))]).map
      (fun s => (s.closer, s.log.appended)) =
      some (.idle, [.put (ascii "k") (ascii "1")]) := by decide
  obtain ⟨s, hrun, hs⟩ := Option.map_eq_some_iff.mp hend
  obtain ⟨hidle, happended⟩ := Prod.mk.inj hs
  obtain ⟨n, hn⟩ := appended_reaches_file hrun hidle fair_inTurns
  rw [happended] at hn
  exact ⟨s, hrun, n, hn⟩

/-- **`closeLog` returns** under every fair schedule, whatever is appended meanwhile,
and leaves on the file everything that had been appended when it was called. -/
theorem closeLog_returns {fs : Files} {name : Bytes} {acts : List Act}
    (hrun : Machine.run step (start fs name i) acts = some s) (hidle : s.closer = .idle)
    {turns : Nat → Act} (hfair : Fair turns) :
    ∃ t n records, step s .stop = some t ∧
      (Machine.scheduled step t turns n).closer = .returned records ∧
      s.log.appended <+: records ∧
      (Machine.scheduled step t turns n).fs.data i = fs.data i ++ logLines records := by
  have hattended := attended_run hrun hidle
  have hstop : step s .stop = some { s with
      log := { s.log with stopFlushThread := true }, closer := .stopped } := by
    rw [step, hidle]
  have hstopped := hattended.step (by rintro ⟨records, hr⟩; simp [hr] at hidle) hstop
  obtain ⟨n, ⟨records, hreturned⟩, hend, -⟩ :=
    (progress_closing i (fs.data i) s.log.appended).eventually ⟨hstopped, by simp⟩
      (fun _ hdue => hfair.due hdue)
  have hflushed := congrArg CloserPc.flushedRecords hreturned
  exact ⟨_, n, records, hstop, hreturned, hend.flushed records hflushed,
    (hend.conserved.flushed records hflushed).1⟩

/-- Called while the flusher has a line of its own to write. -/
theorem closeLog_returns_writing :
    ∃ s t n records, Machine.run step (start blankFiles (ascii "a") 0)
        [.test, .enter (.put (ascii "k") (ascii "1")), .append (.put (ascii "k") (ascii "1")),
          .wake] = some s ∧ step s .stop = some t ∧
      (Machine.scheduled step t inTurns n).closer = .returned records ∧
      s.log.appended <+: records ∧
      (Machine.scheduled step t inTurns n).fs.data 0 = logLines records := by
  have hend : (Machine.run step (start blankFiles (ascii "a") 0)
      [.test, .enter (.put (ascii "k") (ascii "1")), .append (.put (ascii "k") (ascii "1")),
        .wake]).map Threads.closer = some .idle := by decide
  obtain ⟨s, hrun, hidle⟩ := Option.map_eq_some_iff.mp hend
  obtain ⟨t, n, records, h⟩ := closeLog_returns hrun hidle fair_inTurns
  exact ⟨s, t, n, records, hrun, h⟩

end Threads

end Taproot
