import Taproot.Durability
import Taproot.Dying
import Taproot.FixedPoints
import Taproot.Library.WriteBehind
import Taproot.Repeating

/-!
# Taproot.Generations

The **lives of a keyspace**: a process serves it, dies or shuts down, and the
next one constructs it again from its files, any number of times.

The specification is the write-behind history of the library, with the appended
records for its writes. `Mirrors` relates a keyspace to it: the file replays to
what is saved, the flusher's buffer holds the lines on their way, the log's
buffer those that are held, and the store is what the whole history leaves.
Every step of a life keeps it (`mirrors_live`), so what is saved is never lost,
and a crash forgets the latest records only.

The records have to read back as themselves, and a kill may not cut a line in
two: what becomes of such lines is said in `Taproot.Recovery`.
-/

namespace Taproot

open Posix Journal

/-- What can happen to a keyspace from one process to the next. -/
inductive Life
  | traffic (e : Event)
  /-- The process is killed when the flusher has written the first bytes of what
  it took over, and the keyspace is constructed again. -/
  | crash (bytes : Nat) (env : Env)
  /-- It is killed during its shutdown. -/
  | halt (env : Env) (stage : Stage) (env' : Env)
  /-- The keyspace is destroyed and constructed again. -/
  | restart (env env' : Env)

/-- What it means for the history. -/
def Life.act : Life → WriteBehind.Act Record
  | traffic .swap => .swap
  | traffic .write => .flush
  | traffic e => .write e.records
  | crash _ _ => .crash
  | halt _ _ _ => .halt
  | restart _ _ => .restart

namespace Keyspace

/-- A keyspace that is constructed from the files of an earlier one. -/
def reopen (env : Env) (fs : Files) (name : Bytes) : Option Keyspace :=
  match DB.new env fs name with
  | (fs, .ok db) => some ⟨fs, db⟩
  | (_, .error _) => none

/-- One step of the lives of a keyspace. -/
def live (ks : Keyspace) : Life → Option Keyspace
  | .traffic e => some (ks.step e).1
  | .crash bytes env =>
    reopen env (ks.db.logger.write ks.fs (ks.db.logger.localBuffer.take bytes)) ks.db.name
  | .halt env stage env' => reopen env' (ks.db.killed env ks.fs stage) ks.db.name
  | .restart env env' => reopen env' (ks.db.destroy env ks.fs).1 ks.db.name

/-- No line is cut in two. -/
def Unsevered (ks : Keyspace) : Stage → Prop
  | .closing bytes => Words.Terminated NEWLINE (ks.db.logger.pending.take bytes)
  | _ => True

/-- The records read back as themselves, no line is cut in two, what is compacted is
written out, and the flag of a new `DB` is down. -/
def Intact (ks : Keyspace) : Life → Prop
  | .traffic e => e.isTraffic = true ∧ ∀ r ∈ e.records, FixedRecord r
  | .crash bytes env =>
    Words.Terminated NEWLINE (ks.db.logger.localBuffer.take bytes) ∧ env.replaying = false
  | .halt env stage env' =>
    ks.Unsevered stage ∧ ks.db.WritesOut env ∧ env'.replaying = false
  | .restart env env' => ks.db.WritesOut env ∧ env'.replaying = false

end Keyspace

/-! ### Lines of fixed records -/

theorem FixedRecord.shape {r : Record} (h : FixedRecord r) : RecordShape r := by
  cases r with
  | put k v => exact ⟨h.1.keyShape, FixedValue.tokenShape h.2⟩
  | del k => exact FixedValue.tokenShape h

theorem fixedRecords_of_plain {rs : List Record} (h : ∀ r ∈ rs, PlainRecord r) :
    ∀ r ∈ rs, FixedRecord r := fun r hr => (h r hr).fixed

theorem logLines_eq_nil_iff {rs : List Record} : logLines rs = [] ↔ rs = [] := by
  cases rs with
  | nil => exact iff_of_true rfl rfl
  | cons r rs =>
      refine iff_of_false (fun h => ?_) (List.cons_ne_nil r rs)
      rw [logLines, List.flatMap_cons, line_eq] at h
      exact absurd h (by simp)

/-- A part of a log that no line is cut in is the log of a part. -/
theorem logLines_of_isPrefix {rs : List Record} (hrs : ∀ r ∈ rs, RecordShape r) {p : Bytes}
    (hp : p <+: logLines rs) (hterminated : Words.Terminated NEWLINE p) :
    ∃ rs', rs' <+: rs ∧ p = logLines rs' := by
  rw [logLines_eq_flatMap] at hp
  obtain ⟨rs', t, hpre, rfl, ht⟩ := Words.prefix_flatMap_lines hp
  refine ⟨rs', hpre, ?_⟩
  rw [← logLines_eq_flatMap] at hterminated ⊢
  rcases ht with rfl | ⟨r, rs'', rfl, ht⟩
  · exact List.append_nil _
  · have hnewline : NEWLINE ∉ t := fun hmem =>
      newline_notMem_lineText (hrs r (by simp)) (ht.subset hmem)
    -- what is left of a cut line would not end in a newline
    rcases hterminated with hnil | ⟨text, htext⟩
    · rw [hnil, (List.append_eq_nil_iff.mp hnil).1]
    · cases t using List.reverseRecOn with
      | nil => exact List.append_nil _
      | append_singleton t c =>
          rw [← List.append_assoc] at htext
          obtain ⟨-, hlast⟩ := List.append_inj' htext rfl
          refine absurd ?_ hnewline
          rw [← List.head_eq_of_cons_eq hlast]
          exact List.mem_append_right t List.mem_cons_self

/-- The lines of fixed records are read back as the records. -/
theorem runRecords_getlines_of_fixed {rs : List Record} (h : ∀ r ∈ rs, FixedRecord r) :
    runRecords (getlines (logLines rs)) = rs := by
  have hshape : ∀ r ∈ rs, RecordShape r := fun r hr => (h r hr).shape
  rw [runRecords_getlines_logLines hshape, flatMap_rereadRecord_of_fixed hshape h]

/-- Nothing is logged once more when the lines of a log are replayed. -/
theorem replayedRecords_logLines {rs : List Record} (h : ∀ r ∈ rs, RecordShape r) :
    DB.replayedRecords (getlines (logLines rs)) = [] := by
  rw [DB.replayedRecords_eq_nil_iff, getlines_logLines h]
  intro line hline hbatch
  obtain ⟨r, -, rfl⟩ := List.mem_map.mp hline
  refine absurd hbatch ?_
  cases r with
  | put k v => rw [tokens_lineText_put, isBatch, List.head?_cons]; decide
  | del k => rw [tokens_lineText_del, isBatch, List.head?_cons]; decide

/-- The text of a log that reads back as it is, and what it is loaded as. -/
def Stands (text : Bytes) (s : Store) : Prop :=
  ∃ past, text = logLines past ∧ (∀ r ∈ past, FixedRecord r) ∧ replay ∅ past = s

theorem stands_nil : Stands [] ∅ := ⟨[], rfl, fun _ hr => absurd hr List.not_mem_nil, rfl⟩

theorem Stands.append {text : Bytes} {s : Store} (h : Stands text s) {rs : List Record}
    (hrs : ∀ r ∈ rs, FixedRecord r) : Stands (text ++ logLines rs) (replay s rs) := by
  obtain ⟨past, rfl, hpast, rfl⟩ := h
  refine ⟨past ++ rs, (logLines_append past rs).symm, fun r hr => ?_, replay_append _ _ _⟩
  exact (List.mem_append.mp hr).elim (hpast r) (hrs r)

theorem Stands.replay_eq {text : Bytes} {s : Store} (h : Stands text s) :
    replay ∅ (runRecords (getlines text)) = s := by
  obtain ⟨past, rfl, hpast, rfl⟩ := h
  rw [runRecords_getlines_of_fixed hpast]

theorem Stands.replayedRecords_eq {text : Bytes} {s : Store} (h : Stands text s) :
    DB.replayedRecords (getlines text) = [] := by
  obtain ⟨past, rfl, hpast, -⟩ := h
  exact replayedRecords_logLines fun r hr => (hpast r hr).shape

/-- A compaction reads back as well. -/
theorem Stands.compacted {text : Bytes} {s : Store} (h : Stands text s) (env : Env) :
    Stands (Log.compacted env s) s := by
  obtain ⟨past, -, hpast, rfl⟩ := h
  refine ⟨_, Keyspace.compacted_eq env _, fun r hr => ?_, replay_puts_entries _ _⟩
  obtain ⟨e, he, rfl⟩ := mem_puts.mp hr
  -- what the store holds was put by a record of the log
  rcases mem_or_put_of_mem_replay ((env.iteration.mem_entries_iff _).mp he) with hnone | hput
  · exact absurd hnone (by simp)
  · exact hpast _ hput

namespace Keyspace

/-! ### The simulation -/

/-- Once the log is closed, a killed shutdown leaves a text that stands for the same. -/
theorem stands_killedContent {ks : Keyspace} (h : Stands ks.text ks.db.store) (env : Env)
    {stage : Stage} (hstage : ∀ bytes, stage ≠ .closing bytes) :
    Stands (ks.killedContent env stage) ks.db.store := by
  have hcompacted : Stands (if Log.Skips ks.db.store (ks.db.dirty % SIZE_MOD) then ks.text
      else Log.compacted env ks.db.store) ks.db.store := by
    split
    · exact h
    · exact h.compacted env
  cases stage with
  | closing bytes => exact absurd rfl (hstage bytes)
  | compacting bytes => exact h
  | compacted => exact hcompacted
  | saving bytes => exact hcompacted

/-- The paths of a keyspace are three entries, as far as its log is concerned. -/
structure Separate (fs : Files) (name a : Bytes) : Prop extends Holds fs name a where
  temp_ne : fs.resolve (tempPath name) ≠ some a

theorem Separate.congr {fs fs' : Files} {name a : Bytes} (h : Separate fs name a)
    (hresolve : fs'.resolve = fs.resolve) : Separate fs' name a where
  toHolds := h.toHolds.congr hresolve
  temp_ne := hresolve ▸ h.temp_ne

theorem separate_blankFiles (name : Bytes) : Separate blankFiles name (aofPath name) where
  toHolds := holds_blankFiles name
  temp_ne := fun heq => by
    have hpath : tempPath name = aofPath name := Option.some.inj heq
    exact absurd (congrArg List.length hpath) (by simp [tempPath, aofPath, ascii])

/-- The files and the log are where the history says. -/
structure Logged (name a : Bytes) (ks : Keyspace) (w : WriteBehind Record) : Prop where
  attached : Attached name a ks
  paths : Separate ks.fs name a
  isOpen : ks.db.logger.logfile.isSome
  replaying : ks.db.replaying = false
  /-- The file need not hold all that is saved: it may have been compacted. -/
  saved : Stands ks.content (replay ∅ w.saved)
  inflight : ks.db.logger.localBuffer = logLines w.inflight
  held : ks.db.logger.logBuffer = logLines w.held
  fixed : ∀ r ∈ w.history, FixedRecord r

/-- And so is the store. -/
structure Mirrors (name a : Bytes) (ks : Keyspace) (w : WriteBehind Record) : Prop
    extends Logged name a ks w where
  store : ks.db.store = replay ∅ w.history

variable {name a : Bytes} {ks : Keyspace} {w : WriteBehind Record}

theorem Logged.pending (h : Logged name a ks w) :
    ks.db.logger.pending = logLines (w.inflight ++ w.held) := by
  rw [Log.pending, h.inflight, h.held, logLines_append]

theorem Logged.fixed_inflight (h : Logged name a ks w) : ∀ r ∈ w.inflight, FixedRecord r := by
  intro r hr
  refine h.fixed r ?_
  rw [← w.saved_append]
  exact List.mem_append_left _ (List.mem_append_right _ hr)

theorem Logged.fixed_pending (h : Logged name a ks w) :
    ∀ r ∈ w.inflight ++ w.held, FixedRecord r := by
  intro r hr
  refine h.fixed r ?_
  rw [← w.saved_append, List.append_assoc]
  exact List.mem_append_right _ hr

theorem Mirrors.text (h : Mirrors name a ks w) : Stands ks.text ks.db.store := by
  rw [Keyspace.text, h.pending, h.store, ← w.saved_append, List.append_assoc, replay_append]
  exact h.saved.append h.fixed_pending

/-- A shutdown leaves a text that stands for the same. -/
theorem stands_content_shutdown (ha : Attached name a ks) (hpaths : Holds ks.fs name a)
    (htext : Stands ks.text ks.db.store) {env : Env} (henv : ks.db.WritesOut env) :
    Stands (ks.step (.shutdown env)).1.content ks.db.store := by
  -- the log is as it was with what was pending, or compacted
  by_cases hskips : Log.Skips ks.db.store (ks.db.dirty % SIZE_MOD)
  · rw [content_shutdown_of_skips ha hpaths.db env hskips]
    exact htext
  · rw [content_shutdown_of_compacts ha hpaths (henv hskips) hskips]
    exact htext.compacted env

/-- **A keyspace that is constructed** over such a text. -/
theorem mirrors_reopen {fs : Files} {env : Env} (hpaths : Separate fs name a) {us : List Record}
    (hread : Stands ((fs.read (aofPath name)).getD []) (replay ∅ us))
    (hus : ∀ r ∈ us, FixedRecord r) (henv : env.replaying = false) :
    ∃ ks', reopen env fs name = some ks' ∧ Mirrors name a ks' (.settled us) := by
  obtain ⟨fs', i, hnew, ha, hread'⟩ := new_attached env hpaths.aof
  obtain ⟨j, -, hnew'⟩ := DB.new_eq env hpaths.aof
  have hfs : fs' = (fs.openAppend (aofPath name)).1 := (Prod.mk.inj (hnew.symm.trans hnew')).1
  refine ⟨_, by rw [reopen, hnew], ?_⟩
  exact {
    attached := ha
    paths := hpaths.congr (hfs ▸ FS.openAppend_resolve fs _)
    isOpen := by
      rw [DB.loaded, Log.appendAll_logfile]
      rfl
    replaying := by
      rw [DB.loaded]
      split
      · exact henv
      · rfl
    saved := by
      rw [content, ha.name_eq, hread', WriteBehind.saved_settled]
      exact hread
    -- replaying appends nothing: the log has no batches
    inflight := by
      rw [WriteBehind.inflight_settled, DB.loaded, hread.replayedRecords_eq]
      rfl
    held := by
      rw [WriteBehind.held_settled, DB.loaded, hread.replayedRecords_eq]
      rfl
    fixed := hus
    store := hread.replay_eq }

theorem mirrors_new {fs fs' : Files} {env : Env} {db : DB} {past : List Record}
    (hpaths : Separate fs name a) (hread : (fs.read (aofPath name)).getD [] = logLines past)
    (hpast : ∀ r ∈ past, FixedRecord r) (henv : env.replaying = false)
    (hnew : DB.new env fs name = (fs', .ok db)) : Mirrors name a ⟨fs', db⟩ (.settled past) := by
  obtain ⟨ks, hreopen, hmirrors⟩ := mirrors_reopen hpaths ⟨past, hread, hpast, rfl⟩ hpast henv
  rw [reopen, hnew] at hreopen
  exact Option.some.inj hreopen ▸ hmirrors

/-- The store and its counter are no part of the log. -/
theorem Logged.update (h : Logged name a ks w) (rs : List Record) :
    Logged name a { ks with db := ks.db.update rs } w :=
  { h with attached := { h.attached with } }

/-- Records that are appended are held. -/
theorem Logged.append (h : Logged name a ks w) {rs : List Record}
    (hrs : ∀ r ∈ rs, FixedRecord r) :
    Logged name a { ks with db := { ks.db with logger := ks.db.logger.appendAll rs } }
      (w.write rs) := by
  obtain ⟨i, hi⟩ := Option.isSome_iff_exists.mp h.isOpen
  have hsound := h.attached.sound.appendAll rs
  rw [Log.appendAll_of_open hi] at hsound ⊢
  exact {
    attached := { h.attached with sound := hsound }
    paths := h.paths
    isOpen := h.isOpen
    replaying := h.replaying
    saved := by rw [WriteBehind.saved_write]; exact h.saved
    inflight := by rw [WriteBehind.inflight_write]; exact h.inflight
    held := by rw [WriteBehind.held_write, logLines_append, ← h.held]
    fixed := by
      intro r hr
      rcases List.mem_append.mp hr with hr | hr
      · exact h.fixed r hr
      · exact hrs r hr }

theorem Logged.swap (h : Logged name a ks w) : Logged name a (ks.step .swap).1 w.swap := by
  have hthread : ks.db.logger.flushThread = true := h.attached.sound.thread.trans h.isOpen
  have hlocal : ks.db.logger.localBuffer = [] ↔ w.inflight = [] := by
    rw [h.inflight, logLines_eq_nil_iff]
  have hbuffers : ks.db.logger.flusherSwap.localBuffer = logLines w.swap.inflight ∧
      ks.db.logger.flusherSwap.logBuffer = logLines w.swap.held := by
    rw [Log.flusherSwap]
    by_cases hnil : w.inflight = []
    · obtain ⟨hinflight, hheld⟩ := WriteBehind.swap_of_inflight_eq_nil hnil
      rw [if_pos ⟨hthread, hlocal.mpr hnil⟩, hinflight, hheld]
      exact ⟨h.held, rfl⟩
    · rw [if_neg fun hc => hnil (hlocal.mp hc.2), WriteBehind.swap_of_inflight_ne_nil hnil]
      exact ⟨h.inflight, h.held⟩
  exact {
    attached := attached_step h.attached .swap
    paths := h.paths
    isOpen := by
      show ks.db.logger.flusherSwap.logfile.isSome = true
      rw [Log.flusherSwap_logfile]
      exact h.isOpen
    replaying := h.replaying
    saved := h.saved
    inflight := hbuffers.1
    held := hbuffers.2
    fixed := h.fixed }

theorem Logged.flush (h : Logged name a ks w) : Logged name a (ks.step .write).1 w.flush := by
  have htext := text_write h.attached
  have hpending : (ks.step .write).1.db.logger.pending = ks.db.logger.logBuffer := rfl
  rw [text, text, hpending, Log.pending, ← List.append_assoc] at htext
  exact {
    attached := attached_step h.attached .write
    paths := h.paths.congr (step_resolve ks .write)
    isOpen := h.isOpen
    replaying := h.replaying
    saved := by
      rw [List.append_cancel_right htext, h.inflight, WriteBehind.saved_flush, replay_append]
      exact h.saved.append h.fixed_inflight
    inflight := by rw [WriteBehind.inflight_flush]; rfl
    held := h.held
    fixed := h.fixed }

theorem mirrors_traffic (h : Mirrors name a ks w) {e : Event} (hev : e.isTraffic = true)
    (hfixed : ∀ r ∈ e.records, FixedRecord r) :
    ∃ w', WriteBehind.Step w (Life.traffic e).act w' ∧ Mirrors name a (ks.step e).1 w' := by
  cases e with
  | command c =>
      refine ⟨_, .write w (commandRecords (tokens c)), ?_⟩
      rw [step_command (h.attached.appends none), DB.execute_eq h.replaying]
      exact {
        toLogged := (h.toLogged.update (commandRecords (tokens c))).append hfixed
        store := by
          show replay ks.db.store (commandRecords (tokens c)) = _
          rw [h.store, ← replay_append, WriteBehind.history_write] }
  | swap => exact ⟨_, .swap w, { toLogged := h.toLogged.swap, store := h.store }⟩
  | write => exact ⟨_, .flush w, { toLogged := h.toLogged.flush, store := h.store }⟩
  | call c => exact absurd hev Bool.false_ne_true
  | clearData => exact absurd hev Bool.false_ne_true
  | shutdown env => exact absurd hev Bool.false_ne_true

/-- A keyspace that is cleared while nothing is pending starts again. -/
theorem mirrors_clearData (h : Mirrors name a ks w) (hpending : ks.db.logger.pending = []) :
    Mirrors name a (ks.step .clearData).1 (.settled []) := by
  obtain ⟨hlocal, hbuffer⟩ := List.append_eq_nil_iff.mp hpending
  exact {
    attached := attached_step h.attached .clearData
    paths := h.paths.congr (step_resolve ks .clearData)
    isOpen := h.isOpen
    replaying := h.replaying
    saved := by
      rw [content_clearData h.attached h.paths.toHolds, WriteBehind.saved_settled]
      exact stands_nil
    inflight := by rw [WriteBehind.inflight_settled]; exact hlocal
    held := by rw [WriteBehind.held_settled]; exact hbuffer
    fixed := fun r hr => absurd hr List.not_mem_nil
    store := rfl }

/-- Only the path of its log matters of the files. -/
theorem Mirrors.congr_fs {fs fs' : Files} {db : DB} (h : Mirrors name a ⟨fs, db⟩ w)
    (hresolve : fs'.resolve = fs.resolve) (hview : fs'.view a = fs.view a) :
    Mirrors name a ⟨fs', db⟩ w := by
  have hdir : fs'.dir a = fs.dir a := by
    cases hi : fs.dir a with
    | none => exact FS.view_eq_none_iff.mp (hview.trans (FS.view_eq_none_iff.mpr hi))
    | some i =>
        have hself : fs.view a = some (i, fs.data i) := FS.view_eq_some_iff.mpr ⟨hi, rfl⟩
        exact (FS.view_eq_some_iff.mp (hview.trans hself)).1
  have hattached : Attached name a ⟨fs', db⟩ := { h.attached with
    aof := (congrFun hresolve _).trans h.attached.aof
    present := by
      show (fs'.dir a).isSome = true
      rw [hdir]
      exact h.attached.present
    stream := fun i hi => hdir.trans (h.attached.stream i hi) }
  exact { h with
    attached := hattached
    paths := h.paths.congr hresolve
    saved := by
      rw [hattached.content_eq]
      show Stands (((fs'.view a).map Prod.snd).getD []) _
      rw [hview, ← h.attached.content_eq]
      exact h.saved }

/-- A part of what was pending has reached the file: the first records of it. -/
theorem mirrors_cut (h : Logged name a ks w) {env : Env} (henv : env.replaying = false)
    {fs : Files} (hresolve : fs.resolve = ks.fs.resolve) {rs : List Record} {p : Bytes}
    (hread : fs.read (aofPath name) = some (ks.content ++ p)) (hp : p <+: logLines rs)
    (hrs : ∀ r ∈ rs, FixedRecord r) (hterminated : Words.Terminated NEWLINE p) :
    ∃ rs' ks', rs' <+: rs ∧ reopen env fs name = some ks' ∧
      Mirrors name a ks' (.settled (w.saved ++ rs')) := by
  obtain ⟨rs', hpre, rfl⟩ :=
    logLines_of_isPrefix (fun r hr => (hrs r hr).shape) hp hterminated
  have hrs' : ∀ r ∈ rs', FixedRecord r := fun r hr => hrs r (hpre.subset hr)
  have hstands : Stands ((fs.read (aofPath name)).getD []) (replay ∅ (w.saved ++ rs')) := by
    rw [hread, replay_append]
    exact h.saved.append hrs'
  obtain ⟨ks', hreopen, hmirrors⟩ := mirrors_reopen (h.paths.congr hresolve) hstands
    (fun r hr => (List.mem_append.mp hr).elim (fun hr => h.fixed r (w.saved_prefix.subset hr))
      (hrs' r)) henv
  exact ⟨rs', ks', hpre, hreopen, hmirrors⟩

/-- All of it has, in one way or another: nothing is lost. -/
theorem mirrors_kept (h : Mirrors name a ks w) {env : Env} (henv : env.replaying = false)
    {fs : Files} (hresolve : fs.resolve = ks.fs.resolve) {content : Bytes}
    (hread : fs.read (aofPath name) = some content) (hstands : Stands content ks.db.store) :
    ∃ ks', reopen env fs name = some ks' ∧ Mirrors name a ks' (.settled w.history) := by
  refine mirrors_reopen (h.paths.congr hresolve) ?_ h.fixed henv
  rw [hread, ← h.store]
  exact hstands

/-- The process is killed at once: the first records of those on their way are there. -/
theorem Logged.crash (h : Logged name a ks w) {bytes : Nat} {env : Env}
    (hterminated : Words.Terminated NEWLINE (ks.db.logger.localBuffer.take bytes))
    (henv : env.replaying = false) :
    ∃ ks' us, ks.live (.crash bytes env) = some ks' ∧ w.saved <+: us ∧
      us <+: w.saved ++ w.inflight ∧ Mirrors name a ks' (.settled us) := by
  obtain ⟨i, hi⟩ := Option.isSome_iff_exists.mp h.isOpen
  have hresolve := Log.write_resolve ks.fs ks.db.logger (ks.db.logger.localBuffer.take bytes)
  have hread : (ks.db.logger.write ks.fs (ks.db.logger.localBuffer.take bytes)).read
      (aofPath name) = some (ks.content ++ ks.db.logger.localBuffer.take bytes) := by
    rw [FS.read_eq ((congrFun hresolve _).trans h.attached.aof), h.attached.view_write hi]
    rfl
  obtain ⟨rs, ks', hprefix, hreopen, hmirrors⟩ := mirrors_cut h henv hresolve hread
    (h.inflight ▸ List.take_prefix _ _) h.fixed_inflight hterminated
  exact ⟨ks', _, by rw [live, h.attached.name_eq, hreopen], List.prefix_append _ _,
    (List.prefix_append_right_inj _).mpr hprefix, hmirrors⟩

/-- **One step of the lives of a keyspace** is one of its history. The keyspace
always comes back. -/
theorem mirrors_live (h : Mirrors name a ks w) {life : Life} (hlife : ks.Intact life) :
    ∃ ks' w', ks.live life = some ks' ∧ WriteBehind.Step w life.act w' ∧
      Mirrors name a ks' w' := by
  have hname := h.attached.name_eq
  cases life with
  | traffic e =>
      obtain ⟨w', hstep, hmirrors⟩ := mirrors_traffic h hlife.1 hlife.2
      exact ⟨_, w', rfl, hstep, hmirrors⟩
  | crash bytes env =>
      obtain ⟨ks', us, hlive, hsaved, hus, hmirrors⟩ := h.toLogged.crash hlife.1 hlife.2
      exact ⟨ks', _, hlive, .crash hsaved hus, hmirrors⟩
  | halt env stage env' =>
      obtain ⟨hsevered, henv, henv'⟩ := hlife
      have hresolve := DB.killed_resolve env ks.fs ks.db stage
      have hread := content_killed h.attached h.paths.toHolds h.paths.temp_ne henv stage
      -- only while the log is being closed is less than the whole history in the file
      have hkept : (∀ bytes, stage ≠ .closing bytes) →
          ∃ ks' w', ks.live (.halt env stage env') = some ks' ∧ WriteBehind.Step w .halt w' ∧
            Mirrors name a ks' w' := by
        intro hstage
        obtain ⟨ks', hreopen, hmirrors⟩ := mirrors_kept h henv' hresolve hread
          (stands_killedContent h.text env hstage)
        exact ⟨ks', _, by rw [live, hname, hreopen], .halt w.saved_prefix List.prefix_rfl, hmirrors⟩
      cases stage with
      | closing bytes =>
          obtain ⟨rs, ks', hprefix, hreopen, hmirrors⟩ := mirrors_cut h.toLogged henv' hresolve
            hread (h.pending ▸ List.take_prefix _ _) h.fixed_pending hsevered
          refine ⟨ks', _, by rw [live, hname, hreopen], .halt (List.prefix_append _ _) ?_, hmirrors⟩
          rw [← w.saved_append, List.append_assoc]
          exact (List.prefix_append_right_inj _).mpr hprefix
      | compacting bytes => exact hkept fun _ => by simp
      | compacted => exact hkept fun _ => by simp
      | saving bytes => exact hkept fun _ => by simp
  | restart env env' =>
      have hresolve := DB.destroy_resolve env ks.fs ks.db
      have hread : (ks.db.destroy env ks.fs).1.read (aofPath name) =
          some (ks.step (.shutdown env)).1.content := by
        rw [DB.destroy_fst]
        exact (attached_step h.attached (.shutdown env)).read_aof
      obtain ⟨ks', hreopen, hmirrors⟩ := mirrors_kept h hlife.2 hresolve hread
        (stands_content_shutdown h.attached h.paths.toHolds h.text hlife.1)
      exact ⟨ks', _, by rw [live, hname, hreopen], .restart w, hmirrors⟩

/-! ### Lives -/

theorem mirrors_lives (h : Mirrors name a ks w) {ls : List Life}
    (hlives : Machine.Guarded live Intact ks ls) :
    ∃ ks' w', Machine.run live ks ls = some ks' ∧
      Machine.Steps WriteBehind.Step w (ls.map Life.act) w' ∧ Mirrors name a ks' w' := by
  have hstep : ∀ ks life w, Mirrors name a ks w → ks.Intact life → ∃ ks' w',
      ks.live life = some ks' ∧ WriteBehind.Step w life.act w' ∧ Mirrors name a ks' w' :=
    fun ks life w h hlife => mirrors_live h hlife
  exact hlives.simulated hstep h

/-- The history accounts for the store, and what is saved of it for the file. -/
structure Explains (w : WriteBehind Record) (ks : Keyspace) : Prop where
  store : ks.db.store = replay ∅ w.history
  content : replay ∅ (runRecords (getlines ks.content)) = replay (∅ : Store) w.saved

theorem Mirrors.explains (h : Mirrors name a ks w) : Explains w ks where
  store := h.store
  content := h.saved.replay_eq

end Keyspace

end Taproot
