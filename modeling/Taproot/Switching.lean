import Taproot.Server
import Taproot.Library.Machine

/-!
# Taproot.Switching

What **switching the keyspace** does to the log that is appended to.

The old `DB` is shut down before the new one is known to open: a switch that
fails leaves the server with a closed log (`failed_switch_disturbs`). A switch
that succeeds destroys the old `DB` after the new one has opened its file, and
the destructor compacts once more: its rename can take the file away from under
the new stream. `current_run_iff` says in which runs it never does.
-/

namespace Taproot

open Posix Journal

/-! ### Logs that are shut down -/

/-- Closing a log keeps its history. -/
theorem Log.closeLog_appended (fs : Files) (log : Log) :
    (log.closeLog fs).2.appended = log.appended := by rw [closeLog_snd]; rfl

namespace DB

/-- Commands on a closed log append nothing. -/
theorem runCommands_of_closed {staleName : Option Bytes} {db db' : DB} {cs : List Bytes}
    (h : db.logger.logfile = none) (hrun : db.runCommands staleName cs = .ok db') :
    db'.logger = db.logger := by
  induction cs generalizing db with
  | nil => rw [Except.ok.inj hrun]
  | cons c cs ih =>
      have hlogger : (db.execute (tokens c)).logger = db.logger :=
        Log.appendAll_of_closed h _
      rw [runCommands, List.foldlM_cons, parseCommand_eq_ite] at hrun
      split at hrun
      · exact (ih (hlogger ▸ h) hrun).trans hlogger
      · exact absurd hrun (by simp [bind, Except.bind])

end DB

namespace Server

variable {env env' : Env} {s s' : Server} {input name reply : Bytes}

/-- **How a switch is answered**: with an error, and then the server is left
with the keyspace it has shut down; or the new `DB` was constructed, and the
destructor of the old one has returned. -/
theorem useKeyspace_inv (h : s.useKeyspace env env' name = (s', .ok reply)) :
    (s'.db = (s.db.shutdown env s.fs).2.1 ∧ ∃ what, reply = switchError name what) ∨
    ∃ fs₁ fs₂ old db, s.db.shutdown env s.fs = (fs₁, old, .ok ()) ∧
      DB.new env fs₁ name = (fs₂, .ok db) ∧ (old.destroy env' fs₂).2 = .ok () ∧
      s' = { s with fs := (old.destroy env' fs₂).1, db := db.orphaned } ∧
      reply = ascii "OK switched keyspace to " ++ name := by
  unfold useKeyspace at h
  split at h
  · next fs db what heq =>
      obtain ⟨rfl, hreply⟩ := Prod.mk.inj h
      exact Or.inl ⟨by rw [heq], what, (Except.ok.inj hreply).symm⟩
  · exact absurd (Prod.mk.inj h).2 (by simp)
  · next fs₁ old hshutdown =>
      split at h
      · next fs₂ what hnew =>
          obtain ⟨rfl, hreply⟩ := Prod.mk.inj h
          exact Or.inl ⟨by rw [hshutdown], what, (Except.ok.inj hreply).symm⟩
      · exact absurd (Prod.mk.inj h).2 (by simp)
      · next fs₂ db hnew =>
          split at h
          · exact absurd (Prod.mk.inj h).2 (by simp)
          · next fs₃ hdestroy =>
              obtain ⟨rfl, hreply⟩ := Prod.mk.inj h
              refine Or.inr
                ⟨fs₁, fs₂, old, db, hshutdown, hnew, ?_, ?_, (Except.ok.inj hreply).symm⟩
              · rw [hdestroy]
              · rw [hdestroy]

/-- The two kinds of answers can be told apart. -/
theorem not_err_prefix_ok (name : Bytes) :
    ¬ascii "ERR" <+: ascii "OK switched keyspace to " ++ name := by
  intro h
  obtain ⟨rest, hrest⟩ := h
  exact absurd (congrArg List.head? hrest) (by simp [ascii])

theorem err_prefix_switchError (name what : Bytes) : ascii "ERR" <+: switchError name what := by
  rw [switchError, List.append_assoc, List.append_assoc]
  exact (by decide : ascii "ERR" <+: ascii "ERR couldn't switch to keyspace ").trans
    (List.prefix_append _ _)

/-! ### Switches that fail -/

/-- A name whose log cannot be opened is answered with an error. -/
theorem useKeyspace_of_unresolved (hok : (s.db.shutdown env s.fs).2.2 = .ok ())
    (hname : s.fs.resolve (aofPath name) = none) :
    (s.useKeyspace env env' name).2 =
      .ok (switchError name (ascii "Failed to open log file descriptor.")) := by
  have hresolve := congrFun (DB.shutdown_resolve env s.fs s.db) (aofPath name)
  rw [hname] at hresolve
  unfold useKeyspace
  split
  · next heq => rw [heq] at hok; exact absurd hok (by simp)
  · next heq => rw [heq] at hok; exact absurd hok (by simp)
  · next fs₁ old heq =>
      rw [heq] at hresolve
      rw [DB.new_eq_error env hresolve]

/-- The commands in the log of a `DB` after a run of commands. -/
def loggedBy (staleName : Option Bytes) (db : DB) (cs : List Bytes) : Option (List Record) :=
  match db.runCommands staleName cs with
  | .ok db => some db.logger.appended
  | .error _ => none

/-- Whatever writing commands come next, the same is appended. -/
def LogsAlike (staleName : Option Bytes) (s s' : Server) : Prop :=
  ∀ cs, (∀ c ∈ cs, IsMutation (tokens c)) →
    loggedBy staleName s'.db cs = loggedBy staleName s.db cs

/-- The server still serves its keyspace as it would have. -/
def Undisturbed (staleName : Option Bytes) (s s' : Server) : Prop :=
  s'.db.name = s.db.name ∧ s'.db.logger.logfile.isSome = true ∧ LogsAlike staleName s s'

/-- After a failed switch the log is closed, and stays as it was. -/
theorem loggedBy_of_failed (htokens : tokens input = [ascii "use", name])
    (hreply : (s.dispatcher env env' input).2 = .ok reply) (herr : ascii "ERR" <+: reply) :
    (s.dispatcher env env' input).1.db.logger.logfile = none ∧
      ∀ staleName cs rs, loggedBy staleName (s.dispatcher env env' input).1.db cs = some rs →
        rs = s.db.logger.appended := by
  rw [dispatcher_use htokens] at hreply ⊢
  have hdb : (s.useKeyspace env env' name).1.db = (s.db.shutdown env s.fs).2.1 := by
    rcases useKeyspace_inv (Prod.ext rfl hreply) with ⟨hdb, -⟩ | ⟨-, -, -, -, -, -, -, -, hok⟩
    · exact hdb
    · exact absurd (hok ▸ herr) (not_err_prefix_ok name)
  rw [hdb, DB.shutdown_db]
  refine ⟨rfl, fun staleName cs rs hlogged => ?_⟩
  -- a closed log takes no lines
  have hclosed : { s.db with logger := (s.db.logger.closeLog s.fs).2 }.logger.logfile = none := rfl
  rw [loggedBy] at hlogged
  split at hlogged
  · next db' hrun =>
      have hlogger := DB.runCommands_of_closed hclosed hrun
      rw [← Option.some.inj hlogged, hlogger]
      exact Log.closeLog_appended s.fs _
  · exact absurd hlogged (by simp)

/-- An open log grows by every batch. -/
theorem loggedBy_batch {db : DB} (hopen : db.logger.logfile.isSome = true)
    (staleName : Option Bytes) : loggedBy staleName db [ascii "mdel a b"] =
      some (db.logger.appended ++ [.del (ascii "a"), .del (ascii "b")]) := by
  obtain ⟨i, hi⟩ := Option.isSome_iff_exists.mp hopen
  have hrecords : loggedRecords db.replaying (tokens (ascii "mdel a b")) =
      [.del (ascii "a"), .del (ascii "b")] := by
    cases db.replaying <;> decide
  rw [loggedBy, DB.runCommands, List.foldlM_cons,
    DB.parseCommand_eq (DB.executes_of_appends (Or.inl hopen) _)]
  show some
    (db.logger.appendAll (loggedRecords db.replaying (tokens (ascii "mdel a b")))).appended = _
  rw [hrecords, Log.appendAll_of_open hi]

theorem not_logsAlike {staleName : Option Bytes} (hopen : s.db.logger.logfile.isSome = true)
    (hlogged : ∀ cs rs, loggedBy staleName s'.db cs = some rs → rs = s.db.logger.appended) :
    ¬LogsAlike staleName s s' := by
  intro halike
  have hbatch := halike [ascii "mdel a b"] (List.forall_mem_singleton.mpr (by decide))
  rw [loggedBy_batch hopen] at hbatch
  simpa using hlogged _ _ hbatch

/-- **A failed switch disturbs the server**, in every state: its log is closed,
and if it was open before, then what is written from now on is lost. -/
theorem failed_switch_disturbs (htokens : tokens input = [ascii "use", name])
    (hreply : (s.dispatcher env env' input).2 = .ok reply) (herr : ascii "ERR" <+: reply)
    (staleName : Option Bytes) :
    ¬Undisturbed staleName s (s.dispatcher env env' input).1 ∧
      (s.db.logger.logfile.isSome = true →
        ¬LogsAlike staleName s (s.dispatcher env env' input).1) := by
  -- `shutdown` comes before the constructor that throws, and closes the log
  obtain ⟨hclosed, hlogged⟩ := loggedBy_of_failed htokens hreply herr
  refine ⟨?_, fun hopen => not_logsAlike hopen (hlogged staleName)⟩
  intro hundisturbed
  obtain ⟨-, hopen, -⟩ := hundisturbed
  rw [hclosed] at hopen
  exact absurd hopen (by simp)

/-- No files yet, and no directory besides `logs`. -/
def flatFiles : Files :=
  { blankFiles with resolve := fun p => if p.count 47 = 1 then some p else none }

/-- Serialising nothing takes eleven bytes. -/
theorem serialize_empty (env : Env) : (Log.serialize env ∅).length = 11 := by
  have hentries : env.iteration.entries ∅ = [] :=
    (Multiset.coe_eq_zero _).mp (env.iteration.coe_entries ∅)
  rw [Log.serialize, hentries]
  rfl

/-- A server on these files, asked for a name in a directory that is not there. -/
theorem new_flatFiles :
    ∃ s, Server.new Env.calm flatFiles (ascii "a") = (s.fs, .ok s) ∧
      s.db.logger.logfile.isSome = true ∧
      (s.dispatcher Env.calm Env.calm (ascii "use x/y")).2 =
        .ok (switchError (ascii "x/y") (ascii "Failed to open log file descriptor.")) := by
  have haof : flatFiles.resolve (aofPath (ascii "a")) = some (aofPath (ascii "a")) := by decide
  obtain ⟨i, -, hnew⟩ := DB.new_eq Env.calm haof
  obtain ⟨a, j, -, -, -, hattached, -⟩ := Keyspace.new_inv hnew
  let s : Server := ⟨(flatFiles.openAppend (aofPath (ascii "a"))).1,
    DB.loaded Env.calm (ascii "a") i [], false⟩
  refine ⟨s, by rw [Server.new, hnew]; rfl, rfl, ?_⟩
  have htokens : tokens (ascii "use x/y") = [ascii "use", ascii "x/y"] := by decide
  rw [dispatcher_use htokens]
  refine useKeyspace_of_unresolved (DB.shutdown_ok hattached.sound ?_ ?_) ?_
  · exact fun hcompacts => absurd (Or.inl (Nat.le_refl 0)) hcompacts
  · exact (serialize_empty Env.calm).trans_le (by decide)
  · rw [FS.openAppend_resolve]
    decide

theorem failed_switch_disturbs_directory :
    ∃ s, Server.new Env.calm flatFiles (ascii "a") = (s.fs, .ok s) ∧
      ¬Undisturbed none s (s.dispatcher Env.calm Env.calm (ascii "use x/y")).1 := by
  obtain ⟨s, hnew, -, hreply⟩ := new_flatFiles
  have htokens : tokens (ascii "use x/y") = [ascii "use", ascii "x/y"] := by decide
  exact ⟨s, hnew, (failed_switch_disturbs htokens hreply (by decide) none).1⟩

/-- The request is answered with an error, and the next batch is not logged. -/
theorem not_undisturbed :
    ∃ s reply, Server.new Env.calm flatFiles (ascii "a") = (s.fs, .ok s) ∧
      s.db.logger.logfile.isSome = true ∧
      (s.dispatcher Env.calm Env.calm (ascii "use x/y")).2 = .ok reply ∧ ascii "ERR" <+: reply ∧
      ∀ staleName, ¬LogsAlike staleName s (s.dispatcher Env.calm Env.calm (ascii "use x/y")).1 := by
  obtain ⟨s, hnew, hopen, hreply⟩ := new_flatFiles
  have htokens : tokens (ascii "use x/y") = [ascii "use", ascii "x/y"] := by decide
  obtain ⟨-, hlogged⟩ := loggedBy_of_failed htokens hreply (by decide)
  exact ⟨s, _, hnew, hopen, hreply, by decide,
    fun staleName => not_logsAlike hopen (hlogged staleName)⟩

/-! ### Switches that succeed -/

/-- What a server can be asked to do while it serves, and the two halves of the
flusher's round. -/
inductive Action
  | request (env env' : Env) (input : Bytes)
  | swap
  | write

/-- The request goes to the `use` branch. -/
def IsUse (input : Bytes) : Prop :=
  (tokens input).head? = some (ascii "use") ∧ (tokens input).length = 2

instance (input : Bytes) : Decidable (IsUse input) := by unfold IsUse; infer_instance

theorem isUse_iff : IsUse input ↔ ∃ name, tokens input = [ascii "use", name] := by
  constructor
  · intro h
    obtain ⟨op, name, htokens⟩ := List.length_eq_two.mp h.2
    have hhead := h.1
    rw [htokens] at hhead
    exact ⟨name, by rw [htokens, Option.some.inj hhead]⟩
  · intro h
    obtain ⟨name, htokens⟩ := h
    rw [IsUse, htokens]
    exact ⟨rfl, rfl⟩

theorem not_isUse_of_isQuit (h : IsQuit input) : ¬IsUse input := by
  intro huse
  rw [IsUse, length_tokens_of_isQuit h] at huse
  exact absurd huse.2 (by decide)

/-- One step before the server ends; `none` also for a switch that is answered
with an error, and for a request that is not answered at all. -/
def serve (s : Server) : Action → Option Server
  | .request env env' input =>
    if IsQuit input then none
    else
      match s.dispatcher env env' input with
      | (_, .error _) => none
      | (s', .ok reply) => if IsUse input ∧ ascii "ERR" <+: reply then none else some s'
  | .swap => some { s with db := { s.db with logger := s.db.logger.flusherSwap } }
  | .write => some { s with
      fs := (s.db.logger.flusherWrite s.fs).1
      db := { s.db with logger := (s.db.logger.flusherWrite s.fs).2 } }

/-- The stream of the log is the file that the path of the keyspace names. -/
def Current (s : Server) : Prop :=
  ∃ i, s.db.logger.logfile = some i ∧ s.fs.ino (aofPath s.db.name) = some i

/-- The destructor of the old `DB` leaves the file of `name` where it is: it has
nothing to compact, or the two ends of its rename are both that file or both
others. -/
def SafeSwitch (env' : Env) (s : Server) (name : Bytes) : Prop :=
  Log.Skips s.db.store (s.db.dirty % SIZE_MOD) ∨
    ∀ read, s.db.logger.keyspaceName.read env'.staleName = .ok read →
      (s.fs.resolve (tempPath read) = s.fs.resolve (aofPath name) ↔
        s.fs.resolve s.db.logger.logFilepath = s.fs.resolve (aofPath name))

/-- The step is not a switch that takes the file away from the new log. -/
def KeepsStream (s : Server) : Action → Prop
  | .request _ env' input => ∀ name, tokens input = [ascii "use", name] → SafeSwitch env' s name
  | _ => True

/-- A new `DB` appends to the file of its keyspace. -/
theorem new_stream {fs fs' : Files} {db : DB} (hnew : DB.new env fs name = (fs', .ok db)) :
    ∃ a i, fs'.resolve (aofPath name) = some a ∧ fs'.dir a = some i ∧
      db.logger.logfile = some i ∧ db.name = name ∧ db.logger.Sound := by
  obtain ⟨a, i, -, -, rfl, hattached, -⟩ := Keyspace.new_inv hnew
  have hopen : (DB.loaded env name i ((fs.read (aofPath name)).getD [])).logger.logfile = some i :=
    Log.appendAll_logfile _ _
  exact ⟨a, i, hattached.aof, hattached.stream i hopen, hopen, rfl, hattached.sound⟩

theorem current_new {fs fs' : Files} {keyspace : Bytes}
    (hnew : Server.new env fs keyspace = (fs', .ok s)) : s.db.logger.Sound ∧ Current s := by
  unfold Server.new at hnew
  split at hnew
  · exact absurd (Prod.mk.inj hnew).2 (by simp)
  · next fs₁ db hdb =>
      obtain ⟨rfl, hs⟩ := Prod.mk.inj hnew
      obtain rfl := Except.ok.inj hs
      obtain ⟨a, i, ha, hdir, hopen, hname, hsound⟩ := new_stream hdb
      exact ⟨hsound, i, hopen, by rw [hname, FS.ino_eq ha, hdir]⟩

/-- **A switch that succeeds** leaves the new log with the file of its path
exactly if it is safe. -/
theorem current_useKeyspace_iff (hsound : s.db.logger.Sound)
    (h : s.useKeyspace env env' name = (s', .ok reply)) (herr : ¬ascii "ERR" <+: reply) :
    s'.db.logger.Sound ∧ (Current s' ↔ SafeSwitch env' s name) := by
  rcases useKeyspace_inv h with ⟨-, what, rfl⟩ | ⟨fs₁, fs₂, old, db, hshutdown, hnew, hok, rfl, -⟩
  · exact absurd (err_prefix_switchError name what) herr
  have hfs₁ : fs₁.resolve = s.fs.resolve := by
    have := DB.shutdown_resolve env s.fs s.db
    rwa [hshutdown] at this
  have hold : old = { s.db with logger := s.db.logger.closed } := by
    have := (DB.shutdown_eq hsound env s.fs).1
    rwa [hshutdown] at this
  have hclosed : old.logger.Sound := by rw [hold]; exact Log.sound_closed _
  obtain ⟨a, i, ha, hdir, hopen, hname, hsound'⟩ := new_stream hnew
  have hfs₂ : fs₂.resolve = s.fs.resolve := by
    obtain ⟨-, -, -, rfl, -⟩ := Keyspace.new_inv hnew
    rw [FS.openAppend_resolve, hfs₁]
  -- paths that are the new log's entry after the switch were so before
  have hino : ∀ p, fs₂.resolve p = some a ↔ s.fs.resolve p = s.fs.resolve (aofPath name) := by
    intro p
    rw [← hfs₂, ha]
  refine ⟨⟨hsound'.thread, hsound'.drained⟩, ?_⟩
  -- the old log is closed, so the destructor can only compact once more
  have hsafe : SafeSwitch env' s name ↔ (old.destroy env' fs₂).1.dir a = some i := by
    rw [DB.destroy_dir_iff hclosed env' hok hdir]
    simp only [hino, hold]
    rfl
  rw [hsafe]
  have hcurrent : (old.destroy env' fs₂).1.ino (aofPath db.name) =
      (old.destroy env' fs₂).1.dir a := by
    rw [hname, FS.ino_eq]
    rw [DB.destroy_resolve]
    exact ha
  constructor
  · intro hstream
    obtain ⟨j, hj, hjino⟩ := hstream
    obtain rfl : i = j := Option.some.inj (hopen.symm.trans hj)
    exact hcurrent.symm.trans hjino
  · intro hkeeps
    exact ⟨i, hopen, hcurrent.trans hkeeps⟩

/-! ### Runs -/

/-- A request that does not switch the keyspace leaves the stream alone. -/
theorem current_dispatcher (hsound : s.db.logger.Sound) (hcurrent : Current s)
    (hquit : ¬IsQuit input) (huse : ∀ name, tokens input ≠ [ascii "use", name]) :
    (s.dispatcher env env' input).1.db.logger.Sound ∧
      Current (s.dispatcher env env' input).1 := by
  obtain ⟨i, hi, hino⟩ := hcurrent
  rcases dispatcher_cases env env' s input with
    ⟨name, htokens⟩ | ⟨-, hclear⟩ | ⟨hisQuit, -⟩ | ⟨-, res, hexecute⟩ | ⟨-, hstuck⟩ |
      ⟨-, res, hnothing⟩
  · exact absurd htokens (huse name)
  · rw [hclear]
    obtain ⟨a, ha, hdir⟩ := Option.bind_eq_some_iff.mp hino
    refine ⟨hsound, i, hi, ?_⟩
    show (s.db.clearData s.fs).1.ino (aofPath s.db.name) = some i
    rw [FS.ino, DB.clearData_resolve, ha]
    exact DB.clearData_dir_of_some hdir
  · exact absurd hisQuit hquit
  · rw [hexecute]
    exact ⟨hsound.appendAll _, i, (Log.appendAll_logfile _ _).trans hi, hino⟩
  · rw [hstuck]
    exact ⟨hsound, i, hi, hino⟩
  · rw [hnothing]
    exact ⟨hsound, i, hi, hino⟩

/-- What one step does to the stream of a log. -/
theorem current_serve_iff {a : Action} (hsound : s.db.logger.Sound) (hcurrent : Current s)
    (hstep : serve s a = some s') : s'.db.logger.Sound ∧ (Current s' ↔ KeepsStream s a) := by
  cases a with
  | swap =>
      obtain rfl := Option.some.inj hstep
      refine ⟨hsound.flusherSwap, iff_of_true ?_ trivial⟩
      obtain ⟨i, hi, hino⟩ := hcurrent
      exact ⟨i, (Log.flusherSwap_logfile _).trans hi, hino⟩
  | write =>
      obtain rfl := Option.some.inj hstep
      refine ⟨⟨hsound.thread, fun hclosed => ⟨rfl, (hsound.drained hclosed).2⟩⟩,
        iff_of_true ?_ trivial⟩
      obtain ⟨i, hi, hino⟩ := hcurrent
      refine ⟨i, hi, ?_⟩
      show (s.db.logger.write s.fs _).ino _ = some i
      rw [FS.ino, Log.write_resolve, Log.write_dir]
      exact hino
  | request env env' input =>
      simp only [serve] at hstep
      split at hstep
      · exact absurd hstep (by simp)
      next hquit =>
      split at hstep
      · exact absurd hstep (by simp)
      next t reply hdispatch =>
      split at hstep
      · exact absurd hstep (by simp)
      next hfailed =>
      obtain rfl := Option.some.inj hstep
      by_cases huse : ∃ name, tokens input = [ascii "use", name]
      · obtain ⟨name, htokens⟩ := huse
        -- a switch that is answered with an error is no step
        have herr : ¬ascii "ERR" <+: reply := fun herr =>
          hfailed ⟨isUse_iff.mpr ⟨name, htokens⟩, herr⟩
        rw [dispatcher_use htokens] at hdispatch
        obtain ⟨hsound', hiff⟩ := current_useKeyspace_iff hsound hdispatch herr
        refine ⟨hsound', hiff.trans ⟨fun hsafe name' htokens' => ?_, fun hkeeps =>
          hkeeps name htokens⟩⟩
        rw [htokens] at htokens'
        obtain rfl : name = name' := by simpa using htokens'
        exact hsafe
      · have hother : (s.dispatcher env env' input).1.db.logger.Sound ∧
            Current (s.dispatcher env env' input).1 :=
          current_dispatcher hsound hcurrent hquit fun name htokens => huse ⟨name, htokens⟩
        rw [hdispatch] at hother
        exact ⟨hother.1, iff_of_true hother.2 fun name htokens => absurd ⟨name, htokens⟩ huse⟩

/-- **The append stream belongs to the current file** in every state of a run
exactly if every switch in it is safe. -/
theorem current_run_iff {fs fs' : Files} {keyspace : Bytes} {s₀ : Server} {as : List Action}
    (hnew : Server.new env fs keyspace = (fs', .ok s₀))
    (hrun : Machine.run serve s₀ as = some s) :
    (∀ as' t, as' <+: as → Machine.run serve s₀ as' = some t → Current t) ↔
      Machine.Guarded serve KeepsStream s₀ as := by
  obtain ⟨hsound, hcurrent⟩ := current_new hnew
  exact Machine.forall_prefix_iff_guarded (I := fun s => s.db.logger.Sound)
    (fun _ _ _ hsound hcurrent hstep => current_serve_iff hsound hcurrent hstep)
    hsound hcurrent hrun

/-- A switch with working files and small stores succeeds, while the old name is alive. -/
theorem useKeyspace_ok {old : Bytes} (name : Bytes) (hsound : s.db.logger.Sound)
    (hname : s.db.logger.keyspaceName = .bound old)
    (hresolve : ∀ p, (s.fs.resolve p).isSome = true)
    (htemp : env.temp = .complete) (htemp' : env'.temp = .complete)
    (hsmall : (Log.serialize env s.db.store).length ≤ Log.COMPRESSION_THRESHOLD)
    (hsmall' : (Log.serialize env' s.db.store).length ≤ Log.COMPRESSION_THRESHOLD) :
    ∃ s', s.useKeyspace env env' name = (s', .ok (ascii "OK switched keyspace to " ++ name)) := by
  have hok : (s.db.shutdown env s.fs).2.2 = .ok () :=
    DB.shutdown_ok hsound (fun _ => ⟨htemp, hresolve _, old, by rw [hname, NameRef.read_bound],
      hresolve _⟩) hsmall
  have hfs₁ := DB.shutdown_resolve env s.fs s.db
  have hold := (DB.shutdown_eq hsound env s.fs).1
  obtain ⟨fs₁, db₁, hshutdown⟩ : ∃ fs₁ db₁, s.db.shutdown env s.fs = (fs₁, db₁, .ok ()) :=
    ⟨_, _, Prod.ext rfl (Prod.ext rfl hok)⟩
  rw [hshutdown] at hfs₁ hold
  dsimp only at hfs₁ hold
  obtain ⟨a, ha⟩ := Option.isSome_iff_exists.mp (hresolve (aofPath name))
  obtain ⟨i, -, hnew⟩ := DB.new_eq env ((congrFun hfs₁ (aofPath name)).trans ha)
  have hclosed : db₁.logger.Sound := by rw [hold]; exact Log.sound_closed _
  have hname₁ : db₁.logger.keyspaceName = .bound old := by rw [hold]; exact hname
  have hresolve₂ : ∀ p, ((fs₁.openAppend (aofPath name)).1.resolve p).isSome = true := by
    intro p
    rw [FS.openAppend_resolve, hfs₁]
    exact hresolve p
  have hdestroy : (db₁.destroy env' (fs₁.openAppend (aofPath name)).1).2 = .ok () := by
    refine (DB.destroy_snd_ok _ _ _).mpr (DB.shutdown_ok hclosed ?_ ?_)
    · exact fun _ => ⟨htemp', hresolve₂ _, old, by rw [hname₁, NameRef.read_bound], hresolve₂ _⟩
    · rw [hold]; exact hsmall'
  rw [useKeyspace, hshutdown]
  dsimp only
  rw [hnew]
  dsimp only
  split
  · next heq => rw [heq] at hdestroy; exact absurd hdestroy (by simp)
  · exact ⟨_, rfl⟩

theorem not_isMutation_of_isUse (huse : IsUse input) : ¬IsMutation (tokens input) := by
  intro hmutation
  rcases hmutation with h | h | h | h
  · exact absurd (huse.1.symm.trans h.1) (by decide)
  · exact absurd (huse.1.symm.trans h.1) (by decide)
  · exact absurd (huse.1.symm.trans h.1) (by decide)
  · exact absurd (huse.1.symm.trans h.1) (by decide)

/-- A writing command is executed. -/
theorem dispatcher_mutation (h : IsMutation (tokens input))
    (hexecutes : s.db.Executes env.staleName (tokens input)) (env' : Env) :
    ∃ res, s.dispatcher env env' input =
      ({ s with db := s.db.execute (tokens input) }, .ok res) := by
  rcases dispatcher_cases env env' s input with
    huse | ⟨rfl, -⟩ | ⟨rfl | rfl, -⟩ | ⟨-, hexecute⟩ | ⟨hstuck, -⟩ | ⟨hblank | hdisplay, -⟩
  · exact absurd h (not_isMutation_of_isUse (isUse_iff.mpr huse))
  · exact absurd h (by decide)
  · exact absurd h (by decide)
  · exact absurd h (by decide)
  · exact hexecute
  · exact absurd hexecutes hstuck
  · rw [hblank] at h
    exact absurd h (by decide)
  · rcases hdisplay with rfl | rfl | rfl | rfl
    · exact absurd h (by decide)
    · exact absurd h (by decide)
    · exact absurd h (by decide)
    · exact absurd h (by decide)

theorem serve_mutation (h : IsMutation (tokens input))
    (hexecutes : s.db.Executes env.staleName (tokens input)) (env' : Env) :
    serve s (.request env env' input) =
      some { s with db := s.db.execute (tokens input) } := by
  have hquit : ¬IsQuit input := by
    intro hisQuit
    cases hisQuit with
    | inl heq => rw [heq] at h; exact absurd h (by decide)
    | inr heq => rw [heq] at h; exact absurd h (by decide)
  obtain ⟨res, hexecute⟩ := dispatcher_mutation h hexecutes env'
  rw [serve, if_neg hquit, hexecute]
  exact if_neg fun huse => not_isMutation_of_isUse huse.1 h

/-- A switch that succeeds is a step. -/
theorem serve_use (htokens : tokens input = [ascii "use", name])
    (huse : s.useKeyspace env env' name = (s', .ok reply)) (herr : ¬ascii "ERR" <+: reply) :
    serve s (.request env env' input) = some s' := by
  have hquit : ¬IsQuit input := fun hisQuit =>
    not_isUse_of_isQuit hisQuit (isUse_iff.mpr ⟨name, htokens⟩)
  rw [serve, if_neg hquit, dispatcher_use htokens, huse]
  exact if_neg fun h => herr h.2

theorem not_skips_put {db : DB} (hreplaying : db.replaying = false) (hdirty : db.dirty = 0) :
    ¬Log.Skips (db.execute (tokens (ascii "put k 1"))).store
      ((db.execute (tokens (ascii "put k 1"))).dirty % SIZE_MOD) := by
  have hrecords : commandRecords (tokens (ascii "put k 1")) = [.put (ascii "k") (ascii "1")] := by
    decide
  show ¬Log.Skips (db.update (commandRecords (tokens (ascii "put k 1")))).store
    ((db.update (commandRecords (tokens (ascii "put k 1")))).dirty % SIZE_MOD)
  rw [hrecords]
  exact DB.not_skips_update hreplaying hdirty (ascii "k") (ascii "1")

/-- A server on no files, after `put k 1` and before a switch that works. -/
theorem put_then_use (htokens : tokens input = [ascii "use", name]) :
    ∃ s₀ s₁ s₂ : Server, Server.new Env.calm blankFiles (ascii "a") = (s₀.fs, .ok s₀) ∧
      serve s₀ (.request Env.calm Env.calm (ascii "put k 1")) = some s₁ ∧
      serve s₁ (.request Env.calm Env.calm input) = some s₂ ∧
      s₁.db.logger.Sound ∧
      s₁.useKeyspace Env.calm Env.calm name =
        (s₂, .ok (ascii "OK switched keyspace to " ++ name)) ∧
      (SafeSwitch Env.calm s₁ name ↔ (tempPath (ascii "a") = aofPath name ↔
        aofPath (ascii "a") = aofPath name)) := by
  have haof : blankFiles.resolve (aofPath (ascii "a")) = some (aofPath (ascii "a")) := rfl
  obtain ⟨i, -, hnew⟩ := DB.new_eq Env.calm haof
  obtain ⟨a, j, -, -, -, hattached, -⟩ := Keyspace.new_inv hnew
  let s₀ : Server := ⟨(blankFiles.openAppend (aofPath (ascii "a"))).1,
    DB.loaded Env.calm (ascii "a") i [], false⟩
  let s₁ : Server := { s₀ with db := s₀.db.execute [ascii "put", ascii "k", ascii "1"] }
  have hput : serve s₀ (.request Env.calm Env.calm (ascii "put k 1")) = some s₁ :=
    serve_mutation (by decide) (DB.executes_of_appends (Or.inl rfl) _) _
  have hresolve : ∀ p, s₁.fs.resolve p = some p := fun p => by
    show (blankFiles.openAppend (aofPath (ascii "a"))).1.resolve p = some p
    rw [FS.openAppend_resolve]
    rfl
  have hsound : s₁.db.logger.Sound := hattached.sound.appendAll _
  have hstore : s₁.db.store = (∅ : Store).insert (ascii "k") (ascii "1") := rfl
  have hsmall : (Log.serialize Env.calm s₁.db.store).length ≤ Log.COMPRESSION_THRESHOLD := by
    rw [Log.serialize, hstore, Iteration.entries_singleton]
    exact (rfl : _ = 29).trans_le (by decide)
  obtain ⟨s₂, huse⟩ := useKeyspace_ok name hsound rfl (fun p => by rw [hresolve]; rfl) rfl
    rfl hsmall hsmall
  refine ⟨s₀, s₁, s₂, by rw [Server.new, hnew]; rfl, hput,
    serve_use htokens huse (not_err_prefix_ok name), hsound, huse, ?_⟩
  have hcompacts : ¬Log.Skips s₁.db.store (s₁.db.dirty % SIZE_MOD) := not_skips_put rfl rfl
  have hread : ∀ read, s₁.db.logger.keyspaceName.read Env.calm.staleName = .ok read ↔
      ascii "a" = read := fun read => by
    show (NameRef.bound (ascii "a")).read _ = .ok read ↔ _
    rw [NameRef.read_bound, Except.ok.injEq]
  simp only [SafeSwitch, or_iff_right hcompacts, hread, forall_eq', hresolve, Option.some.injEq]
  rfl

/-- A switch to another name is safe. -/
theorem current_run_iff_another :
    ∃ s₀ s₂ : Server, Server.new Env.calm blankFiles (ascii "a") = (s₀.fs, .ok s₀) ∧
      Machine.run serve s₀ [.request Env.calm Env.calm (ascii "put k 1"),
        .request Env.calm Env.calm (ascii "use b")] = some s₂ ∧ Current s₂ := by
  obtain ⟨s₀, s₁, s₂, hnew, hput, huse, -, -, hsafe⟩ :=
    put_then_use (by decide : tokens (ascii "use b") = [ascii "use", ascii "b"])
  have hrun : Machine.run serve s₀ [.request Env.calm Env.calm (ascii "put k 1"),
      .request Env.calm Env.calm (ascii "use b")] = some s₂ := by
    rw [Machine.run_cons_of_step hput, Machine.run_cons_of_step huse, Machine.run_nil]
  have hguard : Machine.Guarded serve KeepsStream s₀
      [.request Env.calm Env.calm (ascii "put k 1"),
        .request Env.calm Env.calm (ascii "use b")] := by
    rw [Machine.guarded_cons_of_step hput, Machine.guarded_cons_of_step huse]
    refine ⟨fun name htokens => ?_, fun name htokens => ?_, trivial⟩
    · have hlength : (tokens (ascii "put k 1")).length = 2 := by rw [htokens]; rfl
      exact absurd hlength (by decide)
    · have hname : [ascii "use", ascii "b"] = [ascii "use", name] :=
        (by decide : _ = tokens (ascii "use b")).trans htokens
      obtain rfl : ascii "b" = name := (List.cons.inj (List.cons.inj hname).2).1
      exact hsafe.mpr (by decide)
  exact ⟨s₀, s₂, hnew, hrun, (current_run_iff hnew hrun).mpr hguard _ s₂ (List.prefix_refl _) hrun⟩

/-- `put k 1` and `use a` on the keyspace `a`: the destructor of the old `DB`
renames a new file over the one that the new log has just opened. -/
theorem not_current_run :
    ∃ s₀ s₂ : Server, Server.new Env.calm blankFiles (ascii "a") = (s₀.fs, .ok s₀) ∧
      Machine.run serve s₀ [.request Env.calm Env.calm (ascii "put k 1"),
        .request Env.calm Env.calm (ascii "use a")] = some s₂ ∧ ¬Current s₂ := by
  obtain ⟨s₀, s₁, s₂, hnew, hput, huse, hsound, hswitch, hsafe⟩ :=
    put_then_use (by decide : tokens (ascii "use a") = [ascii "use", ascii "a"])
  refine ⟨s₀, s₂, hnew, ?_, ?_⟩
  · rw [Machine.run_cons_of_step hput, Machine.run_cons_of_step huse, Machine.run_nil]
  · rw [(current_useKeyspace_iff hsound hswitch (not_err_prefix_ok _)).2, hsafe]
    decide

end Server

end Taproot
