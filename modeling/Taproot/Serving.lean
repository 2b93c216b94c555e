import Taproot.Answering
import Taproot.Cabinet
import Taproot.Generations
import Taproot.Isolation

/-!
# Taproot.Serving

A **server refines a cabinet**: it answers every request as a cabinet of stores
in memory does, whatever its flusher has got to, and when it is destroyed each of
its keyspaces reopens with the store that the cabinet has under its name.

The relation is that of the lives of one keyspace for the keyspace that is open,
and for each of the others that its log stands for its store. A switch shuts the
one down, opens the other, and shuts the first down once more (`houses_use`);
any other request is an event of the open keyspace, and touches no other
(`Houses.event`).
-/

namespace Taproot

open Posix Journal

/-! ### Logs whose reference is gone -/

namespace Log

/-- The log with another reference. -/
def referTo (log : Log) (k : NameRef) : Log := { log with keyspaceName := k }

/-- Closing a log does not look at the reference. -/
theorem closeLog_referTo (fs : Files) (log : Log) (k : NameRef) :
    (log.referTo k).closeLog fs = ((log.closeLog fs).1, (log.closeLog fs).2.referTo k) := by
  unfold closeLog referTo
  dsimp only
  cases log.flushThread <;> by_cases hbuffer : log.logBuffer = [] <;>
    simp [flusherWrite, write, hbuffer]

/-- A compaction looks at what it reads through it, if it goes through. -/
theorem compactLog_referTo {env : Env} {log : Log} {k : NameRef} {state : Store} {dirty : Nat}
    (h : ¬Skips state dirty → log.keyspaceName.read env.staleName = k.read env.staleName)
    (fs : Files) :
    (log.referTo k).compactLog env fs state dirty = log.compactLog env fs state dirty := by
  by_cases hskips : Skips state dirty
  · rw [compactLog_of_skips hskips, compactLog_of_skips hskips]
  · rw [compactLog, compactLog, h hskips]
    rfl

theorem flusherSwap_referTo (log : Log) (k : NameRef) :
    (log.referTo k).flusherSwap = log.flusherSwap.referTo k := by
  unfold flusherSwap referTo
  dsimp only
  split <;> rfl

theorem appendAll_referTo (log : Log) (k : NameRef) (rs : List Record) :
    (log.referTo k).appendAll rs = (log.appendAll rs).referTo k := by
  unfold appendAll referTo
  dsimp only
  split <;> rfl

end Log

namespace DB

/-- The `DB` whose log is named by the string that its paths were made of. -/
def rebound (db : DB) : DB := { db with logger := db.logger.referTo (.bound db.name) }

theorem rebound_orphaned {db : DB} (h : db.logger.keyspaceName = .bound db.name) :
    db.orphaned.rebound = db := by
  show { db with logger := { db.logger with keyspaceName := .bound db.name } } = db
  rw [← h]

theorem execute_rebound (db : DB) (ts : List Bytes) :
    db.rebound.execute ts = (db.execute ts).rebound := by
  show ({ db.update (commandRecords ts) with
    logger := (db.logger.referTo (.bound db.name)).appendAll _ } : DB) = _
  rw [Log.appendAll_referTo]
  rfl

/-- A shutdown that compacts has its temporary file written out, and reads the name that
its keyspace goes by. -/
structure ClosesWell (env : Env) (db : DB) : Prop where
  temp : db.WritesOut env
  reads : ¬Log.Skips db.store (db.dirty % SIZE_MOD) →
    db.logger.keyspaceName.read env.staleName = .ok db.name

theorem ClosesWell.readsAlike {env env' : Env} {db : DB} (h : db.ClosesWell env)
    (h' : db.ClosesWell env') : ReadsAlike env env' db :=
  fun hskips => ⟨db.name, h.reads hskips, h'.reads hskips⟩

theorem ClosesWell.not_nameLost {env : Env} {db : DB} (h : db.ClosesWell env) :
    ¬Log.NameLost env.staleName db.logger db.store (db.dirty % SIZE_MOD) :=
  (h.readsAlike h).not_nameLost

/-- It is the same for one more shutdown. -/
theorem ClosesWell.shutdown {env : Env} {db : DB} (h : db.ClosesWell env) (env' : Env)
    (fs : Files) : (db.shutdown env' fs).2.1.ClosesWell env := by
  rw [DB.shutdown_db]
  exact { h with reads := fun hskips => by rw [Log.closeLog_keyspaceName]; exact h.reads hskips }

/-- If the log reads the right name, the reference makes no difference. -/
theorem shutdown_rebound {env : Env} {db : DB} (h : db.ClosesWell env) (fs : Files) :
    db.rebound.shutdown env fs =
      ((db.shutdown env fs).1, (db.shutdown env fs).2.1.rebound, (db.shutdown env fs).2.2) := by
  have hread : ¬Log.Skips db.store (db.dirty % SIZE_MOD) →
      (db.logger.closeLog fs).2.keyspaceName.read env.staleName =
        (NameRef.bound db.name).read env.staleName := by
    intro hskips
    rw [Log.closeLog_keyspaceName, h.reads hskips, NameRef.read_bound]
  unfold shutdown rebound
  dsimp only
  rw [Log.closeLog_referTo]
  dsimp only
  rw [Log.compactLog_referTo hread]
  split <;> rfl

end DB

/-! ### The server and its replies -/

/-- A cabinet, and what it has replied so far. -/
structure Ledger where
  cabinet : Cabinet
  replies : List Bytes

namespace Server

/-- A server, and what it has replied so far. -/
structure Served where
  server : Server
  replies : List Bytes

/-- One step; a request that is not answered ends the run. -/
def attend (t : Served) : Action → Option Served
  | .request env env' input =>
    match t.server.dispatcher env env' input with
    | (s, .ok reply) => some ⟨s, t.replies ++ [reply]⟩
    | (_, .error _) => none
  | .swap => some { t with server := { t.server with
      db := { t.server.db with logger := t.server.db.logger.flusherSwap } } }
  | .write => some { t with server := { t.server with
      fs := (t.server.db.logger.flusherWrite t.server.fs).1
      db := { t.server.db with logger := (t.server.db.logger.flusherWrite t.server.fs).2 } } }

end Server

/-- The cabinet is asked the same; it has no flusher. -/
def Ledger.attend (l : Ledger) : Server.Action → Ledger
  | .request env _ input =>
    let (cabinet, reply) := l.cabinet.request env input
    ⟨cabinet, l.replies ++ [reply]⟩
  | _ => l

/-- The logs of the keyspaces `N` are entries of their own, and no keyspace writes to
that of another. -/
structure Shelves (fs : Files) (N : Set Bytes) : Prop where
  separate : ∀ n ∈ N, ∃ a, Keyspace.Separate fs n a
  apart : ∀ n ∈ N, ∀ n' ∈ N, n ≠ n' → ∀ p ∈ writtenPaths n,
    fs.resolve p ≠ fs.resolve (aofPath n')

theorem Shelves.congr {fs fs' : Files} {N : Set Bytes} (h : Shelves fs N)
    (hresolve : fs'.resolve = fs.resolve) : Shelves fs' N where
  separate := fun n hn => (h.separate n hn).imp fun _ ha => ha.congr hresolve
  apart := hresolve ▸ h.apart

/-- The entry of a log is one of its own. -/
theorem Shelves.separate_of_aof {fs : Files} {N : Set Bytes} {n a : Bytes} (h : Shelves fs N)
    (hn : n ∈ N) (ha : fs.resolve (aofPath n) = some a) : Keyspace.Separate fs n a := by
  obtain ⟨x, hx⟩ := h.separate n hn
  obtain rfl : a = x := Option.some.inj (ha.symm.trans hx.aof)
  exact hx

/-- **No keyspace touches the log of another.** -/
theorem Shelves.read_step {N : Set Bytes} {name a n : Bytes} {ks : Keyspace} (h : Shelves ks.fs N)
    (ha : Keyspace.Attached name a ks) (hname : name ∈ N) (hn : n ∈ N) (hne : n ≠ name)
    (e : Event) : (ks.step e).1.fs.read (aofPath n) = ks.fs.read (aofPath n) := by
  obtain ⟨x, hx⟩ := h.separate n hn
  have hwritten : ∀ p ∈ writtenPaths name, ks.fs.resolve p ≠ some x := fun p hp => by
    rw [← hx.aof]
    exact h.apart name hname n hn hne.symm p hp
  have haof : a ≠ x := by
    rintro rfl
    exact hwritten (aofPath name) (by simp [writtenPaths]) ha.aof
  have hview := Keyspace.view_step_of_ne ha haof (hwritten (dbPath name) (by simp [writtenPaths]))
    (hwritten (tempPath name) (by simp [writtenPaths])) e
  rw [FS.read_eq hx.aof, FS.read_eq ((congrFun (Keyspace.step_resolve ks e) _).trans hx.aof), hview]

namespace Server

/-- A switch that goes through: what is compacted is written out under the name of its
keyspace, the flag of the new `DB` is down, neither shutdown throws, and the old `DB` is
not compacted under the new one. -/
structure SwitchesTo (env env' : Env) (s : Server) (name : Bytes) : Prop where
  closes : s.db.ClosesWell env
  closes' : s.db.ClosesWell env'
  replaying : env.replaying = false
  shutdown : ¬DB.ShutdownThrows env s.fs s.db
  destructor : ¬s.DestructorThrows env' name
  another : name = s.db.name → Log.Skips s.db.store (s.db.dirty % SIZE_MOD)

/-- A request that is neither blank nor the end; its records read back as themselves,
nothing is pending when it clears, and it switches to a keyspace of `N` in a way that
goes through. -/
def Orderly (N : Set Bytes) (t : Served) : Action → Prop
  | .request env env' input =>
    tokens input ≠ [] ∧ ¬IsQuit input ∧ (∀ r ∈ commandRecords (tokens input), FixedRecord r) ∧
      (input = ascii "clear" → t.server.db.logger.pending = []) ∧
      ∀ name, tokens input = [ascii "use", name] →
        name ∈ N ∧ t.server.SwitchesTo env env' name
  | _ => True

/-- The keyspace that is open lives as its history says, and the logs of the others
stand for what the cabinet has under their names. -/
structure Houses (N : Set Bytes) (t : Served) (l : Ledger) : Prop where
  replies : t.replies = l.replies
  mem : l.cabinet.current ∈ N
  shelves : Shelves t.server.fs N
  opened : ∃ a w, Keyspace.Mirrors l.cabinet.current a ⟨t.server.fs, t.server.db.rebound⟩ w
  store : t.server.db.store = l.cabinet.store
  shelved : ∀ n ∈ N, n ≠ l.cabinet.current →
    Stands ((t.server.fs.read (aofPath n)).getD []) (l.cabinet.stores n)

variable {N : Set Bytes} {t : Served} {l : Ledger}

theorem Houses.name_eq (h : Houses N t l) : t.server.db.name = l.cabinet.current := by
  obtain ⟨a, w, hmirrors⟩ := h.opened
  exact hmirrors.attached.name_eq

theorem Houses.isOpen (h : Houses N t l) : t.server.db.logger.logfile.isSome = true := by
  obtain ⟨a, w, hmirrors⟩ := h.opened
  exact hmirrors.isOpen

/-- An event of the keyspace that is open. -/
theorem Houses.event (h : Houses N t l) {e : Event} {s : Server} {replies : List Bytes}
    (hmirrors : ∀ a w, Keyspace.Mirrors l.cabinet.current a ⟨t.server.fs, t.server.db.rebound⟩ w →
      ∃ w', Keyspace.Mirrors l.cabinet.current a
        (Keyspace.step ⟨t.server.fs, t.server.db.rebound⟩ e).1 w')
    (hs : (Keyspace.step ⟨t.server.fs, t.server.db.rebound⟩ e).1 = ⟨s.fs, s.db.rebound⟩) :
    Houses N ⟨s, replies⟩ ⟨l.cabinet.put s.db.store, replies⟩ := by
  obtain ⟨a, w, hold⟩ := h.opened
  obtain ⟨w', hnew⟩ := hmirrors a w hold
  have hresolve := Keyspace.step_resolve ⟨t.server.fs, t.server.db.rebound⟩ e
  -- the other keyspaces' files are left alone
  have hread : ∀ n ∈ N, n ≠ l.cabinet.current →
      (Keyspace.step ⟨t.server.fs, t.server.db.rebound⟩ e).1.fs.read (aofPath n) =
        t.server.fs.read (aofPath n) :=
    fun n hn hne => h.shelves.read_step hold.attached h.mem hn hne e
  rw [hs] at hnew hresolve hread
  exact {
    replies := rfl
    mem := h.mem
    shelves := h.shelves.congr hresolve
    opened := ⟨a, w', hnew⟩
    store := (Cabinet.store_put _ _).symm
    shelved := fun n hn hne => by
      have hother : n ≠ l.cabinet.current := hne
      show Stands ((s.fs.read (aofPath n)).getD []) ((l.cabinet.put s.db.store).stores n)
      rw [Cabinet.stores_put_of_ne _ _ hother,
        show s.fs.read (aofPath n) = _ from hread n hn hother]
      exact h.shelved n hn hother }

theorem Houses.command (h : Houses N t l) {input : Bytes} (replies : List Bytes)
    (hfixed : ∀ r ∈ commandRecords (tokens input), FixedRecord r) :
    Houses N ⟨{ t.server with db := t.server.db.execute (tokens input) }, replies⟩
      ⟨l.cabinet.put (replay l.cabinet.store (commandRecords (tokens input))), replies⟩ := by
  have hcommand : Houses N ⟨{ t.server with db := t.server.db.execute (tokens input) }, replies⟩
      ⟨l.cabinet.put (t.server.db.execute (tokens input)).store, replies⟩ := by
    refine h.event (e := .command input) (fun a w hmirrors => ?_) ?_
    · obtain ⟨w', -, hmirrors'⟩ :=
        Keyspace.mirrors_traffic (e := .command input) hmirrors rfl hfixed
      exact ⟨w', hmirrors'⟩
    · have happends : t.server.db.rebound.logger.Appends none := Log.appends_of_bound rfl _
      rw [Keyspace.step_command happends, DB.execute_rebound]
  rw [← h.store]
  exact hcommand

theorem Houses.clear (h : Houses N t l) (replies : List Bytes)
    (hpending : t.server.db.logger.pending = []) :
    Houses N ⟨{ t.server with
        fs := (t.server.db.clearData t.server.fs).1
        db := (t.server.db.clearData t.server.fs).2 }, replies⟩
      ⟨l.cabinet.put ∅, replies⟩ :=
  h.event (e := .clearData)
    (fun _ _ hmirrors => ⟨_, Keyspace.mirrors_clearData hmirrors hpending⟩) rfl

theorem Houses.swap (h : Houses N t l) (replies : List Bytes) : Houses N ⟨{ t.server with
    db := { t.server.db with logger := t.server.db.logger.flusherSwap } }, replies⟩
    ⟨l.cabinet, replies⟩ := by
  have hswap : Houses N ⟨{ t.server with
      db := { t.server.db with logger := t.server.db.logger.flusherSwap } }, replies⟩
      ⟨l.cabinet.put t.server.db.store, replies⟩ := by
    refine h.event (e := .swap) (fun a w hmirrors => ?_) ?_
    · obtain ⟨w', -, hmirrors'⟩ := Keyspace.mirrors_traffic (e := .swap) hmirrors rfl
        fun r hr => absurd hr List.not_mem_nil
      exact ⟨w', hmirrors'⟩
    · show Keyspace.mk t.server.fs { t.server.db.rebound with
        logger := (t.server.db.logger.referTo (.bound t.server.db.name)).flusherSwap } = _
      rw [Log.flusherSwap_referTo]
      rfl
  rwa [h.store, Cabinet.put_store] at hswap

theorem Houses.write (h : Houses N t l) (replies : List Bytes) : Houses N ⟨{ t.server with
    fs := (t.server.db.logger.flusherWrite t.server.fs).1
    db := { t.server.db with logger := (t.server.db.logger.flusherWrite t.server.fs).2 } },
    replies⟩ ⟨l.cabinet, replies⟩ := by
  have hwrite : Houses N ⟨{ t.server with
      fs := (t.server.db.logger.flusherWrite t.server.fs).1
      db := { t.server.db with logger := (t.server.db.logger.flusherWrite t.server.fs).2 } },
      replies⟩ ⟨l.cabinet.put t.server.db.store, replies⟩ := by
    refine h.event (e := .write) (fun a w hmirrors => ?_) rfl
    obtain ⟨w', -, hmirrors'⟩ := Keyspace.mirrors_traffic (e := .write) hmirrors rfl
      fun r hr => absurd hr List.not_mem_nil
    exact ⟨w', hmirrors'⟩
  rwa [h.store, Cabinet.put_store] at hwrite

end Server

/-! ### Shutting down and switching -/

namespace Keyspace

variable {name a : Bytes} {ks : Keyspace} {N : Set Bytes} {stores : Bytes → Store}

/-- The logs of all keyspaces stand for their stores. -/
def AllStand (N : Set Bytes) (fs : Files) (stores : Bytes → Store) : Prop :=
  ∀ n ∈ N, Stands ((fs.read (aofPath n)).getD []) (stores n)

theorem step_shutdown_rebound {env : Env} {db : DB} (h : db.ClosesWell env) (fs : Files) :
    (step ⟨fs, db.rebound⟩ (.shutdown env)).1 =
      ⟨(db.shutdown env fs).1, (db.shutdown env fs).2.1.rebound⟩ := by
  rw [step, DB.shutdown_rebound h]

/-- A shutdown leaves all logs standing: that of its own keyspace, whatever was
pending, and the others untouched. -/
theorem allStand_shutdown (ha : Attached name a ks) (hshelves : Shelves ks.fs N)
    (hname : name ∈ N) (hpaths : Holds ks.fs name a)
    (htext : Stands ks.text (stores name)) (hstore : ks.db.store = stores name)
    (hothers : ∀ n ∈ N, n ≠ name → Stands ((ks.fs.read (aofPath n)).getD []) (stores n))
    {env : Env} (henv : ks.db.WritesOut env) :
    AllStand N (ks.step (.shutdown env)).1.fs stores := by
  intro n hn
  by_cases hne : n = name
  · subst hne
    rw [← hstore] at htext ⊢
    have hcontent := stands_content_shutdown ha hpaths htext henv
    rw [content, (attached_step ha (.shutdown env)).name_eq] at hcontent
    exact hcontent
  · rw [hshelves.read_step ha hname hn hne]
    exact hothers n hn hne

/-- Opening a log for appending leaves all logs standing. -/
theorem allStand_openAppend {fs : Files} (hshelves : Shelves fs N) (hname : name ∈ N)
    (h : AllStand N fs stores) : AllStand N (fs.openAppend (aofPath name)).1 stores := by
  intro n hn
  by_cases hne : n = name
  · subst hne
    obtain ⟨a, ha⟩ := hshelves.separate n hn
    -- a log that is not there reads as an empty one
    rw [FS.read_openAppend ha.aof]
    exact h n hn
  · obtain ⟨x, hx⟩ := hshelves.separate n hn
    have hother : fs.resolve (aofPath name) ≠ some x := by
      rw [← hx.aof]
      exact hshelves.apart name hname n hn (Ne.symm hne) _ (by simp [writtenPaths])
    have hresolve : (fs.openAppend (aofPath name)).1.resolve (aofPath n) = some x :=
      (congrFun (FS.openAppend_resolve fs _) _).trans hx.aof
    have hstands := h n hn
    rw [FS.read_eq hx.aof] at hstands
    rw [FS.read_eq hresolve, FS.view_openAppend_of_ne hother]
    exact hstands

/-- A keyspace whose log is closed stays attached when some log is opened. -/
theorem Attached.openAppend (h : Attached name a ks) (hclosed : ks.db.logger.logfile = none)
    (p : Bytes) : Attached name a ⟨(ks.fs.openAppend p).1, ks.db⟩ := by
  obtain ⟨i, hi⟩ := Option.isSome_iff_exists.mp h.present
  exact { h with
    aof := (congrFun (FS.openAppend_resolve ks.fs p) _).trans h.aof
    present := Option.isSome_iff_exists.mpr ⟨i, FS.openAppend_dir_of_some hi⟩
    stream := fun j hj => absurd (hclosed.symm.trans hj) (by simp) }

/-- A further shutdown that has nothing to compact leaves the log as it is. -/
theorem view_shutdown_of_skips (h : Attached name a ks) (hpaths : Holds ks.fs name a)
    (hclosed : ks.db.logger.logfile = none)
    (hskips : Log.Skips ks.db.store (ks.db.dirty % SIZE_MOD)) (env : Env) :
    (ks.step (.shutdown env)).1.fs.view a = ks.fs.view a := by
  have hcompacted : ks.db.compactedFiles env ks.fs = ks.fs := by
    rw [DB.compactedFiles, Log.compactLog_of_skips hskips, Log.write_of_closed hclosed]
  rcases (DB.shutdown_eq h.sound env ks.fs).2 with hfs | hfs
  · exact congrArg (·.view a) (hfs.trans hcompacted)
  · rw [hcompacted] at hfs
    exact (congrArg (·.view a) hfs).trans
      (Log.view_writeBinarySnapshot_of_ne (h.dbFilepath_eq ▸ hpaths.db) env _)

theorem reopen_inv {env : Env} {fs : Files} (h : reopen env fs name = some ks) :
    DB.new env fs name = (ks.fs, .ok ks.db) := by
  unfold reopen at h
  split at h
  · next heq => rw [heq, ← Option.some.inj h]
  · exact absurd h (by simp)

/-- A `DB` that is constructed over logs that stand. -/
theorem AllStand.new {fs : Files} {env : Env} (h : AllStand N fs stores) (hshelves : Shelves fs N)
    (hname : name ∈ N) (henv : env.replaying = false) :
    ∃ a past db, DB.new env fs name = ((fs.openAppend (aofPath name)).1, .ok db) ∧
      Mirrors name a ⟨(fs.openAppend (aofPath name)).1, db⟩ (.settled past) ∧
      db.store = stores name := by
  obtain ⟨a, ha⟩ := hshelves.separate name hname
  obtain ⟨past, -, hpast, hreplay⟩ := h name hname
  obtain ⟨ks, hreopen, hmirrors⟩ := mirrors_reopen ha (hreplay ▸ h name hname) hpast henv
  have hnew := reopen_inv hreopen
  obtain ⟨-, -, -, hfs, -⟩ := new_inv hnew
  have hfs : ks.fs = (fs.openAppend (aofPath name)).1 := hfs
  rw [hfs] at hnew
  refine ⟨a, past, ks.db, hnew, ?_, hmirrors.store.trans hreplay⟩
  rw [← hfs]
  exact hmirrors

/-- Whatever the flag is, it has the store that its log stands for. -/
theorem AllStand.constructed {fs : Files} (h : AllStand N fs stores) (hshelves : Shelves fs N)
    (env : Env) {n : Bytes} (hn : n ∈ N) :
    ∃ fs' db, DB.new env fs n = (fs', .ok db) ∧ db.store = stores n := by
  obtain ⟨a, ha⟩ := hshelves.separate n hn
  obtain ⟨i, -, hdb⟩ := DB.new_eq env ha.aof
  exact ⟨_, _, hdb, (h n hn).replay_eq⟩

end Keyspace

/-- The keyspace `name` after a shutdown: its log is closed, and all logs stand for what
is in `stores`. -/
structure Shut (N : Set Bytes) (stores : Bytes → Store) (name : Bytes) (fs : Files) (db : DB) :
    Prop where
  mem : name ∈ N
  shelves : Shelves fs N
  attached : ∃ a, Keyspace.Attached name a ⟨fs, db.rebound⟩
  closed : db.logger.logfile = none
  store : db.store = stores name
  all : Keyspace.AllStand N fs stores

namespace Shut

open Keyspace

variable {N : Set Bytes} {stores : Bytes → Store} {name : Bytes} {fs : Files} {db : DB} {env : Env}

/-- A shutdown of a keyspace whose text stands for its store. -/
theorem of_text {a : Bytes} (ha : Attached name a ⟨fs, db.rebound⟩) (hshelves : Shelves fs N)
    (hname : name ∈ N) (htext : Stands (Keyspace.text ⟨fs, db.rebound⟩) (stores name))
    (hstore : db.store = stores name)
    (hothers : ∀ n ∈ N, n ≠ name → Stands ((fs.read (aofPath n)).getD []) (stores n))
    (hcloses : db.ClosesWell env) :
    Shut N stores name (db.shutdown env fs).1 (db.shutdown env fs).2.1 := by
  have hstep := step_shutdown_rebound hcloses fs
  have hattached := attached_step ha (.shutdown env)
  have hall := allStand_shutdown ha hshelves hname (hshelves.separate_of_aof hname ha.aof).toHolds
    htext hstore hothers hcloses.temp
  rw [hstep] at hattached hall
  exact {
    mem := hname
    shelves := hshelves.congr (DB.shutdown_resolve _ _ _)
    attached := ⟨a, hattached⟩
    closed := by rw [DB.shutdown_db]; rfl
    store := by rw [DB.shutdown_db]; exact hstore
    all := hall }

/-- One more shutdown. -/
theorem shutdown (h : Shut N stores name fs db) (hcloses : db.ClosesWell env) :
    Shut N stores name (db.shutdown env fs).1 (db.shutdown env fs).2.1 := by
  obtain ⟨a, ha⟩ := h.attached
  have htext : Stands (Keyspace.text ⟨fs, db.rebound⟩) (stores name) := by
    rw [Keyspace.text, ha.sound.pending_eq_nil h.closed, List.append_nil, content, ha.name_eq]
    exact h.all name h.mem
  exact of_text ha h.shelves h.mem htext h.store (fun n hn _ => h.all n hn) hcloses

/-- It leaves a log as it is, unless that is its own and there is something to compact. -/
theorem view_shutdown (h : Shut N stores name fs db) (hcloses : db.ClosesWell env)
    {n x : Bytes} (hn : n ∈ N)
    (hx : fs.resolve (aofPath n) = some x)
    (hown : n = name → Log.Skips db.store (db.dirty % SIZE_MOD)) :
    (db.shutdown env fs).1.view x = fs.view x := by
  obtain ⟨a, ha⟩ := h.attached
  have hview : (Keyspace.step ⟨fs, db.rebound⟩ (.shutdown env)).1.fs.view x = fs.view x := by
    by_cases heq : n = name
    · subst heq
      obtain rfl : a = x := Option.some.inj (ha.aof.symm.trans hx)
      exact view_shutdown_of_skips ha (h.shelves.separate_of_aof hn hx).toHolds h.closed
        (hown rfl) env
    · have hwritten : ∀ p ∈ writtenPaths name, fs.resolve p ≠ some x := fun p hp => by
        rw [← hx]
        exact h.shelves.apart name h.mem n hn (Ne.symm heq) p hp
      refine view_step_of_ne ha ?_ (hwritten _ (by simp [writtenPaths]))
        (hwritten _ (by simp [writtenPaths])) _
      rintro rfl
      exact hwritten _ (by simp [writtenPaths]) ha.aof
  rwa [step_shutdown_rebound hcloses] at hview

/-- Some log is opened. -/
theorem openAppend (h : Shut N stores name fs db) {n : Bytes} (hn : n ∈ N) :
    Shut N stores name (fs.openAppend (aofPath n)).1 db := by
  obtain ⟨a, ha⟩ := h.attached
  exact { h with
    shelves := h.shelves.congr (FS.openAppend_resolve _ _)
    attached := ⟨a, ha.openAppend h.closed _⟩
    all := allStand_openAppend h.shelves hn h.all }

end Shut

namespace Server

open Keyspace

variable {N : Set Bytes} {t : Served} {l : Ledger} {env env' : Env} {name : Bytes}

theorem Houses.shutdown (h : Houses N t l) (hcloses : t.server.db.ClosesWell env) :
    Shut N l.cabinet.stores l.cabinet.current (t.server.db.shutdown env t.server.fs).1
      (t.server.db.shutdown env t.server.fs).2.1 := by
  obtain ⟨a, w, hmirrors⟩ := h.opened
  have htext : Stands (Keyspace.text ⟨t.server.fs, t.server.db.rebound⟩)
      (l.cabinet.stores l.cabinet.current) := by
    have hstands : Stands _ t.server.db.store := hmirrors.text
    rwa [h.store] at hstands
  exact Shut.of_text hmirrors.attached h.shelves h.mem htext h.store h.shelved hcloses

/-- The `DB` of a new keyspace, whose log is named after it. -/
theorem rebound_of_mirrors {a : Bytes} {fs : Files} {db : DB} {w : WriteBehind Record}
    (h : Mirrors name a ⟨fs, db⟩ w) : db.orphaned.rebound = db ∧ db.rebound = db := by
  have hname : db.name = name := h.attached.name_eq
  have hbound : db.logger.keyspaceName = .bound db.name := by
    rw [hname]
    exact h.attached.keyspaceName_eq
  refine ⟨DB.rebound_orphaned hbound, ?_⟩
  show { db with logger := { db.logger with keyspaceName := .bound db.name } } = db
  rw [← hbound]

/-- **A switch** that goes through: the cabinet has another store open. -/
theorem Houses.use (h : Houses N t l) (hname : name ∈ N)
    (hswitch : t.server.SwitchesTo env env' name) (replies : List Bytes) :
    ∃ s, t.server.useKeyspace env env' name =
        (s, .ok (ascii "OK switched keyspace to " ++ name)) ∧
      Houses N ⟨s, replies⟩ ⟨{ l.cabinet with current := name }, replies⟩ := by
  have hok : (t.server.db.shutdown env t.server.fs).2.2 = .ok () :=
    (DB.shutdown_ok_iff _ _ _).mpr ⟨hswitch.closes.not_nameLost, hswitch.shutdown⟩
  have hdestructor : ((t.server.db.shutdown env t.server.fs).2.1.shutdown env'
      (t.server.switchedFiles env name)).2.2 = .ok () :=
    (destructor_ok_iff hok (hswitch.closes.readsAlike hswitch.closes')).mpr hswitch.destructor
  have hold := DB.shutdown_db env t.server.fs t.server.db
  have hshut := h.shutdown hswitch.closes
  have hcloses' := hswitch.closes'.shutdown env t.server.fs
  rw [switchedFiles] at hdestructor
  obtain ⟨fs₁, old, hshutdown⟩ : ∃ fs₁ old,
      t.server.db.shutdown env t.server.fs = (fs₁, old, .ok ()) :=
    ⟨_, _, Prod.ext rfl (Prod.ext rfl hok)⟩
  rw [hshutdown] at hdestructor hold hshut hcloses'
  dsimp only at hdestructor hold hshut hcloses'
  -- the new `DB` is constructed over a log that stands for its store
  obtain ⟨x, past, db, hnew, hmirrors, hstore⟩ :=
    hshut.all.new hshut.shelves hname hswitch.replaying
  -- the old one is shut down once more, which does not touch that log
  have hopened := hshut.openAppend hname
  have hagain := hopened.shutdown hcloses'
  have hview := hopened.view_shutdown hcloses' hname hmirrors.attached.aof fun hanother => by
    rw [hold]
    exact hswitch.another (hanother.trans h.name_eq.symm)
  have hmirrors' := hmirrors.congr_fs (DB.shutdown_resolve env' _ old) hview
  have hdestroy : old.destroy env' (fs₁.openAppend (aofPath name)).1 =
      ((old.shutdown env' (fs₁.openAppend (aofPath name)).1).1, .ok ()) :=
    Prod.ext (DB.destroy_fst _ _ _) ((DB.destroy_snd_ok _ _ _).mpr hdestructor)
  refine ⟨{ t.server with
    fs := (old.shutdown env' (fs₁.openAppend (aofPath name)).1).1, db := db.orphaned }, ?_, ?_⟩
  · rw [useKeyspace, hshutdown]
    dsimp only
    rw [hnew]
    dsimp only
    rw [hdestroy]
  · exact {
      replies := rfl
      mem := hname
      shelves := hagain.shelves
      opened := by
        refine ⟨x, .settled past, ?_⟩
        dsimp only
        rw [(rebound_of_mirrors hmirrors).1]
        exact hmirrors'
      store := hstore
      shelved := fun n hn _ => hagain.all n hn }

/-! ### Runs -/

/-- **One step** of the server is one of the cabinet. -/
theorem Houses.attend (h : Houses N t l) {a : Action} (ha : Orderly N t a) :
    ∃ t', Server.attend t a = some t' ∧ Houses N t' (l.attend a) := by
  cases a with
  | swap => exact ⟨_, rfl, h.replies ▸ h.swap t.replies⟩
  | write => exact ⟨_, rfl, h.replies ▸ h.write t.replies⟩
  | request env env' input =>
      obtain ⟨htokens, hquit, hfixed, hclear, huse⟩ := ha
      -- a switch changes which store is open, any other request only that store
      by_cases hisUse : IsUse input
      · obtain ⟨name, hname⟩ := isUse_iff.mp hisUse
        obtain ⟨hmem, hswitch⟩ := huse name hname
        obtain ⟨s, hs, hhouses⟩ := h.use hmem hswitch
          (t.replies ++ [ascii "OK switched keyspace to " ++ name])
        have hrequest : l.cabinet.request env input =
            ({ l.cabinet with current := name }, ascii "OK switched keyspace to " ++ name) := by
          rw [Cabinet.request, if_pos hisUse, hname]
          rfl
        refine ⟨⟨s, t.replies ++ [ascii "OK switched keyspace to " ++ name]⟩, ?_, ?_⟩
        · rw [Server.attend, dispatcher_use hname, hs]
        · rw [Ledger.attend, hrequest, ← h.replies]
          exact hhouses
      · have hnotUse : ∀ name, tokens input ≠ [ascii "use", name] :=
          fun name hname => hisUse (isUse_iff.mpr ⟨name, hname⟩)
        have hreply : (DB.sheet l.cabinet.current l.cabinet.store).reply env input =
            t.server.db.reply env input := DB.reply_congr h.name_eq.symm h.store.symm env input
        have hexecutes : t.server.db.Executes env.staleName (tokens input) :=
          DB.executes_of_appends (Or.inl h.isOpen) _
        rw [Server.attend, dispatcher_eq env env' t.server htokens hquit hnotUse hexecutes]
        refine ⟨_, rfl, ?_⟩
        rw [Ledger.attend, Cabinet.request, if_neg hisUse, hreply, ← h.replies]
        split
        · next heq => exact h.clear _ (hclear heq)
        · exact h.command _ hfixed

/-- A new server houses what is on file. -/
theorem houses_new {fs fs' : Files} {keyspace : Bytes} {s : Server} {stores : Bytes → Store}
    (hshelves : Shelves fs N) (hkeyspace : keyspace ∈ N) (hall : AllStand N fs stores)
    (henv : env.replaying = false) (hnew : Server.new env fs keyspace = (fs', .ok s)) :
    Houses N ⟨s, []⟩ ⟨⟨keyspace, stores⟩, []⟩ := by
  obtain ⟨a, past, db, hdb, hmirrors, hstore⟩ := hall.new hshelves hkeyspace henv
  rw [Server.new, hdb] at hnew
  obtain rfl := Except.ok.inj (Prod.mk.inj hnew).2
  exact {
    replies := rfl
    mem := hkeyspace
    shelves := hshelves.congr (FS.openAppend_resolve _ _)
    opened := by
      refine ⟨a, .settled past, ?_⟩
      dsimp only
      rw [(rebound_of_mirrors hmirrors).2]
      exact hmirrors
    store := hstore
    shelved := fun n hn _ => allStand_openAppend hshelves hkeyspace hall n hn }

/-- So is what the last two shutdowns compact. -/
structure ClosesIn (env env' : Env) (s : Server) : Prop where
  closes : s.db.ClosesWell env
  closes' : s.db.ClosesWell env'

/-- **A server that is destroyed**, whether or not a snapshot throws, leaves all logs
standing. -/
theorem destroy_of_shut {s : Server} {stores : Bytes → Store}
    (h : Shut N stores name (s.db.shutdown env s.fs).1 (s.db.shutdown env s.fs).2.1)
    (hcloses : s.ClosesIn env env') :
    Shelves (s.destroy env env').1 N ∧ AllStand N (s.destroy env env').1 stores := by
  have hcloses' := hcloses.closes'.shutdown env s.fs
  rw [Server.destroy]
  -- an exception of the first shutdown ends it; else the destructor shuts down once more
  split
  · next heq =>
      rw [heq] at h
      exact ⟨h.shelves, h.all⟩
  · next heq =>
      rw [heq] at h
      exact ⟨h.shelves, h.all⟩
  · next fs old heq =>
      rw [heq] at h hcloses'
      have hagain := h.shutdown hcloses'
      rw [DB.destroy_fst]
      exact ⟨hagain.shelves, hagain.all⟩

/-- Every keyspace is constructed again. -/
theorem Houses.reconstructed (h : Houses N t l) (hcloses : t.server.ClosesIn env env')
    (env₃ : Env) {n : Bytes} (hn : n ∈ N) :
    ∃ fs db, DB.new env₃ (t.server.destroy env env').1 n = (fs, .ok db) ∧
      db.store = l.cabinet.stores n := by
  obtain ⟨hshelves, hall⟩ := destroy_of_shut (h.shutdown hcloses.closes) hcloses
  exact hall.constructed hshelves env₃ hn

/-- An orderly run of a server that has been constructed. -/
theorem houses_run {fs fs' : Files} {keyspace : Bytes} {s : Server} {stores : Bytes → Store}
    (hshelves : Shelves fs N) (hkeyspace : keyspace ∈ N) (hstores : AllStand N fs stores)
    (henv : env.replaying = false) (hnew : Server.new env fs keyspace = (fs', .ok s))
    {as : List Action} (has : Machine.Guarded Server.attend (Orderly N) ⟨s, []⟩ as) :
    ∃ t, Machine.run Server.attend ⟨s, []⟩ as = some t ∧
      Houses N t (as.foldl Ledger.attend ⟨⟨keyspace, stores⟩, []⟩) :=
  has.refined (S := Houses N) (f := Ledger.attend) (fun _ _ _ h ha => h.attend ha)
    (houses_new hshelves hkeyspace hstores henv hnew)

theorem shelves_blankFiles (h : ∀ n ∈ N, ∀ n' ∈ N, n' ≠ n ++ ascii "_temp") :
    Shelves blankFiles N where
  separate := fun n _ => ⟨aofPath n, separate_blankFiles n⟩
  apart := fun n hn n' hn' hne p hp heq => by
    have hpath : p = aofPath n' := Option.some.inj heq
    simp only [writtenPaths, List.mem_cons, List.not_mem_nil, or_false] at hp
    rcases hp with rfl | rfl | rfl
    · exact hne (aofPath_inj.mp hpath)
    · exact dbPath_ne_aofPath n n' hpath
    · rw [tempPath_eq] at hpath
      exact h n hn n' hn' (aofPath_inj.mp hpath).symm

/-- A request of plain records that neither ends the session, clears nor switches. -/
theorem orderly_of_plain {input : Bytes} (t : Served) (htokens : tokens input ≠ [])
    (hquit : ¬IsQuit input) (hclear : input ≠ ascii "clear") (huse : ¬IsUse input)
    (hplain : ∀ r ∈ commandRecords (tokens input), PlainRecord r) :
    Orderly N t (.request env env' input) :=
  ⟨htokens, hquit, fixedRecords_of_plain hplain, fun h => absurd h hclear,
    fun name hname => absurd (isUse_iff.mpr ⟨name, hname⟩) huse⟩

/-! ### A put on a new keyspace -/

/-- The `DB` after it. -/
noncomputable def putDB : DB := (fresh (ascii "a")).db.execute (tokens (ascii "put k 1"))

theorem serialize_putDB_le :
    (Log.serialize Env.calm putDB.store).length ≤ Log.COMPRESSION_THRESHOLD := by
  have hstore : putDB.store = (∅ : Store).insert (ascii "k") (ascii "1") := rfl
  rw [Log.serialize, hstore, Iteration.entries_singleton]
  exact (rfl : _ = 29).trans_le (by decide)

theorem resolve_fresh (p : Bytes) : (fresh (ascii "a")).fs.resolve p = some p := by
  show (blankFiles.openAppend (aofPath (ascii "a"))).1.resolve p = some p
  rw [FS.openAppend_resolve]
  rfl

theorem not_shutdownThrows_putDB :
    ¬DB.ShutdownThrows Env.calm (fresh (ascii "a")).fs putDB := by
  have hsound : putDB.logger.Sound := (attached_fresh (ascii "a")).sound.appendAll _
  refine ((DB.shutdown_ok_iff _ _ _).mp (DB.shutdown_ok hsound (fun _ => ?_) ?_)).2
  · exact ⟨rfl, by rw [resolve_fresh]; rfl, ascii "a", rfl, by rw [resolve_fresh]; rfl⟩
  · exact serialize_putDB_le

theorem attend_put (running : Bool) :
    Server.attend ⟨⟨(fresh (ascii "a")).fs, (fresh (ascii "a")).db, running⟩, []⟩
        (.request Env.calm Env.calm (ascii "put k 1")) =
      some ⟨⟨(fresh (ascii "a")).fs, putDB, running⟩, [[]]⟩ := by
  have hput : tokens (ascii "put k 1") = [ascii "put", ascii "k", ascii "1"] := by decide
  have hopen : (fresh (ascii "a")).db.logger.logfile.isSome = true := rfl
  rw [Server.attend, dispatcher_eq _ _ _ (by rw [hput]; simp) (by decide)
    (fun name hname => by rw [hput] at hname; simp at hname)
    (DB.executes_of_appends (Or.inl hopen) _), if_neg (by decide)]
  rfl

theorem orderly_put (t : Served) :
    Orderly N t (.request Env.calm Env.calm (ascii "put k 1")) :=
  orderly_of_plain t (by decide) (by decide) (by decide) (by decide) (by decide)

end Server

end Taproot
