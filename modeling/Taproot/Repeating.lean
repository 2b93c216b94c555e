import Taproot.Constructing

/-!
# Taproot.Repeating

Shutting a keyspace down **more than once**, as a `quit`, the destructor of the
server and the destructor of the `DB` do one after the other.

Nothing tells a shutdown that it is not the first: the counter of changes is
never reset, so the log is compacted and the snapshot written each time. But
what they write depends only on the store and on how it is walked. `Rested` says
what a shutdown leaves, whichever of its steps were skipped and even where two
of the paths are one file; a further shutdown leaves the same (`rested_step`).
-/

namespace Taproot

open Posix Journal

/-! ### Surroundings -/

/-- The surroundings of two shutdowns with the same map: the files can be
written, the map is walked in the same order, and the library is the same. -/
structure Env.Alike (env env' : Env) : Prop where
  temp : env'.temp = .complete
  iteration : env'.iteration = env.iteration
  lz4 : env'.lz4 = env.lz4

namespace Log

variable {env env' : Env}

theorem compacted_alike (h : env.Alike env') (state : Store) :
    compacted env' state = compacted env state := by
  rw [compacted, compacted, h.iteration]

theorem snapshotText_alike (h : env.Alike env') (state : Store) :
    snapshotText env' state = snapshotText env state := by
  rw [snapshotText, snapshotText, serialize, serialize, h.iteration, h.lz4]

end Log

/-- Nothing that would change the keyspace. -/
def Event.IsIdle (env : Env) : Event → Prop
  | command c => ¬IsMutation (tokens c)
  | swap => True
  | write => True
  | shutdown env' => env.Alike env'
  | _ => False

namespace Keyspace

variable {name a : Bytes} {ks : Keyspace} {env env' : Env}

/-! ### What a shutdown leaves -/

/-- The content of the snapshot. -/
def snapshot (env : Env) (ks : Keyspace) : Bytes :=
  (Log.snapshotText env ks.db.store).toOption.getD []

/-- Where the files can be written, a shutdown ends with the snapshot. -/
theorem step_shutdown_fs (ha : Attached name a ks) (ht : (ks.fs.resolve (tempPath name)).isSome)
    (htemp : env.temp = .complete) :
    (ks.step (.shutdown env)).1.fs = (ks.db.logger.closed.writeBinarySnapshot env
      (ks.db.compactedFiles env ks.fs) ks.db.store).1 := by
  have hcompact : (ks.db.logger.closed.compactLog env
      (ks.db.logger.write ks.fs ks.db.logger.pending) ks.db.store
      (ks.db.dirty % SIZE_MOD)).2 = .ok () := by
    refine Log.compactLog_ok fun _ => ⟨htemp, ?_, name, ?_, ?_⟩
    · rw [Log.write_resolve]
      show (ks.fs.resolve ks.db.logger.logFilepath).isSome = true
      rw [ha.logFilepath_eq, ha.aof]
      rfl
    · show ks.db.logger.keyspaceName.read env.staleName = .ok name
      rw [ha.keyspaceName_eq, NameRef.read_bound]
    · rw [Log.write_resolve]
      exact ht
  show (ks.db.shutdown env ks.fs).1 = _
  rw [DB.shutdown_of_compacts ha.sound hcompact]

/-- The path of the snapshot holds the snapshot, if it can be opened. -/
theorem read_db_shutdown (ha : Attached name a ks) (ht : (ks.fs.resolve (tempPath name)).isSome)
    (htemp : env.temp = .complete) :
    (ks.step (.shutdown env)).1.fs.read (dbPath name) =
      (ks.fs.resolve (dbPath name)).map fun _ => ks.snapshot env := by
  have hpath : ks.db.logger.closed.dbFilepath = dbPath name := ha.dbFilepath_eq
  have hread := Log.read_writeBinarySnapshot env (ks.db.compactedFiles env ks.fs)
    ks.db.logger.closed ks.db.store
  rw [hpath] at hread
  rw [step_shutdown_fs ha ht htemp, hread, DB.compactedFiles, Log.compactLog_resolve,
    Log.write_resolve]
  rfl

/-- The path of the log holds the text, or the compacted text; or the snapshot, if
both are the same file. -/
theorem content_shutdown_eq (ha : Attached name a ks) (ht : (ks.fs.resolve (tempPath name)).isSome)
    (htemp : env.temp = .complete) :
    (ks.step (.shutdown env)).1.content =
      if ks.fs.resolve (dbPath name) = some a then ks.snapshot env
      else if Log.Skips ks.db.store (ks.db.dirty % SIZE_MOD) then ks.text
      else Log.compacted env ks.db.store := by
  split
  · next hsame =>
      have ha' := attached_step ha (.shutdown env)
      have hdb : (ks.step (.shutdown env)).1.fs.resolve (dbPath name) = some a := by
        rw [step_resolve, hsame]
      have hread := read_db_shutdown ha ht htemp
      rw [FS.read_eq hdb, hsame] at hread
      rw [ha'.content_eq, hread]
      rfl
  · next hother =>
      split
      · next hskips => exact content_shutdown_of_skips ha hother env hskips
      · next hskips => exact content_shutdown_of_compacts ha ⟨ha.aof, hother, ht⟩ htemp hskips

/-- **A keyspace at rest**: its log is closed, and its files are what a shutdown
would make of them. -/
structure Rested (env : Env) (name a : Bytes) (ks : Keyspace) : Prop where
  attached : Attached name a ks
  temp : (ks.fs.resolve (tempPath name)).isSome
  closed : ks.db.logger.closed = ks.db.logger
  content : ks.content =
    if ks.fs.resolve (dbPath name) = some a then ks.snapshot env
    else if Log.Skips ks.db.store (ks.db.dirty % SIZE_MOD) then ks.content
    else Log.compacted env ks.db.store
  snapshot : ks.fs.read (dbPath name) =
    (ks.fs.resolve (dbPath name)).map fun _ => ks.snapshot env

/-- A first shutdown puts a keyspace to rest. -/
theorem rested_shutdown (ha : Attached name a ks) (ht : (ks.fs.resolve (tempPath name)).isSome)
    (htemp : env.temp = .complete) : Rested env name a (ks.step (.shutdown env)).1 := by
  have hdb := step_shutdown_db ha.sound env
  have hresolve := step_resolve ks (.shutdown env)
  have hsnapshot : (ks.step (.shutdown env)).1.snapshot env = ks.snapshot env := by
    rw [snapshot, snapshot, hdb]
  have hcontent := content_shutdown_eq ha ht htemp
  exact {
    attached := attached_step ha (.shutdown env)
    temp := by rw [hresolve]; exact ht
    closed := by rw [hdb]; rfl
    content := by
      rw [hresolve, hsnapshot, hdb]
      rw [hcontent]
      split
      · rfl
      · split <;> rfl
    snapshot := by rw [hresolve, hsnapshot]; exact read_db_shutdown ha ht htemp }

/-- What an observer of the keyspace and of its two files can tell apart. -/
structure Same (name : Bytes) (ks ks' : Keyspace) : Prop where
  db : ks'.db = ks.db
  aof : ks'.fs.read (aofPath name) = ks.fs.read (aofPath name)
  snapshot : ks'.fs.read (dbPath name) = ks.fs.read (dbPath name)

theorem Same.refl (name : Bytes) (ks : Keyspace) : Same name ks ks := ⟨rfl, rfl, rfl⟩

theorem Same.trans {ks' ks'' : Keyspace} (h : Same name ks ks') (h' : Same name ks' ks'') :
    Same name ks ks'' :=
  ⟨h'.db.trans h.db, h'.aof.trans h.aof, h'.snapshot.trans h.snapshot⟩

theorem Attached.read_aof (ha : Attached name a ks) :
    ks.fs.read (aofPath name) = some ks.content := by
  obtain ⟨i, hi⟩ := ha.view_eq
  rw [FS.read_eq ha.aof, hi]
  rfl

/-- A further shutdown leaves all as it is. -/
theorem same_shutdown (h : Rested env name a ks) (henv : env.Alike env') :
    Same name ks (ks.step (.shutdown env')).1 := by
  have hsnapshot : ks.snapshot env' = ks.snapshot env := by
    rw [snapshot, snapshot, Log.snapshotText_alike henv]
  have hpending : ks.db.logger.pending = [] := by
    rw [← h.closed]
    rfl
  have htext : ks.text = ks.content := by rw [text, hpending, List.append_nil]
  refine ⟨?_, ?_, ?_⟩
  · rw [step_shutdown_db h.attached.sound, h.closed]
  · rw [(attached_step h.attached (.shutdown env')).read_aof, h.attached.read_aof,
      content_shutdown_eq h.attached h.temp henv.temp, htext, hsnapshot,
      Log.compacted_alike henv, ← h.content]
  · rw [read_db_shutdown h.attached h.temp henv.temp, h.snapshot, hsnapshot]

theorem Rested.of_same (h : Rested env name a ks) {ks' : Keyspace} (ha : Attached name a ks')
    (hresolve : ks'.fs.resolve = ks.fs.resolve) (hsame : Same name ks ks') :
    Rested env name a ks' := by
  have hcontent : ks'.content = ks.content := by
    have haof := hsame.aof
    rw [ha.read_aof, h.attached.read_aof] at haof
    exact Option.some.inj haof
  have hsnapshot : ks'.snapshot env = ks.snapshot env := by
    rw [Keyspace.snapshot, Keyspace.snapshot, hsame.db]
  exact {
    attached := ha
    temp := by rw [hresolve]; exact h.temp
    closed := by rw [hsame.db]; exact h.closed
    content := by rw [hcontent, hresolve, hsnapshot, hsame.db]; exact h.content
    snapshot := by rw [hsame.snapshot, hresolve, hsnapshot]; exact h.snapshot }

theorem rested_step (h : Rested env name a ks) {e : Event} (he : e.IsIdle env) :
    Rested env name a (ks.step e).1 ∧ Same name ks (ks.step e).1 := by
  have hsame : Same name ks (ks.step e).1 := by
    cases e with
    | command c =>
        rw [step_command (h.attached.appends none),
          DB.execute_of_records_nil (commandRecords_eq_nil he)]
        exact .refl name ks
    | swap =>
        have hswap : ks.db.logger.flusherSwap = ks.db.logger := by
          rw [← h.closed]
          rfl
        refine ⟨?_, rfl, rfl⟩
        show { ks.db with logger := ks.db.logger.flusherSwap } = ks.db
        rw [hswap]
    | write =>
        have hwrite : ks.db.logger.flusherWrite ks.fs = (ks.fs, ks.db.logger) := by
          rw [← h.closed]
          rfl
        have hstep : (ks.step .write).1 = ks := by
          show Keyspace.mk (ks.db.logger.flusherWrite ks.fs).1
            { ks.db with logger := (ks.db.logger.flusherWrite ks.fs).2 } = ks
          rw [hwrite]
        rw [hstep]
        exact .refl name ks
    | shutdown env' => exact same_shutdown h he
    | call c => exact he.elim
    | clearData => exact he.elim
  exact ⟨h.of_same (attached_step h.attached e) (step_resolve _ e) hsame, hsame⟩

theorem rested_run (h : Rested env name a ks) {es : List Event} (hes : ∀ e ∈ es, e.IsIdle env) :
    Rested env name a (ks.run es) ∧ Same name ks (ks.run es) := by
  refine run_induction (P := fun ks' => Rested env name a ks' ∧ Same name ks ks')
    (fun ks' e he hks => ?_) ⟨h, .refl name ks⟩
  obtain ⟨hrested, hsame⟩ := rested_step hks.1 (hes e he)
  exact ⟨hrested, hks.2.trans hsame⟩

/-- **Shutting down is idempotent.** Whatever has happened to a keyspace before a
shutdown: further shutdowns, with nothing written in between, leave the `DB`
with its store and its closed log and the contents of both files as the first
one has left them, and so does the destructor. -/
theorem shutdown_idempotent {c : Construction} {env₀ env : Env} {dirty : Nat} {fs fs' : Files}
    {db : DB} {es es' : List Event} (hnew : c.construct env₀ dirty fs name = (fs', .ok db))
    (ht : (fs.resolve (tempPath name)).isSome) (htemp : env.temp = .complete)
    (hes' : ∀ e ∈ es', e.IsIdle env) :
    let first := ((run ⟨fs', db⟩ es).step (.shutdown env)).1
    let last := first.run es'
    first.db.store = (run ⟨fs', db⟩ es).db.store ∧ first.db.logger.logfile = none ∧
      Same name first last ∧
      ∀ env', env.Alike env' →
        (last.db.destroy env' last.fs).1.read (aofPath name) = first.fs.read (aofPath name) ∧
        (last.db.destroy env' last.fs).1.read (dbPath name) = first.fs.read (dbPath name) := by
  intro first last
  obtain ⟨hresolve, a, ha⟩ := attached_construct hnew
  have hks := attached_run ha es
  have ht' : ((run ⟨fs', db⟩ es).fs.resolve (tempPath name)).isSome := by
    rw [run_resolve, hresolve]
    exact ht
  have hdb : first.db = _ := step_shutdown_db hks.sound env
  obtain ⟨hrested, hsame⟩ := rested_run (rested_shutdown hks ht' htemp) hes'
  refine ⟨by rw [hdb], by rw [hdb]; rfl, hsame, fun env' henv => ?_⟩
  have hdestroy := hsame.trans (same_shutdown hrested henv)
  rw [DB.destroy_fst]
  exact ⟨hdestroy.aof, hdestroy.snapshot⟩

/-- Cleared while a line is pending, and then shut down three times. -/
theorem shutdown_idempotent_cleared :
    let ks := (fresh (ascii "a")).run
      [.command (ascii "put k 1"), .swap, .clearData, .write, .command (ascii "put l 2")]
    let first := (ks.step (.shutdown Env.calm)).1
    Same (ascii "a") first (first.run [.shutdown Env.calm, .shutdown Env.calm]) := by
  have halike : Env.calm.Alike Env.calm := ⟨rfl, rfl, rfl⟩
  have hnew : Construction.load.construct Env.calm 0 blankFiles (ascii "a") =
      ((fresh (ascii "a")).fs, .ok (fresh (ascii "a")).db) := new_blankFiles (ascii "a")
  let es : List Event := [.command (ascii "put k 1"), .swap, .clearData, .write,
    .command (ascii "put l 2")]
  have hes' : ∀ e ∈ [Event.shutdown Env.calm, .shutdown Env.calm], e.IsIdle Env.calm := by
    intro e he
    cases he with
    | head => exact halike
    | tail _ he =>
        rw [List.mem_singleton.mp he]
        exact halike
  have hsame : Same (ascii "a") (((fresh (ascii "a")).run es).step (.shutdown Env.calm)).1 _ :=
    (shutdown_idempotent hnew rfl rfl hes').2.2.1
  exact hsame

end Keyspace

end Taproot
