import Taproot.Keyspace

/-!
# Taproot.Isolation

Whether a keyspace can touch **the files of another**.

Everything a keyspace writes goes through three path strings: its log, its
snapshot, and the temporary file of a compaction. In the directory of the logs
a path string is the entry of its C string, so two keyspaces are isolated
exactly if the C strings of the three paths of the one differ from those of the
two files of the other (`isolated_iff`). For names without a NUL, the temporary
path is the only one that can coincide (`pathsApart_iff`).

The temporary path is made of the string that the log refers to. Once that is
gone, as after every `use`, a compaction may go through any file of the directory.
-/

namespace Taproot

open Posix Journal

/-! ### Paths as the operating system sees them -/

def SLASH : UInt8 := 47

/-- A path string ends at its first NUL. -/
def cstr (p : Bytes) : Bytes := p.takeWhile (· ≠ 0)

/-- The directory of the logs: a path without a further slash is the entry of
its C string, unless it cannot be opened. -/
def LogsDirectory (fs : Files) : Prop :=
  ∀ file, SLASH ∉ file → fs.resolve (ascii "logs/" ++ file) = none ∨
    fs.resolve (ascii "logs/" ++ file) = some (cstr (ascii "logs/" ++ file))

/-- The files that hold a keyspace. -/
def keptPaths (name : Bytes) : List Bytes := [aofPath name, dbPath name]

/-- The paths that a keyspace writes to. -/
def writtenPaths (name : Bytes) : List Bytes := [aofPath name, dbPath name, tempPath name]

/-- No path that `A` writes to is a file of `B`. -/
def PathsApart (A B : Bytes) : Prop :=
  ∀ p ∈ writtenPaths A, ∀ q ∈ keptPaths B, cstr p ≠ cstr q

instance (A B : Bytes) : Decidable (PathsApart A B) := by
  unfold PathsApart; infer_instance

theorem cstr_eq_self {p : Bytes} (h : 0 ∉ p) : cstr p = p :=
  List.takeWhile_eq_self_iff.mpr fun c hc => by simpa using fun hc0 : c = 0 => h (hc0 ▸ hc)

/-- For names without a NUL, only the temporary path can be another's. -/
theorem pathsApart_iff {A B : Bytes} (hA : 0 ∉ A) (hB : 0 ∉ B) :
    PathsApart A B ↔ A ≠ B ∧ B ≠ A ++ ascii "_temp" := by
  have haof : ∀ {n : Bytes}, 0 ∉ n → cstr (aofPath n) = aofPath n := by
    intro n hn
    refine cstr_eq_self ?_
    simp [aofPath, hn, show (0 : UInt8) ∉ ascii "logs/" from by decide,
      show (0 : UInt8) ∉ ascii ".aof" from by decide]
  have hdb : ∀ {n : Bytes}, 0 ∉ n → cstr (dbPath n) = dbPath n := by
    intro n hn
    refine cstr_eq_self ?_
    simp [dbPath, hn, show (0 : UInt8) ∉ ascii "logs/" from by decide,
      show (0 : UInt8) ∉ ascii ".db" from by decide]
  have hAtemp : 0 ∉ A ++ ascii "_temp" := by
    simp [hA, show (0 : UInt8) ∉ ascii "_temp" from by decide]
  simp only [PathsApart, writtenPaths, keptPaths, List.forall_mem_cons, List.not_mem_nil,
    false_implies, implies_true, and_true, tempPath_eq, haof hA, haof hB, hdb hA, hdb hB,
    haof hAtemp, ne_eq, aofPath_inj, dbPath_inj, dbPath_ne_aofPath, (dbPath_ne_aofPath _ _).symm,
    not_false_eq_true, true_and, eq_comm (a := B)]
  exact ⟨fun h => ⟨h.1, h.2.2⟩, fun h => ⟨h.1, h.1, h.2⟩⟩

/-- The entry behind a path of a name. -/
theorem LogsDirectory.entry {fs : Files} (h : LogsDirectory fs) {name p e : Bytes}
    (hname : SLASH ∉ name) (hp : p ∈ writtenPaths name) (he : fs.resolve p = some e) :
    e = cstr p := by
  have hfile : ∀ suffix : Bytes, SLASH ∉ suffix → p = ascii "logs/" ++ name ++ suffix →
      e = cstr p := by
    rintro suffix hsuffix rfl
    rw [List.append_assoc] at he ⊢
    -- a path without further slashes is one entry of the directory
    rcases h (name ++ suffix) (by simp [hname, hsuffix]) with hnone | hsome
    · exact absurd (he.symm.trans hnone) (by simp)
    · exact Option.some.inj (he.symm.trans hsome)
  simp only [writtenPaths, List.mem_cons, List.not_mem_nil, or_false] at hp
  rcases hp with rfl | rfl | rfl
  · exact hfile (ascii ".aof") (by decide) rfl
  · exact hfile (ascii ".db") (by decide) rfl
  · exact hfile (ascii "_temp.aof") (by decide) rfl

/-- What a name is loaded with depends on what the path of its log holds. -/
theorem DB.new_store_congr {fs fs' : Files} {name : Bytes} (hresolve : fs'.resolve = fs.resolve)
    (hread : fs'.read (aofPath name) = fs.read (aofPath name)) (env : Env) :
    (DB.new env fs' name).2.map DB.store = (DB.new env fs name).2.map DB.store := by
  cases hp : fs.resolve (aofPath name) with
  | none => rw [new_eq_error env hp, new_eq_error env (hresolve ▸ hp)]
  | some a =>
      obtain ⟨i, -, hnew⟩ := new_eq env hp
      have hp' : fs'.resolve (aofPath name) = some a := hresolve ▸ hp
      obtain ⟨j, -, hnew'⟩ := new_eq env hp'
      rw [hnew, hnew', hread]
      rfl

namespace Keyspace

/-- No run of a `DB` named `A`, whose name string is `alive` or gone, changes a file of
`B`, nor what `B` loads. -/
def Isolated (alive : Bool) (A B : Bytes) : Prop :=
  ∀ (fs : Files) (env : Env) (fs' : Files) (db : DB), LogsDirectory fs →
    DB.new env fs A = (fs', .ok db) → ∀ es : List Event,
      (∀ q ∈ keptPaths B, ∀ e, fs.resolve q = some e →
        (run ⟨fs', if alive then db else db.orphaned⟩ es).fs.view e = fs.view e) ∧
      ∀ env', (DB.new env' (run ⟨fs', if alive then db else db.orphaned⟩ es).fs B).2.map DB.store =
        (DB.new env' fs B).2.map DB.store

variable {A B : Bytes}

theorem isolated_of_pathsApart (hA : SLASH ∉ A) (hB : SLASH ∉ B) (hapart : PathsApart A B) :
    Isolated true A B := by
  intro fs env fs' db hdir hnew es
  rw [if_pos rfl]
  obtain ⟨a, i, ha, hfs, -, hatt, -⟩ := new_inv hnew
  have hresolve : fs'.resolve = fs.resolve := by rw [hfs, FS.openAppend_resolve]
  have hrun : (run ⟨fs', db⟩ es).fs.resolve = fs.resolve := (run_resolve _ es).trans hresolve
  -- a path of `A` and a file of `B` are never the same entry
  have hne : ∀ p ∈ writtenPaths A, ∀ q ∈ keptPaths B, ∀ e, fs.resolve q = some e →
      fs.resolve p ≠ some e := by
    intro p hp q hq e hqe hpe
    have hpc : e = cstr p := hdir.entry hA hp hpe
    have hqc : e = cstr q := hdir.entry hB (List.mem_append_left [tempPath B] hq) hqe
    exact hapart p hp q hq (hpc.symm.trans hqc)
  have hview : ∀ q ∈ keptPaths B, ∀ e, fs.resolve q = some e →
      (run ⟨fs', db⟩ es).fs.view e = fs.view e := by
    intro q hq e hqe
    have haof := hne (aofPath A) (by simp [writtenPaths]) q hq e hqe
    have hdb := hne (dbPath A) (by simp [writtenPaths]) q hq e hqe
    have htemp := hne (tempPath A) (by simp [writtenPaths]) q hq e hqe
    have hstart : fs'.view e = fs.view e := by rw [hfs, FS.view_openAppend_of_ne haof]
    have hae : a ≠ e := fun h => haof (ha.trans (congrArg some h))
    rw [view_run_of_ne hatt hae (hresolve ▸ hdb) (hresolve ▸ htemp) es]
    exact hstart
  refine ⟨hview, fun env' => DB.new_store_congr hrun ?_ env'⟩
  cases hq : fs.resolve (aofPath B) with
  | none => simp [FS.read, FS.ino, hq, hrun]
  | some e =>
      rw [FS.read_eq (hrun ▸ hq), FS.read_eq hq, hview _ (by simp [keptPaths]) e hq]

/-! ### Paths that coincide -/

/-- A system with one file, behind the entry `e`. -/
def oneFile (e content : Bytes) : Files where
  resolve p := some (cstr p)
  dir := Function.update (fun _ => none) e (some 0)
  data _ := content
  next := 1
  dir_lt := by
    intro x i hx
    rw [Function.update_apply] at hx
    split at hx
    · obtain rfl := Option.some.inj hx
      exact Nat.one_pos
    · exact absurd hx (by simp)
  dir_inj := by
    intro x y i hx hy
    rw [Function.update_apply] at hx hy
    split at hx
    · split at hy
      · next hxe hye => rw [hxe, hye]
      · exact absurd hy (by simp)
    · exact absurd hx (by simp)

theorem logsDirectory_oneFile (e content : Bytes) : LogsDirectory (oneFile e content) :=
  fun _ _ => Or.inr rfl

theorem dir_oneFile (e content : Bytes) : (oneFile e content).dir e = some 0 := by
  show Function.update (fun _ => none) e (some 0) e = some 0
  rw [Function.update_self]

theorem view_oneFile (e content : Bytes) :
    (oneFile e content).view e = some (0, content) :=
  FS.view_eq_some_iff.mpr ⟨dir_oneFile e content, rfl⟩

/-- A compaction renames the temporary file away. -/
theorem view_temp_of_compaction {a t name : Bytes} {ks : Keyspace} (hsound : ks.db.logger.Sound)
    (hopen : ks.db.logger.logfile.isSome = true) (hreplaying : ks.db.replaying = false)
    (hdirty : ks.db.dirty = 0) (haof : ks.fs.resolve ks.db.logger.logFilepath = some a)
    {env : Env} (henv : env.temp = .complete)
    (hread : ks.db.logger.keyspaceName.read env.staleName = .ok name)
    (ht : ks.fs.resolve (tempPath name) = some t) (hta : t ≠ a)
    (htdb : ks.fs.resolve ks.db.logger.dbFilepath ≠ some t) :
    (ks.run [.command (ascii "put k v"), .shutdown env]).fs.view t = none := by
  have hrecords : commandRecords (tokens (ascii "put k v")) = [.put (ascii "k") (ascii "v")] := by
    decide
  have hskips : ¬Log.Skips (ks.db.update [.put (ascii "k") (ascii "v")]).store
      ((ks.db.update [.put (ascii "k") (ascii "v")]).dirty % SIZE_MOD) :=
    DB.not_skips_update hreplaying hdirty (ascii "k") (ascii "v")
  rw [run_cons, run_cons, run_nil, step_command (Or.inl hopen), DB.execute_eq hreplaying, hrecords]
  exact DB.view_shutdown_temp (hsound.appendAll _)
    ((congrArg ks.fs.resolve (Log.appendAll_logFilepath _ _)).trans haof)
    ((congrArg (NameRef.read _) (Log.appendAll_keyspaceName _ _)).trans hread) ht hta
    (by rw [Log.appendAll_dbFilepath]; exact htdb) henv hskips

/-- A `DB` that writes to a file of `B` destroys it: a shared log or snapshot is truncated
by `clearData`, and a file behind the temporary path of the name that is read is renamed
away. -/
theorem not_isolated_of_eq {alive : Bool} {staleName : Option Bytes} {name q : Bytes}
    (hread : (if alive then NameRef.bound A else .dangling).read staleName = .ok name)
    (hq : q ∈ keptPaths B)
    (hpath : cstr (aofPath A) = cstr q ∨ cstr (dbPath A) = cstr q ∨ cstr (tempPath name) = cstr q) :
    ¬Isolated alive A B := by
  intro hiso
  obtain ⟨fs', db, hnew⟩ : ∃ fs' db, DB.new Env.calm (oneFile (cstr q) [0]) A = (fs', .ok db) := by
    have haof : (oneFile (cstr q) [0]).resolve (aofPath A) = some (cstr (aofPath A)) := rfl
    obtain ⟨fs', i, hnew, -⟩ := new_attached Env.calm haof
    exact ⟨fs', _, hnew⟩
  have hkept := fun es => (hiso _ _ _ _ (logsDirectory_oneFile _ _) hnew es).1 q hq (cstr q) rfl
  obtain ⟨a, i, hp', hfs, hdb, ha, -⟩ := new_inv hnew
  obtain rfl : cstr (aofPath A) = a := Option.some.inj hp'
  have hresolve : ∀ x, fs'.resolve x = some (cstr x) := by
    intro x
    rw [hfs, FS.openAppend_resolve]
    rfl
  -- apart from its name reference, the `DB` is as it was constructed
  obtain ⟨db₁, hdb₁⟩ : ∃ db₁, db₁ = if alive then db else db.orphaned := ⟨_, rfl⟩
  have hname : db₁.logger.keyspaceName = if alive then .bound A else .dangling := by
    rw [hdb₁]
    cases alive with
    | true => exact ha.keyspaceName_eq
    | false => rfl
  have hsame : db₁.logger.Sound ∧ db₁.logger.logfile = db.logger.logfile ∧
      db₁.replaying = db.replaying ∧ db₁.dirty = db.dirty ∧
      db₁.logger.logFilepath = aofPath A ∧ db₁.logger.dbFilepath = dbPath A := by
    rw [hdb₁]
    cases alive with
    | true => exact ⟨ha.sound, rfl, rfl, rfl, ha.logFilepath_eq, ha.dbFilepath_eq⟩
    | false => exact ⟨⟨ha.sound.thread, ha.sound.drained⟩, rfl, rfl, rfl, ha.logFilepath_eq,
        ha.dbFilepath_eq⟩
  obtain ⟨hsound, hlogfile, hreplaying, hdirty, haofPath, hdbPath⟩ := hsame
  rw [← hdb₁] at hkept
  by_cases hdirect : cstr (aofPath A) = cstr q ∨ cstr (dbPath A) = cstr q
  -- `clearData` truncates the log and the snapshot
  · have hdir : fs'.dir (cstr q) = some 0 := by
      rw [hfs]
      exact FS.openAppend_dir_of_some (dir_oneFile _ _)
    have hcleared : (run ⟨fs', db₁⟩ [.clearData]).fs.view (cstr q) = some (0, []) := by
      refine DB.view_clearData_of_mem hdir ?_
      rw [haofPath, hdbPath, hresolve, hresolve]
      exact hdirect.imp (congrArg some) (congrArg some)
    have hkept := hkept [.clearData]
    rw [hcleared, view_oneFile] at hkept
    exact absurd hkept (by simp)
  -- a compaction goes through the temporary path
  · obtain ⟨haof, hdbne⟩ := not_or.mp hdirect
    have htemp : cstr (tempPath name) = cstr q := (hpath.resolve_left haof).resolve_left hdbne
    have hgone : (run ⟨fs', db₁⟩ [.command (ascii "put k v"),
        .shutdown { Env.calm with staleName }]).fs.view (cstr q) = none := by
      have hread₁ : db₁.logger.keyspaceName.read staleName = .ok name := by rw [hname]; exact hread
      refine view_temp_of_compaction hsound ?_ ?_ ?_ ?_ rfl hread₁ ?_ (Ne.symm haof) ?_
      · rw [hlogfile, hdb]; rfl
      · rw [hreplaying, hdb]; exact ite_self _
      · rw [hdirty, hdb]; rfl
      · rw [haofPath, hresolve]
      · rw [hresolve, htemp]
      · rw [hdbPath, hresolve]; exact fun h => hdbne (Option.some.inj h)
    have hkept := hkept [.command (ascii "put k v"), .shutdown { Env.calm with staleName }]
    rw [hgone, view_oneFile] at hkept
    exact absurd hkept (by simp)

/-- A log that refers to a string that is gone can read any name there, such as one that
ends its temporary path after the log of `B`. -/
theorem not_isolated_orphaned (A B : Bytes) : ¬Isolated false A B := by
  have hcut : cstr (tempPath (B ++ ascii ".aof" ++ [0])) = cstr (aofPath B) := by
    -- the operating system reads the path up to the zero byte
    have hpath : tempPath (B ++ ascii ".aof" ++ [0]) = aofPath B ++ 0 :: ascii "_temp.aof" := by
      simp [tempPath, aofPath]
    rw [hpath, cstr, cstr, List.takeWhile_append]
    split
    · next hwhole =>
        have hself := (List.takeWhile_prefix _).eq_of_length hwhole
        rw [List.takeWhile_cons_of_neg (by simp), List.append_nil, hself]
    · rfl
  have hread : NameRef.dangling.read (some (B ++ ascii ".aof" ++ [0])) =
      .ok (B ++ ascii ".aof" ++ [0]) := rfl
  exact not_isolated_of_eq hread (List.mem_cons_self ..) (Or.inr (Or.inr hcut))

/-- **Isolation on disk**, exactly: no run of `A` touches the files of `B` if
and only if the string that `A` was named by is alive and their paths are apart. -/
theorem isolated_iff {alive : Bool} (hA : SLASH ∉ A) (hB : SLASH ∉ B) :
    Isolated alive A B ↔ alive = true ∧ PathsApart A B := by
  cases alive with
  | false => exact iff_of_false (not_isolated_orphaned A B) (by simp)
  | true =>
      rw [and_iff_right rfl]
      refine ⟨fun h p hp q hq heq => ?_, isolated_of_pathsApart hA hB⟩
      simp only [writtenPaths, List.mem_cons, List.not_mem_nil, or_false] at hp
      refine not_isolated_of_eq (NameRef.read_bound none A) hq ?_ h
      rcases hp with rfl | rfl | rfl
      · exact Or.inl heq
      · exact Or.inr (Or.inl heq)
      · exact Or.inr (Or.inr heq)

theorem isolated_iff_users : Isolated true (ascii "users") (ascii "users2") :=
  (isolated_iff (by decide) (by decide)).mpr (by decide)

/-- A compaction of `x` goes through the log of `x_temp`. -/
theorem not_isolated_temp :
    ascii "x" ≠ ascii "x_temp" ∧ SLASH ∉ ascii "x" ∧ SLASH ∉ ascii "x_temp" ∧
      ¬Isolated true (ascii "x") (ascii "x_temp") := by
  refine ⟨by decide, by decide, by decide, ?_⟩
  exact not_isolated_of_eq (q := aofPath (ascii "x_temp")) (NameRef.read_bound none (ascii "x"))
    (by decide) (Or.inr (Or.inr (by decide)))

end Keyspace

end Taproot
