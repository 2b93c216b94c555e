import Taproot.Noting

/-!
# Taproot.Naming

Which **name** a compaction goes by.

The log has made the path of its file from the name it was constructed with, and
makes that of the temporary file, each time it compacts, from the name it reads
through its reference. The reference of the first `DB` of a server is to its
configuration. The reference of a `DB` that a request has switched to is to a
token of that request, which is gone when the request is answered: from then on
the temporary path can be made of anything (`compactions_named_iff`).
-/

namespace Taproot

open Posix Journal

/-- Both paths are made of one name. -/
def Compaction.Named (c : Compaction) : Prop :=
  ∃ name, c.tempAof = tempPath name ∧ c.logFilepath = aofPath name

namespace Server

/-! ### Deeds -/

/-- What can happen to a server: requests, the halves of the flusher's round, and its
destruction, which ends with that of the `DB`. -/
inductive Deed
  | request (env env' : Env) (input : Bytes)
  | swap
  | write
  | destroy (env env' : Env)

/-- The deed where a name that is gone is read as `stale` and `stale'`. -/
def Deed.reading (stale stale' : Option Bytes) : Deed → Deed
  | request env env' input =>
    request { env with staleName := stale } { env' with staleName := stale' } input
  | destroy env env' => destroy { env with staleName := stale } { env' with staleName := stale' }
  | swap => swap
  | write => write

/-- The deed shuts the `DB` down. -/
def Deed.ShutsDown : Deed → Prop
  | request _ _ input => IsQuit input ∨ IsUse input
  | destroy _ _ => True
  | _ => False

/-- What the code compacts in a deed. -/
def compactions (s : Server) : Deed → List Compaction
  | .request env env' input => (s.dispatcherNoted env env' input).2
  | .destroy env env' => (s.destroyNoted env env').2
  | _ => []

/-- A server, and whether a switch has succeeded since its start; no function of the
program reads that. -/
structure Tracked where
  server : Server
  switched : Bool

/-- What ends the program, or at least all that can be said of it. -/
def Fatal : Fault → Bool
  | .exception _ => false
  | _ => true

/-- One step. The client's thread catches exceptions. -/
def host (t : Tracked) : Deed → Option Tracked
  | .request env env' input =>
    match t.server.dispatcher env env' input with
    | (s, .ok reply) => some ⟨s, t.switched || decide (IsUse input ∧ ¬ascii "ERR" <+: reply)⟩
    | (s, .error e) => if Fatal e then none else some { t with server := s }
  | .swap => some { t with server := { t.server with
      db := { t.server.db with logger := t.server.db.logger.flusherSwap } } }
  | .write => some { t with server := { t.server with
      fs := (t.server.db.logger.flusherWrite t.server.fs).1
      db := { t.server.db with logger := (t.server.db.logger.flusherWrite t.server.fs).2 } } }
  | .destroy _ _ => none

/-- Every compaction of the deed goes by the name of its log, whatever a name yields whose
string is gone. -/
def AllNamed (t : Tracked) (d : Deed) : Prop :=
  ∀ stale stale', ∀ c ∈ t.server.compactions (d.reading stale stale'), c.Named

/-- No compaction reads a name that is gone: no switch has succeeded, or there is nothing
to compact, or the deed does not shut the `DB` down. -/
def NameSafe (t : Tracked) (d : Deed) : Prop :=
  t.switched = true → ¬Log.Skips t.server.db.store (t.server.db.dirty % SIZE_MOD) →
    ¬d.ShutsDown

/-- The path of the log is that of its `DB`, and its reference is good until a switch
succeeds. -/
structure Labelled (t : Tracked) : Prop where
  path : t.server.db.logger.logFilepath = aofPath t.server.db.name
  name : t.server.db.logger.keyspaceName =
    if t.switched then .dangling else .bound t.server.db.name

variable {env env' : Env} {t t' : Tracked} {s s' : Server} {input name : Bytes}

theorem dispatcherNoted_use (h : tokens input = [ascii "use", name]) :
    s.dispatcherNoted env env' input = s.useKeyspaceNoted env env' name := by
  have hlength : (tokens input).length = 2 := by rw [h]; rfl
  have hstats : input ≠ ascii "stats" := by
    rintro rfl
    exact absurd hlength (by decide)
  have hclear : input ≠ ascii "clear" := by
    rintro rfl
    exact absurd hlength (by decide)
  simp [dispatcherNoted, tokenize_eq, h, hstats, hclear]

theorem dispatcherNoted_quit (h : IsQuit input) :
    s.dispatcherNoted env env' input = s.quitNoted env := by
  rcases h with rfl | rfl <;> rfl

/-- A request that neither switches nor ends the server compacts nothing. -/
theorem dispatcherNoted_snd (hquit : ¬IsQuit input) (huse : ¬IsUse input) (env env' : Env)
    (s : Server) : (s.dispatcherNoted env env' input).2 = [] := by
  rw [dispatcherNoted, tokenize_eq]
  dsimp only
  by_cases hstats : input = ascii "stats"
  · rw [if_pos hstats]
  by_cases hclear : input = ascii "clear"
  · rw [if_neg hstats, if_pos hclear]
  rw [if_neg hstats, if_neg hclear]
  cases htokens : tokens input with
  | nil => rfl
  | cons op args =>
      rw [subscript_cons_zero]
      dsimp only
      have hother : ¬(op = ascii "use" ∧ (op :: args).length = 2) := by
        rintro ⟨rfl, hlength⟩
        exact huse ⟨by rw [htokens]; rfl, by rw [htokens]; exact hlength⟩
      rw [if_neg hother]
      by_cases hshow : input = ascii "show"
      · rw [if_pos hshow]
      by_cases hkeys : input = ascii "keys"
      · rw [if_neg hshow, if_pos hkeys]
      by_cases hvalues : input = ascii "values"
      · rw [if_neg hshow, if_neg hkeys, if_pos hvalues]
      rw [if_neg hshow, if_neg hkeys, if_neg hvalues,
        if_neg (show ¬(input = ascii "quit" ∨ input = ascii "exit") from hquit)]
      cases s.db.parseCommand env.staleName input <;> rfl

/-- **What a deed compacts** is what shutdowns of the `DB` do, if it shuts it down, -/
theorem exists_of_mem_compactions {d : Deed} {c : Compaction} (h : c ∈ s.compactions d) :
    d.ShutsDown ∧ ∃ staleName, c ∈ s.db.compactions staleName := by
  -- the first shutdown compacts, and the destructor's perhaps again
  have hmore : ∀ {env env' : Env} {notes more : List Compaction},
      notes = s.db.compactions env.staleName ++ more →
      (more = [] ∨ more = s.db.compactions env'.staleName) → c ∈ notes →
      ∃ staleName, c ∈ s.db.compactions staleName := by
    rintro env env' notes more rfl hmore hc
    rcases List.mem_append.mp hc with hc | hc
    · exact ⟨_, hc⟩
    · rcases hmore with rfl | rfl
      · exact absurd hc List.not_mem_nil
      · exact ⟨_, hc⟩
  cases d with
  | swap => exact absurd h List.not_mem_nil
  | write => exact absurd h List.not_mem_nil
  | destroy env env' =>
      obtain ⟨more, hnotes, heq⟩ := destroyNoted_snd env env' s
      exact ⟨trivial, hmore hnotes heq h⟩
  | request env env' input =>
      rw [compactions] at h
      by_cases hquit : IsQuit input
      · rw [dispatcherNoted_quit hquit, quitNoted_snd] at h
        exact ⟨Or.inl hquit, _, h⟩
      by_cases huse : IsUse input
      · obtain ⟨name, htokens⟩ := isUse_iff.mp huse
        rw [dispatcherNoted_use htokens] at h
        obtain ⟨more, hnotes, heq⟩ := useKeyspaceNoted_snd env env' s name
        exact ⟨Or.inr huse, hmore hnotes heq h⟩
      · rw [dispatcherNoted_snd hquit huse] at h
        exact absurd h List.not_mem_nil

/-- and that of the first shutdown is among it. -/
theorem mem_compactions_of_shutsDown {d : Deed} (h : d.ShutsDown) {stale : Option Bytes}
    {c : Compaction} (hc : c ∈ s.db.compactions stale) (stale' : Option Bytes) :
    c ∈ s.compactions (d.reading stale stale') := by
  cases d with
  | swap => exact h.elim
  | write => exact h.elim
  | destroy env env' =>
      obtain ⟨more, hnotes, -⟩ := destroyNoted_snd { env with staleName := stale }
        { env' with staleName := stale' } s
      show c ∈ (s.destroyNoted _ _).2
      rw [hnotes]
      exact List.mem_append_left _ hc
  | request env env' input =>
      show c ∈ (s.dispatcherNoted _ _ input).2
      rcases h with hquit | huse
      · rw [dispatcherNoted_quit hquit, quitNoted_snd]
        exact hc
      · obtain ⟨name, htokens⟩ := isUse_iff.mp huse
        obtain ⟨more, hnotes, -⟩ := useKeyspaceNoted_snd { env with staleName := stale }
          { env' with staleName := stale' } s name
        rw [dispatcherNoted_use htokens, hnotes]
        exact List.mem_append_left _ hc

theorem shutsDown_reading (d : Deed) (stale stale' : Option Bytes) :
    (d.reading stale stale').ShutsDown ↔ d.ShutsDown := by
  cases d <;> exact Iff.rfl

/-- **A deed goes by the right names** exactly if it is safe. -/
theorem Labelled.allNamed_iff (h : Labelled t) (d : Deed) : AllNamed t d ↔ NameSafe t d := by
  constructor
  · intro hnamed hswitched hskips hshuts
    -- what is read of a name that is gone may be longer than the name
    have hread : t.server.db.logger.keyspaceName.read (some (t.server.db.name ++ [0])) =
        .ok (t.server.db.name ++ [0]) := by
      rw [h.name, if_pos hswitched]
      rfl
    have hmem := mem_compactions_of_shutsDown hshuts
      (DB.mem_compactions_iff.mpr ⟨hskips, _, hread, rfl⟩) none
    obtain ⟨name, htemp, haof⟩ := hnamed _ _ _ hmem
    rw [tempPath_eq, tempPath_eq, aofPath_inj] at htemp
    rw [h.path, aofPath_inj] at haof
    rw [← haof] at htemp
    exact absurd (congrArg List.length (List.append_cancel_right htemp)) (by simp)
  -- what is compacted at all is so by the name of the argument, which is still there
  · intro hsafe stale stale' c hc
    obtain ⟨hshuts, staleName, hmem⟩ := exists_of_mem_compactions hc
    obtain ⟨hskips, name, hread, rfl⟩ := DB.mem_compactions_iff.mp hmem
    have hswitched : t.switched = false := by
      by_contra hswitched
      exact hsafe (by simpa using hswitched) hskips ((shutsDown_reading d stale stale').mp hshuts)
    rw [h.name, hswitched, if_neg Bool.false_ne_true, NameRef.read_bound] at hread
    exact ⟨t.server.db.name, by rw [Except.ok.inj hread], h.path⟩

/-! ### Runs -/

/-- A request that is no switch keeps the `DB` with its name and its paths. -/
theorem dispatcher_labels (env env' : Env) (s : Server) (huse : ¬IsUse input) :
    (s.dispatcher env env' input).1.db.name = s.db.name ∧
    (s.dispatcher env env' input).1.db.logger.keyspaceName = s.db.logger.keyspaceName ∧
    (s.dispatcher env env' input).1.db.logger.logFilepath = s.db.logger.logFilepath := by
  rcases dispatcher_cases env env' s input with h | ⟨-, h⟩ | ⟨-, h⟩ | ⟨-, res, h⟩ | ⟨-, h⟩ |
      ⟨-, res, h⟩
  · exact absurd (isUse_iff.mpr h) huse
  · rw [h]
    exact ⟨rfl, rfl, rfl⟩
  · have hdb : (s.quit env).1.db = (s.db.shutdown env s.fs).2.1 := by
      rw [quit]
      split
      · next heq => rw [heq]
      · next heq => rw [heq]
    rw [h, hdb, DB.shutdown_db]
    exact ⟨rfl, Log.closeLog_keyspaceName _ _, Log.closeLog_logFilepath _ _⟩
  · rw [h]
    exact ⟨rfl, Log.appendAll_keyspaceName _ _, Log.appendAll_logFilepath _ _⟩
  · rw [h]
    exact ⟨rfl, rfl, rfl⟩
  · rw [h]
    exact ⟨rfl, rfl, rfl⟩

/-- A switch that is not answered ends the program. -/
theorem useKeyspace_error {e : Fault} (h : (s.useKeyspace env env' name).2 = .error e) :
    Fatal e = true := by
  have hfatal {e' : Fault} (hother : ∀ what, e' ≠ .exception what) : Fatal e' = true := by
    cases e' with
    | exception what => exact absurd rfl (hother what)
    | undefinedBehaviour => rfl
    | terminate => rfl
    | outOfFuel => rfl
  unfold useKeyspace at h
  split at h
  · exact absurd h (by simp)
  · next hother _ =>
      rw [← Except.error.inj h]
      exact hfatal fun what heq => hother what heq
  · split at h
    · exact absurd h (by simp)
    · next hother _ =>
        rw [← Except.error.inj h]
        exact hfatal fun what heq => hother what heq
    · split at h
      · next hdestroy =>
          unfold DB.destroy at hdestroy
          split at hdestroy
          · rw [← Except.error.inj h, ← Except.error.inj (Prod.mk.inj hdestroy).2]
            rfl
          · next hother _ =>
              rw [← Except.error.inj h, ← Except.error.inj (Prod.mk.inj hdestroy).2]
              exact hfatal fun what heq => hother what heq
          · exact absurd (Prod.mk.inj hdestroy).2 (by simp)
      · exact absurd h (by simp)

/-- The `DB` goes by the labels of another. -/
structure SameLabels (t t' : Tracked) : Prop where
  switched : t'.switched = t.switched
  dbName : t'.server.db.name = t.server.db.name
  name : t'.server.db.logger.keyspaceName = t.server.db.logger.keyspaceName
  path : t'.server.db.logger.logFilepath = t.server.db.logger.logFilepath

/-- **What a step does to the labels**: it keeps them, or it puts a new `DB` in the
place of the old one. -/
theorem host_cases {d : Deed} (hstep : host t d = some t') :
    SameLabels t t' ∨ ∃ env name fs fs' db, DB.new env fs name = (fs', .ok db) ∧
      t'.server.db = db.orphaned ∧ t'.switched = true := by
  cases d with
  | swap =>
      obtain rfl := Option.some.inj hstep
      exact Or.inl ⟨rfl, rfl, Log.flusherSwap_keyspaceName _, Log.flusherSwap_logFilepath _⟩
  | write =>
      obtain rfl := Option.some.inj hstep
      exact Or.inl ⟨rfl, rfl, rfl, rfl⟩
  | destroy env env' => exact absurd hstep (by simp [host])
  | request env env' input =>
      rw [host] at hstep
      by_cases huse : IsUse input
      -- only an answer that is no `ERR` has put a new `DB` in place
      · obtain ⟨name, htokens⟩ := isUse_iff.mp huse
        rw [dispatcher_use htokens] at hstep
        split at hstep
        · next s' reply heq =>
            obtain rfl := Option.some.inj hstep
            rcases useKeyspace_inv heq with
              ⟨hdb, what, rfl⟩ | ⟨fs₁, fs₂, old, db, -, hnew, -, rfl, rfl⟩
            · have herr : decide (IsUse input ∧ ¬ascii "ERR" <+: switchError name what) = false :=
                decide_eq_false fun hok => hok.2 (err_prefix_switchError name what)
              rw [DB.shutdown_db] at hdb
              refine Or.inl ⟨?_, by rw [hdb], ?_, ?_⟩
              · rw [herr, Bool.or_false]
              · rw [hdb, Log.closeLog_keyspaceName]
              · rw [hdb, Log.closeLog_logFilepath]
            · have hok : decide (IsUse input ∧
                  ¬ascii "ERR" <+: ascii "OK switched keyspace to " ++ name) = true :=
                decide_eq_true ⟨huse, not_err_prefix_ok name⟩
              exact Or.inr ⟨env, name, fs₁, fs₂, db, hnew, rfl, by rw [hok, Bool.or_true]⟩
        · next s' e heq =>
            rw [if_pos (useKeyspace_error (congrArg Prod.snd heq))] at hstep
            exact absurd hstep (by simp)
      · obtain ⟨hname, hread, hpath⟩ := dispatcher_labels env env' t.server huse
        split at hstep
        · next s' reply heq =>
            obtain rfl := Option.some.inj hstep
            rw [heq] at hname hread hpath
            have hother : decide (IsUse input ∧ ¬ascii "ERR" <+: reply) = false :=
              decide_eq_false fun hok => huse hok.1
            exact Or.inl ⟨by rw [hother, Bool.or_false], hname, hread, hpath⟩
        · next s' e heq =>
            split at hstep
            · exact absurd hstep (by simp)
            · obtain rfl := Option.some.inj hstep
              rw [heq] at hname hread hpath
              exact Or.inl ⟨rfl, hname, hread, hpath⟩

theorem labelled_step (h : Labelled t) {d : Deed} (hstep : host t d = some t') : Labelled t' := by
  rcases host_cases hstep with hsame | ⟨env, name, fs, fs', db, hnew, hdb, hswitched⟩
  · exact ⟨by rw [hsame.path, hsame.dbName, h.path],
      by rw [hsame.name, hsame.switched, hsame.dbName, h.name]⟩
  · obtain ⟨a, i, -, -, rfl, hattached, -⟩ := Keyspace.new_inv hnew
    refine ⟨?_, ?_⟩
    · rw [hdb]
      exact hattached.logFilepath_eq
    · rw [hdb, hswitched]
      rfl

theorem labelled_new {fs fs' : Files} {keyspace : Bytes}
    (hnew : Server.new env fs keyspace = (fs', .ok s)) : Labelled ⟨s, false⟩ := by
  unfold Server.new at hnew
  split at hnew
  · exact absurd (Prod.mk.inj hnew).2 (by simp)
  · next fs₁ db hdb =>
      obtain ⟨rfl, hs⟩ := Prod.mk.inj hnew
      obtain rfl := Except.ok.inj hs
      obtain ⟨a, i, -, -, rfl, hattached, -⟩ := Keyspace.new_inv hdb
      exact ⟨hattached.logFilepath_eq, hattached.keyspaceName_eq⟩

theorem Labelled.run_iff (h : Labelled t) (ds : List Deed) :
    Machine.Guarded host AllNamed t ds ↔ Machine.Guarded host NameSafe t ds :=
  Machine.guarded_congr (I := Labelled) (fun _ _ _ h hstep => labelled_step h hstep)
    (fun _ d h => h.allNamed_iff d) h ds

/-- **Compaction goes by the name its `DB` was built for** throughout a run of the server
exactly if every deed of the run is safe. -/
theorem compactions_named_iff {fs fs' : Files} {keyspace : Bytes}
    (hnew : Server.new env fs keyspace = (fs', .ok s)) (ds : List Deed) :
    Machine.Guarded host AllNamed ⟨s, false⟩ ds ↔ Machine.Guarded host NameSafe ⟨s, false⟩ ds :=
  (labelled_new hnew).run_iff ds

/-- A writing command is a step. -/
theorem host_mutation (h : IsMutation (tokens input))
    (hexecutes : t.server.db.Executes env.staleName (tokens input)) (env' : Env) :
    host t (.request env env' input) =
      some ⟨{ t.server with db := t.server.db.execute (tokens input) }, t.switched⟩ := by
  obtain ⟨res, hexecute⟩ := dispatcher_mutation h hexecutes env'
  have hother : decide (IsUse input ∧ ¬ascii "ERR" <+: res) = false :=
    decide_eq_false fun huse => not_isMutation_of_isUse huse.1 h
  rw [host, hexecute]
  dsimp only
  rw [hother, Bool.or_false]

/-- A switch that succeeds is a step, and remembered. -/
theorem host_use (htokens : tokens input = [ascii "use", name])
    (huse : t.server.useKeyspace env env' name =
      (s', .ok (ascii "OK switched keyspace to " ++ name))) :
    host t (.request env env' input) = some ⟨s', true⟩ := by
  have hok : decide (IsUse input ∧
      ¬ascii "ERR" <+: ascii "OK switched keyspace to " ++ name) = true :=
    decide_eq_true ⟨isUse_iff.mpr ⟨name, htokens⟩, not_err_prefix_ok name⟩
  rw [host, dispatcher_use htokens, huse]
  dsimp only
  rw [hok, Bool.or_true]

/-- The switch compacts by the right name, and what is only read afterwards is safe. -/
theorem compactions_named_iff_get :
    ∃ s, Server.new Env.calm blankFiles (ascii "a") = (s.fs, .ok s) ∧
      Machine.Guarded host AllNamed ⟨s, false⟩ [.request Env.calm Env.calm (ascii "put k 1"),
        .request Env.calm Env.calm (ascii "use b"),
        .request Env.calm Env.calm (ascii "get k")] := by
  obtain ⟨s₀, -, -, hnew, -⟩ :=
    put_then_use (by decide : tokens (ascii "use b") = [ascii "use", ascii "b"])
  refine ⟨s₀, hnew, (compactions_named_iff hnew _).mpr ?_⟩
  have hput : s₀.db.Executes Env.calm.staleName (tokens (ascii "put k 1")) :=
    DB.executes_of_appends (Log.appends_of_bound (labelled_new hnew).name _) _
  have hget : ¬(Deed.request Env.calm Env.calm (ascii "get k")).ShutsDown := by
    rintro (hquit | huse)
    · exact absurd hquit (by decide)
    · exact absurd huse (by decide)
  rw [Machine.guarded_cons_of_step (host_mutation (by decide) hput _)]
  refine ⟨fun h => absurd h (by simp), fun h => absurd h (by simp), fun t _ => ?_⟩
  exact ⟨fun _ _ => hget, fun _ _ => trivial⟩

/-- After `use b` and `put k 1` the compaction of `quit` reads what is left of `b`. -/
theorem not_compactions_named :
    ∃ s, Server.new Env.calm blankFiles (ascii "a") = (s.fs, .ok s) ∧
      ¬Machine.Guarded host AllNamed ⟨s, false⟩ [.request Env.calm Env.calm (ascii "use b"),
        .request Env.calm Env.calm (ascii "put k 1"),
        .request Env.calm Env.calm (ascii "quit")] := by
  have haof : blankFiles.resolve (aofPath (ascii "a")) = some (aofPath (ascii "a")) := rfl
  obtain ⟨i, -, hdb⟩ := DB.new_eq Env.calm haof
  obtain ⟨a, j, -, -, -, hattached, -⟩ := Keyspace.new_inv hdb
  let s₀ : Server := ⟨(blankFiles.openAppend (aofPath (ascii "a"))).1,
    DB.loaded Env.calm (ascii "a") i [], false⟩
  have hnew : Server.new Env.calm blankFiles (ascii "a") = (s₀.fs, .ok s₀) := by
    rw [Server.new, hdb]
    rfl
  have hresolve : ∀ p, (s₀.fs.resolve p).isSome = true := by
    intro p
    show ((blankFiles.openAppend (aofPath (ascii "a"))).1.resolve p).isSome = true
    rw [FS.openAppend_resolve]
    rfl
  have hsmall : (Log.serialize Env.calm s₀.db.store).length ≤ Log.COMPRESSION_THRESHOLD :=
    (serialize_empty Env.calm).trans_le (by decide)
  obtain ⟨s₁, huse⟩ := useKeyspace_ok (ascii "b") hattached.sound hattached.keyspaceName_eq
    hresolve rfl rfl hsmall hsmall
  rcases useKeyspace_inv huse with ⟨-, what, herr⟩ | ⟨fs₁, fs₂, old, db, -, hdb', -, rfl, -⟩
  · exact absurd (herr ▸ err_prefix_switchError _ what) (not_err_prefix_ok (ascii "b"))
  obtain ⟨-, i', -, -, rfl, -⟩ := Keyspace.new_inv hdb'
  refine ⟨s₀, hnew, ?_⟩
  rw [(labelled_new hnew).run_iff, Machine.guarded_cons_of_step (host_use (by decide) huse),
    Machine.guarded_cons_of_step (host_mutation (by decide) ?_ _)]
  · rintro ⟨-, -, hquit, -⟩
    have hreplaying : (DB.loaded Env.calm (ascii "b") i'
        ((fs₁.read (aofPath (ascii "b"))).getD [])).orphaned.replaying = false := ite_self false
    exact hquit rfl (not_skips_put hreplaying rfl) (Or.inl (Or.inl rfl))
  · exact DB.executes_of_appends (Or.inl rfl) _

end Server

end Taproot
