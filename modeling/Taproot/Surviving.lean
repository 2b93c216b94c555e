import Taproot.Serving

/-!
# Taproot.Surviving

What is left of a **server that is killed**, at any point of a run: while it waits for a
request and the flusher writes, while a keyspace is shut down for a switch, a quit or the
end of the server, and while the old keyspace of a switch is shut down once more, over the
log of the new one.

Nothing of any other keyspace is touched. Of the keyspace that is open, as many records
are missing as had not reached its file when the log was being closed, and after that none
(`run_survived`). The stages of a shutdown are those of `Taproot.Dying`; which keyspaces
stand when it begins is known from the refinement of the server.
-/

namespace Taproot

open Posix Journal

/-- Where a server is killed. -/
inductive Death
  /-- The flusher has written the first bytes of what it took over. -/
  | running (bytes : Nat)
  /-- In the shutdown of a switch, of a quit or of the server. -/
  | closing (env : Env) (stage : Stage)
  /-- In a switch to `name`, in the shutdown by the destructor of the old `DB`. -/
  | switching (env env' : Env) (name : Bytes) (stage : Stage)
  /-- In the shutdown by the destructor of the last `DB`. -/
  | ending (env env' : Env) (stage : Stage)

/-- The surroundings of its shutdowns. -/
def Death.envs : Death → List Env
  | running _ => []
  | closing env _ => [env]
  | switching env env' _ _ => [env, env']
  | ending env env' _ => [env, env']

/-- The keyspace that is switched to. -/
def Death.target : Death → Option Bytes
  | switching _ _ name _ => some name
  | _ => none

namespace DB

/-- If the log reads the right name, the reference makes no difference. -/
theorem killed_rebound {env : Env} {db : DB} (h : db.ClosesWell env) (fs : Files)
    (stage : Stage) : db.rebound.killed env fs stage = db.killed env fs stage := by
  have hcompacted : db.rebound.compactedFiles env fs = db.compactedFiles env fs := by
    have hreads : ¬Log.Skips db.store (db.dirty % SIZE_MOD) →
        db.logger.closed.keyspaceName.read env.staleName =
          (NameRef.bound db.name).read env.staleName := h.reads
    rw [compactedFiles, compactedFiles]
    exact congrArg Prod.fst (Log.compactLog_referTo hreads _)
  cases stage with
  | closing bytes => rfl
  | compacting bytes =>
      rw [killed, killed]
      by_cases hskips : Log.Skips db.store (db.dirty % SIZE_MOD)
      · exact (if_pos hskips).trans (if_pos hskips).symm
      · refine (if_neg hskips).trans (Eq.trans ?_ (if_neg hskips).symm)
        rw [h.reads hskips]
        rfl
  | compacted => exact hcompacted
  | saving bytes =>
      rw [killed, killed, hcompacted]
      rfl

end DB

namespace Server

/-- The files that are left. -/
def killed (s : Server) : Death → Files
  | .running bytes => s.db.logger.write s.fs (s.db.logger.localBuffer.take bytes)
  | .closing env stage => s.db.killed env s.fs stage
  | .switching env env' name stage =>
    (s.db.shutdown env s.fs).2.1.killed env' (s.switchedFiles env name) stage
  | .ending env env' stage =>
    (s.db.shutdown env s.fs).2.1.killed env' (s.db.shutdown env s.fs).1 stage

/-- What has reached the file of the log, of what was pending. -/
def reached (s : Server) : Death → Bytes
  | .running bytes => s.db.logger.localBuffer.take bytes
  | .closing _ (.closing bytes) => s.db.logger.pending.take bytes
  | _ => s.db.logger.pending

/-- No line is cut in two, what is compacted is written out under the name of its keyspace,
and a switch is to a keyspace of `N`. -/
structure Clean (N : Set Bytes) (s : Server) (death : Death) : Prop where
  whole : Words.Terminated NEWLINE (s.reached death)
  envs : ∀ env ∈ death.envs, s.db.ClosesWell env
  target : ∀ name ∈ death.target, name ∈ N

end Server

/-! ### One shutdown -/

namespace Keyspace

variable {N : Set Bytes} {stores : Bytes → Store} {name a : Bytes} {ks : Keyspace} {env : Env}

/-- A killed shutdown leaves its own log with what it has come to, and the others
untouched. -/
theorem allStand_killed (ha : Attached name a ks) (hshelves : Shelves ks.fs N) (hname : name ∈ N)
    {stage : Stage} (hcontent : Stands (ks.killedContent env stage) (stores name))
    (hothers : ∀ n ∈ N, n ≠ name → Stands ((ks.fs.read (aofPath n)).getD []) (stores n))
    (henv : ks.db.WritesOut env) : AllStand N (ks.db.killed env ks.fs stage) stores := by
  intro n hn
  obtain ⟨x, hx⟩ := hshelves.separate n hn
  have hresolve := DB.killed_resolve env ks.fs ks.db stage
  by_cases hne : n = name
  · subst hne
    obtain hpaths := hshelves.separate_of_aof hn ha.aof
    rw [content_killed ha hpaths.toHolds hpaths.temp_ne henv stage]
    exact hcontent
  -- what a shutdown writes to is apart from the other logs
  · have hwritten : ∀ p ∈ writtenPaths name, ks.fs.resolve p ≠ some x := fun p hp => by
      rw [← hx.aof]
      exact hshelves.apart name hname n hn (Ne.symm hne) p hp
    have haof : a ≠ x := by
      rintro rfl
      exact hwritten _ (by simp [writtenPaths]) ha.aof
    have hview := view_killed_of_ne ha haof (hwritten _ (by simp [writtenPaths]))
      (hwritten _ (by simp [writtenPaths])) env stage
    have hstands := hothers n hn hne
    rw [FS.read_eq hx.aof] at hstands
    rw [FS.read_eq ((congrFun hresolve _).trans hx.aof), hview]
    exact hstands

end Keyspace

open Keyspace in
/-- When the log is closed, nothing is lost. -/
theorem Shut.killed {N : Set Bytes} {stores : Bytes → Store} {name : Bytes} {fs : Files} {db : DB}
    {env : Env} (h : Shut N stores name fs db) (hcloses : db.ClosesWell env) (stage : Stage) :
    Shelves (db.killed env fs stage) N ∧ AllStand N (db.killed env fs stage) stores := by
  refine ⟨h.shelves.congr (DB.killed_resolve _ _ _ _), ?_⟩
  obtain ⟨a, ha⟩ := h.attached
  have hpending : (db.rebound.logger.pending) = [] := ha.sound.pending_eq_nil h.closed
  have htext : Stands (Keyspace.text ⟨fs, db.rebound⟩) db.rebound.store := by
    show Stands _ db.store
    rw [Keyspace.text, hpending, List.append_nil, content, ha.name_eq, h.store]
    exact h.all name h.mem
  rw [← DB.killed_rebound hcloses]
  refine allStand_killed ha h.shelves h.mem ?_ (fun n hn _ => h.all n hn) hcloses.temp
  rw [← h.store]
  -- nothing is pending, so even the first stage has it all
  cases stage with
  | closing bytes =>
      rw [killedContent, hpending, List.take_nil, ← hpending]
      exact htext
  | compacting bytes => exact stands_killedContent htext env fun _ => by simp
  | compacted => exact stands_killedContent htext env fun _ => by simp
  | saving bytes => exact stands_killedContent htext env fun _ => by simp

/-! ### Runs -/

namespace Server

open Keyspace

variable {N : Set Bytes} {t : Served} {l : Ledger}

/-- While the log is being closed, a part of what was pending is in the file: the first
records of it. -/
theorem Houses.killed_closing (h : Houses N t l) {a : Bytes} {w : WriteBehind Record}
    (hmirrors : Mirrors l.cabinet.current a ⟨t.server.fs, t.server.db.rebound⟩ w) (env : Env)
    {bytes : Nat} (hwhole : Words.Terminated NEWLINE (t.server.db.logger.pending.take bytes)) :
    ∃ rs', rs' <+: w.inflight ++ w.held ∧ logLines rs' = t.server.db.logger.pending.take bytes ∧
      Shelves (t.server.db.killed env t.server.fs (.closing bytes)) N ∧
      AllStand N (t.server.db.killed env t.server.fs (.closing bytes))
        (l.cabinet.put (replay (replay ∅ w.saved) rs')).stores := by
  have hpending : t.server.db.logger.pending = logLines (w.inflight ++ w.held) :=
    hmirrors.pending
  obtain ⟨rs', hpre, heq⟩ := logLines_of_isPrefix
    (fun r hr => (hmirrors.fixed_pending r hr).shape) (hpending ▸ List.take_prefix bytes _) hwhole
  refine ⟨rs', hpre, heq.symm, h.shelves.congr (DB.killed_resolve _ _ _ _), ?_⟩
  have hown : Stands (killedContent Env.calm ⟨t.server.fs, t.server.db.rebound⟩ (.closing bytes))
      ((l.cabinet.put (replay (replay ∅ w.saved) rs')).stores l.cabinet.current) := by
    rw [show (l.cabinet.put (replay (replay ∅ w.saved) rs')).stores l.cabinet.current = _ from
      Cabinet.store_put _ _]
    show Stands (_ ++ t.server.db.logger.pending.take bytes) _
    rw [heq]
    exact hmirrors.saved.append fun r hr => hmirrors.fixed_pending r (hpre.subset hr)
  -- at this stage the surroundings make no difference
  show AllStand N (t.server.db.rebound.killed Env.calm t.server.fs (.closing bytes)) _
  refine allStand_killed hmirrors.attached h.shelves h.mem hown (fun n hn hne => ?_)
    fun _ => rfl
  rw [Cabinet.stores_put_of_ne _ _ hne]
  exact h.shelved n hn hne

/-- After that, nothing is lost. -/
theorem Houses.killed_closed (h : Houses N t l) {env : Env}
    (hcloses : t.server.db.ClosesWell env) (stage : Stage)
    (hstage : ∀ bytes, stage ≠ .closing bytes) :
    Shelves (t.server.db.killed env t.server.fs stage) N ∧
      AllStand N (t.server.db.killed env t.server.fs stage) l.cabinet.stores := by
  obtain ⟨a, w, hmirrors⟩ := h.opened
  refine ⟨h.shelves.congr (DB.killed_resolve _ _ _ _), ?_⟩
  have hown := stands_killedContent hmirrors.text env hstage
  rw [show (_ : Keyspace).db.store = l.cabinet.stores l.cabinet.current from h.store] at hown
  rw [← DB.killed_rebound hcloses]
  exact allStand_killed hmirrors.attached h.shelves h.mem hown h.shelved hcloses.temp

/-- **What a kill leaves**: the cabinet without the last of the records that were
pending. -/
theorem Houses.killed (h : Houses N t l) :
    ∃ saved rs, t.server.db.logger.pending = logLines rs ∧ l.cabinet.store = replay saved rs ∧
      ∀ death, t.server.Clean N death → ∃ rs', rs' <+: rs ∧ logLines rs' = t.server.reached death ∧
        Shelves (t.server.killed death) N ∧
        AllStand N (t.server.killed death) (l.cabinet.put (replay saved rs')).stores := by
  obtain ⟨a, w, hmirrors⟩ := h.opened
  have hpending : t.server.db.logger.pending = logLines (w.inflight ++ w.held) :=
    hmirrors.pending
  have hstore : l.cabinet.store = replay (replay ∅ w.saved) (w.inflight ++ w.held) := by
    rw [← h.store, ← replay_append, ← List.append_assoc, w.saved_append]
    exact hmirrors.store
  refine ⟨_, _, hpending, hstore, fun death hclean => ?_⟩
  have hall : ∀ {fs : Files}, t.server.reached death = t.server.db.logger.pending →
      Shelves fs N ∧ AllStand N fs l.cabinet.stores →
      ∃ rs', rs' <+: w.inflight ++ w.held ∧ logLines rs' = t.server.reached death ∧
        Shelves fs N ∧ AllStand N fs (l.cabinet.put (replay (replay ∅ w.saved) rs')).stores := by
    rintro fs hreached hfs
    refine ⟨_, List.prefix_rfl, by rw [hreached, hpending], ?_⟩
    rw [← hstore, Cabinet.put_store]
    exact hfs
  have henvs := hclean.envs
  cases death with
  | running bytes =>
      -- a write of the flusher is a first part of what is pending
      have hmin : t.server.db.logger.localBuffer.take bytes = t.server.db.logger.pending.take
          (min bytes t.server.db.logger.localBuffer.length) := by
        rw [Log.pending, List.take_append_of_le_length (Nat.min_le_right _ _),
          ← List.take_eq_take_min]
      have hwhole : Words.Terminated NEWLINE (t.server.db.logger.localBuffer.take bytes) :=
        hclean.whole
      rw [hmin] at hwhole
      obtain ⟨rs', hpre, heq, hkilled⟩ := h.killed_closing hmirrors Env.calm hwhole
      refine ⟨rs', hpre, heq.trans hmin.symm, ?_⟩
      rw [Server.killed, hmin]
      exact hkilled
  | closing env stage =>
      have hcloses := henvs env (by simp [Death.envs])
      cases stage with
      | closing bytes => exact h.killed_closing hmirrors env hclean.whole
      | compacting bytes =>
          exact hall rfl (h.killed_closed hcloses (.compacting bytes) fun _ => by simp)
      | compacted => exact hall rfl (h.killed_closed hcloses .compacted fun _ => by simp)
      | saving bytes => exact hall rfl (h.killed_closed hcloses (.saving bytes) fun _ => by simp)
  | switching env env' name stage =>
      have hcloses := henvs env (by simp [Death.envs])
      have hcloses' := henvs env' (by simp [Death.envs])
      -- the old `DB` has been shut down, and the new log is open
      have hshut := (h.shutdown hcloses).openAppend (hclean.target name rfl)
      exact hall rfl (hshut.killed (hcloses'.shutdown env t.server.fs) stage)
  | ending env env' stage =>
      have hcloses := henvs env (by simp [Death.envs])
      have hcloses' := henvs env' (by simp [Death.envs])
      exact hall rfl ((h.shutdown hcloses).killed (hcloses'.shutdown env t.server.fs) stage)

end Server

end Taproot
