import Taproot.Library.Machine
import Taproot.Library.Orders
import Taproot.Command

/-!
# Taproot.Sessions

Any number of **client sessions on one `DB`**, each in a thread of its own. A
command is the list of its atomic steps in program order: an update of one key
of the store, or one `appendCommand`. Nothing holds a lock across two of them.

`put` and `del` update the store and then append, `mput` and `mdel` append
everything and then update. So two commands that meet on a key can leave the
log and the store with different last writers (`not_run_mirrored`). What keeps
them together is that on every key the order that is behind catches up with the
other in turn (`InTurn`): then they agree whenever no command is in progress
(`run_mirrored`), and out of turn they never do again (`guarded_iff`).
-/

namespace Taproot

open Journal Orders

/-- What a session does without being interrupted. -/
inductive AtomicStep
  | update (r : Record)
  | append (r : Record)
  deriving DecidableEq, Repr

/-- The steps of `parseCommand` on the tokens `ts`, in program order. -/
def commandSteps (replaying : Bool) (ts : List Bytes) : List AtomicStep :=
  if isBatch ts then
    -- the loop appends line by line, `mput` and `mdel` come after it
    (commandRecords ts).map .append ++ (commandRecords ts).map .update
  else
    (commandRecords ts).flatMap fun r =>
      if replaying then [.update r] else [.update r, .append r]

/-- `appendCommand` with the arguments of a record. -/
def Log.appendRecord (staleName : Option Bytes) (log : Log) : Record → Except Fault Log
  | .put key value => log.appendCommand staleName .PUT key value
  | .del key => log.appendCommand staleName .DEL key []

theorem Log.appendRecord_eq {staleName : Option Bytes} {log : Log} (h : log.Appends staleName)
    (r : Record) : log.appendRecord staleName r = .ok (log.appendAll [r]) := by
  cases r with
  | put key value => exact appendCommand_put h key value
  | del key => exact appendCommand_del h key []

theorem Log.appendRecord_of_not_appends {staleName : Option Bytes} {log : Log}
    (h : ¬log.Appends staleName) (r : Record) :
    log.appendRecord staleName r = .error .undefinedBehaviour := by
  cases r with
  | put key value => exact appendCommand_of_not_appends h .PUT key value
  | del key => exact appendCommand_of_not_appends h .DEL key []

namespace DB

/-- One atomic step. -/
def perform (staleName : Option Bytes) (db : DB) : AtomicStep → Except Fault DB
  | .update r => .ok (db.update [r])
  | .append r => (db.logger.appendRecord staleName r).map fun logger => { db with logger }

variable {staleName : Option Bytes} {db : DB}

theorem perform_update (staleName : Option Bytes) (db : DB) (r : Record) :
    db.perform staleName (.update r) = .ok (db.update [r]) := rfl

theorem perform_append (h : db.logger.Appends staleName) (r : Record) :
    db.perform staleName (.append r) = .ok { db with logger := db.logger.appendAll [r] } := by
  rw [perform, Log.appendRecord_eq h]
  rfl

theorem perform_append_of_not_appends (h : ¬db.logger.Appends staleName) (r : Record) :
    db.perform staleName (.append r) = .error .undefinedBehaviour := by
  rw [perform, Log.appendRecord_of_not_appends h]
  rfl

theorem foldlM_perform_updates (db : DB) (rs : List Record) :
    (rs.map AtomicStep.update).foldlM (perform staleName) db = .ok (db.update rs) := by
  induction rs generalizing db with
  | nil => rw [update_nil]; rfl
  | cons r rs ih =>
      rw [List.map_cons, List.foldlM_cons]
      exact (ih (db.update [r])).trans (congrArg Except.ok (update_update db [r] rs))

theorem foldlM_perform_appends (h : db.logger.Appends staleName) (rs : List Record) :
    (rs.map AtomicStep.append).foldlM (perform staleName) db =
      .ok { db with logger := db.logger.appendAll rs } := by
  induction rs generalizing db with
  | nil => rw [Log.appendAll_nil]; rfl
  | cons r rs ih =>
      rw [List.map_cons, List.foldlM_cons, perform_append h, ok_bind,
        ih ((Log.appendAll_appends ..).mpr h), Log.appendAll_appendAll]
      rfl

theorem foldlM_perform_both (h : db.logger.Appends staleName) (rs : List Record) :
    (rs.flatMap fun r => [AtomicStep.update r, .append r]).foldlM (perform staleName) db =
      .ok { db.update rs with logger := db.logger.appendAll rs } := by
  induction rs generalizing db with
  | nil => rw [Log.appendAll_nil, update_nil]; rfl
  | cons r rs ih =>
      have hupdated : (db.update [r]).logger.Appends staleName := h
      rw [List.flatMap_cons, List.cons_append, List.cons_append, List.nil_append,
        List.foldlM_cons, perform_update, ok_bind, List.foldlM_cons, perform_append hupdated,
        ok_bind, ih ((Log.appendAll_appends ..).mpr hupdated)]
      have hupdate := update_update db [r] rs
      have happend := Log.appendAll_appendAll db.logger [r] rs
      rw [show r :: rs = [r] ++ rs from rfl, ← hupdate, ← happend]
      rfl

/-- An append that does not come back ends the command. -/
theorem foldlM_perform_of_not_appends (h : ¬db.logger.Appends staleName)
    {steps : List AtomicStep} {r : Record} (hr : .append r ∈ steps) :
    steps.foldlM (perform staleName) db = .error .undefinedBehaviour := by
  induction steps generalizing db with
  | nil => exact absurd hr List.not_mem_nil
  | cons x steps ih =>
      rw [List.foldlM_cons]
      cases x with
      | update q => exact ih h ((List.mem_cons.mp hr).resolve_left (by simp))
      | append q => rw [perform_append_of_not_appends h]; rfl

/-- **Taken without interruption, the steps of a command are the command.** -/
theorem parseCommand_eq_foldlM (staleName : Option Bytes) (db : DB) (command : Bytes) :
    (db.parseCommand staleName command).map Prod.fst =
      (commandSteps db.replaying (tokens command)).foldlM (perform staleName) db := by
  by_cases happends : db.logger.Appends staleName
  · rw [parseCommand_eq (executes_of_appends happends _), commandSteps]
    show Except.ok (db.execute (tokens command)) = _
    rw [execute, loggedRecords]
    cases hbatch : isBatch (tokens command) with
    | true =>
        rw [if_pos rfl, List.foldlM_append, foldlM_perform_appends happends, ok_bind,
          foldlM_perform_updates]
        simp [update]
    | false =>
        rw [if_neg Bool.false_ne_true]
        cases hreplaying : db.replaying with
        | true => simp [← List.map_eq_flatMap, foldlM_perform_updates, update]
        | false => simpa using (foldlM_perform_both happends (commandRecords (tokens command))).symm
  -- a command that has nothing to append has only updates to take, or nothing at all
  · rw [parseCommand_eq_ite]
    split
    · next hexecutes =>
        have hlogs := hexecutes.resolve_left happends
        rw [execute, hlogs, Log.appendAll_nil]
        rw [loggedRecords] at hlogs
        rw [commandSteps]
        cases hbatch : isBatch (tokens command) with
        | true =>
            have hnil : commandRecords (tokens command) = [] := by simpa [hbatch] using hlogs
            rw [if_pos rfl, hnil, update_nil]
            rfl
        | false =>
            rw [if_neg Bool.false_ne_true]
            cases hreplaying : db.replaying with
            | true =>
                simp only [if_pos, ← List.map_eq_flatMap, foldlM_perform_updates]
                rfl
            | false =>
                have hnil : commandRecords (tokens command) = [] := by
                  simpa [hbatch, hreplaying] using hlogs
                rw [hnil, update_nil]
                rfl
    · next hstuck =>
        have hlogs : loggedRecords db.replaying (tokens command) ≠ [] :=
          fun hnil => hstuck (Or.inr hnil)
        rw [loggedRecords] at hlogs
        obtain ⟨r, rs, hrs⟩ : ∃ r rs, commandRecords (tokens command) = r :: rs := by
          refine List.exists_cons_of_ne_nil fun hnil => hlogs ?_
          rw [hnil, ite_self]
        have hr : AtomicStep.append r ∈ commandSteps db.replaying (tokens command) := by
          rw [commandSteps]
          cases hbatch : isBatch (tokens command) with
          | true => simp [hrs]
          | false =>
              have hreplaying : db.replaying = false := by
                by_contra hup
                exact hlogs (by simp [hbatch, hup])
              simp [hrs, hreplaying]
        rw [foldlM_perform_of_not_appends happends hr]
        rfl

end DB

/-- The shared `DB`, and for every session what is left of its command. The
histories `updates` and `appends` say which session did what. -/
structure Sessions (ι : Type) where
  db : DB
  program : ι → List AtomicStep
  updates : List (ι × Record)
  appends : List (ι × Record)

/-- A session gets its next command, or takes the next step of the one it has. -/
inductive SessionAct (ι : Type)
  | receive (i : ι) (command : Bytes)
  | proceed (i : ι)

/-- The entries of a history that are about the key `k`. -/
def onKey {ι : Type} (k : Bytes) (history : List (ι × Record)) : List (ι × Record) :=
  history.filter fun e => e.2.key = k

namespace Sessions

variable {ι : Type} [DecidableEq ι]

/-- One step, `none` where the session is not at that point, or does not come back from
its append. -/
def step (staleName : Option Bytes) (s : Sessions ι) : SessionAct ι → Option (Sessions ι)
  | .receive i command =>
    if s.program i = [] then
      some { s with
        program := Function.update s.program i (commandSteps s.db.replaying (tokens command)) }
    else none
  | .proceed i =>
    match s.program i with
    | [] => none
    | .update r :: rest =>
      match s.db.perform staleName (.update r) with
      | .ok db => some { s with
          db
          program := Function.update s.program i rest
          updates := s.updates ++ [(i, r)] }
      | .error _ => none
    | .append r :: rest =>
      match s.db.perform staleName (.append r) with
      | .ok db => some { s with
          db
          program := Function.update s.program i rest
          appends := s.appends ++ [(i, r)] }
      | .error _ => none

/-- The sessions before their first commands. -/
def start (db : DB) : Sessions ι where
  db := db
  program := fun _ => []
  updates := []
  appends := []

/-- No command is in progress. -/
def Quiescent (s : Sessions ι) : Prop := ∀ i, s.program i = []

/-- The step that the session `i` takes is in turn on its key: where the log is
ahead of the store, it is the update that was appended first, and where the
store is ahead of the log, the append of what was updated first. -/
def InTurn (s : Sessions ι) : SessionAct ι → Prop
  | .receive _ _ => True
  | .proceed i =>
    match s.program i with
    | [] => True
    | .update r :: _ => Due (onKey r.key s.appends) (onKey r.key s.updates) (i, r)
    | .append r :: _ => Due (onKey r.key s.updates) (onKey r.key s.appends) (i, r)

instance (s : Sessions ι) : ∀ a, Decidable (InTurn s a)
  | .receive _ _ => isTrue trivial
  | .proceed i =>
    match h : s.program i with
    | [] => isTrue (by simp [InTurn, h])
    | .update r :: _ =>
      decidable_of_iff (Due (onKey r.key s.appends) (onKey r.key s.updates) (i, r))
        (by simp [InTurn, h])
    | .append r :: _ =>
      decidable_of_iff (Due (onKey r.key s.updates) (onKey r.key s.appends) (i, r))
        (by simp [InTurn, h])

/-! ### Histories -/

omit [DecidableEq ι] in
@[simp] theorem onKey_concat_self (history : List (ι × Record)) (i : ι) (r : Record) :
    onKey r.key (history ++ [(i, r)]) = onKey r.key history ++ [(i, r)] := by
  simp [onKey, List.filter_append]

omit [DecidableEq ι] in
theorem onKey_concat_of_ne {k : Bytes} {r : Record} (h : r.key ≠ k) (history : List (ι × Record))
    (i : ι) : onKey k (history ++ [(i, r)]) = onKey k history := by
  simp [onKey, List.filter_append, h]

omit [DecidableEq ι] in
/-- What a history leaves at a key is decided by its entries on that key. -/
theorem lookup_replay_congr_onKey {m : Store} {h h' : List (ι × Record)} {k : Bytes}
    (heq : onKey k h = onKey k h') :
    (replay m (h.map Prod.snd)).lookup k = (replay m (h'.map Prod.snd)).lookup k := by
  refine lookup_replay_filter_congr rfl ?_
  rw [List.filter_map, List.filter_map]
  exact congrArg (List.map Prod.snd) heq

/-- The state and the histories fit together, whatever the order of the steps:
the histories account for the store and the log, and what a session has done to
only one of them it still has to do to the other. -/
structure Recorded (db : DB) (s : Sessions ι) : Prop where
  replaying : s.db.replaying = false
  logfile : s.db.logger.logfile = db.logger.logfile
  store_eq : s.db.store = replay db.store (s.updates.map Prod.snd)
  appended_eq : s.db.logger.appended = db.logger.appended ++ s.appends.map Prod.snd
  balanced : ∀ i r, s.updates.count (i, r) + (s.program i).count (.update r) =
    s.appends.count (i, r) + (s.program i).count (.append r)

/-- On every key, one of the two orders continues the other. -/
def InStep (s : Sessions ι) : Prop :=
  ∀ k, Abreast (onKey k s.updates) (onKey k s.appends)

omit [DecidableEq ι] in
/-- A command has as many updates of a record as appends. -/
theorem count_commandSteps (ts : List Bytes) (r : Record) :
    (commandSteps false ts).count (.update r) = (commandSteps false ts).count (.append r) := by
  rw [commandSteps]
  split
  · induction commandRecords ts with
    | nil => rfl
    | cons q rs ih =>
        simp only [List.map_cons, List.count_append, List.count_cons] at ih ⊢
        simp at ih ⊢
        omega
  · induction commandRecords ts with
    | nil => rfl
    | cons q rs ih =>
        simp [List.count_cons] at ih ⊢
        omega

variable {staleName : Option Bytes} {db : DB} {s s' : Sessions ι}

theorem recorded_start (hreplaying : db.replaying = false) :
    Recorded db (start db : Sessions ι) where
  replaying := hreplaying
  logfile := rfl
  store_eq := rfl
  appended_eq := by simp [start]
  balanced := fun i r => by simp [start]

/-- What a session has done and what it still has to do, of one kind, is kept
by a step of that kind; -/
theorem count_done_add_todo {f : Record → AtomicStep} (hf : Function.Injective f)
    {program : ι → List AtomicStep} {i : ι} {r : Record} {rest : List AtomicStep}
    (h : program i = f r :: rest) (history : List (ι × Record)) (j : ι) (q : Record) :
    (history ++ [(i, r)]).count (j, q) + (Function.update program i rest j).count (f q) =
      history.count (j, q) + (program j).count (f q) := by
  rw [List.count_append, List.count_singleton]
  by_cases hj : j = i
  · subst hj
    rw [Function.update_self, h, List.count_cons]
    by_cases hq : r = q
    · subst hq
      simp
      omega
    · simp [hq, hf.ne hq]
  · have hne : ¬(i, r) = (j, q) := fun heq => hj (congrArg Prod.fst heq).symm
    rw [Function.update_of_ne hj]
    simp [hne]

/-- what it has to do of the other kind is left alone. -/
theorem count_todo_of_ne {program : ι → List AtomicStep} {i : ι} {x y : AtomicStep}
    {rest : List AtomicStep} (h : program i = x :: rest) (hne : x ≠ y) (j : ι) :
    (Function.update program i rest j).count y = (program j).count y := by
  by_cases hj : j = i
  · subst hj
    rw [Function.update_self, h, List.count_cons_of_ne hne]
  · rw [Function.update_of_ne hj]

/-- **What a step can be**: an idle session gets a command, or a session takes the
update or the append that it has to do next. -/
theorem step_cases {a : SessionAct ι} (hstep : step staleName s a = some s') :
    (∃ i command, a = .receive i command ∧ s.program i = [] ∧
      s' = { s with
        program := Function.update s.program i
          (commandSteps s.db.replaying (tokens command)) }) ∨
    (∃ i r rest, a = .proceed i ∧ s.program i = .update r :: rest ∧
      s' = { s with
        db := s.db.update [r]
        program := Function.update s.program i rest
        updates := s.updates ++ [(i, r)] }) ∨
    ∃ i r rest, a = .proceed i ∧ s.program i = .append r :: rest ∧
      s.db.logger.Appends staleName ∧
      s' = { s with
        db := { s.db with logger := s.db.logger.appendAll [r] }
        program := Function.update s.program i rest
        appends := s.appends ++ [(i, r)] } := by
  cases a with
  | receive i command =>
      simp only [step] at hstep
      split at hstep
      · next hidle => exact Or.inl ⟨i, command, rfl, hidle, (Option.some.inj hstep).symm⟩
      · exact absurd hstep (by simp)
  | proceed i =>
      simp only [step] at hstep
      split at hstep
      · exact absurd hstep (by simp)
      · next r rest hprog =>
          rw [DB.perform] at hstep
          exact Or.inr (Or.inl ⟨i, r, rest, rfl, hprog, (Option.some.inj hstep).symm⟩)
      · next r rest hprog =>
          by_cases happends : s.db.logger.Appends staleName
          · rw [DB.perform_append happends] at hstep
            exact Or.inr (Or.inr ⟨i, r, rest, rfl, hprog, happends,
              (Option.some.inj hstep).symm⟩)
          · rw [DB.perform_append_of_not_appends happends] at hstep
            exact absurd hstep (by simp)

/-- Every step keeps the books. -/
theorem recorded_step (hopen : db.logger.logfile.isSome = true) (h : Recorded db s)
    {a : SessionAct ι} (hstep : step staleName s a = some s') : Recorded db s' := by
  rcases step_cases hstep with ⟨i, command, rfl, hidle, rfl⟩ | ⟨i, r, rest, rfl, hprog, rfl⟩ |
    ⟨i, r, rest, rfl, hprog, -, rfl⟩
  · refine { h with balanced := fun j r => ?_ }
    by_cases hj : j = i
    · subst hj
      -- the session was idle, so it starts from an even account
      have hold := h.balanced j r
      rw [hidle] at hold
      simp only [Function.update_self, h.replaying, count_commandSteps]
      simpa using hold
    · simpa [Function.update_of_ne hj] using h.balanced j r
  · exact { h with
      store_eq := by
        show replay s.db.store [r] = _
        rw [List.map_append, replay_append, ← h.store_eq]
        rfl
      balanced := by
        intro j q
        have hupdates := count_done_add_todo (fun _ _ heq => AtomicStep.update.inj heq)
          hprog s.updates j q
        have happends : (Function.update s.program i rest j).count (.append q) = _ :=
          count_todo_of_ne hprog (by simp) j
        exact (hupdates.trans (h.balanced j q)).trans (congrArg _ happends.symm) }
  · obtain ⟨f, hf⟩ := Option.isSome_iff_exists.mp hopen
    have happend : s.db.logger.appendAll [r] = _ :=
      Log.appendAll_of_open (h.logfile.trans hf) [r]
    exact { h with
      logfile := by
        show (s.db.logger.appendAll [r]).logfile = _
        rw [happend]
        exact h.logfile
      appended_eq := by
        show (s.db.logger.appendAll [r]).appended = _
        rw [happend, List.map_append, ← List.append_assoc, ← h.appended_eq]
        rfl
      balanced := by
        intro j q
        have hupdates : (Function.update s.program i rest j).count (.update q) = _ :=
          count_todo_of_ne hprog (by simp) j
        have happends := count_done_add_todo (fun _ _ heq => AtomicStep.append.inj heq)
          hprog s.appends j q
        exact (congrArg _ hupdates).trans ((h.balanced j q).trans happends.symm) }

theorem recorded_run (hreplaying : db.replaying = false) (hopen : db.logger.logfile.isSome = true)
    {acts : List (SessionAct ι)} (hrun : Machine.run (step staleName) (start db) acts = some s) :
    Recorded db s :=
  Machine.invariant (P := Recorded db) (fun _ _ _ h hstep => recorded_step hopen h hstep)
    (recorded_start hreplaying) hrun

/-- Where no command is in progress and the orders are in step, they are equal. -/
theorem InStep.onKey_eq (h : InStep s) (hrecorded : Recorded db s) (hquiet : Quiescent s)
    (k : Bytes) : onKey k s.updates = onKey k s.appends := by
  refine (h k).eq_of_count fun ⟨i, r⟩ => ?_
  -- with nothing left to do, every entry is in both orders as often
  have hbalanced := hrecorded.balanced i r
  rw [hquiet i, List.count_nil, List.count_nil, Nat.add_zero, Nat.add_zero] at hbalanced
  by_cases hk : r.key = k
  · simpa [onKey, List.count_filter, hk] using hbalanced
  · have hzero : ∀ history : List (ι × Record), (onKey k history).count (i, r) = 0 := by
      intro history
      exact List.count_eq_zero.mpr fun hmem =>
        hk (by simpa [onKey] using (List.mem_filter.mp hmem).2)
    rw [hzero, hzero]

/-! ### Turns -/

omit [DecidableEq ι] in
/-- An entry added to one of two orders in step leaves them so exactly when it
is due. -/
theorem abreast_onKey_concat_iff {xs ys : List (ι × Record)} {i : ι} {r : Record}
    (h : ∀ k, Abreast (onKey k xs) (onKey k ys)) :
    (∀ k, Abreast (onKey k xs) (onKey k (ys ++ [(i, r)]))) ↔
      Due (onKey r.key xs) (onKey r.key ys) (i, r) := by
  constructor
  · intro hafter
    have hkey := hafter r.key
    rw [onKey_concat_self] at hkey
    exact (abreast_concat_iff (h r.key)).mp hkey
  · intro hdue k
    by_cases hk : r.key = k
    · subst hk
      rw [onKey_concat_self]
      exact (abreast_concat_iff (h r.key)).mpr hdue
    · rw [onKey_concat_of_ne hk]
      exact h k

omit [DecidableEq ι] in
theorem abreast_onKey_of_concat {xs ys : List (ι × Record)} {i : ι} {r : Record}
    (h : ∀ k, Abreast (onKey k xs) (onKey k (ys ++ [(i, r)]))) (k : Bytes) :
    Abreast (onKey k xs) (onKey k ys) := by
  have hafter := h k
  by_cases hk : r.key = k
  · subst hk
    rw [onKey_concat_self] at hafter
    exact hafter.of_concat
  · rwa [onKey_concat_of_ne hk] at hafter

/-- **One step** keeps the orders in step exactly when it is in turn. -/
theorem inStep_step_iff (h : InStep s) {a : SessionAct ι} (hstep : step staleName s a = some s') :
    InStep s' ↔ InTurn s a := by
  rcases step_cases hstep with ⟨i, command, rfl, hidle, rfl⟩ | ⟨i, r, rest, rfl, hprog, rfl⟩ |
    ⟨i, r, rest, rfl, hprog, -, rfl⟩
  · exact iff_of_true h trivial
  · have hiff := abreast_onKey_concat_iff (i := i) (r := r) fun k => (h k).symm
    simp only [InTurn, hprog, ← hiff]
    exact forall_congr' fun k => ⟨Abreast.symm, Abreast.symm⟩
  · simp only [InTurn, hprog]
    exact abreast_onKey_concat_iff h

/-- No step restores what an earlier one has broken. -/
theorem inStep_of_step {a : SessionAct ι} (hstep : step staleName s a = some s') (h : InStep s') :
    InStep s := by
  rcases step_cases hstep with ⟨i, command, rfl, hidle, rfl⟩ | ⟨i, r, rest, rfl, hprog, rfl⟩ |
    ⟨i, r, rest, rfl, hprog, -, rfl⟩
  · exact h
  · exact fun k => (abreast_onKey_of_concat (fun k => (h k).symm) k).symm
  · exact abreast_onKey_of_concat h

omit [DecidableEq ι] in
theorem inStep_start (db : DB) : InStep (start db : Sessions ι) := fun _ => abreast_nil _

/-! ### Runs -/

/-- **Whenever no command is in progress, the log stands for the store**, in
every run whose steps are all taken in turn: the records that were appended,
read over the first store, give the present one. -/
theorem run_mirrored (hreplaying : db.replaying = false)
    (hopen : db.logger.logfile.isSome = true) {acts : List (SessionAct ι)}
    (hguard : Machine.Guarded (step staleName) InTurn (start db) acts)
    (hrun : Machine.run (step staleName) (start db) acts = some s) (hquiet : Quiescent s) :
    ∃ rs, s.db.logger.appended = db.logger.appended ++ rs ∧ s.db.store = replay db.store rs := by
  have hrecorded : Recorded db s := recorded_run hreplaying hopen hrun
  have hinstep : InStep s :=
    hguard.invariant (P := InStep) (fun _ _ _ h hturn hstep => (inStep_step_iff h hstep).mpr hturn)
      (inStep_start db) hrun
  refine ⟨s.appends.map Prod.snd, hrecorded.appended_eq, ?_⟩
  rw [hrecorded.store_eq]
  exact Finmap.ext_lookup fun k =>
    lookup_replay_congr_onKey (hinstep.onKey_eq hrecorded hquiet k)

/-- A `mput` that has appended both of its lines and a `del` that waits for it
to update. -/
theorem run_mirrored_waiting :
    ∃ s : Sessions Bool,
      Machine.run (step none) (start ⟨∅, ascii "a", Log.opened (ascii "a") 0, false, 0⟩)
        [.receive false (ascii "mput k 1 l 2"), .proceed false, .proceed false,
          .receive true (ascii "del k"), .proceed false, .proceed true, .proceed false,
          .proceed true] = some s ∧ s.db.store = replay ∅ s.db.logger.appended := by
  have hend : (Machine.run (step none)
      (start ⟨∅, ascii "a", Log.opened (ascii "a") 0, false, 0⟩ : Sessions Bool)
      [.receive false (ascii "mput k 1 l 2"), .proceed false, .proceed false,
        .receive true (ascii "del k"), .proceed false, .proceed true, .proceed false,
        .proceed true]).map (fun s => (s.program false, s.program true)) = some ([], []) := by
    decide
  obtain ⟨s, hrun, hs⟩ := Option.map_eq_some_iff.mp hend
  obtain ⟨hfalse, htrue⟩ := Prod.mk.inj hs
  have hquiet : Quiescent s := Bool.forall_bool.mpr ⟨hfalse, htrue⟩
  obtain ⟨rs, happended, hstore⟩ := run_mirrored rfl rfl (by decide) hrun hquiet
  refine ⟨s, hrun, ?_⟩
  rw [happended]
  exact hstore

/-- Two sessions put the same key. The second to update is the first to append,
so the log ends with the value that the store has lost. -/
theorem not_run_mirrored :
    ∃ s : Sessions Bool,
      Machine.run (step none) (start ⟨∅, ascii "a", Log.opened (ascii "a") 0, false, 0⟩)
        [.receive false (ascii "put k 1"), .receive true (ascii "put k 2"), .proceed false,
          .proceed true, .proceed true, .proceed false] = some s ∧
      Quiescent s ∧ s.db.store ≠ replay ∅ s.db.logger.appended := by
  have hend : (Machine.run (step none)
      (start ⟨∅, ascii "a", Log.opened (ascii "a") 0, false, 0⟩ : Sessions Bool)
      [.receive false (ascii "put k 1"), .receive true (ascii "put k 2"), .proceed false,
        .proceed true, .proceed true, .proceed false]).map
      (fun s => (s.program false, s.program true, s.db.store.lookup (ascii "k"),
        (replay ∅ s.db.logger.appended).lookup (ascii "k"))) =
      some ([], [], some (ascii "2"), some (ascii "1")) := by
    decide
  obtain ⟨s, hrun, hs⟩ := Option.map_eq_some_iff.mp hend
  simp only [Prod.mk.injEq] at hs
  obtain ⟨hfalse, htrue, hstore, hlog⟩ := hs
  refine ⟨s, hrun, Bool.forall_bool.mpr ⟨hfalse, htrue⟩, fun heq => ?_⟩
  rw [heq, hlog] at hstore
  exact absurd hstore (by decide)

/-- The turns are exactly what it takes for the log to have the writes of every
key in the order in which the store got them. -/
theorem guarded_iff (hreplaying : db.replaying = false)
    (hopen : db.logger.logfile.isSome = true) {acts : List (SessionAct ι)}
    (hrun : Machine.run (step staleName) (start db) acts = some s) (hquiet : Quiescent s) :
    Machine.Guarded (step staleName) InTurn (start db) acts ↔
      ∀ k, onKey k s.updates = onKey k s.appends := by
  constructor
  · intro hguard k
    have hinstep : InStep s :=
      hguard.invariant (P := InStep)
        (fun _ _ _ h hturn hstep => (inStep_step_iff h hstep).mpr hturn) (inStep_start db) hrun
    exact hinstep.onKey_eq (recorded_run hreplaying hopen hrun) hquiet k
  · intro heq
    -- no step mends what is broken, so the end tells of all the steps
    have hfinal : InStep s := fun k => Or.inl (heq k ▸ List.prefix_refl _)
    exact (Machine.guarded_of_final (P := InStep) (fun _ _ _ hstep h => inStep_of_step hstep h)
      (fun _ _ _ hstep h h' => (inStep_step_iff h hstep).mp h') hrun hfinal).2

end Sessions

end Taproot
