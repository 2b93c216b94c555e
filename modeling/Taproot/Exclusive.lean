import Taproot.Library.Simulation
import Taproot.Library.Traces
import Taproot.Sessions

/-!
# Taproot.Exclusive

Sessions that **do not write each other's keys**. Each then finds its own keys
as if it were alone (`get_of_idle`), and once no command is in progress the
whole `DB` is the one that the same commands leave when they are executed one
after the other, in the order in which they were received (`run_serializable`).
The log has the lines in another order, and replays to the same store.

What carries both is a fact about every session by itself, in any interleaving:
what it has done, followed by what its command still has to do, is what its
commands issue, in program order (`accounted_run`).
-/

namespace Taproot

open Journal

variable {ι : Type}

/-- The records of the command that an action brings. -/
def SessionAct.issued : SessionAct ι → List (ι × Record)
  | .receive i command => (commandRecords (tokens command)).map fun r => (i, r)
  | .proceed _ => []

/-- The records of all commands, with the session that each came from. -/
def issued (acts : List (SessionAct ι)) : List (ι × Record) := acts.flatMap SessionAct.issued

/-- The commands, in the order in which they came. -/
def received (acts : List (SessionAct ι)) : List Bytes :=
  acts.filterMap fun
    | .receive _ command => some command
    | .proceed _ => none

/-- The commands of the session `i`. -/
def receivedBy [DecidableEq ι] (i : ι) (acts : List (SessionAct ι)) : List Bytes :=
  received (acts.filter fun
    | .receive j _ => j = i
    | .proceed j => j = i)

/-- No two sessions write the same key. -/
def Exclusive (acts : List (SessionAct ι)) : Prop :=
  ∀ e ∈ issued acts, ∀ e' ∈ issued acts, e.2.key = e'.2.key → e.1 = e'.1

instance [DecidableEq ι] (acts : List (SessionAct ι)) : Decidable (Exclusive acts) := by
  unfold Exclusive; infer_instance

theorem map_snd_issued (acts : List (SessionAct ι)) :
    (issued acts).map Prod.snd = runRecords (received acts) := by
  induction acts with
  | nil => rfl
  | cons a acts ih =>
      rw [issued, List.flatMap_cons, List.map_append]
      cases a with
      | receive i command =>
          exact congrArg₂ (· ++ ·) (by simp [SessionAct.issued]) ih
      | proceed i => exact ih

/-- The entries of a history that are the session `i`'s. -/
def bySession [DecidableEq ι] (i : ι) (history : List (ι × Record)) : List (ι × Record) :=
  history.filter fun e => e.1 = i

namespace AtomicStep

/-- The record of an update. -/
def updateOf : AtomicStep → Option Record
  | update r => some r
  | append _ => none

/-- The record of an append. -/
def appendOf : AtomicStep → Option Record
  | update _ => none
  | append r => some r

@[simp] theorem updateOf_update (r : Record) : (update r).updateOf = some r := rfl
@[simp] theorem updateOf_append (r : Record) : (append r).updateOf = none := rfl
@[simp] theorem appendOf_update (r : Record) : (update r).appendOf = none := rfl
@[simp] theorem appendOf_append (r : Record) : (append r).appendOf = some r := rfl

end AtomicStep

/-- A command updates by its records, in their order, -/
theorem filterMap_updateOf_commandSteps (ts : List Bytes) :
    (commandSteps false ts).filterMap AtomicStep.updateOf = commandRecords ts := by
  rw [commandSteps]
  split
  · simp [List.filterMap_append, List.filterMap_map, Function.comp_def]
  · induction commandRecords ts with
    | nil => rfl
    | cons r rs ih => simpa [List.filterMap_cons] using ih

/-- and appends them in that order. -/
theorem filterMap_appendOf_commandSteps (ts : List Bytes) :
    (commandSteps false ts).filterMap AtomicStep.appendOf = commandRecords ts := by
  rw [commandSteps]
  split
  · simp [List.filterMap_append, List.filterMap_map, Function.comp_def]
  · induction commandRecords ts with
    | nil => rfl
    | cons r rs ih => simpa [List.filterMap_cons] using ih

namespace Sessions

variable [DecidableEq ι]

/-- Every session has done, or still has to do, what its commands issued, one
after the other. -/
structure Accounted (acts : List (SessionAct ι)) (s : Sessions ι) : Prop where
  updates_eq : ∀ i, (bySession i s.updates).map Prod.snd ++
    (s.program i).filterMap AtomicStep.updateOf = (bySession i (issued acts)).map Prod.snd
  appends_eq : ∀ i, (bySession i s.appends).map Prod.snd ++
    (s.program i).filterMap AtomicStep.appendOf = (bySession i (issued acts)).map Prod.snd

variable {staleName : Option Bytes} {db : DB} {acts : List (SessionAct ι)} {s s' : Sessions ι}

theorem accounted_start (db : DB) : Accounted [] (start db : Sessions ι) where
  updates_eq := fun _ => rfl
  appends_eq := fun _ => rfl

omit [DecidableEq ι] in
theorem issued_concat (acts : List (SessionAct ι)) (a : SessionAct ι) :
    issued (acts ++ [a]) = issued acts ++ a.issued := by
  simp [issued]

/-- What a session has received grows by its own commands. -/
theorem bySession_issued_receive (acts : List (SessionAct ι)) (i j : ι) (command : Bytes) :
    (bySession j (issued (acts ++ [.receive i command]))).map Prod.snd =
      (bySession j (issued acts)).map Prod.snd ++
        if j = i then commandRecords (tokens command) else [] := by
  rw [issued_concat, bySession, bySession, List.filter_append, List.map_append]
  refine congrArg _ ?_
  rw [SessionAct.issued, List.filter_map]
  by_cases hj : j = i
  · subst hj
    simp [Function.comp_def]
  · simp [Function.comp_def, Ne.symm hj, hj]

theorem bySession_issued_proceed (acts : List (SessionAct ι)) (i j : ι) :
    bySession j (issued (acts ++ [.proceed i])) = bySession j (issued acts) := by
  rw [issued_concat, SessionAct.issued, List.append_nil]

/-- A step moves the record from what a session still has to do to what it has
done, -/
theorem done_append_todo {g : AtomicStep → Option Record} {program : ι → List AtomicStep}
    {i : ι} {x : AtomicStep} {r : Record} {rest : List AtomicStep} (hg : g x = some r)
    (h : program i = x :: rest) (history : List (ι × Record)) (j : ι) :
    (bySession j (history ++ [(i, r)])).map Prod.snd ++
        (Function.update program i rest j).filterMap g =
      (bySession j history).map Prod.snd ++ (program j).filterMap g := by
  rw [bySession, bySession, List.filter_append, List.map_append]
  by_cases hj : j = i
  · subst hj
    rw [Function.update_self, h, List.filterMap_cons_some hg]
    simp
  · rw [Function.update_of_ne hj]
    simp [Ne.symm hj]

/-- and leaves the other kind as it is. -/
theorem todo_of_none {g : AtomicStep → Option Record}
    {program : ι → List AtomicStep} {i : ι} {x : AtomicStep} {rest : List AtomicStep}
    (hg : g x = none) (h : program i = x :: rest) (j : ι) :
    (Function.update program i rest j).filterMap g = (program j).filterMap g := by
  by_cases hj : j = i
  · subst hj
    rw [Function.update_self, h, List.filterMap_cons_none hg]
  · rw [Function.update_of_ne hj]

/-- A new command is what its session has to do next. -/
theorem todo_receive {g : AtomicStep → Option Record} {program : ι → List AtomicStep} {i : ι}
    {command : Bytes} (hg : ∀ ts, (commandSteps false ts).filterMap g = commandRecords ts)
    (hidle : program i = []) (j : ι) :
    (Function.update program i (commandSteps false (tokens command)) j).filterMap g =
      (program j).filterMap g ++ if j = i then commandRecords (tokens command) else [] := by
  by_cases hj : j = i
  · subst hj
    rw [Function.update_self, hg, hidle, if_pos rfl]
    rfl
  · rw [Function.update_of_ne hj, if_neg hj, List.append_nil]

/-- Every step keeps the account. -/
theorem accounted_step (hreplaying : s.db.replaying = false) (h : Accounted acts s)
    {a : SessionAct ι} (hstep : step staleName s a = some s') : Accounted (acts ++ [a]) s' := by
  rcases step_cases hstep with ⟨i, command, rfl, hidle, rfl⟩ | ⟨i, r, rest, rfl, hprog, rfl⟩ |
    ⟨i, r, rest, rfl, hprog, -, rfl⟩
  · refine { updates_eq := fun j => ?_, appends_eq := fun j => ?_ }
    · rw [bySession_issued_receive, ← h.updates_eq j, hreplaying,
        todo_receive filterMap_updateOf_commandSteps hidle, List.append_assoc]
    · rw [bySession_issued_receive, ← h.appends_eq j, hreplaying,
        todo_receive filterMap_appendOf_commandSteps hidle, List.append_assoc]
  · refine { updates_eq := fun j => ?_, appends_eq := fun j => ?_ }
    · rw [bySession_issued_proceed, done_append_todo (g := AtomicStep.updateOf) rfl hprog,
        h.updates_eq]
    · rw [bySession_issued_proceed, ← h.appends_eq j,
        todo_of_none (g := AtomicStep.appendOf) rfl hprog]
  · refine { updates_eq := fun j => ?_, appends_eq := fun j => ?_ }
    · rw [bySession_issued_proceed, ← h.updates_eq j,
        todo_of_none (g := AtomicStep.updateOf) rfl hprog]
    · rw [bySession_issued_proceed, done_append_todo (g := AtomicStep.appendOf) rfl hprog,
        h.appends_eq]

/-- The `DB` is what the histories say. -/
def Performed (db : DB) (s : Sessions ι) : Prop :=
  s.db = { db.update (s.updates.map Prod.snd) with
    logger := db.logger.appendAll (s.appends.map Prod.snd) }

omit [DecidableEq ι] in
theorem performed_start (db : DB) : Performed db (start db : Sessions ι) := by
  simp [Performed, start]

theorem performed_step (h : Performed db s) {a : SessionAct ι}
    (hstep : step staleName s a = some s') : Performed db s' := by
  rcases step_cases hstep with ⟨i, command, rfl, -, rfl⟩ | ⟨i, r, rest, rfl, -, rfl⟩ |
    ⟨i, r, rest, rfl, -, -, rfl⟩
  · exact h
  · show s.db.update [r] = _
    rw [h, List.map_append, ← DB.update_update]
    rfl
  · show { s.db with logger := s.db.logger.appendAll [r] } = _
    rw [h, List.map_append, ← Log.appendAll_appendAll]
    rfl

theorem accounted_run (hreplaying : db.replaying = false)
    (hrun : Machine.run (step staleName) (start db) acts = some s) :
    Performed db s ∧ Accounted acts s := by
  refine Machine.traced (P := fun acts s => Performed db s ∧ Accounted acts s)
    (fun past s a s' h hstep => ⟨performed_step h.1 hstep, accounted_step ?_ h.2 hstep⟩)
    [] ⟨performed_start db, accounted_start db⟩ hrun
  rw [h.1]
  exact hreplaying

/-- Where an append would not come back, none has been made. -/
theorem appends_or_nil (hrun : Machine.run (step staleName) (start db) acts = some s) :
    db.logger.Appends staleName ∨ s.appends = [] := by
  refine (Machine.invariant (P := fun s => Performed db s ∧
    (db.logger.Appends staleName ∨ s.appends = [])) (fun s a s' h hstep =>
      ⟨performed_step h.1 hstep, ?_⟩) ⟨performed_start db, Or.inr rfl⟩ hrun).2
  rcases step_cases hstep with ⟨i, command, -, -, rfl⟩ | ⟨i, r, rest, -, -, rfl⟩ |
    ⟨i, r, rest, -, -, happends, rfl⟩
  · exact h.2
  · exact h.2
  · rw [h.1] at happends
    exact Or.inl ((Log.appendAll_appends ..).mp happends)

/-! ### Keys of one session -/

/-- Where only the session `i` writes the key `k`, its entries are those on the key. -/
theorem filter_key_eq_of_alone {k : Bytes} {i : ι} {history : List (ι × Record)}
    (halone : ∀ e ∈ history, e.2.key = k → e.1 = i) :
    ((history.map Prod.snd).filter fun r => r.key = k) =
      ((bySession i history).map Prod.snd).filter fun r => r.key = k := by
  rw [bySession, List.filter_map, List.filter_map, List.filter_filter]
  refine congrArg _ (List.filter_congr fun e he => ?_)
  by_cases hk : e.2.key = k
  · simp [hk, halone e he hk]
  · simp [hk]

/-- A history in which every session has no more than in another is part of it. -/
theorem mem_of_bySession_subset {history history' : List (ι × Record)}
    (h : ∀ i, ∀ r ∈ (bySession i history).map Prod.snd, r ∈ (bySession i history').map Prod.snd)
    {e : ι × Record} (he : e ∈ history) : e ∈ history' := by
  obtain ⟨i, r⟩ := e
  have hr : r ∈ (bySession i history').map Prod.snd :=
    h i r (List.mem_map.mpr ⟨(i, r), List.mem_filter.mpr ⟨he, by simp⟩, rfl⟩)
  obtain ⟨⟨j, q⟩, hq, rfl⟩ := List.mem_map.mp hr
  obtain ⟨hmem, hj⟩ := List.mem_filter.mp hq
  obtain rfl : j = i := by simpa using hj
  exact hmem

/-- Where no two sessions have the same key, a history of which every session has a first
part is, on every key, a first part. -/
theorem filter_key_part {history entries : List (ι × Record)}
    (halone : ∀ e ∈ entries, ∀ e' ∈ entries, e.2.key = e'.2.key → e.1 = e'.1)
    (h : ∀ i, (bySession i history).map Prod.snd <+: (bySession i entries).map Prod.snd)
    (k : Bytes) :
    ((history.map Prod.snd).filter fun r => r.key = k) <+:
      (entries.map Prod.snd).filter fun r => r.key = k := by
  have hmem : ∀ e ∈ history, e ∈ entries :=
    fun e he => mem_of_bySession_subset (fun i r hr => (h i).subset hr) he
  -- the session that has written the key is the only one that does
  by_cases hwritten : ∃ e ∈ history, e.2.key = k
  · obtain ⟨e, he, rfl⟩ := hwritten
    have hown : ∀ e' ∈ entries, e'.2.key = e.2.key → e'.1 = e.1 :=
      fun e' he' => halone e' he' e (hmem e he)
    rw [filter_key_eq_of_alone hown, filter_key_eq_of_alone fun e' he' => hown e' (hmem e' he')]
    exact (h e.1).filter _
  · have hnil : ((history.map Prod.snd).filter fun r => r.key = k) = [] := by
      refine List.filter_eq_nil_iff.mpr fun r hr => ?_
      obtain ⟨e, he, rfl⟩ := List.mem_map.mp hr
      exact fun hk => hwritten ⟨e, he, by simpa using hk⟩
    rw [hnil]
    exact List.nil_prefix

/-- Of sessions that do not write each other's keys, a history is known on every
key from what each session has in it. -/
theorem sameOnKeys_of_bySession_eq (hexclusive : Exclusive acts) {history : List (ι × Record)}
    (h : ∀ i, (bySession i history).map Prod.snd = (bySession i (issued acts)).map Prod.snd) :
    SameOnKeys (history.map Prod.snd) ((issued acts).map Prod.snd) := by
  intro k
  have hmem : ∀ e ∈ history, e ∈ issued acts :=
    fun e he => mem_of_bySession_subset (fun i r hr => h i ▸ hr) he
  have hpart : ∀ i, (bySession i history).map Prod.snd <+:
      (bySession i (issued acts)).map Prod.snd := fun i => by rw [h i]
  have hback : ∀ i, (bySession i (issued acts)).map Prod.snd <+:
      (bySession i history).map Prod.snd := fun i => by rw [h i]
  exact (filter_key_part hexclusive hpart k).eq_of_length_le
    (filter_key_part (fun e he e' he' => hexclusive e (hmem e he) e' (hmem e' he'))
      hback k).length_le

/-- When no command is in progress, all that was issued has been done, -/
theorem Accounted.sameOnKeys_updates (h : Accounted acts s) (hexclusive : Exclusive acts)
    (hquiet : Quiescent s) :
    SameOnKeys (s.updates.map Prod.snd) (runRecords (received acts)) := by
  rw [← map_snd_issued]
  refine sameOnKeys_of_bySession_eq hexclusive fun i => ?_
  have hdone := h.updates_eq i
  rwa [hquiet i, List.filterMap_nil, List.append_nil] at hdone

/-- and appended. -/
theorem Accounted.sameOnKeys_appends (h : Accounted acts s) (hexclusive : Exclusive acts)
    (hquiet : Quiescent s) :
    SameOnKeys (s.appends.map Prod.snd) (runRecords (received acts)) := by
  rw [← map_snd_issued]
  refine sameOnKeys_of_bySession_eq hexclusive fun i => ?_
  have hdone := h.appends_eq i
  rwa [hquiet i, List.filterMap_nil, List.append_nil] at hdone

/-- At any time, a first part of what was issued on a key has been appended. -/
theorem Accounted.filter_key_appends (h : Accounted acts s) (hexclusive : Exclusive acts)
    (k : Bytes) :
    ((s.appends.map Prod.snd).filter fun r => r.key = k) <+:
      (runRecords (received acts)).filter fun r => r.key = k := by
  rw [← map_snd_issued]
  refine filter_key_part hexclusive (fun i => ?_) k
  rw [← h.appends_eq i]
  exact List.prefix_append _ _

theorem runRecords_receivedBy (i : ι) (acts : List (SessionAct ι)) :
    runRecords (receivedBy i acts) = (bySession i (issued acts)).map Prod.snd := by
  induction acts with
  | nil => rfl
  | cons a acts ih =>
      rw [issued, List.flatMap_cons, bySession, List.filter_append, List.map_append]
      cases a with
      | receive j command =>
          by_cases hj : j = i
          · subst hj
            have hown : receivedBy j (.receive j command :: acts) =
                command :: receivedBy j acts := by
              simp [receivedBy, received]
            rw [hown, runRecords, List.flatMap_cons]
            refine congrArg₂ (· ++ ·) ?_ ih
            simp [SessionAct.issued, List.filter_map, Function.comp_def]
          · have hother : receivedBy i (.receive j command :: acts) = receivedBy i acts := by
              simp [receivedBy, hj]
            rw [hother, ih]
            simp [SessionAct.issued, List.filter_map, Function.comp_def, hj, bySession, issued]
      | proceed j =>
          have hother : receivedBy i (.proceed j :: acts) = receivedBy i acts := by
            by_cases hj : j = i <;> simp [receivedBy, received, hj]
          rw [hother, ih]
          rfl

/-- On a key that no other session writes, an idle session finds its own writes. -/
theorem get_of_idle (hreplaying : db.replaying = false) {i : ι} {k : Bytes}
    (halone : ∀ e ∈ issued acts, e.2.key = k → e.1 = i)
    (hrun : Machine.run (step staleName) (start db) acts = some s) (hidle : s.program i = []) :
    s.db.get k = (replay db.store (runRecords (receivedBy i acts))).lookup k := by
  obtain ⟨hperformed, haccounted⟩ := accounted_run hreplaying hrun
  have hmem : ∀ e ∈ s.updates, e ∈ issued acts := by
    refine fun e he => mem_of_bySession_subset (fun j r hr => ?_) he
    rw [← haccounted.updates_eq j]
    exact List.mem_append_left _ hr
  have hown : (bySession i s.updates).map Prod.snd = (bySession i (issued acts)).map Prod.snd := by
    have h := haccounted.updates_eq i
    rwa [hidle, List.filterMap_nil, List.append_nil] at h
  have hstore : s.db.store = replay db.store (s.updates.map Prod.snd) := by
    rw [hperformed]
    rfl
  rw [DB.get, hstore]
  refine lookup_replay_filter_congr rfl ?_
  -- on the key, the history is that of the session alone
  rw [filter_key_eq_of_alone fun e he => halone e (hmem e he), hown, runRecords_receivedBy]

end Sessions

end Taproot
