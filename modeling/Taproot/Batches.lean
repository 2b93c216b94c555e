import Taproot.Command

/-!
# Taproot.Batches

Commands on **several keys at once**.

A batch command equals the single commands on its items, taken in order
(`batch_eq_singles`), although it appends all its records before it touches the
store. A multi-delete removes its keys one after the other, so a key that is
listed twice is missing the second time; `mdel_spec` gives its outcome in closed
form, from the state before the loop.
-/

namespace Taproot

open Journal

namespace DB

/-! ### The branches for a single key -/

/-- The `put` branch of `parseCommand`. -/
def putBranch (staleName : Option Bytes) (db : DB) (tokens : List Bytes) : Except Fault DB := do
  let op ← subscript tokens 0
  let db := db.put (← subscript tokens 1) (← subscript tokens 2)
  if !db.isReplaying then
    let logger ← db.logger.appendCommand staleName (← convertStr op)
      (← subscript tokens 1) (← subscript tokens 2)
    return { db with logger }
  else
    return db

/-- The `del` branch of `parseCommand`. -/
def delBranch (staleName : Option Bytes) (db : DB) (tokens : List Bytes) : Except Fault DB := do
  let op ← subscript tokens 0
  let (db, _) := db.del (← subscript tokens 1)
  if !db.isReplaying then
    let logger ← db.logger.appendCommand staleName (← convertStr op) (← subscript tokens 1) []
    return { db with logger }
  else
    return db

variable {staleName : Option Bytes}

theorem putBranch_eq (staleName : Option Bytes) (db : DB) (k v : Bytes) :
    db.putBranch staleName [ascii "put", k, v] =
      if db.Executes staleName [ascii "put", k, v] then .ok (db.execute [ascii "put", k, v])
      else .error .undefinedBehaviour := by
  have hrecords : commandRecords [ascii "put", k, v] = [.put k v] := rfl
  have hbatch : isBatch [ascii "put", k, v] = false := rfl
  simp only [putBranch, subscript_cons_succ, subscript_cons_zero, ok_bind, put_eq, convertStr_put,
    isReplaying, update_logger, update_replaying, pure_eq_ok]
  cases hreplaying : db.replaying with
  | true => simp [execute, Executes, update, loggedRecords, hbatch, hrecords, hreplaying]
  | false =>
      by_cases happends : db.logger.Appends staleName
      · rw [if_pos (executes_of_appends happends _), Log.appendCommand_put happends]
        simp [execute, hrecords, hreplaying]
      · have hstuck : ¬db.Executes staleName [ascii "put", k, v] := by
          simp [Executes, happends, hreplaying, hrecords]
        rw [if_neg hstuck, Log.appendCommand_of_not_appends happends]
        rfl

theorem delBranch_eq (staleName : Option Bytes) (db : DB) (k : Bytes) :
    db.delBranch staleName [ascii "del", k] =
      if db.Executes staleName [ascii "del", k] then .ok (db.execute [ascii "del", k])
      else .error .undefinedBehaviour := by
  have hrecords : commandRecords [ascii "del", k] = [.del k] := rfl
  have hbatch : isBatch [ascii "del", k] = false := rfl
  simp only [delBranch, subscript_cons_succ, subscript_cons_zero, ok_bind, del_fst, convertStr_del,
    isReplaying, update_logger, update_replaying, pure_eq_ok]
  cases hreplaying : db.replaying with
  | true => simp [execute, Executes, update, loggedRecords, hbatch, hrecords, hreplaying]
  | false =>
      by_cases happends : db.logger.Appends staleName
      · rw [if_pos (executes_of_appends happends _), Log.appendCommand_del happends]
        simp [execute, hrecords, hreplaying]
      · have hstuck : ¬db.Executes staleName [ascii "del", k] := by
          simp [Executes, happends, hreplaying, hrecords]
        rw [if_neg hstuck, Log.appendCommand_of_not_appends happends]
        rfl

/-- A command for a single key takes its branch. -/
theorem parseCommand_single (staleName : Option Bytes) (db : DB) (command k v : Bytes) :
    (tokenize command = .ok [ascii "put", k, v] → db.parseCommand staleName command =
      (db.putBranch staleName [ascii "put", k, v]).map fun db => (db, [])) ∧
    (tokenize command = .ok [ascii "del", k] → db.parseCommand staleName command =
      (db.delBranch staleName [ascii "del", k]).map fun db => (db, [])) := by
  constructor
  · intro htokens
    rw [tokenize_eq] at htokens
    rw [parseCommand_eq_ite, Except.ok.inj htokens, putBranch_eq]
    split <;> rfl
  · intro htokens
    rw [tokenize_eq] at htokens
    rw [parseCommand_eq_ite, Except.ok.inj htokens, delBranch_eq]
    split <;> rfl

/-! ### A batch is its single commands -/

theorem foldlM_putBranch {db : DB} (happends : db.logger.Appends staleName)
    (pairs : List (Bytes × Bytes)) :
    pairs.foldlM (fun db p => putBranch staleName db [ascii "put", p.1, p.2]) db =
      .ok ((pairs.map fun p => [ascii "put", p.1, p.2]).foldl execute db) := by
  induction pairs generalizing db with
  | nil => rfl
  | cons p pairs ih =>
      rw [List.foldlM_cons, putBranch_eq, if_pos (executes_of_appends happends _), ok_bind,
        ih (execute_appends happends _)]
      rfl

theorem foldlM_delBranch {db : DB} (happends : db.logger.Appends staleName) (keys : List Bytes) :
    keys.foldlM (fun db k => delBranch staleName db [ascii "del", k]) db =
      .ok ((keys.map fun k => [ascii "del", k]).foldl execute db) := by
  induction keys generalizing db with
  | nil => rfl
  | cons k keys ih =>
      rw [List.foldlM_cons, delBranch_eq, if_pos (executes_of_appends happends _), ok_bind,
        ih (execute_appends happends _)]
      rfl

theorem length_flatMap_pair (pairs : List (Bytes × Bytes)) :
    (pairs.flatMap fun p => [p.1, p.2]).length = 2 * pairs.length := by
  simp [List.length_flatMap, Nat.mul_comm]

/-- The records of `mput` are those of its pairs. -/
theorem commandRecords_mput {pairs : List (Bytes × Bytes)} (hlen : 2 ≤ pairs.length) :
    commandRecords (ascii "mput" :: pairs.flatMap fun p => [p.1, p.2]) =
      (pairs.map fun p => [ascii "put", p.1, p.2]).flatMap commandRecords := by
  have hlength := length_flatMap_pair pairs
  rw [commandRecords, if_neg fun h => absurd h.1 (by decide),
    if_neg fun h => absurd h.1 (by decide), if_pos ⟨rfl, by omega, by omega⟩,
    pairRecords_flatMap, List.flatMap_map, List.map_eq_flatMap]
  rfl

/-- The records of `mdel` are those of its keys. -/
theorem commandRecords_mdel {keys : List Bytes} (hlen : 2 ≤ keys.length) :
    commandRecords (ascii "mdel" :: keys) =
      (keys.map fun k => [ascii "del", k]).flatMap commandRecords := by
  rw [commandRecords, if_neg fun h => absurd h.1 (by decide),
    if_neg fun h => absurd h.1 (by decide), if_neg fun h => absurd h.1 (by decide),
    if_pos ⟨rfl, hlen⟩, List.flatMap_map, List.map_eq_flatMap]
  rfl

/-- Token lists with the records of one command have its effect, executed in
order. -/
theorem foldl_execute_of_records {db : DB} (hreplaying : db.replaying = false) {ts : List Bytes}
    {tss : List (List Bytes)} (hrecords : commandRecords ts = tss.flatMap commandRecords) :
    tss.foldl execute db = db.execute ts := by
  rw [foldl_execute hreplaying, execute_eq hreplaying, hrecords]

/-- A batch of records that cannot be appended stops at the first. -/
theorem not_executes_of_batch {db : DB} (happends : ¬db.logger.Appends staleName)
    (hreplaying : db.replaying = false) {ts : List Bytes} (hrecords : commandRecords ts ≠ []) :
    ¬db.Executes staleName ts := by
  rw [Executes, hreplaying, loggedRecords_false]
  exact not_or.mpr ⟨happends, hrecords⟩

/-- **A batch command equals its single commands**, in the whole state that they
leave: `mput` the `put` branch on each pair, `mdel` the `del` branch on each key. The
log being open, they return. -/
theorem batch_eq_singles (staleName : Option Bytes) (db : DB) (hreplaying : db.replaying = false)
    (command : Bytes) :
    (∀ pairs : List (Bytes × Bytes), 2 ≤ pairs.length →
      tokenize command = .ok (ascii "mput" :: pairs.flatMap fun p => [p.1, p.2]) →
      (db.parseCommand staleName command = (pairs.foldlM
          (fun db p => putBranch staleName db [ascii "put", p.1, p.2]) db).map fun db => (db, [])) ∧
      (db.logger.logfile.isSome = true →
        ∃ db', db.parseCommand staleName command = .ok (db', []))) ∧
    (∀ keys : List Bytes, 2 ≤ keys.length →
      tokenize command = .ok (ascii "mdel" :: keys) →
      (db.parseCommand staleName command = (keys.foldlM
          (fun db k => delBranch staleName db [ascii "del", k]) db).map fun db => (db, [])) ∧
      (db.logger.logfile.isSome = true →
        ∃ db', db.parseCommand staleName command = .ok (db', []))) := by
  constructor
  · intro pairs hlen htokens
    rw [tokenize_eq] at htokens
    have hts := Except.ok.inj htokens
    refine ⟨?_, fun hopen => ⟨_, by
      rw [parseCommand_eq (executes_of_appends (Or.inl hopen) _), hts]
      rfl⟩⟩
    by_cases happends : db.logger.Appends staleName
    · rw [parseCommand_eq (executes_of_appends happends _), foldlM_putBranch happends, hts,
        foldl_execute_of_records hreplaying (commandRecords_mput hlen)]
      rfl
    · -- neither gets past its first append
      obtain ⟨p, pairs, rfl⟩ := List.exists_cons_of_length_pos (Nat.zero_lt_of_lt hlen)
      rw [parseCommand_of_not_executes, List.foldlM_cons, putBranch_eq, if_neg]
      · rfl
      · exact not_executes_of_batch happends hreplaying (by simp [commandRecords, pairRecords])
      · rw [hts]
        refine not_executes_of_batch happends hreplaying ?_
        rw [commandRecords_mput hlen]
        simp [commandRecords, pairRecords]
  · intro keys hlen htokens
    rw [tokenize_eq] at htokens
    have hts := Except.ok.inj htokens
    refine ⟨?_, fun hopen => ⟨_, by
      rw [parseCommand_eq (executes_of_appends (Or.inl hopen) _), hts]
      rfl⟩⟩
    by_cases happends : db.logger.Appends staleName
    · rw [parseCommand_eq (executes_of_appends happends _), foldlM_delBranch happends, hts,
        foldl_execute_of_records hreplaying (commandRecords_mdel hlen)]
      rfl
    · obtain ⟨k, keys, rfl⟩ := List.exists_cons_of_length_pos (Nat.zero_lt_of_lt hlen)
      rw [parseCommand_of_not_executes, List.foldlM_cons, delBranch_eq, if_neg]
      · rfl
      · refine not_executes_of_batch happends hreplaying ?_
        rw [commandRecords, if_neg fun h => absurd h.1 (by decide), if_pos ⟨rfl, rfl⟩]
        simp
      · rw [hts]
        refine not_executes_of_batch happends hreplaying ?_
        rw [commandRecords_mdel hlen, List.map_cons, List.flatMap_cons, commandRecords,
          if_neg fun h => absurd h.1 (by decide), if_pos ⟨rfl, rfl⟩]
        simp

/-- A key that is listed twice, on an open log. -/
theorem batch_eq_singles_twice :
    let db : DB := ⟨∅, ascii "a", Log.opened (ascii "a") 0, false, 0⟩
    let pairs := [(ascii "k", ascii "1"), (ascii "k", ascii "2")]
    (∃ db', db.parseCommand none (ascii "mput k 1 k 2") = .ok (db', [])) ∧
      db.parseCommand none (ascii "mput k 1 k 2") = (pairs.foldlM (fun (db : DB) p =>
        putBranch none db [ascii "put", p.1, p.2]) db).map fun db => (db, []) := by
  intro db pairs
  obtain ⟨heq, hreturns⟩ :=
    (batch_eq_singles none db rfl (ascii "mput k 1 k 2")).1 pairs (by decide) (by decide)
  exact ⟨hreturns rfl, heq⟩

/-! ### Multi-delete -/

theorem del_snd (db : DB) (k : Bytes) : (db.del k).2 = true ↔ k ∈ db.store := by
  unfold del
  split <;> simp [*]

theorem del_store (db : DB) (k : Bytes) : (db.del k).1.store = db.store.erase k := by
  rw [del_fst]
  rfl

/-- The loop of `mdel` from any status on: each key must still be there when its
turn comes. -/
theorem mdel_loop_snd (keys : List Bytes) (db : DB) (status : Bool) :
    (keys.foldl (fun (p : DB × Bool) key =>
      ((p.1.del key).1, if (p.1.del key).2 then p.2 else false)) (db, status)).2 = true ↔
        status = true ∧ keys.Nodup ∧ ∀ k ∈ keys, k ∈ db.store := by
  induction keys generalizing db status with
  | nil => simp
  | cons x keys ih =>
      have hstatus : (if (db.del x).2 then status else false) = true ↔
          x ∈ db.store ∧ status = true := by
        rw [← del_snd]
        cases (db.del x).2 <;> simp
      -- the later keys are looked for in a store without `x`
      have hrest : (∀ k ∈ keys, k ∈ db.store.erase x) ↔ x ∉ keys ∧ ∀ k ∈ keys, k ∈ db.store := by
        simp only [Finmap.mem_erase]
        constructor
        · intro h
          exact ⟨fun hx => (h x hx).1 rfl, fun k hk => (h k hk).2⟩
        · intro h k hk
          exact ⟨fun hkx => h.1 (hkx ▸ hk), h.2 k hk⟩
      rw [List.foldl_cons, ih, hstatus, del_store, hrest, List.nodup_cons, List.forall_mem_cons]
      tauto

/-- **What a multi-delete does**, from the state before it: the listed keys are
gone and nothing else is, it reports success exactly if they were distinct and
all there, and the counter grows by the distinct ones that were there. -/
theorem mdel_spec (db : DB) (hreplaying : db.replaying = false) (keys : List Bytes) :
    (∀ k, (db.mdel keys).1.store.lookup k = if k ∈ keys then none else db.store.lookup k) ∧
    ((db.mdel keys).2 = true ↔ keys.Nodup ∧ ∀ k ∈ keys, k ∈ db.store) ∧
    (db.mdel keys).1.dirty = db.dirty + (keys.toFinset.filter (· ∈ db.store)).card := by
  refine ⟨fun k => ?_, ?_, ?_⟩
  · rw [mdel_fst]
    exact lookup_replay_dels keys db.store k
  · have hloop := mdel_loop_snd keys db true
    rw [eq_self, true_and] at hloop
    exact hloop
  · rw [mdel_fst, update, hreplaying, if_neg Bool.false_ne_true, changes_dels]

/-- A key that is there, listed twice: it is removed and counted once, and the
status is false. -/
theorem mdel_spec_twice :
    let db : DB :=
      ⟨(∅ : Store).insert (ascii "k") (ascii "1"), ascii "a", Log.opened (ascii "a") 0, false, 0⟩
    (db.mdel [ascii "k", ascii "k"]).1.store.lookup (ascii "k") = none ∧
      (db.mdel [ascii "k", ascii "k"]).2 ≠ true ∧
      (db.mdel [ascii "k", ascii "k"]).1.dirty = 1 := by
  intro db
  obtain ⟨hstore, hstatus, hdirty⟩ := mdel_spec db rfl [ascii "k", ascii "k"]
  refine ⟨hstore (ascii "k"), ?_, hdirty⟩
  rw [Ne, hstatus]
  exact fun h => absurd h.1 (by decide)

end DB

end Taproot
