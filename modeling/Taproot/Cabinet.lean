import Taproot.Switching

/-!
# Taproot.Cabinet

What a server **is for**: a cabinet of named stores, one of which is open, that
answers requests. `Cabinet.request` is the specification of the dispatcher; there
are no files, no logs and no flusher in it, and switching back and forth between
stores costs nothing.

The replies are those of the program, made from the name and the store alone
(`DB.reply_congr`). A request that neither switches nor ends the server is
answered by both in the same way (`dispatcher_eq`).
-/

namespace Taproot

open Posix Journal

/-! ### Replies -/

namespace DB

/-- What a request is answered with that goes to the keyspace. -/
def reply (env : Env) (db : DB) (input : Bytes) : Bytes :=
  if input = ascii "stats" then db.displayStats env
  else if input = ascii "clear" then ascii "OK"
  else if input = ascii "show" then db.display env
  else if input = ascii "keys" then db.displayKeys env
  else if input = ascii "values" then db.displayValues env
  else if db.answer (tokens input) = [] then []
  else printVector (db.answer (tokens input))

/-- A reply is made from the name and the store. -/
theorem reply_congr {db db' : DB} (hname : db'.name = db.name) (hstore : db'.store = db.store)
    (env : Env) (input : Bytes) : db'.reply env input = db.reply env input := by
  have hget : db'.get = db.get := by
    funext key
    rw [get, get, hstore]
  have hanswer : db'.answer (tokens input) = db.answer (tokens input) := by
    cases tokens input with
    | nil => rfl
    | cons op args => rw [answer, answer, hget]
  rw [reply, reply, hanswer, displayStats, displayStats, display, display, displayKeys,
    displayKeys, displayValues, displayValues, hname, hstore]

/-- A `DB` of which nothing but the name and the store matters. -/
def sheet (name : Bytes) (store : Store) : DB where
  store := store
  name := name
  logger := Log.opened name 0
  replaying := false
  dirty := 0

end DB

namespace Server

variable {env env' : Env} {s : Server} {input : Bytes}

theorem commandRecords_of_length_one {ts : List Bytes} (h : ts.length = 1) :
    commandRecords ts = [] := by
  refine commandRecords_eq_nil fun hmutation => ?_
  rcases hmutation with ⟨-, hlen⟩ | ⟨-, hlen⟩ | ⟨-, hlen, -⟩ | ⟨-, hlen⟩ <;> omega

/-- **A request to the keyspace**: it clears it or is executed, and is answered. -/
theorem dispatcher_eq (env env' : Env) (s : Server) (htokens : tokens input ≠ [])
    (hquit : ¬IsQuit input) (huse : ∀ name, tokens input ≠ [ascii "use", name])
    (hexecutes : s.db.Executes env.staleName (tokens input)) :
    s.dispatcher env env' input =
      (if input = ascii "clear" then
          { s with fs := (s.db.clearData s.fs).1, db := (s.db.clearData s.fs).2 }
        else { s with db := s.db.execute (tokens input) }, .ok (s.db.reply env input)) := by
  -- a display makes no records
  have hdisplay (h : (tokens input).length = 1) : s.db.execute (tokens input) = s.db :=
    DB.execute_of_records_nil (commandRecords_of_length_one h) s.db
  obtain ⟨op, args, hts⟩ := List.exists_cons_of_ne_nil htokens
  have hnotUse : ¬(op = ascii "use" ∧ (op :: args).length = 2) := by
    rintro ⟨rfl, hlength⟩
    obtain ⟨name, rfl⟩ := List.length_eq_one_iff.mp (Nat.succ.inj hlength)
    exact huse name hts
  rw [dispatcher, tokenize_eq, DB.reply]
  dsimp only
  by_cases hstats : input = ascii "stats"
  · subst hstats
    rw [if_pos rfl, if_pos rfl, if_neg (by decide), hdisplay (by decide)]
  rw [if_neg hstats, if_neg hstats]
  by_cases hclear : input = ascii "clear"
  · rw [if_pos hclear, if_pos hclear, if_pos hclear]
  rw [if_neg hclear, if_neg hclear, if_neg hclear, hts, subscript_cons_zero]
  dsimp only
  rw [if_neg hnotUse, ← hts]
  by_cases hshow : input = ascii "show"
  · subst hshow
    rw [if_pos rfl, if_pos rfl, hdisplay (by decide)]
  rw [if_neg hshow, if_neg hshow]
  by_cases hkeys : input = ascii "keys"
  · subst hkeys
    rw [if_pos rfl, if_pos rfl, hdisplay (by decide)]
  rw [if_neg hkeys, if_neg hkeys]
  by_cases hvalues : input = ascii "values"
  · subst hvalues
    rw [if_pos rfl, if_pos rfl, hdisplay (by decide)]
  rw [if_neg hvalues, if_neg hvalues,
    if_neg (show ¬(input = ascii "quit" ∨ input = ascii "exit") from hquit),
    DB.parseCommand_eq hexecutes]

end Server

/-! ### The specification -/

/-- The stores by their names, and the name of the one that is open. -/
structure Cabinet where
  current : Bytes
  stores : Bytes → Store

namespace Cabinet

/-- The store that is open. -/
def store (c : Cabinet) : Store := c.stores c.current

/-- Another content for the store that is open. -/
def put (c : Cabinet) (s : Store) : Cabinet :=
  { c with stores := Function.update c.stores c.current s }

@[simp] theorem current_put (c : Cabinet) (s : Store) : (c.put s).current = c.current := rfl

@[simp] theorem store_put (c : Cabinet) (s : Store) : (c.put s).store = s :=
  Function.update_self _ _ _

theorem stores_put_of_ne (c : Cabinet) (s : Store) {name : Bytes} (h : name ≠ c.current) :
    (c.put s).stores name = c.stores name := Function.update_of_ne h _ _

theorem put_store (c : Cabinet) : c.put c.store = c := by
  rw [put, store, Function.update_eq_self]

/-- One request. -/
def request (env : Env) (c : Cabinet) (input : Bytes) : Cabinet × Bytes :=
  if Server.IsUse input then
    let name := (tokens input).getD 1 []
    ({ c with current := name }, ascii "OK switched keyspace to " ++ name)
  else
    (c.put (if input = ascii "clear" then ∅ else replay c.store (commandRecords (tokens input))),
      (DB.sheet c.current c.store).reply env input)

end Cabinet

end Taproot
