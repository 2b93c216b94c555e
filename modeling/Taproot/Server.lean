import Taproot.Keyspace

/-!
# Taproot.Server

`server.cpp`: the dispatcher, which answers one request line.

A request may shut one `DB` down and construct another, so a dispatch takes two
surroundings: those of the request, and those in which the destructor of a
replaced `DB` runs. The log of a new `DB` keeps a reference to the token it was
named after, which is gone when the dispatcher returns (`DB.orphaned`).

`dispatcher_cases` says once what a request can do; everything else about
requests is derived from it.
-/

namespace Taproot

open Posix Journal

/-- `Server`, together with the files it works on. -/
structure Server where
  fs : Files
  db : DB
  running : Bool

/-- `std::format("ERR couldn't switch to keyspace {}: {}", name, e.what())`. -/
def switchError (name what : Bytes) : Bytes :=
  ascii "ERR couldn't switch to keyspace " ++ name ++ ascii ": " ++ what

namespace Server

/-- `Server::Server`, as far as it concerns the keyspace. -/
def new (env : Env) (fs : Files) (keyspace : Bytes) : Files × Except Fault Server :=
  match DB.new env fs keyspace with
  | (fs, .error e) => (fs, .error e)
  | (fs, .ok db) => (fs, .ok ⟨fs, db, false⟩)

/-- The `use` branch. The new `DB` is constructed before the old one, already
shut down, is destroyed. -/
def useKeyspace (env env' : Env) (s : Server) (name : Bytes) : Server × Except Fault Bytes :=
  match s.db.shutdown env s.fs with
  | (fs, db, .error (.exception what)) => ({ s with fs, db }, .ok (switchError name what))
  | (fs, db, .error e) => ({ s with fs, db }, .error e)
  | (fs, old, .ok ()) =>
    match DB.new env fs name with
    | (fs, .error (.exception what)) => ({ s with fs, db := old }, .ok (switchError name what))
    | (fs, .error e) => ({ s with fs, db := old }, .error e)
    | (fs, .ok db) =>
      match old.destroy env' fs with
      | (fs, .error e) => ({ s with fs, db := db.orphaned }, .error e)
      | (fs, .ok ()) =>
        ({ s with fs, db := db.orphaned }, .ok (ascii "OK switched keyspace to " ++ name))

/-- The `quit` branch. -/
def quit (env : Env) (s : Server) : Server × Except Fault Bytes :=
  match s.db.shutdown env s.fs with
  | (fs, db, .error e) => ({ s with fs, db, running := false }, .error e)
  | (fs, db, .ok ()) => ({ s with fs, db, running := false }, .ok (ascii "BYE"))

/-- `Server::dispatcher`. -/
def dispatcher (env env' : Env) (s : Server) (input : Bytes) : Server × Except Fault Bytes :=
  match tokenize input with
  | .error e => (s, .error e)
  | .ok tokens =>
    if input = ascii "stats" then
      (s, .ok (s.db.displayStats env))
    else if input = ascii "clear" then
      let (fs, db) := s.db.clearData s.fs
      ({ s with fs, db }, .ok (ascii "OK"))
    else
      -- a blank request has no first token
      match subscript tokens 0 with
      | .error e => (s, .error e)
      | .ok op =>
        if op = ascii "use" ∧ tokens.length = 2 then
          match subscript tokens 1 with
          | .error e => (s, .error e)
          | .ok name => s.useKeyspace env env' name
        else if input = ascii "show" then
          (s, .ok (s.db.display env))
        else if input = ascii "keys" then
          (s, .ok (s.db.displayKeys env))
        else if input = ascii "values" then
          (s, .ok (s.db.displayValues env))
        else if input = ascii "quit" ∨ input = ascii "exit" then
          s.quit env
        else
          match s.db.parseCommand env.staleName input with
          | .error e => (s, .error e)
          | .ok (db, res) =>
            ({ s with db }, .ok (if res = [] then [] else printVector res))

/-- `Server::~Server`, and then the `DB` that it owns. -/
def destroy (env env' : Env) (s : Server) : Files × Except Fault Unit :=
  match s.db.shutdown env s.fs with
  | (fs, _, .error (.exception _)) => (fs, .error .terminate)
  | (fs, _, .error e) => (fs, .error e)
  | (fs, db, .ok ()) => db.destroy env' fs

/-! ### What a request can do -/

/-- The input ends the server. -/
def IsQuit (input : Bytes) : Prop := input = ascii "quit" ∨ input = ascii "exit"

instance (input : Bytes) : Decidable (IsQuit input) := by unfold IsQuit; infer_instance

/-- The input asks for one of the four printouts. -/
def IsDisplay (input : Bytes) : Prop :=
  input = ascii "stats" ∨ input = ascii "show" ∨ input = ascii "keys" ∨ input = ascii "values"

instance (input : Bytes) : Decidable (IsDisplay input) := by unfold IsDisplay; infer_instance

variable {env env' : Env} {s : Server} {input name : Bytes}

theorem length_tokens_of_isQuit (h : IsQuit input) : (tokens input).length = 1 := by
  rcases h with rfl | rfl <;> decide

/-- A request with the tokens `use` and a name goes to the `use` branch. -/
theorem dispatcher_use (h : tokens input = [ascii "use", name]) :
    s.dispatcher env env' input = s.useKeyspace env env' name := by
  have hlength : (tokens input).length = 2 := by rw [h]; rfl
  have hstats : input ≠ ascii "stats" := by
    rintro rfl
    exact absurd hlength (by decide)
  have hclear : input ≠ ascii "clear" := by
    rintro rfl
    exact absurd hlength (by decide)
  simp [dispatcher, tokenize_eq, h, hstats, hclear]

/-- **What a request can do**: switch the keyspace, clear it, end the server,
execute a command, not come back from one, or leave all as it is. -/
theorem dispatcher_cases (env env' : Env) (s : Server) (input : Bytes) :
    (∃ name, tokens input = [ascii "use", name]) ∨
    (input = ascii "clear" ∧ s.dispatcher env env' input =
      ({ s with fs := (s.db.clearData s.fs).1, db := (s.db.clearData s.fs).2 },
        .ok (ascii "OK"))) ∨
    (IsQuit input ∧ s.dispatcher env env' input = s.quit env) ∨
    (s.db.Executes env.staleName (tokens input) ∧ ∃ res,
      s.dispatcher env env' input = ({ s with db := s.db.execute (tokens input) }, .ok res)) ∨
    (¬s.db.Executes env.staleName (tokens input) ∧
      s.dispatcher env env' input = (s, .error .undefinedBehaviour)) ∨
    (tokens input = [] ∨ IsDisplay input) ∧ ∃ res, s.dispatcher env env' input = (s, res) := by
  rw [dispatcher, tokenize_eq]
  dsimp only
  by_cases hstats : input = ascii "stats"
  · rw [if_pos hstats]
    exact Or.inr (Or.inr (Or.inr (Or.inr (Or.inr ⟨Or.inr (Or.inl hstats), _, rfl⟩))))
  by_cases hclear : input = ascii "clear"
  · rw [if_neg hstats, if_pos hclear]
    exact Or.inr (Or.inl ⟨hclear, rfl⟩)
  rw [if_neg hstats, if_neg hclear]
  cases htokens : tokens input with
  | nil => exact Or.inr (Or.inr (Or.inr (Or.inr (Or.inr ⟨Or.inl rfl, _, rfl⟩))))
  | cons op args =>
      rw [subscript_cons_zero]
      dsimp only
      by_cases huse : op = ascii "use" ∧ (op :: args).length = 2
      · obtain ⟨rfl, hlength⟩ := huse
        obtain ⟨name, rfl⟩ := List.length_eq_one_iff.mp (Nat.succ.inj hlength)
        exact Or.inl ⟨name, rfl⟩
      rw [if_neg huse]
      refine Or.inr (Or.inr ?_)
      split
      · next hshow => exact Or.inr (Or.inr (Or.inr ⟨Or.inr (Or.inr (Or.inl hshow)), _, rfl⟩))
      split
      · next hkeys =>
          exact Or.inr (Or.inr (Or.inr ⟨Or.inr (Or.inr (Or.inr (Or.inl hkeys))), _, rfl⟩))
      split
      · next hvalues =>
          exact Or.inr (Or.inr (Or.inr ⟨Or.inr (Or.inr (Or.inr (Or.inr hvalues))), _, rfl⟩))
      split
      · next hquit => exact Or.inl ⟨hquit, rfl⟩
      by_cases hexecutes : s.db.Executes env.staleName (op :: args)
      · rw [DB.parseCommand_eq (htokens ▸ hexecutes), htokens]
        exact Or.inr (Or.inl ⟨hexecutes, _, rfl⟩)
      · rw [DB.parseCommand_of_not_executes (htokens ▸ hexecutes)]
        exact Or.inr (Or.inr (Or.inl ⟨hexecutes, rfl⟩))

end Server

end Taproot
