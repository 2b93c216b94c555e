import Taproot.Serving
import Taproot.Terminal

/-!
# Taproot.Conversing

The **whole program, used again and again**: a server is started on a keyspace, a
terminal talks to it until its user quits, the server is destroyed, and the next one is
started on the files that it has left.

Between the user and the files are the prompt, the sockets, the dispatcher, the store and
the log. What is seen of them is one cabinet, which is never shut: the terminals show its
replies, each to its own line, from the first visit to the last (`run_visits`). One visit
is `cli_quit`, which follows the terminal, and the refinement of the server, which follows
the files.
-/

namespace Taproot

open Posix Journal Chunks

/-- The lines that are sent before the one that quits. -/
def beforeQuit (stdin : List Bytes) : List Bytes :=
  (sent false stdin).takeWhile fun line => !decide (Server.IsQuit line)

theorem beforeQuit_help (stdin : List Bytes) :
    beforeQuit (ascii "help" :: stdin) = beforeQuit stdin := by
  rw [beforeQuit, sent_help, beforeQuit]

theorem beforeQuit_use (stdin : List Bytes) :
    beforeQuit (ascii "use" :: stdin) = beforeQuit stdin.tail := by
  rw [beforeQuit, sent_use, beforeQuit]

/-- A round in which the reply is shown, and nothing is left. -/
def answered (reply : Bytes) : Round := ⟨.ok reply, reply, []⟩

/-- The rounds of a terminal that ends with a quit. -/
def told (replies : List Bytes) : List Round := replies.map answered ++ [answered (ascii "BYE")]

namespace Server

/-- Lines as requests; `env n` are the surroundings of the line number `n`. -/
def asking (env : Nat → Env × Env) : List Bytes → List Action
  | [] => []
  | line :: lines => .request (env 0).1 (env 0).2 line :: asking (fun n => env (n + 1)) lines

variable {env : Nat → Env × Env} {s : Server} {t : Served} {stdin : List Bytes} {turns : Nat}

/-! ### One terminal -/

theorem attend_request_inv {env env' : Env} {input : Bytes} {replies : List Bytes}
    (h : attend ⟨s, replies⟩ (.request env env' input) = some t) :
    ∃ s' reply, s.dispatcher env env' input = (s', .ok reply) ∧ t = ⟨s', replies ++ [reply]⟩ := by
  rw [attend] at h
  split at h
  · next heq => exact ⟨_, _, heq, (Option.some.inj h).symm⟩
  · exact absurd h (by simp)

/-- No reply is taken back. -/
theorem replies_prefix_of_run {u : Served} {as : List Action}
    (h : Machine.run attend u as = some t) : u.replies <+: t.replies := by
  refine Machine.invariant (P := fun v => u.replies <+: v.replies) (fun v a v' hv hstep => ?_)
    (List.prefix_refl _) h
  cases a with
  | request env env' input =>
      obtain ⟨s', reply, -, rfl⟩ := attend_request_inv hstep
      exact hv.trans (List.prefix_append _ _)
  | swap => exact Option.some.inj hstep ▸ hv
  | write => exact Option.some.inj hstep ▸ hv

/-- **A terminal whose user quits** leaves the server as its requests and the quit do, and
shows the replies to them. -/
theorem cli_quit (net : Nat → Passage) {replies : List Bytes}
    (hlines : ∀ line ∈ stdin, NEWLINE ∉ line) (hturns : stdin.length < turns)
    (hquits : ∃ line ∈ sent false stdin, IsQuit line)
    (hrun : Machine.run attend ⟨s, replies⟩ (asking env (beforeQuit stdin)) = some t)
    (hbye : (t.server.quit (env (beforeQuit stdin).length).1).2 = .ok (ascii "BYE"))
    (hmarks : ∀ reply ∈ t.replies, ¬END <:+: reply) :
    (cli env net turns ⟨s, false, []⟩ stdin).1.server =
        (t.server.quit (env (beforeQuit stdin).length).1).1 ∧
      t.replies.map answered ++ [answered (ascii "BYE")] =
        replies.map answered ++ rounds (cli env net turns ⟨s, false, []⟩ stdin).2 := by
  induction turns generalizing env net s stdin replies with
  | zero => exact absurd hturns (Nat.not_lt_zero _)
  | succ turns ih =>
      cases stdin with
      | nil =>
          obtain ⟨line, hline, hquit⟩ := hquits
          obtain rfl : line = [] := List.mem_singleton.mp hline
          exact absurd hquit (by decide)
      | cons line stdin =>
          obtain ⟨hline, hstdin⟩ := List.forall_mem_cons.mp hlines
          have hturns' : stdin.length < turns := by simpa using hturns
          -- a line may ask for help, take the next one for a keyspace, quit, or be sent as it is
          by_cases hhelp : line = ascii "help"
          · subst hhelp
            rw [beforeQuit_help] at hrun hbye ⊢
            rw [sent_help] at hquits
            rw [cli_help, rounds_welcome]
            exact ih net hstdin hturns' hquits hrun hbye
          by_cases huse : line = ascii "use"
          · subst huse
            rw [beforeQuit_use] at hrun hbye ⊢
            rw [sent_use] at hquits
            rw [cli_use, rounds_keyspace]
            exact ih net (fun l hl => hstdin l (List.mem_of_mem_tail hl))
              (lt_of_le_of_lt (by simp) hturns') hquits hrun hbye
          rw [sent_line hhelp huse] at hquits
          by_cases hquit : IsQuit line
          · have hbefore : beforeQuit (line :: stdin) = [] := by
              rw [beforeQuit, sent_line hhelp huse,
                List.takeWhile_cons_of_neg (by simpa using hquit)]
            rw [hbefore] at hrun hbye ⊢
            obtain rfl := Option.some.inj hrun
            have hdispatch : s.dispatcher (env 0).1 (env 0).2 line =
                ((s.quit (env 0).1).1, .ok (ascii "BYE")) := by
              rw [dispatcher_quit hquit]
              exact Prod.ext rfl hbye
            have hclear : ∀ reply, (s.dispatcher (env 0).1 (env 0).2 line).2 = .ok reply →
                ¬END <:+: reply := by
              rw [hdispatch]
              rintro reply ⟨⟩
              decide
            rw [cli_line List.headD_cons hline hhelp huse hclear, hdispatch]
            dsimp only
            rw [if_pos hquit]
            exact ⟨rfl, rfl⟩
          · have hbefore : beforeQuit (line :: stdin) = line :: beforeQuit stdin := by
              rw [beforeQuit, sent_line hhelp huse,
                List.takeWhile_cons_of_pos (by simpa using hquit), beforeQuit]
            rw [hbefore] at hrun hbye ⊢
            -- the request is answered, and its reply comes through whole as it holds no mark
            obtain ⟨u, hstep, hrest⟩ := Machine.run_cons_inv hrun
            obtain ⟨s', reply, hdispatch, rfl⟩ := attend_request_inv hstep
            have hquits' : ∃ line ∈ sent false stdin, IsQuit line := by
              obtain ⟨l, hl, hlquit⟩ := hquits
              rcases List.mem_cons.mp hl with rfl | hl
              · exact absurd hlquit hquit
              · exact ⟨l, hl, hlquit⟩
            have hclear : ∀ reply, (s.dispatcher (env 0).1 (env 0).2 line).2 = .ok reply →
                ¬END <:+: reply := by
              rw [hdispatch]
              rintro reply ⟨⟩
              exact hmarks reply ((replies_prefix_of_run hrest).subset (by simp))
            obtain ⟨hserver, hrounds⟩ :=
              ih (fun n => net (n + 1)) hstdin hturns' hquits' hrest hbye
            rw [cli_line List.headD_cons hline hhelp huse hclear, hdispatch]
            dsimp only
            rw [if_neg hquit]
            refine ⟨hserver, hrounds.trans ?_⟩
            rw [rounds_round, List.map_append, List.append_assoc]
            rfl

end Server

/-! ### Visits -/

/-- A use of the program: what the server is started with and in, the surroundings and the
transfers of the requests, what the user types, and the surroundings in which the server
is destroyed. -/
structure Visit where
  keyspace : Bytes
  start : Env
  env : Nat → Env × Env
  net : Nat → Passage
  stdin : List Bytes
  finish : Env × Env

/-- The requests before the quit. -/
def Visit.requests (v : Visit) : List Server.Action := Server.asking v.env (beforeQuit v.stdin)

/-- The surroundings of the quit. -/
def Visit.quitting (v : Visit) : Env := (v.env (beforeQuit v.stdin).length).1

/-- The files, and what has been shown on the terminals so far. -/
structure Desk where
  fs : Files
  shown : List (List Round)

/-- One visit, `none` if the server cannot be started. -/
def Desk.visit (d : Desk) (v : Visit) : Option Desk :=
  match Server.new v.start d.fs v.keyspace with
  | (_, .error _) => none
  | (_, .ok s) =>
    let (client, shown) := cli v.env v.net (v.stdin.length + 1) ⟨s, false, []⟩ v.stdin
    some ⟨(client.server.destroy v.finish.1 v.finish.2).1, d.shown ++ [rounds shown]⟩

/-- The stores by their names, and the replies of all visits so far. -/
structure Annals where
  stores : Bytes → Store
  replies : List (List Bytes)

/-- The cabinet has another store open, and replies to what is sent. -/
def Annals.visit (l : Annals) (v : Visit) : Annals :=
  let last := v.requests.foldl Ledger.attend ⟨⟨v.keyspace, l.stores⟩, []⟩
  ⟨last.cabinet.stores, l.replies ++ [last.replies]⟩

namespace Visit

open Server

/-- No reply holds the end mark, the quit goes through, and what it and the last two
shutdowns compact is written out under the name of its keyspace. -/
structure Leaves (v : Visit) (t : Served) : Prop where
  unmarked : ∀ reply ∈ t.replies, ¬END <:+: reply
  quitting : t.server.db.ClosesWell v.quitting
  shutdown : ¬DB.ShutdownThrows v.quitting t.server.fs t.server.db
  closes : (t.server.quit v.quitting).1.ClosesIn v.finish.1 v.finish.2

/-- The user quits at some time, and the requests until then are orderly. -/
structure Proper (N : Set Bytes) (d : Desk) (v : Visit) : Prop where
  mem : v.keyspace ∈ N
  replaying : v.start.replaying = false
  lines : ∀ line ∈ v.stdin, NEWLINE ∉ line
  quits : ∃ line ∈ sent false v.stdin, IsQuit line
  orderly : ∀ fs s, Server.new v.start d.fs v.keyspace = (fs, .ok s) →
    Machine.Guarded attend (Orderly N) ⟨s, []⟩ v.requests
  leaves : ∀ fs s t, Server.new v.start d.fs v.keyspace = (fs, .ok s) →
    Machine.run attend ⟨s, []⟩ v.requests = some t → v.Leaves t

end Visit

/-- The logs of all keyspaces stand for what the cabinet has, and the terminals have shown
what it replied. -/
structure Keeps (N : Set Bytes) (d : Desk) (l : Annals) : Prop where
  shown : d.shown = l.replies.map told
  shelves : Shelves d.fs N
  all : Keyspace.AllStand N d.fs l.stores

namespace Server

open Keyspace

variable {N : Set Bytes}

/-- A quit that goes through. -/
theorem quit_of_returns {env : Env} {s : Server} (hcloses : s.db.ClosesWell env)
    (h : ¬DB.ShutdownThrows env s.fs s.db) :
    s.quit env = (⟨(s.db.shutdown env s.fs).1, (s.db.shutdown env s.fs).2.1, false⟩,
      .ok (ascii "BYE")) := by
  obtain ⟨fs, db, heq⟩ : ∃ fs db, s.db.shutdown env s.fs = (fs, db, .ok ()) :=
    ⟨_, _, Prod.ext rfl (Prod.ext rfl ((DB.shutdown_ok_iff _ _ _).mpr ⟨hcloses.not_nameLost, h⟩))⟩
  rw [quit, heq]

theorem Houses.quit {t : Served} {l : Ledger} {env : Env} (h : Houses N t l)
    (hcloses : t.server.db.ClosesWell env)
    (hreturns : ¬DB.ShutdownThrows env t.server.fs t.server.db) :
    ∃ s, t.server.quit env = (s, .ok (ascii "BYE")) ∧
      Shut N l.cabinet.stores l.cabinet.current s.fs s.db :=
  ⟨_, quit_of_returns hcloses hreturns, h.shutdown hcloses⟩

end Server

section Runs

open Server Keyspace

variable {N : Set Bytes}

/-- **One visit** of the program is one of the cabinet. -/
theorem Keeps.visit {d : Desk} {l : Annals} {v : Visit} (h : Keeps N d l) (hv : v.Proper N d) :
    ∃ d', d.visit v = some d' ∧ Keeps N d' (l.visit v) := by
  obtain ⟨-, -, db, hdb, -, -⟩ := h.all.new h.shelves hv.mem hv.replaying
  have hnew : Server.new v.start d.fs v.keyspace =
      ((d.fs.openAppend (aofPath v.keyspace)).1,
        .ok ⟨(d.fs.openAppend (aofPath v.keyspace)).1, db, false⟩) := by
    rw [Server.new, hdb]
  obtain ⟨t, hrun, hhouses⟩ :=
    houses_run h.shelves hv.mem h.all hv.replaying hnew (hv.orderly _ _ hnew)
  have hleaves := hv.leaves _ _ _ hnew hrun
  obtain ⟨s, hquit, hshut⟩ := hhouses.quit hleaves.quitting hleaves.shutdown
  have hcloses := hleaves.closes
  rw [hquit] at hcloses
  -- what the terminal shows, and what it leaves of the server
  obtain ⟨hserver, hrounds⟩ := cli_quit v.net hv.lines (Nat.lt_succ_self _) hv.quits hrun
    (congrArg Prod.snd hquit) hleaves.unmarked
  -- the server has been shut down by the quit when it is destroyed
  obtain ⟨hshelves, hall⟩ :=
    destroy_of_shut (hshut.shutdown hcloses.closes) hcloses
  refine ⟨_, by rw [Desk.visit, hnew], ?_⟩
  rw [hserver, show t.server.quit (v.env (beforeQuit v.stdin).length).1 = _ from hquit]
  exact {
    shown := by
      rw [Annals.visit, List.map_append, h.shown, ← hhouses.replies]
      exact congrArg (_ ++ [·]) hrounds.symm
    shelves := hshelves
    all := hall }

end Runs

end Taproot
