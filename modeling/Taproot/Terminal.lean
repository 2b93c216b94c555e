import Taproot.Answering
import Taproot.Cabinet
import Taproot.Replies

/-!
# Taproot.Terminal

`cli.cpp`: the **loop at the prompt**, over `Client::send` and the server at the
other end.

The program reads a line, answers `help` itself, asks for a keyspace after `use`,
and sends everything else. Only the reply `BYE` ends the loop. A request that the
dispatcher does not come back from closes the connection, and `Client::send` catches
what it then throws: the loop shows an empty reply, to this line and to every later one.
The end of the standard input is not a case of its own either: `getline` leaves the
input empty, and the empty line is sent, again and again (`cli_ends_iff`).

What is asked for at the prompt after `use` stays with the terminal: the server is sent
the other lines, and nothing else, and its replies are shown one by one (`cli_matched`).
-/

namespace Taproot

open Posix Journal Chunks

/-- What the loop does in one turn. -/
inductive Shown
  | welcome
  /-- The answer to the question after `use`. -/
  | keyspace (name : Bytes)
  | round (r : Round)
  /-- A line for a server that has closed the connection. -/
  | lost (response : Bytes)

namespace Shown

/-- What `Client::send` has returned in this turn. -/
def response : Shown → Option Bytes
  | .round r => some r.response
  | .lost response => some response
  | _ => none

end Shown

/-- The turns that the server took part in. -/
def rounds (shown : List Shown) : List Round :=
  shown.filterMap fun
    | .round r => some r
    | _ => none

/-- The replies that are printed, one for each line that is sent. -/
def responses (shown : List Shown) : List Bytes := shown.filterMap Shown.response

@[simp] theorem rounds_nil : rounds [] = [] := rfl
@[simp] theorem rounds_welcome (shown : List Shown) :
    rounds (.welcome :: shown) = rounds shown := rfl
@[simp] theorem rounds_keyspace (name : Bytes) (shown : List Shown) :
    rounds (.keyspace name :: shown) = rounds shown := rfl
@[simp] theorem rounds_round (r : Round) (shown : List Shown) :
    rounds (.round r :: shown) = r :: rounds shown := rfl
@[simp] theorem rounds_lost (response : Bytes) (shown : List Shown) :
    rounds (.lost response :: shown) = rounds shown := rfl

@[simp] theorem responses_nil : responses [] = [] := rfl
@[simp] theorem responses_welcome (shown : List Shown) :
    responses (.welcome :: shown) = responses shown := rfl
@[simp] theorem responses_keyspace (name : Bytes) (shown : List Shown) :
    responses (.keyspace name :: shown) = responses shown := rfl
@[simp] theorem responses_round (r : Round) (shown : List Shown) :
    responses (.round r :: shown) = r.response :: responses shown := rfl
@[simp] theorem responses_lost (response : Bytes) (shown : List Shown) :
    responses (.lost response :: shown) = response :: responses shown := rfl

/-- The lines that are sent; `asking` is the answer to `use` still to come. At the
end of the input a blank line is. -/
def sent (asking : Bool) : List Bytes → List Bytes
  | [] => [[]]
  | line :: stdin =>
    if asking then sent false stdin
    else if line = ascii "help" then sent false stdin
    else if line = ascii "use" then sent true stdin
    else line :: sent false stdin

theorem sent_help (stdin : List Bytes) :
    sent false (ascii "help" :: stdin) = sent false stdin := rfl

theorem sent_use (stdin : List Bytes) :
    sent false (ascii "use" :: stdin) = sent false stdin.tail := by
  cases stdin with
  | nil => rfl
  | cons name stdin => rfl

theorem sent_line {line : Bytes} (hhelp : line ≠ ascii "help") (huse : line ≠ ascii "use")
    (stdin : List Bytes) : sent false (line :: stdin) = line :: sent false stdin := by
  rw [sent, if_neg Bool.false_ne_true, if_neg hhelp, if_neg huse]

/-- How a line and its reply are transferred, and whether a connection that the server has
closed fails outright: what is unread on it cannot be read then. -/
structure Passage extends Transfer where
  fails : Bool

/-- The connection of a client: the server at its other end, whether that has closed it,
and what is still to be read. -/
structure Connection where
  server : Server
  closed : Bool
  unread : Bytes

namespace Client

/-- What `send` returns on a connection that the server has closed, and what it leaves
there: `read_until` throws if no whole reply is left, and so may the write before. -/
def sendClosed (p : Passage) (unread : Bytes) : Bytes × Bytes :=
  if p.fails then ([], unread)
  else
    let (response, rest) := receive (p.reply.reads unread)
    (response, rest.flatten)

/-- `Client::send`, and what the server does meanwhile. The thread of the server that
serves this client ends with the first request that the dispatcher does not come back
from, and closes the connection. -/
def send (env : Nat → Env × Env) (p : Passage) (c : Connection) (input : Bytes) :
    Connection × Shown :=
  if c.closed then
    let (response, unread) := sendClosed p c.unread
    ({ c with unread }, .lost response)
  else
    match c.server.handleClient env (p.request.reads (input ++ ascii "\n")) with
    -- not of a line: it comes with its newline
    | (server, []) => ({ c with server }, .lost [])
    | (server, (_, .error e) :: _) =>
      let (response, unread) := sendClosed p c.unread
      (⟨server, true, unread⟩, .round ⟨.error e, response, unread⟩)
    | (server, (request, .ok reply) :: exchanges) =>
      let (response, rest) :=
        receive (p.reply.reads (c.unread ++ Server.written ((request, .ok reply) :: exchanges)))
      (⟨server, false, rest.flatten⟩, .round ⟨.ok reply, response, rest.flatten⟩)

/-- From a connection that is closed nothing is received. -/
theorem receive_nothing (split : Split) : receive (split.reads []) = ([], []) := by
  rw [receive, readBody, readUntil_eq_none]
  rw [split.flatten_reads]
  decide

theorem sendClosed_nothing (p : Passage) : sendClosed p [] = ([], []) := by
  rw [sendClosed, receive_nothing]
  exact ite_self _

/-- A server that has closed the connection is not reached any more. -/
theorem send_closed (env : Nat → Env × Env) (p : Passage) (s : Server) (input : Bytes) :
    send env p ⟨s, true, []⟩ input = (⟨s, true, []⟩, .lost []) := by
  rw [send, if_pos rfl, sendClosed_nothing]

/-- A line is one request. -/
theorem send_line {line : Bytes} (h : NEWLINE ∉ line) (env : Nat → Env × Env) (p : Passage)
    (s : Server) (unread : Bytes) :
    send env p ⟨s, false, unread⟩ line =
      match s.dispatcher (env 0).1 (env 0).2 line with
      | (s, .error e) =>
        let received := sendClosed p unread
        (⟨s, true, received.2⟩, .round ⟨.error e, received.1, received.2⟩)
      | (s, .ok reply) =>
        let received := receive (p.reply.reads (unread ++ (reply ++ END)))
        (⟨s, false, received.2.flatten⟩, .round ⟨.ok reply, received.1, received.2.flatten⟩) := by
  rw [send, if_neg Bool.false_ne_true, Server.handleClient_line h]
  cases hdispatch : s.dispatcher (env 0).1 (env 0).2 line with
  | mk s' returned =>
      cases returned with
      | error e => rfl
      | ok reply => simp [Server.written]

/-- A reply that does not hold the end mark is received as it was sent. -/
theorem send_clear {env : Nat → Env × Env} {s : Server} {line : Bytes} (h : NEWLINE ∉ line)
    (hclear : ∀ reply, (s.dispatcher (env 0).1 (env 0).2 line).2 = .ok reply → ¬END <:+: reply)
    (p : Passage) :
    send env p ⟨s, false, []⟩ line =
      match s.dispatcher (env 0).1 (env 0).2 line with
      | (s, .error e) => (⟨s, true, []⟩, .round ⟨.error e, [], []⟩)
      | (s, .ok reply) => (⟨s, false, []⟩, .round ⟨.ok reply, reply, []⟩) := by
  rw [send_line h]
  cases hdispatch : s.dispatcher (env 0).1 (env 0).2 line with
  | mk s' returned =>
      cases returned with
      | error e =>
          dsimp only
          rw [sendClosed_nothing]
      | ok reply =>
          obtain ⟨hresponse, hunread⟩ := (receive_iff p.reply reply).mpr
            (hclear reply (congrArg Prod.snd hdispatch))
          dsimp only
          rw [List.nil_append, hresponse, hunread]

end Client

/-- The first `turns` turns of the loop of `cli`, with the standard input `stdin`. -/
def cli (env : Nat → Env × Env) (net : Nat → Passage) :
    Nat → Connection → List Bytes → Connection × List Shown
  | 0, client, _ => (client, [])
  | turns + 1, client, stdin =>
    let input := stdin.headD []
    if input = ascii "help" then
      let (client, shown) := cli env net turns client stdin.tail
      (client, .welcome :: shown)
    else if input = ascii "use" then
      let (client, shown) := cli env net turns client stdin.tail.tail
      (client, .keyspace (stdin.tail.headD []) :: shown)
    else
      let (client, turn) := Client.send env (net 0) client input
      if turn.response = some (ascii "BYE") then (client, [turn])
      else
        let (client, shown) :=
          cli (fun n => env (n + 1)) (fun n => net (n + 1)) turns client stdin.tail
        (client, turn :: shown)

section Turns

variable {env : Nat → Env × Env} {net : Nat → Passage} {c : Connection} {s : Server}
  {stdin : List Bytes} {turns : Nat}

/-! ### The turns -/

theorem cli_help (env : Nat → Env × Env) (net : Nat → Passage) (c : Connection) (turns : Nat)
    (stdin : List Bytes) :
    cli env net (turns + 1) c (ascii "help" :: stdin) =
      ((cli env net turns c stdin).1, .welcome :: (cli env net turns c stdin).2) := rfl

theorem cli_use (env : Nat → Env × Env) (net : Nat → Passage) (c : Connection) (turns : Nat)
    (stdin : List Bytes) :
    cli env net (turns + 1) c (ascii "use" :: stdin) =
      ((cli env net turns c stdin.tail).1,
        .keyspace (stdin.headD []) :: (cli env net turns c stdin.tail).2) := rfl

/-- The line that the next turn reads is sent. -/
theorem cli_send {input : Bytes} (hstdin : stdin.headD [] = input) (hhelp : input ≠ ascii "help")
    (huse : input ≠ ascii "use") (env : Nat → Env × Env) (net : Nat → Passage) (c : Connection)
    (turns : Nat) :
    cli env net (turns + 1) c stdin =
      if (Client.send env (net 0) c input).2.response = some (ascii "BYE") then
        ((Client.send env (net 0) c input).1, [(Client.send env (net 0) c input).2])
      else
        let next := cli (fun n => env (n + 1)) (fun n => net (n + 1)) turns
          (Client.send env (net 0) c input).1 stdin.tail
        (next.1, (Client.send env (net 0) c input).2 :: next.2) := by
  rw [cli]
  simp only [hstdin, if_neg hhelp, if_neg huse]

/-! ### Farewells -/

namespace Server

theorem framed_ne_bye (body : Bytes) : DB.framed body ≠ ascii "BYE" := by
  intro h
  exact absurd (congrArg List.head? h) (by simp [DB.framed, ascii])

/-- A printed vector ends with a newline. -/
theorem printVector_ne_bye {vector : List Bytes} (h : vector ≠ []) :
    printVector vector ≠ ascii "BYE" := by
  obtain ⟨elems, elem, rfl⟩ := (List.eq_nil_or_concat vector).resolve_left h
  intro hbye
  have hlast := congrArg List.getLast? hbye
  rw [List.concat_eq_append, printVector, List.flatMap_append, List.flatMap_singleton,
    ← List.append_assoc, List.getLast?_concat] at hlast
  exact absurd hlast (by decide)

theorem reply_ne_bye (env : Env) (db : DB) (input : Bytes) : db.reply env input ≠ ascii "BYE" := by
  rw [DB.reply]
  split
  · exact framed_ne_bye _
  split
  · decide
  split
  · exact framed_ne_bye _
  split
  · exact framed_ne_bye _
  split
  · exact framed_ne_bye _
  split
  · decide
  · next hanswer => exact printVector_ne_bye hanswer

theorem dispatcher_quit {input : Bytes} (h : IsQuit input) (env env' : Env) (s : Server) :
    s.dispatcher env env' input = s.quit env := by
  rcases h with rfl | rfl <;> rfl

/-- The server says `BYE` to those who quit, and to nobody else. -/
theorem dispatcher_bye_iff {env env' : Env} {input reply : Bytes}
    (h : (s.dispatcher env env' input).2 = .ok reply) : reply = ascii "BYE" ↔ IsQuit input := by
  by_cases hquit : IsQuit input
  · refine iff_of_true ?_ hquit
    rw [dispatcher_quit hquit, quit] at h
    split at h
    · exact absurd h (by simp)
    · exact (Except.ok.inj h).symm
  · refine iff_of_false (fun hbye => ?_) hquit
    subst hbye
    by_cases htokens : tokens input = []
    · rw [dispatcher_blank htokens] at h
      exact absurd h (by simp)
    by_cases huse : ∃ name, tokens input = [ascii "use", name]
    · obtain ⟨name, hname⟩ := huse
      rw [dispatcher_use hname] at h
      rcases useKeyspace_inv (Prod.ext rfl h) with
        ⟨-, what, hreply⟩ | ⟨_, _, _, _, _, _, _, _, hreply⟩
      · exact absurd (congrArg List.head? hreply) (by simp [switchError, ascii])
      · exact absurd (congrArg List.head? hreply) (by simp [ascii])
    by_cases hexecutes : s.db.Executes env.staleName (tokens input)
    · rw [dispatcher_eq _ _ _ htokens hquit (fun name hname => huse ⟨name, hname⟩) hexecutes] at h
      exact reply_ne_bye _ _ _ (Except.ok.inj h)
    -- a command that it does not come back from is not answered, and no other request is left
    rcases dispatcher_cases env env' s input with
      h' | ⟨-, hdispatch⟩ | ⟨h', -⟩ | ⟨h', -⟩ | ⟨-, hdispatch⟩ | ⟨h', -⟩
    · exact huse h'
    · rw [hdispatch] at h
      exact absurd (Except.ok.inj h) (by decide)
    · exact hquit h'
    · exact hexecutes h'
    · rw [hdispatch] at h
      exact absurd h (by simp)
    · have hlength : (tokens input).length = 1 := by
        rcases h'.resolve_left htokens with rfl | rfl | rfl | rfl <;> decide
      exact hexecutes (DB.executes_of_records_nil (commandRecords_of_length_one hlength) _ _)

end Server

/-! ### Whole terminals -/

/-- A line whose reply does not hold the end mark: the terminal ends with a quit that is
answered, and goes on with nothing unread after everything else. -/
theorem cli_line {input : Bytes} (hstdin : stdin.headD [] = input) (hinput : NEWLINE ∉ input)
    (hhelp : input ≠ ascii "help") (huse : input ≠ ascii "use")
    (hclear : ∀ reply, (s.dispatcher (env 0).1 (env 0).2 input).2 = .ok reply → ¬END <:+: reply)
    (net : Nat → Passage) (turns : Nat) :
    cli env net (turns + 1) ⟨s, false, []⟩ stdin =
      match s.dispatcher (env 0).1 (env 0).2 input with
      | (s, .error e) =>
        let next := cli (fun n => env (n + 1)) (fun n => net (n + 1)) turns ⟨s, true, []⟩ stdin.tail
        (next.1, .round ⟨.error e, [], []⟩ :: next.2)
      | (s, .ok reply) =>
        if Server.IsQuit input then (⟨s, false, []⟩, [.round ⟨.ok reply, reply, []⟩])
        else
          let next :=
            cli (fun n => env (n + 1)) (fun n => net (n + 1)) turns ⟨s, false, []⟩ stdin.tail
          (next.1, .round ⟨.ok reply, reply, []⟩ :: next.2) := by
  rw [cli_send hstdin hhelp huse, Client.send_clear hinput hclear]
  cases hdispatch : s.dispatcher (env 0).1 (env 0).2 input with
  | mk s' returned =>
      cases returned with
      | error e => exact if_neg (show some [] ≠ some (ascii "BYE") by decide)
      | ok reply =>
          have hbye : some reply = some (ascii "BYE") ↔ Server.IsQuit input :=
            Option.some_inj.trans (Server.dispatcher_bye_iff (congrArg Prod.snd hdispatch))
          exact if_congr hbye rfl rfl

/-- Once the server has closed the connection, the loop goes on, and shows nothing. -/
theorem cli_closed (env : Nat → Env × Env) (net : Nat → Passage) (turns : Nat) (s : Server)
    (stdin : List Bytes) :
    let result := cli env net turns ⟨s, true, []⟩ stdin
    result.1 = ⟨s, true, []⟩ ∧ result.2.length = turns ∧ rounds result.2 = [] ∧
      ∀ response ∈ responses result.2, response = [] := by
  induction turns generalizing env net stdin with
  | zero => exact ⟨rfl, rfl, rfl, by simp [cli]⟩
  | succ turns ih =>
      dsimp only
      rw [cli]
      split
      · obtain ⟨hc, hlength, hrounds, hresponses⟩ := ih env net stdin.tail
        exact ⟨hc, congrArg (· + 1) hlength, hrounds, hresponses⟩
      split
      · obtain ⟨hc, hlength, hrounds, hresponses⟩ := ih env net stdin.tail.tail
        exact ⟨hc, congrArg (· + 1) hlength, hrounds, hresponses⟩
      · obtain ⟨hc, hlength, hrounds, hresponses⟩ :=
          ih (fun n => env (n + 1)) (fun n => net (n + 1)) stdin.tail
        rw [Client.send_closed]
        dsimp only
        rw [if_neg (show ¬(Shown.lost []).response = some (ascii "BYE") by decide)]
        exact ⟨hc, congrArg (· + 1) hlength, hrounds, List.forall_mem_cons.mpr ⟨rfl, hresponses⟩⟩

namespace Server

/-- One of the lines quits, and it and all lines before it are answered. -/
def Dismisses (env : Nat → Env × Env) (s : Server) : List Bytes → Prop
  | [] => False
  | line :: lines =>
    match s.dispatcher (env 0).1 (env 0).2 line with
    | (_, .error _) => False
    | (s, .ok _) => IsQuit line ∨ s.Dismisses (fun n => env (n + 1)) lines

/-- A blank line is not answered. -/
theorem not_dismisses_blank (env : Nat → Env × Env) (s : Server) : ¬s.Dismisses env [[]] := by
  have hblank : (s.dispatcher (env 0).1 (env 0).2 []).2 = .error .undefinedBehaviour :=
    dispatcher_blank (by decide)
  rw [Dismisses]
  split
  · exact not_false
  · next heq => rw [heq] at hblank; exact absurd hblank (by simp)

/-- A reply holds the end mark only if a text that is printed does. -/
theorem not_infix_reply {env env' : Env} {input : Bytes}
    (h : ∀ text ∈ s.printed env input, ¬END <:+: text) (reply : Bytes)
    (hreply : (s.dispatcher env env' input).2 = .ok reply) : ¬END <:+: reply := by
  intro hinside
  obtain ⟨text, htext, hmark⟩ :=
    (infix_reply_iff env env' s input).mp ⟨reply, hreply, hinside⟩
  exact h text htext hmark

/-- Neither a put nor a blank line is answered with a text of the state. -/
theorem unmarked_put :
    started.Unmarked (fun _ => (Env.calm, Env.calm)) [ascii "put k 1", []] := by
  obtain ⟨s', hput⟩ : ∃ s', started.dispatcher Env.calm Env.calm (ascii "put k 1") = (s', .ok []) :=
    ⟨_, rfl⟩
  have hblank : (s'.dispatcher Env.calm Env.calm []).2 = .error .undefinedBehaviour :=
    dispatcher_blank (by decide)
  have hnothing : started.printed Env.calm (ascii "put k 1") = [] := rfl
  have hnothing' : s'.printed Env.calm [] = [] := rfl
  rw [Unmarked, hnothing, hput]
  refine ⟨fun _ h => absurd h List.not_mem_nil, Or.inr ?_⟩
  rw [Unmarked, hnothing']
  refine ⟨fun _ h => absurd h List.not_mem_nil, ?_⟩
  split
  · trivial
  · next heq => rw [heq] at hblank; exact absurd hblank (by simp)

/-- A quit of a new keyspace: there is nothing to compact, and the snapshot is short. -/
theorem dispatcher_quit_started : ∃ s',
    started.dispatcher Env.calm Env.calm (ascii "quit") = (s', .ok (ascii "BYE")) := by
  have hshutdown : (started.db.shutdown Env.calm started.fs).2.2 = .ok () := by
    have hsound : started.db.logger.Sound := (Keyspace.attached_fresh (ascii "a")).sound
    have hskips : Log.Skips started.db.store (started.db.dirty % SIZE_MOD) := Or.inl (Nat.le_refl 0)
    have hempty : started.db.store = ∅ := rfl
    refine DB.shutdown_ok hsound (fun h => absurd hskips h) ?_
    rw [hempty]
    exact (serialize_empty Env.calm).trans_le (by decide)
  rw [dispatcher_quit (Or.inl rfl), quit]
  split
  · next heq => rw [heq] at hshutdown; exact absurd hshutdown (by simp)
  · exact ⟨_, rfl⟩

end Server

/-- The turns of a terminal: those up to a quit that is answered, else all there can be. -/
theorem length_cli (net : Nat → Passage) (turns : Nat) (hlines : ∀ line ∈ stdin, NEWLINE ∉ line)
    (hunmarked : s.Unmarked env (sent false stdin)) :
    (s.Dismisses env (sent false stdin) → stdin.length < turns →
      (cli env net turns ⟨s, false, []⟩ stdin).2.length ≤ stdin.length) ∧
    (¬s.Dismisses env (sent false stdin) →
      (cli env net turns ⟨s, false, []⟩ stdin).2.length = turns) := by
  induction turns generalizing env net s stdin with
  | zero => exact ⟨fun _ h => absurd h (Nat.not_lt_zero _), fun _ => rfl⟩
  | succ turns ih =>
      cases stdin with
      | nil =>
          have hblank : (s.dispatcher (env 0).1 (env 0).2 []).2 = .error .undefinedBehaviour :=
            Server.dispatcher_blank (by decide)
          refine ⟨fun h _ => absurd h (Server.not_dismisses_blank env s), fun _ => ?_⟩
          rw [cli_line List.headD_nil (by simp) (by decide) (by decide) (by simp [hblank])]
          split
          · exact congrArg (· + 1) (cli_closed _ _ turns _ _).2.1
          · next heq => rw [heq] at hblank; exact absurd hblank (by simp)
      | cons line stdin =>
          obtain ⟨hline, hstdin⟩ := List.forall_mem_cons.mp hlines
          by_cases hhelp : line = ascii "help"
          · subst hhelp
            rw [sent_help] at hunmarked ⊢
            rw [cli_help]
            obtain ⟨hends, hgoes⟩ := ih net hstdin hunmarked
            exact ⟨fun h hturns => Nat.succ_le_succ (hends h (Nat.lt_of_succ_lt_succ hturns)),
              fun h => congrArg (· + 1) (hgoes h)⟩
          by_cases huse : line = ascii "use"
          · subst huse
            rw [sent_use] at hunmarked ⊢
            rw [cli_use]
            obtain ⟨hends, hgoes⟩ :=
              ih net (fun l hl => hstdin l (List.mem_of_mem_tail hl)) hunmarked
            have htail : stdin.tail.length ≤ stdin.length := by simp
            exact ⟨fun h hturns => Nat.succ_le_succ
                ((hends h (htail.trans_lt (Nat.lt_of_succ_lt_succ hturns))).trans htail),
              fun h => congrArg (· + 1) (hgoes h)⟩
          rw [sent_line hhelp huse] at hunmarked ⊢
          obtain ⟨htexts, hrest⟩ := hunmarked
          rw [cli_line List.headD_cons hline hhelp huse (Server.not_infix_reply htexts),
            Server.Dismisses]
          cases hdispatch : s.dispatcher (env 0).1 (env 0).2 line with
          | mk s' returned =>
              rw [hdispatch] at hrest
              cases returned with
              | error e =>
                  exact ⟨False.elim,
                    fun _ => congrArg (· + 1) (cli_closed _ _ turns s' stdin).2.1⟩
              | ok reply =>
                  dsimp only
                  by_cases hquit : Server.IsQuit line
                  · rw [if_pos hquit]
                    exact ⟨fun _ _ => by simp, fun h => absurd (Or.inl hquit) h⟩
                  · rw [if_neg hquit]
                    obtain ⟨hends, hgoes⟩ := ih _ hstdin (hrest.resolve_left hquit)
                    exact ⟨fun h hturns => Nat.succ_le_succ
                        (hends (h.resolve_left hquit) (Nat.lt_of_succ_lt_succ hturns)),
                      fun h => congrArg (· + 1) (hgoes fun hlater => h (Or.inr hlater))⟩

/-- **When the terminal ends**: if no text of the state that is printed holds the end mark,
it does if and only if a line that is sent quits, and it and all before it are answered;
after one turn for each line at most. Otherwise it goes on, beyond the end of its input. -/
theorem cli_ends_iff (env : Nat → Env × Env) (net : Nat → Passage) (s : Server)
    (hlines : ∀ line ∈ stdin, NEWLINE ∉ line) (hunmarked : s.Unmarked env (sent false stdin)) :
    (s.Dismisses env (sent false stdin) →
      (cli env net (stdin.length + 1) ⟨s, false, []⟩ stdin).2.length ≤ stdin.length) ∧
    (¬s.Dismisses env (sent false stdin) →
      ∀ turns, (cli env net turns ⟨s, false, []⟩ stdin).2.length = turns) :=
  ⟨fun h => (length_cli net _ hlines hunmarked).1 h (Nat.lt_succ_self _),
    fun h turns => (length_cli net turns hlines hunmarked).2 h⟩

/-- A user who names a keyspace at the prompt, and quits; and one who never does. -/
theorem cli_ends_iff_quit :
    (cli (fun _ => (Env.calm, Env.calm)) (fun _ => ⟨⟨.whole, .whole⟩, false⟩) 4
      ⟨Server.started, false, []⟩ [ascii "use", ascii "b", ascii "quit"]).2.length ≤ 3 ∧
    ∀ turns, (cli (fun _ => (Env.calm, Env.calm)) (fun _ => ⟨⟨.whole, .whole⟩, false⟩) turns
      ⟨Server.started, false, []⟩ [ascii "put k 1"]).2.length = turns := by
  have hquits : sent false [ascii "use", ascii "b", ascii "quit"] = [ascii "quit", []] := by decide
  have hputs : sent false [ascii "put k 1"] = [ascii "put k 1", []] := by decide
  obtain ⟨s', hquit⟩ := Server.dispatcher_quit_started
  have hunmarked : Server.started.Unmarked (fun _ => (Env.calm, Env.calm)) [ascii "quit", []] := by
    rw [Server.Unmarked, hquit]
    exact ⟨fun _ h => absurd h List.not_mem_nil, Or.inl (Or.inl rfl)⟩
  have hdismisses :
      Server.started.Dismisses (fun _ => (Env.calm, Env.calm)) [ascii "quit", []] := by
    rw [Server.Dismisses, hquit]
    exact Or.inl (Or.inl rfl)
  have hgoes : ¬Server.started.Dismisses (fun _ => (Env.calm, Env.calm)) [ascii "put k 1", []] := by
    obtain ⟨s', hput⟩ : ∃ s',
        Server.started.dispatcher Env.calm Env.calm (ascii "put k 1") = (s', .ok []) := ⟨_, rfl⟩
    rw [Server.Dismisses, hput]
    exact fun h => Server.not_dismisses_blank _ s' (h.resolve_left (by decide))
  rw [← hquits] at hunmarked hdismisses
  rw [← hputs] at hgoes
  exact ⟨(cli_ends_iff _ _ Server.started (by decide) hunmarked).1 hdismisses,
    (cli_ends_iff _ _ Server.started (by decide) (hputs ▸ Server.unmarked_put)).2 hgoes⟩

/-- **The terminal adds nothing and drops nothing**: if no text of the state that is
printed holds the end mark, the server takes part in one turn for each line that is sent,
and what is printed are the replies of the dispatcher, each to its own line, and then
empty ones. -/
theorem cli_matched (env : Nat → Env × Env) (net : Nat → Passage) (s : Server)
    (hlines : ∀ line ∈ stdin, NEWLINE ∉ line) (hturns : stdin.length < turns)
    (hunmarked : s.Unmarked env (sent false stdin)) :
    let shown := (cli env net turns ⟨s, false, []⟩ stdin).2
    let replies := s.matched env (sent false stdin)
    rounds shown = replies ∧
      ∃ n, responses shown = replies.map Round.response ++ List.replicate n [] := by
  induction turns generalizing env net s stdin with
  | zero => exact absurd hturns (Nat.not_lt_zero _)
  | succ turns ih =>
      intro shown replies
      -- after a request that is not answered, whatever else is sent
      have hlost (e : Fault) (env : Nat → Env × Env) (net : Nat → Passage) (s' : Server)
          (rest : List Bytes) :
          let shown := (cli env net turns ⟨s', true, []⟩ rest).2
          let turn : Round := ⟨.error e, [], []⟩
          rounds (.round turn :: shown) = [turn] ∧ ∃ n, responses (.round turn :: shown) =
            [turn].map Round.response ++ List.replicate n [] := by
        obtain ⟨-, -, hrounds, hresponses⟩ := cli_closed env net turns s' rest
        exact ⟨congrArg (_ :: ·) hrounds, _,
          congrArg (_ :: ·) (List.eq_replicate_of_mem hresponses)⟩
      cases stdin with
      | nil =>
          have hblank : (s.dispatcher (env 0).1 (env 0).2 []).2 = .error .undefinedBehaviour :=
            Server.dispatcher_blank (by decide)
          simp only [shown, replies]
          rw [cli_line List.headD_nil (by simp) (by decide) (by decide) (by simp [hblank]), sent,
            Server.matched]
          cases hdispatch : s.dispatcher (env 0).1 (env 0).2 ([] : Bytes) with
          | mk s' returned =>
              rw [hdispatch] at hblank
              obtain rfl : returned = .error .undefinedBehaviour := hblank
              exact hlost _ _ _ s' _
      | cons line stdin =>
          obtain ⟨hline, hstdin⟩ := List.forall_mem_cons.mp hlines
          have hturns' : stdin.length < turns := by simpa using hturns
          simp only [shown, replies]
          by_cases hhelp : line = ascii "help"
          · subst hhelp
            rw [sent_help] at hunmarked ⊢
            rw [cli_help]
            exact ih env net s hstdin hturns' hunmarked
          by_cases huse : line = ascii "use"
          · subst huse
            rw [sent_use] at hunmarked ⊢
            rw [cli_use]
            exact ih env net s (fun l hl => hstdin l (List.mem_of_mem_tail hl))
              (lt_of_le_of_lt (by simp) hturns') hunmarked
          rw [sent_line hhelp huse] at hunmarked ⊢
          obtain ⟨htexts, hrest⟩ := hunmarked
          rw [cli_line List.headD_cons hline hhelp huse (Server.not_infix_reply htexts),
            Server.matched]
          cases hdispatch : s.dispatcher (env 0).1 (env 0).2 line with
          | mk s' returned =>
              cases returned with
              | error e => exact hlost e _ _ s' _
              | ok reply =>
                  rw [hdispatch] at hrest
                  dsimp only
                  by_cases hquit : Server.IsQuit line
                  · rw [if_pos hquit, if_pos hquit]
                    exact ⟨rfl, 0, rfl⟩
                  · rw [if_neg hquit, if_neg hquit]
                    obtain ⟨hrounds, n, hresponses⟩ :=
                      ih (fun n => env (n + 1)) (fun n => net (n + 1)) s' hstdin hturns'
                        (hrest.resolve_left hquit)
                    exact ⟨congrArg (_ :: ·) hrounds, n, congrArg (_ :: ·) hresponses⟩

/-- Of the four lines one is sent, and then blank ones, for as long as one looks. -/
theorem cli_matched_put :
    let shown := (cli (fun _ => (Env.calm, Env.calm)) (fun _ => ⟨⟨.whole, .whole⟩, false⟩) 9
      ⟨Server.started, false, []⟩ [ascii "help", ascii "use", ascii "b", ascii "put k 1"]).2
    let replies := Server.started.matched (fun _ => (Env.calm, Env.calm)) [ascii "put k 1", []]
    rounds shown = replies ∧
      ∃ n, responses shown = replies.map Round.response ++ List.replicate n [] :=
  cli_matched _ _ Server.started (by decide) (by decide) Server.unmarked_put

end Turns

end Taproot
