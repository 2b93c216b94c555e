import Taproot.Framing
import Taproot.Printing

/-!
# Taproot.Replies

`client.cpp`: `Client::send`, and the **session** of one client with the server.

A client sends a command when it has the reply to the one before. What arrives
on either side is split into reads in any way. A reply is read up to the first
end mark, and a mark in the reply itself is as good as the one behind it: the
response is cut short there, and what comes after it is either dropped or left to
be read as part of a later reply (`session_eq_matched_iff`).
-/

namespace Taproot

open Posix Journal Words Chunks

/-! ### The two programs -/

/-- How what is sent over a socket is split into reads. -/
structure Split where
  reads : Bytes → List Bytes
  flatten_reads (bytes : Bytes) : (reads bytes).flatten = bytes

/-- Everything arrives in one read. -/
def Split.whole : Split := ⟨fun bytes => [bytes], fun bytes => by simp⟩

/-- The splits of a request and of what is to be read after it. -/
structure Transfer where
  request : Split
  reply : Split

/-- The second half of `Client::send`: what it returns, and the reads that it
leaves in the socket. -/
def Client.receive (reads : List Bytes) : Bytes × List Bytes := readBody END reads

/-- A reply is received as it was sent, and nothing is left, exactly if it does not
hold the end mark. -/
theorem Client.receive_iff (split : Split) (reply : Bytes) :
    (receive (split.reads (reply ++ END))).1 = reply ∧
        (receive (split.reads (reply ++ END))).2.flatten = [] ↔ ¬END <:+: reply :=
  readBody_iff (by decide : (69 : UInt8) ∉ ascii "ND\n") (split.flatten_reads (reply ++ END))

/-- What a command came to: what the dispatcher returned, what `Client::send`
returned, and what is left in the socket. -/
structure Round where
  returned : Except Fault Bytes
  response : Bytes
  unread : Bytes
  deriving DecidableEq

namespace Server

/-- What `Server::handleClient` writes to its socket. -/
def written (exchanges : List (Bytes × Except Fault Bytes)) : Bytes :=
  exchanges.flatMap fun exchange =>
    match exchange.2 with
    | .ok response => response ++ END
    | .error _ => []

/-- The commands of a client, one after the other, up to one that ends the server
or makes the dispatcher throw. -/
def session (env : Nat → Env × Env) (net : Nat → Transfer) (s : Server) (unread : Bytes) :
    List Bytes → List Round
  | [] => []
  | command :: commands =>
    match s.handleClient env ((net 0).request.reads (command ++ ascii "\n")) with
    | (_, []) => []
    | (s, (input, returned) :: exchanges) =>
      let (response, rest) := Client.receive
        ((net 0).reply.reads (unread ++ written ((input, returned) :: exchanges)))
      ⟨returned, response, rest.flatten⟩ ::
        match returned with
        | .error _ => []
        | .ok _ =>
          if IsQuit command then []
          else
            s.session (fun n => env (n + 1)) (fun n => net (n + 1)) rest.flatten commands

/-! ### Matched sessions -/

/-- The session in which every response is what the dispatcher returned, and
nothing is left. If it throws, the socket is closed and the response is empty. -/
def matched (env : Nat → Env × Env) (s : Server) : List Bytes → List Round
  | [] => []
  | command :: commands =>
    match s.dispatcher (env 0).1 (env 0).2 command with
    | (_, .error e) => [⟨.error e, [], []⟩]
    | (s, .ok reply) =>
      ⟨.ok reply, reply, []⟩ ::
        if IsQuit command then [] else s.matched (fun n => env (n + 1)) commands

/-- No text of the state that a command of the session prints, in the state that it
finds, holds the end mark. -/
def Unmarked (env : Nat → Env × Env) (s : Server) : List Bytes → Prop
  | [] => True
  | command :: commands =>
    (∀ text ∈ s.printed (env 0).1 command, ¬END <:+: text) ∧
      match s.dispatcher (env 0).1 (env 0).2 command with
      | (_, .error _) => True
      | (s, .ok _) => IsQuit command ∨ s.Unmarked (fun n => env (n + 1)) commands

variable {env : Nat → Env × Env} {s : Server} {command : Bytes}

/-- A line is one request, however it is split. -/
theorem handleClient_line (h : NEWLINE ∉ command) (split : Split) :
    s.handleClient env (split.reads (command ++ ascii "\n")) =
      ((s.dispatcher (env 0).1 (env 0).2 command).1,
        [(command, (s.dispatcher (env 0).1 (env 0).2 command).2)]) := by
  have hmark : ascii "\n" <:+: [] ++ (split.reads (command ++ ascii "\n")).flatten := by
    rw [split.flatten_reads]
    exact ⟨command, [], List.append_nil _⟩
  obtain ⟨buffer, rest, hread, hbuffer, hflatten⟩ := readUntil_of_isInfix hmark
  rw [List.nil_append, split.flatten_reads] at hflatten
  -- the newline is at the end of the line, so that nothing is left
  obtain ⟨a, b, rfl⟩ := hbuffer
  obtain ⟨hline, hrest⟩ : a = command ∧ b ++ rest.flatten = [] := by
    rw [List.append_assoc, List.append_assoc] at hflatten
    rcases List.append_eq_append_iff.mp hflatten with ⟨c, rfl, hc⟩ | ⟨c, rfl, hc⟩
    · cases c with
      | nil => exact ⟨(List.append_nil a).symm, (List.cons.inj hc).2⟩
      | cons x c =>
          obtain rfl : NEWLINE = x := (List.cons.inj hc).1
          exact absurd (by simp) h
    · have hlength := congrArg List.length hc
      simp only [List.length_append] at hlength
      obtain rfl : c = [] := List.eq_nil_of_length_eq_zero (by omega)
      refine ⟨List.append_nil command, List.eq_nil_of_length_eq_zero ?_⟩
      rw [List.length_append]
      omega
  obtain ⟨rfl, hnil⟩ := List.append_eq_nil_iff.mp hrest
  have hnone : readUntil (ascii "\n") [] rest = none := by
    refine readUntil_eq_none ?_
    rw [hnil]
    decide
  have hlast (env : Nat → Env × Env) (s : Server) : s.handleClient env rest = (s, []) := by
    unfold handleClient
    split
    · rfl
    · next heq => rw [hnone] at heq; exact absurd heq (by simp)
  have hincoming : firstLine NEWLINE (a ++ ascii "\n" ++ []) = command := by
    rw [List.append_nil, hline]
    exact firstLine_eq h []
  unfold handleClient
  split
  · next heq => rw [hread] at heq; exact absurd heq (by simp)
  · next heq =>
      obtain ⟨rfl, rfl⟩ := Prod.mk.inj (Option.some.inj (hread.symm.trans heq))
      rw [hincoming]
      cases hdispatch : s.dispatcher (env 0).1 (env 0).2 command with
      | mk s' returned =>
          cases returned with
          | error e => simp [hdispatch]
          | ok reply => simp [hdispatch, hlast]

/-- One command of a session that has nothing left to be read. -/
theorem session_cons (h : NEWLINE ∉ command) (env : Nat → Env × Env) (net : Nat → Transfer)
    (s : Server) (commands : List Bytes) :
    s.session env net [] (command :: commands) =
      match s.dispatcher (env 0).1 (env 0).2 command with
      | (_, .error e) => [⟨.error e, [], []⟩]
      | (s, .ok reply) =>
        let received := Client.receive ((net 0).reply.reads (reply ++ END))
        ⟨.ok reply, received.1, received.2.flatten⟩ ::
          if IsQuit command then []
          else
            s.session (fun n => env (n + 1)) (fun n => net (n + 1)) received.2.flatten
              commands := by
  rw [session, handleClient_line h]
  cases hdispatch : s.dispatcher (env 0).1 (env 0).2 command with
  | mk s' returned =>
      cases returned with
      | error e =>
          have hclosed : Client.receive ((net 0).reply.reads []) = ([], []) := by
            rw [Client.receive, readBody, readUntil_eq_none]
            rw [(net 0).reply.flatten_reads]
            decide
          simp [written, hclosed]
      | ok reply => simp [written]

/-- **Replies match requests** exactly if no text of the state that a command of the
session prints holds the end mark. -/
theorem session_eq_matched_iff (env : Nat → Env × Env) (net : Nat → Transfer) (s : Server)
    {commands : List Bytes} (h : ∀ command ∈ commands, NEWLINE ∉ command) :
    s.session env net [] commands = s.matched env commands ↔ s.Unmarked env commands := by
  induction commands generalizing env net s with
  | nil => exact iff_of_true rfl trivial
  | cons command commands ih =>
      have hreply := infix_reply_iff (env 0).1 (env 0).2 s command
      rw [session_cons (h command List.mem_cons_self), matched, Unmarked]
      cases hdispatch : s.dispatcher (env 0).1 (env 0).2 command with
      | mk s' returned =>
          rw [hdispatch] at hreply
          cases returned with
          | error e =>
              -- the socket is closed, and a request that throws prints nothing
              refine iff_of_true rfl ⟨fun text htext hinside => ?_, trivial⟩
              obtain ⟨reply, hok, -⟩ := hreply.mpr ⟨text, htext, hinside⟩
              exact absurd hok (by simp)
          | ok reply =>
              have hmark :
                  END <:+: reply ↔ ∃ text ∈ s.printed (env 0).1 command, END <:+: text := by
                rw [← hreply]
                simp
              have hbody := Client.receive_iff (net 0).reply reply
              dsimp only
              -- a mark inside the reply cuts it there, and the rest stays in the socket
              by_cases hinside : END <:+: reply
              · refine iff_of_false (fun heq => ?_) fun hunmarked => ?_
                · obtain ⟨-, hresponse, hunread⟩ := Round.mk.inj (List.cons.inj heq).1
                  exact hbody.mp ⟨hresponse, hunread⟩ hinside
                · obtain ⟨text, htext, hinside⟩ := hmark.mp hinside
                  exact hunmarked.1 text htext hinside
              · obtain ⟨hresponse, hunread⟩ := hbody.mpr hinside
                have hclear : ∀ text ∈ s.printed (env 0).1 command, ¬END <:+: text :=
                  fun text htext h => hinside (hmark.mpr ⟨text, htext, h⟩)
                rw [hresponse, hunread, List.cons.injEq, and_iff_right rfl, and_iff_right hclear]
                by_cases hquit : IsQuit command
                · rw [if_pos hquit, if_pos hquit]
                  exact iff_of_true rfl (Or.inl hquit)
                · rw [if_neg hquit, if_neg hquit, or_iff_right hquit]
                  exact ih _ _ _ fun c hc => h c (List.mem_cons_of_mem command hc)

/-! ### A value and its reply -/

/-- A server on a new keyspace. -/
noncomputable def started : Server :=
  ⟨(Keyspace.fresh (ascii "a")).fs, (Keyspace.fresh (ascii "a")).db, true⟩

/-- A value that is no end mark comes back. -/
theorem session_eq_matched_get :
    started.session (fun _ => (Env.calm, Env.calm)) (fun _ => ⟨.whole, .whole⟩) []
        [ascii "put k 1", ascii "get k", ascii "quit"] =
      started.matched (fun _ => (Env.calm, Env.calm))
        [ascii "put k 1", ascii "get k", ascii "quit"] := by
  refine (session_eq_matched_iff (fun _ => (Env.calm, Env.calm)) (fun _ => ⟨.whole, .whole⟩)
    started (by decide)).mpr ?_
  obtain ⟨s', hput, hget, hprinted⟩ : ∃ s',
      started.dispatcher Env.calm Env.calm (ascii "put k 1") = (s', .ok []) ∧
      s'.dispatcher Env.calm Env.calm (ascii "get k") = (s', .ok (ascii "1\n")) ∧
      s'.printed Env.calm (ascii "get k") = [ascii "1\n"] := ⟨_, rfl, rfl, rfl⟩
  have hnothing : started.printed Env.calm (ascii "put k 1") = [] := rfl
  have hquit : s'.printed Env.calm (ascii "quit") = [] := rfl
  rw [Unmarked, hnothing, hput]
  refine ⟨fun _ h => absurd h List.not_mem_nil, Or.inr ?_⟩
  rw [Unmarked, hprinted, hget]
  refine ⟨by decide, Or.inr ?_⟩
  rw [Unmarked, hquit]
  refine ⟨fun _ h => absurd h List.not_mem_nil, ?_⟩
  split
  · trivial
  · exact Or.inl (Or.inl rfl)

/-- A value that is one does not: its reply ends before it has begun. -/
theorem not_session_eq_matched :
    started.session (fun _ => (Env.calm, Env.calm)) (fun _ => ⟨.whole, .whole⟩) []
        [ascii "put k END", ascii "get k"] ≠
      started.matched (fun _ => (Env.calm, Env.calm)) [ascii "put k END", ascii "get k"] := by
  obtain ⟨s', hput, hget⟩ : ∃ s',
      started.dispatcher Env.calm Env.calm (ascii "put k END") = (s', .ok []) ∧
      s'.dispatcher Env.calm Env.calm (ascii "get k") = (s', .ok END) := ⟨_, rfl, rfl⟩
  have hempty := (Client.receive_iff Split.whole []).mpr (by decide)
  intro heq
  rw [session_cons (by decide), matched, hput] at heq
  obtain ⟨-, htail⟩ := List.cons.inj heq
  rw [hempty.2, if_neg (by decide), if_neg (by decide), session_cons (by decide), matched,
    hget] at htail
  obtain ⟨hround, -⟩ := List.cons.inj htail
  obtain ⟨-, hresponse, hunread⟩ := Round.mk.inj hround
  exact (Client.receive_iff Split.whole END).mp ⟨hresponse, hunread⟩ (List.infix_refl _)

end Server

end Taproot
