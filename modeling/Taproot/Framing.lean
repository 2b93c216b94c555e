import Taproot.Library.Chunks
import Taproot.Server

/-!
# Taproot.Framing

`Server::handleClient`: the loop that reads request lines from a socket and
dispatches them.

The socket is the list of what its reads deliver. Every round of the loop has a
buffer of its own, so what a read brings after the end of a line is gone with
it. Which requests reach the dispatcher depends on two things: on how the
stream was split (`Chunks.Framed`), and on the dispatcher coming back from each
request but the last (`Answers`).
-/

namespace Taproot

open Posix Journal Words Chunks

namespace Server

/-- `Server::handleClient`: the inputs of the dispatcher with what it returned.
`env n` are the surroundings of the request number `n`. A socket that ends, and
an exception of the dispatcher, end the loop. -/
def handleClient (env : Nat → Env × Env) (s : Server) (reads : List Bytes) :
    Server × List (Bytes × Except Fault Bytes) :=
  match h : readUntil (ascii "\n") [] reads with
  | none => (s, [])
  | some (buffer, rest) =>
    have : rest.length < reads.length := readUntil_length_lt (by decide) h
    let incoming := firstLine NEWLINE buffer
    match s.dispatcher (env 0).1 (env 0).2 incoming with
    | (s, .error e) => (s, [(incoming, .error e)])
    | (s, .ok response) =>
      let (s, exchanges) := handleClient (fun n => env (n + 1)) s rest
      (s, (incoming, .ok response) :: exchanges)
termination_by reads.length

/-- The inputs of the dispatcher, in order. -/
def requests (env : Nat → Env × Env) (s : Server) (reads : List Bytes) : List Bytes :=
  (s.handleClient env reads).2.map Prod.fst

/-- The requests up to the first from which the dispatcher does not return. -/
def dispatched (env : Nat → Env × Env) (s : Server) : List Bytes → List Bytes
  | [] => []
  | input :: inputs =>
    input :: match s.dispatcher (env 0).1 (env 0).2 input with
      | (_, .error _) => []
      | (s, .ok _) => s.dispatched (fun n => env (n + 1)) inputs

/-- The dispatcher returns from every request but perhaps the last. -/
def Answers (env : Nat → Env × Env) (s : Server) : List Bytes → Prop
  | [] => True
  | input :: inputs =>
    match s.dispatcher (env 0).1 (env 0).2 input with
    | (_, .error _) => inputs = []
    | (s, .ok _) => s.Answers (fun n => env (n + 1)) inputs

variable (env : Nat → Env × Env) (s : Server)

theorem dispatched_prefix (inputs : List Bytes) : s.dispatched env inputs <+: inputs := by
  induction inputs generalizing env s with
  | nil => exact List.prefix_refl _
  | cons input inputs ih =>
      rw [dispatched]
      refine List.cons_prefix_cons.mpr ⟨rfl, ?_⟩
      split
      · exact List.nil_prefix
      · exact ih _ _

theorem dispatched_eq_self_iff (inputs : List Bytes) :
    s.dispatched env inputs = inputs ↔ s.Answers env inputs := by
  induction inputs generalizing env s with
  | nil => exact iff_of_true rfl trivial
  | cons input inputs ih =>
      rw [dispatched, Answers, List.cons.injEq, and_iff_right rfl]
      split
      · exact eq_comm
      · exact ih _ _

/-- The loop dispatches the first lines of its buffers. -/
theorem requests_eq (reads : List Bytes) :
    s.requests env reads = s.dispatched env (firstLines NEWLINE [] reads) := by
  rw [requests]
  fun_induction handleClient env s reads with
  | case1 env s reads h =>
      rw [firstLines_eq_readUntil List.not_mem_nil, show [NEWLINE] = ascii "\n" from rfl, h]
      rfl
  | case2 env s reads buffer rest h this incoming s' e hdispatch =>
      rw [firstLines_eq_readUntil List.not_mem_nil, show [NEWLINE] = ascii "\n" from rfl, h]
      dsimp only
      rw [dispatched, hdispatch]
      rfl
  | case3 env s reads buffer rest h this incoming s' response hdispatch s'' exchanges hrest ih =>
      rw [firstLines_eq_readUntil List.not_mem_nil, show [NEWLINE] = ascii "\n" from rfl, h]
      dsimp only
      rw [hrest] at ih
      rw [dispatched, hdispatch, List.map_cons]
      exact congrArg (incoming :: ·) ih

/-- **The requests are the lines of the stream** exactly if no read goes on
after a newline while another one is still to come, and the dispatcher returns
from every line but perhaps the last. -/
theorem requests_eq_frames_iff (reads : List Bytes) :
    s.requests env reads = frames NEWLINE reads.flatten ↔
      Framed NEWLINE reads ∧ s.Answers env (frames NEWLINE reads.flatten) := by
  have hframed : firstLines NEWLINE [] reads = frames NEWLINE reads.flatten ↔
      Framed NEWLINE reads := firstLines_eq_frames_iff List.not_mem_nil reads
  rw [requests_eq, ← hframed, ← dispatched_eq_self_iff]
  constructor
  · intro heq
    have hprefix := dispatched_prefix env s (firstLines NEWLINE [] reads)
    rw [heq] at hprefix
    obtain ⟨rest, hrest⟩ := hprefix
    -- the reader delivers no more than the stream has, so nothing is left over
    have hextent : extent (firstLines NEWLINE [] reads) ≤ extent (frames NEWLINE reads.flatten) :=
      extent_firstLines_le List.not_mem_nil reads
    rw [← hrest, extent_append] at hextent
    obtain rfl : rest = [] := extent_eq_zero (by omega)
    rw [List.append_nil] at hrest
    exact ⟨hrest.symm, by rwa [← hrest] at heq⟩
  · rintro ⟨hlines, hanswers⟩
    rw [hlines, hanswers]

/-- Two lines in one read: the second is dropped. -/
theorem not_requests_eq_frames :
    requests (fun _ => (Env.calm, Env.calm))
        ⟨(Keyspace.fresh (ascii "a")).fs, (Keyspace.fresh (ascii "a")).db, true⟩
        [ascii "put k 1\nput l 2\n"] ≠
      frames NEWLINE (ascii "put k 1\nput l 2\n") := by
  intro heq
  rw [requests_eq] at heq
  have hprefix := dispatched_prefix (fun _ => (Env.calm, Env.calm))
    ⟨(Keyspace.fresh (ascii "a")).fs, (Keyspace.fresh (ascii "a")).db, true⟩
    (firstLines NEWLINE [] [ascii "put k 1\nput l 2\n"])
  rw [heq] at hprefix
  exact absurd hprefix.length_le (by decide)

end Server

end Taproot
