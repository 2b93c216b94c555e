import Taproot.Library.Progress
import Taproot.Library.Simulation

/-!
# Taproot.Listening

The **accept loop** of the server: `Server::run`, with what others do to it from
their own threads, a client that quits (`Server::dispatcher`) and a signal
(`Server::signalHandler`, `Server::stop`).

A quit lowers the flag and leaves the acceptor open, so a loop that is blocked in
`accept` does not see it before the next client is there. That client is still
served, and it is the last one: when the loop is over, however it came to it, the
acceptor is closed (`run_stops`).
-/

namespace Taproot

/-- Where `Server::run` is. -/
inductive LoopPc
  /-- Before the flag is raised. -/
  | entering
  /-- At the condition of the loop. -/
  | testing
  | accepting
  /-- Past the loop, before the acceptor is closed. -/
  | leaving
  | returned
  deriving DecidableEq, Repr

/-- How `accept` comes back, and how a thread is started for the connection. -/
inductive Outcome
  | connected
  /-- The constructor of the thread throws a `system_error`. -/
  | noThread
  | operationAborted
  | badDescriptor
  /-- Another error of `accept`. -/
  | acceptError
  deriving DecidableEq, Repr

/-- The members of the server that the loop is about, and how many clients have
been handed to threads. -/
structure Listener where
  running : Bool
  isOpen : Bool
  loop : LoopPc
  clients : Nat
  /-- `Server::stop` is between its two statements. -/
  stopping : Bool
  deriving DecidableEq, Repr

/-- The atomic steps. -/
inductive ListenerAct
  | enter
  | test
  | accept (outcome : Outcome)
  | close
  /-- The thread of a client gets to a `quit`. -/
  | quit
  /-- `Server::stop` lowers the flag. -/
  | stop
  /-- It closes the acceptor. -/
  | stopClose
  deriving DecidableEq, Repr

/-- How many steps of the loop are left, with the flag down. -/
def LoopPc.left : LoopPc → Nat
  | entering => 4
  | accepting => 3
  | testing => 2
  | leaving => 1
  | returned => 0

namespace Listener

/-- One step, `none` where the thread is not at that point. An acceptor that is
closed while it blocks may still come back with a client. -/
def step (s : Listener) : ListenerAct → Option Listener
  | .enter =>
    if s.loop = .entering then some { s with running := true, loop := .testing } else none
  | .test =>
    if s.loop = .testing then
      some { s with loop := if s.running && s.isOpen then .accepting else .leaving }
    else none
  | .accept outcome =>
    if s.loop = .accepting then
      match outcome with
      | .connected => some { s with clients := s.clients + 1, loop := .testing }
      | .acceptError => some { s with loop := .testing }
      | _ => some { s with loop := .leaving }
    else none
  | .close =>
    if s.loop = .leaving then some { s with isOpen := false, loop := .returned } else none
  | .quit => if 0 < s.clients then some { s with running := false } else none
  | .stop => some { s with running := false, stopping := true }
  | .stopClose => if s.stopping then some { s with isOpen := false, stopping := false } else none

/-- After the constructor, which has opened the acceptor. -/
def start : Listener where
  running := false
  isOpen := true
  loop := .entering
  clients := 0
  stopping := false

variable {s s' t : Listener} {a : ListenerAct} {acts : List ListenerAct}

/-! ### Invariants -/

/-- The acceptor is closed when the loop is over. -/
theorem closed_step (h : s.loop = .returned → s.isOpen = false) (hstep : step s a = some s') :
    s'.loop = .returned → s'.isOpen = false := by
  cases a with
  | enter => grind [step]
  | test => grind [step]
  | accept outcome => cases outcome <;> grind [step]
  | close => grind [step]
  | quit => grind [step]
  | stop => grind [step]
  | stopClose => grind [step]

theorem closed_run (hrun : Machine.run step start acts = some s) :
    s.loop = .returned → s.isOpen = false :=
  Machine.invariant (P := fun s => s.loop = .returned → s.isOpen = false)
    (fun _ _ _ h hstep => closed_step h hstep) (fun h => absurd h (by decide)) hrun

/-- The client that a loop that is blocked still waits for. -/
def waiting (s : Listener) : Nat := if s.loop = .accepting then 1 else 0

/-- However `accept` comes back, the loop is past it, with one client more at most. -/
theorem accept_returns (hloop : s.loop = .accepting) (outcome : Outcome) :
    ∃ t, step s (.accept outcome) = some t ∧ t.running = s.running ∧
      (t.loop = .testing ∨ t.loop = .leaving) ∧ t.clients ≤ s.clients + 1 := by
  cases outcome with
  | connected => exact ⟨_, if_pos hloop, rfl, Or.inl rfl, Nat.le_refl _⟩
  | noThread => exact ⟨_, if_pos hloop, rfl, Or.inr rfl, Nat.le_succ _⟩
  | operationAborted => exact ⟨_, if_pos hloop, rfl, Or.inr rfl, Nat.le_succ _⟩
  | badDescriptor => exact ⟨_, if_pos hloop, rfl, Or.inr rfl, Nat.le_succ _⟩
  | acceptError => exact ⟨_, if_pos hloop, rfl, Or.inl rfl, Nat.le_succ _⟩

/-- The flag is down, and `clients` are all that are ever served. -/
structure Stopped (clients : Nat) (s : Listener) : Prop where
  running : s.running = false
  entered : s.loop ≠ .entering
  served : s.clients + s.waiting ≤ clients

theorem Stopped.step {clients : Nat} (h : Stopped clients s)
    (hstep : Listener.step s a = some s') : Stopped clients s' := by
  obtain ⟨hrunning, hentered, hserved⟩ := h
  cases a with
  | enter => grind [Listener.step]
  | test =>
      simp only [Listener.step] at hstep
      split at hstep
      · next hloop =>
          obtain rfl := Option.some.inj hstep
          refine ⟨hrunning, ?_, ?_⟩
          · simp [hrunning]
          · simpa [waiting, hrunning, hloop] using hserved
      · exact absurd hstep (by simp)
  | accept outcome =>
      by_cases hloop : s.loop = .accepting
      · obtain ⟨t, ht, hkept, hpast, hclients⟩ := accept_returns hloop outcome
        obtain rfl : t = s' := Option.some.inj (ht.symm.trans hstep)
        -- the client that a blocked `accept` lets in is the one already counted
        have hlast : s.clients + 1 ≤ clients := by simpa [waiting, hloop] using hserved
        refine ⟨hkept.trans hrunning, ?_, ?_⟩
        · rcases hpast with hpast | hpast <;> simp [hpast]
        · have hnone : t.waiting = 0 := by rcases hpast with hpast | hpast <;> simp [waiting, hpast]
          omega
      · simp [Listener.step, hloop] at hstep
  | close =>
      simp only [Listener.step] at hstep
      split at hstep
      · next hloop =>
          obtain rfl := Option.some.inj hstep
          exact ⟨hrunning, by simp, by simpa [waiting, hloop] using hserved⟩
      · exact absurd hstep (by simp)
  | quit =>
      simp only [Listener.step] at hstep
      split at hstep
      · obtain rfl := Option.some.inj hstep
        exact ⟨rfl, hentered, hserved⟩
      · exact absurd hstep (by simp)
  | stop =>
      obtain rfl := Option.some.inj hstep
      exact ⟨rfl, hentered, hserved⟩
  | stopClose =>
      simp only [Listener.step] at hstep
      split at hstep
      · obtain rfl := Option.some.inj hstep
        exact ⟨hrunning, hentered, hserved⟩
      · exact absurd hstep (by simp)

/-- While `accept` does not come back, nothing moves the loop. -/
theorem blocked_run (hloop : s.loop = .accepting) (hrun : Machine.run step s acts = some t)
    (hblocked : ∀ outcome, ListenerAct.accept outcome ∉ acts) : t.loop = .accepting := by
  induction acts generalizing s with
  | nil => exact Option.some.inj hrun ▸ hloop
  | cons a acts ih =>
      obtain ⟨u, hstep, hrest⟩ := Machine.run_cons_inv hrun
      refine ih ?_ hrest fun outcome hmem => hblocked outcome (List.mem_cons_of_mem a hmem)
      cases a with
      | accept outcome => exact absurd List.mem_cons_self (hblocked outcome)
      | enter => grind [step]
      | test => grind [step]
      | close => grind [step]
      | quit => grind [step]
      | stop => grind [step]
      | stopClose => grind [step]

/-! ### The end of the loop -/

/-- The step of the loop that an action is. -/
def isStepAt : ListenerAct → LoopPc → Prop
  | .test, pc => pc = .testing
  | .accept _, pc => pc = .accepting
  | .close, pc => pc = .leaving
  | _, _ => False

theorem stopped_of_down (hrunning : s.running = false) (hentered : s.loop ≠ .entering) :
    Stopped (s.clients + s.waiting) s := ⟨hrunning, hentered, Nat.le_refl _⟩

/-- With the flag down, every step leaves the loop where it is or brings it on. -/
theorem Stopped.step_left {clients : Nat} (h : Stopped clients s)
    (hstep : Listener.step s a = some s') : s'.loop = s.loop ∨ s'.loop.left < s.loop.left := by
  have hrunning := h.running
  cases a with
  | enter => exact absurd hstep (by simp [Listener.step, h.entered])
  | test => grind [Listener.step, LoopPc.left]
  | accept outcome =>
      by_cases hloop : s.loop = .accepting
      · obtain ⟨t, ht, -, hpast, -⟩ := accept_returns hloop outcome
        obtain rfl : t = s' := Option.some.inj (ht.symm.trans hstep)
        right
        rcases hpast with hpast | hpast <;> simp [hpast, hloop, LoopPc.left]
      · simp [Listener.step, hloop] at hstep
  | close => grind [Listener.step, LoopPc.left]
  | quit => grind [Listener.step]
  | stop => grind [Listener.step]
  | stopClose => grind [Listener.step]

/-- The step that the loop is at can be taken. -/
theorem Stopped.step_at {clients : Nat} (h : Stopped clients s) (hat : isStepAt a s.loop) :
    ∃ s', Listener.step s a = some s' ∧ s'.loop ≠ s.loop := by
  have hrunning := h.running
  cases a with
  | test =>
      have hloop : s.loop = .testing := hat
      exact ⟨_, if_pos hloop, by simp [hrunning, hloop]⟩
  | accept outcome =>
      have hloop : s.loop = .accepting := hat
      obtain ⟨t, ht, -, hpast, -⟩ := accept_returns hloop outcome
      exact ⟨t, ht, by rcases hpast with hpast | hpast <;> simp [hpast, hloop]⟩
  | close =>
      have hloop : s.loop = .leaving := hat
      exact ⟨_, if_pos hloop, by simp [hloop]⟩
  | enter => exact absurd hat id
  | quit => exact absurd hat id
  | stop => exact absurd hat id
  | stopClose => exact absurd hat id

/-- The loop gets on, to its end. -/
theorem progress_returning (clients : Nat) :
    Machine.Progress step isStepAt (Stopped clients) (fun s => s.loop = .returned)
      (fun s => s.loop.left) (fun s pc => s.loop = pc ∧ pc ≠ .entering ∧ pc ≠ .returned) where
  keeps := fun h _ hstep => h.step hstep
  exists_helps := fun h hreturned => ⟨_, rfl, h.entered, hreturned⟩
  advances := by
    rintro s pc a h hreturned ⟨rfl, -, -⟩ hat
    obtain ⟨s', hstep, hmoved⟩ := h.step_at hat
    exact ⟨s', hstep, (h.step_left hstep).resolve_left hmoved⟩
  waits := by
    rintro s pc b s' h hreturned ⟨rfl, hpc⟩ hstep
    -- the steps of the clients and of `stop` leave the loop where it is
    rcases h.step_left hstep with hsame | hlower
    · exact Or.inr ⟨by rw [hsame], hsame, hpc⟩
    · exact Or.inl hlower

/-- The loop gets its turns again and again, and `accept` comes back again and again. -/
def Fair (turns : Nat → ListenerAct) : Prop :=
  ∀ pc ∈ [LoopPc.testing, .accepting, .leaving], Machine.Recurs isStepAt turns pc

/-- **The end of the server.** From any state of any run in which the flag is down again,
one client more is served at most, and none if the loop is not in `accept`; the loop
stays in `accept` until that comes back; and under every fair schedule it ends, with
the acceptor closed. -/
theorem run_stops (hrun : Machine.run step start acts = some s) (hrunning : s.running = false)
    (hentered : s.loop ≠ .entering) :
    (∀ later t, Machine.run step s later = some t → t.clients ≤ s.clients + s.waiting ∧
      (s.loop = .accepting → (∀ outcome, ListenerAct.accept outcome ∉ later) →
        t.loop = .accepting)) ∧
    ∀ turns, Fair turns → ∃ n, (Machine.scheduled step s turns n).loop = .returned ∧
      (Machine.scheduled step s turns n).isOpen = false := by
  have hstopped := stopped_of_down hrunning hentered
  constructor
  · intro later t hlater
    have hserved : Stopped (s.clients + s.waiting) t :=
      Machine.invariant (P := Stopped (s.clients + s.waiting)) (fun _ _ _ h hstep => h.step hstep)
        hstopped hlater
    exact ⟨Nat.le_of_add_right_le hserved.served, fun hloop => blocked_run hloop hlater⟩
  · intro turns hfair
    have hrecurs : ∀ pc, (∃ s : Listener, s.loop = pc ∧ pc ≠ .entering ∧ pc ≠ .returned) →
        Machine.Recurs isStepAt turns pc := by
      rintro pc ⟨-, -, hentering, hreturned⟩
      refine hfair pc ?_
      cases pc <;> simp_all
    obtain ⟨n, hreturned, -⟩ := (progress_returning _).eventually hstopped hrecurs
    exact ⟨n, hreturned, Machine.scheduled_invariant
      (P := fun s => s.loop = .returned → s.isOpen = false)
      (fun _ _ _ h hstep => closed_step h hstep) (closed_run hrun) turns n hreturned⟩

/-- A schedule in which clients come again and again. -/
def inTurns (n : Nat) : ListenerAct :=
  match n % 3 with
  | 0 => .test
  | 1 => .accept .connected
  | _ => .close

theorem fair_inTurns : Fair inTurns := by
  have hrecurs : ∀ k < 3, ∀ pc, isStepAt (inTurns k) pc → Machine.Recurs isStepAt inTurns pc := by
    intro k hk pc hpc n
    refine ⟨3 * n + k, by omega, ?_⟩
    have hmod : (3 * n + k) % 3 = k % 3 := by omega
    rw [inTurns, hmod]
    exact hpc
  intro pc hpc
  simp only [List.mem_cons, List.not_mem_nil, or_false] at hpc
  rcases hpc with rfl | rfl | rfl
  · exact hrecurs 0 (by decide) _ rfl
  · exact hrecurs 1 (by decide) _ rfl
  · exact hrecurs 2 (by decide) _ rfl

/-- A client quits while the loop waits for the next one, and is not the last. -/
theorem run_stops_quit :
    ∃ s, Machine.run step start [.enter, .test, .accept .connected, .test, .quit] = some s ∧
      (∀ later t, Machine.run step s later = some t → t.clients ≤ 2) ∧
      ∃ n, (Machine.scheduled step s inTurns n).loop = .returned := by
  have hend : (Machine.run step start [.enter, .test, .accept .connected, .test, .quit]).map
      (fun s => (s.running, s.loop, s.clients + s.waiting)) = some (false, .accepting, 2) := by
    decide
  obtain ⟨s, hrun, hs⟩ := Option.map_eq_some_iff.mp hend
  simp only [Prod.mk.injEq] at hs
  obtain ⟨hrunning, hloop, hclients⟩ := hs
  obtain ⟨hserved, hends⟩ := run_stops hrun hrunning (by simp [hloop])
  refine ⟨s, hrun, fun later t hlater => hclients ▸ (hserved later t hlater).1, ?_⟩
  obtain ⟨n, hreturned, -⟩ := hends inTurns fair_inTurns
  exact ⟨n, hreturned⟩

end Listener

end Taproot
