import Taproot.Library.Words

/-!
# Taproot.Basic

Byte strings, and the ways a C++ statement of the program can fail to continue.

A `std::string` is a list of bytes. Element access is checked here, so that a
definition which could read out of range has to say so in its type: `Fault`
collects undefined behaviour, the exceptions that the code throws or lets
through, and termination by an exception that leaves a destructor.
-/

namespace Taproot

/-- The contents of a `std::string`. -/
abbrev Bytes := List UInt8

/-- A string literal of the source. -/
def ascii (s : String) : Bytes := s.toList.map fun c => UInt8.ofNat c.toNat

def SPACE : UInt8 := 32
def NEWLINE : UInt8 := 10

/-- `std::isspace` in the C locale, which is also what `operator>>` skips. -/
def isspace (c : UInt8) : Bool := c = 32 || (9 ≤ c && c ≤ 13)

@[simp] theorem isspace_SPACE : isspace SPACE = true := by decide
@[simp] theorem isspace_NEWLINE : isspace NEWLINE = true := by decide

/-- `std::isdigit`. -/
def isdigit (c : UInt8) : Bool := 48 ≤ c && c ≤ 57

/-- Numbers are printed in decimal digits. -/
theorem isdigit_of_mem_toString {n : Nat} {c : UInt8} (h : c ∈ ascii (toString n)) :
    isdigit c = true := by
  obtain ⟨d, hd, rfl⟩ := List.mem_map.mp h
  rw [Nat.toString_eq_repr, Nat.toList_repr] at hd
  have hdigit : d.isDigit = true := Nat.isDigit_of_mem_toDigits (by decide) (by decide) hd
  obtain ⟨hlow, hhigh⟩ := Char.isDigit_iff_toNat.mp hdigit
  have hbyte : (UInt8.ofNat d.toNat).toNat = d.toNat :=
    Nat.mod_eq_of_lt (Nat.lt_of_le_of_lt hhigh (by decide))
  rw [isdigit, Bool.and_eq_true, decide_eq_true_iff, decide_eq_true_iff, UInt8.le_iff_toNat_le,
    UInt8.le_iff_toNat_le, hbyte]
  exact ⟨hlow, hhigh⟩

/-- The number of values of a `size_t` of 64 bits. -/
def SIZE_MOD : Nat := 18446744073709551616

/-- How a statement fails to continue. -/
inductive Fault
  /-- An element is read that is not there: `v[i]`, `s.back()`. -/
  | undefinedBehaviour
  /-- A `std::exception` with its message. -/
  | exception (what : Bytes)
  /-- An exception leaves a destructor. -/
  | terminate
  /-- A bounded loop of the model is cut off. -/
  | outOfFuel
  deriving DecidableEq, Repr

@[simp] theorem ok_bind {α β : Type} (x : α) (f : α → Except Fault β) :
    ((Except.ok x : Except Fault α) >>= f) = f x := rfl
@[simp] theorem pure_eq_ok {α : Type} (x : α) : (pure x : Except Fault α) = .ok x := rfl

/-- `v[i]`. -/
def subscript {α : Type*} (v : List α) (i : Nat) : Except Fault α :=
  match v[i]? with
  | some x => .ok x
  | none => .error .undefinedBehaviour

@[simp] theorem subscript_cons_zero {α : Type*} (x : α) (v : List α) :
    subscript (x :: v) 0 = .ok x := rfl
@[simp] theorem subscript_cons_succ {α : Type*} (x : α) (v : List α) (i : Nat) :
    subscript (x :: v) (i + 1) = subscript v i := rfl

/-- `s.back()`. -/
def back (s : Bytes) : Except Fault UInt8 :=
  match s.getLast? with
  | some c => .ok c
  | none => .error .undefinedBehaviour

/-- `s.substr(pos, n)`: throws when `pos` is past the end, and stops there. -/
def substr (s : Bytes) (pos n : Nat) : Except Fault Bytes :=
  if s.length < pos then .error (.exception (ascii "basic_string::substr"))
  else .ok ((s.drop pos).take n)

/-- `a - b` on `size_t`, which wraps below zero. -/
def sizeSub (a b : Nat) : Nat := if b ≤ a then a - b else SIZE_MOD - (b - a)

/-- The words that reading `iss >> token` from a string delivers, in order
(`Words.words_eq_next`). -/
def words (s : Bytes) : List Bytes := Words.words isspace s

/-- The lines that `getline` delivers (`Words.lines_eq_getline`). -/
def getlines (s : Bytes) : List Bytes := Words.lines NEWLINE s

end Taproot
