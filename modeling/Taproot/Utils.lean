import Taproot.Basic

/-!
# Taproot.Utils

`utils.cpp` and `operations.cpp`: the tokenizer, and the small helpers the
command parser uses.

An `std::istringstream` that is only read through `>>` is the list of words it
has left to deliver. A failed read leaves the variable it reads into alone, so
the inner loop of `tokenize` ends with the last word it got.
-/

namespace Taproot

/-- `isAllSpace`. -/
def isAllSpace (input : Bytes) : Bool := input.all isspace

/-- `toLower`. -/
def toLower (input : Bytes) : Bytes :=
  input.map fun c => if 65 ≤ c && c ≤ 90 then c + 32 else c

/-- `printVector` of strings. -/
def printVector (vector : List Bytes) : Bytes :=
  vector.flatMap fun elem => elem ++ [NEWLINE]

/-! ### `tokenize` -/

/-- The quotation mark. -/
def DELIMITER : UInt8 := 34

/-- The inner loop: read words into `buffer` until one ends with a quotation
mark or the input ends. Returns the buffer and what is left of the stream. -/
def readPhrase (buffer token : Bytes) : List Bytes → Except Fault (Bytes × List Bytes)
  | [] => do
    -- the condition still reads `token.back()` before the read fails
    let _ ← back token
    return (buffer, [])
  | next :: iss => do
    if (← back token) ≠ DELIMITER then
      readPhrase (buffer ++ SPACE :: next) next iss
    else
      return (buffer, next :: iss)

/-- The quotation marks of a token without a space are taken off. The length
is a `size_t`, so `size() - 2` wraps for a lone mark. -/
def unquote (multiwordToken : Bytes) : Except Fault Bytes :=
  if SPACE ∈ multiwordToken then
    .ok multiwordToken
  else
    substr multiwordToken 1 (sizeSub multiwordToken.length 2)

/-- The outer loop, over at most `fuel` tokens. -/
def tokenizeLoop : Nat → List Bytes → Except Fault (List Bytes)
  | _, [] => .ok []
  | 0, _ :: _ => .error .outOfFuel
  | fuel + 1, token :: iss => do
    if token.head? = some DELIMITER then
      let (buffer, iss) ← readPhrase token token iss
      let multiwordToken ← unquote buffer
      return multiwordToken :: (← tokenizeLoop fuel iss)
    else
      return token :: (← tokenizeLoop fuel iss)

/-- `tokenize`: every round of the loop reads at least one word. -/
def tokenize (input : Bytes) : Except Fault (List Bytes) :=
  tokenizeLoop (words input).length (words input)

/-! ### `operations.h` -/

/-- `Operation::Ops`. -/
inductive Ops
  | PUT
  | DEL
  | GET
  | MGET
  deriving DecidableEq, Repr

/-- `Operation::strToOp`. -/
def strToOp (str : Bytes) : Option Ops :=
  if str = ascii "put" then some .PUT
  else if str = ascii "del" then some .DEL
  else if str = ascii "get" then some .GET
  else if str = ascii "mget" then some .MGET
  else none

/-- `Operation::convertStr`. -/
def convertStr (str : Bytes) : Except Fault Ops :=
  match strToOp (toLower str) with
  | some op => .ok op
  | none => .error (.exception (ascii "Unknown operation: " ++ toLower str))

@[simp] theorem convertStr_put : convertStr (ascii "put") = .ok .PUT := by decide
@[simp] theorem convertStr_del : convertStr (ascii "del") = .ok .DEL := by decide

end Taproot
