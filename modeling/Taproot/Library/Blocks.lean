import Mathlib.Data.List.GetD
import Mathlib.Data.UInt

/-!
# Taproot.Library.Blocks

The **LZ4 block format**. A block is a list of sequences and some last literals. A
sequence is literals and a match, which copies bytes that have already been written; a
token has the two lengths, half a byte each, and what does not fit there follows in bytes
that add up to it.

`expand` reads a block, and gives back what its sequences stand for (`expand_bytes`). A
match may go on into the bytes that it is itself copying: this is how it makes a run
longer (`copyMatch_run`).
-/

namespace Blocks

/-- Literals, and a match. -/
structure Sequence where
  literals : List UInt8
  offset : Nat
  length : Nat

/-- Copy `n` bytes, each from `offset` bytes before its own place. -/
def copyMatch (offset : Nat) : Nat → List UInt8 → List UInt8
  | 0, out => out
  | n + 1, out => copyMatch offset n (out ++ [out.getD (out.length - offset) 0])

/-- What is there after a sequence. -/
def Sequence.extend (out : List UInt8) (s : Sequence) : List UInt8 :=
  copyMatch s.offset s.length (out ++ s.literals)

/-! ### Writing -/

/-- What does not fit into half a byte. -/
def lengthBytes (n : Nat) : List UInt8 :=
  if n < 15 then []
  else List.replicate ((n - 15) / 255) 255 ++ [UInt8.ofNat ((n - 15) % 255)]

def token (literals length : Nat) : UInt8 := UInt8.ofNat (16 * min literals 15 + min length 15)

/-- A match has four bytes at least, and these are not counted. -/
def Sequence.bytes (s : Sequence) : List UInt8 :=
  token s.literals.length (s.length - 4) :: (lengthBytes s.literals.length ++ (s.literals ++
    (UInt8.ofNat (s.offset % 256) :: UInt8.ofNat (s.offset / 256) :: lengthBytes (s.length - 4))))

def lastBytes (literals : List UInt8) : List UInt8 :=
  token literals.length 0 :: (lengthBytes literals.length ++ literals)

/-- A whole block. -/
def bytes (seqs : List Sequence) (last : List UInt8) : List UInt8 :=
  seqs.flatMap Sequence.bytes ++ lastBytes last

/-- A match that can be written. -/
structure Sequence.Valid (s : Sequence) : Prop where
  offset : s.offset < 65536
  length : 4 ≤ s.length

instance (s : Sequence) : Decidable s.Valid :=
  decidable_of_iff (s.offset < 65536 ∧ 4 ≤ s.length) ⟨fun h => ⟨h.1, h.2⟩, fun h => ⟨h.1, h.2⟩⟩

theorem length_lengthBytes (n : Nat) :
    (lengthBytes n).length = if n < 15 then 0 else (n - 15) / 255 + 1 := by
  rw [lengthBytes]
  split
  · rfl
  · rw [List.length_append, List.length_replicate, List.length_singleton]

theorem Sequence.length_bytes (s : Sequence) : s.bytes.length =
    (lengthBytes s.literals.length).length + s.literals.length +
      (lengthBytes (s.length - 4)).length + 3 := by
  simp only [Sequence.bytes, List.length_cons, List.length_append]
  omega

theorem length_lastBytes (literals : List UInt8) :
    (lastBytes literals).length = (lengthBytes literals.length).length + literals.length + 1 := by
  rw [lastBytes, List.length_cons, List.length_append]

/-- There is a token for each of the sequences, and one for the last literals. -/
theorem length_lt_length_bytes (seqs : List Sequence) (last : List UInt8) :
    seqs.length < (bytes seqs last).length := by
  rw [bytes, List.length_append, length_lastBytes]
  induction seqs with
  | nil => exact Nat.lt_of_lt_of_le (Nat.succ_pos _) (Nat.le_add_left _ _)
  | cons s seqs ih =>
      rw [List.flatMap_cons, List.length_append, s.length_bytes, List.length_cons]
      omega

/-! ### Reading -/

/-- The bytes that are added to a length, up to the first that is not full. -/
def readMore : Nat → List UInt8 → Nat × List UInt8
  | n, [] => (n, [])
  | n, b :: bs => if b = 255 then readMore (n + 255) bs else (n + b.toNat, bs)

def readLength (half : Nat) (bs : List UInt8) : Nat × List UInt8 :=
  if half < 15 then (half, bs) else readMore 15 bs

/-- Read at most `fuel` sequences. -/
def expand : Nat → List UInt8 → List UInt8 → List UInt8
  | 0, out, _ => out
  | _ + 1, out, [] => out
  | fuel + 1, out, token :: bs =>
    let (n, bs) := readLength (token.toNat / 16) bs
    match bs.drop n with
    | low :: high :: rest =>
      let (m, rest) := readLength (token.toNat % 16) rest
      expand fuel (copyMatch (low.toNat + 256 * high.toNat) (m + 4) (out ++ bs.take n)) rest
    | _ => out ++ bs.take n

theorem readMore_replicate (n k : Nat) (bs : List UInt8) :
    readMore n (List.replicate k 255 ++ bs) = readMore (n + 255 * k) bs := by
  induction k generalizing n with
  | zero => rfl
  | succ k ih =>
      rw [List.replicate_succ, List.cons_append, readMore, if_pos rfl, ih]
      congr 1
      omega

/-- A length is read as it was written. -/
theorem readLength_lengthBytes (n : Nat) (rest : List UInt8) :
    readLength (min n 15) (lengthBytes n ++ rest) = (n, rest) := by
  rw [readLength, lengthBytes]
  split
  · next h =>
      rw [if_pos (by omega), List.nil_append, Nat.min_eq_left (by omega)]
  · next h =>
      -- the last byte is not full, which ends the length
      have hlast : (n - 15) % 255 < 255 := Nat.mod_lt _ (by decide)
      have hbyte : (UInt8.ofNat ((n - 15) % 255)).toNat = (n - 15) % 255 := by
        rw [UInt8.toNat_ofNat']
        omega
      have hne : UInt8.ofNat ((n - 15) % 255) ≠ 255 := by
        intro heq
        rw [heq] at hbyte
        exact absurd hbyte.symm (Nat.ne_of_lt hlast)
      rw [if_neg (by omega), List.append_assoc, readMore_replicate, List.singleton_append, readMore,
        if_neg hne, hbyte]
      congr 1
      omega

theorem token_toNat (literals length : Nat) :
    (token literals length).toNat / 16 = min literals 15 ∧
      (token literals length).toNat % 16 = min length 15 := by
  rw [token, UInt8.toNat_ofNat']
  omega

/-- One sequence is read. -/
theorem expand_sequence {s : Sequence} (h : s.Valid) (fuel : Nat) (out rest : List UInt8) :
    expand (fuel + 1) out (s.bytes ++ rest) = expand fuel (s.extend out) rest := by
  obtain ⟨hliterals, hlength⟩ := token_toNat s.literals.length (s.length - 4)
  have hoffset : (UInt8.ofNat (s.offset % 256)).toNat +
      256 * (UInt8.ofNat (s.offset / 256)).toNat = s.offset := by
    have := h.offset
    rw [UInt8.toNat_ofNat', UInt8.toNat_ofNat']
    omega
  rw [Sequence.bytes, List.cons_append, expand, hliterals]
  simp only [List.append_assoc, List.cons_append, readLength_lengthBytes, List.drop_left,
    List.take_left, hlength, hoffset, Nat.sub_add_cancel h.length]
  rfl

theorem expand_bytes_of_lt {seqs : List Sequence} (h : ∀ s ∈ seqs, s.Valid) {fuel : Nat}
    (hfuel : seqs.length < fuel) (out last : List UInt8) :
    expand fuel out (bytes seqs last) = seqs.foldl Sequence.extend out ++ last := by
  induction seqs generalizing fuel out with
  | nil =>
      obtain ⟨fuel, rfl⟩ := Nat.exists_eq_succ_of_ne_zero (Nat.ne_of_gt hfuel)
      obtain ⟨hliterals, -⟩ := token_toNat last.length 0
      have hread := readLength_lengthBytes last.length last
      rw [bytes, List.flatMap_nil, List.nil_append, lastBytes, expand, hliterals, hread]
      simp
  | cons s seqs ih =>
      obtain ⟨fuel, rfl⟩ := Nat.exists_eq_succ_of_ne_zero (Nat.ne_of_gt (Nat.zero_lt_of_lt hfuel))
      rw [bytes, List.flatMap_cons, List.append_assoc, Nat.succ_eq_add_one,
        expand_sequence (h s List.mem_cons_self), List.foldl_cons]
      exact ih (fun s' hs' => h s' (List.mem_cons_of_mem s hs')) (Nat.lt_of_succ_lt_succ hfuel) _

/-- **A block is read as it was written.** -/
theorem expand_bytes {seqs : List Sequence} (h : ∀ s ∈ seqs, s.Valid) (last : List UInt8) :
    expand (bytes seqs last).length [] (bytes seqs last) =
      seqs.foldl Sequence.extend [] ++ last :=
  expand_bytes_of_lt h (length_lt_length_bytes seqs last) [] last

/-- A match into a run makes it longer. -/
theorem copyMatch_run {offset k : Nat} (hpos : 0 < offset) (hle : offset ≤ k) (n : Nat)
    (front : List UInt8) (b : UInt8) :
    copyMatch offset n (front ++ List.replicate k b) = front ++ List.replicate (k + n) b := by
  induction n generalizing k with
  | zero => rfl
  | succ n ih =>
      -- a byte that is copied comes from the run, also once the run has grown by copies
      have hbyte : (front ++ List.replicate k b).getD
          ((front ++ List.replicate k b).length - offset) 0 = b := by
        rw [List.length_append, List.length_replicate, List.getD_append_right _ _ _ _ (by omega),
          List.getD_eq_getElem _ _ (by rw [List.length_replicate]; omega), List.getElem_replicate]
      rw [copyMatch, hbyte, List.append_assoc, ← List.replicate_succ', ih (Nat.le_succ_of_le hle)]
      congr 2
      omega

end Blocks
