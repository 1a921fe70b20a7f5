import DocVault.Js
import Mathlib.Algebra.Group.Nat.Defs
import Mathlib.Data.List.Infix

/-!
# The stream to the virus scanner

What `sendClamAvInstream` of the malware scanner writes to its socket, and how
a scanner reads it: the command, chunks with their lengths in front of them, and
a zero length.
-/

/-! ## Reading a stream of chunks -/

namespace Instream

def readUInt32 : List UInt8 → Option (Nat × List UInt8)
  | a :: b :: c :: d :: rest => some (((a.toNat * 256 + b.toNat) * 256 + c.toNat) * 256 + d.toNat, rest)
  | _ => none

/-- The chunks up to the zero length, and what follows it. Every chunk takes fuel. -/
def readChunks : Nat → List UInt8 → Option (List (List UInt8) × List UInt8)
  | 0, _ => none
  | fuel + 1, stream => do
    let (n, rest) ← readUInt32 stream
    if n = 0 then some ([], rest)
    else if rest.length < n then none
    else
      let (chunks, left) ← readChunks fuel (rest.drop n)
      some (rest.take n :: chunks, left)

/-- A stream that begins with the command. A chunk has a byte at least, so that its length is fuel enough. -/
def read (command stream : List UInt8) : Option (List (List UInt8) × List UInt8) :=
  if command.isPrefixOf stream then readChunks stream.length (stream.drop command.length) else none

def uint32 (n : Nat) : List UInt8 :=
  [UInt8.ofNat (n / 16777216), UInt8.ofNat (n / 65536), UInt8.ofNat (n / 256), UInt8.ofNat n]

def framed (chunk : List UInt8) : List UInt8 := uint32 chunk.length ++ chunk

theorem readUInt32_uint32 {n : Nat} (h : n < 2 ^ 32) (rest : List UInt8) :
    readUInt32 (uint32 n ++ rest) = some (n, rest) := by
  simp only [uint32, List.cons_append, List.nil_append, readUInt32, UInt8.toNat_ofNat',
    Option.some.injEq, Prod.mk.injEq, and_true]
  omega

theorem readChunks_end (fuel : Nat) (rest : List UInt8) :
    readChunks (fuel + 1) (uint32 0 ++ rest) = some ([], rest) := by
  rw [readChunks, readUInt32_uint32 (by decide)]
  rfl

theorem readChunks_framed {fuel : Nat} {chunk stream left : List UInt8} {chunks : List (List UInt8)}
    (hpos : 0 < chunk.length) (hlt : chunk.length < 2 ^ 32) (h : readChunks fuel stream = some (chunks, left)) :
    readChunks (fuel + 1) (framed chunk ++ stream) = some (chunk :: chunks, left) := by
  have hne : chunk.length ≠ 0 := by omega
  have hle : ¬ (chunk ++ stream).length < chunk.length := by simp
  rw [readChunks, framed, List.append_assoc, readUInt32_uint32 hlt]
  simp only [Option.bind_eq_bind, Option.bind_some, hne, hle, if_false, List.drop_left, List.take_left, h]

theorem readChunks_all {chunks : List (List UInt8)} (h : ∀ chunk ∈ chunks, 0 < chunk.length ∧ chunk.length < 2 ^ 32)
    (fuel : Nat) (rest : List UInt8) :
    readChunks (chunks.length + fuel + 1) ((chunks.map framed).flatten ++ (uint32 0 ++ rest)) =
      some (chunks, rest) := by
  induction chunks with
  | nil =>
    rw [List.length_nil, Nat.zero_add]
    exact readChunks_end fuel rest
  | cons chunk chunks ih =>
    obtain ⟨hchunk, hchunks⟩ := List.forall_mem_cons.mp h
    rw [List.map_cons, List.flatten_cons, List.append_assoc, List.length_cons,
      show chunks.length + 1 + fuel + 1 = chunks.length + fuel + 1 + 1 by omega]
    exact readChunks_framed hchunk.1 hchunk.2 (ih hchunks)

theorem length_framed (chunk : List UInt8) : (framed chunk).length = chunk.length + 4 := by
  rw [framed, List.length_append, Nat.add_comm]
  rfl

theorem length_flatten_framed (chunks : List (List UInt8)) :
    chunks.length ≤ ((chunks.map framed).flatten).length := by
  induction chunks with
  | nil => exact Nat.zero_le _
  | cons chunk chunks ih =>
    rw [List.map_cons, List.flatten_cons, List.length_append, length_framed, List.length_cons]
    omega

/-- A stream of chunks is read as these chunks, and what follows is left. -/
theorem read_framed {chunks : List (List UInt8)} (h : ∀ chunk ∈ chunks, 0 < chunk.length ∧ chunk.length < 2 ^ 32)
    (command rest : List UInt8) :
    read command (command ++ ((chunks.map framed).flatten ++ (uint32 0 ++ rest))) = some (chunks, rest) := by
  have hcommand : command.isPrefixOf (command ++ ((chunks.map framed).flatten ++ (uint32 0 ++ rest))) = true :=
    List.isPrefixOf_iff_prefix.mpr (List.prefix_append _ _)
  have hlength := length_flatten_framed chunks
  obtain ⟨fuel, hfuel⟩ : ∃ fuel, (command ++ ((chunks.map framed).flatten ++ (uint32 0 ++ rest))).length =
      chunks.length + fuel + 1 := by
    refine ⟨command.length + ((chunks.map framed).flatten.length - chunks.length) + rest.length + 3, ?_⟩
    simp only [List.length_append, show (uint32 0).length = 4 from rfl]
    omega
  rw [read, if_pos hcommand, List.drop_left, hfuel]
  exact readChunks_all h fuel rest

end Instream

namespace DocVault

/-! ## sendClamAvInstream -/

namespace MalwareScanner

def chunkSize : Nat := 64 * 1024

def subarray (buffer : Bytes) (start stop : Nat) : Bytes := (buffer.drop start).take (stop - start)

/-- `Buffer.alloc(4)` after `writeUInt32BE(value, 0)`, which throws when the value has more than 32 bits. -/
def writeUInt32BE (value : Nat) : Option Bytes := if value < 2 ^ 32 then some (Instream.uint32 value) else none

def writeChunks (buffer : Bytes) (offset : Nat) : Option (List Bytes) :=
  if offset < buffer.length then do
    let chunk := subarray buffer offset (offset + chunkSize)
    let size ← writeUInt32BE chunk.length
    let writes ← writeChunks buffer (offset + chunkSize)
    some (size :: chunk :: writes)
  else some []
termination_by buffer.length - offset
decreasing_by
  have hpos : 0 < chunkSize := by decide
  omega

def command : Bytes := [0x7A, 0x49, 0x4E, 0x53, 0x54, 0x52, 0x45, 0x41, 0x4D, 0x00]

def sendClamAvInstream (buffer : Bytes) : Option Bytes := do
  let writes ← writeChunks buffer 0
  some ([command] ++ writes ++ [List.replicate 4 0]).flatten

/-! ## What the scanner reads -/

structure ChunksOf (buffer : Bytes) (chunks : List Bytes) : Prop where
  whole : chunks.flatten = buffer
  sizes : ∀ chunk ∈ chunks, 0 < chunk.length ∧ chunk.length ≤ chunkSize

theorem subarray_drop {buffer : Bytes} {offset : Nat} :
    subarray buffer offset (offset + chunkSize) ++ buffer.drop (offset + chunkSize) = buffer.drop offset := by
  rw [subarray, Nat.add_sub_cancel_left, ← List.drop_drop, List.take_append_drop]

theorem subarray_length {buffer : Bytes} {offset : Nat} (h : offset < buffer.length) :
    0 < (subarray buffer offset (offset + chunkSize)).length ∧
      (subarray buffer offset (offset + chunkSize)).length ≤ chunkSize := by
  have hpos : 0 < chunkSize := by decide
  rw [subarray, Nat.add_sub_cancel_left, List.length_take, List.length_drop]
  omega

theorem writeChunks_spec (buffer : Bytes) (offset : Nat) :
    ∃ writes chunks, writeChunks buffer offset = some writes ∧
    writes.flatten = (chunks.map Instream.framed).flatten ∧ ChunksOf (buffer.drop offset) chunks := by
  induction offset using writeChunks.induct buffer with
  | case1 offset hlt ih =>
    obtain ⟨writes, chunks, hwrites, hflatten, hwhole, hsizes⟩ := ih
    have hchunk := subarray_length hlt
    generalize hpart : subarray buffer offset (offset + chunkSize) = chunk at hchunk
    have hsmall : chunkSize < 2 ^ 32 := by decide
    have hsize : writeUInt32BE chunk.length = some (Instream.uint32 chunk.length) := if_pos (by omega)
    refine ⟨Instream.uint32 chunk.length :: chunk :: writes, chunk :: chunks, ?_, ?_, ?_, ?_⟩
    · rw [writeChunks, if_pos hlt]
      simp only [hpart, hwrites, hsize, Option.bind_eq_bind, Option.bind_some]
    · simp only [List.flatten_cons, List.map_cons, Instream.framed, List.append_assoc, hflatten]
    · rw [List.flatten_cons, hwhole, ← hpart]
      exact subarray_drop
    · exact List.forall_mem_cons.mpr ⟨hchunk, hsizes⟩
  | case2 offset hend =>
    refine ⟨[], [], ?_, rfl, ?_, by simp⟩
    · rw [writeChunks, if_neg hend]
    · rw [List.drop_of_length_le (by omega), List.flatten_nil]

/-- The scanner is sent the file, in chunks of at most 64 KiB, and nothing behind it. -/
theorem stream_is_the_file (buffer : Bytes) : ∃ stream chunks, sendClamAvInstream buffer = some stream ∧
    Instream.read command stream = some (chunks, []) ∧ ChunksOf buffer chunks := by
  obtain ⟨writes, chunks, hwrites, hflatten, hchunks⟩ := writeChunks_spec buffer 0
  have hsmall : ∀ chunk ∈ chunks, 0 < chunk.length ∧ chunk.length < 2 ^ 32 := by
    intro chunk hc
    have hlt : chunkSize < 2 ^ 32 := by decide
    exact ⟨(hchunks.sizes chunk hc).1, Nat.lt_of_le_of_lt (hchunks.sizes chunk hc).2 hlt⟩
  have hend : List.replicate 4 (0 : UInt8) = Instream.uint32 0 := by decide
  have hstream : ([command] ++ writes ++ [List.replicate 4 0]).flatten =
      command ++ ((chunks.map Instream.framed).flatten ++ (Instream.uint32 0 ++ [])) := by
    simp [hflatten, hend]
  refine ⟨([command] ++ writes ++ [List.replicate 4 0]).flatten, chunks, ?_, ?_, hchunks⟩
  · rw [sendClamAvInstream, hwrites]
    rfl
  · rw [hstream]
    exact Instream.read_framed hsmall command []

end MalwareScanner

end DocVault
