import MiniMem.WildCopy

/-!
# MiniMem.Compressors.Lz4.Decode

`LZ4_decompress_safe` of the vendored LZ4: `LZ4_decompress_generic` for a full
block without a dictionary.  Pointers are offsets from the start of the two
buffers, `iend` and `oend` are the sizes that the caller passed, and every
access is checked against the buffer itself.

The two loops decode one sequence at a time.  The fast one, which only some
builds have, goes on as long as 64 bytes are free in the output; it leaves for
the safe loop in the middle of a sequence, at its literals or at its match.
-/

namespace MiniMem

/-- Where the decoder is. -/
structure Lz4Decoder where
  ip : Nat
  op : Nat
  dst : List UInt8

/-- What the decoder does behind a sequence. -/
inductive Lz4Exit where
  | ret (value : Int) (dst : List UInt8)
  | next (s : Lz4Decoder)

/-- `_output_error`. -/
def lz4OutputError (s : Lz4Decoder) : Lz4Exit := .ret (-(s.ip : Int) - 1) s.dst

/-! ## Copies -/

/-- `LZ4_wildCopy8` from the source. -/
def lz4WildCopy8From (src dst : List UInt8) (d s e : Nat) : Except Stop (List UInt8) :=
  strideCopy (fun dst d s => copyIn src dst d s 8) 8 (e - d + 1) dst d s e

/-- `LZ4_wildCopy8` within the output. -/
def lz4WildCopy8 (dst : List UInt8) (d s e : Nat) : Except Stop (List UInt8) :=
  strideCopy (fun dst d s => copyIn dst dst d s 8) 8 (e - d + 1) dst d s e

/-- `LZ4_wildCopy32` from the source. -/
def lz4WildCopy32From (src dst : List UInt8) (d s e : Nat) : Except Stop (List UInt8) :=
  strideCopy (fun dst d s => do
      let dst ← copyIn src dst d s 16
      copyIn src dst (d + 16) (s + 16) 16) 32 (e - d + 1) dst d s e

/-- `LZ4_wildCopy32` within the output. -/
def lz4WildCopy32 (dst : List UInt8) (d s e : Nat) : Except Stop (List UInt8) :=
  strideCopy (fun dst d s => do
      let dst ← copyIn dst dst d s 16
      copyIn dst dst (d + 16) (s + 16) 16) 32 (e - d + 1) dst d s e

/-- `inc32table`. -/
def inc32table : Nat → Nat
  | 1 => 1
  | 2 => 2
  | 3 => 1
  | 5 => 4
  | 6 => 4
  | 7 => 4
  | _ => 0

/-- `dec64table`. -/
def dec64table : Nat → Int
  | 3 => -1
  | 4 => -4
  | 5 => 1
  | 6 => 2
  | 7 => 3
  | _ => 0

/-- The first eight bytes of a match at `s`, and where the next ones are copied from. -/
def lz4MatchHead (dst : List UInt8) (d s offset : Nat) : Except Stop (List UInt8 × Nat) :=
  if offset < 8 then do
    let dst ← writeAt dst d [0, 0, 0, 0]
    let dst ← byteCopy 4 dst d s
    let s := s + inc32table offset
    let dst ← copyIn dst dst (d + 4) s 4
    pure (dst, (s - dec64table offset).toNat)
  else do
    let dst ← copyIn dst dst d s 8
    pure (dst, s + 8)

/-- `LZ4_memcpy_using_offset_base`. -/
def lz4MemcpyUsingOffsetBase (dst : List UInt8) (d s e offset : Nat) : Except Stop (List UInt8) := do
  let (dst, s) ← lz4MatchHead dst d s offset
  lz4WildCopy8 dst (d + 8) s e

/-- The end of `LZ4_memcpy_using_offset`: eight bytes over and over. -/
def lz4FillPattern (v dst : List UInt8) (d e : Nat) : Except Stop (List UInt8) :=
  strideCopy (fun dst d _ => writeAt dst d v) 8 (e - d + 1) dst d 0 e

/-- `LZ4_memcpy_using_offset`. -/
def lz4MemcpyUsingOffset (dst : List UInt8) (d s e offset : Nat) : Except Stop (List UInt8) :=
  match offset with
  | 1 => do
      let b ← readByte dst s
      lz4FillPattern (List.replicate 8 b) dst d e
  | 2 => do
      let bs ← readAt dst s 2
      lz4FillPattern ((bs ++ bs) ++ (bs ++ bs)) dst d e
  | 4 => do
      let bs ← readAt dst s 4
      lz4FillPattern (bs ++ bs) dst d e
  | offset => lz4MemcpyUsingOffsetBase dst d s e offset

/-- The eighteen bytes that are copied for a short match. -/
def lz4CopyMatch18 (dst : List UInt8) (d s : Nat) : Except Stop (List UInt8) := do
  let dst ← copyIn dst dst d s 8
  let dst ← copyIn dst dst (d + 8) (s + 8) 8
  copyIn dst dst (d + 16) (s + 16) 2

/-! ## Reading -/

/-- The loop of `read_variable_length`. -/
def readLengthBytes (src : List UInt8) (ilimit : Int) :
    Nat → Nat → Nat → Except Stop (Nat × Option Nat)
  | 0, _, _ => .error .oob
  | fuel + 1, ip, length => do
      let s ← readByte src ip
      if ((ip + 1 : Nat) : Int) > ilimit then pure (ip + 1, none)
      else if s ≠ 255 then pure (ip + 1, some (length + s.toNat))
      else readLengthBytes src ilimit fuel (ip + 1) (length + s.toNat)

/-- `read_variable_length`: where it stops reading, and the length, or `none` for
`rvl_error`. -/
def readVariableLength (src : List UInt8) (ip : Nat) (ilimit : Int) (initialCheck : Bool) :
    Except Stop (Nat × Option Nat) :=
  if initialCheck = true ∧ (ip : Int) ≥ ilimit then pure (ip, none)
  else readLengthBytes src ilimit (src.length + 1) ip 0

/-- `LZ4_readLE16`. -/
def lz4ReadLE16 (src : List UInt8) (pos : Nat) : Except Stop Nat := do
  let bs ← readAt src pos 2
  pure (leNat bs)

/-! ## The safe loop -/

/-- From `safe_match_copy` on; `length` is the length of the match. -/
def safeMatchCopy (oend : Int) (offset length : Nat) (s : Lz4Decoder) : Except Stop Lz4Exit := do
  -- `match < lowPrefix`
  if s.op < offset then return lz4OutputError s
  let cpy := s.op + length
  let (dst, from_) ← lz4MatchHead s.dst s.op (s.op - offset) offset
  let op := s.op + 8
  -- `MATCH_SAFEGUARD_DISTANCE`
  if (cpy : Int) > oend - 12 then
    -- `LASTLITERALS`
    if (cpy : Int) > oend - 5 then return lz4OutputError { s with dst := dst }
    let oCopyLimit := (oend - 7).toNat
    if op < oCopyLimit then
      let dst ← lz4WildCopy8 dst op from_ oCopyLimit
      let dst ← byteCopy (cpy - oCopyLimit) dst oCopyLimit (from_ + (oCopyLimit - op))
      return .next ⟨s.ip, cpy, dst⟩
    else
      let dst ← byteCopy (cpy - op) dst op from_
      return .next ⟨s.ip, cpy, dst⟩
  else
    let dst ← copyIn dst dst op from_ 8
    if length > 16 then
      let dst ← lz4WildCopy8 dst (op + 8) (from_ + 8) cpy
      return .next ⟨s.ip, cpy, dst⟩
    else return .next ⟨s.ip, cpy, dst⟩

/-- From `_copy_match` on. -/
def copyMatch (src : List UInt8) (iend oend : Int) (token : UInt8) (offset : Nat)
    (s : Lz4Decoder) : Except Stop Lz4Exit := do
  let length := token.toNat &&& 15
  if length = 15 then
    let (ip, addl) ← readVariableLength src s.ip (iend - 5 + 1) false
    match addl with
    | none => return lz4OutputError { s with ip := ip }
    | some addl => safeMatchCopy oend offset (length + addl + 4) { s with ip := ip }
  else safeMatchCopy oend offset (length + 4) s

/-- From `safe_literal_copy` on. -/
def safeLiteralCopy (src : List UInt8) (iend oend : Int) (token : UInt8) (length : Nat)
    (s : Lz4Decoder) : Except Stop Lz4Exit := do
  let cpy := s.op + length
  -- `MFLIMIT`, and an offset, a token and `LASTLITERALS`
  if (cpy : Int) > oend - 12 ∨ ((s.ip + length : Nat) : Int) > iend - (2 + 1 + 5) then
    if ((s.ip + length : Nat) : Int) ≠ iend ∨ (cpy : Int) > oend then return lz4OutputError s
    let dst ← copyIn src s.dst s.op s.ip length
    return .ret cpy dst
  else
    let dst ← lz4WildCopy8From src s.dst s.op s.ip cpy
    let ip := s.ip + length
    let offset ← lz4ReadLE16 src ip
    copyMatch src iend oend token offset ⟨ip + 2, cpy, dst⟩

/-- The second stage of the shortcut of the safe loop, behind its literals. -/
def safeShortcut (src : List UInt8) (iend oend : Int) (token : UInt8) (s : Lz4Decoder) :
    Except Stop Lz4Exit := do
  let length := token.toNat &&& 15
  let offset ← lz4ReadLE16 src s.ip
  let s := { s with ip := s.ip + 2 }
  if length ≠ 15 ∧ offset ≥ 8 ∧ offset ≤ s.op then
    let dst ← lz4CopyMatch18 s.dst s.op (s.op - offset)
    return .next ⟨s.ip, s.op + (length + 4), dst⟩
  else copyMatch src iend oend token offset s

/-- A turn of the safe loop. -/
def safeDecodeStep (src : List UInt8) (iend oend : Int) (s : Lz4Decoder) :
    Except Stop Lz4Exit := do
  let token ← readByte src s.ip
  let s := { s with ip := s.ip + 1 }
  let length := token.toNat >>> 4
  -- `shortiend` and `shortoend`
  if length ≠ 15 ∧ (s.ip : Int) < iend - 14 - 2 ∧ (s.op : Int) ≤ oend - 14 - 18 then
    let dst ← copyIn src s.dst s.op s.ip 16
    safeShortcut src iend oend token ⟨s.ip + length, s.op + length, dst⟩
  else if length = 15 then
    let (ip, addl) ← readVariableLength src s.ip (iend - 15) true
    match addl with
    | none => return lz4OutputError { s with ip := ip }
    | some addl => safeLiteralCopy src iend oend token (length + addl) { s with ip := ip }
  else safeLiteralCopy src iend oend token length s

/-- The safe loop. -/
def safeDecode (src : List UInt8) (iend oend : Int) :
    Nat → Lz4Decoder → Except Stop (Int × List UInt8)
  | 0, _ => .error .oob
  | fuel + 1, s => do
      match ← safeDecodeStep src iend oend s with
      | .ret value dst => pure (value, dst)
      | .next s => safeDecode src iend oend fuel s

/-! ## The fast loop -/

/-- What the fast loop does behind a sequence: it stays, or it leaves for the safe loop or
returns. -/
inductive FastExit where
  | stay (s : Lz4Decoder)
  | leave (e : Lz4Exit)

/-- The end of a turn: a match within the block. -/
def fastMatchCopy (offset length : Nat) (s : Lz4Decoder) : Except Stop FastExit := do
  if s.op < offset then return .leave (lz4OutputError s)
  let cpy := s.op + length
  if offset < 16 then
    let dst ← lz4MemcpyUsingOffset s.dst s.op (s.op - offset) cpy offset
    return .stay ⟨s.ip, cpy, dst⟩
  else
    let dst ← lz4WildCopy32 s.dst s.op (s.op - offset) cpy
    return .stay ⟨s.ip, cpy, dst⟩

/-- The match of a turn, behind its literals. -/
def fastMatch (src : List UInt8) (iend oend : Int) (token : UInt8) (s : Lz4Decoder) :
    Except Stop FastExit := do
  let offset ← lz4ReadLE16 src s.ip
  let s := { s with ip := s.ip + 2 }
  let length := token.toNat &&& 15
  if length = 15 then
    let (ip, addl) ← readVariableLength src s.ip (iend - 5 + 1) false
    match addl with
    | none => return .leave (lz4OutputError { s with ip := ip })
    | some addl =>
        let s := { s with ip := ip }
        let length := length + addl + 4
        -- `FASTLOOP_SAFE_DISTANCE`
        if ((s.op + length : Nat) : Int) ≥ oend - 64 then
          let e ← safeMatchCopy oend offset length s
          return .leave e
        else fastMatchCopy offset length s
  else
    let length := length + 4
    if ((s.op + length : Nat) : Int) ≥ oend - 64 then
      let e ← safeMatchCopy oend offset length s
      return .leave e
    else if offset ≤ s.op ∧ offset ≥ 8 then
      let dst ← lz4CopyMatch18 s.dst s.op (s.op - offset)
      return .stay ⟨s.ip, s.op + length, dst⟩
    else fastMatchCopy offset length s

/-- A turn of the fast loop. -/
def fastDecodeStep (src : List UInt8) (iend oend : Int) (s : Lz4Decoder) :
    Except Stop FastExit := do
  let token ← readByte src s.ip
  let s := { s with ip := s.ip + 1 }
  let length := token.toNat >>> 4
  if length = 15 then
    let (ip, addl) ← readVariableLength src s.ip (iend - 15) true
    match addl with
    | none => return .leave (lz4OutputError { s with ip := ip })
    | some addl =>
        let s := { s with ip := ip }
        let length := length + addl
        if ((s.op + length : Nat) : Int) > oend - 32 ∨ ((s.ip + length : Nat) : Int) > iend - 32 then
          let e ← safeLiteralCopy src iend oend token length s
          return .leave e
        else
          let dst ← lz4WildCopy32From src s.dst s.op s.ip (s.op + length)
          fastMatch src iend oend token ⟨s.ip + length, s.op + length, dst⟩
  else if (s.ip : Int) ≤ iend - (16 + 1) then
    let dst ← copyIn src s.dst s.op s.ip 16
    fastMatch src iend oend token ⟨s.ip + length, s.op + length, dst⟩
  else
    let e ← safeLiteralCopy src iend oend token length s
    return .leave e

/-- The fast loop. -/
def fastDecode (src : List UInt8) (iend oend : Int) :
    Nat → Lz4Decoder → Except Stop (Int × List UInt8)
  | 0, _ => .error .oob
  | fuel + 1, s => do
      match ← fastDecodeStep src iend oend s with
      | .stay s => fastDecode src iend oend fuel s
      | .leave (.ret value dst) => pure (value, dst)
      | .leave (.next s) => safeDecode src iend oend (src.length + 1) s

/-! ## LZ4_decompress_safe -/

/-- `LZ4_decompress_generic` with `decode_full_block` and `noDict`; `fastDecLoop` is
`LZ4_FAST_DEC_LOOP`.  What it returns, and the destination. -/
def lz4DecompressGeneric (fastDecLoop : Bool) (src : List UInt8) (srcSize : Int)
    (dst : List UInt8) (outputSize : Int) : Except Stop (Int × List UInt8) := do
  if outputSize < 0 then return (-1, dst)
  if outputSize = 0 then
    if srcSize = 1 then
      let b ← readByte src 0
      return (if b = 0 then 0 else -1, dst)
    else return (-1, dst)
  if srcSize = 0 then return (-1, dst)
  if fastDecLoop = true ∧ ¬ outputSize < 64 then
    fastDecode src srcSize outputSize (src.length + 1) ⟨0, 0, dst⟩
  else safeDecode src srcSize outputSize (src.length + 1) ⟨0, 0, dst⟩

/-- `LZ4_decompress_safe`. -/
def lz4DecompressSafe (fastDecLoop : Bool) (src : List UInt8) (compressedSize : Int)
    (dst : List UInt8) (maxDecompressedSize : Int) : Except Stop (Int × List UInt8) :=
  lz4DecompressGeneric fastDecLoop src compressedSize dst maxDecompressedSize

end MiniMem
