import MiniMem.WildCopy
import Mathlib.Logic.Function.Basic

/-!
# MiniMem.Compressors.Lz4.Encode

`LZ4_compress_default` of the vendored LZ4: `LZ4_compress_generic_validated`
without a dictionary, on a little-endian machine with 64-bit words.  Positions
are offsets from the start of the source, in the hash table too, and every
access to the source, the destination and the table is checked.

The main loop has two places that a turn begins at: the search for a match,
and `_next_match`, where a match is known and its literals are written.
-/

namespace MiniMem

/-! ## The hash table -/

/-- `tableType_t`, for a machine with 64-bit pointers. -/
inductive Lz4TableType where
  | byU32
  | byU16
  deriving DecidableEq, Repr

/-- `LZ4_HASHLOG`, or one more where the entries have half the size. -/
def Lz4TableType.hashLog : Lz4TableType → Nat
  | byU32 => 12
  | byU16 => 13

/-- The size of an entry in bits. -/
def Lz4TableType.entryBits : Lz4TableType → Nat
  | byU32 => 32
  | byU16 => 16

/-- `LZ4_hash4`. -/
def lz4Hash4 (sequence : Nat) (tableType : Lz4TableType) : Nat :=
  (sequence * 2654435761 % 2 ^ 32) >>> (32 - tableType.hashLog)

/-- `LZ4_hash5`. -/
def lz4Hash5 (sequence : Nat) (tableType : Lz4TableType) : Nat :=
  (sequence <<< 24 % 2 ^ 64 * 889523592379 % 2 ^ 64) >>> (64 - tableType.hashLog)

/-- `LZ4_hashPosition`. -/
def lz4HashPosition (src : List UInt8) (p : Nat) (tableType : Lz4TableType) : Except Stop Nat :=
  match tableType with
  | .byU32 => do
      let bs ← readAt src p 8
      pure (lz4Hash5 (leNat bs) tableType)
  | .byU16 => do
      let bs ← readAt src p 4
      pure (lz4Hash4 (leNat bs) tableType)

/-- `LZ4_putIndexOnHash`. -/
def lz4PutIndexOnHash (idx h : Nat) (table : Nat → Nat) (tableType : Lz4TableType) :
    Except Stop (Nat → Nat) :=
  if h < 2 ^ tableType.hashLog then
    pure (Function.update table h (idx % 2 ^ tableType.entryBits))
  else .error .oob

/-- `LZ4_getIndexOnHash`. -/
def lz4GetIndexOnHash (h : Nat) (table : Nat → Nat) (tableType : Lz4TableType) : Except Stop Nat :=
  if h < 2 ^ tableType.hashLog then pure (table h) else .error .oob

/-! ## Comparing -/

/-- `__builtin_ctzll`, of a value that is not 0. -/
def ctzll : Nat → Nat → Nat
  | 0, _ => 0
  | fuel + 1, n => if n % 2 = 1 then 0 else ctzll fuel (n / 2) + 1

/-- `LZ4_NbCommonBytes`. -/
def lz4NbCommonBytes (val : Nat) : Nat := ctzll 64 val >>> 3

/-- Whether the `n` bytes at two positions are equal: `LZ4_read16`, `LZ4_read32`. -/
def lz4Same (src : List UInt8) (n p q : Nat) : Except Stop Bool := do
  let a ← readAt src p n
  let b ← readAt src q n
  pure (decide (leNat a = leNat b))

/-- The exclusive or of the words at two positions: `LZ4_read_ARCH`. -/
def lz4Diff (src : List UInt8) (p q : Nat) : Except Stop Nat := do
  let a ← readAt src p 8
  let b ← readAt src q 8
  pure (leNat a ^^^ leNat b)

/-- Go on by `n` bytes where they are equal. -/
def lz4CountBytes (src : List UInt8) (n pInLimit pIn pMatch : Nat) : Except Stop (Nat × Nat) :=
  if pIn + (n - 1) < pInLimit then do
    let same ← lz4Same src n pMatch pIn
    pure (if same then (pIn + n, pMatch + n) else (pIn, pMatch))
  else pure (pIn, pMatch)

/-- The end of `LZ4_count`: four bytes, two and one. -/
def lz4CountTail (src : List UInt8) (pStart pInLimit pIn pMatch : Nat) : Except Stop Nat := do
  let (pIn, pMatch) ← lz4CountBytes src 4 pInLimit pIn pMatch
  let (pIn, pMatch) ← lz4CountBytes src 2 pInLimit pIn pMatch
  let (pIn, _) ← lz4CountBytes src 1 pInLimit pIn pMatch
  pure (pIn - pStart)

/-- The loop of `LZ4_count`. -/
def lz4CountLoop (src : List UInt8) (pStart pInLimit : Nat) : Nat → Nat → Nat → Except Stop Nat
  | 0, _, _ => .error .oob
  | fuel + 1, pIn, pMatch =>
      if pIn + 7 < pInLimit then do
        let diff ← lz4Diff src pMatch pIn
        if diff = 0 then lz4CountLoop src pStart pInLimit fuel (pIn + 8) (pMatch + 8)
        else pure (pIn + lz4NbCommonBytes diff - pStart)
      else lz4CountTail src pStart pInLimit pIn pMatch

/-- `LZ4_count`. -/
def lz4Count (src : List UInt8) (pIn pMatch pInLimit : Nat) : Except Stop Nat :=
  if pIn + 7 < pInLimit then do
    let diff ← lz4Diff src pMatch pIn
    if diff = 0 then lz4CountLoop src pIn pInLimit (src.length + 1) (pIn + 8) (pMatch + 8)
    else pure (lz4NbCommonBytes diff)
  else lz4CountLoop src pIn pInLimit (src.length + 1) pIn pMatch

/-! ## Finding a match -/

/-- Whether a match so far away is ignored; entries of 16 bits reach no further than
`LZ4_DISTANCE_MAX`. -/
def lz4TooFar (tableType : Lz4TableType) (matchIndex current : Nat) : Bool :=
  decide (tableType ≠ .byU16 ∧ matchIndex + 65535 < current)

/-- The search for a match: the position it was found for and where it begins, or `none` for
`_last_literals`. -/
def lz4Search (src : List UInt8) (tableType : Lz4TableType) (mflimitPlusOne : Nat) :
    Nat → (Nat → Nat) → Nat → Nat → Nat → Nat →
    Except Stop (Option ((Nat → Nat) × Nat × Nat))
  | 0, _, _, _, _, _ => .error .oob
  | fuel + 1, table, forwardIp, step, searchMatchNb, forwardH => do
      let h := forwardH
      let current := forwardIp
      let matchIndex ← lz4GetIndexOnHash h table tableType
      let ip := forwardIp
      let forwardIp := forwardIp + step
      let step := searchMatchNb >>> 6
      let searchMatchNb := searchMatchNb + 1
      if forwardIp > mflimitPlusOne then return none
      let forwardH ← lz4HashPosition src forwardIp tableType
      let table ← lz4PutIndexOnHash current h table tableType
      if lz4TooFar tableType matchIndex current then
        lz4Search src tableType mflimitPlusOne fuel table forwardIp step searchMatchNb forwardH
      else
        let same ← lz4Same src 4 matchIndex ip
        if same then return some (table, ip, matchIndex)
        else lz4Search src tableType mflimitPlusOne fuel table forwardIp step searchMatchNb forwardH

/-- The loop of the catch-up. -/
def lz4CatchUpLoop (src : List UInt8) (anchor : Nat) : Nat → Nat → Nat → Except Stop (Nat × Nat)
  | 0, _, _ => .error .oob
  | fuel + 1, ip, match_ => do
      let ip := ip - 1
      let match_ := match_ - 1
      if ip > anchor ∧ match_ > 0 then
        let same ← lz4Same src 1 (ip - 1) (match_ - 1)
        if same then lz4CatchUpLoop src anchor fuel ip match_ else pure (ip, match_)
      else pure (ip, match_)

/-- The catch-up: where the match begins once it is extended backwards. -/
def lz4CatchUp (src : List UInt8) (anchor ip match_ : Nat) : Except Stop (Nat × Nat) := do
  if match_ > 0 then
    let same ← lz4Same src 1 (ip - 1) (match_ - 1)
    if same then lz4CatchUpLoop src anchor (src.length + 1) ip match_ else pure (ip, match_)
  else pure (ip, match_)

/-- The next position: its table, and a match there or the hash that the search goes on from. -/
def lz4NextPosition (src : List UInt8) (tableType : Lz4TableType) (table : Nat → Nat) (ip : Nat) :
    Except Stop ((Nat → Nat) × (Nat ⊕ Nat)) := do
  -- fill the table
  let h ← lz4HashPosition src (ip - 2) tableType
  let table ← lz4PutIndexOnHash (ip - 2) h table tableType
  -- test the next position
  let h ← lz4HashPosition src ip tableType
  let current := ip
  let matchIndex ← lz4GetIndexOnHash h table tableType
  let table ← lz4PutIndexOnHash current h table tableType
  let same ← if lz4TooFar tableType matchIndex current then pure false
    else lz4Same src 4 matchIndex ip
  if same then return (table, .inl matchIndex)
  -- prepare the next loop
  let forwardH ← lz4HashPosition src (ip + 1) tableType
  return (table, .inr forwardH)

/-! ## Writing a sequence -/

/-- The bytes that add to a number of literals. -/
def lz4WriteLength : Nat → List UInt8 → Nat → Nat → Except Stop (List UInt8 × Nat)
  | 0, _, _, _ => .error .oob
  | fuel + 1, dst, op, len =>
      if len ≥ 255 then do
        let dst ← writeAt dst op [255]
        lz4WriteLength fuel dst (op + 1) (len - 255)
      else do
        let dst ← writeAt dst op [UInt8.ofNat len]
        pure (dst, op + 1)

/-- The token and the bytes of a number of literals. -/
def lz4WriteRun (dst : List UInt8) (op len : Nat) : Except Stop (List UInt8 × Nat) :=
  if len ≥ 15 then do
    let dst ← writeAt dst op [UInt8.ofNat (15 <<< 4)]
    lz4WriteLength (len + 1) dst (op + 1) (len - 15)
  else do
    let dst ← writeAt dst op [UInt8.ofNat (len <<< 4)]
    pure (dst, op + 1)

/-- The loop that writes the length of a match four bytes at a time. -/
def lz4WriteMatchLoop : Nat → List UInt8 → Nat → Nat → Except Stop (List UInt8 × Nat × Nat)
  | 0, _, _, _ => .error .oob
  | fuel + 1, dst, op, matchCode =>
      if matchCode ≥ 4 * 255 then do
        let dst ← writeAt dst (op + 4) [255, 255, 255, 255]
        lz4WriteMatchLoop fuel dst (op + 4) (matchCode - 4 * 255)
      else pure (dst, op, matchCode)

/-- The length of a match, whose token is at `token`. -/
def lz4WriteMatchLength (dst : List UInt8) (op token matchCode : Nat) :
    Except Stop (List UInt8 × Nat) := do
  let t ← readByte dst token
  if matchCode ≥ 15 then
    let dst ← writeAt dst token [t + 15]
    let matchCode := matchCode - 15
    let dst ← writeAt dst op [255, 255, 255, 255]
    let (dst, op, matchCode) ← lz4WriteMatchLoop (matchCode + 1) dst op matchCode
    let op := op + matchCode / 255
    let dst ← writeAt dst op [UInt8.ofNat (matchCode % 255)]
    pure (dst, op + 1)
  else
    let dst ← writeAt dst token [t + UInt8.ofNat matchCode]
    pure (dst, op)

/-! ## LZ4_compress_generic_validated -/

/-- `limitedOutput_directive`, for a destination that may be too small or may not. -/
inductive Lz4Output where
  | notLimited
  | limitedOutput
  deriving DecidableEq, Repr

/-- What a call compresses, and how it looks for matches. -/
structure Lz4Input where
  src : List UInt8
  inputSize : Nat
  tableType : Lz4TableType
  acceleration : Nat

/-- `iend - MFLIMIT + 1`. -/
def Lz4Input.mflimitPlusOne (c : Lz4Input) : Nat := c.inputSize - 12 + 1

/-- `iend - LASTLITERALS`. -/
def Lz4Input.matchlimit (c : Lz4Input) : Nat := c.inputSize - 5

/-- A call, with the end of its output. -/
structure Lz4Call extends Lz4Input where
  olimit : Int
  outputDirective : Lz4Output

/-- Whether a write up to `n` does not fit. -/
def Lz4Call.overflows (c : Lz4Call) (n : Nat) : Bool :=
  decide (c.outputDirective = .limitedOutput ∧ (n : Int) > c.olimit)

/-- The variables of the main loop. -/
structure Lz4Encoder where
  ip : Nat
  anchor : Nat
  op : Nat
  dst : List UInt8
  table : Nat → Nat

/-- Where the main loop goes on. -/
inductive Lz4Turn where
  | ret (value : Int) (dst : List UInt8)
  | find (forwardH : Nat) (s : Lz4Encoder)
  | nextMatch (token match_ : Nat) (s : Lz4Encoder)

/-- `_last_literals`. -/
def lz4LastLiterals (c : Lz4Call) (s : Lz4Encoder) : Except Stop Lz4Turn := do
  let lastRun := c.inputSize - s.anchor
  if c.overflows (s.op + lastRun + 1 + (lastRun + 255 - 15) / 255) then return .ret 0 s.dst
  let (dst, op) ← lz4WriteRun s.dst s.op lastRun
  let dst ← copyIn c.src dst op s.anchor lastRun
  return .ret ((op + lastRun : Nat) : Int) dst

/-- The literals of a sequence, whose match is known. -/
def lz4EncodeLiterals (c : Lz4Call) (match_ : Nat) (s : Lz4Encoder) : Except Stop Lz4Turn := do
  let litLength := s.ip - s.anchor
  let token := s.op
  -- an offset, a token and `LASTLITERALS`
  if c.overflows (s.op + 1 + litLength + (2 + 1 + 5) + litLength / 255) then return .ret 0 s.dst
  let (dst, op) ← lz4WriteRun s.dst s.op litLength
  let dst ← strideCopy (fun dst d s => copyIn c.src dst d s 8) 8 (litLength + 1) dst op s.anchor
    (op + litLength)
  return .nextMatch token match_ { s with op := op + litLength, dst := dst }

/-- A turn of the main loop from its beginning: find a match, catch up, encode the literals. -/
def lz4FindMatch (c : Lz4Call) (forwardH : Nat) (s : Lz4Encoder) : Except Stop Lz4Turn := do
  match ← lz4Search c.src c.tableType c.mflimitPlusOne (c.inputSize + 1) s.table s.ip 1
      (c.acceleration <<< 6) forwardH with
  | none => lz4LastLiterals c s
  | some (table, ip, match_) =>
      let (ip, match_) ← lz4CatchUp c.src s.anchor ip match_
      lz4EncodeLiterals c match_ { s with ip := ip, table := table }

/-- A turn from `_next_match`: encode the offset and the length, and test the next position. -/
def lz4NextMatch (c : Lz4Call) (token match_ : Nat) (s : Lz4Encoder) : Except Stop Lz4Turn := do
  let dst ← writeAt s.dst s.op (leBytes 2 (s.ip - match_))
  let op := s.op + 2
  let matchCode ← lz4Count c.src (s.ip + 4) (match_ + 4) c.matchlimit
  let ip := s.ip + (matchCode + 4)
  if c.overflows (op + (1 + 5) + (matchCode + 240) / 255) then return .ret 0 dst
  let (dst, op) ← lz4WriteMatchLength dst op token matchCode
  let anchor := ip
  if ip ≥ c.mflimitPlusOne then lz4LastLiterals c ⟨ip, anchor, op, dst, s.table⟩
  else
    let (table, next) ← lz4NextPosition c.src c.tableType s.table ip
    match next with
    | .inl match_ =>
        let dst ← writeAt dst op [0]
        return .nextMatch op match_ ⟨ip, anchor, op + 1, dst, table⟩
    | .inr forwardH => return .find forwardH ⟨ip + 1, anchor, op, dst, table⟩

/-- The main loop. -/
def lz4MainLoop (c : Lz4Call) : Nat → Lz4Turn → Except Stop (Int × List UInt8)
  | _, .ret value dst => pure (value, dst)
  | 0, _ => .error .oob
  | fuel + 1, .find forwardH s => do
      let turn ← lz4FindMatch c forwardH s
      lz4MainLoop c fuel turn
  | fuel + 1, .nextMatch token match_ s => do
      let turn ← lz4NextMatch c token match_ s
      lz4MainLoop c fuel turn

/-- `LZ4_compress_generic_validated` on a cleared table: what it returns, and the destination. -/
def lz4CompressGenericValidated (c : Lz4Call) (dst : List UInt8) :
    Except Stop (Int × List UInt8) := do
  let s : Lz4Encoder := ⟨0, 0, 0, dst, fun _ => 0⟩
  -- `LZ4_minLength`
  if c.inputSize < 13 then
    let turn ← lz4LastLiterals c s
    lz4MainLoop c 0 turn
  else
    let h ← lz4HashPosition c.src 0 c.tableType
    let table ← lz4PutIndexOnHash 0 h s.table c.tableType
    let forwardH ← lz4HashPosition c.src 1 c.tableType
    lz4MainLoop c (2 * c.inputSize + 2) (.find forwardH { s with ip := 1, table := table })

/-! ## LZ4_compress_default -/

/-- `LZ4_COMPRESSBOUND`. -/
def lz4CompressBound (isize : Int) : Int :=
  if isize < 0 ∨ isize > 0x7E000000 then 0 else isize + isize / 255 + 16

/-- `LZ4_compress_generic`. -/
def lz4CompressGeneric (src dst : List UInt8) (srcSize dstCapacity : Int)
    (outputDirective : Lz4Output) (tableType : Lz4TableType) (acceleration : Nat) :
    Except Stop (Int × List UInt8) := do
  -- `LZ4_MAX_INPUT_SIZE`, of an unsigned size
  if srcSize < 0 ∨ srcSize > 0x7E000000 then return (0, dst)
  if srcSize = 0 then
    if outputDirective ≠ .notLimited ∧ dstCapacity ≤ 0 then return (0, dst)
    let dst ← writeAt dst 0 [0]
    return (1, dst)
  lz4CompressGenericValidated
    ⟨⟨src, srcSize.toNat, tableType, acceleration⟩, dstCapacity, outputDirective⟩ dst

/-- `LZ4_compress_fast_extState`. -/
def lz4CompressFastExtState (src dst : List UInt8) (inputSize maxOutputSize acceleration : Int) :
    Except Stop (Int × List UInt8) :=
  -- `LZ4_ACCELERATION_DEFAULT` and `LZ4_ACCELERATION_MAX`
  let acceleration := if acceleration < 1 then 1 else acceleration
  let acceleration := if acceleration > 65537 then 65537 else acceleration
  -- `LZ4_64Klimit`
  let tableType := if inputSize < 65547 then .byU16 else .byU32
  if maxOutputSize ≥ lz4CompressBound inputSize then
    lz4CompressGeneric src dst inputSize 0 .notLimited tableType acceleration.toNat
  else
    lz4CompressGeneric src dst inputSize maxOutputSize .limitedOutput tableType acceleration.toNat

/-- `LZ4_compress_default`. -/
def lz4CompressDefault (src dst : List UInt8) (srcSize dstCapacity : Int) :
    Except Stop (Int × List UInt8) :=
  lz4CompressFastExtState src dst srcSize dstCapacity 1

end MiniMem
