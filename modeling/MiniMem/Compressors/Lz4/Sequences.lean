import MiniMem.Compressors.Lz4.Search

/-!
# MiniMem.Compressors.Lz4.Sequences

The sequences that the LZ4 encoder finds, without what it writes: the main
loop looks at its output only to give up, so what it writes is the block
`lz4BlockOf` of these sequences or nothing.  A turn keeps the table below the
position the next search begins at, since a match ends behind the position it
was found for (`Lz4Found.Good`).  So every match begins in what has been
expanded and meets the restrictions at the end of the block, and the block
expands to the source (`lz4BlockOf_ok`).
-/

namespace MiniMem

/-! ## The main loop without its output -/

/-- The variables of the main loop that are not about its output. -/
structure Lz4Finder where
  ip : Nat
  anchor : Nat
  table : Nat → Nat

/-- Where the main loop goes on. -/
inductive Lz4Found where
  | last (anchor : Nat)
  | find (forwardH : Nat) (f : Lz4Finder)
  | nextMatch (match_ : Nat) (f : Lz4Finder)

/-- `lz4FindMatch` without its output. -/
def lz4FindSequence (c : Lz4Input) (forwardH : Nat) (f : Lz4Finder) : Except Stop Lz4Found := do
  match ← lz4Search c.src c.tableType c.mflimitPlusOne (c.inputSize + 1) f.table f.ip 1
      (c.acceleration <<< 6) forwardH with
  | none => pure (.last f.anchor)
  | some (table, ip, match_) =>
      let (ip, match_) ← lz4CatchUp c.src f.anchor ip match_
      pure (.nextMatch match_ { f with ip := ip, table := table })

/-- `lz4NextMatch` without its output, and the sequence it writes. -/
def lz4TakeSequence (c : Lz4Input) (match_ : Nat) (f : Lz4Finder) :
    Except Stop (Lz4Sequence × Lz4Found) := do
  let matchCode ← lz4Count c.src (f.ip + 4) (match_ + 4) c.matchlimit
  let ip := f.ip + (matchCode + 4)
  let s : Lz4Sequence :=
    ⟨(c.src.drop f.anchor).take (f.ip - f.anchor), f.ip - match_, matchCode⟩
  if ip ≥ c.mflimitPlusOne then pure (s, .last ip)
  else
    let (table, next) ← lz4NextPosition c.src c.tableType f.table ip
    match next with
    | .inl match_ => pure (s, .nextMatch match_ ⟨ip, ip, table⟩)
    | .inr forwardH => pure (s, .find forwardH ⟨ip + 1, ip, table⟩)

/-- The sequences that the main loop writes, and where the last literals begin. -/
def lz4Sequences (c : Lz4Input) : Nat → Lz4Found → Except Stop (List Lz4Sequence × Nat)
  | _, .last anchor => pure ([], anchor)
  | 0, _ => .error .oob
  | fuel + 1, .find forwardH f => do
      let found ← lz4FindSequence c forwardH f
      lz4Sequences c fuel found
  | fuel + 1, .nextMatch match_ f => do
      let (s, found) ← lz4TakeSequence c match_ f
      let (ss, anchor) ← lz4Sequences c fuel found
      pure (s :: ss, anchor)

/-- Where the main loop begins. -/
def lz4FirstFound (c : Lz4Input) : Except Stop Lz4Found :=
  if c.inputSize < 13 then pure (.last 0)
  else do
    let h ← lz4HashPosition c.src 0 c.tableType
    let table ← lz4PutIndexOnHash 0 h (fun _ => 0) c.tableType
    let forwardH ← lz4HashPosition c.src 1 c.tableType
    pure (.find forwardH ⟨1, 0, table⟩)

/-- The sequences of a call. -/
def lz4CallSequences (c : Lz4Input) : Except Stop (List Lz4Sequence × Nat) := do
  let found ← lz4FirstFound c
  lz4Sequences c (2 * c.inputSize + 2) found

/-- The block of a call. -/
def lz4BlockOf (c : Lz4Input) : Lz4Block :=
  match lz4CallSequences c with
  | .ok (ss, anchor) => ⟨ss, c.src.drop anchor, 0⟩
  | .error _ => ⟨[], c.src, 0⟩

/-! ## What a turn keeps -/

/-- What the callers of the main loop see to. -/
structure Lz4Input.Valid (c : Lz4Input) : Prop where
  size_eq : c.inputSize = c.src.length
  short : c.tableType = .byU16 → c.inputSize < 65547
  accelerated : 1 ≤ c.acceleration

/-- Where the next literals begin. -/
def Lz4Found.anchor : Lz4Found → Nat
  | last anchor => anchor
  | find _ f | nextMatch _ f => f.anchor

/-- What is left to do, in turns. -/
def Lz4Found.left (c : Lz4Input) : Lz4Found → Nat
  | last _ => 0
  | find _ f => 2 * (c.inputSize - f.anchor) + 1
  | nextMatch _ f => 2 * (c.inputSize - f.anchor)

/-- What holds where the main loop goes on: the table holds positions before the one that is
searched from, or before the end of the match that is known. -/
def Lz4Found.Good (c : Lz4Input) : Lz4Found → Prop
  | last anchor => anchor ≤ c.inputSize
  | find forwardH f =>
      13 ≤ c.inputSize ∧ forwardH < 2 ^ c.tableType.hashLog ∧ f.anchor < f.ip ∧
        f.ip ≤ c.mflimitPlusOne ∧ TableBelow f.ip f.table
  | nextMatch match_ f =>
      13 ≤ c.inputSize ∧ f.anchor ≤ f.ip ∧ ∃ b, f.ip + b < c.mflimitPlusOne ∧
        TableBelow (f.ip + b + 1) f.table ∧ Lz4Match c.src f.ip match_ (b + 4)

section Turns

variable {c : Lz4Input} {f : Lz4Finder}

/-- The search of a turn, and its catch-up. -/
theorem lz4FindSequence_ok (hc : c.Valid) {forwardH : Nat} (h : (Lz4Found.find forwardH f).Good c) :
    lz4Search c.src c.tableType c.mflimitPlusOne (c.inputSize + 1) f.table f.ip 1
        (c.acceleration <<< 6) forwardH = .ok none ∧ (Lz4Found.last f.anchor).Good c ∨
      ∃ table ip match_ b,
        lz4Search c.src c.tableType c.mflimitPlusOne (c.inputSize + 1) f.table f.ip 1
          (c.acceleration <<< 6) forwardH = .ok (some (table, ip, match_)) ∧
        lz4CatchUp c.src f.anchor ip match_ = .ok (ip - b, match_ - b) ∧
        (Lz4Found.nextMatch (match_ - b) { f with ip := ip - b, table := table }).Good c := by
  obtain ⟨hmin, hH, hanchor, hip, ht⟩ := h
  obtain ⟨hsize, hshort, hacc⟩ := hc
  have hmf : c.mflimitPlusOne = c.inputSize - 12 + 1 := rfl
  have hnb : 64 ≤ c.acceleration <<< 6 := by
    rw [Nat.shiftLeft_eq]
    omega
  obtain hnone | ⟨table, ip, match_, hsome, hle, hlt, ht', hmatch⟩ := lz4Search_ok
    (show c.mflimitPlusOne + 8 ≤ c.src.length by omega)
    (fun h16 => by have := hshort h16; omega) ht hH Nat.one_pos hnb
    (show c.mflimitPlusOne - f.ip < c.inputSize + 1 by omega)
  · exact .inl ⟨hnone, show f.anchor ≤ c.inputSize by omega⟩
  · obtain ⟨b, hcatch, hb, hback, hmatch'⟩ := lz4CatchUp_ok (show f.anchor < ip by omega) hmatch
      (by omega)
    refine .inr ⟨table, ip, match_, b, hsome, hcatch, hmin, by simp; omega, b, ?_, ?_, hmatch'⟩
    · simp only
      omega
    · rwa [show ip - b + b + 1 = ip + 1 by omega]

/-- The match of a turn, and where it ends. -/
theorem lz4Count_of_good (hc : c.Valid) {match_ : Nat} (h : (Lz4Found.nextMatch match_ f).Good c) :
    ∃ matchCode, lz4Count c.src (f.ip + 4) (match_ + 4) c.matchlimit = .ok matchCode ∧
      f.ip + (matchCode + 4) + 5 ≤ c.inputSize ∧ f.ip + 12 ≤ c.inputSize ∧
      Lz4Match c.src f.ip match_ (matchCode + 4) ∧
      TableBelow (f.ip + (matchCode + 4)) f.table := by
  obtain ⟨hmin, hanchor, b, hip, ht, hlt, hnear, hsame⟩ := h
  obtain ⟨hsize, -, -⟩ := hc
  have hmf : c.mflimitPlusOne = c.inputSize - 12 + 1 := rfl
  have hml : c.matchlimit = c.inputSize - 5 := rfl
  obtain ⟨n, hlong⟩ := exists_longestAt c.src (match_ + 4)
    (show f.ip + 4 ≤ c.matchlimit by omega)
  have hsame₄ : SameAt c.src match_ f.ip 4 := hsame.mono (by omega)
  have hrest : SameAt c.src (match_ + 4) (f.ip + 4) b := SameAt.drop (by rwa [Nat.add_comm])
  -- the match goes on at least to where the table was filled
  have hb : b ≤ n := (hlong.sameAt_iff (by omega)).1 hrest
  have hle := hlong.le
  refine ⟨n, lz4Count_longestAt hlong (by omega) (by omega), by omega, by omega,
    ⟨hlt, hnear, ?_⟩, ht.mono (by omega)⟩
  rw [Nat.add_comm]
  exact hsame₄.add hlong.same

/-- What is known behind a match, where the next position is tested. -/
theorem lz4NextPosition_of_good (hc : c.Valid) {ip : Nat} {table : Nat → Nat} (hip : 4 ≤ ip)
    (ht : TableBelow ip table) (hmin : 13 ≤ c.inputSize) (hend : ¬ ip ≥ c.mflimitPlusOne) :
    ∃ table' next, lz4NextPosition c.src c.tableType table ip = .ok (table', next) ∧
      (∀ match_, next = .inl match_ → (Lz4Found.nextMatch match_ ⟨ip, ip, table'⟩).Good c) ∧
      ∀ forwardH, next = .inr forwardH → (Lz4Found.find forwardH ⟨ip + 1, ip, table'⟩).Good c := by
  obtain ⟨hsize, hshort, -⟩ := hc
  have hmf : c.mflimitPlusOne = c.inputSize - 12 + 1 := rfl
  obtain ⟨table', next, hnext, ht', hmatch, hfind⟩ := lz4NextPosition_ok
    (show c.mflimitPlusOne + 8 ≤ c.src.length by omega)
    (fun h16 => by have := hshort h16; omega) ht (by omega) (by omega)
  refine ⟨table', next, hnext, fun match_ h => ?_, fun forwardH h => ?_⟩
  · exact ⟨hmin, le_rfl, 0, by simp; omega, by simpa using ht', by simpa using hmatch match_ h⟩
  · exact ⟨hmin, hfind forwardH h, by simp, by simp; omega, ht'⟩

/-- **A turn takes a sequence** that the source goes on with. -/
theorem lz4TakeSequence_ok (hc : c.Valid) {match_ : Nat} (h : (Lz4Found.nextMatch match_ f).Good c) :
    ∃ s found, lz4TakeSequence c match_ f = .ok (s, found) ∧ found.Good c ∧
      found.left c < (Lz4Found.nextMatch match_ f).left c ∧ found.anchor = f.anchor + s.size ∧
      s.Reaches f.anchor ∧ s.Fits c.src.length f.anchor ∧
      s.expand (c.src.take f.anchor) = c.src.take found.anchor := by
  obtain ⟨matchCode, hcount, hend, hstart, hmatch, ht⟩ := lz4Count_of_good hc h
  obtain ⟨hmin, hanchor, -⟩ := h
  have hsize := hc.size_eq
  obtain ⟨hlt, hnear, hsame⟩ := hmatch
  have hlen : ((c.src.drop f.anchor).take (f.ip - f.anchor)).length = f.ip - f.anchor := by
    simp
    omega
  have hliterals : c.src.take f.anchor ++ (c.src.drop f.anchor).take (f.ip - f.anchor) =
      c.src.take f.ip := by
    rw [← List.take_add, show f.anchor + (f.ip - f.anchor) = f.ip by omega]
  have hexpand : copyBack (f.ip - match_) (matchCode + 4) (c.src.take f.ip) =
      c.src.take (f.ip + (matchCode + 4)) := copyBack_sameAt hsame hlt (by omega)
  rw [lz4TakeSequence, hcount]
  simp only [bind, Except.bind, pure, Except.pure]
  -- what holds of the sequence does not depend on how the loop goes on
  have hsequence : ∀ found : Lz4Found, found.anchor = f.ip + (matchCode + 4) → found.Good c →
      found.left c ≤ 2 * (c.inputSize - found.anchor) + 1 →
      found.Good c ∧ found.left c < (Lz4Found.nextMatch match_ f).left c ∧
        found.anchor = f.anchor + Lz4Sequence.size
          ⟨(c.src.drop f.anchor).take (f.ip - f.anchor), f.ip - match_, matchCode⟩ ∧
        Lz4Sequence.Reaches f.anchor
          ⟨(c.src.drop f.anchor).take (f.ip - f.anchor), f.ip - match_, matchCode⟩ ∧
        Lz4Sequence.Fits c.src.length f.anchor
          ⟨(c.src.drop f.anchor).take (f.ip - f.anchor), f.ip - match_, matchCode⟩ ∧
        Lz4Sequence.expand
          ⟨(c.src.drop f.anchor).take (f.ip - f.anchor), f.ip - match_, matchCode⟩
          (c.src.take f.anchor) = c.src.take found.anchor := by
    intro found hfound hgood hleft
    refine ⟨hgood, ?_, ?_, ⟨?_, ?_⟩, ⟨?_, ?_⟩, ?_⟩
    · have hlt : found.left c < 2 * (c.inputSize - f.anchor) := by
        rw [hfound] at hleft
        omega
      exact hlt
    · simp only [hfound, Lz4Sequence.size, hlen]
      omega
    · simp only [hlen]
      omega
    · simp only
      omega
    · simp only [hlen]
      omega
    · simp only [Lz4Sequence.size, hlen]
      omega
    · rw [Lz4Sequence.expand, hliterals, hexpand, hfound]
  by_cases hlast : f.ip + (matchCode + 4) ≥ c.mflimitPlusOne
  · rw [if_pos hlast]
    exact ⟨_, _, rfl, hsequence (.last _) rfl (show f.ip + (matchCode + 4) ≤ c.inputSize by omega)
      (by simp [Lz4Found.left])⟩
  · obtain ⟨table', next, hnext, hmatch', hfind⟩ := lz4NextPosition_of_good hc (by omega) ht hmin
      hlast
    rw [if_neg hlast, hnext]
    cases next with
    | inl m => exact ⟨_, _, rfl, hsequence _ rfl (hmatch' m rfl) (by simp [Lz4Found.left, Lz4Found.anchor])⟩
    | inr h => exact ⟨_, _, rfl, hsequence _ rfl (hfind h rfl) (by simp [Lz4Found.left, Lz4Found.anchor])⟩

end Turns

/-! ## Whole runs -/

/-- The sequences of a run, from any state that it reaches. -/
theorem lz4Sequences_ok {c : Lz4Input} (hc : c.Valid) {fuel : Nat} {found : Lz4Found}
    (h : found.Good c) (hfuel : found.left c ≤ fuel) :
    ∃ ss anchor, lz4Sequences c fuel found = .ok (ss, anchor) ∧ anchor ≤ c.src.length ∧
      anchor = found.anchor + sizes ss ∧
      expandAll ss (c.src.take found.anchor) = c.src.take anchor ∧
      SequencesAt Lz4Sequence.Reaches found.anchor ss ∧
      SequencesAt (Lz4Sequence.Fits c.src.length) found.anchor ss := by
  have hsize := hc.size_eq
  induction fuel generalizing found with
  | zero =>
      cases found with
      | last anchor =>
          exact ⟨[], anchor, rfl, hsize ▸ h, rfl, rfl, trivial, trivial⟩
      | find forwardH f => simp [Lz4Found.left] at hfuel
      | nextMatch match_ f =>
          obtain ⟨_, _, _, _, hlt, -⟩ := lz4TakeSequence_ok hc h
          omega
  | succ fuel ih =>
      cases found with
      | last anchor => exact ⟨[], anchor, rfl, hsize ▸ h, rfl, rfl, trivial, trivial⟩
      | find forwardH f =>
          obtain ⟨hnone, hgood⟩ | ⟨table, ip, match_, b, hsome, hcatch, hgood⟩ :=
            lz4FindSequence_ok hc h
          · obtain ⟨ss, anchor, hrun, hrest⟩ := ih hgood (by simp [Lz4Found.left])
            have hfind : lz4FindSequence c forwardH f = .ok (.last f.anchor) := by
              simp only [lz4FindSequence, bind, Except.bind, pure, Except.pure, hnone]
            refine ⟨ss, anchor, ?_, hrest⟩
            rw [lz4Sequences, hfind]
            exact hrun
          · obtain ⟨ss, anchor, hrun, hrest⟩ := ih hgood (by simp [Lz4Found.left] at hfuel ⊢; omega)
            have hfind : lz4FindSequence c forwardH f =
                .ok (.nextMatch (match_ - b) { f with ip := ip - b, table := table }) := by
              simp only [lz4FindSequence, bind, Except.bind, pure, Except.pure, hsome, hcatch]
            refine ⟨ss, anchor, ?_, hrest⟩
            rw [lz4Sequences, hfind]
            exact hrun
      | nextMatch match_ f =>
          obtain ⟨s, found, htake, hgood, hlt, hanchor, hreach, hfits, hexpand⟩ :=
            lz4TakeSequence_ok hc h
          obtain ⟨ss, anchor, hrun, hle, hsum, hall, hreaches, hfitss⟩ := ih hgood (by omega)
          rw [hanchor] at hsum hreaches hfitss
          refine ⟨s :: ss, anchor, ?_, hle, ?_, ?_, ⟨hreach, hreaches⟩, ⟨hfits, hfitss⟩⟩
          · simp only [lz4Sequences, bind, Except.bind, pure, Except.pure, htake, hrun]
          · simp only [Lz4Found.anchor, sizes, List.map_cons, List.sum_cons] at hsum ⊢
            omega
          · simp only [Lz4Found.anchor]
            rw [← hall, ← hexpand]
            rfl

/-- The first position is put into the table, and the search begins at the next. -/
theorem lz4FirstFound_find {c : Lz4Input} (hc : c.Valid) (hmin : ¬ c.inputSize < 13) :
    ∃ h table forwardH, lz4HashPosition c.src 0 c.tableType = .ok h ∧
      lz4PutIndexOnHash 0 h (fun _ => 0) c.tableType = .ok table ∧
      lz4HashPosition c.src 1 c.tableType = .ok forwardH ∧
      (Lz4Found.find forwardH ⟨1, 0, table⟩).Good c := by
  have hsize := hc.size_eq
  have hmf : c.mflimitPlusOne = c.inputSize - 12 + 1 := rfl
  obtain ⟨h, hhash, hlt⟩ := lz4HashPosition_ok c.tableType
    (show 0 + 8 ≤ c.src.length by omega)
  obtain ⟨table, hput, ht⟩ := lz4PutIndexOnHash_ok 0 hlt
    (show TableBelow 1 (fun _ => 0) from fun _ => Nat.one_pos) Nat.one_pos
  obtain ⟨forwardH, hhash', hlt'⟩ := lz4HashPosition_ok c.tableType
    (show 1 + 8 ≤ c.src.length by omega)
  exact ⟨h, table, forwardH, hhash, hput, hhash', by omega, hlt', Nat.one_pos, by simp; omega, ht⟩

/-- Where the main loop begins. -/
theorem lz4FirstFound_ok {c : Lz4Input} (hc : c.Valid) :
    ∃ found, lz4FirstFound c = .ok found ∧ found.Good c ∧ found.anchor = 0 ∧
      found.left c ≤ 2 * c.inputSize + 2 := by
  rw [lz4FirstFound]
  by_cases hmin : c.inputSize < 13
  · rw [if_pos hmin]
    exact ⟨.last 0, rfl, Nat.zero_le _, rfl, Nat.zero_le _⟩
  · obtain ⟨h, table, forwardH, hhash, hput, hhash', hgood⟩ := lz4FirstFound_find hc hmin
    rw [if_neg hmin]
    simp only [bind, Except.bind, pure, Except.pure, hhash, hput, hhash']
    exact ⟨_, rfl, hgood, rfl, by simp [Lz4Found.left]⟩

/-- **The block of a call** expands to the source, and is one that every decoder reads. -/
theorem lz4BlockOf_ok {c : Lz4Input} (hc : c.Valid) :
    (lz4BlockOf c).expand = c.src ∧ (lz4BlockOf c).Reaches ∧ (lz4BlockOf c).Fits := by
  obtain ⟨found, hfirst, hgood, hanchor, hleft⟩ := lz4FirstFound_ok hc
  obtain ⟨ss, anchor, hrun, hle, hsum, hexpand, hreach, hfits⟩ := lz4Sequences_ok hc hgood hleft
  rw [hanchor] at hexpand hreach hfits
  have hblock : lz4BlockOf c = ⟨ss, c.src.drop anchor, 0⟩ := by
    simp only [lz4BlockOf, lz4CallSequences, bind, Except.bind, hfirst, hrun]
  rw [hblock]
  have hsrc : Lz4Block.expand ⟨ss, c.src.drop anchor, 0⟩ = c.src := by
    simp only [Lz4Block.expand]
    rw [List.take_zero] at hexpand
    rw [hexpand, List.take_append_drop]
  refine ⟨hsrc, hreach, ?_⟩
  rw [Lz4Block.Fits, hsrc]
  exact hfits

end MiniMem
