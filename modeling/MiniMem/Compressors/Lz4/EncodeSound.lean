import MiniMem.Compressors.Lz4.EncodeWrites

/-!
# MiniMem.Compressors.Lz4.EncodeSound

The main loop of the LZ4 encoder against the same loop without output.  A turn
takes the same sequence and writes it, or gives up on a limited output
(`lz4FindMatch_writes`, `lz4NextMatch_writes`).  So a run writes the block of
the call, or returns 0, and that only where the output may be smaller than
`LZ4_compressBound` (`lz4CompressGenericValidated_ok`).
-/

namespace MiniMem

/-! ## Room -/

/-- The room that a call relies on. -/
def Lz4Call.RoomFor (c : Lz4Call) (dst : List UInt8) : Prop :=
  match c.outputDirective with
  | .notLimited => c.inputSize + c.inputSize / 255 + 16 ≤ dst.length
  | .limitedOutput => c.olimit ≤ dst.length

/-- A limited output for which giving up is an option. -/
def Lz4Call.MayGiveUp (c : Lz4Call) : Prop :=
  c.outputDirective = .limitedOutput ∧ c.olimit < (c.inputSize + c.inputSize / 255 + 16 : Nat)

section Room

variable {c : Lz4Call} {dst : List UInt8} {k : Nat}

/-- There is room for a write that was checked, or that is within the bound. -/
theorem Lz4Call.room_of_check (h : c.RoomFor dst) (hk : c.overflows k = false)
    (hbound : k ≤ c.inputSize + c.inputSize / 255 + 16) : k ≤ dst.length := by
  unfold RoomFor at h
  rw [overflows, decide_eq_false_iff_not] at hk
  cases hdir : c.outputDirective with
  | notLimited =>
      rw [hdir] at h
      exact Nat.le_trans hbound h
  | limitedOutput =>
      rw [hdir] at h
      have hle : ¬ (k : Int) > c.olimit := fun hgt => hk ⟨hdir, hgt⟩
      simp only at h
      omega

theorem Lz4Call.mayGiveUp_of_check (hk : c.overflows k = true)
    (hbound : k ≤ c.inputSize + c.inputSize / 255 + 16) : c.MayGiveUp := by
  rw [overflows, decide_eq_true_iff] at hk
  exact ⟨hk.1, by omega⟩

end Room

/-! ## Turns -/

/-- What is written behind the literals of the next sequence. -/
def lz4Started (c : Lz4Input) (ss : List Lz4Sequence) (f : Lz4Finder) : List UInt8 :=
  sequenceBytes ss ++ lz4Token (f.ip - f.anchor) 0 ::
    (lengthTail (f.ip - f.anchor) ++ (c.src.drop f.anchor).take (f.ip - f.anchor))

/-- What a call returns once it has written a block, or given up. -/
inductive Lz4Call.Returns (c : Lz4Call) (dst : List UInt8) (block : List UInt8) :
    Int → List UInt8 → Prop
  | zero {dst' : List UInt8} (hgiveUp : c.MayGiveUp) (hlen : dst'.length = dst.length) :
      Returns c dst block 0 dst'
  | block {dst' : List UInt8} (hfilled : FilledLike dst block dst') :
      Returns c dst block block.length dst'

/-- A turn has written the sequences `ss`, and goes on as the turn without output does. -/
inductive Lz4Turn.Writes (c : Lz4Call) (dst : List UInt8) (ss : List Lz4Sequence) :
    Lz4Found → Lz4Turn → Prop
  | giveUp {found : Lz4Found} {dst' : List UInt8} (hgiveUp : c.MayGiveUp)
      (hlen : dst'.length = dst.length) : Writes c dst ss found (.ret 0 dst')
  | last {anchor : Nat} {dst' : List UInt8}
      (hfilled : FilledLike dst (sequenceBytes ss ++ lastBytes 0 (c.src.drop anchor)) dst') :
      Writes c dst ss (.last anchor)
        (.ret (sequenceBytes ss ++ lastBytes 0 (c.src.drop anchor)).length dst')
  | find {forwardH : Nat} {f : Lz4Finder} {dst' : List UInt8}
      (hfilled : FilledLike dst (sequenceBytes ss) dst') :
      Writes c dst ss (.find forwardH f)
        (.find forwardH ⟨f.ip, f.anchor, (sequenceBytes ss).length, dst', f.table⟩)
  | nextMatch {match_ : Nat} {f : Lz4Finder} {dst' : List UInt8}
      (hroom : (lz4Started c.toLz4Input ss f).length + 5 ≤ dst.length)
      (hfilled : FilledLike dst (lz4Started c.toLz4Input ss f) dst') :
      Writes c dst ss (.nextMatch match_ f)
        (.nextMatch (sequenceBytes ss).length match_
          ⟨f.ip, f.anchor, (lz4Started c.toLz4Input ss f).length, dst', f.table⟩)

section Turns

variable {c : Lz4Call} {dst dst₁ : List UInt8} {ss : List Lz4Sequence}

/-- `_last_literals` writes what is left of the source. -/
theorem lz4LastLiterals_writes (hsize : c.inputSize = c.src.length) (hroom : c.RoomFor dst)
    (ip : Nat) (table : Nat → Nat) {anchor : Nat} (hanchor : anchor ≤ c.inputSize) (hss : sizes ss = anchor)
    (hfilled : FilledLike dst (sequenceBytes ss) dst₁) :
    ∃ turn, lz4LastLiterals c ⟨ip, anchor, (sequenceBytes ss).length, dst₁, table⟩ = .ok turn ∧
      turn.Writes c dst ss (.last anchor) := by
  have hop := length_sequenceBytes_le ss
  have hrest : (c.src.drop anchor).length = c.inputSize - anchor := by rw [List.length_drop, hsize]
  rw [lz4LastLiterals]
  simp only [bind, Except.bind, pure, Except.pure]
  cases hover : c.overflows ((sequenceBytes ss).length + (c.inputSize - anchor) + 1 +
      (c.inputSize - anchor + 255 - 15) / 255) with
  | true =>
      rw [if_pos rfl]
      exact ⟨_, rfl, .giveUp (Lz4Call.mayGiveUp_of_check hover (by omega)) hfilled.1⟩
  | false =>
      have hdst := Lz4Call.room_of_check hroom hover (by omega)
      have hlen₁ := hfilled.1
      rw [if_neg (show ¬ false = true by simp)]
      obtain ⟨dst₂, hrun, hfilled₂⟩ := lz4WriteRun_filled (c.inputSize - anchor) hfilled.2
        (by omega)
      have hlen₂ : (sequenceBytes ss ++ lz4Token (c.inputSize - anchor) 0 ::
          lengthTail (c.inputSize - anchor)).length =
          (sequenceBytes ss).length + 1 + (c.inputSize - anchor + 240) / 255 := by
        simp only [List.length_append, List.length_cons, length_lengthTail]
        omega
      obtain ⟨dst₃, hcopy, hfilled₃⟩ := copyIn_filled c.src anchor
        (c.inputSize - anchor) hfilled₂.2 (by omega)
        (by rw [hlen₂]; have := hfilled₂.1; omega)
      have hblock : sequenceBytes ss ++ lz4Token (c.inputSize - anchor) 0 ::
          lengthTail (c.inputSize - anchor) ++ (c.src.drop anchor).take (c.inputSize - anchor) =
          sequenceBytes ss ++ lastBytes 0 (c.src.drop anchor) := by
        rw [lastBytes, hrest, List.take_of_length_le (by rw [hrest])]
        simp
      have hvalue : (sequenceBytes ss ++ lz4Token (c.inputSize - anchor) 0 ::
          lengthTail (c.inputSize - anchor)).length + (c.inputSize - anchor) =
          (sequenceBytes ss ++ lastBytes 0 (c.src.drop anchor)).length := by
        have htake : ((c.src.drop anchor).take (c.inputSize - anchor)).length =
            c.inputSize - anchor := List.length_take_of_le (by rw [hrest])
        rw [← hblock]
        simp only [List.length_append, htake]
      rw [hblock] at hfilled₃
      simp only [hrun, hcopy, hvalue]
      exact ⟨_, rfl, .last (hfilled.trans (hfilled₂.trans hfilled₃))⟩

/-- The literals of a sequence are written behind its token. -/
theorem lz4EncodeLiterals_writes (hsize : c.inputSize = c.src.length) (hroom : c.RoomFor dst)
    (match_ : Nat) {f : Lz4Finder} (hanchor : f.anchor ≤ f.ip) (hip : f.ip + 12 ≤ c.inputSize)
    (hss : sizes ss = f.anchor) (hfilled : FilledLike dst (sequenceBytes ss) dst₁) :
    ∃ turn, lz4EncodeLiterals c match_
        ⟨f.ip, f.anchor, (sequenceBytes ss).length, dst₁, f.table⟩ = .ok turn ∧
      turn.Writes c dst ss (.nextMatch match_ f) := by
  have hop := length_sequenceBytes_le ss
  obtain ⟨len, hlen⟩ : ∃ len, len = f.ip - f.anchor := ⟨_, rfl⟩
  rw [lz4EncodeLiterals]
  simp only [bind, Except.bind, pure, Except.pure, ← hlen]
  cases hover : c.overflows ((sequenceBytes ss).length + 1 + len + (2 + 1 + 5) + len / 255) with
  | true =>
      rw [if_pos rfl]
      exact ⟨_, rfl, .giveUp (Lz4Call.mayGiveUp_of_check hover (by omega)) hfilled.1⟩
  | false =>
      have hdst := Lz4Call.room_of_check hroom hover (by omega)
      have hlen₁ := hfilled.1
      rw [if_neg (show ¬ false = true by simp)]
      obtain ⟨dst₂, hrun, hfilled₂⟩ := lz4WriteRun_filled len hfilled.2 (by omega)
      have hlen₂ : (sequenceBytes ss ++ lz4Token len 0 :: lengthTail len).length =
          (sequenceBytes ss).length + 1 + (len + 240) / 255 := by
        simp only [List.length_append, List.length_cons, length_lengthTail]
        omega
      obtain ⟨out, hout⟩ : ∃ out, out = sequenceBytes ss ++ lz4Token len 0 :: lengthTail len :=
        ⟨_, rfl⟩
      rw [← hout] at hrun hfilled₂ hlen₂
      have hroom₂ : out.length + len + 7 ≤ dst₂.length ∧ out.length + 8 ≤ dst₂.length := by
        have := hfilled₂.1
        omega
      obtain ⟨dst₃, hcopy, hfilled₃⟩ := strideCopy_in c.src
        (fun dst d s => copyIn c.src dst d s 8) (s := f.anchor) (e := out.length + len) (by omega)
        (fun dst out s h hsrc hroom => copyIn_filled c.src s 8 h hsrc hroom) hfilled₂.2 (by omega)
        (by omega) (by omega) hroom₂.2 (len + 1) (by omega)
      rw [Nat.add_sub_cancel_left] at hfilled₃
      have hstarted : lz4Started c.toLz4Input ss f = out ++ (c.src.drop f.anchor).take len := by
        rw [lz4Started, hout, ← hlen]
        simp
      have hlen₃ : (lz4Started c.toLz4Input ss f).length = out.length + len := by
        rw [hstarted, List.length_append, List.length_take_of_le (by rw [List.length_drop]; omega)]
      rw [← hstarted] at hfilled₃
      rw [← hlen₃] at hcopy
      simp only [hrun, ← hlen₃, hcopy]
      exact ⟨_, rfl, .nextMatch (by omega) (hfilled.trans (hfilled₂.trans hfilled₃))⟩

/-- **A turn that searches** writes the literals of the sequence that it finds, or the last
literals. -/
theorem lz4FindMatch_writes (hc : c.toLz4Input.Valid) (hroom : c.RoomFor dst) {forwardH : Nat}
    {f : Lz4Finder} (hgood : (Lz4Found.find forwardH f).Good c.toLz4Input)
    (hss : sizes ss = f.anchor) (hfilled : FilledLike dst (sequenceBytes ss) dst₁) :
    ∃ found turn, lz4FindSequence c.toLz4Input forwardH f = .ok found ∧
      lz4FindMatch c forwardH ⟨f.ip, f.anchor, (sequenceBytes ss).length, dst₁, f.table⟩ =
        .ok turn ∧
      found.Good c.toLz4Input ∧ found.anchor = f.anchor ∧
      found.left c.toLz4Input < (Lz4Found.find forwardH f).left c.toLz4Input ∧
      turn.Writes c dst ss found := by
  have hsize := hc.size_eq
  rw [lz4FindSequence, lz4FindMatch]
  simp only [bind, Except.bind, pure, Except.pure]
  obtain ⟨hnone, hlast⟩ | ⟨table, ip, match_, b, hsome, hcatch, hnext⟩ :=
    lz4FindSequence_ok hc hgood
  · simp only [hnone]
    obtain ⟨turn, hturn, hwrites⟩ := lz4LastLiterals_writes hsize
      hroom f.ip f.table hlast hss hfilled
    exact ⟨_, turn, rfl, hturn, hlast, rfl, by simp [Lz4Found.left], hwrites⟩
  · simp only [hsome, hcatch]
    have hmatch := hnext
    obtain ⟨hmin, hanchor, b', hip, -, -⟩ := hmatch
    have hmf : c.mflimitPlusOne = c.inputSize - 12 + 1 := rfl
    simp only at hip hanchor
    obtain ⟨turn, hturn, hwrites⟩ := lz4EncodeLiterals_writes hsize hroom
      (match_ - b) (f := ⟨ip - b, f.anchor, table⟩) hanchor (by simp only; omega) hss hfilled
    exact ⟨_, turn, rfl, hturn, hnext, rfl, by simp [Lz4Found.left], hwrites⟩

/-- The token, the length of the literals and the literals. -/
theorem length_lz4Started {c : Lz4Input} {f : Lz4Finder} (hip : f.ip ≤ c.src.length) :
    (lz4Started c ss f).length =
      (sequenceBytes ss).length + 1 + (f.ip - f.anchor + 240) / 255 + (f.ip - f.anchor) := by
  have htake : ((c.src.drop f.anchor).take (f.ip - f.anchor)).length = f.ip - f.anchor := by
    simp
    omega
  rw [lz4Started]
  simp only [List.length_append, List.length_cons, length_lengthTail, htake]
  omega

/-- Without literals that is one zero. -/
theorem lz4Started_of_empty (c : Lz4Input) {f : Lz4Finder} (hf : f.ip = f.anchor) :
    lz4Started c ss f = sequenceBytes ss ++ [0] := by
  rw [lz4Started, hf, Nat.sub_self, List.take_zero]
  rfl

/-- With the offset and the length of the match behind its literals a sequence is complete. -/
theorem lz4WriteMatchLength_sequence {c : Lz4Input} {f : Lz4Finder} {s : Lz4Sequence}
    (hliterals : s.literals = (c.src.drop f.anchor).take (f.ip - f.anchor))
    (hip : f.ip ≤ c.src.length)
    (hfilled : lz4Started c ss f ++ leBytes 2 s.offset <+: dst)
    (hroom : (lz4Started c ss f).length + 2 + (s.matchCode + 240) / 255 + 3 ≤ dst.length) :
    (sequenceBytes (ss ++ [s])).length =
        (lz4Started c ss f).length + 2 + (s.matchCode + 240) / 255 ∧
      ∃ dst', lz4WriteMatchLength dst ((lz4Started c ss f).length + 2)
          (sequenceBytes ss).length s.matchCode = .ok (dst', (sequenceBytes (ss ++ [s])).length) ∧
        FilledLike dst (sequenceBytes (ss ++ [s])) dst' := by
  have hlength : s.literals.length = f.ip - f.anchor := by
    rw [hliterals]
    simp
    omega
  obtain ⟨mid, hmid⟩ : ∃ mid, mid = lengthTail (f.ip - f.anchor) ++
      (s.literals ++ leBytes 2 s.offset) := ⟨_, rfl⟩
  have hout : lz4Started c ss f ++ leBytes 2 s.offset =
      sequenceBytes ss ++ lz4Token (f.ip - f.anchor) 0 :: mid := by
    rw [lz4Started, hmid, hliterals]
    simp
  have hlen : (sequenceBytes ss ++ lz4Token (f.ip - f.anchor) 0 :: mid).length =
      (lz4Started c ss f).length + 2 := by
    rw [← hout, List.length_append, length_leBytes]
  have hbytes : sequenceBytes ss ++ lz4Token (f.ip - f.anchor) s.matchCode ::
      (mid ++ lengthTail s.matchCode) = sequenceBytes (ss ++ [s]) := by
    have hone : sequenceBytes [s] = s.bytes := by simp [sequenceBytes]
    rw [sequenceBytes_append, hone, Lz4Sequence.bytes, hlength, hmid]
    simp only [List.append_assoc]
  rw [hout] at hfilled
  obtain ⟨dst', hwrite, hfilled'⟩ := lz4WriteMatchLength_filled s.matchCode hfilled
    (by rw [hlen]; exact hroom)
  rw [hbytes] at hwrite hfilled'
  rw [hlen] at hwrite
  refine ⟨?_, dst', hwrite, hfilled'⟩
  rw [← hbytes, ← hlen]
  simp only [List.length_append, List.length_cons, length_lengthTail]
  omega

/-- A match right behind a sequence begins with a token without literals. -/
theorem lz4ZeroToken_writes {ip match_ : Nat} {table : Nat → Nat}
    (hroom : (sequenceBytes ss).length + 6 ≤ dst.length)
    (hfilled : FilledLike dst (sequenceBytes ss) dst₁) :
    ∃ dst₂, writeAt dst₁ (sequenceBytes ss).length [0] = .ok dst₂ ∧
      Lz4Turn.Writes c dst ss (.nextMatch match_ ⟨ip, ip, table⟩)
        (.nextMatch (sequenceBytes ss).length match_
          ⟨ip, ip, (sequenceBytes ss).length + 1, dst₂, table⟩) := by
  have hlen₁ := hfilled.1
  obtain ⟨dst₂, hzero, hfilled₂⟩ := writeAt_filled hfilled.2 [0]
    (by rw [List.length_singleton]; omega)
  have hnew : lz4Started c.toLz4Input ss ⟨ip, ip, table⟩ = sequenceBytes ss ++ [0] :=
    lz4Started_of_empty _ rfl
  rw [← hnew] at hfilled₂
  have hnewLen : (lz4Started c.toLz4Input ss ⟨ip, ip, table⟩).length =
      (sequenceBytes ss).length + 1 := by
    rw [hnew, List.length_append, List.length_singleton]
  refine ⟨dst₂, hzero, ?_⟩
  rw [← hnewLen]
  exact .nextMatch (by rw [hnewLen]; omega) (hfilled.trans hfilled₂)

/-- **A turn from `_next_match`** writes its sequence, and goes on as without output. -/
theorem lz4NextMatch_writes (hc : c.toLz4Input.Valid) (hroom : c.RoomFor dst) {match_ : Nat}
    {f : Lz4Finder} (hgood : (Lz4Found.nextMatch match_ f).Good c.toLz4Input)
    (hss : sizes ss = f.anchor) (hstarted : (lz4Started c.toLz4Input ss f).length + 5 ≤ dst.length)
    (hfilled : FilledLike dst (lz4Started c.toLz4Input ss f) dst₁) :
    ∃ s found turn, lz4TakeSequence c.toLz4Input match_ f = .ok (s, found) ∧
      lz4NextMatch c (sequenceBytes ss).length match_
        ⟨f.ip, f.anchor, (lz4Started c.toLz4Input ss f).length, dst₁, f.table⟩ = .ok turn ∧
      turn.Writes c dst (ss ++ [s]) found := by
  have hsize := hc.size_eq
  obtain ⟨code, hcount, hend, hstart, hmatch, ht⟩ := lz4Count_of_good hc hgood
  obtain ⟨hmin, hanchor, -⟩ := hgood
  have hlt := hmatch.lt
  have hlen₁ := hfilled.1
  have hop := length_sequenceBytes_le ss
  have hip : f.ip ≤ c.src.length := by omega
  have hstartedLen : (lz4Started c.toLz4Input ss f).length =
      (sequenceBytes ss).length + 1 + (f.ip - f.anchor + 240) / 255 + (f.ip - f.anchor) :=
    length_lz4Started hip
  obtain ⟨s, hs⟩ : ∃ s : Lz4Sequence,
      s = ⟨(c.src.drop f.anchor).take (f.ip - f.anchor), f.ip - match_, code⟩ := ⟨_, rfl⟩
  have hsizes : sizes (ss ++ [s]) = f.ip + (code + 4) := by
    simp only [sizes, List.map_append, List.sum_append, List.map_cons, List.map_nil, List.sum_cons,
      List.sum_nil] at hss ⊢
    rw [hss, Lz4Sequence.size, hs]
    simp
    omega
  obtain ⟨dst₂, hoffset, hfilled₂⟩ := writeAt_filled hfilled.2 (leBytes 2 (f.ip - match_))
    (by rw [length_leBytes]; omega)
  have hlen₂ := hfilled₂.1
  rw [lz4TakeSequence, lz4NextMatch]
  simp only [bind, Except.bind, pure, Except.pure, hcount, hoffset, ← hs]
  cases hover : c.overflows ((lz4Started c.toLz4Input ss f).length + 2 + (1 + 5) +
      (code + 240) / 255) with
  | true =>
      have hgiveUp : c.MayGiveUp := Lz4Call.mayGiveUp_of_check hover (by omega)
      rw [if_pos rfl]
      have hfull : ∀ found, Lz4Turn.Writes c dst (ss ++ [s]) found (.ret 0 dst₂) :=
        fun found => .giveUp hgiveUp (hlen₂.trans hlen₁)
      by_cases hlast : f.ip + (code + 4) ≥ c.mflimitPlusOne
      · rw [if_pos hlast]
        exact ⟨s, _, _, rfl, rfl, hfull _⟩
      · obtain ⟨table', next, hnext, -, -⟩ := lz4NextPosition_of_good hc (by omega) ht hmin hlast
        rw [if_neg hlast, hnext]
        cases next with
        | inl m => exact ⟨s, _, _, rfl, rfl, hfull _⟩
        | inr h => exact ⟨s, _, _, rfl, rfl, hfull _⟩
  | false =>
      have hdst := Lz4Call.room_of_check hroom hover (by omega)
      rw [if_neg (show ¬ false = true by simp)]
      have hcode : s.matchCode = code := congrArg Lz4Sequence.matchCode hs
      have hoffset' : s.offset = f.ip - match_ := congrArg Lz4Sequence.offset hs
      have hwritten := hfilled₂.2
      rw [← hoffset'] at hwritten
      obtain ⟨hlen₃, dst₃, hlength, hfilled₃⟩ := lz4WriteMatchLength_sequence
        (congrArg Lz4Sequence.literals hs) hip hwritten (by rw [hcode]; omega)
      have hfilled' := hfilled.trans (hfilled₂.trans hfilled₃)
      rw [hcode] at hlength hlen₃
      simp only [hlength]
      by_cases hlast : f.ip + (code + 4) ≥ c.mflimitPlusOne
      · rw [if_pos hlast, if_pos hlast]
        obtain ⟨turn, hturn, hwrites⟩ := lz4LastLiterals_writes hsize hroom
          (f.ip + (code + 4)) f.table (by omega) hsizes hfilled'
        exact ⟨s, _, turn, rfl, hturn, hwrites⟩
      · obtain ⟨table', next, hnext, -, -⟩ := lz4NextPosition_of_good hc (by omega) ht hmin hlast
        rw [if_neg hlast, if_neg hlast, hnext]
        cases next with
        | inl m =>
            obtain ⟨dst₄, hzero, hwrites⟩ := @lz4ZeroToken_writes c dst dst₃ (ss ++ [s])
              (f.ip + (code + 4)) m table' (by omega) hfilled'
            simp only [hzero]
            exact ⟨s, _, _, rfl, rfl, hwrites⟩
        | inr h => exact ⟨s, _, _, rfl, rfl, .find hfilled'⟩

end Turns

/-! ## Runs -/

theorem lz4MainLoop_ret (c : Lz4Call) (fuel : Nat) (value : Int) (dst : List UInt8) :
    lz4MainLoop c fuel (.ret value dst) = .ok (value, dst) := by
  cases fuel <;> rfl

/-- A run writes the sequences of the run without output, and the last literals. -/
theorem lz4MainLoop_writes {c : Lz4Call} {dst : List UInt8} (hc : c.toLz4Input.Valid)
    (hroom : c.RoomFor dst) (fuel : Nat) {found : Lz4Found} {turn : Lz4Turn} {anchor : Nat}
    {ss ss' : List Lz4Sequence} (hgood : found.Good c.toLz4Input) (hss : sizes ss = found.anchor)
    (hrun : lz4Sequences c.toLz4Input fuel found = .ok (ss', anchor))
    (h : turn.Writes c dst ss found) :
    ∃ value dst', lz4MainLoop c fuel turn = .ok (value, dst') ∧
      c.Returns dst (sequenceBytes (ss ++ ss') ++ lastBytes 0 (c.src.drop anchor)) value dst' := by
  induction fuel generalizing found turn ss ss' with
  | zero =>
      cases h with
      | giveUp hgiveUp hlen => exact ⟨_, _, lz4MainLoop_ret .., .zero hgiveUp hlen⟩
      | last hfilled =>
          simp only [lz4Sequences, pure, Except.pure, Except.ok.injEq, Prod.mk.injEq] at hrun
          obtain ⟨rfl, rfl⟩ := hrun
          rw [List.append_nil]
          exact ⟨_, _, lz4MainLoop_ret .., .block hfilled⟩
      | find hfilled => cases hrun
      | nextMatch hstarted hfilled => cases hrun
  | succ fuel ih =>
      cases h with
      | giveUp hgiveUp hlen => exact ⟨_, _, lz4MainLoop_ret .., .zero hgiveUp hlen⟩
      | last hfilled =>
          simp only [lz4Sequences, pure, Except.pure, Except.ok.injEq, Prod.mk.injEq] at hrun
          obtain ⟨rfl, rfl⟩ := hrun
          rw [List.append_nil]
          exact ⟨_, _, lz4MainLoop_ret .., .block hfilled⟩
      | @find forwardH f dst₁ hfilled =>
          obtain ⟨found', turn', hfind, hturn, hgood', hanchor, -, hwrites⟩ :=
            lz4FindMatch_writes hc hroom hgood hss hfilled
          rw [lz4Sequences, hfind] at hrun
          rw [lz4MainLoop, hturn]
          exact ih hgood' (by rw [hanchor]; exact hss) hrun hwrites
      | @nextMatch match_ f dst₁ hstarted hfilled =>
          obtain ⟨s, found', htake, hgood', -, hanchor, -⟩ := lz4TakeSequence_ok hc hgood
          obtain ⟨s', found'', turn', htake', hturn, hwrites⟩ :=
            lz4NextMatch_writes hc hroom hgood hss hstarted hfilled
          rw [htake] at htake'
          simp only [Except.ok.injEq, Prod.mk.injEq] at htake'
          obtain ⟨rfl, rfl⟩ := htake'
          rw [lz4Sequences, htake] at hrun
          simp only [bind, Except.bind, pure, Except.pure] at hrun
          cases hrest : lz4Sequences c.toLz4Input fuel found' with
          | error e =>
              rw [hrest] at hrun
              cases hrun
          | ok rest =>
          rw [hrest] at hrun
          simp only [Except.ok.injEq, Prod.mk.injEq] at hrun
          obtain ⟨rfl, rfl⟩ := hrun
          rw [lz4MainLoop, hturn]
          have hsizes : sizes (ss ++ [s]) = found'.anchor := by
            rw [hanchor]
            simp only [sizes, List.map_append, List.sum_append, List.map_cons, List.map_nil,
              List.sum_cons, List.sum_nil, Lz4Found.anchor] at hss ⊢
            omega
          have hall := ih hgood' hsizes hrest hwrites
          rwa [List.append_assoc] at hall

/-- **`LZ4_compress_generic_validated`** writes the block of its call, or gives up on a limited
output. -/
theorem lz4CompressGenericValidated_ok {c : Lz4Call} {dst : List UInt8} (hc : c.toLz4Input.Valid)
    (hroom : c.RoomFor dst) :
    ∃ value dst', lz4CompressGenericValidated c dst = .ok (value, dst') ∧
      c.Returns dst (lz4BlockOf c.toLz4Input).bytes value dst' := by
  have hsize := hc.size_eq
  have hempty : FilledLike dst (sequenceBytes []) dst := FilledLike.refl List.nil_prefix
  obtain ⟨found, hfirst, hgood, hanchor, hleft⟩ := lz4FirstFound_ok hc
  obtain ⟨ss, anchor, hrun, -⟩ := lz4Sequences_ok hc hgood hleft
  have hblock : (lz4BlockOf c.toLz4Input).bytes =
      sequenceBytes ([] ++ ss) ++ lastBytes 0 (c.src.drop anchor) := by
    simp only [lz4BlockOf, lz4CallSequences, bind, Except.bind, hfirst, hrun]
    rfl
  rw [hblock]
  by_cases hmin : c.inputSize < 13
  · rw [lz4FirstFound, if_pos hmin] at hfirst
    simp only [pure, Except.pure, Except.ok.injEq] at hfirst
    subst hfirst
    obtain ⟨turn, hturn, hwrites⟩ := lz4LastLiterals_writes hsize hroom 0
      (fun _ => 0) (Nat.zero_le _) rfl hempty
    obtain ⟨value, dst', hloop, hreturns⟩ := lz4MainLoop_writes hc hroom 0 hgood rfl
      (by simpa [lz4Sequences] using hrun) hwrites
    refine ⟨value, dst', ?_, hreturns⟩
    rw [lz4CompressGenericValidated]
    simp only [bind, Except.bind]
    rw [if_pos hmin]
    exact (congrArg (Except.bind · _) hturn).trans hloop
  · obtain ⟨h, table, forwardH, hhash, hput, hhash', hgood'⟩ := lz4FirstFound_find hc hmin
    rw [lz4FirstFound, if_neg hmin] at hfirst
    simp only [bind, Except.bind, pure, Except.pure, hhash, hput, hhash', Except.ok.injEq] at hfirst
    subst hfirst
    obtain ⟨value, dst', hloop, hreturns⟩ := lz4MainLoop_writes hc hroom _ hgood rfl hrun
      (.find (f := ⟨1, 0, table⟩) hempty)
    refine ⟨value, dst', ?_, hreturns⟩
    rw [lz4CompressGenericValidated]
    simp only [bind, Except.bind, hhash, hput, hhash']
    rw [if_neg hmin]
    exact hloop

end MiniMem
