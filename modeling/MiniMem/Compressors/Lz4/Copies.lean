import MiniMem.Compressors.Lz4.Decode
import Mathlib.Tactic.IntervalCases

/-!
# MiniMem.Compressors.Lz4.Copies

What the copies of the LZ4 decoder do to an output that is filled up to `op`:
literals are appended, and a match is `copyBack` at its offset, although the
bytes are copied eight or sixteen at a time from a place that is a multiple of
the offset away.  Every copy writes beyond its end, so each needs some room
there.
-/

namespace MiniMem

/-! ## Literals -/

theorem lz4WildCopy8From_filled (src : List UInt8) {dst out : List UInt8} (s n : Nat)
    (h : out <+: dst) (hsrc : s + n + 8 ≤ src.length) (hroom : out.length + n + 8 ≤ dst.length) :
    ∃ dst', lz4WildCopy8From src dst out.length s (out.length + n) = .ok dst' ∧
      FilledLike dst (out ++ (src.drop s).take n) dst' := by
  have hcopy := strideCopy_in src (fun dst d s => copyIn src dst d s 8) (e := out.length + n)
    (by omega) (fun dst out s h hsrc hroom => copyIn_filled src s 8 h hsrc hroom) h
    (s := s) (by omega) (by omega) (by omega) (by omega) (out.length + n - out.length + 1) (by omega)
  simpa only [lz4WildCopy8From, Nat.add_sub_cancel_left] using hcopy

theorem lz4WildCopy32From_filled (src : List UInt8) {dst out : List UInt8} (s n : Nat)
    (h : out <+: dst) (hsrc : s + n + 32 ≤ src.length) (hroom : out.length + n + 32 ≤ dst.length) :
    ∃ dst', lz4WildCopy32From src dst out.length s (out.length + n) = .ok dst' ∧
      FilledLike dst (out ++ (src.drop s).take n) dst' := by
  have hcopy := strideCopy_in src (fun dst d s => do
      let dst ← copyIn src dst d s 16
      copyIn src dst (d + 16) (s + 16) 16) (e := out.length + n) (n := 32) (by omega)
    (by
      intro dst out s h hsrc hroom
      obtain ⟨dst₁, hfirst, hfilled⟩ := copyIn_filled src s 16 h
        (by omega) (by omega)
      have hlen : (out ++ (src.drop s).take 16).length = out.length + 16 := by simp; omega
      obtain ⟨dst₂, hsecond, hfilled'⟩ := copyIn_filled src (s + 16) 16
        hfilled.2 (by omega) (by have := hfilled.1; omega)
      rw [hlen] at hsecond
      refine ⟨dst₂, by simp only [bind, Except.bind, hfirst, hsecond], ?_⟩
      have hsum : (src.drop s).take 32 = (src.drop s).take 16 ++ (src.drop (s + 16)).take 16 := by
        rw [show 32 = 16 + 16 by rfl, List.take_add, List.drop_drop]
      rw [hsum, ← List.append_assoc]
      exact hfilled.trans hfilled') h (s := s) (by omega) (by omega) (by omega) (by omega)
    (out.length + n - out.length + 1) (by omega)
  simpa only [lz4WildCopy32From, Nat.add_sub_cancel_left] using hcopy

/-! ## Matches from at least a stride before -/

theorem lz4WildCopy8_filled {dst out : List UInt8} {d e : Nat} (h : out <+: dst) (hd₈ : 8 ≤ d)
    (hd : d ≤ out.length) (hroom : e + 7 ≤ dst.length) (hroom₀ : out.length + 8 ≤ dst.length) :
    ∃ dst', lz4WildCopy8 dst out.length (out.length - d) e = .ok dst' ∧
      FilledLike dst (copyBack d (e - out.length) out) dst' :=
  strideCopy_self (fun dst d s => copyIn dst dst d s 8) (by omega)
    (fun _ _ h hd hroom => copyIn_self h hd₈ hd hroom) h hd (by omega) hroom₀ _ (by omega)

theorem lz4WildCopy32_filled {dst out : List UInt8} {d n : Nat} (h : out <+: dst) (hd₁₆ : 16 ≤ d)
    (hd : d ≤ out.length) (hroom : out.length + n + 32 ≤ dst.length) :
    ∃ dst', lz4WildCopy32 dst out.length (out.length - d) (out.length + n) = .ok dst' ∧
      FilledLike dst (copyBack d n out) dst' := by
  have hcopy := strideCopy_self (e := out.length + n) (n := 32) (d := d)
    (fun dst d s => do
      let dst ← copyIn dst dst d s 16
      copyIn dst dst (d + 16) (s + 16) 16) (by omega)
    (by
      intro dst out h hd hroom
      obtain ⟨dst₁, hfirst, hfilled⟩ := copyIn_self (n := 16) h hd₁₆ hd (by omega)
      have hlen : (copyBack d 16 out).length = out.length + 16 := length_copyBack _ _ _
      obtain ⟨dst₂, hsecond, hfilled'⟩ := copyIn_self (d := d) (n := 16) hfilled.2 hd₁₆ (by omega)
        (by have := hfilled.1; omega)
      rw [hlen, show out.length + 16 - d = out.length - d + 16 by omega] at hsecond
      refine ⟨dst₂, by simp only [bind, Except.bind, hfirst, hsecond], ?_⟩
      rw [show 32 = 16 + 16 by rfl, copyBack_add]
      exact hfilled.trans hfilled') h hd (by omega) (by omega)
    (out.length + n - out.length + 1) (by omega)
  simpa only [lz4WildCopy32, Nat.add_sub_cancel_left] using hcopy

/-- The eighteen bytes of a short match. -/
theorem lz4CopyMatch18_filled {dst out : List UInt8} {d : Nat} (h : out <+: dst) (hd₈ : 8 ≤ d)
    (hd : d ≤ out.length) (hroom : out.length + 18 ≤ dst.length) :
    ∃ dst', lz4CopyMatch18 dst out.length (out.length - d) = .ok dst' ∧
      FilledLike dst (copyBack d 18 out) dst' := by
  have hlen₁ : (copyBack d 8 out).length = out.length + 8 := length_copyBack _ _ _
  have hlen₂ : (copyBack d 8 (copyBack d 8 out)).length = out.length + 16 := by simp
  obtain ⟨dst₁, hfirst, hfilled₁⟩ := copyIn_self (n := 8) h hd₈ hd (by omega)
  obtain ⟨dst₂, hsecond, hfilled₂⟩ := copyIn_self (d := d) (n := 8) hfilled₁.2 hd₈ (by omega)
    (by have := hfilled₁.1; omega)
  obtain ⟨dst₃, hthird, hfilled₃⟩ := copyIn_self (d := d) (n := 2) hfilled₂.2 (by omega) (by omega)
    (by have := hfilled₁.1; have := hfilled₂.1; omega)
  rw [hlen₁, show out.length + 8 - d = out.length - d + 8 by omega] at hsecond
  rw [hlen₂, show out.length + 16 - d = out.length - d + 16 by omega] at hthird
  refine ⟨dst₃, by simp only [lz4CopyMatch18, bind, Except.bind, hfirst, hsecond, hthird], ?_⟩
  rw [show 18 = 8 + (8 + 2) by rfl, copyBack_add, copyBack_add]
  exact hfilled₁.trans (hfilled₂.trans hfilled₃)

/-! ## Matches from less than a stride before -/

/-- How far behind `op + 8` the bytes behind the first eight of a match are copied from. -/
def lz4Distance (offset : Nat) : Nat :=
  if offset < 8 then (8 + offset - inc32table offset + dec64table offset : Int).toNat else offset

/-- The distance is a multiple of the offset that the first eight bytes cover. -/
theorem lz4Distance_spec {offset : Nat} (h : 0 < offset) :
    offset ∣ lz4Distance offset ∧ 8 ≤ lz4Distance offset ∧ lz4Distance offset ≤ 8 + offset := by
  by_cases h₈ : offset < 8
  · interval_cases offset <;> decide
  · rw [lz4Distance, if_neg h₈]
    exact ⟨dvd_rfl, by omega, by omega⟩

/-- The second four bytes come from a multiple of the offset before them. -/
theorem inc32table_spec {offset : Nat} (h : 0 < offset) (h₈ : offset < 8) :
    offset ∣ 4 + offset - inc32table offset ∧ 4 ≤ 4 + offset - inc32table offset ∧
      inc32table offset ≤ offset := by
  interval_cases offset <;> decide

/-- A copy of bytes over themselves. -/
theorem byteCopy_same {n d : Nat} {dst : List UInt8} (h : d + n ≤ dst.length) :
    byteCopy n dst d d = .ok dst := by
  induction n generalizing d with
  | zero => rfl
  | succ n ih =>
      have hwrite : writeAt dst d [dst.getD d 0] = .ok dst := by
        rw [writeAt, if_pos (by simp; omega)]
        have hd : d < dst.length := by omega
        simp [List.getD_eq_getElem?_getD, List.getElem?_eq_getElem hd]
      rw [byteCopy, readByte_ok (by omega)]
      simp only [bind, Except.bind, hwrite]
      exact ih (by omega)

/-- The first eight bytes of a match, copied at its offset. -/
theorem lz4MatchHead_filled {dst out : List UInt8} {offset : Nat} (h : out <+: dst)
    (hd : offset ≤ out.length) (hroom : out.length + 8 ≤ dst.length) :
    ∃ dst', lz4MatchHead dst out.length (out.length - offset) offset =
        .ok (dst', out.length + 8 - lz4Distance offset) ∧
      FilledLike dst (copyBack offset 8 out) dst' := by
  by_cases h₈ : offset < 8
  · have hfrom : (((out.length - offset + inc32table offset : Nat) : Int) -
        dec64table offset).toNat = out.length + 8 - lz4Distance offset := by
      rw [lz4Distance, if_pos h₈]
      interval_cases offset <;> simp [inc32table, dec64table] <;> omega
    obtain ⟨dst₀, hzero, hfilled₀⟩ := writeAt_filled h [0, 0, 0, 0] (by simp; omega)
    have hroom₀ : out.length + 8 ≤ dst₀.length := by have := hfilled₀.1; omega
    rw [lz4MatchHead, if_pos h₈]
    simp only [bind, Except.bind, hzero]
    by_cases h₀ : offset = 0
    · subst h₀
      have hlen : (out ++ List.replicate 4 (default : UInt8)).length = out.length + 4 := by simp
      obtain ⟨dst₁, hcopy, hfilled₁⟩ := copyIn_self (d := 4) (n := 4)
        (show out ++ List.replicate 4 (default : UInt8) <+: dst₀ from hfilled₀.2) le_rfl (by simp) (by simp; omega)
      rw [hlen, show out.length + 4 - 4 = out.length - 0 + inc32table 0 by simp [inc32table]]
        at hcopy
      refine ⟨dst₁, ?_, ?_⟩
      · simp only [Nat.sub_zero, byteCopy_same (show out.length + 4 ≤ dst₀.length by omega)]
        simp only [Nat.sub_zero] at hcopy hfrom
        simp only [hcopy, hfrom]
        rfl
      · rw [copyBack_default 4 le_rfl] at hfilled₁
        rw [copyBack_distance_zero]
        exact hfilled₀.trans hfilled₁
    · obtain ⟨hdvd, h₄, hinc⟩ := inc32table_spec (Nat.pos_of_ne_zero h₀) h₈
      have hlen : (copyBack offset 4 out).length = out.length + 4 := length_copyBack _ _ _
      obtain ⟨dst₁, hbytes, hfilled₁⟩ := byteCopy_self (n := 4)
        ((List.prefix_append out _).trans hfilled₀.2) (Nat.pos_of_ne_zero h₀) hd (by omega)
      obtain ⟨dst₂, hcopy, hfilled₂⟩ := copyIn_self (n := 4) hfilled₁.2 h₄ (by omega)
        (by have := hfilled₁.1; omega)
      rw [hlen, show out.length + 4 - (4 + offset - inc32table offset) =
        out.length - offset + inc32table offset by omega] at hcopy
      rw [copyBack_multiple 4 (Nat.pos_of_ne_zero h₀) hd hdvd (by omega) (by omega),
        ← copyBack_add] at hfilled₂
      refine ⟨dst₂, ?_, hfilled₀.trans (hfilled₁.trans hfilled₂)⟩
      simp only [hbytes, hcopy, hfrom]
      rfl
  · obtain ⟨dst₁, hcopy, hfilled₁⟩ := copyIn_self (n := 8) h (by omega) hd hroom
    refine ⟨dst₁, ?_, hfilled₁⟩
    rw [lz4MatchHead, if_neg h₈, lz4Distance, if_neg h₈,
      show out.length + 8 - offset = out.length - offset + 8 by omega]
    simp only [bind, Except.bind, hcopy]
    rfl

/-- Behind its first eight bytes, a match goes on from the multiple of its offset. -/
theorem copyBack_lz4Distance {out : List UInt8} {offset : Nat} (hd : offset ≤ out.length) (n : Nat) :
    copyBack (lz4Distance offset) n (copyBack offset 8 out) = copyBack offset (8 + n) out := by
  rw [copyBack_add]
  cases offset with
  | zero =>
      have h₈ : lz4Distance 0 = 8 := rfl
      rw [copyBack_distance_zero, h₈, copyBack_default n le_rfl, copyBack_default n (Nat.zero_le 8)]
  | succ offset =>
      obtain ⟨hdvd, h₈, hle⟩ := lz4Distance_spec (show 0 < offset + 1 by omega)
      exact copyBack_multiple n (Nat.succ_pos offset) hd hdvd (by omega) (by omega)

/-- Eight bytes that repeat the last ones, over and over. -/
theorem lz4FillPattern_filled {dst out v : List UInt8} {d k n : Nat} (h : out <+: dst)
    (hd : d ≤ out.length) (hk : k * d = 8)
    (hv : v = (List.replicate k (out.drop (out.length - d))).flatten)
    (hroom : out.length + n + 8 ≤ dst.length) :
    ∃ dst', lz4FillPattern v dst out.length (out.length + n) = .ok dst' ∧
      FilledLike dst (copyBack d n out) dst' := by
  have hblock : (out.drop (out.length - d)).length = d := by simp; omega
  have hlen : v.length = 8 := by rw [hv, List.length_flatten]; simp [hblock, hk]
  have hsnoc : ∀ j, copyBack d (j * 8 + 8) out = copyBack d (j * 8) out ++ v := by
    intro j
    have hsum : j * 8 + 8 = (j * k + k) * d := by rw [Nat.add_mul, Nat.mul_assoc, hk]
    rw [hsum, copyBack_periods _ hd, ← hk, ← Nat.mul_assoc, copyBack_periods _ hd, hv,
      List.replicate_add, List.flatten_append, List.append_assoc]
  obtain ⟨dst', m, hcopy, ⟨j, rfl, hfilled⟩, hend, hle⟩ := strideCopy_ok
    (fun dst d _ => writeAt dst d v) (n := 8) (e := out.length + n)
    (P := fun m dst' => ∃ j, m = j * 8 ∧ FilledLike dst (copyBack d m out) dst') (by omega)
    out.length 0
    (by
      rintro m dst' ⟨j, rfl, hfilled⟩ hgo
      obtain ⟨dst'', hwrite, hnext⟩ := writeAt_filled hfilled.2 v
        (by have := hfilled.1; simp only [length_copyBack]; omega)
      rw [length_copyBack] at hwrite
      refine ⟨dst'', hwrite, j + 1, by omega, ?_⟩
      rw [hsnoc]
      exact hfilled.trans hnext)
    (show out.length + n - (out.length + 0) < out.length + n - out.length + 1 by omega) (.inl rfl)
    ⟨0, rfl, by simpa using FilledLike.refl h⟩
  exact ⟨dst', hcopy, hfilled.mono (prefix_copyBack_of_le _ _ (by omega))⟩

theorem lz4MemcpyUsingOffsetBase_filled {dst out : List UInt8} {offset n : Nat} (h : out <+: dst)
    (hd : offset ≤ out.length) (hroom : out.length + n + 16 ≤ dst.length) :
    ∃ dst', lz4MemcpyUsingOffsetBase dst out.length (out.length - offset) (out.length + n) offset =
        .ok dst' ∧ FilledLike dst (copyBack offset n out) dst' := by
  obtain ⟨dst₁, hhead, hfilled₁⟩ := lz4MatchHead_filled h hd (by omega)
  have hlen : (copyBack offset 8 out).length = out.length + 8 := length_copyBack _ _ _
  have hdist : 8 ≤ lz4Distance offset ∧ lz4Distance offset ≤ out.length + 8 := by
    cases offset with
    | zero => exact ⟨le_rfl, Nat.le_add_left _ _⟩
    | succ offset =>
        obtain ⟨-, h₈, hle⟩ := lz4Distance_spec (show 0 < offset + 1 by omega)
        exact ⟨h₈, by omega⟩
  obtain ⟨dst₂, hcopy, hfilled₂⟩ := lz4WildCopy8_filled (e := out.length + n) hfilled₁.2 hdist.1
    (by omega) (by have := hfilled₁.1; omega) (by have := hfilled₁.1; omega)
  rw [hlen] at hcopy
  refine ⟨dst₂, by simp only [lz4MemcpyUsingOffsetBase, bind, Except.bind, hhead, hcopy], ?_⟩
  rw [copyBack_lz4Distance hd] at hfilled₂
  exact (hfilled₁.trans hfilled₂).mono (prefix_copyBack_of_le _ _ (by omega))

/-- A match from less than sixteen bytes before. -/
theorem lz4MemcpyUsingOffset_filled {dst out : List UInt8} {offset n : Nat} (h : out <+: dst)
    (hd : offset ≤ out.length) (hroom : out.length + n + 16 ≤ dst.length) :
    ∃ dst', lz4MemcpyUsingOffset dst out.length (out.length - offset) (out.length + n) offset =
        .ok dst' ∧ FilledLike dst (copyBack offset n out) dst' := by
  have hread : offset ≤ out.length → readAt dst (out.length - offset) offset =
      .ok (out.drop (out.length - offset)) := by
    intro _
    obtain ⟨rest, rfl⟩ := h
    rw [readAt_ok (by simp; omega), List.drop_append_of_le_length (by omega),
      List.take_append_of_le_length (by simp; omega), List.take_of_length_le (by simp; omega)]
  unfold lz4MemcpyUsingOffset
  split
  · have hpos : out.length - 1 < out.length := by omega
    have hlast : out.drop (out.length - 1) = [out.getD (out.length - 1) 0] := by
      rw [List.drop_eq_getElem_cons hpos, List.drop_eq_nil_of_le (by omega),
        List.getD_eq_getElem?_getD, List.getElem?_eq_getElem hpos]
      rfl
    have hbyte : readByte dst (out.length - 1) = .ok (out.getD (out.length - 1) 0) := by
      obtain ⟨rest, rfl⟩ := h
      rw [readByte_ok (by simp; omega), List.getD_eq_getElem?_getD, List.getD_eq_getElem?_getD,
        List.getElem?_append_left hpos]
    simp only [bind, Except.bind, hbyte]
    exact lz4FillPattern_filled (k := 8) h hd rfl (by rw [hlast]; rfl) (by omega)
  · simp only [bind, Except.bind, hread hd]
    exact lz4FillPattern_filled (k := 4) h hd rfl (by simp [List.replicate_succ]) (by omega)
  · simp only [bind, Except.bind, hread hd]
    exact lz4FillPattern_filled (k := 2) h hd rfl (by simp [List.replicate_succ]) (by omega)
  · exact lz4MemcpyUsingOffsetBase_filled h hd hroom

end MiniMem
