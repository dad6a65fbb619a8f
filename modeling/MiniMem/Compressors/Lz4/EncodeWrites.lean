import MiniMem.Compressors.Lz4.Sequences

/-!
# MiniMem.Compressors.Lz4.EncodeWrites

What the LZ4 encoder writes.  `Lz4Turn.Writes` relates a turn of its main loop
to the same turn without output: the destination is filled with the sequences
so far, and behind `_next_match` with the token and the literals of the next
one.  The checks of a limited output come before every write they are for, and
a destination of `LZ4_compressBound` bytes needs none
(`Lz4Call.room_of_check`).
-/

namespace MiniMem

/-! ## Lengths -/

theorem lz4WriteLength_filled (fuel len : Nat) {dst out : List UInt8} (h : out <+: dst)
    (hroom : out.length + len / 255 + 1 ≤ dst.length) (hfuel : len < fuel) :
    ∃ dst', lz4WriteLength fuel dst out.length len = .ok (dst', out.length + (len / 255 + 1)) ∧
      FilledLike dst (out ++ lengthBytes len) dst' := by
  induction fuel generalizing dst out len with
  | zero => omega
  | succ fuel ih =>
      rw [lz4WriteLength]
      by_cases hlong : len ≥ 255
      · obtain ⟨len, rfl⟩ : ∃ n, len = n + 255 := ⟨len - 255, by omega⟩
        obtain ⟨dst₁, hwrite, hfilled₁⟩ := writeAt_filled h [255] (by simp; omega)
        have hlen : (out ++ [(255 : UInt8)]).length = out.length + 1 := by simp
        obtain ⟨dst₂, hrest, hfilled₂⟩ := ih len hfilled₁.2
          (by have := hfilled₁.1; omega) (by omega)
        rw [hlen] at hrest
        refine ⟨dst₂, ?_, ?_⟩
        · rw [if_pos hlong, hwrite]
          simp only [bind, Except.bind]
          rw [Nat.add_sub_cancel, hrest, show out.length + 1 + (len / 255 + 1) =
            out.length + ((len + 255) / 255 + 1) by omega]
        · rw [lengthBytes_add]
          simpa using hfilled₁.trans hfilled₂
      · obtain ⟨dst₁, hwrite, hfilled₁⟩ := writeAt_filled h [UInt8.ofNat len]
          (by simp; omega)
        refine ⟨dst₁, ?_, by rwa [lengthBytes_of_lt (by omega)]⟩
        rw [if_neg hlong, hwrite]
        simp only [bind, Except.bind, pure, Except.pure]
        rw [show out.length + (len / 255 + 1) = out.length + 1 by omega]

/-- A token and the bytes behind it, for a number of literals. -/
theorem lz4WriteRun_filled (len : Nat) {dst out : List UInt8} (h : out <+: dst)
    (hroom : out.length + 1 + (len + 240) / 255 ≤ dst.length) :
    ∃ dst', lz4WriteRun dst out.length len =
        .ok (dst', (out ++ lz4Token len 0 :: lengthTail len).length) ∧
      FilledLike dst (out ++ lz4Token len 0 :: lengthTail len) dst' := by
  have hlen : (out ++ lz4Token len 0 :: lengthTail len).length =
      out.length + 1 + (len + 240) / 255 := by
    simp only [List.length_append, List.length_cons, length_lengthTail]
    omega
  obtain ⟨dst₁, hwrite, hfilled₁⟩ := writeAt_filled h [lz4Token len 0] (by simp; omega)
  rw [lz4WriteRun, hlen]
  by_cases hlong : len ≥ 15
  · have htoken : lz4Token len 0 = UInt8.ofNat (15 <<< 4) := by
      rw [lz4Token, Nat.min_eq_right hlong]
      rfl
    have hlen₁ : (out ++ [lz4Token len 0]).length = out.length + 1 := by simp
    obtain ⟨dst₂, hrest, hfilled₂⟩ := lz4WriteLength_filled (len + 1) (len - 15)
      hfilled₁.2 (by have := hfilled₁.1; omega) (by omega)
    rw [hlen₁] at hrest
    rw [htoken] at hwrite
    refine ⟨dst₂, ?_, ?_⟩
    · rw [if_pos hlong, hwrite]
      simp only [bind, Except.bind]
      rw [hrest, show out.length + 1 + ((len - 15) / 255 + 1) = out.length + 1 + (len + 240) / 255
        by omega]
    · rw [lengthTail, if_neg (by omega)]
      simpa using hfilled₁.trans hfilled₂
  · have htoken : lz4Token len 0 = UInt8.ofNat (len <<< 4) := by
      rw [lz4Token, Nat.min_eq_left (by omega), Nat.zero_min, Nat.shiftLeft_eq, Nat.add_zero,
        Nat.mul_comm]
    rw [htoken] at hwrite
    refine ⟨dst₁, ?_, ?_⟩
    · rw [if_neg hlong, hwrite]
      simp only [bind, Except.bind, pure, Except.pure]
      rw [show out.length + 1 + (len + 240) / 255 = out.length + 1 by omega]
    · rw [lengthTail, if_pos (by omega)]
      exact hfilled₁

/-- The loop that writes a length four bytes at a time, of which four are written before it. -/
theorem lz4WriteMatchLoop_filled (fuel code : Nat) {dst out : List UInt8}
    (h : out ++ List.replicate 4 255 <+: dst) (hroom : out.length + code / 255 + 4 ≤ dst.length)
    (hfuel : code < fuel) :
    ∃ dst' k, lz4WriteMatchLoop fuel dst out.length code =
        .ok (dst', out.length + 4 * k, code - 4 * 255 * k) ∧
      4 * 255 * k ≤ code ∧ code < 4 * 255 * k + 4 * 255 ∧
      FilledLike dst (out ++ List.replicate (4 * k + 4) 255) dst' := by
  induction fuel generalizing dst out code with
  | zero => omega
  | succ fuel ih =>
      rw [lz4WriteMatchLoop]
      by_cases hlong : code ≥ 4 * 255
      · obtain ⟨dst₁, hwrite, hfilled₁⟩ := writeAt_filled h (List.replicate 4 255)
          (by simp; omega)
        have hlen : (out ++ List.replicate 4 (255 : UInt8)).length = out.length + 4 := by simp
        obtain ⟨dst₂, k, hloop, hle, hlt, hfilled₂⟩ := ih (code - 4 * 255)
          hfilled₁.2 (by have := hfilled₁.1; omega) (by omega)
        rw [hlen] at hwrite hloop
        refine ⟨dst₂, k + 1, ?_, by omega, by omega, ?_⟩
        · rw [if_pos hlong, show [(255 : UInt8), 255, 255, 255] = List.replicate 4 255 by rfl, hwrite]
          simp only [bind, Except.bind]
          rw [hloop, show out.length + 4 + 4 * k = out.length + 4 * (k + 1) by omega,
            show code - 4 * 255 - 4 * 255 * k = code - 4 * 255 * (k + 1) by omega]
        · have hsum : out ++ List.replicate (4 * (k + 1) + 4) (255 : UInt8) =
              out ++ List.replicate 4 255 ++ List.replicate (4 * k + 4) 255 := by
            rw [List.append_assoc, List.replicate_append_replicate,
              show 4 + (4 * k + 4) = 4 * (k + 1) + 4 by omega]
          rw [hsum]
          exact hfilled₁.trans hfilled₂
      · refine ⟨dst, 0, by rw [if_neg hlong]; rfl, by omega, by omega, ?_⟩
        exact FilledLike.refl h

theorem lengthBytes_eq_replicate (n : Nat) :
    lengthBytes n = List.replicate (n / 255) 255 ++ [UInt8.ofNat (n % 255)] := by
  induction n using Nat.strong_induction_on with
  | _ n ih =>
      by_cases h : n < 255
      · rw [lengthBytes_of_lt h, Nat.div_eq_of_lt h, Nat.mod_eq_of_lt h]
        rfl
      · obtain ⟨m, rfl⟩ : ∃ m, n = m + 255 := ⟨n - 255, by omega⟩
        rw [lengthBytes_add, ih m (by omega), Nat.add_div_right _ (by omega), Nat.add_mod_right,
          List.replicate_succ, List.cons_append]

/-- The low bits of a token are added to it. -/
theorem lz4Token_add (literals : Nat) {code : Nat} (h : code ≤ 15) :
    lz4Token literals 0 + UInt8.ofNat code = lz4Token literals code := by
  rw [lz4Token, lz4Token, ← UInt8.ofNat_add, Nat.zero_min, Nat.add_zero, Nat.min_eq_left h]

/-- The length of a match, and its token. -/
theorem lz4WriteMatchLength_filled (code : Nat) {dst pre mid : List UInt8} {literals : Nat}
    (h : pre ++ lz4Token literals 0 :: mid <+: dst)
    (hroom : (pre ++ lz4Token literals 0 :: mid).length + (code + 240) / 255 + 3 ≤ dst.length) :
    ∃ dst', lz4WriteMatchLength dst (pre ++ lz4Token literals 0 :: mid).length pre.length code =
        .ok (dst', (pre ++ lz4Token literals code :: (mid ++ lengthTail code)).length) ∧
      FilledLike dst (pre ++ lz4Token literals code :: (mid ++ lengthTail code)) dst' := by
  have hlen : (pre ++ lz4Token literals code :: (mid ++ lengthTail code)).length =
      (pre ++ lz4Token literals 0 :: mid).length + (code + 240) / 255 := by
    simp only [List.length_append, List.length_cons, length_lengthTail]
    omega
  rw [lz4WriteMatchLength, hlen]
  by_cases hlong : code ≥ 15
  · obtain ⟨hread, dst₁, htoken, hfilled₁⟩ := writeAt_inside h (lz4Token literals code)
    have hsum : lz4Token literals 0 + 15 = lz4Token literals code := by
      have hfifteen := lz4Token_add literals (le_refl 15)
      rw [show (15 : UInt8) = UInt8.ofNat 15 by rfl, hfifteen, lz4Token, lz4Token,
        Nat.min_eq_right hlong, Nat.min_self]
    have hlen₁ : (pre ++ lz4Token literals code :: mid).length =
        (pre ++ lz4Token literals 0 :: mid).length := by simp
    obtain ⟨dst₂, hfour, hfilled₂⟩ := writeAt_filled hfilled₁.2 (List.replicate 4 255)
      (by rw [hlen₁]; have := hfilled₁.1; simp at hroom ⊢; omega)
    obtain ⟨dst₃, k, hloop, hle, hlt, hfilled₃⟩ := lz4WriteMatchLoop_filled (code - 15 + 1)
      (code - 15) hfilled₂.2
      (by rw [hlen₁]; have := hfilled₁.1; have := hfilled₂.1; omega) (by omega)
    -- the last byte behind the whole fours and up to three more
    have hdiv : (code - 15) / 255 = 4 * k + (code - 15 - 4 * 255 * k) / 255 := by omega
    have hmod : (code - 15) % 255 = (code - 15 - 4 * 255 * k) % 255 := by omega
    have hfront : pre ++ lz4Token literals code :: mid ++
        List.replicate ((code - 15) / 255) (255 : UInt8) <+: dst₃ := by
      refine List.IsPrefix.trans ?_ hfilled₃.2
      rw [List.prefix_append_right_inj]
      refine ⟨List.replicate (4 * k + 4 - (code - 15) / 255) 255, ?_⟩
      rw [List.replicate_append_replicate]
      congr 1
      omega
    have hlen₃ : (pre ++ lz4Token literals code :: mid ++
        List.replicate ((code - 15) / 255) (255 : UInt8)).length =
        (pre ++ lz4Token literals 0 :: mid).length + (code - 15) / 255 := by
      rw [List.length_append, hlen₁, List.length_replicate]
    obtain ⟨dst₄, hlast, hfilled₄⟩ := writeAt_filled hfront
      [UInt8.ofNat ((code - 15) % 255)]
      (by
        rw [hlen₃]
        have := hfilled₁.1
        have := hfilled₂.1
        have := hfilled₃.1
        simp only [List.length_singleton]
        omega)
    rw [hlen₃, hmod, hdiv] at hlast
    rw [hlen₁] at hfour hloop
    refine ⟨dst₄, ?_, ?_⟩
    · rw [hread]
      simp only [bind, Except.bind, pure, Except.pure]
      rw [if_pos hlong, hsum, htoken]
      simp only
      rw [show [(255 : UInt8), 255, 255, 255] = List.replicate 4 255 by rfl, hfour]
      simp only [hloop]
      rw [Nat.add_assoc, hlast, show (code + 240) / 255 = (code - 15) / 255 + 1 by omega, hdiv]
      rfl
    · have hend : pre ++ lz4Token literals code :: (mid ++ lengthTail code) =
          pre ++ lz4Token literals code :: mid ++ List.replicate ((code - 15) / 255) 255 ++
            [UInt8.ofNat ((code - 15) % 255)] := by
        rw [lengthTail, if_neg (by omega), lengthBytes_eq_replicate]
        simp
      rw [hend]
      exact hfilled₁.trans (hfilled₂.trans ⟨hfilled₄.1.trans hfilled₃.1, hfilled₄.2⟩)
  · obtain ⟨hread, dst₁, htoken, hfilled₁⟩ := writeAt_inside h (lz4Token literals code)
    refine ⟨dst₁, ?_, ?_⟩
    · rw [hread]
      simp only [bind, Except.bind, pure, Except.pure]
      rw [if_neg hlong, lz4Token_add literals (by omega), htoken]
      simp only
      rw [show (code + 240) / 255 = 0 by omega, Nat.add_zero]
    · rw [lengthTail, if_pos (by omega), List.append_nil]
      exact hfilled₁

end MiniMem
