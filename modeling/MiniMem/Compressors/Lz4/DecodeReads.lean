import MiniMem.Compressors.Lz4.Copies
import MiniMem.Lz4Block

/-!
# MiniMem.Compressors.Lz4.DecodeReads

The turns of the LZ4 decoder against the plain step of the block format.
`Lz4Decoder.At` relates their states: the plain decoder is left with the
source behind `ip`, and what it has expanded fills the output up to `op`.
Each part of a turn is related to the part of the plain step it does the work
of, so that both loops take the plain step (`safeDecodeStep_reads`,
`fastDecodeStep_reads`), and with the same checks: those that `lz4Checks`
leaves out on the way of the shortcut.
-/

namespace MiniMem

/-! ## The relation -/

/-- Whether a turn may take the shortcut of the safe loop. -/
def lz4Short (cap : Nat) (left out : List UInt8) : Bool :=
  match left with
  | [] => false
  | token :: left =>
      decide (token.toNat / 16 ≠ 15 ∧ 17 ≤ left.length ∧ out.length + 32 ≤ cap)

/-- What a turn checks: on the shortcut neither the end of the literals nor that of a short
match at an offset of at least 8. -/
def lz4Checks (short : Bool) : Checks where
  literals := !short
  match_ := fun nibble offset => !(short && decide (nibble ≠ 15 ∧ 8 ≤ offset))

/-- The checks of the decoder. -/
def lz4Rule (cap : Nat) (left out : List UInt8) : Checks := lz4Checks (lz4Short cap left out)

/-- The decoder has expanded `out`. -/
structure Lz4Decoder.At (src dst out : List UInt8) (s : Lz4Decoder) : Prop where
  op_eq : s.op = out.length
  ip_le : s.ip ≤ src.length
  filled : FilledLike dst out s.dst

/-- A turn does what a plain step does. -/
inductive Lz4Exit.Reads (src dst : List UInt8) : PlainStep → Lz4Exit → Prop
  | fail {ip : Nat} {dst' : List UInt8} (hip : ip ≤ src.length) (hdst : dst'.length = dst.length) :
      Reads src dst (.fail (src.drop ip)) (.ret (-(ip : Int) - 1) dst')
  | done {out dst' : List UInt8} (hfilled : FilledLike dst out dst') :
      Reads src dst (.done out) (.ret out.length dst')
  | next {out : List UInt8} {s : Lz4Decoder} (hat : s.At src dst out) (hip : s.ip < src.length) :
      Reads src dst (.next (src.drop s.ip) out) (.next s)

theorem lz4OutputError_reads {src dst : List UInt8} {s : Lz4Decoder} (hip : s.ip ≤ src.length)
    (hdst : s.dst.length = dst.length) :
    Lz4Exit.Reads src dst (.fail (src.drop s.ip)) (lz4OutputError s) := .fail hip hdst

/-! ## Lengths -/

theorem readByte_of_drop {src left : List UInt8} {b : UInt8} {ip : Nat} (h : src.drop ip = b :: left) :
    readByte src ip = .ok b ∧ src.drop (ip + 1) = left ∧ ip < src.length := by
  have hlt : ip < src.length := by
    have hlen := congrArg List.length h
    simp only [List.length_drop, List.length_cons] at hlen
    omega
  have hget : src[ip]? = some b := by
    have hhead := congrArg (·[0]?) h
    simpa using hhead
  refine ⟨by rw [readByte, hget], ?_, hlt⟩
  rw [← List.drop_drop, h]
  rfl

/-- The bytes that add to a length are read as the plain decoder reads them, which may have
started with another length. -/
theorem readLengthBytes_plain {src : List UInt8} {margin ip : Nat} (fuel length k : Nat)
    (hmargin : 0 < margin) (hip : ip < src.length) (hfuel : src.length - ip ≤ fuel) :
    (∃ ip', readLengthBytes src (src.length - margin) fuel ip length = .ok (ip', none) ∧
        ip' ≤ src.length ∧ plainLength margin (src.drop ip) (length + k) = .error (src.drop ip')) ∨
      ∃ ip' n, readLengthBytes src (src.length - margin) fuel ip length = .ok (ip', some n) ∧
        ip' + margin ≤ src.length ∧
        plainLength margin (src.drop ip) (length + k) = .ok (n + k, src.drop ip') := by
  induction fuel generalizing ip length with
  | zero => omega
  | succ fuel ih =>
      obtain ⟨b, left, hdrop⟩ : ∃ b left, src.drop ip = b :: left := by
        rw [List.drop_eq_getElem_cons hip]
        exact ⟨_, _, rfl⟩
      obtain ⟨hbyte, hleft, -⟩ := readByte_of_drop hdrop
      have hlen : left.length = src.length - (ip + 1) := by rw [← hleft, List.length_drop]
      rw [hdrop, plainLength, readLengthBytes, hbyte]
      simp only [bind, Except.bind, pure, Except.pure]
      by_cases hend : left.length < margin
      · rw [if_pos hend, if_pos (by omega)]
        exact .inl ⟨ip + 1, rfl, by omega, by rw [hleft]⟩
      · rw [if_neg hend, if_neg (by omega)]
        by_cases hb : b = 255
        · rw [if_pos hb, if_neg (by simpa using hb), ← hleft, hb,
            show length + k + 255 = length + 255 + k by omega]
          exact ih _ (by omega) (by omega)
        · rw [if_neg hb, if_pos hb]
          refine .inr ⟨ip + 1, length + b.toNat, rfl, by omega, ?_⟩
          rw [hleft, show length + k + b.toNat = length + b.toNat + k by omega]

/-- The number of literals behind a token of 15. -/
theorem readLiterals_plain (src : List UInt8) {ip : Nat} (hip : ip ≤ src.length) :
    (∃ ip', readVariableLength src ip (src.length - 15) true = .ok (ip', none) ∧
        ip' ≤ src.length ∧ plainLiterals 15 (src.drop ip) = .error (src.drop ip')) ∨
      ∃ ip' n, readVariableLength src ip (src.length - 15) true = .ok (ip', some n) ∧
        ip' ≤ src.length ∧ plainLiterals 15 (src.drop ip) = .ok (n + 15, src.drop ip') := by
  rw [plainLiterals, if_pos rfl, readVariableLength, List.length_drop]
  by_cases hshort : src.length - ip ≤ 15
  · rw [if_pos hshort, if_pos ⟨rfl, by omega⟩]
    exact .inl ⟨ip, rfl, hip, rfl⟩
  · rw [if_neg hshort, if_neg (by omega)]
    obtain ⟨ip', hread, hip', hplain⟩ | ⟨ip', n, hread, hip', hplain⟩ :=
      readLengthBytes_plain (src.length + 1) 0 15 (show 0 < 15 by omega)
        (show ip < src.length by omega) (by omega)
    · exact .inl ⟨ip', hread, hip', by simpa using hplain⟩
    · exact .inr ⟨ip', n, hread, by omega, by simpa using hplain⟩

/-- The length of a match behind a token of 15. -/
theorem readMatch_plain {src : List UInt8} {ip : Nat} (hip : ip < src.length) :
    (∃ ip', readVariableLength src ip (src.length - 5 + 1) false = .ok (ip', none) ∧
        ip' ≤ src.length ∧ plainMatch 15 (src.drop ip) = .error (src.drop ip')) ∨
      ∃ ip' n, readVariableLength src ip (src.length - 5 + 1) false = .ok (ip', some n) ∧
        ip' < src.length ∧ plainMatch 15 (src.drop ip) = .ok (n + 15, src.drop ip') := by
  rw [plainMatch, if_pos rfl, readVariableLength, if_neg (by simp),
    show ((src.length : Int) - 5 + 1) = src.length - (4 : Nat) by omega]
  obtain ⟨ip', hread, hip', hplain⟩ | ⟨ip', n, hread, hip', hplain⟩ :=
    readLengthBytes_plain (src.length + 1) 0 15 (show 0 < 4 by omega) hip (by omega)
  · exact .inl ⟨ip', hread, hip', by simpa using hplain⟩
  · exact .inr ⟨ip', n, hread, by omega, by simpa using hplain⟩

theorem lz4ReadLE16_ok {src : List UInt8} {ip : Nat} (h : ip + 2 ≤ src.length) :
    lz4ReadLE16 src ip = .ok (leNat ((src.drop ip).take 2)) := by
  rw [lz4ReadLE16, readAt_ok h]
  rfl

/-! ## Matches -/

/-- The restriction on the end of a match does not matter where it holds, or where the offset is
wrong. -/
theorem plainCopy_checked {checked : Bool} {cap offset code : Nat} {left out : List UInt8}
    (h : offset ≤ out.length → checked = false → out.length + (code + 4) + 5 ≤ cap) :
    plainCopy checked cap offset code left out = plainCopy true cap offset code left out := by
  unfold plainCopy
  by_cases hoffset : out.length < offset
  · simp [hoffset]
  · cases checked with
    | true => rfl
    | false =>
        have hfits := h (by omega) rfl
        simp [hoffset, show ¬ cap < out.length + (code + 4) + 5 by omega]

theorem lz4Distance_bounds {offset n : Nat} (h : offset ≤ n) :
    8 ≤ lz4Distance offset ∧ lz4Distance offset ≤ n + 8 := by
  cases offset with
  | zero => exact ⟨le_rfl, Nat.le_add_left _ _⟩
  | succ offset =>
      obtain ⟨-, h₈, hle⟩ := lz4Distance_spec (show 0 < offset + 1 by omega)
      exact ⟨h₈, by omega⟩

/-- What goes on from the multiple of an offset fills a match. -/
theorem filled_match {dst dst₁ dst₂ out : List UInt8} {offset m n : Nat} (hd : offset ≤ out.length)
    (h₁ : dst₁.length = dst.length)
    (h₂ : FilledLike dst₁ (copyBack (lz4Distance offset) n (copyBack offset 8 out)) dst₂)
    (hm : m ≤ 8 + n) : FilledLike dst (copyBack offset m out) dst₂ := by
  rw [copyBack_lz4Distance hd] at h₂
  exact FilledLike.mono ⟨h₂.1.trans h₁, h₂.2⟩ (prefix_copyBack_of_le _ _ hm)

/-- `safe_match_copy` copies a match that ends where it may. -/
theorem safeMatchCopy_reads {src dst out : List UInt8} {s : Lz4Decoder} (offset code : Nat)
    (h : s.At src dst out) (hroom : out.length + 12 ≤ dst.length) (hip : s.ip < src.length) :
    ∃ e, safeMatchCopy dst.length offset (code + 4) s = .ok e ∧
      Lz4Exit.Reads src dst (plainCopy true dst.length offset code (src.drop s.ip) out) e := by
  obtain ⟨hop, hle, hlen, hpre⟩ := h
  rw [plainCopy, safeMatchCopy, hop]
  by_cases hoffset : out.length < offset
  · rw [if_pos hoffset, if_pos hoffset]
    exact ⟨_, rfl, lz4OutputError_reads hle hlen⟩
  rw [if_neg hoffset, if_neg hoffset]
  have hd : offset ≤ out.length := by omega
  obtain ⟨h₈, hdist⟩ := lz4Distance_bounds hd
  obtain ⟨dst₁, hhead, hlen₁, hpre₁⟩ := lz4MatchHead_filled hpre hd (by omega)
  have hlen₈ : (copyBack offset 8 out).length = out.length + 8 := length_copyBack _ _ _
  have hnext : ∀ dst₂, FilledLike dst (copyBack offset (code + 4) out) dst₂ →
      Lz4Exit.Reads src dst (.next (src.drop s.ip) (copyBack offset (code + 4) out))
        (.next ⟨s.ip, out.length + (code + 4), dst₂⟩) := by
    intro dst₂ hfilled
    have hat : Lz4Decoder.At src dst (copyBack offset (code + 4) out)
        ⟨s.ip, out.length + (code + 4), dst₂⟩ := ⟨by simp, hle, hfilled⟩
    exact .next hat hip
  simp only [bind, Except.bind, pure, Except.pure, hhead, true_and]
  by_cases hend : dst.length < out.length + (code + 4) + 5
  · rw [if_pos hend, if_pos (show ((out.length + (code + 4) : Nat) : Int) > dst.length - 12 by omega),
      if_pos (show ((out.length + (code + 4) : Nat) : Int) > dst.length - 5 by omega)]
    exact ⟨_, rfl, lz4OutputError_reads (s := { s with dst := dst₁ }) hle (hlen₁.trans hlen)⟩
  rw [if_neg hend]
  by_cases hnear : ((out.length + (code + 4) : Nat) : Int) > dst.length - 12
  · rw [if_pos hnear, if_neg (show ¬ ((out.length + (code + 4) : Nat) : Int) > dst.length - 5 by omega)]
    by_cases hstride : out.length + 8 < ((dst.length : Int) - 7).toNat
    · -- strides up to `oCopyLimit`, bytes from there
      rw [if_pos hstride]
      obtain ⟨limit, hlimit⟩ : ∃ limit, limit = ((dst.length : Int) - 7).toNat := ⟨_, rfl⟩
      rw [← hlimit] at hstride ⊢
      obtain ⟨dst₂, hcopy, hlen₂, hpre₂⟩ := lz4WildCopy8_filled (e := limit) hpre₁ h₈ (by omega)
        (by omega) (by omega)
      rw [hlen₈] at hcopy hpre₂
      have hlen₂' : (copyBack (lz4Distance offset) (limit - (out.length + 8))
          (copyBack offset 8 out)).length = limit := by
        rw [length_copyBack, hlen₈]
        omega
      obtain ⟨dst₃, hbytes, hlen₃, hpre₃⟩ := byteCopy_self (n := out.length + (code + 4) - limit)
        (d := lz4Distance offset) hpre₂ (by omega) (by omega) (by omega)
      rw [hlen₂', show limit - lz4Distance offset =
        out.length + 8 - lz4Distance offset + (limit - (out.length + 8)) by omega] at hbytes
      rw [← copyBack_add] at hpre₃
      simp only [hcopy, hbytes]
      exact ⟨_, rfl, hnext dst₃ (filled_match hd (by omega) ⟨rfl, hpre₃⟩ (by omega))⟩
    · rw [if_neg hstride]
      obtain ⟨dst₂, hbytes, hlen₂, hpre₂⟩ := byteCopy_self
        (n := out.length + (code + 4) - (out.length + 8)) (d := lz4Distance offset) hpre₁ (by omega)
        (by omega) (by omega)
      rw [hlen₈] at hbytes
      simp only [hbytes]
      exact ⟨_, rfl, hnext dst₂ (filled_match hd (by omega) ⟨rfl, hpre₂⟩ (by omega))⟩
  · rw [if_neg hnear]
    obtain ⟨dst₂, hsecond, hlen₂, hpre₂⟩ := copyIn_self (n := 8) (d := lz4Distance offset) hpre₁ h₈
      (by omega) (by omega)
    rw [hlen₈] at hsecond
    simp only [hsecond]
    by_cases hlong : code + 4 > 16
    · rw [if_pos hlong]
      have hlen₁₆ : (copyBack (lz4Distance offset) 8 (copyBack offset 8 out)).length =
          out.length + 16 := by simp
      obtain ⟨dst₃, hcopy, hlen₃, hpre₃⟩ := lz4WildCopy8_filled (e := out.length + (code + 4)) hpre₂
        h₈ (by omega) (by omega) (by omega)
      rw [hlen₁₆, show out.length + 16 - lz4Distance offset =
        out.length + 8 - lz4Distance offset + 8 by omega] at hcopy
      rw [← copyBack_add, hlen₁₆] at hpre₃
      rw [show out.length + 8 + 8 = out.length + 16 by omega]
      simp only [hcopy]
      exact ⟨_, rfl, hnext dst₃ (filled_match hd (by omega) ⟨rfl, hpre₃⟩ (by omega))⟩
    · rw [if_neg hlong]
      exact ⟨_, rfl, hnext dst₂ (filled_match hd (by omega) ⟨rfl, hpre₂⟩ (by omega))⟩

theorem and_fifteen (token : UInt8) : token.toNat &&& 15 = token.toNat % 16 :=
  Nat.and_two_pow_sub_one_eq_mod token.toNat 4

theorem shift_four (token : UInt8) : token.toNat >>> 4 = token.toNat / 16 :=
  Nat.shiftRight_eq_div_pow token.toNat 4

/-- `_copy_match` reads the rest of a match, whose end it checks. -/
theorem copyMatch_reads {src dst out : List UInt8} {s : Lz4Decoder} {checks : Checks} {token : UInt8}
    {offset : Nat} (h : s.At src dst out) (hroom : out.length + 12 ≤ dst.length)
    (hip : s.ip < src.length)
    (hchecks : offset ≤ out.length → checks.match_ (token.toNat % 16) offset = true) :
    ∃ e, copyMatch src src.length dst.length token offset s = .ok e ∧ Lz4Exit.Reads src dst
      (plainMatched checks dst.length offset (token.toNat % 16) (src.drop s.ip) out) e := by
  have hchecked : ∀ code left, plainCopy (checks.match_ (token.toNat % 16) offset) dst.length offset
      code left out = plainCopy true dst.length offset code left out := by
    intro code left
    exact plainCopy_checked fun hoffset hfalse => by simp [hchecks hoffset] at hfalse
  rw [copyMatch, and_fifteen, plainMatched]
  by_cases h₁₅ : token.toNat % 16 = 15
  · rw [h₁₅] at hchecked
    rw [if_pos h₁₅, h₁₅]
    obtain ⟨ip', hread, hip', hplain⟩ | ⟨ip', n, hread, hip', hplain⟩ := readMatch_plain hip
    · simp only [bind, Except.bind, pure, Except.pure, hread, hplain]
      exact ⟨_, rfl, lz4OutputError_reads (s := { s with ip := ip' }) hip' h.filled.1⟩
    · simp only [bind, Except.bind, hread, hplain, hchecked]
      rw [show 15 + n = n + 15 by omega]
      exact safeMatchCopy_reads offset (n + 15) (s := { s with ip := ip' }) ⟨h.op_eq, by simp; omega, h.filled⟩ hroom hip'
  · rw [if_neg h₁₅, plainMatch, if_neg h₁₅]
    simp only [hchecked]
    exact safeMatchCopy_reads offset _ h hroom hip

/-! ## The safe loop -/

/-- `safe_literal_copy` reads the rest of a sequence, whose ends it checks. -/
theorem safeLiteralCopy_reads {src dst out : List UInt8} {s : Lz4Decoder} (token : UInt8)
    (length : Nat) (h : s.At src dst out) :
    ∃ e, safeLiteralCopy src src.length dst.length token length s = .ok e ∧ Lz4Exit.Reads src dst
      (plainBehind (lz4Checks false) dst.length (token.toNat % 16) length (src.drop s.ip) out) e := by
  obtain ⟨hop, hle, hlen, hpre⟩ := h
  rw [plainBehind, safeLiteralCopy, hop, List.length_drop]
  by_cases hend : dst.length < out.length + length + 12 ∨ src.length - s.ip < length + 8
  · rw [if_pos (show src.length - s.ip < length + 2 ∨ (lz4Checks false).literals = true ∧
        (dst.length < out.length + length + 12 ∨ src.length - s.ip < length + 8) from .inr ⟨rfl, hend⟩),
      if_pos (show ((out.length + length : Nat) : Int) > dst.length - 12 ∨
        ((s.ip + length : Nat) : Int) > src.length - (2 + 1 + 5) by omega)]
    by_cases hlast : length = src.length - s.ip ∧ out.length + length ≤ dst.length
    · rw [if_pos hlast, if_neg (by omega)]
      obtain ⟨dst', hcopy, hlen', hpre'⟩ := copyIn_filled src s.ip length hpre
        (by omega) (by omega)
      have hall : (src.drop s.ip).take length = src.drop s.ip :=
        List.take_of_length_le (by rw [List.length_drop]; omega)
      have hfull : ((out.length + length : Nat) : Int) = (out ++ src.drop s.ip).length := by
        simp only [List.length_append, List.length_drop, hlast.1]
      rw [hall] at hpre'
      simp only [bind, Except.bind, pure, Except.pure, hcopy, hfull]
      exact ⟨_, rfl, .done ⟨hlen'.trans hlen, hpre'⟩⟩
    · rw [if_neg hlast, if_pos (by omega)]
      exact ⟨_, rfl, lz4OutputError_reads hle hlen⟩
  · rw [if_neg (show ¬ (src.length - s.ip < length + 2 ∨ (lz4Checks false).literals = true ∧
        (dst.length < out.length + length + 12 ∨ src.length - s.ip < length + 8)) by
          simp [hend]; omega),
      if_neg (show ¬ (((out.length + length : Nat) : Int) > dst.length - 12 ∨
        ((s.ip + length : Nat) : Int) > src.length - (2 + 1 + 5)) by omega)]
    obtain ⟨dst', hcopy, hlen', hpre'⟩ :=
      lz4WildCopy8From_filled src s.ip length hpre (by omega) (by omega)
    have hop' : (out ++ (src.drop s.ip).take length).length = out.length + length := by simp; omega
    simp only [bind, Except.bind, hcopy, lz4ReadLE16_ok (show s.ip + length + 2 ≤ src.length by omega),
      List.drop_drop, ← Nat.add_assoc]
    exact copyMatch_reads ⟨hop'.symm, by simp; omega, hlen'.trans hlen, hpre'⟩ (by omega)
      (by simp; omega) (fun _ => rfl)

/-- The literals of the shortcut: sixteen bytes are copied for at most fourteen. -/
theorem copyIn_sixteen {src dst out : List UInt8} {s : Lz4Decoder} (length : Nat)
    (h : s.At src dst out) (hlength : length ≤ 16) (hip : s.ip + 16 ≤ src.length)
    (hop : out.length + 16 ≤ dst.length) :
    ∃ dst', copyIn src s.dst s.op s.ip 16 = .ok dst' ∧
      Lz4Decoder.At src dst (out ++ (src.drop s.ip).take length)
        ⟨s.ip + length, s.op + length, dst'⟩ := by
  obtain ⟨hop', hle, hlen, hpre⟩ := h
  obtain ⟨dst', hcopy, hfilled⟩ := copyIn_filled src s.ip 16 hpre hip (by omega)
  rw [← hop'] at hcopy
  refine ⟨dst', hcopy, ?_, by simp; omega, hfilled.1.trans hlen, ?_⟩
  · simp only [hop', List.length_append, List.length_take, List.length_drop]
    omega
  · refine List.IsPrefix.trans ?_ hfilled.2
    rw [List.prefix_append_right_inj]
    exact List.take_prefix_take_left hlength

/-- The eighteen bytes for a match of at most eighteen. -/
theorem lz4CopyMatch18_at {src dst out : List UInt8} {s : Lz4Decoder} {offset : Nat} (code : Nat)
    (h : s.At src dst out) (hd₈ : 8 ≤ offset) (hd : offset ≤ out.length) (hcode : code ≤ 14)
    (hroom : out.length + 18 ≤ dst.length) :
    ∃ dst', lz4CopyMatch18 s.dst s.op (s.op - offset) = .ok dst' ∧
      Lz4Decoder.At src dst (copyBack offset (code + 4) out) ⟨s.ip, s.op + (code + 4), dst'⟩ := by
  obtain ⟨hop, hle, hlen, hpre⟩ := h
  obtain ⟨dst', hcopy, hfilled⟩ := lz4CopyMatch18_filled hpre hd₈ hd (by omega)
  rw [← hop] at hcopy
  exact ⟨dst', hcopy, by simp [hop], hle, hfilled.1.trans hlen,
    (prefix_copyBack_of_le _ _ (by omega)).trans hfilled.2⟩

/-- The shortcut reads the rest of a sequence, whose ends it does not check for a short match. -/
theorem safeShortcut_reads {src dst out : List UInt8} {s : Lz4Decoder} {token : UInt8}
    (h : s.At src dst out) (hip : s.ip + 2 < src.length) (hroom : out.length + 18 ≤ dst.length) :
    ∃ e, safeShortcut src src.length dst.length token s = .ok e ∧ Lz4Exit.Reads src dst
      (plainMatched (lz4Checks true) dst.length (leNat ((src.drop s.ip).take 2)) (token.toNat % 16)
        (src.drop (s.ip + 2)) out) e := by
  have hat : Lz4Decoder.At src dst out { s with ip := s.ip + 2 } :=
    ⟨h.op_eq, by simp; omega, h.filled⟩
  rw [safeShortcut, and_fifteen, lz4ReadLE16_ok (by omega)]
  simp only [bind, Except.bind, pure, Except.pure]
  obtain ⟨offset, hoffset⟩ : ∃ offset, offset = leNat ((src.drop s.ip).take 2) := ⟨_, rfl⟩
  rw [← hoffset]
  by_cases hshort : token.toNat % 16 ≠ 15 ∧ offset ≥ 8 ∧ offset ≤ s.op
  · obtain ⟨h₁₅, h₈, hd⟩ := hshort
    rw [h.op_eq] at hd
    obtain ⟨dst', hcopy, hnext⟩ := lz4CopyMatch18_at (token.toNat % 16) hat h₈ hd (by omega)
      hroom
    rw [if_pos ⟨h₁₅, h₈, by rw [h.op_eq]; exact hd⟩, plainMatched, plainMatch, if_neg h₁₅]
    simp only [hcopy]
    rw [plainCopy, if_neg (by omega), if_neg (by simp [lz4Checks, h₁₅, h₈])]
    exact ⟨_, rfl, .next hnext (by simpa using hip)⟩
  · rw [if_neg hshort]
    exact copyMatch_reads hat (by omega) hip (by rw [h.op_eq] at hshort; simp [lz4Checks]; grind)

/-- **A turn of the safe loop** is a plain step. -/
theorem safeDecodeStep_reads {src dst out : List UInt8} {s : Lz4Decoder} (h : s.At src dst out)
    (hip : s.ip < src.length) :
    ∃ e, safeDecodeStep src src.length dst.length s = .ok e ∧ Lz4Exit.Reads src dst
      (plainStep (lz4Rule dst.length (src.drop s.ip) out) dst.length (src.drop s.ip) out) e := by
  obtain ⟨token, left, hdrop⟩ : ∃ token left, src.drop s.ip = token :: left := by
    rw [List.drop_eq_getElem_cons hip]
    exact ⟨_, _, rfl⟩
  obtain ⟨hbyte, hleft, -⟩ := readByte_of_drop hdrop
  have htoken : token.toNat < 256 := token.toNat_lt
  have hlen : left.length = src.length - (s.ip + 1) := by rw [← hleft, List.length_drop]
  have hat : Lz4Decoder.At src dst out { s with ip := s.ip + 1 } := ⟨h.op_eq, hip, h.filled⟩
  rw [hdrop, safeDecodeStep, hbyte, plainStep]
  simp only [bind, Except.bind, pure, Except.pure, shift_four]
  by_cases hshort : token.toNat / 16 ≠ 15 ∧ 17 ≤ left.length ∧ out.length + 32 ≤ dst.length
  · have hrule : lz4Rule dst.length (token :: left) out = lz4Checks true := by
      simp [lz4Rule, lz4Short, hshort]
    obtain ⟨h₁₅, hsrc, hdst⟩ := hshort
    obtain ⟨dst', hcopy, hnext⟩ := copyIn_sixteen (token.toNat / 16) hat (by omega)
      (by simp; omega) (by omega)
    have hop' : (out ++ (src.drop (s.ip + 1)).take (token.toNat / 16)).length =
        out.length + token.toNat / 16 := by simp; omega
    rw [if_pos ⟨h₁₅, by simp; omega, by simp [h.op_eq]; omega⟩, hrule, plainLiterals, if_neg h₁₅]
    simp only [hcopy]
    rw [plainBehind, if_neg (by simp [lz4Checks]; omega), ← hleft, List.drop_drop, List.drop_drop]
    exact safeShortcut_reads hnext (by simp; omega) (by omega)
  · have hrule : lz4Rule dst.length (token :: left) out = lz4Checks false := by
      simp only [lz4Rule, lz4Short]
      rw [decide_eq_false hshort]
    rw [if_neg (by simp only [h.op_eq]; omega), hrule]
    by_cases h₁₅ : token.toNat / 16 = 15
    · rw [if_pos h₁₅, h₁₅, ← hleft]
      obtain ⟨ip', hread, hip', hplain⟩ | ⟨ip', n, hread, hip', hplain⟩ := readLiterals_plain
        src (show s.ip + 1 ≤ src.length from hip)
      · simp only [hread, hplain]
        exact ⟨_, rfl, lz4OutputError_reads (s := { s with ip := ip' }) hip' h.filled.1⟩
      · simp only [hread, hplain]
        rw [show 15 + n = n + 15 by omega]
        exact safeLiteralCopy_reads token _ (s := { s with ip := ip' }) ⟨h.op_eq, hip', h.filled⟩
    · rw [if_neg h₁₅, plainLiterals, if_neg h₁₅, ← hleft]
      exact safeLiteralCopy_reads token _ hat

/-! ## The fast loop -/

/-- A turn of the fast loop does what a plain step does, and stays where 64 bytes are free. -/
inductive FastExit.Reads (src dst : List UInt8) : PlainStep → FastExit → Prop
  | stay {out : List UInt8} {s : Lz4Decoder} (hat : s.At src dst out) (hip : s.ip < src.length)
      (hroom : out.length + 64 ≤ dst.length) :
      Reads src dst (.next (src.drop s.ip) out) (.stay s)
  | leave {p : PlainStep} {e : Lz4Exit} (h : e.Reads src dst p) : Reads src dst p (.leave e)

/-- The end of a turn copies a match of any length, as long as 64 bytes stay free. -/
theorem fastMatchCopy_reads {src dst out : List UInt8} {s : Lz4Decoder} {checked : Bool}
    {offset code : Nat} (h : s.At src dst out) (hip : s.ip < src.length)
    (hroom : out.length + (code + 4) + 64 ≤ dst.length) :
    ∃ e, fastMatchCopy offset (code + 4) s = .ok e ∧ FastExit.Reads src dst
      (plainCopy checked dst.length offset code (src.drop s.ip) out) e := by
  obtain ⟨hop, hle, hlen, hpre⟩ := h
  rw [plainCopy_checked (fun _ _ => by omega), plainCopy, fastMatchCopy, hop]
  by_cases hoffset : out.length < offset
  · rw [if_pos hoffset, if_pos hoffset]
    exact ⟨_, rfl, .leave (lz4OutputError_reads hle hlen)⟩
  rw [if_neg hoffset, if_neg hoffset,
    if_neg (show ¬ (true = true ∧ dst.length < out.length + (code + 4) + 5) by omega)]
  have hstay : ∀ dst', FilledLike s.dst (copyBack offset (code + 4) out) dst' →
      FastExit.Reads src dst (.next (src.drop s.ip) (copyBack offset (code + 4) out))
        (.stay ⟨s.ip, out.length + (code + 4), dst'⟩) := by
    intro dst' hfilled
    have hat : Lz4Decoder.At src dst (copyBack offset (code + 4) out)
        ⟨s.ip, out.length + (code + 4), dst'⟩ := ⟨by simp, hle, hfilled.1.trans hlen, hfilled.2⟩
    exact .stay hat hip (by simpa using hroom)
  simp only [bind, Except.bind, pure, Except.pure]
  by_cases h₁₆ : offset < 16
  · obtain ⟨dst', hcopy, hfilled⟩ := lz4MemcpyUsingOffset_filled (n := code + 4) hpre
      (show offset ≤ out.length by omega) (by omega)
    rw [if_pos h₁₆]
    simp only [hcopy]
    exact ⟨_, rfl, hstay dst' hfilled⟩
  · obtain ⟨dst', hcopy, hfilled⟩ := lz4WildCopy32_filled (n := code + 4) hpre
      (show 16 ≤ offset by omega) (show offset ≤ out.length by omega) (by omega)
    rw [if_neg h₁₆]
    simp only [hcopy]
    exact ⟨_, rfl, hstay dst' hfilled⟩

/-- The match of a turn; a short one ends where it may, so it does not matter whether that is
checked. -/
theorem fastMatch_reads {src dst out : List UInt8} {s : Lz4Decoder} {token : UInt8} (short : Bool)
    (h : s.At src dst out) (hip : s.ip + 2 < src.length) (hroom : out.length + 32 ≤ dst.length) :
    ∃ e, fastMatch src src.length dst.length token s = .ok e ∧ FastExit.Reads src dst
      (plainMatched (lz4Checks short) dst.length (leNat ((src.drop s.ip).take 2))
        (token.toNat % 16) (src.drop (s.ip + 2)) out) e := by
  have hat : Lz4Decoder.At src dst out { s with ip := s.ip + 2 } :=
    ⟨h.op_eq, by simp; omega, h.filled⟩
  rw [fastMatch, lz4ReadLE16_ok (by omega), plainMatched]
  simp only [bind, Except.bind, pure, Except.pure, and_fifteen]
  obtain ⟨offset, hoffset⟩ : ∃ offset, offset = leNat ((src.drop s.ip).take 2) := ⟨_, rfl⟩
  rw [← hoffset]
  by_cases h₁₅ : token.toNat % 16 = 15
  · rw [if_pos h₁₅, h₁₅]
    have hchecked : (lz4Checks short).match_ 15 offset = true := by simp [lz4Checks]
    rw [hchecked]
    obtain ⟨ip', hread, hip', hplain⟩ | ⟨ip', n, hread, hip', hplain⟩ := readMatch_plain hip
    · simp only [hread, hplain]
      exact ⟨_, rfl, .leave (lz4OutputError_reads (s := { s with ip := ip' }) hip' h.filled.1)⟩
    · have hat' : Lz4Decoder.At src dst out { s with ip := ip' } :=
        ⟨h.op_eq, by simp; omega, h.filled⟩
      simp only [hread, hplain, h.op_eq]
      rw [show 15 + n + 4 = n + 15 + 4 by omega]
      by_cases hend : ((out.length + (n + 15 + 4) : Nat) : Int) ≥ dst.length - 64
      · obtain ⟨e, hcopy, hreads⟩ := safeMatchCopy_reads offset (n + 15) hat'
          (by omega) hip'
        rw [h.op_eq] at hcopy
        rw [if_pos hend, hcopy]
        exact ⟨_, rfl, .leave hreads⟩
      · rw [if_neg hend, ← h.op_eq]
        exact fastMatchCopy_reads hat' hip' (by omega)
  · rw [if_neg h₁₅, plainMatch, if_neg h₁₅, h.op_eq]
    simp only
    by_cases hend : ((out.length + (token.toNat % 16 + 4) : Nat) : Int) ≥ dst.length - 64
    · obtain ⟨e, hcopy, hreads⟩ := safeMatchCopy_reads offset (token.toNat % 16)
        hat (by omega) hip
      rw [h.op_eq] at hcopy
      rw [if_pos hend, hcopy, plainCopy_checked (fun _ _ => by omega)]
      exact ⟨_, rfl, .leave hreads⟩
    · rw [if_neg hend]
      by_cases hshort : offset ≤ out.length ∧ offset ≥ 8
      · obtain ⟨dst', hcopy, hnext⟩ := lz4CopyMatch18_at (token.toNat % 16) hat hshort.2
          hshort.1 (by omega) (by omega)
        simp only [h.op_eq] at hcopy hnext
        rw [if_pos hshort, plainCopy, if_neg (by omega), if_neg (by omega), hcopy]
        exact ⟨_, rfl, .stay hnext hip (by simp; omega)⟩
      · rw [if_neg hshort, ← h.op_eq]
        exact fastMatchCopy_reads hat hip (by omega)

/-- **A turn of the fast loop** is a plain step, with the checks of the safe loop. -/
theorem fastDecodeStep_reads {src dst out : List UInt8} {s : Lz4Decoder} (h : s.At src dst out)
    (hip : s.ip < src.length) (hroom : out.length + 64 ≤ dst.length) :
    ∃ e, fastDecodeStep src src.length dst.length s = .ok e ∧ FastExit.Reads src dst
      (plainStep (lz4Rule dst.length (src.drop s.ip) out) dst.length (src.drop s.ip) out) e := by
  obtain ⟨token, left, hdrop⟩ : ∃ token left, src.drop s.ip = token :: left := by
    rw [List.drop_eq_getElem_cons hip]
    exact ⟨_, _, rfl⟩
  obtain ⟨hbyte, hleft, -⟩ := readByte_of_drop hdrop
  have htoken : token.toNat < 256 := token.toNat_lt
  have hlen : left.length = src.length - (s.ip + 1) := by rw [← hleft, List.length_drop]
  have hat : Lz4Decoder.At src dst out { s with ip := s.ip + 1 } := ⟨h.op_eq, hip, h.filled⟩
  rw [hdrop, fastDecodeStep, hbyte, plainStep]
  simp only [bind, Except.bind, pure, Except.pure, shift_four]
  by_cases h₁₅ : token.toNat / 16 = 15
  · have hrule : lz4Rule dst.length (token :: left) out = lz4Checks false := by
      simp [lz4Rule, lz4Short, h₁₅]
    rw [if_pos h₁₅, h₁₅, ← hleft]
    rw [← hleft] at hrule
    obtain ⟨ip', hread, hip', hplain⟩ | ⟨ip', n, hread, hip', hplain⟩ := readLiterals_plain
      src (show s.ip + 1 ≤ src.length from hip)
    · simp only [hread, hplain]
      exact ⟨_, rfl, .leave (lz4OutputError_reads (s := { s with ip := ip' }) hip' h.filled.1)⟩
    · have hat' : Lz4Decoder.At src dst out { s with ip := ip' } := ⟨h.op_eq, hip', h.filled⟩
      simp only [hread, hplain, hrule]
      rw [show 15 + n = n + 15 by omega, h.op_eq]
      by_cases hend : ((out.length + (n + 15) : Nat) : Int) > dst.length - 32 ∨
          ((ip' + (n + 15) : Nat) : Int) > src.length - 32
      · obtain ⟨e, hcopy, hreads⟩ := safeLiteralCopy_reads token (n + 15) hat'
        rw [h.op_eq] at hcopy
        rw [if_pos hend, hcopy]
        exact ⟨_, rfl, .leave hreads⟩
      · obtain ⟨dst', hcopy, hlen', hpre'⟩ := lz4WildCopy32From_filled src ip'
          (n + 15) h.filled.2 (by omega) (by have := h.filled.1; omega)
        have hop' : (out ++ (src.drop ip').take (n + 15)).length = out.length + (n + 15) := by
          simp; omega
        rw [if_neg hend, plainBehind, if_neg (by simp [lz4Checks]; omega), List.drop_drop,
          List.drop_drop, ← Nat.add_assoc ip', hcopy]
        exact fastMatch_reads false ⟨hop'.symm, by simp; omega, hlen'.trans h.filled.1, hpre'⟩
          (by simp; omega) (by omega)
  · rw [if_neg h₁₅, plainLiterals, if_neg h₁₅]
    simp only
    by_cases hfew : ((s.ip + 1 : Nat) : Int) ≤ src.length - (16 + 1)
    · have hrule : lz4Rule dst.length (token :: left) out = lz4Checks true := by
        simp only [lz4Rule, lz4Short]
        rw [decide_eq_true (by omega)]
      obtain ⟨dst', hcopy, hnext⟩ := copyIn_sixteen (token.toNat / 16) hat (by omega)
        (by simp; omega) (by omega)
      have hop' : (out ++ (src.drop (s.ip + 1)).take (token.toNat / 16)).length =
          out.length + token.toNat / 16 := by simp; omega
      rw [if_pos hfew, hrule, plainBehind, if_neg (by simp [lz4Checks]; omega), ← hleft,
        List.drop_drop, List.drop_drop, hcopy]
      exact fastMatch_reads true hnext (by simp; omega) (by omega)
    · have hrule : lz4Rule dst.length (token :: left) out = lz4Checks false := by
        simp only [lz4Rule, lz4Short]
        rw [decide_eq_false (by omega)]
      obtain ⟨e, hcopy, hreads⟩ := safeLiteralCopy_reads token
        (token.toNat / 16) hat
      rw [if_neg hfew, hrule, ← hleft, hcopy]
      exact ⟨_, rfl, .leave hreads⟩

end MiniMem
