import MiniMem.Bytes
import MiniMem.Lz77

/-!
# MiniMem.WildCopy

Copies into a buffer whose front is filled already.  `out <+: dst` says that
`out` is what has been written so far; the rest of `dst` may hold anything,
and a copy that goes in strides may write more of it than it was asked to.

* `copyIn` — `memcpy`, from another buffer or from the buffer itself;
* `strideCopy` — `do { copy n bytes } while (d < e)`, with `strideCopy_ok` as
  its rule: an invariant indexed by the bytes copied;
* `byteCopy` — `while (d < e) *d++ = *s++` within a buffer.
-/

namespace MiniMem

/-! ## memcpy -/

/-- `memcpy(dst + d, src + s, n)`. -/
def copyIn (src dst : List UInt8) (d s n : Nat) : Except Stop (List UInt8) := do
  let bs ← readAt src s n
  writeAt dst d bs

/-- A buffer of the same size that is filled with `out` at its front. -/
def FilledLike (dst out dst' : List UInt8) : Prop := dst'.length = dst.length ∧ out <+: dst'

theorem FilledLike.refl {dst out : List UInt8} (h : out <+: dst) : FilledLike dst out dst := ⟨rfl, h⟩

theorem FilledLike.trans {dst dst' dst'' out out' : List UInt8} (h : FilledLike dst out dst')
    (h' : FilledLike dst' out' dst'') : FilledLike dst out' dst'' := ⟨h'.1.trans h.1, h'.2⟩

/-- What is filled with more is filled with less. -/
theorem FilledLike.mono {dst dst' out out' : List UInt8} (h : FilledLike dst out' dst')
    (hpre : out <+: out') : FilledLike dst out dst' := ⟨h.1, hpre.trans h.2⟩

/-- A write behind what is filled. -/
theorem writeAt_filled {dst out : List UInt8} (h : out <+: dst) (bs : List UInt8)
    (hroom : out.length + bs.length ≤ dst.length) :
    ∃ dst', writeAt dst out.length bs = .ok dst' ∧ FilledLike dst (out ++ bs) dst' := by
  obtain ⟨rest, rfl⟩ := h
  refine ⟨out ++ bs ++ rest.drop bs.length, ?_, ?_, List.prefix_append _ _⟩
  · rw [writeAt, if_pos hroom, take_append_of_length rfl]
    simp
  · simp only [List.length_append, List.length_drop] at hroom ⊢
    omega

/-- A write of a byte within what is filled. -/
theorem writeAt_inside {dst pre post : List UInt8} {t : UInt8} (h : pre ++ t :: post <+: dst)
    (t' : UInt8) :
    readByte dst pre.length = .ok t ∧ ∃ dst', writeAt dst pre.length [t'] = .ok dst' ∧
      FilledLike dst (pre ++ t' :: post) dst' := by
  obtain ⟨rest, rfl⟩ := h
  refine ⟨by rw [List.append_assoc]; exact readByte_append pre t (post ++ rest),
    pre ++ t' :: post ++ rest, ?_, by simp, List.prefix_append _ _⟩
  rw [List.append_assoc, writeAt, if_pos (by simp), take_append_of_length rfl, ← List.drop_drop,
    drop_append_of_length rfl]
  simp

/-- A copy from another buffer behind what is filled. -/
theorem copyIn_filled (src : List UInt8) (s n : Nat) {dst out : List UInt8} (h : out <+: dst)
    (hsrc : s + n ≤ src.length) (hroom : out.length + n ≤ dst.length) :
    ∃ dst', copyIn src dst out.length s n = .ok dst' ∧
      FilledLike dst (out ++ (src.drop s).take n) dst' := by
  have hlen : ((src.drop s).take n).length = n := by simp; omega
  obtain ⟨dst', hwrite, hfilled⟩ := writeAt_filled h ((src.drop s).take n) (by omega)
  refine ⟨dst', ?_, hfilled⟩
  rw [copyIn, readAt_ok hsrc]
  exact hwrite

/-- A copy of filled bytes that it does not overwrite. -/
theorem copyIn_self {dst out : List UInt8} {d n : Nat} (h : out <+: dst) (hn : n ≤ d)
    (hd : d ≤ out.length) (hroom : out.length + n ≤ dst.length) :
    ∃ dst', copyIn dst dst out.length (out.length - d) n = .ok dst' ∧
      FilledLike dst (copyBack d n out) dst' := by
  obtain ⟨rest, rfl⟩ := h
  obtain ⟨dst', hcopy, hfilled⟩ := copyIn_filled (out ++ rest) (out.length - d) n
    (List.prefix_append out rest) (by simp; omega) hroom
  refine ⟨dst', hcopy, ?_⟩
  have hsame : ((out ++ rest).drop (out.length - d)).take n =
      (out.drop (out.length - d)).take n := by
    rw [List.drop_append_of_le_length (by omega), List.take_append_of_le_length (by simp; omega)]
  rwa [copyBack_of_le hn hd, ← hsame]

/-! ## Strides -/

/-- `do { step(d, s); d += n; s += n; } while (d < e)`. -/
def strideCopy (step : List UInt8 → Nat → Nat → Except Stop (List UInt8)) (n : Nat) :
    Nat → List UInt8 → Nat → Nat → Nat → Except Stop (List UInt8)
  | 0, _, _, _, _ => .error .oob
  | fuel + 1, dst, d, s, e => do
      let dst ← step dst d s
      if d + n < e then strideCopy step n fuel dst (d + n) (s + n) e else pure dst

/-- The rule for a copy in strides: what holds for as many bytes as are copied. -/
theorem strideCopy_ok (step : List UInt8 → Nat → Nat → Except Stop (List UInt8)) {n e : Nat}
    {P : Nat → List UInt8 → Prop} (hn : 0 < n) (d s : Nat)
    (hstep : ∀ k dst, P k dst → (k = 0 ∨ d + k < e) →
      ∃ dst', step dst (d + k) (s + k) = .ok dst' ∧ P (k + n) dst')
    {fuel k : Nat} {dst : List UInt8} (hfuel : e - (d + k) < fuel) (hgo : k = 0 ∨ d + k < e)
    (h : P k dst) :
    ∃ dst' m, strideCopy step n fuel dst (d + k) (s + k) e = .ok dst' ∧ P m dst' ∧ e ≤ d + m ∧
      k + n ≤ m := by
  induction fuel generalizing k dst with
  | zero => omega
  | succ fuel ih =>
      obtain ⟨dst', hok, hP⟩ := hstep k dst h hgo
      rw [strideCopy, hok]
      by_cases hmore : d + k + n < e
      · obtain ⟨dst'', m, hrest, hP', hend, hle⟩ := ih (by omega) (.inr (by omega)) hP
        refine ⟨dst'', m, ?_, hP', hend, by omega⟩
        simp only [bind, Except.bind, if_pos hmore]
        simpa [Nat.add_assoc] using hrest
      · exact ⟨dst', k + n, by simp [bind, Except.bind, pure, Except.pure, hmore], hP, by omega,
          le_rfl⟩

/-- A copy in strides from another buffer. -/
theorem strideCopy_in (src : List UInt8) {dst out : List UInt8}
    (step : List UInt8 → Nat → Nat → Except Stop (List UInt8)) {n s e : Nat} (hn : 0 < n)
    (hstep : ∀ dst out s, out <+: dst → s + n ≤ src.length → out.length + n ≤ dst.length →
      ∃ dst', step dst out.length s = .ok dst' ∧
        FilledLike dst (out ++ (src.drop s).take n) dst')
    (h : out <+: dst) (hsrc : s + (e - out.length) + n ≤ src.length + 1)
    (hsrc₀ : s + n ≤ src.length) (hroom : e + n ≤ dst.length + 1)
    (hroom₀ : out.length + n ≤ dst.length) (fuel : Nat) (hfuel : e - out.length < fuel) :
    ∃ dst', strideCopy step n fuel dst out.length s e = .ok dst' ∧
      FilledLike dst (out ++ (src.drop s).take (e - out.length)) dst' := by
  obtain ⟨dst', m, hcopy, ⟨hfilled, -⟩, hend, hle⟩ := strideCopy_ok step (e := e)
    (P := fun k dst' => FilledLike dst (out ++ (src.drop s).take k) dst' ∧ s + k ≤ src.length)
    hn out.length s
    (by
      intro k dst' ⟨hfilled, hk⟩ hgo
      have hlen : (out ++ (src.drop s).take k).length = out.length + k := by simp; omega
      have hroom' : out.length + k + n ≤ dst'.length := by have := hfilled.1; omega
      obtain ⟨dst'', hok, hnext⟩ := hstep dst' (out ++ (src.drop s).take k) (s + k) hfilled.2
        (by omega) (by omega)
      rw [hlen] at hok
      refine ⟨dst'', hok, ?_, by omega⟩
      have hsum : (src.drop s).take (k + n) = (src.drop s).take k ++ (src.drop (s + k)).take n := by
        rw [List.take_add, List.drop_drop]
      rw [hsum, ← List.append_assoc]
      exact hfilled.trans hnext)
    (k := 0) (by omega) (.inl rfl) ⟨by simpa using FilledLike.refl h, by omega⟩
  refine ⟨dst', hcopy, hfilled.mono ?_⟩
  rw [List.prefix_append_right_inj]
  exact List.take_prefix_take_left (by omega)

/-- A copy in strides of filled bytes, from at least a stride before. -/
theorem strideCopy_self {dst out : List UInt8}
    (step : List UInt8 → Nat → Nat → Except Stop (List UInt8)) {n d e : Nat} (hn : 0 < n)
    (hstep : ∀ dst out, out <+: dst → d ≤ out.length → out.length + n ≤ dst.length →
      ∃ dst', step dst out.length (out.length - d) = .ok dst' ∧
        FilledLike dst (copyBack d n out) dst')
    (h : out <+: dst) (hd : d ≤ out.length) (hroom : e + n ≤ dst.length + 1)
    (hroom₀ : out.length + n ≤ dst.length) (fuel : Nat) (hfuel : e - out.length < fuel) :
    ∃ dst', strideCopy step n fuel dst out.length (out.length - d) e = .ok dst' ∧
      FilledLike dst (copyBack d (e - out.length) out) dst' := by
  obtain ⟨dst', m, hcopy, hfilled, hend, hle⟩ := strideCopy_ok step (e := e)
    (P := fun k dst' => FilledLike dst (copyBack d k out) dst') hn out.length (out.length - d)
    (by
      intro k dst' hfilled hgo
      have hlen : (copyBack d k out).length = out.length + k := length_copyBack _ _ _
      have hroom' : out.length + k + n ≤ dst'.length := by have := hfilled.1; omega
      obtain ⟨dst'', hok, hnext⟩ := hstep dst' (copyBack d k out) hfilled.2 (by omega) (by omega)
      rw [hlen, show out.length + k - d = out.length - d + k by omega] at hok
      refine ⟨dst'', hok, ?_⟩
      rw [copyBack_add]
      exact hfilled.trans hnext)
    (k := 0) (by omega) (.inl rfl) (by simpa using FilledLike.refl h)
  exact ⟨dst', hcopy, hfilled.mono (prefix_copyBack_of_le _ _ (by omega))⟩

/-! ## Byte by byte -/

/-- `while (d < e) *d++ = *s++`. -/
def byteCopy : Nat → List UInt8 → Nat → Nat → Except Stop (List UInt8)
  | 0, dst, _, _ => pure dst
  | n + 1, dst, d, s => do
      let b ← readByte dst s
      let dst ← writeAt dst d [b]
      byteCopy n dst (d + 1) (s + 1)

/-- A copy byte by byte may overlap what it writes. -/
theorem byteCopy_self {n d : Nat} {dst out : List UInt8} (h : out <+: dst) (hd₀ : 0 < d)
    (hd : d ≤ out.length) (hroom : out.length + n ≤ dst.length) :
    ∃ dst', byteCopy n dst out.length (out.length - d) = .ok dst' ∧
      FilledLike dst (copyBack d n out) dst' := by
  induction n generalizing dst out with
  | zero => exact ⟨dst, rfl, FilledLike.refl h⟩
  | succ n ih =>
      have hback : out.length - d < out.length := by omega
      have hbyte : readByte dst (out.length - d) = .ok (out.getD (out.length - d) default) := by
        obtain ⟨rest, rfl⟩ := h
        rw [readByte_ok (by simp; omega)]
        simp [List.getD_eq_getElem?_getD, List.getElem?_append_left hback]
        rfl
      obtain ⟨dst₁, hwrite, hfilled⟩ := writeAt_filled h
        [out.getD (out.length - d) default] (by simp; omega)
      have hlen : (out ++ [out.getD (out.length - d) default]).length = out.length + 1 := by simp
      obtain ⟨dst₂, hrest, hfilled'⟩ := ih hfilled.2 (by omega)
        (by have := hfilled.1; simp; omega)
      rw [hlen, show out.length + 1 - d = out.length - d + 1 by omega] at hrest
      refine ⟨dst₂, ?_, hfilled.trans hfilled'⟩
      rw [byteCopy, hbyte]
      simp only [bind, Except.bind, hwrite]
      exact hrest

end MiniMem
