import Mathlib.Data.Nat.Digits.Lemmas
import MiniMem.Bytes

/-!
# MiniMem.BitFields

Fields of a few bits packed into a byte area, least significant bit first.
An area is read as the little-endian number of its bytes, so that the loops
that OR bits into it and the loops that read bits out of it become
arithmetic on one number:

```
leNat (pack fs)  =  f₀ + 2^w · f₁ + 2^(2w) · f₂ + …
```

`OrsInto` is what every packing loop does to the area it works on; it
composes over the steps of a loop, and `OrsInto.area` turns it into the
bytes that are there in the end.
-/

namespace MiniMem

/-! ## Areas as numbers -/

theorem testBit_leNat_cons (b : UInt8) (bs : List UInt8) (k : Nat) :
    (leNat (b :: bs)).testBit k =
      if k < 8 then b.toNat.testBit k else (leNat bs).testBit (k - 8) := by
  have hb : b.toNat < 2 ^ 8 := b.toNat_lt
  rw [leNat, Nat.add_comm, show 256 = 2 ^ 8 by decide]
  exact Nat.testBit_two_pow_mul_add _ hb k

/-- Bit `k` of an area is bit `k % 8` of its byte `k / 8`. -/
theorem testBit_leNat (bs : List UInt8) (k : Nat) :
    (leNat bs).testBit k = (bs.getD (k / 8) 0).toNat.testBit (k % 8) := by
  induction bs generalizing k with
  | nil => simp [leNat]
  | cons b bs ih =>
      rw [testBit_leNat_cons]
      by_cases hk : k < 8
      · rw [if_pos hk, Nat.div_eq_of_lt hk, Nat.mod_eq_of_lt hk]
        rfl
      · rw [if_neg hk, ih, show k / 8 = (k - 8) / 8 + 1 by omega,
          show (k - 8) % 8 = k % 8 by omega]
        rfl

theorem leNat_append (xs ys : List UInt8) :
    leNat (xs ++ ys) = leNat xs + 256 ^ xs.length * leNat ys := by
  induction xs with
  | nil => simp [leNat]
  | cons x xs ih =>
      rw [List.cons_append, leNat, leNat, ih, List.length_cons, Nat.pow_succ]
      ring

/-- An area is determined by its length and its number. -/
theorem eq_of_leNat_eq {xs ys : List UInt8} (hlen : xs.length = ys.length)
    (h : leNat xs = leNat ys) : xs = ys := by
  rw [← leBytes_leNat xs rfl, ← leBytes_leNat ys rfl, hlen, h]

theorem leNat_replicate_zero (n : Nat) : leNat (List.replicate n 0) = 0 := by
  induction n with
  | zero => rfl
  | succ n ih => rw [List.replicate_succ, leNat, ih]; rfl

/-- OR-ing a byte of an area ORs the number of the area. -/
theorem leNat_modify_or (bs : List UInt8) {q : Nat} (hq : q < bs.length) (v : UInt8) :
    leNat (bs.modify q (· ||| v)) = leNat bs ||| v.toNat <<< (8 * q) := by
  apply Nat.eq_of_testBit_eq
  intro k
  rw [Nat.testBit_or, testBit_leNat, testBit_leNat, Nat.testBit_shiftLeft,
    List.getD_eq_getElem?_getD, List.getElem?_modify, List.getD_eq_getElem?_getD]
  have hv : v.toNat < 2 ^ 8 := v.toNat_lt
  by_cases hk : q = k / 8
  · have hge : 8 * q ≤ k := by omega
    simp [← hk, List.getElem?_eq_getElem hq, hge, show k - 8 * q = k % 8 by omega]
  · simp only [hk, if_false, Option.map_eq_map, Option.map_id']
    by_cases hge : 8 * q ≤ k
    · have hhigh : v.toNat.testBit (k - 8 * q) = false :=
        Nat.testBit_lt_two_pow (Nat.lt_of_lt_of_le hv (Nat.pow_le_pow_right (by omega) (by omega)))
      simp [hhigh]
    · simp [hge]

/-! ## Packing -/

/-- A run that ORs the number `n` into the area `buf`. -/
def OrsInto (buf : List UInt8) (n : Nat) (run : Except Stop (List UInt8)) : Prop :=
  ∃ buf', run = .ok buf' ∧ buf'.length = buf.length ∧ leNat buf' = leNat buf ||| n

theorem orsInto_ok (buf : List UInt8) : OrsInto buf 0 (.ok buf) :=
  ⟨buf, rfl, rfl, (Nat.or_zero _).symm⟩

theorem orsInto_orByte {buf : List UInt8} {q : Nat} (hq : q < buf.length) (v : UInt8) :
    OrsInto buf (v.toNat <<< (8 * q)) (orByte buf q v) :=
  ⟨buf.modify q (· ||| v), by rw [orByte, if_pos hq], by simp, leNat_modify_or buf hq v⟩

/-- What two runs in sequence OR in. -/
theorem OrsInto.bind {buf : List UInt8} {n m : Nat} {run : Except Stop (List UInt8)}
    {next : List UInt8 → Except Stop (List UInt8)} (h : OrsInto buf n run)
    (hnext : ∀ buf', buf'.length = buf.length → OrsInto buf' m (next buf')) :
    OrsInto buf (n ||| m) (run >>= next) := by
  obtain ⟨buf', hrun, hlen, hnat⟩ := h
  obtain ⟨buf'', hrun', hlen', hnat'⟩ := hnext buf' hlen
  refine ⟨buf'', ?_, hlen'.trans hlen, ?_⟩
  · rw [hrun]
    exact hrun'
  · rw [hnat', hnat, Nat.or_assoc]

/-- OR-ing a number into a zeroed area between two others stores its bytes there. -/
theorem OrsInto.area {pre post : List UInt8} {k n : Nat} {run : Except Stop (List UInt8)}
    (hn : n < 256 ^ k)
    (h : OrsInto (pre ++ (List.replicate k 0 ++ post)) (n <<< (8 * pre.length)) run) :
    run = .ok (pre ++ (leBytes k n ++ post)) := by
  obtain ⟨buf, hrun, hlen, hnat⟩ := h
  rw [hrun, Except.ok.injEq]
  apply eq_of_leNat_eq
  · rw [hlen]
    simp
  · rw [hnat, leNat_append, leNat_append, leNat_append, leNat_append, leNat_replicate_zero,
      leNat_leBytes, Nat.mod_eq_of_lt hn, List.length_replicate, length_leBytes, Nat.zero_add]
    have hpre : leNat pre < 2 ^ (8 * pre.length) := by
      rw [Nat.pow_mul]
      exact leNat_lt pre
    have hn' : n < 2 ^ (8 * k) := by
      rw [Nat.pow_mul]
      exact hn
    rw [show (256 : Nat) = 2 ^ 8 by decide, ← Nat.pow_mul, ← Nat.pow_mul]
    apply Nat.eq_of_testBit_eq
    intro j
    rw [Nat.testBit_or, Nat.testBit_shiftLeft, Nat.add_comm, Nat.testBit_two_pow_mul_add _ hpre,
      Nat.add_comm (leNat pre), Nat.testBit_two_pow_mul_add _ hpre]
    by_cases hj : j < 8 * pre.length
    · simp [hj]
    · have hge : 8 * pre.length ≤ j := Nat.le_of_not_lt hj
      rw [if_neg hj, if_neg hj, Nat.testBit_two_pow_mul, Nat.add_comm n,
        Nat.testBit_two_pow_mul_add _ hn']
      by_cases hk : j - 8 * pre.length < 8 * k
      · simp [hk, hge, Nat.not_le.2 hk]
      · have hhigh : n.testBit (j - 8 * pre.length) = false :=
          Nat.testBit_lt_two_pow (Nat.lt_of_lt_of_le hn'
            (Nat.pow_le_pow_right (by omega) (by omega)))
        simp [hk, hhigh, Nat.le_of_not_lt hk]

/-- `buf[bit / 8] |= 1u << (bit % 8)`. -/
def orBitAt (buf : List UInt8) (bit : Nat) : Except Stop (List UInt8) :=
  orByte buf (bit / 8) (UInt8.ofNat (1 <<< (bit % 8)))

theorem orsInto_orBitAt {buf : List UInt8} {bit : Nat} (h : bit < 8 * buf.length) :
    OrsInto buf (1 <<< bit) (orBitAt buf bit) := by
  have hval : (UInt8.ofNat (1 <<< (bit % 8))).toNat <<< (8 * (bit / 8)) = 1 <<< bit := by
    have hlt : 1 <<< (bit % 8) < 2 ^ 8 := by
      rw [Nat.one_shiftLeft]
      exact Nat.pow_lt_pow_right (by decide) (Nat.mod_lt _ (by decide))
    rw [UInt8.toNat_ofNat', Nat.mod_eq_of_lt hlt, ← Nat.shiftLeft_add, Nat.add_comm,
      Nat.div_add_mod]
  rw [← hval]
  exact orsInto_orByte (by omega) _

/-- ORs `v` in at bit `pos` of the area behind `base`, over the two bytes that a
field of `w` bits may lie in. -/
def orField (w : Nat) (buf : List UInt8) (base pos v : Nat) : Except Stop (List UInt8) := do
  let buf ← orByte buf (base + pos / 8) (UInt8.ofNat (v <<< (pos % 8)))
  if pos % 8 + w > 8 then
    orByte buf (base + (pos / 8 + 1)) (UInt8.ofNat (v >>> (8 - pos % 8)))
  else .ok buf

theorem orsInto_orField {w : Nat} {buf : List UInt8} {base pos v : Nat} (hw : w ≤ 8)
    (hw0 : 0 < w) (hv : v < 2 ^ w) (h : 8 * base + pos + w ≤ 8 * buf.length) :
    OrsInto buf (v <<< (8 * base + pos)) (orField w buf base pos v) := by
  have hlow : OrsInto buf _ (orByte buf (base + pos / 8) (UInt8.ofNat (v <<< (pos % 8)))) :=
    orsInto_orByte (by omega) _
  have hr : pos % 8 < 8 := Nat.mod_lt _ (by decide)
  have hsplit : 8 * base + pos = 8 * (base + pos / 8) + pos % 8 := by omega
  unfold orField
  by_cases hcross : pos % 8 + w > 8
  · have hhigh : ∀ buf' : List UInt8, buf'.length = buf.length →
        OrsInto buf' ((v >>> (8 - pos % 8)) <<< (8 * (base + (pos / 8 + 1))))
          (if pos % 8 + w > 8 then
            orByte buf' (base + (pos / 8 + 1)) (UInt8.ofNat (v >>> (8 - pos % 8)))
          else .ok buf') := by
      intro buf' hlen
      have hlt : v >>> (8 - pos % 8) < 2 ^ 8 := by
        rw [Nat.shiftRight_eq_div_pow]
        exact Nat.lt_of_le_of_lt (Nat.div_le_self _ _)
          (Nat.lt_of_lt_of_le hv (Nat.pow_le_pow_right (by decide) hw))
      rw [if_pos hcross]
      have h' := @orsInto_orByte buf' (base + (pos / 8 + 1)) (by omega)
        (UInt8.ofNat (v >>> (8 - pos % 8)))
      rwa [UInt8.toNat_ofNat', Nat.mod_eq_of_lt hlt] at h'
    have hnum : v <<< (8 * base + pos) =
        (UInt8.ofNat (v <<< (pos % 8))).toNat <<< (8 * (base + pos / 8)) |||
          (v >>> (8 - pos % 8)) <<< (8 * (base + (pos / 8 + 1))) := by
      apply Nat.eq_of_testBit_eq
      intro j
      rw [hsplit, UInt8.toNat_ofNat']
      simp only [Nat.testBit_or, Nat.testBit_shiftLeft, Nat.testBit_mod_two_pow,
        Nat.testBit_shiftRight]
      by_cases hj : 8 * (base + pos / 8) ≤ j
      · by_cases hb : j < 8 * (base + (pos / 8 + 1))
        · have h8 : j - 8 * (base + pos / 8) < 8 := by omega
          have hle : 8 * (base + pos / 8) + pos % 8 ≤ j ↔ pos % 8 ≤ j - 8 * (base + pos / 8) := by
            omega
          simp [hj, Nat.not_le.2 hb, h8, hle, Nat.sub_sub]
        · have h8 : ¬ j - 8 * (base + pos / 8) < 8 := by omega
          have hidx : 8 - pos % 8 + (j - 8 * (base + (pos / 8 + 1))) =
              j - (8 * (base + pos / 8) + pos % 8) := by omega
          simp [h8, hidx, Nat.le_of_not_lt hb]
          omega
      · simp [hj, show ¬ 8 * (base + (pos / 8 + 1)) ≤ j by omega,
          show ¬ 8 * (base + pos / 8) + pos % 8 ≤ j by omega]
    rw [hnum]
    exact hlow.bind hhigh
  · have hlt : v <<< (pos % 8) < 2 ^ 8 := by
      rw [Nat.shiftLeft_eq]
      calc v * 2 ^ (pos % 8) < 2 ^ w * 2 ^ (pos % 8) :=
            Nat.mul_lt_mul_of_pos_right hv (Nat.two_pow_pos _)
        _ = 2 ^ (w + pos % 8) := (Nat.pow_add ..).symm
        _ ≤ 2 ^ 8 := Nat.pow_le_pow_right (by decide) (by omega)
    have hnum : (UInt8.ofNat (v <<< (pos % 8))).toNat <<< (8 * (base + pos / 8)) ||| 0 =
        v <<< (8 * base + pos) := by
      rw [UInt8.toNat_ofNat', Nat.mod_eq_of_lt hlt, Nat.or_zero, ← Nat.shiftLeft_add, hsplit,
        Nat.add_comm (pos % 8)]
    rw [← hnum]
    refine hlow.bind fun buf' _ => ?_
    rw [if_neg hcross]
    exact orsInto_ok buf'

/-- The low `w + 1` bits of a number are its low `w` bits and bit `w`. -/
theorem mod_two_pow_succ_eq_or (v w : Nat) :
    v % 2 ^ (w + 1) = v % 2 ^ w ||| if v.testBit w then 1 <<< w else 0 := by
  apply Nat.eq_of_testBit_eq
  intro j
  rw [Nat.testBit_or, Nat.testBit_mod_two_pow, Nat.testBit_mod_two_pow]
  rcases Nat.lt_trichotomy j w with hj | rfl | hj
  · cases v.testBit w <;> simp [hj, Nat.lt_succ_of_lt hj, Nat.one_shiftLeft, Nat.ne_of_gt hj]
  · cases h : v.testBit j <;> simp [Nat.one_shiftLeft]
  · cases v.testBit w <;>
      simp [Nat.not_lt.2 (Nat.le_of_lt hj), Nat.not_lt.2 hj, Nat.one_shiftLeft, Nat.ne_of_lt hj]

/-- ORs the low `w` bits of `v` in at bit `pos`, bit by bit. -/
def orBits (buf : List UInt8) (pos v : Nat) : Nat → Except Stop (List UInt8)
  | 0 => .ok buf
  | w + 1 => do
      let buf ← orBits buf pos v w
      if v.testBit w then orBitAt buf (pos + w) else .ok buf

theorem orsInto_orBits {buf : List UInt8} {pos w : Nat} (v : Nat)
    (h : pos + w ≤ 8 * buf.length) :
    OrsInto buf ((v % 2 ^ w) <<< pos) (orBits buf pos v w) := by
  induction w with
  | zero => simpa [Nat.mod_one, orBits] using orsInto_ok buf
  | succ w ih =>
      have hnum : (v % 2 ^ (w + 1)) <<< pos =
          (v % 2 ^ w) <<< pos ||| if v.testBit w then 1 <<< (pos + w) else 0 := by
        rw [mod_two_pow_succ_eq_or, Nat.shiftLeft_or_distrib]
        cases v.testBit w with
        | false => simp
        | true => simp [← Nat.shiftLeft_add, Nat.add_comm]
      rw [hnum, orBits]
      refine (ih (by omega)).bind fun buf' hlen => ?_
      split
      · exact orsInto_orBitAt (by omega)
      · exact orsInto_ok buf'

/-- The number whose digits of `w` bits are the given fields. -/
def fieldsNat (w : Nat) (fs : List Nat) : Nat := Nat.ofDigits (2 ^ w) fs

theorem fieldsNat_cons {w f : Nat} (hf : f < 2 ^ w) (fs : List Nat) :
    fieldsNat w (f :: fs) = f ||| fieldsNat w fs <<< w := by
  rw [fieldsNat, Nat.ofDigits_cons, Nat.add_comm]
  rw [Nat.two_pow_add_eq_or_of_lt hf, Nat.or_comm, Nat.shiftLeft_eq, Nat.mul_comm]
  rfl

theorem fieldsNat_lt {w : Nat} {fs : List Nat} (hw : 0 < w) (h : ∀ f ∈ fs, f < 2 ^ w) :
    fieldsNat w fs < 2 ^ (w * fs.length) := by
  rw [Nat.pow_mul]
  exact Nat.ofDigits_lt_base_pow_length (Nat.one_lt_two_pow hw.ne') h

/-- Field `i` is read back from the number by a shift and a mask. -/
theorem fieldsNat_shiftRight {w : Nat} {fs : List Nat} (h : ∀ f ∈ fs, f < 2 ^ w)
    {i : Nat} (hi : i < fs.length) : (fieldsNat w fs >>> (w * i)) % 2 ^ w = fs[i] := by
  rw [Nat.shiftRight_eq_div_pow, Nat.pow_mul, fieldsNat,
    Nat.ofDigits_div_pow_eq_ofDigits_drop i (Nat.two_pow_pos w) fs h,
    List.drop_eq_getElem_cons hi, Nat.ofDigits_cons, Nat.add_mul_mod_self_left,
    Nat.mod_eq_of_lt (h _ (List.getElem_mem hi))]

/-- Fields stored one behind the other from bit `pos` on, each by `put`. -/
def packLoop (put : List UInt8 → Nat → Nat → Except Stop (List UInt8)) (w : Nat) :
    Nat → List Nat → List UInt8 → Except Stop (List UInt8)
  | _, [], buf => .ok buf
  | pos, f :: fs, buf => do
      let buf ← put buf pos f
      packLoop put w (pos + w) fs buf

/-- **Packing loop**: when `put` ORs in one field, the loop ORs in all of them. -/
theorem orsInto_packLoop {put : List UInt8 → Nat → Nat → Except Stop (List UInt8)}
    {w base limit : Nat}
    (hput : ∀ buf pos f, f < 2 ^ w → 8 * base + pos + w ≤ 8 * limit → buf.length = limit →
      OrsInto buf (f <<< (8 * base + pos)) (put buf pos f))
    {fs : List Nat} (hfs : ∀ f ∈ fs, f < 2 ^ w) {pos : Nat} {buf : List UInt8}
    (hlen : buf.length = limit) (hroom : 8 * base + pos + w * fs.length ≤ 8 * limit) :
    OrsInto buf (fieldsNat w fs <<< (8 * base + pos)) (packLoop put w pos fs buf) := by
  induction fs generalizing pos buf with
  | nil => simpa [fieldsNat, packLoop] using orsInto_ok buf
  | cons f fs ih =>
      have hf : f < 2 ^ w := hfs f List.mem_cons_self
      rw [List.length_cons, Nat.mul_succ] at hroom
      have hnum : fieldsNat w (f :: fs) <<< (8 * base + pos) =
          f <<< (8 * base + pos) ||| fieldsNat w fs <<< (8 * base + (pos + w)) := by
        rw [fieldsNat_cons hf, Nat.shiftLeft_or_distrib, ← Nat.shiftLeft_add, Nat.add_comm w,
          Nat.add_assoc]
      rw [hnum, packLoop]
      refine (hput buf pos f hf (by omega) hlen).bind fun buf' hlen' => ?_
      exact ih (fun g hg => hfs g (List.mem_cons_of_mem f hg)) (hlen'.trans hlen) (by omega)

theorem take_leBytes {m n : Nat} (h : m ≤ n) (v : Nat) : (leBytes n v).take m = leBytes m v := by
  induction m generalizing n v with
  | zero => rfl
  | succ m ih =>
      obtain ⟨n, rfl⟩ := Nat.exists_eq_add_of_le' (Nat.lt_of_lt_of_le (Nat.succ_pos m) h)
      rw [leBytes, leBytes, List.take_succ_cons, ih (by omega)]

/-- The bytes that hold the given fields. -/
def fieldBytes (w : Nat) (fs : List Nat) : List UInt8 :=
  leBytes ((w * fs.length + 7) / 8) (fieldsNat w fs)

@[simp] theorem length_fieldBytes (w : Nat) (fs : List Nat) :
    (fieldBytes w fs).length = (w * fs.length + 7) / 8 :=
  length_leBytes _ _

theorem leNat_fieldBytes {w : Nat} {fs : List Nat} (hw : 0 < w) (h : ∀ f ∈ fs, f < 2 ^ w) :
    leNat (fieldBytes w fs) = fieldsNat w fs := by
  have hlt : fieldsNat w fs < 256 ^ ((w * fs.length + 7) / 8) := by
    rw [show (256 : Nat) = 2 ^ 8 by decide, ← Nat.pow_mul]
    exact Nat.lt_of_lt_of_le (fieldsNat_lt hw h) (Nat.pow_le_pow_right (by decide) (by omega))
  rw [fieldBytes, leNat_leBytes, Nat.mod_eq_of_lt hlt]

/-- Fields packed bit by bit into an area of `k` zeroed bytes. -/
def packBits (w : Nat) (fs : List Nat) (k : Nat) : Except Stop (List UInt8) :=
  packLoop (fun buf pos f => orBits buf pos f w) w 0 fs (List.replicate k 0)

theorem packBits_eq {w k : Nat} {fs : List Nat} (hw : 0 < w) (hfs : ∀ f ∈ fs, f < 2 ^ w)
    (hroom : w * fs.length ≤ 8 * k) : packBits w fs k = .ok (leBytes k (fieldsNat w fs)) := by
  have hput : ∀ (buf : List UInt8) (pos f : Nat), f < 2 ^ w → 8 * 0 + pos + w ≤ 8 * k →
      buf.length = k → OrsInto buf (f <<< (8 * 0 + pos)) (orBits buf pos f w) := by
    intro buf pos f hf hfit hlen
    have h := @orsInto_orBits buf pos w f (by omega)
    rw [Nat.mod_eq_of_lt hf] at h
    simpa using h
  have hlt : fieldsNat w fs < 256 ^ k := by
    rw [show (256 : Nat) = 2 ^ 8 by decide, ← Nat.pow_mul]
    exact Nat.lt_of_lt_of_le (fieldsNat_lt hw hfs) (Nat.pow_le_pow_right (by decide) hroom)
  have hloop := @orsInto_packLoop _ _ _ _ hput _ hfs 0 (List.replicate k 0)
    List.length_replicate (by omega)
  have harea := @OrsInto.area [] [] _ _ _ hlt (by simpa using hloop)
  simpa [packBits] using harea

/-! ## Unpacking -/

/-- `buf[bit / 8] & (1u << (bit % 8))`. -/
def bitAt (buf : List UInt8) (bit : Nat) : Except Stop Bool := do
  let b ← readByte buf (bit / 8)
  .ok (b.toNat.testBit (bit % 8))

theorem bitAt_eq {buf : List UInt8} {bit : Nat} (h : bit < 8 * buf.length) :
    bitAt buf bit = .ok ((leNat buf).testBit bit) := by
  have hq : bit / 8 < buf.length := by omega
  rw [bitAt, readByte, List.getElem?_eq_getElem hq, testBit_leNat, List.getD_eq_getElem?_getD,
    List.getElem?_eq_getElem hq]
  rfl

/-- Reads `w` bits from bit `pos` on, bit by bit. -/
def readBits (buf : List UInt8) (pos : Nat) : Nat → Except Stop Nat
  | 0 => .ok 0
  | w + 1 => do
      let d ← readBits buf pos w
      let set ← bitAt buf (pos + w)
      .ok (if set then d ||| 1 <<< w else d)

theorem readBits_eq {buf : List UInt8} {pos w : Nat} (h : pos + w ≤ 8 * buf.length) :
    readBits buf pos w = .ok ((leNat buf >>> pos) % 2 ^ w) := by
  induction w with
  | zero => simp [readBits, Nat.mod_one]
  | succ w ih =>
      rw [readBits, ih (by omega), bitAt_eq (by omega), mod_two_pow_succ_eq_or,
        Nat.testBit_shiftRight]
      cases (leNat buf).testBit (pos + w) with
      | false => simp [bind, Except.bind]
      | true => rfl

/-- Reads a field of `w` bits at bit `pos` of the area behind `base`, from the two
bytes that it may lie in. -/
def readField (w : Nat) (buf : List UInt8) (base pos : Nat) : Except Stop Nat := do
  let lo ← readByte buf (base + pos / 8)
  if pos % 8 + w ≤ 8 then .ok (lo.toNat >>> (pos % 8) &&& (2 ^ w - 1))
  else do
    let hi ← readByte buf (base + (pos / 8 + 1))
    .ok ((lo.toNat >>> (pos % 8) ||| hi.toNat <<< (8 - pos % 8)) &&& (2 ^ w - 1))

theorem readField_eq {w : Nat} {buf : List UInt8} {base pos : Nat} (hw : w ≤ 8) (hw0 : 0 < w)
    (h : 8 * base + pos + w ≤ 8 * buf.length) :
    readField w buf base pos = .ok ((leNat buf >>> (8 * base + pos)) % 2 ^ w) := by
  have hread : ∀ q < buf.length, readByte buf q = .ok (buf.getD q 0) := by
    intro q hq
    rw [readByte, List.getD_eq_getElem?_getD, List.getElem?_eq_getElem hq]
    rfl
  have hbit : ∀ j, (leNat buf).testBit (8 * base + pos + j) =
      if pos % 8 + j < 8 then (buf.getD (base + pos / 8) 0).toNat.testBit (pos % 8 + j)
      else (buf.getD ((8 * base + pos + j) / 8) 0).toNat.testBit ((pos + j) % 8) := by
    intro j
    rw [testBit_leNat]
    by_cases hj : pos % 8 + j < 8
    · rw [if_pos hj, show (8 * base + pos + j) / 8 = base + pos / 8 by omega,
        show (8 * base + pos + j) % 8 = pos % 8 + j by omega]
    · rw [if_neg hj, show (8 * base + pos + j) % 8 = (pos + j) % 8 by omega]
  have hr : pos % 8 < 8 := Nat.mod_lt _ (by decide)
  unfold readField
  rw [hread _ (by omega)]
  simp only [bind, Except.bind]
  by_cases hfit : pos % 8 + w ≤ 8
  · rw [if_pos hfit, Nat.and_two_pow_sub_one_eq_mod, Except.ok.injEq]
    apply Nat.eq_of_testBit_eq
    intro j
    rw [Nat.testBit_mod_two_pow, Nat.testBit_mod_two_pow, Nat.testBit_shiftRight,
      Nat.testBit_shiftRight, hbit]
    by_cases hj : j < w
    · rw [if_pos (by omega)]
    · simp [hj]
  · rw [if_neg hfit, hread _ (by omega)]
    dsimp only
    rw [Nat.and_two_pow_sub_one_eq_mod, Except.ok.injEq]
    apply Nat.eq_of_testBit_eq
    intro j
    rw [Nat.testBit_mod_two_pow, Nat.testBit_mod_two_pow, Nat.testBit_shiftRight, Nat.testBit_or,
      Nat.testBit_shiftRight, Nat.testBit_shiftLeft, hbit]
    by_cases hj : j < w
    · by_cases hcross : pos % 8 + j < 8
      · rw [if_pos hcross]
        simp [show ¬ 8 - pos % 8 ≤ j by omega]
      · have hlow : (buf.getD (base + pos / 8) 0).toNat.testBit (pos % 8 + j) = false :=
          Nat.testBit_lt_two_pow (Nat.lt_of_lt_of_le (UInt8.toNat_lt _)
            (Nat.pow_le_pow_right (by decide) (by omega : 8 ≤ pos % 8 + j)))
        rw [if_neg hcross, hlow, show (8 * base + pos + j) / 8 = base + (pos / 8 + 1) by omega,
          show (pos + j) % 8 = j - (8 - pos % 8) by omega]
        simp [show 8 - pos % 8 ≤ j by omega]
    · simp [hj]

/-- A field of an area that lies between two others. -/
theorem leNat_shiftRight_append (pre post : List UInt8) {area : List UInt8} {pos w : Nat}
    (h : pos + w ≤ 8 * area.length) :
    (leNat (pre ++ (area ++ post)) >>> (8 * pre.length + pos)) % 2 ^ w =
      (leNat area >>> pos) % 2 ^ w := by
  have hpre : leNat pre < 2 ^ (8 * pre.length) := by
    rw [Nat.pow_mul]
    exact leNat_lt pre
  have harea : leNat area < 2 ^ (8 * area.length) := by
    rw [Nat.pow_mul]
    exact leNat_lt area
  apply Nat.eq_of_testBit_eq
  intro j
  rw [Nat.testBit_mod_two_pow, Nat.testBit_mod_two_pow, Nat.testBit_shiftRight,
    Nat.testBit_shiftRight, leNat_append, leNat_append, show (256 : Nat) = 2 ^ 8 by decide,
    ← Nat.pow_mul, ← Nat.pow_mul, Nat.add_comm (leNat pre), Nat.testBit_two_pow_mul_add _ hpre,
    if_neg (by omega), Nat.add_comm (leNat area), Nat.testBit_two_pow_mul_add _ harea]
  by_cases hj : j < w
  · rw [if_pos (by omega), Nat.add_assoc, Nat.add_sub_cancel_left]
  · simp [hj]

/-- Field `i` of a packed area that lies between two others, read from its two bytes. -/
theorem readField_fieldBytes {w : Nat} {fs : List Nat} (hw : w ≤ 8) (hw0 : 0 < w)
    (hfs : ∀ f ∈ fs, f < 2 ^ w) (pre post : List UInt8) {i : Nat} (hi : i < fs.length) :
    readField w (pre ++ (fieldBytes w fs ++ post)) pre.length (w * i) = .ok fs[i] := by
  have hroom : w * i + w ≤ w * fs.length := by
    rw [← Nat.mul_succ]
    exact Nat.mul_le_mul_left w hi
  have harea : w * i + w ≤ 8 * (fieldBytes w fs).length := by
    rw [length_fieldBytes]
    omega
  rw [readField_eq hw hw0 (by simp only [List.length_append]; omega),
    leNat_shiftRight_append pre post harea, leNat_fieldBytes hw0 hfs, fieldsNat_shiftRight hfs hi]

/-- Field `i` of a packed area, read bit by bit. -/
theorem readBits_fieldBytes {w : Nat} {fs : List Nat} (hw0 : 0 < w)
    (hfs : ∀ f ∈ fs, f < 2 ^ w) {i : Nat} (hi : i < fs.length) :
    readBits (fieldBytes w fs) (w * i) w = .ok fs[i] := by
  have hroom : w * i + w ≤ w * fs.length := by
    rw [← Nat.mul_succ]
    exact Nat.mul_le_mul_left w hi
  rw [readBits_eq (by rw [length_fieldBytes]; omega), leNat_fieldBytes hw0 hfs,
    fieldsNat_shiftRight hfs hi]

/-- A one-bit field of a packed area. -/
theorem bitAt_fieldBytes {fs : List Nat} (hfs : ∀ f ∈ fs, f < 2 ^ 1) {i : Nat}
    (hi : i < fs.length) : bitAt (fieldBytes 1 fs) i = .ok (decide (fs[i] = 1)) := by
  have hfield := fieldsNat_shiftRight hfs hi
  rw [Nat.one_mul, Nat.shiftRight_eq_div_pow] at hfield
  rw [bitAt_eq (by rw [length_fieldBytes]; omega), leNat_fieldBytes Nat.one_pos hfs,
    Nat.testBit_eq_decide_div_mod_eq, ← hfield, Nat.pow_one]

end MiniMem
