import Mathlib.Algebra.Order.Ring.Nat
import Mathlib.Data.List.Basic
import Mathlib.Tactic.Common

/-!
# MiniMem.Bytes

Byte-list plumbing for the codec layer: little-endian words, splitting a
buffer into fixed-size chunks, and buffers whose accesses are checked.

A C routine that fills a destination of a given capacity is written here as
a program in `Except Stop`: `Stop.zero` is its early `return 0`, and
`Stop.oob` is an access outside one of its buffers, which no capacity check
of the routine caught.  Everything here is proved once so the codec proofs
never redo list arithmetic.
-/

namespace MiniMem

/-! ## take/drop over appended buffers -/

/-- Taking the length of a prefix from an append gives the prefix. -/
theorem take_append_of_length {α : Type*} {xs ys : List α} {k : Nat} (h : xs.length = k) :
    (xs ++ ys).take k = xs := by
  subst h; simp

/-- Dropping the length of a prefix from an append gives the suffix. -/
theorem drop_append_of_length {α : Type*} {xs ys : List α} {k : Nat} (h : xs.length = k) :
    (xs ++ ys).drop k = ys := by
  subst h; simp

/-- Modifying the element behind a prefix leaves the rest alone. -/
theorem modify_append_cons {α : Type*} (f : α → α) (pre : List α) (x : α) (post : List α) :
    (pre ++ x :: post).modify pre.length f = pre ++ f x :: post := by
  induction pre with
  | nil => rfl
  | cons y pre ih => simp [ih]

/-! ## Checked buffers -/

/-- Why a buffer routine stopped without a result. -/
inductive Stop where
  | zero
  | oob
  deriving DecidableEq, Repr

/-- The `len` bytes of `src` from `pos` on. -/
def readAt (src : List UInt8) (pos len : Nat) : Except Stop (List UInt8) :=
  if pos + len ≤ src.length then .ok ((src.drop pos).take len) else .error .oob

/-- The byte of `src` at `pos`. -/
def readByte (src : List UInt8) (pos : Nat) : Except Stop UInt8 :=
  match src[pos]? with
  | some b => .ok b
  | none => .error .oob

/-- Append `bs` to the filled part `out` of a buffer of `cap` bytes. -/
def emit (cap : Nat) (out bs : List UInt8) : Except Stop (List UInt8) :=
  if out.length + bs.length ≤ cap then .ok (out ++ bs) else .error .oob

/-- `memcpy(buf + pos, bs)`. -/
def writeAt (buf : List UInt8) (pos : Nat) (bs : List UInt8) : Except Stop (List UInt8) :=
  if pos + bs.length ≤ buf.length then
    .ok (buf.take pos ++ bs ++ buf.drop (pos + bs.length))
  else .error .oob

/-- `buf[pos] |= v`. -/
def orByte (buf : List UInt8) (pos : Nat) (v : UInt8) : Except Stop (List UInt8) :=
  if pos < buf.length then .ok (buf.modify pos (· ||| v)) else .error .oob

/-- A read of the front of a buffer. -/
theorem readAt_zero {src : List UInt8} {len : Nat} (h : len ≤ src.length) :
    readAt src 0 len = .ok (src.take len) := by
  rw [readAt, if_pos (by omega), List.drop_zero]

theorem readAt_ok {src : List UInt8} {pos len : Nat} (h : pos + len ≤ src.length) :
    readAt src pos len = .ok ((src.drop pos).take len) := by
  rw [readAt, if_pos h]

theorem readByte_ok {src : List UInt8} {pos : Nat} (h : pos < src.length) :
    readByte src pos = .ok (src.getD pos 0) := by
  rw [readByte, List.getD_eq_getElem?_getD, List.getElem?_eq_getElem h]
  rfl

theorem readByte_oob {src : List UInt8} {pos : Nat} (h : src.length ≤ pos) :
    readByte src pos = .error .oob := by
  rw [readByte, List.getElem?_eq_none h]

/-- A read that lies inside an appended middle section returns that section. -/
theorem readAt_append (pre bs post : List UInt8) {pos len : Nat} (hpos : pre.length = pos)
    (hlen : bs.length = len) : readAt (pre ++ (bs ++ post)) pos len = .ok bs := by
  unfold readAt
  rw [if_pos (by simp; omega), drop_append_of_length hpos, take_append_of_length hlen]

/-- A read behind `base` that lies in a section of what follows `base`. -/
theorem readAt_drop {src ys : List UInt8} (xs zs : List UInt8) {base pos len : Nat}
    (hbase : base ≤ src.length)
    (h : src.drop base = xs ++ (ys ++ zs)) (hpos : base + xs.length = pos)
    (hlen : ys.length = len) : readAt src pos len = .ok ys := by
  have hsrc : src = (src.take base ++ xs) ++ (ys ++ zs) := by
    rw [List.append_assoc, ← h, List.take_append_drop]
  rw [hsrc]
  exact readAt_append _ ys zs (by simp [hbase, hpos]) hlen

theorem readByte_append (pre : List UInt8) (b : UInt8) (post : List UInt8) :
    readByte (pre ++ b :: post) pre.length = .ok b := by
  simp [readByte]

theorem readByte_drop {src : List UInt8} (xs zs : List UInt8) {b : UInt8} {base pos : Nat}
    (hbase : base ≤ src.length) (h : src.drop base = xs ++ b :: zs)
    (hpos : base + xs.length = pos) : readByte src pos = .ok b := by
  have hsrc : src = (src.take base ++ xs) ++ b :: zs := by
    rw [List.append_assoc, ← h, List.take_append_drop]
  have hlen : (src.take base ++ xs).length = pos := by simp [hbase, hpos]
  rw [hsrc, ← hlen]
  exact readByte_append _ b zs

theorem emit_ok {cap : Nat} {out bs : List UInt8} (h : out.length + bs.length ≤ cap) :
    emit cap out bs = .ok (out ++ bs) := by
  rw [emit, if_pos h]

/-- A sequence of two steps succeeds when both do. -/
theorem bind_eq_ok {ε α β : Type} {x : Except ε α} {f : α → Except ε β} {b : β} :
    (x >>= f) = .ok b ↔ ∃ a, x = .ok a ∧ f a = .ok b := by
  cases x <;> simp [bind, Except.bind]

theorem length_of_readAt {src bs : List UInt8} {pos len : Nat} (h : readAt src pos len = .ok bs) :
    bs.length = len := by
  unfold readAt at h
  split at h
  · injection h with h
    rw [← h, List.length_take_of_le (by rw [List.length_drop]; omega)]
  · cases h

theorem length_of_emit {cap : Nat} {out bs out' : List UInt8} (h : emit cap out bs = .ok out') :
    out'.length = out.length + bs.length := by
  unfold emit at h
  split at h
  · injection h with h
    rw [← h, List.length_append]
  · cases h

/-- A write that fits extends the filled part of a buffer by the bytes written. -/
theorem writeAt_ok (buf bs : List UInt8) (pos : Nat) (h : pos + bs.length ≤ buf.length) :
    ∃ buf', writeAt buf pos bs = .ok buf' ∧ buf'.length = buf.length ∧
      buf'.take (pos + bs.length) = buf.take pos ++ bs := by
  refine ⟨buf.take pos ++ bs ++ buf.drop (pos + bs.length), by rw [writeAt, if_pos h], ?_, ?_⟩
  · simp
    omega
  · apply take_append_of_length
    simp
    omega

/-! ## Little-endian words -/

/-- The `n` low bytes of `v`, least significant first. -/
def leBytes : Nat → Nat → List UInt8
  | 0, _ => []
  | n + 1, v => UInt8.ofNat v :: leBytes n (v / 256)

/-- The number a byte list denotes, least significant byte first. -/
def leNat : List UInt8 → Nat
  | [] => 0
  | b :: bs => b.toNat + 256 * leNat bs

@[simp] theorem length_leBytes (n v : Nat) : (leBytes n v).length = n := by
  induction n generalizing v with
  | zero => rfl
  | succ n ih => simp [leBytes, ih]

theorem leNat_lt (bs : List UInt8) : leNat bs < 256 ^ bs.length := by
  induction bs with
  | nil => simp [leNat]
  | cons b bs ih =>
      have hb : b.toNat < 256 := b.toNat_lt
      simp only [leNat, List.length_cons, Nat.pow_succ]
      omega

/-- A word reads back from its bytes modulo the width written. -/
theorem leNat_leBytes (n v : Nat) : leNat (leBytes n v) = v % 256 ^ n := by
  induction n generalizing v with
  | zero => simp [leBytes, leNat, Nat.mod_one]
  | succ n ih =>
      have hbyte : (UInt8.ofNat v).toNat = v % 256 := UInt8.toNat_ofNat'
      rw [leBytes, leNat, ih, hbyte, Nat.pow_succ, Nat.mul_comm (256 ^ n) 256, Nat.mod_mul]

/-- A byte list is the encoding of the number it denotes. -/
theorem leBytes_leNat (bs : List UInt8) {n : Nat} (h : bs.length = n) :
    leBytes n (leNat bs) = bs := by
  subst h
  induction bs with
  | nil => rfl
  | cons b bs ih =>
      have hb : b.toNat < 256 := b.toNat_lt
      have hdiv : (b.toNat + 256 * leNat bs) / 256 = leNat bs := by omega
      simp only [List.length_cons, leBytes, leNat, hdiv, ih]
      congr 1
      apply UInt8.toNat_inj.mp
      rw [UInt8.toNat_ofNat']
      omega

/-! ## Splitting into fixed-size chunks -/

/-- The first `k` chunks of `n` bytes of a buffer. -/
def chunks (n : Nat) : Nat → List UInt8 → List (List UInt8)
  | 0, _ => []
  | k + 1, bs => bs.take n :: chunks n k (bs.drop n)

@[simp] theorem length_chunks (n k : Nat) (bs : List UInt8) : (chunks n k bs).length = k := by
  induction k generalizing bs with
  | zero => rfl
  | succ k ih => simp [chunks, ih]

/-- A buffer of `k` chunks is the concatenation of its chunks. -/
theorem flatten_chunks (n k : Nat) {bs : List UInt8} (h : bs.length = k * n) :
    (chunks n k bs).flatten = bs := by
  induction k generalizing bs with
  | zero =>
      have hnil : bs = [] := List.length_eq_zero_iff.mp (by omega)
      simp [chunks, hnil]
  | succ k ih =>
      have hdrop : (bs.drop n).length = k * n := by
        rw [List.length_drop, h, Nat.succ_mul]; omega
      rw [chunks, List.flatten_cons, ih hdrop, List.take_append_drop]

/-- Rewriting every chunk at its own length leaves a concatenation unchanged
only if it leaves every chunk unchanged. -/
theorem flatten_map_eq_iff {α : Type*} (f : List α → List α) (l : List (List α))
    (hlen : ∀ c ∈ l, (f c).length = c.length) :
    (l.map f).flatten = l.flatten ↔ ∀ c ∈ l, f c = c := by
  induction l with
  | nil => simp
  | cons c l ih =>
      have hc : (f c).length = c.length := hlen c List.mem_cons_self
      have hl := ih fun d hd => hlen d (List.mem_cons_of_mem c hd)
      rw [List.map_cons, List.flatten_cons, List.flatten_cons, List.forall_mem_cons, ← hl]
      constructor
      · intro h
        exact List.append_inj h hc
      · intro h
        rw [h.1, h.2]

/-- Every chunk of a buffer of `k` chunks has the chunk size. -/
theorem length_mem_chunks {n k : Nat} {bs c : List UInt8} (h : bs.length = k * n)
    (hc : c ∈ chunks n k bs) : c.length = n := by
  induction k generalizing bs with
  | zero => simp [chunks] at hc
  | succ k ih =>
      rw [Nat.succ_mul] at h
      simp only [chunks, List.mem_cons] at hc
      cases hc with
      | inl he => rw [he, List.length_take]; omega
      | inr ht => exact ih (by rw [List.length_drop]; omega) ht

/-- The first `k` little-endian words of `n` bytes of a buffer. -/
def wordsLE (n k : Nat) (bs : List UInt8) : List Nat := (chunks n k bs).map leNat

@[simp] theorem length_wordsLE (n k : Nat) (bs : List UInt8) : (wordsLE n k bs).length = k := by
  simp [wordsLE]

theorem wordsLE_lt {n k : Nat} {bs : List UInt8} (h : bs.length = k * n) {w : Nat}
    (hw : w ∈ wordsLE n k bs) : w < 256 ^ n := by
  obtain ⟨c, hc, rfl⟩ := List.mem_map.mp hw
  rw [← length_mem_chunks h hc]
  exact leNat_lt c

/-- Writing the words of a buffer back gives the buffer. -/
theorem flatten_leBytes_wordsLE {n k : Nat} {bs : List UInt8} (h : bs.length = k * n) :
    ((wordsLE n k bs).map (leBytes n)).flatten = bs := by
  have hid : ((chunks n k bs).map leNat).map (leBytes n) = chunks n k bs := by
    rw [List.map_map]
    conv => rhs; rw [← List.map_id (chunks n k bs)]
    exact List.map_congr_left fun c hc => leBytes_leNat c (length_mem_chunks h hc)
  rw [wordsLE, hid, flatten_chunks n k h]

end MiniMem
