import MiniMem.Kernel.State

/-!
# MiniMem.Kernel.PteBits

The bits of a marker, as `minimem_pte.h` lays them out on x86-64:

```
63      59 58                                 9 8     7..1  0
[ type 31 ][ complement of the low 50 bits of ][P]  [    ] [P]
           [   1000b | index << 4             ]
```

The two bits `P` are what `pte_present` tests.  Four of the fifty bits are
the flag, so 46 bits of the index survive: more than a page number of a user
address has, and fewer than the 54 that the research notes count.
-/

namespace MiniMem

/-! ## Entries -/

/-- `swp_entry_t`. -/
structure SwpEntry where
  val : BitVec 64
  deriving DecidableEq, Repr

/-- `pte_t`. -/
structure RawPte where
  val : BitVec 64
  deriving DecidableEq, Repr

/-- `MINIMEM_SWP_TYPE_BITS`. -/
def swpTypeBits : Nat := 5
/-- `MINIMEM_SWP_TYPE_SHIFT`. -/
def swpTypeShift : Nat := 64 - swpTypeBits
/-- `MINIMEM_SWP_OFFSET_SHIFT`. -/
def swpOffsetShift : Nat := 14
/-- `MINIMEM_SWP_PTE_MARKER_TYPE`. -/
def swpPteMarkerType : BitVec 64 := 31
/-- `PTE_MARKER_MINIMEM`. -/
def pteMarkerMinimem : BitVec 64 := 1 <<< 3
/-- `MINIMEM_INDEX_SHIFT`. -/
def minimemIndexShift : Nat := 4

/-- `minimem_swp_type`. -/
def minimemSwpType (entry : SwpEntry) : BitVec 64 := entry.val >>> swpTypeShift

/-- `minimem_swp_offset`. -/
def minimemSwpOffset (entry : SwpEntry) : BitVec 64 :=
  (~~~entry.val <<< swpTypeBits) >>> swpOffsetShift

/-- `minimem_swp_entry`. -/
def minimemSwpEntry (type offset : BitVec 64) : SwpEntry :=
  ⟨(~~~offset <<< swpOffsetShift) >>> swpTypeBits ||| type <<< swpTypeShift⟩

/-- `minimem_pte_to_swp_entry`. -/
def minimemPteToSwpEntry (pte : RawPte) : SwpEntry := ⟨pte.val⟩

/-- `minimem_swp_entry_to_pte`. -/
def minimemSwpEntryToPte (entry : SwpEntry) : RawPte := ⟨entry.val⟩

/-- `make_minimem_entry`. -/
def makeMinimemEntry (mapIndex : BitVec 64) : SwpEntry :=
  minimemSwpEntry swpPteMarkerType (pteMarkerMinimem ||| mapIndex <<< minimemIndexShift)

/-- `is_minimem_entry`. -/
def isMinimemEntry (entry : SwpEntry) : Bool :=
  if minimemSwpType entry ≠ swpPteMarkerType then false
  else minimemSwpOffset entry &&& pteMarkerMinimem != 0

/-- `minimem_entry_index`. -/
def minimemEntryIndex (entry : SwpEntry) : BitVec 64 := minimemSwpOffset entry >>> minimemIndexShift

/-- `pte_present`: `_PAGE_PRESENT` or `_PAGE_PROTNONE`. -/
def RawPte.present (pte : RawPte) : Bool := pte.val &&& 0x101 != 0

/-- `is_minimem_pte`. -/
def isMinimemPte (pte : RawPte) : Bool :=
  if pte.present then false
  else isMinimemEntry (minimemPteToSwpEntry pte)

/-- `minimem_pte_index`. -/
def minimemPteIndex (pte : RawPte) : BitVec 64 := minimemEntryIndex (minimemPteToSwpEntry pte)

/-- `minimem_entry_to_pte`. -/
def minimemEntryToPte (entry : SwpEntry) : RawPte := minimemSwpEntryToPte entry

/-! ## Fields -/

/-- The type field is the top five bits. -/
theorem getLsbD_swpType (entry : SwpEntry) (b : Nat) :
    (minimemSwpType entry).getLsbD b = entry.val.getLsbD (59 + b) := by
  simp [minimemSwpType, swpTypeShift, swpTypeBits]

/-- The offset field is the complement of bits 9 to 58. -/
theorem getLsbD_swpOffset (entry : SwpEntry) (b : Nat) :
    (minimemSwpOffset entry).getLsbD b = (decide (b < 50) && !entry.val.getLsbD (9 + b)) := by
  simp only [minimemSwpOffset, swpTypeBits, swpOffsetShift, BitVec.getLsbD_ushiftRight,
    BitVec.getLsbD_shiftLeft, BitVec.getLsbD_not, show 14 + b - 5 = 9 + b by omega]
  by_cases h : b < 50
  · simp [h, show 14 + b < 64 by omega, show ¬ 14 + b < 5 by omega, show 9 + b < 64 by omega]
  · simp [h, show ¬ 14 + b < 64 by omega]

/-- An entry has its type at the top, the complement of its offset below it, and nine clear
bits. -/
theorem getLsbD_swpEntry (type offset : BitVec 64) (b : Nat) :
    (minimemSwpEntry type offset).val.getLsbD b =
      if b < 9 then false
      else if b < 59 then !offset.getLsbD (b - 9)
      else decide (b < 64) && type.getLsbD (b - 59) := by
  simp only [minimemSwpEntry, swpTypeBits, swpTypeShift, swpOffsetShift, BitVec.getLsbD_or,
    BitVec.getLsbD_ushiftRight, BitVec.getLsbD_shiftLeft, BitVec.getLsbD_not]
  by_cases hlow : b < 9
  · simp [hlow, show 5 + b < 14 by omega, show b < 59 by omega]
  by_cases hmid : b < 59
  · simp [hlow, hmid, show 5 + b < 64 by omega, show ¬ 5 + b < 14 by omega,
      show 5 + b - 14 = b - 9 by omega, show b - 9 < 64 by omega]
  · simp [hlow, hmid, show ¬ 5 + b < 64 by omega]

/-- The type reads back from an entry, if it fits its field. -/
theorem minimemSwpType_swpEntry {type : BitVec 64} (htype : type.toNat < 32)
    (offset : BitVec 64) : minimemSwpType (minimemSwpEntry type offset) = type := by
  apply BitVec.eq_of_getLsbD_eq
  intro b _
  rw [getLsbD_swpType, getLsbD_swpEntry, if_neg (by omega), if_neg (by omega),
    Nat.add_sub_cancel_left]
  by_cases hb : b < 5
  · rw [decide_eq_true (by omega), Bool.true_and]
  · have hpow : 2 ^ 5 ≤ 2 ^ b := Nat.pow_le_pow_right (by decide) (by omega)
    have hclear : type.getLsbD b = false := by
      rw [← BitVec.testBit_toNat]
      exact Nat.testBit_lt_two_pow (Nat.lt_of_lt_of_le htype hpow)
    rw [hclear, Bool.and_false]

/-- `pte_present` tests two bits. -/
theorem RawPte.present_eq (pte : RawPte) :
    pte.present = (pte.val.getLsbD 0 || pte.val.getLsbD 8) := by
  have hmask : (0x101 : BitVec 64) = BitVec.twoPow 64 0 ||| BitVec.twoPow 64 8 := by decide
  rw [present, hmask, BitVec.and_or_distrib_left, BitVec.and_twoPow, BitVec.and_twoPow]
  cases pte.val.getLsbD 0 <;> cases pte.val.getLsbD 8 <;> decide

/-- An entry is a marker by its type and one bit of its offset. -/
theorem isMinimemEntry_eq (entry : SwpEntry) :
    isMinimemEntry entry =
      (decide (minimemSwpType entry = swpPteMarkerType) && !entry.val.getLsbD 12) := by
  have hflag : pteMarkerMinimem = BitVec.twoPow 64 3 := by decide
  rw [isMinimemEntry, hflag, BitVec.and_twoPow, getLsbD_swpOffset]
  by_cases htype : minimemSwpType entry = swpPteMarkerType
  · rw [if_neg (not_not_intro htype), decide_eq_true htype]
    cases entry.val.getLsbD 12 <;> decide
  · rw [if_pos htype, decide_eq_false htype, Bool.false_and]

/-- The index field is the complement of bits 13 to 58. -/
theorem getLsbD_minimemPteIndex (pte : RawPte) (b : Nat) :
    (minimemPteIndex pte).getLsbD b = (decide (b < 46) && !pte.val.getLsbD (13 + b)) := by
  rw [minimemPteIndex, minimemEntryIndex, minimemIndexShift, BitVec.getLsbD_ushiftRight,
    getLsbD_swpOffset, minimemPteToSwpEntry, show 9 + (4 + b) = 13 + b by omega]
  congr 1
  exact decide_eq_decide.2 (by omega)

/-! ## Markers -/

/-- The entry that is stored for a map index. -/
def minimemRawPte (mapIndex : BitVec 64) : RawPte := minimemEntryToPte (makeMinimemEntry mapIndex)

/-- The bits of a marker: the flag is clear, as the complement of a set bit. -/
theorem getLsbD_minimemRawPte (mapIndex : BitVec 64) {b : Nat} (hb : b < 46) :
    (minimemRawPte mapIndex).val.getLsbD (13 + b) = !mapIndex.getLsbD b := by
  have hflag : pteMarkerMinimem = BitVec.twoPow 64 3 := by decide
  rw [minimemRawPte, minimemEntryToPte, minimemSwpEntryToPte, makeMinimemEntry, getLsbD_swpEntry,
    if_neg (by omega), if_pos (by omega), hflag, minimemIndexShift, BitVec.getLsbD_or,
    BitVec.getLsbD_twoPow, BitVec.getLsbD_shiftLeft]
  simp [show ¬ 3 = 13 + b - 9 by omega, show 13 + b - 9 < 64 by omega,
    show ¬ 13 + b - 9 < 4 by omega, show 13 + b - 9 - 4 = b by omega]

theorem isMinimemPte_minimemRawPte (mapIndex : BitVec 64) :
    isMinimemPte (minimemRawPte mapIndex) = true := by
  have hpresent : (minimemRawPte mapIndex).present = false := by
    rw [RawPte.present_eq, minimemRawPte, minimemEntryToPte, minimemSwpEntryToPte,
      makeMinimemEntry, getLsbD_swpEntry, getLsbD_swpEntry]
    rfl
  have htype : minimemSwpType (makeMinimemEntry mapIndex) = swpPteMarkerType :=
    minimemSwpType_swpEntry (by decide) _
  have hflag : (makeMinimemEntry mapIndex).val.getLsbD 12 = false := by
    rw [makeMinimemEntry, getLsbD_swpEntry, if_neg (by decide), if_pos (by decide),
      BitVec.getLsbD_or, show pteMarkerMinimem.getLsbD (12 - 9) = true by decide, Bool.true_or,
      Bool.not_true]
  have hentry : minimemPteToSwpEntry (minimemRawPte mapIndex) = makeMinimemEntry mapIndex := rfl
  rw [isMinimemPte, hpresent, if_neg Bool.false_ne_true, hentry, isMinimemEntry_eq, hflag,
    decide_eq_true htype]
  rfl

/-- 46 bits of an index survive in its marker. -/
theorem toNat_minimemPteIndex (mapIndex : BitVec 64) :
    (minimemPteIndex (minimemRawPte mapIndex)).toNat = mapIndex.toNat % 2 ^ 46 := by
  apply Nat.eq_of_testBit_eq
  intro b
  rw [Nat.testBit_mod_two_pow, BitVec.testBit_toNat, BitVec.testBit_toNat,
    getLsbD_minimemPteIndex]
  by_cases hb : b < 46
  · rw [getLsbD_minimemRawPte mapIndex hb, Bool.not_not]
  · rw [decide_eq_false hb, Bool.false_and, Bool.false_and]

theorem minimemPteIndex_eq_iff (mapIndex : BitVec 64) :
    minimemPteIndex (minimemRawPte mapIndex) = mapIndex ↔ mapIndex.toNat < 2 ^ 46 := by
  rw [← BitVec.toNat_inj, toNat_minimemPteIndex]
  constructor
  · intro h
    rw [← h]
    exact Nat.mod_lt _ (Nat.two_pow_pos 46)
  · exact Nat.mod_eq_of_lt

/-- The `encode` command of `minimem_pte_test_write`, past its parsing: the value returned and
`last_encoded_index`. -/
def minimemPteTestEncode (count : Int) (lastEncodedIndex val : BitVec 64) : Int × BitVec 64 :=
  let pte := minimemEntryToPte (makeMinimemEntry val)
  if !isMinimemPte pte then (eio, lastEncodedIndex)
  else if minimemPteIndex pte ≠ val then (eio, lastEncodedIndex)
  else (count, val)

/-- The test of the module's own accepts the indices that survive. -/
theorem minimemPteTestEncode_eq (count : Int) (lastEncodedIndex val : BitVec 64) :
    minimemPteTestEncode count lastEncodedIndex val =
      if val.toNat < 2 ^ 46 then (count, val) else (eio, lastEncodedIndex) := by
  have hpte : minimemEntryToPte (makeMinimemEntry val) = minimemRawPte val := rfl
  simp only [minimemPteTestEncode, hpte, isMinimemPte_minimemRawPte, Bool.not_true,
    Bool.false_eq_true, if_false, ne_eq, minimemPteIndex_eq_iff, ite_not]

/-- The model's marker carries what the bits of the marker hold. -/
theorem minimemPte_toNat (mapIndex : BitVec 64) :
    minimemPte mapIndex.toNat = .marker (minimemPteIndex (minimemRawPte mapIndex)).toNat := by
  rw [toNat_minimemPteIndex, minimemPte]

/-- Entries that differ in the bits 1 to 7 only, which neither `pte_present` nor the fields of
a swap entry use. -/
def RawPte.SameSwpBits (pte pte' : RawPte) : Prop :=
  ∀ b, b = 0 ∨ 8 ≤ b → pte.val.getLsbD b = pte'.val.getLsbD b

theorem RawPte.SameSwpBits.isMinimemPte_eq {pte pte' : RawPte} (h : pte.SameSwpBits pte') :
    isMinimemPte pte = isMinimemPte pte' := by
  have htype : minimemSwpType (minimemPteToSwpEntry pte) =
      minimemSwpType (minimemPteToSwpEntry pte') := by
    apply BitVec.eq_of_getLsbD_eq
    intro b _
    rw [getLsbD_swpType, getLsbD_swpType]
    exact h (59 + b) (.inr (by omega))
  rw [isMinimemPte, isMinimemPte, present_eq, present_eq, h 0 (.inl rfl), h 8 (.inr (by omega)),
    isMinimemEntry_eq, isMinimemEntry_eq, htype]
  simp only [minimemPteToSwpEntry, h 12 (.inr (by omega))]

theorem RawPte.SameSwpBits.minimemPteIndex_eq {pte pte' : RawPte} (h : pte.SameSwpBits pte') :
    minimemPteIndex pte = minimemPteIndex pte' := by
  apply BitVec.eq_of_getLsbD_eq
  intro b _
  rw [getLsbD_minimemPteIndex, getLsbD_minimemPteIndex, h (13 + b) (.inr (by omega))]

/-! ## The encoding -/

/-- `minimem_vaddr_to_index`, on an address of 64 bits. -/
def rawVaddrToIndex (vaddr : BitVec 64) : BitVec 64 := vaddr >>> pageShift

theorem toNat_rawVaddrToIndex (vaddr : BitVec 64) :
    (rawVaddrToIndex vaddr).toNat = vaddrToIndex vaddr.toNat := by
  rw [rawVaddrToIndex, BitVec.toNat_ushiftRight, vaddrToIndex]

/-- **Marker encoding**: every marker is recognised, its index is the one stored modulo
`2 ^ 46`, the markers of user addresses (below `2 ^ 56` with five levels of page tables) tell
their pages apart, and the bits 1 to 7 play no part. -/
theorem minimemRawPte_encodes :
    (∀ i : BitVec 64, isMinimemPte (minimemRawPte i) = true ∧
      (minimemPteIndex (minimemRawPte i)).toNat = i.toNat % 2 ^ 46 ∧
      (minimemPteIndex (minimemRawPte i) = i ↔ i.toNat < 2 ^ 46)) ∧
    (∀ vaddr vaddr' : BitVec 64, vaddr.toNat < 2 ^ 56 → vaddr'.toNat < 2 ^ 56 →
      minimemRawPte (rawVaddrToIndex vaddr) = minimemRawPte (rawVaddrToIndex vaddr') →
      rawVaddrToIndex vaddr = rawVaddrToIndex vaddr') ∧
    (∀ pte pte' : RawPte, pte.SameSwpBits pte' →
      isMinimemPte pte = isMinimemPte pte' ∧ minimemPteIndex pte = minimemPteIndex pte') := by
  refine ⟨fun i => ⟨isMinimemPte_minimemRawPte i, toNat_minimemPteIndex i,
    minimemPteIndex_eq_iff i⟩, fun vaddr vaddr' hv hv' h => ?_,
    fun pte pte' h => ⟨h.isMinimemPte_eq, h.minimemPteIndex_eq⟩⟩
  have hindex : ∀ v : BitVec 64, v.toNat < 2 ^ 56 →
      minimemPteIndex (minimemRawPte (rawVaddrToIndex v)) = rawVaddrToIndex v := by
    intro v hlt
    rw [minimemPteIndex_eq_iff, toNat_rawVaddrToIndex, vaddrToIndex, pageShift,
      Nat.shiftRight_eq_div_pow]
    omega
  rw [← hindex vaddr hv, ← hindex vaddr' hv', h]

theorem minimemRawPte_encodes_page :
    isMinimemPte (minimemRawPte 0x7fff) = true ∧
      rawVaddrToIndex 0x7fff000 = rawVaddrToIndex 0x7ffffff :=
  ⟨(minimemRawPte_encodes.1 0x7fff).1,
    minimemRawPte_encodes.2.1 0x7fff000 0x7ffffff (by decide) (by decide) (by decide)⟩

end MiniMem
