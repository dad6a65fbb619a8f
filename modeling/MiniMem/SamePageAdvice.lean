import MiniMem.Advisor

/-!
# MiniMem.SamePageAdvice

When the advice to store a page as one repeated byte can be followed.

The compressor wants all bytes equal.  The advisor looks at two numbers of
the histogram, the zero bytes in 256ths of the page and the count of the
most common byte:

```
zeros * 256 / len ≥ 250     or     mode ≥ len - 4
```

so it also gives this advice for pages with a few other bytes in them.
-/

namespace MiniMem

/-! ## The histogram -/

/-- The scan of the histogram for the most common byte stays below a bound exactly when every
count does. -/
theorem foldl_mode_le_iff (data : List UInt8) (is : List Nat) (m : UInt8 × Nat) (bound : Nat) :
    (is.foldl (fun m i => if data.count (UInt8.ofNat i) > m.2 then
      (UInt8.ofNat i, data.count (UInt8.ofNat i)) else m) m).2 ≤ bound ↔
      m.2 ≤ bound ∧ ∀ i ∈ is, data.count (UInt8.ofNat i) ≤ bound := by
  induction is generalizing m with
  | nil => simp
  | cons i is ih =>
      rw [List.foldl_cons, ih, List.forall_mem_cons]
      split <;> constructor <;> rintro ⟨h₁, h₂⟩
      · exact ⟨by omega, h₁, h₂⟩
      · exact ⟨h₂.1, h₂.2⟩
      · exact ⟨h₁, by omega, h₂⟩
      · exact ⟨h₁, h₂.2⟩

/-- The count of the most common byte is the greatest of all counts. -/
theorem modeByte_le_iff (data : List UInt8) (bound : Nat) :
    (modeByte data).2 ≤ bound ↔ ∀ b, data.count b ≤ bound := by
  rw [modeByte, foldl_mode_le_iff]
  constructor
  · rintro ⟨-, h⟩ b
    have hb := h b.toNat (List.mem_range.2 b.toNat_lt)
    rwa [UInt8.ofNat_toNat] at hb
  · intro h
    exact ⟨Nat.zero_le _, fun i _ => h _⟩

/-- The count of the most common byte of a few bytes is below what `total_bytes - 4` wraps
to; otherwise it reaches `total_bytes - 4` when some byte occurs that often. -/
theorem modeByte_ge_iff {data : List UInt8} (hsize : data.length < 2 ^ 64) :
    (modeByte data).2 ≥ (data.length + 2 ^ 64 - 4) % 2 ^ 64 ↔
      4 ≤ data.length ∧ ∃ b, data.length ≤ data.count b + 4 := by
  by_cases hlen : 4 ≤ data.length
  · have hmod : (data.length + 2 ^ 64 - 4) % 2 ^ 64 = data.length - 4 := by omega
    rw [hmod]
    simp only [hlen, true_and]
    have hle := modeByte_le_iff data (data.length - 5)
    by_cases hfour : data.length = 4
    · exact iff_of_true (by omega) ⟨0, by omega⟩
    · constructor
      · intro hmode
        by_contra hnone
        simp only [not_exists, Nat.not_le] at hnone
        have := hle.2 fun b => by have := hnone b; omega
        omega
      · rintro ⟨b, hb⟩
        have := (modeByte_le_iff data (modeByte data).2).1 (Nat.le_refl _) b
        omega
  · have hmod : (data.length + 2 ^ 64 - 4) % 2 ^ 64 = data.length + (2 ^ 64 - 4) := by omega
    have hmode : (modeByte data).2 ≤ data.length :=
      (modeByte_le_iff data data.length).2 fun b => List.count_le_length
    rw [hmod]
    exact iff_of_false (by omega) fun h => hlen h.1

/-! ## The advice -/

/-- `minimem_same_page_compress` stores the data wherever there is room for its five bytes. -/
def SamePageStores (data : List UInt8) : Prop :=
  ∀ (dst : List UInt8) (dstCap : Nat), 5 ≤ dstCap → dstCap ≤ dst.length →
    ∃ c, minimemSamePageCompress data dst dstCap = .ok c ∧ c.out ≠ 0

/-- Data that is advised to be stored as one byte can be. -/
def SamePageAdviceSound (data : List UInt8) : Prop :=
  ∀ stats, minimemAnalyzePage data = some stats → minimemAdviseAlgorithm stats = 0 →
    SamePageStores data

/-- Fewer than 250/256 of the bytes are zero and, of four bytes or more, more than four differ
from any one value. -/
def FarFromOneByte (data : List UInt8) : Prop :=
  data.count 0 * 256 % 2 ^ 64 / data.length < 250 ∧
    (data.length < 4 ∨ ∀ b, data.count b + 4 < data.length)

/-- The compressor stores one repeated byte. -/
theorem samePageStores_iff {data : List UInt8} (hne : data ≠ []) :
    SamePageStores data ↔ ∃ b, ∀ d ∈ data, d = b := by
  have hcan : minimemSamePageCanCompress data = true ↔ ∃ b, ∀ d ∈ data, d = b := by
    rw [minimemSamePageCanCompress_iff]
    constructor
    · rintro ⟨b, hb, -⟩
      refine ⟨b, fun d hd => ?_⟩
      rw [hb] at hd
      exact List.eq_of_mem_replicate hd
    · rintro ⟨b, hb⟩
      exact ⟨b, List.eq_replicate_iff.2 ⟨rfl, hb⟩, by simpa using hne⟩
  rw [← hcan]
  constructor
  · intro h
    obtain ⟨c, hc, -⟩ := h (List.replicate 5 0) 5 (Nat.le_refl 5) (by simp)
    rw [minimemSamePageCompress_eq data (by simp)] at hc
    by_contra hnot
    rw [if_neg fun h => hnot h.1] at hc
    cases hc
  · intro h dst dstCap hroom hcap
    rw [minimemSamePageCompress_eq data hcap, if_pos ⟨h, hroom⟩]
    exact ⟨_, rfl, Nat.succ_ne_zero 4⟩

/-- When the advisor says to store one byte. -/
theorem adviseAlgorithm_eq_samePage_iff {data : List UInt8} {stats : PageStats}
    (hsize : data.length < 2 ^ 64) (hstats : minimemAnalyzePage data = some stats) :
    minimemAdviseAlgorithm stats = 0 ↔ ¬FarFromOneByte data := by
  unfold minimemAnalyzePage at hstats
  split at hstats
  · cases hstats
  injection hstats with hstats
  subst hstats
  have hmode := modeByte_ge_iff hsize
  unfold minimemAdviseAlgorithm FarFromOneByte
  dsimp only
  by_cases hfrac : data.count 0 * 256 % 2 ^ 64 / data.length ≥ 250
  · rw [if_pos hfrac]
    exact iff_of_true rfl fun h => absurd h.1 (by omega)
  rw [if_neg hfrac]
  by_cases hcount : (modeByte data).2 ≥ (data.length + 2 ^ 64 - 4) % 2 ^ 64
  · rw [if_pos hcount]
    obtain ⟨hlen, b, hb⟩ := hmode.1 hcount
    refine iff_of_true rfl fun h => ?_
    obtain hshort | hall := h.2
    · omega
    · exact absurd (hall b) (by omega)
  · rw [if_neg hcount]
    refine iff_of_false ?_ (not_not_intro ⟨by omega, ?_⟩)
    · split_ifs <;> decide
    · by_contra hnot
      simp only [not_or, Nat.not_lt, not_forall] at hnot
      exact hcount (hmode.2 hnot)

/-- **Advice**: the advice to store one byte can be followed exactly when the data is one
repeated byte, or far enough from one that the advice is not given. -/
theorem samePageAdviceSound_iff {data : List UInt8} (hne : data ≠ [])
    (hsize : data.length < 2 ^ 64) :
    SamePageAdviceSound data ↔ (∃ b, ∀ d ∈ data, d = b) ∨ FarFromOneByte data := by
  rw [← samePageStores_iff hne]
  obtain ⟨stats, hstats⟩ : ∃ stats, minimemAnalyzePage data = some stats := by
    rw [minimemAnalyzePage, if_neg (by simpa using hne)]
    exact ⟨_, rfl⟩
  have hadvise := adviseAlgorithm_eq_samePage_iff hsize hstats
  constructor
  · intro h
    by_cases hfar : FarFromOneByte data
    · exact .inr hfar
    · exact .inl (h stats hstats (hadvise.2 hfar))
  · rintro (hstores | hfar) stats' hstats' hsame
    · exact hstores
    · rw [hstats] at hstats'
      injection hstats' with hstats'
      subst hstats'
      exact absurd hfar (hadvise.1 hsame)

/-- Zeros are advised to be stored as one byte, and are. -/
theorem samePageAdviceSound_zeros : SamePageAdviceSound (List.replicate 64 0) :=
  (@samePageAdviceSound_iff (List.replicate 64 0) (by decide) (by decide)).2
    (.inl ⟨0, fun _ hd => List.eq_of_mem_replicate hd⟩)

/-- Eight bytes of which one is not zero. -/
def sevenZeros : List UInt8 := [0, 0, 0, 0, 0, 0, 0, 1]

/-- One byte that differs does not change the advice. -/
theorem not_samePageAdviceSound_sevenZeros :
    ¬∀ data : List UInt8, data ≠ [] → SamePageAdviceSound data := by
  intro h
  obtain ⟨stats, hstats, hsame⟩ :
      ∃ stats, minimemAnalyzePage sevenZeros = some stats ∧ minimemAdviseAlgorithm stats = 0 :=
    ⟨_, rfl, by decide +kernel⟩
  obtain ⟨b, hb⟩ := (samePageStores_iff (by decide)).1 (h sevenZeros (by decide) stats hstats hsame)
  have hzero : (0 : UInt8) = 1 := (hb 0 (by decide)).trans (hb 1 (by decide)).symm
  exact absurd hzero (by decide)

end MiniMem
