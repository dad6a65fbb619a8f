import MiniMem.Compressors.Blocks

/-!
# MiniMem.Compressors.TypeTables

The tables of block types, with three bits for a type.  Two of eight types
lie across two bytes:

```
byte₀  =  t₀ ++ t₁ ++ low2 t₂
byte₁  =  high1 t₂ ++ t₃ ++ t₄ ++ low1 t₅
byte₂  =  high2 t₅ ++ t₆ ++ t₇
```

A table of `n` types takes the bytes up to its last bit and no others, and
each type is read from the bytes that hold its bits.
-/

namespace MiniMem

/-- `pack_bt`. -/
def packBt (types : List Nat) (c : OutCursor) : Except Stop OutCursor := packTypes types c

/-- `unpack_bt`. -/
def unpackBt (packed : List UInt8) (base index : Nat) : Except Stop Nat :=
  unpackType packed base index

/-- `area` is the table of the types: `pack` puts it in the place of as many other bytes, and
`unpack` reads the types from it.  There may be nothing in front of the table or behind it. -/
structure TypeTable (pack : List Nat → OutCursor → Except Stop OutCursor)
    (unpack : List UInt8 → Nat → Nat → Except Stop Nat) (types : List Nat) (area : List UInt8) :
    Prop where
  length : area.length = (3 * types.length + 7) / 8
  pack : ∀ pre old post, old.length = area.length →
    pack types ⟨pre ++ (old ++ post), pre.length⟩ = .ok ⟨pre ++ (area ++ post), pre.length⟩
  unpack : ∀ pre post i (hi : i < types.length),
    unpack (pre ++ (area ++ post)) pre.length i = .ok types[i]

theorem typeTable_fieldBytes {types : List Nat} (h : ∀ t ∈ types, t < 8) :
    TypeTable packTypes unpackType types (fieldBytes 3 types) where
  length := length_fieldBytes 3 types
  pack pre old post hold := packTypes_mid h pre post hold
  unpack pre post i hi := by
    rw [unpackType, Nat.mul_comm i]
    exact readField_fieldBytes (by decide) (by decide) h pre post hi

/-- **Type tables**: types below 8 are read back from their table by both pairs of routines,
which touch the bytes of the table only. -/
theorem typeTable_roundtrip {types : List Nat} (h : ∀ t ∈ types, t < 8) :
    ∃ area, TypeTable packTypes unpackType types area ∧ TypeTable packBt unpackBt types area := by
  have htable := typeTable_fieldBytes h
  exact ⟨fieldBytes 3 types, htable, htable.length, htable.pack, htable.unpack⟩

theorem typeTable_roundtrip_nine :
    ∃ area, TypeTable packTypes unpackType [0, 1, 2, 3, 4, 5, 6, 7, 4] area ∧
      TypeTable packBt unpackBt [0, 1, 2, 3, 4, 5, 6, 7, 4] area :=
  typeTable_roundtrip (by decide)

end MiniMem
