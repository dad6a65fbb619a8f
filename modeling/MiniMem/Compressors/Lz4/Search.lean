import MiniMem.Compressors.Lz4.Encode
import MiniMem.Lz4Block
import Mathlib.Data.LawfulXor.Basic

/-!
# MiniMem.Compressors.Lz4.Search

The matches that the LZ4 encoder finds.  `LZ4_count` is the longest match up
to its limit, although it compares words (`lz4Count_longestAt`).  The search,
the catch-up and the test of the next position stay within the source and the
hash table, and find a match that begins at most 65535 bytes before the
position it is found for (`Lz4Match`), as long as the table holds positions
before the one it is asked for (`TableBelow`).
-/

namespace MiniMem

/-! ## Words -/

theorem ctzll_lt (fuel : Nat) {k n : Nat} (h : n % 2 ^ k ≠ 0) (hfuel : k ≤ fuel) : ctzll fuel n < k := by
  induction k generalizing fuel n with
  | zero => simp [Nat.mod_one] at h
  | succ k ih =>
      cases fuel with
      | zero => omega
      | succ fuel =>
          rw [ctzll]
          by_cases hodd : n % 2 = 1
          · rw [if_pos hodd]
            omega
          · have hhalf : n / 2 % 2 ^ k ≠ 0 := by
              intro hzero
              rw [Nat.pow_succ, Nat.mul_comm, Nat.mod_mul, hzero] at h
              omega
            have hrest := ih fuel hhalf (show k ≤ fuel by omega)
            rw [if_neg hodd]
            omega

theorem ctzll_mul_256 (fuel n : Nat) : ctzll (fuel + 8) (256 * n) = ctzll fuel n + 8 := by
  have hstep : ∀ fuel m, ctzll (fuel + 1) (2 * m) = ctzll fuel m + 1 := by
    intro fuel m
    rw [ctzll, if_neg (by omega), Nat.mul_div_cancel_left m (by omega)]
  rw [show 256 * n = 2 * (2 * (2 * (2 * (2 * (2 * (2 * (2 * n))))))) by omega]
  simp only [hstep]

/-- The low byte of an exclusive or of words, and the others. -/
theorem xor_leNat_cons (x y : UInt8) (a b : List UInt8) :
    (leNat (x :: a) ^^^ leNat (y :: b)) % 256 = x.toNat ^^^ y.toNat ∧
      (leNat (x :: a) ^^^ leNat (y :: b)) / 256 = leNat a ^^^ leNat b := by
  have hx : x.toNat < 256 := x.toNat_lt
  have hy : y.toNat < 256 := y.toNat_lt
  have hmod := Nat.xor_mod_two_pow (a := leNat (x :: a)) (b := leNat (y :: b)) (n := 8)
  have hdiv := Nat.xor_div_two_pow (a := leNat (x :: a)) (b := leNat (y :: b)) (n := 8)
  simp only [leNat, show 2 ^ 8 = 256 by rfl] at hmod hdiv ⊢
  rw [hmod, hdiv]
  constructor
  · rw [show (x.toNat + 256 * leNat a) % 256 = x.toNat by omega,
      show (y.toNat + 256 * leNat b) % 256 = y.toNat by omega]
  · rw [show (x.toNat + 256 * leNat a) / 256 = leNat a by omega,
      show (y.toNat + 256 * leNat b) / 256 = leNat b by omega]

/-- The first byte that differs, counted in the bits of an exclusive or. -/
theorem ctzll_xor_leNat (fuel : Nat) {a b : List UInt8} (hlen : a.length = b.length) (hne : a ≠ b)
    (hfuel : 8 * a.length ≤ fuel) :
    ∃ k, ctzll fuel (leNat a ^^^ leNat b) / 8 = k ∧ k < a.length ∧ a.take k = b.take k ∧
      a.getD k default ≠ b.getD k default := by
  induction a generalizing b fuel with
  | nil =>
      cases b with
      | nil => exact absurd rfl hne
      | cons y b => simp at hlen
  | cons x a ih =>
      cases b with
      | nil => simp at hlen
      | cons y b =>
          simp only [List.length_cons, Nat.add_right_cancel_iff] at hlen
          obtain ⟨fuel, rfl⟩ : ∃ f, fuel = f + 8 := ⟨fuel - 8, by simp at hfuel; omega⟩
          obtain ⟨hlow, hhigh⟩ := xor_leNat_cons x y a b
          by_cases hxy : x = y
          · subst hxy
            rw [Nat.xor_self] at hlow
            have hword : leNat (x :: a) ^^^ leNat (x :: b) = 256 * (leNat a ^^^ leNat b) := by omega
            obtain ⟨k, hk, hlt, htake, hdiff⟩ := ih fuel hlen (by simpa using hne)
              (show 8 * a.length ≤ fuel by simp at hfuel; omega)
            refine ⟨k + 1, ?_, by simpa using hlt, by simpa using htake, by simpa using hdiff⟩
            rw [hword, ctzll_mul_256, ← hk]
            omega
          · have hlow' : (leNat (x :: a) ^^^ leNat (y :: b)) % 2 ^ 8 ≠ 0 := by
              rw [show 2 ^ 8 = 256 by rfl, hlow]
              intro hzero
              exact hxy (UInt8.toNat_inj.1 (xor_eq_zero_iff.1 hzero))
            have hlt := ctzll_lt (fuel + 8) hlow' (by omega)
            exact ⟨0, by omega, by simp, rfl, by simpa using hxy⟩

/-- Words are equal where their bytes are. -/
theorem leNat_inj {a b : List UInt8} (hlen : a.length = b.length) : leNat a = leNat b ↔ a = b := by
  refine ⟨fun h => ?_, fun h => by rw [h]⟩
  rw [← leBytes_leNat a rfl, ← leBytes_leNat b rfl, h, hlen]

/-! ## LZ4_count -/

section Count

variable {src : List UInt8} {p q limit n c : Nat}

theorem lz4Same_ok (src : List UInt8) {p q n : Nat} (hp : p + n ≤ src.length) (hq : q + n ≤ src.length) :
    ∃ same, lz4Same src n p q = .ok same ∧ (same = true ↔ SameAt src p q n) := by
  refine ⟨_, by rw [lz4Same, readAt_ok hp, readAt_ok hq]; rfl, ?_⟩
  rw [decide_eq_true_iff, leNat_inj (by simp; omega), take_drop_eq_iff hp hq]

/-- A comparison of `n` bytes, against the longest match. -/
theorem lz4Same_longestAt (h : LongestAt src p q limit c) (hpq : p ≤ q) (hlimit : limit ≤ src.length)
    (hn : q + n ≤ limit) : lz4Same src n p q = .ok (decide (n ≤ c)) := by
  obtain ⟨same, hsame, hiff⟩ := lz4Same_ok src (p := p) (q := q) (n := n) (by omega) (by omega)
  rw [hsame]
  congr 1
  rw [Bool.eq_iff_iff, hiff, decide_eq_true_iff, h.sameAt_iff hn]

/-- A comparison of words, against the longest match. -/
theorem lz4Diff_longestAt (h : LongestAt src p q limit c) (hpq : p ≤ q) (hlimit : limit ≤ src.length)
    (hn : q + 8 ≤ limit) :
    ∃ diff, lz4Diff src p q = .ok diff ∧ (diff = 0 ↔ 8 ≤ c) ∧
      (diff ≠ 0 → lz4NbCommonBytes diff = c) := by
  have hp₈ : p + 8 ≤ src.length := by omega
  have hq₈ : q + 8 ≤ src.length := by omega
  have hlen : ∀ r, r + 8 ≤ src.length → ((src.drop r).take 8).length = 8 := by
    intro r hr
    simp
    omega
  have hzero : leNat ((src.drop p).take 8) ^^^ leNat ((src.drop q).take 8) = 0 ↔ 8 ≤ c := by
    rw [xor_eq_zero_iff, leNat_inj (by rw [hlen p hp₈, hlen q hq₈]), take_drop_eq_iff hp₈ hq₈,
      h.sameAt_iff hn]
  refine ⟨_, by rw [lz4Diff, readAt_ok hp₈, readAt_ok hq₈]; rfl, hzero, fun hne => ?_⟩
  obtain ⟨k, hk, hlt, htake, hdiff⟩ := ctzll_xor_leNat 64 (a := (src.drop p).take 8)
    (b := (src.drop q).take 8) (by rw [hlen p hp₈, hlen q hq₈])
    (fun heq => hne (by rw [heq, Nat.xor_self])) (by rw [hlen p hp₈])
  rw [hlen p hp₈] at hlt
  rw [List.take_take, List.take_take, Nat.min_eq_left (by omega),
    take_drop_eq_iff (by omega) (by omega)] at htake
  have hat : ∀ r, ((src.drop r).take 8).getD k default = src.getD (r + k) default := by
    intro r
    rw [List.getD_eq_getElem?_getD, List.getElem?_take_of_lt hlt, List.getElem?_drop,
      List.getD_eq_getElem?_getD]
  rw [hat, hat] at hdiff
  have hle := (h.sameAt_iff (by omega)).1 htake
  rw [lz4NbCommonBytes, Nat.shiftRight_eq_div_pow, show 2 ^ 3 = 8 by rfl, hk]
  by_contra hne'
  exact hdiff (h.same k (by omega))

/-- A comparison of `n` bytes takes them off the longest match, or finds it shorter. -/
theorem lz4CountBytes_longestAt (h : LongestAt src p q limit c) (hpq : p ≤ q)
    (hlimit : limit ≤ src.length) (hn : 0 < n) :
    ∃ m, lz4CountBytes src n limit q p = .ok (q + m, p + m) ∧
      (n ≤ c ∧ m = n ∨ c < n ∧ m = 0) := by
  have hle := h.le
  rw [lz4CountBytes]
  by_cases hroom : q + (n - 1) < limit
  · rw [if_pos hroom, lz4Same_longestAt h hpq hlimit (by omega)]
    by_cases hnc : n ≤ c
    · exact ⟨n, by simp [bind, Except.bind, pure, Except.pure, hnc], .inl ⟨hnc, rfl⟩⟩
    · exact ⟨0, by simp [bind, Except.bind, pure, Except.pure, hnc], .inr ⟨by omega, rfl⟩⟩
  · exact ⟨0, by simp [hroom, pure, Except.pure], .inr ⟨by omega, rfl⟩⟩

/-- The end of `LZ4_count`, with less than a word to compare: four bytes, two and one take what is
left of the longest match. -/
theorem lz4CountTail_longestAt {pStart : Nat} (h : LongestAt src p q limit c) (hpq : p ≤ q)
    (hlimit : limit ≤ src.length) (hfew : limit < q + 8) :
    lz4CountTail src pStart limit q p = .ok (q + c - pStart) := by
  have hle := h.le
  obtain ⟨m₄, hfour, hm₄⟩ := lz4CountBytes_longestAt (n := 4) h hpq hlimit (by omega)
  have h₄ := h.drop (show m₄ ≤ c by omega)
  obtain ⟨m₂, htwo, hm₂⟩ := lz4CountBytes_longestAt (n := 2) h₄ (by omega) hlimit (by omega)
  have h₂ := h₄.drop (show m₂ ≤ c - m₄ by omega)
  obtain ⟨m₁, hone, hm₁⟩ := lz4CountBytes_longestAt (n := 1) h₂ (by omega) hlimit (by omega)
  simp only [lz4CountTail, bind, Except.bind, pure, Except.pure, hfour, htwo, hone]
  congr 1
  omega

theorem lz4CountLoop_longestAt {pStart fuel : Nat} (h : LongestAt src p q limit c) (hpq : p ≤ q)
    (hlimit : limit ≤ src.length) (hfuel : limit - q < fuel) :
    lz4CountLoop src pStart limit fuel q p = .ok (q + c - pStart) := by
  induction fuel generalizing p q c with
  | zero => omega
  | succ fuel ih =>
      rw [lz4CountLoop]
      by_cases hword : q + 7 < limit
      · obtain ⟨diff, hdiff, hzero, hcount⟩ := lz4Diff_longestAt h hpq hlimit (by omega)
        rw [if_pos hword, hdiff]
        simp only [bind, Except.bind, pure, Except.pure]
        by_cases h₈ : 8 ≤ c
        · rw [if_pos (hzero.2 h₈), ih (h.drop h₈) (by omega) (by omega),
            show q + 8 + (c - 8) = q + c by omega]
        · have hne : diff ≠ 0 := fun heq => h₈ (hzero.1 heq)
          rw [if_neg hne, hcount hne]
      · rw [if_neg hword]
        exact lz4CountTail_longestAt h hpq hlimit (by omega)

/-- **`LZ4_count`** is the longest match up to its limit. -/
theorem lz4Count_longestAt (h : LongestAt src p q limit c) (hpq : p ≤ q)
    (hlimit : limit ≤ src.length) : lz4Count src q p limit = .ok c := by
  have hle := h.le
  rw [lz4Count]
  by_cases hword : q + 7 < limit
  · obtain ⟨diff, hdiff, hzero, hcount⟩ := lz4Diff_longestAt h hpq hlimit (by omega)
    rw [if_pos hword, hdiff]
    simp only [bind, Except.bind, pure, Except.pure]
    by_cases h₈ : 8 ≤ c
    · rw [if_pos (hzero.2 h₈), lz4CountLoop_longestAt (h.drop h₈) (by omega) hlimit (by omega),
        show q + 8 + (c - 8) - q = c by omega]
    · have hne : diff ≠ 0 := fun heq => h₈ (hzero.1 heq)
      rw [if_neg hne, hcount hne]
  · rw [if_neg hword, lz4CountLoop_longestAt h hpq hlimit (by omega), Nat.add_sub_cancel_left]

end Count

/-! ## The hash table -/

section Find

variable {src : List UInt8} {tableType : Lz4TableType} {table : Nat → Nat} {h p : Nat}

/-- The table holds positions before `p`. -/
def TableBelow (p : Nat) (table : Nat → Nat) : Prop := ∀ h, table h < p

theorem TableBelow.mono {q : Nat} (ht : TableBelow p table) (hpq : p ≤ q) : TableBelow q table :=
  fun h => Nat.lt_of_lt_of_le (ht h) hpq

theorem lz4Hash_lt (bits : Nat) {x : Nat} (hbits : tableType.hashLog ≤ bits) (hx : x < 2 ^ bits) :
    x >>> (bits - tableType.hashLog) < 2 ^ tableType.hashLog := by
  rw [Nat.shiftRight_eq_div_pow, Nat.div_lt_iff_lt_mul (Nat.two_pow_pos _), ← Nat.pow_add,
    show tableType.hashLog + (bits - tableType.hashLog) = bits by omega]
  exact hx

theorem hashLog_le (tableType : Lz4TableType) : tableType.hashLog ≤ 32 := by cases tableType <;> decide

/-- A position is hashed to an entry of the table. -/
theorem lz4HashPosition_ok (tableType : Lz4TableType) (hp : p + 8 ≤ src.length) :
    ∃ h, lz4HashPosition src p tableType = .ok h ∧ h < 2 ^ tableType.hashLog := by
  have hle := hashLog_le tableType
  cases tableType with
  | byU32 =>
      exact ⟨_, by rw [lz4HashPosition, readAt_ok hp]; rfl,
        lz4Hash_lt 64 (by omega) (Nat.mod_lt _ (by omega))⟩
  | byU16 =>
      exact ⟨_, by rw [lz4HashPosition, readAt_ok (by omega)]; rfl,
        lz4Hash_lt 32 hle (Nat.mod_lt _ (by omega))⟩

theorem lz4GetIndexOnHash_ok (hh : h < 2 ^ tableType.hashLog) :
    lz4GetIndexOnHash h table tableType = .ok (table h) := if_pos hh

/-- A position is put into the table, or what is left of it in an entry. -/
theorem lz4PutIndexOnHash_ok (idx : Nat) (hh : h < 2 ^ tableType.hashLog) (ht : TableBelow p table)
    (hidx : idx < p) :
    ∃ table', lz4PutIndexOnHash idx h table tableType = .ok table' ∧ TableBelow p table' := by
  refine ⟨_, if_pos hh, fun k => ?_⟩
  by_cases hk : k = h
  · rw [hk, Function.update_self]
    exact Nat.lt_of_le_of_lt (Nat.mod_le _ _) hidx
  · rw [Function.update_of_ne hk]
    exact ht k

/-! ## Finding a match -/

/-- A match of `n` bytes at `ip`, which begins at `match_`. -/
structure Lz4Match (src : List UInt8) (ip match_ n : Nat) : Prop where
  lt : match_ < ip
  near : ip - match_ ≤ 65535
  same : SameAt src match_ ip n

/-- A match that is not ignored is near. -/
theorem near_of_lz4TooFar {matchIndex current : Nat}
    (h : lz4TooFar tableType matchIndex current = false)
    (hsize : tableType = .byU16 → current ≤ 65535) : current - matchIndex ≤ 65535 := by
  rw [lz4TooFar, decide_eq_false_iff_not] at h
  by_cases h16 : tableType = .byU16
  · have hle := hsize h16
    omega
  · have hnear : ¬ matchIndex + 65535 < current := fun hlt => h ⟨h16, hlt⟩
    omega

/-- The search finds a match before `mflimitPlusOne`, if it finds one. -/
theorem lz4Search_ok {mflimitPlusOne fuel forwardIp step searchMatchNb forwardH : Nat}
    (hroom : mflimitPlusOne + 8 ≤ src.length) (hsize : tableType = .byU16 → mflimitPlusOne ≤ 65536)
    (ht : TableBelow forwardIp table) (hH : forwardH < 2 ^ tableType.hashLog) (hstep : 0 < step)
    (hnb : 64 ≤ searchMatchNb) (hfuel : mflimitPlusOne - forwardIp < fuel) :
    lz4Search src tableType mflimitPlusOne fuel table forwardIp step searchMatchNb forwardH =
        .ok none ∨
      ∃ table' ip match_,
        lz4Search src tableType mflimitPlusOne fuel table forwardIp step searchMatchNb forwardH =
          .ok (some (table', ip, match_)) ∧
        forwardIp ≤ ip ∧ ip < mflimitPlusOne ∧ TableBelow (ip + 1) table' ∧
        Lz4Match src ip match_ 4 := by
  induction fuel generalizing table forwardIp step searchMatchNb forwardH with
  | zero => omega
  | succ fuel ih =>
      have hlt := ht forwardH
      rw [lz4Search, lz4GetIndexOnHash_ok hH]
      simp only [bind, Except.bind, pure, Except.pure]
      by_cases hend : forwardIp + step > mflimitPlusOne
      · exact .inl (by rw [if_pos hend])
      rw [if_neg hend]
      obtain ⟨h', hhash, hh'⟩ := lz4HashPosition_ok tableType
        (show forwardIp + step + 8 ≤ src.length by omega)
      obtain ⟨table', hput, ht'⟩ := lz4PutIndexOnHash_ok forwardIp hH
        (ht.mono (Nat.le_succ forwardIp)) (by omega)
      simp only [hhash, hput]
      have hnb' : 0 < searchMatchNb >>> 6 := by
        rw [Nat.shiftRight_eq_div_pow]
        omega
      have hrest := @ih table' (forwardIp + step) (searchMatchNb >>> 6) (searchMatchNb + 1) h'
        (ht'.mono (by omega)) hh' hnb' (by omega) (by omega)
      have hgo : lz4Search src tableType mflimitPlusOne fuel table' (forwardIp + step)
            (searchMatchNb >>> 6) (searchMatchNb + 1) h' = .ok none ∨
          ∃ table'' ip match_, lz4Search src tableType mflimitPlusOne fuel table' (forwardIp + step)
              (searchMatchNb >>> 6) (searchMatchNb + 1) h' = .ok (some (table'', ip, match_)) ∧
            forwardIp ≤ ip ∧ ip < mflimitPlusOne ∧ TableBelow (ip + 1) table'' ∧
            Lz4Match src ip match_ 4 := by
        refine hrest.imp_right fun ⟨table'', ip, match_, hfound, hle, hrest⟩ => ?_
        exact ⟨table'', ip, match_, hfound, by omega, hrest⟩
      cases hfar : lz4TooFar tableType (table forwardH) forwardIp with
      | true => exact hgo
      | false =>
          obtain ⟨same, hsame, hiff⟩ := lz4Same_ok src (p := table forwardH)
            (q := forwardIp) (n := 4) (by omega) (by omega)
          have hnear := near_of_lz4TooFar hfar (fun h16 => by have := hsize h16; omega)
          simp only [hsame]
          cases same with
          | true =>
              exact .inr ⟨table', forwardIp, table forwardH, rfl, le_rfl, by omega, ht', hlt, hnear,
                hiff.1 rfl⟩
          | false => exact hgo

/-- A match goes on one byte before it. -/
theorem SameAt.back {match_ ip n : Nat} (hm : 0 < match_) (hip : 0 < ip)
    (h₁ : SameAt src (match_ - 1) (ip - 1) 1) (h : SameAt src match_ ip n) :
    SameAt src (match_ - 1) (ip - 1) (1 + n) := by
  refine h₁.add ?_
  rwa [show match_ - 1 + 1 = match_ by omega, show ip - 1 + 1 = ip by omega]

/-- The loop of the catch-up extends a match backwards, by a byte at least. -/
theorem lz4CatchUpLoop_ok {anchor fuel ip match_ n : Nat} (hanchor : anchor < ip) (hm : 0 < match_)
    (h₁ : SameAt src (match_ - 1) (ip - 1) 1) (h : Lz4Match src ip match_ n)
    (hsrc : ip ≤ src.length) (hfuel : match_ ≤ fuel) :
    ∃ b, lz4CatchUpLoop src anchor fuel ip match_ = .ok (ip - b, match_ - b) ∧ b ≤ match_ ∧
      anchor + b ≤ ip ∧ Lz4Match src (ip - b) (match_ - b) (b + n) := by
  induction fuel generalizing ip match_ n with
  | zero => omega
  | succ fuel ih =>
      obtain ⟨hlt, hnear, hsame⟩ := h
      have hmatch : Lz4Match src (ip - 1) (match_ - 1) (1 + n) :=
        ⟨by omega, by omega, SameAt.back hm (by omega) h₁ hsame⟩
      rw [lz4CatchUpLoop]
      by_cases hmore : ip - 1 > anchor ∧ match_ - 1 > 0
      · obtain ⟨same, hread, hiff⟩ := lz4Same_ok src (p := ip - 1 - 1)
          (q := match_ - 1 - 1) (n := 1) (by omega) (by omega)
        rw [if_pos hmore, hread]
        simp only [bind, Except.bind]
        cases same with
        | true =>
            have hback : SameAt src (match_ - 1 - 1) (ip - 1 - 1) 1 :=
              fun k hk => (hiff.1 rfl k hk).symm
            obtain ⟨b, hloop, hb, hle, hrest⟩ := ih hmore.1 hmore.2 hback hmatch (by omega)
              (by omega)
            refine ⟨1 + b, ?_, by omega, by omega, ?_⟩
            · rw [if_pos rfl, hloop, Nat.sub_sub, Nat.sub_sub]
            · rwa [← Nat.sub_sub, ← Nat.sub_sub, show 1 + b + n = b + (1 + n) by omega]
        | false => exact ⟨1, rfl, by omega, by omega, hmatch⟩
      · rw [if_neg hmore]
        exact ⟨1, rfl, by omega, by omega, hmatch⟩

/-- The catch-up extends a match backwards, down to the anchor at most. -/
theorem lz4CatchUp_ok {anchor ip match_ n : Nat} (hanchor : anchor < ip) (h : Lz4Match src ip match_ n)
    (hsrc : ip ≤ src.length) :
    ∃ b, lz4CatchUp src anchor ip match_ = .ok (ip - b, match_ - b) ∧ b ≤ match_ ∧
      anchor + b ≤ ip ∧ Lz4Match src (ip - b) (match_ - b) (b + n) := by
  have hstay : Lz4Match src (ip - 0) (match_ - 0) (0 + n) := by simpa using h
  rw [lz4CatchUp]
  by_cases hm : match_ > 0
  · have hlt := h.lt
    obtain ⟨same, hread, hiff⟩ := lz4Same_ok src (p := ip - 1) (q := match_ - 1) (n := 1)
      (by omega) (by omega)
    rw [if_pos hm, hread]
    simp only [bind, Except.bind]
    cases same with
    | true =>
        have hback : SameAt src (match_ - 1) (ip - 1) 1 := fun k hk => (hiff.1 rfl k hk).symm
        exact lz4CatchUpLoop_ok hanchor hm hback h hsrc (by omega)
    | false => exact ⟨0, rfl, by omega, by omega, hstay⟩
  · rw [if_neg hm]
    exact ⟨0, rfl, by omega, by omega, hstay⟩

/-- The test of the next position finds a match there, or leaves a hash to go on from. -/
theorem lz4NextPosition_ok {mflimitPlusOne ip : Nat} (hroom : mflimitPlusOne + 8 ≤ src.length)
    (hsize : tableType = .byU16 → mflimitPlusOne ≤ 65536) (ht : TableBelow ip table) (hip : 2 ≤ ip)
    (hend : ip < mflimitPlusOne) :
    ∃ table' next, lz4NextPosition src tableType table ip = .ok (table', next) ∧
      TableBelow (ip + 1) table' ∧
      (∀ match_, next = .inl match_ → Lz4Match src ip match_ 4) ∧
      ∀ forwardH, next = .inr forwardH → forwardH < 2 ^ tableType.hashLog := by
  obtain ⟨h₁, hhash₁, hlt₁⟩ := lz4HashPosition_ok tableType
    (show ip - 2 + 8 ≤ src.length by omega)
  obtain ⟨table₁, hput₁, ht₁⟩ := lz4PutIndexOnHash_ok (ip - 2) hlt₁ ht (by omega)
  obtain ⟨h₂, hhash₂, hlt₂⟩ := lz4HashPosition_ok tableType
    (show ip + 8 ≤ src.length by omega)
  obtain ⟨table₂, hput₂, ht₂⟩ := lz4PutIndexOnHash_ok ip hlt₂ (ht₁.mono (Nat.le_succ ip))
    (by omega)
  obtain ⟨h₃, hhash₃, hlt₃⟩ := lz4HashPosition_ok tableType
    (show ip + 1 + 8 ≤ src.length by omega)
  have hlt := ht₁ h₂
  rw [lz4NextPosition, hhash₁]
  simp only [bind, Except.bind, pure, Except.pure, hput₁, hhash₂, lz4GetIndexOnHash_ok hlt₂, hput₂,
    hhash₃]
  cases hfar : lz4TooFar tableType (table₁ h₂) ip with
  | true => exact ⟨table₂, .inr h₃, rfl, ht₂, by simp, by simpa using hlt₃⟩
  | false =>
      obtain ⟨same, hsame, hiff⟩ := lz4Same_ok src (p := table₁ h₂) (q := ip) (n := 4)
        (by omega) (by omega)
      have hnear := near_of_lz4TooFar hfar (fun h16 => by have := hsize h16; omega)
      simp only [hsame]
      cases same with
      | true =>
          refine ⟨table₂, .inl (table₁ h₂), rfl, ht₂, fun match_ hmatch => ?_, by simp⟩
          obtain rfl := Sum.inl.inj hmatch
          exact ⟨hlt, hnear, hiff.1 rfl⟩
      | false => exact ⟨table₂, .inr h₃, rfl, ht₂, by simp, by simpa using hlt₃⟩

end Find

end MiniMem
