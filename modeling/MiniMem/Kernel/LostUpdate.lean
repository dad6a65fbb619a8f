import MiniMem.Kernel.AddressSpaces

/-!
# MiniMem.Kernel.LostUpdate

`minimem_compress_and_replace_pte` against the user.  The four sections of
the function run one at a time, and between them the user writes the page.
The last section compares the PTE with the one that the first section saw; a
write shows there only in the accessed and dirty bits.
-/

namespace MiniMem

/-! ## The machine -/

/-- Where the replacement stands: after the snapshot, after the page was compressed, after
it was stored, or at its end.  `installed` keeps what the page held when the marker went in. -/
inductive ReplacePc where
  | start
  | snapshotted (oldPte : Pte) (pfn : Nat)
  | compressed (oldPte : Pte) (pfn : Nat) (algo : AlgoId) (bytes : List UInt8)
  | stored (oldPte : Pte) (pfn handle : Nat)
  | installed (contents : Page)
  | failed (ret : Int)

structure ReplaceState where
  kernel : Kernel
  pc : ReplacePc

/-- A user write to the page, or the next section of the replacement. -/
inductive ReplaceLabel where
  | write (page : Page)
  | next

/-- The next section of `minimem_compress_and_replace_pte`. -/
def replaceNext (codec : Codec) (env : ReplaceEnv) (mm addr : Nat) (k : Kernel) :
    ReplacePc → Option ReplaceState
  | .start =>
      if k.symbolsResolved = false then some ⟨k, .failed eopnotsupp⟩
      else
        match replaceSnapshot env k mm (pageMask addr) with
        | .error ret => some ⟨k, .failed ret⟩
        | .ok (oldPte, pfn, k) => some ⟨k, .snapshotted oldPte pfn⟩
  | .snapshotted oldPte pfn =>
      match compressBuf codec env.toStoreEnv k.minSavingsPct (k.frames.data pfn) with
      | .error ret => some ⟨k.putPage pfn, .failed ret⟩
      | .ok (algo, bytes) => some ⟨k, .compressed oldPte pfn algo bytes⟩
  | .compressed oldPte pfn algo bytes =>
      match storeCompressed k env.toStoreEnv (pageMask addr) algo bytes with
      | (.error ret, k) => some ⟨k.putPage pfn, .failed ret⟩
      | (.ok handle, k) => some ⟨k, .stored oldPte pfn handle⟩
  | .stored oldPte pfn handle =>
      match replaceInstall env k mm (pageMask addr) pfn handle oldPte with
      | (ret, k') =>
          if ret = 0 then some ⟨k', .installed (k.frames.data pfn)⟩ else some ⟨k', .failed ret⟩
  | .installed _ => none
  | .failed _ => none

/-- One step of the user or of the replacement. -/
def replaceStep (codec : Codec) (env : ReplaceEnv) (mm addr : Nat) (s : ReplaceState) :
    ReplaceLabel → Option ReplaceState
  | .write page => some ⟨userWrite s.kernel mm addr page, s.pc⟩
  | .next => replaceNext codec env mm addr s.kernel s.pc

/-- What the replacement returned, once it has. -/
def ReplacePc.ret : ReplacePc → Option Int
  | .installed _ => some 0
  | .failed ret => some ret
  | _ => none

/-- The replacement run to its end without the user. -/
def replaceAlone (codec : Codec) (env : ReplaceEnv) (mm addr : Nat) :
    Nat → ReplaceState → ReplaceState
  | 0, s => s
  | n + 1, s =>
      match replaceNext codec env mm addr s.kernel s.pc with
      | none => s
      | some s => replaceAlone codec env mm addr n s

/-- Four sections in a row are `minimem_compress_and_replace_pte`. -/
theorem replaceAlone_eq (codec : Codec) (env : ReplaceEnv) (mm addr : Nat) (k : Kernel) :
    (replaceAlone codec env mm addr 4 ⟨k, .start⟩).kernel
        = (compressAndReplacePte codec env k mm addr).2 ∧
      (replaceAlone codec env mm addr 4 ⟨k, .start⟩).pc.ret
        = some (compressAndReplacePte codec env k mm addr).1 := by
  unfold compressAndReplacePte
  by_cases hsym : k.symbolsResolved = false
  · simp [replaceAlone, replaceNext, hsym, ReplacePc.ret]
  cases hsnap : replaceSnapshot env k mm (pageMask addr) with
  | error ret => simp [replaceAlone, replaceNext, hsym, hsnap, ReplacePc.ret]
  | ok snap =>
      obtain ⟨oldPte, pfn, k₁⟩ := snap
      cases hbuf : compressBuf codec env.toStoreEnv k₁.minSavingsPct (k₁.frames.data pfn) with
      | error ret => simp [replaceAlone, replaceNext, hsym, hsnap, hbuf, ReplacePc.ret]
      | ok stored =>
          obtain ⟨algo, bytes⟩ := stored
          cases hstored : storeCompressed k₁ env.toStoreEnv (pageMask addr) algo bytes with
          | mk result k₂ =>
              cases result with
              | error ret =>
                  simp [replaceAlone, replaceNext, hsym, hsnap, hbuf, hstored, ReplacePc.ret]
              | ok handle =>
                  cases hinstall : replaceInstall env k₂ mm (pageMask addr) pfn handle oldPte with
                  | mk ret k₃ =>
                      by_cases hret : ret = 0
                      · simp [replaceAlone, replaceNext, hsym, hsnap, hbuf, hstored, hinstall, hret,
                          ReplacePc.ret]
                      · simp [replaceAlone, replaceNext, hsym, hsnap, hbuf, hstored, hinstall, hret,
                          ReplacePc.ret]

/-! ## What a section does -/

section Sections

variable {codec : Codec} {env : ReplaceEnv} {k : Kernel} {mm addr pfn handle : Nat} {oldPte : Pte}
  {r : ReplaceState}

/-- The marker put in place of a page, as the last section does it. -/
def Kernel.markerInstalled (k : Kernel) (mm vaddr pfn : Nat) : Kernel :=
  (((k.setPteAt mm vaddr (minimemPte (vaddrToIndex vaddr))).addAnonPages mm (-1)).putPage
    pfn).faultHandled

theorem pteAt_markerInstalled (k : Kernel) (mm addr pfn mm' vaddr : Nat) :
    (k.markerInstalled mm (pageMask addr) pfn).pteAt mm' vaddr =
      if mm' = mm ∧ vaddrToIndex vaddr = vaddrToIndex addr then
        some (minimemPte (vaddrToIndex addr))
      else k.pteAt mm' vaddr := by
  show ((k.setPteAt mm (pageMask addr) _).addAnonPages mm (-1)).pteAt mm' vaddr = _
  rw [pteAt_addAnonPages, pteAt_setPteAt, vaddrToIndex_pageMask]

/-- The snapshot takes a reference on the page that is mapped. -/
theorem replaceNext_start_cases (h : replaceNext codec env mm addr k .start = some r) :
    (∃ ret, r = ⟨k, .failed ret⟩) ∨
      ∃ pfn write young dirty, k.symbolsResolved = true ∧
        k.pteAt mm addr = some (.present pfn write young dirty) ∧
        r = ⟨k.getPage pfn, .snapshotted (.present pfn write young dirty) pfn⟩ := by
  simp only [replaceNext] at h
  split at h
  · exact .inl ⟨_, (Option.some.inj h).symm⟩
  next hresolved =>
    split at h
    · exact .inl ⟨_, (Option.some.inj h).symm⟩
    next oldPte pfn k₁ hsnap =>
      obtain ⟨rfl, hpte, write, young, dirty, rfl⟩ := replaceSnapshot_ok hsnap
      rw [Kernel.pteAt, vaddrToIndex_pageMask, ← Kernel.pteAt] at hpte
      exact .inr ⟨pfn, write, young, dirty, Bool.of_not_eq_false hresolved, hpte,
        (Option.some.inj h).symm⟩

/-- The compression takes what the page holds. -/
theorem replaceNext_snapshotted_cases
    (h : replaceNext codec env mm addr k (.snapshotted oldPte pfn) = some r) :
    (∃ ret, r = ⟨k.putPage pfn, .failed ret⟩) ∨
      ∃ algo bytes, codec.compress (k.frames.data pfn) = .ok (algo, bytes) ∧
        r = ⟨k, .compressed oldPte pfn algo bytes⟩ := by
  simp only [replaceNext] at h
  split at h
  · exact .inl ⟨_, (Option.some.inj h).symm⟩
  next algo bytes hbuf =>
    exact .inr ⟨algo, bytes, compressBuf_ok hbuf, (Option.some.inj h).symm⟩

/-- The storing adds an entry. -/
theorem replaceNext_compressed_cases {algo : AlgoId} {bytes : List UInt8}
    (h : replaceNext codec env mm addr k (.compressed oldPte pfn algo bytes) = some r) :
    (∃ ret k₁, storeCompressed k env.toStoreEnv (pageMask addr) algo bytes = (.error ret, k₁) ∧
        r = ⟨k₁.putPage pfn, .failed ret⟩) ∨
      r = ⟨k.addEntry (pageMask addr) algo bytes, .stored oldPte pfn k.pool.next⟩ := by
  simp only [replaceNext] at h
  split at h
  next ret k₁ hstored => exact .inl ⟨ret, k₁, hstored, (Option.some.inj h).symm⟩
  next handle k₁ hstored =>
    obtain ⟨rfl, rfl⟩ := storeCompressed_ok hstored
    exact .inr (Option.some.inj h).symm

/-- The last section where nobody has changed the PTE meanwhile: the marker goes in over the PTE
of the snapshot, or the page is taken out of the storage again. -/
theorem replaceInstall_cases (henv : ∀ pte, env.relock ≠ .changed pte) (k : Kernel)
    (mm vaddr pfn handle : Nat) (oldPte : Pte) :
    (k.pteAt mm vaddr = some oldPte ∧
      replaceInstall env k mm vaddr pfn handle oldPte = (0, k.markerInstalled mm vaddr pfn)) ∨
    ∃ ret, ret ≠ 0 ∧ replaceInstall env k mm vaddr pfn handle oldPte
      = (ret, (k.dropEntry vaddr handle).putPage pfn) := by
  unfold replaceInstall
  cases hrelock : env.relock with
  | changed pte => exact absurd hrelock (henv pte)
  | noLock => exact .inr ⟨enoent, by decide, rfl⟩
  | same =>
      rw [Kernel.relock]
      cases hpte : k.pteAt mm vaddr with
      | none => exact .inr ⟨enoent, by decide, rfl⟩
      | some pte =>
          by_cases hsame : pte = oldPte
          · subst hsame
            exact .inl ⟨rfl, if_neg (not_not_intro rfl)⟩
          · exact .inr ⟨eagain, by decide, if_pos hsame⟩

/-- The end of the replacement. -/
theorem replaceNext_stored_cases (henv : ∀ pte, env.relock ≠ .changed pte)
    (h : replaceNext codec env mm addr k (.stored oldPte pfn handle) = some r) :
    (k.pteAt mm addr = some oldPte ∧
        r = ⟨k.markerInstalled mm (pageMask addr) pfn, .installed (k.frames.data pfn)⟩) ∨
      ∃ ret, r = ⟨(k.dropEntry (pageMask addr) handle).putPage pfn, .failed ret⟩ := by
  simp only [replaceNext] at h
  rcases replaceInstall_cases henv k mm (pageMask addr) pfn handle oldPte with
    ⟨hpte, hinstall⟩ | ⟨ret, hret, hinstall⟩
  · rw [hinstall] at h
    rw [Kernel.pteAt, vaddrToIndex_pageMask, ← Kernel.pteAt] at hpte
    exact .inl ⟨hpte, (Option.some.inj h).symm⟩
  · rw [hinstall] at h
    simp only [if_neg hret] at h
    exact .inr ⟨ret, (Option.some.inj h).symm⟩

end Sections

/-! ## What a write changes -/

/-- The PTE maps `pfn` and differs from the one of the snapshot at most by bits set since. -/
def PteGrown (k : Kernel) (mm addr pfn : Nat) (oldPte : Pte) : Prop :=
  ∃ write young dirty young' dirty', oldPte = .present pfn write young dirty ∧
    k.pteAt mm addr = some (.present pfn write young' dirty') ∧
    (young = true → young' = true) ∧ (dirty = true → dirty' = true)

/-- A write sets bits. -/
theorem PteGrown.userWrite {k : Kernel} {mm addr pfn : Nat} {oldPte : Pte}
    (h : PteGrown k mm addr pfn oldPte) (page : Page) :
    PteGrown (userWrite k mm addr page) mm addr pfn oldPte := by
  obtain ⟨write, young, dirty, young', dirty', hold, hpte, hyoung, hdirty⟩ := h
  unfold MiniMem.userWrite
  rw [hpte]
  cases write with
  | true =>
      refine ⟨true, young, dirty, true, true, hold, ?_, fun _ => rfl, fun _ => rfl⟩
      rw [pteAt_setPteAt_self]
  | false => exact ⟨false, young, dirty, young', dirty', hold, hpte, hyoung, hdirty⟩

/-- A write that leaves the PTE as it was at the snapshot found the bits set there, and the
page is lost unless it already held what is written. -/
theorem PteGrown.write_seen {k : Kernel} {mm addr pfn : Nat} {oldPte : Pte}
    (h : PteGrown k mm addr pfn oldPte) {page : Page}
    (hsafe : ∀ write, oldPte = .present pfn write true true → k.pteAt mm addr = some oldPte →
      page = k.frames.data pfn) {decoded : Option Page}
    (hdecoded : k.pteAt mm addr = some oldPte → decoded = some (k.frames.data pfn))
    (hsame : (MiniMem.userWrite k mm addr page).pteAt mm addr = some oldPte) :
    decoded = some ((MiniMem.userWrite k mm addr page).frames.data pfn) := by
  obtain ⟨write, young, dirty, young', dirty', hold, hpte, hyoung, hdirty⟩ := h
  unfold MiniMem.userWrite at hsame ⊢
  rw [hpte] at hsame ⊢
  cases write with
  | true =>
      simp only [pteAt_setPteAt_self, hold, Option.some.injEq, Pte.present.injEq] at hsame
      obtain ⟨-, -, hy, hd⟩ := hsame
      have hbefore : k.pteAt mm addr = some oldPte := by
        rw [hpte, hold, ← hy, ← hd, hyoung hy.symm, hdirty hd.symm]
      have hpage : page = k.frames.data pfn := by
        apply hsafe true _ hbefore
        rw [hold, ← hy, ← hd]
      show decoded = some (Function.update k.frames.data pfn page pfn)
      rw [Function.update_self, hpage, hdecoded hbefore]
  | false => exact hdecoded hsame

/-! ## The invariant -/

/-- As long as the PTE is still the one of the snapshot, what was compressed or stored
decodes to what the page holds; once the marker is in, to what the page held then. -/
def ReplaceInv (codec : Codec) (mm addr : Nat) (s : ReplaceState) : Prop :=
  match s.pc with
  | .start => True
  | .snapshotted oldPte pfn => s.kernel.symbolsResolved = true ∧ PteGrown s.kernel mm addr pfn oldPte
  | .compressed oldPte pfn algo bytes =>
      s.kernel.symbolsResolved = true ∧ PteGrown s.kernel mm addr pfn oldPte ∧
        (s.kernel.pteAt mm addr = some oldPte →
          codec.decompress algo bytes = some (s.kernel.frames.data pfn))
  | .stored oldPte pfn _ =>
      s.kernel.symbolsResolved = true ∧ PteGrown s.kernel mm addr pfn oldPte ∧
        ∃ entry, mapLookup s.kernel.map addr = some entry ∧
          (s.kernel.pteAt mm addr = some oldPte →
            s.kernel.decode codec entry = some (s.kernel.frames.data pfn))
  | .installed contents =>
      s.kernel.symbolsResolved = true ∧
        s.kernel.pteAt mm addr = some (minimemPte (vaddrToIndex addr)) ∧
        ∃ entry, mapLookup s.kernel.map addr = some entry ∧
          s.kernel.decode codec entry = some contents
  | .failed _ => True

/-- A write after the compression that changes the page finds a PTE whose accessed and dirty
bits were not both set at the snapshot, or that has changed since. -/
def WriteSeen (mm addr : Nat) (s : ReplaceState) : ReplaceLabel → Prop
  | .next => True
  | .write page =>
      match s.pc with
      | .compressed oldPte pfn _ _ => ∀ write, oldPte = .present pfn write true true →
          s.kernel.pteAt mm addr = some oldPte → page = s.kernel.frames.data pfn
      | .stored oldPte pfn _ => ∀ write, oldPte = .present pfn write true true →
          s.kernel.pteAt mm addr = some oldPte → page = s.kernel.frames.data pfn
      | _ => True

/-- The page that goes to the compressor is one that BDI keeps. -/
def CompressesSafe (s : ReplaceState) : ReplaceLabel → Prop
  | .write _ => True
  | .next =>
      match s.pc with
      | .snapshotted _ pfn => (s.kernel.frames.data pfn).BdiSafe
      | _ => True

theorem userWrite_storage (k : Kernel) (mm vaddr : Nat) (page : Page) :
    (userWrite k mm vaddr page).map = k.map ∧ (userWrite k mm vaddr page).pool = k.pool ∧
      (userWrite k mm vaddr page).symbolsResolved = k.symbolsResolved := by
  unfold userWrite
  split
  · exact ⟨rfl, rfl, rfl⟩
  · exact ⟨rfl, rfl, rfl⟩

/-- A write keeps the invariant. -/
theorem ReplaceInv.write {codec : Codec} {mm addr : Nat} {s : ReplaceState} {page : Page}
    (h : ReplaceInv codec mm addr s) (hseen : WriteSeen mm addr s (.write page)) :
    ReplaceInv codec mm addr ⟨userWrite s.kernel mm addr page, s.pc⟩ := by
  obtain ⟨k, pc⟩ := s
  obtain ⟨hmap, hpool, hsym⟩ := userWrite_storage k mm addr page
  cases pc with
  | start => trivial
  | failed ret => trivial
  | snapshotted oldPte pfn =>
      obtain ⟨hresolved, hgrown⟩ := h
      exact ⟨hsym.trans hresolved, hgrown.userWrite page⟩
  | compressed oldPte pfn algo bytes =>
      obtain ⟨hresolved, hgrown, hdecoded⟩ := h
      exact ⟨hsym.trans hresolved, hgrown.userWrite page, hgrown.write_seen hseen hdecoded⟩
  | stored oldPte pfn handle =>
      obtain ⟨hresolved, hgrown, entry, hlookup, hdecoded⟩ := h
      refine ⟨hsym.trans hresolved, hgrown.userWrite page, entry, ?_, ?_⟩
      · show mapLookup (userWrite k mm addr page).map addr = some entry
        rw [hmap, hlookup]
      · intro hsame
        rw [decode_congr (k := k) (by rw [hpool])]
        exact hgrown.write_seen hseen hdecoded hsame
  | installed contents =>
      have hidle : userWrite k mm addr page = k := by
        obtain ⟨-, hpte, -⟩ := h
        unfold userWrite
        rw [hpte]
        rfl
      rw [hidle]
      exact h

/-- A section of the replacement keeps the invariant, if nobody but the user touches the
PTE and the codec reads back the page that it compresses. -/
theorem ReplaceInv.next {codec : Codec} {env : ReplaceEnv}
    (henv : ∀ pte, env.relock ≠ .changed pte) {mm addr : Nat} {s s' : ReplaceState}
    (h : ReplaceInv codec mm addr s)
    (hcodec : ∀ oldPte pfn, s.pc = .snapshotted oldPte pfn →
      codec.ReadsBack (s.kernel.frames.data pfn))
    (hstep : replaceNext codec env mm addr s.kernel s.pc = some s') :
    ReplaceInv codec mm addr s' := by
  obtain ⟨k, pc⟩ := s
  cases pc with
  | installed contents => cases hstep
  | failed ret => cases hstep
  | start =>
      rcases replaceNext_start_cases hstep with
        ⟨ret, rfl⟩ | ⟨pfn, write, young, dirty, hresolved, hpte, rfl⟩
      · trivial
      · exact ⟨hresolved, write, young, dirty, young, dirty, rfl, hpte, id, id⟩
  | snapshotted oldPte pfn =>
      obtain ⟨hresolved, hgrown⟩ := h
      rcases replaceNext_snapshotted_cases hstep with ⟨ret, rfl⟩ | ⟨algo, bytes, hcompress, rfl⟩
      · trivial
      · exact ⟨hresolved, hgrown, fun _ => hcodec oldPte pfn rfl _ _ hcompress⟩
  | compressed oldPte pfn algo bytes =>
      obtain ⟨hresolved, hgrown, hdecoded⟩ := h
      rcases replaceNext_compressed_cases hstep with ⟨ret, k₁, -, rfl⟩ | rfl
      · trivial
      refine ⟨hresolved, hgrown, ⟨algo, bytes.length, k.pool.next⟩, ?_, fun hsame => ?_⟩
      · rw [mapLookup, load_addEntry, if_pos (vaddrToIndex_pageMask addr).symm]
      · rw [decode_addEntry]
        exact hdecoded hsame
  | stored oldPte pfn handle =>
      obtain ⟨hresolved, hgrown, entry, hlookup, hdecoded⟩ := h
      rcases replaceNext_stored_cases henv hstep with ⟨hpte, rfl⟩ | ⟨ret, rfl⟩
      · refine ⟨hresolved, ?_, entry, hlookup, hdecoded hpte⟩
        rw [pteAt_markerInstalled, if_pos ⟨rfl, rfl⟩]
      · trivial

/-! ## No lost update -/

/-- In every run in which each write after the compression that changes the page shows in
the PTE, and the page is compressed while BDI keeps it, the marker goes in only over a page
whose stored data decodes to what the page holds at that instant, and a fault on the marker
brings that back. -/
theorem installed_decodes {codecEnv : CodecEnv} (hlz4 : codecEnv.lz4.RoundTrips)
    {env : ReplaceEnv} (henv : ∀ pte, env.relock ≠ .changed pte) {mm addr : Nat} {k : Kernel}
    {labels : List ReplaceLabel} {s : ReplaceState} {contents : Page}
    (hrun : Run (replaceStep (kernelCodec codecEnv) env mm addr)
      (fun s label => WriteSeen mm addr s label ∧ CompressesSafe s label) ⟨k, .start⟩ labels s)
    (hinstalled : s.pc = .installed contents) {vmf : FaultInfo} (hmm : vmf.mm = mm)
    (haddr : vmf.address = addr) (horig : vmf.origPte = minimemPte (vaddrToIndex addr)) :
    (∃ entry, mapLookup s.kernel.map addr = some entry ∧
      s.kernel.decode (kernelCodec codecEnv) entry = some contents) ∧
    (vmFaultHandler (kernelCodec codecEnv) .ok s.kernel vmf).2.pageAt mm addr = some contents ∧
    (stockMarkerFault (kernelCodec codecEnv) .ok s.kernel vmf).2.pageAt mm addr
      = some contents := by
  have hpres : ∀ (s : ReplaceState) (a : ReplaceLabel) (s' : ReplaceState),
      ReplaceInv (kernelCodec codecEnv) mm addr s →
      WriteSeen mm addr s a ∧ CompressesSafe s a →
      replaceStep (kernelCodec codecEnv) env mm addr s a = some s' →
      ReplaceInv (kernelCodec codecEnv) mm addr s' := by
    rintro s a s' h ⟨hseen, hsafe⟩ hstep
    cases a with
    | write page =>
        injection hstep with hstep
        subst hstep
        exact h.write hseen
    | next =>
        apply h.next henv _ hstep
        intro oldPte pfn hpc
        simp only [CompressesSafe, hpc] at hsafe
        exact (kernelCodec_readsBack_iff hlz4 _).2 hsafe
  have hinv := hrun.invariant hpres trivial
  obtain ⟨k', pc⟩ := s
  subst hinstalled hmm haddr
  obtain ⟨hresolved, hpte, entry, hlookup, hdecode⟩ := hinv
  have hmarker : vmf.origPte.isMinimem = true := by
    rw [horig]
    rfl
  rw [← horig] at hpte
  obtain ⟨hvm, hstock⟩ := fault_of_entry hresolved hpte hmarker hlookup hdecode
  rw [hvm, hstock]
  exact ⟨⟨entry, hlookup, hdecode⟩, pageAt_faulted .., pageAt_faulted ..⟩

/-! ## A write before and a write after the compression -/

/-- A page of one byte is compressed to that byte. -/
theorem replaceNext_fill {codec : Codec} {b : UInt8}
    (hfill : codec.compress (Page.fill b) = .ok (.samePage, [b])) {k : Kernel}
    (hpct : k.minSavingsPct = 0) (mm addr : Nat) (oldPte : Pte) {pfn : Nat}
    (hpage : k.frames.data pfn = Page.fill b) :
    replaceNext codec .ok mm addr k (.snapshotted oldPte pfn)
      = some ⟨k, .compressed oldPte pfn .samePage [b]⟩ := by
  have hbuf : compressBuf codec .ok k.minSavingsPct (k.frames.data pfn)
      = .ok (.samePage, [b]) := by
    rw [hpct, hpage, compressBuf_fill hfill]
  simp only [replaceNext, ReplaceEnv.ok, hbuf]

theorem replaceNext_installed (codec : Codec) {k : Kernel} {mm addr : Nat} (pfn handle : Nat)
    {oldPte : Pte} (hpte : k.pteAt mm (pageMask addr) = some oldPte) :
    replaceNext codec .ok mm addr k (.stored oldPte pfn handle)
      = some ⟨k.markerInstalled mm (pageMask addr) pfn, .installed (k.frames.data pfn)⟩ := by
  simp only [replaceNext, replaceInstall, ReplaceEnv.ok, Kernel.relock, hpte]
  rw [if_neg (not_not_intro rfl)]
  rfl

/-- The page of address space 0 in `twoSpaces` after the snapshot. -/
def snapshotTaken : Kernel := twoSpaces.kernel.getPage 0

/-- The same, with the page overwritten. -/
def overwritten : Kernel := userWrite snapshotTaken 0 0x1000 (Page.fill 3)

/-- The same, with the marker in over the entry that a byte was stored for. -/
def overwrittenInstalled (b : UInt8) : Kernel :=
  (overwritten.addEntry 0x1000 .samePage [b]).markerInstalled 0 0x1000 0

/-- A fault on that marker. -/
def overwrittenFault : FaultInfo := ⟨0, ⟨0x1000, 0x2000, true, true, false, false, false, false⟩, 0x1000,
  .marker 1⟩

theorem replaceStep_snapshot :
    replaceStep (kernelCodec .incompressible) .ok 0 0x1000 ⟨twoSpaces.kernel, .start⟩ .next
      = some ⟨snapshotTaken, .snapshotted (.present 0 true true true) 0⟩ := rfl

theorem replaceStep_write (pc : ReplacePc) :
    replaceStep (kernelCodec .incompressible) .ok 0 0x1000 ⟨snapshotTaken, pc⟩
        (.write (Page.fill 3)) = some ⟨overwritten, pc⟩ := rfl

theorem replaceStep_store (b : UInt8) :
    replaceStep (kernelCodec .incompressible) .ok 0 0x1000
        ⟨overwritten, .compressed (.present 0 true true true) 0 .samePage [b]⟩ .next
      = some ⟨overwritten.addEntry 0x1000 .samePage [b], .stored (.present 0 true true true) 0 1⟩ :=
  rfl

theorem replaceStep_install (b : UInt8) :
    replaceStep (kernelCodec .incompressible) .ok 0 0x1000
        ⟨overwritten.addEntry 0x1000 .samePage [b], .stored (.present 0 true true true) 0 1⟩ .next
      = some ⟨overwrittenInstalled b, .installed (Page.fill 3)⟩ := by
  have hpte : (overwritten.addEntry 0x1000 .samePage [b]).pteAt 0 (pageMask 0x1000)
      = some (.present 0 true true true) := rfl
  have hnext := replaceNext_installed (kernelCodec .incompressible) 0 1 hpte
  have hpage : (overwritten.addEntry 0x1000 .samePage [b]).frames.data 0 = Page.fill 3 := rfl
  rw [hpage] at hnext
  exact hnext

/-- The page is overwritten between the snapshot and the compression; the new contents are
stored. -/
theorem installed_decodes_written :
    (stockMarkerFault (kernelCodec .incompressible) .ok (overwrittenInstalled 3)
      overwrittenFault).2.pageAt 0 0x1000 = some (Page.fill 3) := by
  have hpct : overwritten.minSavingsPct = 0 := rfl
  have hpage : overwritten.frames.data 0 = Page.fill 3 := rfl
  have hsafe : (overwritten.frames.data 0).BdiSafe := Page.bdiSafe_fill 3
  have hcompress := replaceNext_fill (kernelCodec_compress_fill .incompressible 3) hpct 0 0x1000
    (.present 0 true true true) hpage
  have hrun : Run (replaceStep (kernelCodec .incompressible) .ok 0 0x1000)
      (fun s label => WriteSeen 0 0x1000 s label ∧ CompressesSafe s label)
      ⟨twoSpaces.kernel, .start⟩ [.next, .write (Page.fill 3), .next, .next, .next]
      ⟨overwrittenInstalled 3, .installed (Page.fill 3)⟩ :=
    .cons replaceStep_snapshot ⟨trivial, trivial⟩ (.cons (replaceStep_write _) ⟨trivial, trivial⟩
      (.cons hcompress ⟨trivial, hsafe⟩ (.cons (replaceStep_store 3) ⟨trivial, trivial⟩
        (.cons (replaceStep_install 3) ⟨trivial, trivial⟩ (.nil _)))))
  have hrelock : ∀ pte, ReplaceEnv.ok.relock ≠ .changed pte := by simp [ReplaceEnv.ok]
  exact (installed_decodes CodecEnv.incompressible_roundTrips hrelock hrun rfl
    (show overwrittenFault.mm = 0 from rfl) rfl rfl).2.2

/-- The page is overwritten between the compression and the store; BDI keeps the page, but
the marker goes in over the old contents and the write is lost. -/
theorem not_installed_decodes_written :
    CodecEnv.incompressible.lz4.RoundTrips ∧
      Run (replaceStep (kernelCodec .incompressible) .ok 0 0x1000) CompressesSafe
        ⟨twoSpaces.kernel, .start⟩ [.next, .next, .write (Page.fill 3), .next, .next]
        ⟨overwrittenInstalled 1, .installed (Page.fill 3)⟩ ∧
      (vmFaultHandler (kernelCodec .incompressible) .ok (overwrittenInstalled 1)
        overwrittenFault).2.pageAt 0 0x1000 = some (Page.fill 1) ∧
      (stockMarkerFault (kernelCodec .incompressible) .ok (overwrittenInstalled 1)
        overwrittenFault).2.pageAt 0 0x1000 = some (Page.fill 1) ∧
      Page.fill 1 ≠ Page.fill 3 := by
  have hpct : snapshotTaken.minSavingsPct = 0 := rfl
  have hpage : snapshotTaken.frames.data 0 = Page.fill 1 := rfl
  have hsafe : (snapshotTaken.frames.data 0).BdiSafe := Page.bdiSafe_fill 1
  have hcompress := replaceNext_fill (kernelCodec_compress_fill .incompressible 1) hpct 0 0x1000
    (.present 0 true true true) hpage
  have hlookup : mapLookup (overwrittenInstalled 1).map overwrittenFault.address
      = some ⟨.samePage, 1, 1⟩ := by
    show mapLookup (overwritten.addEntry 0x1000 .samePage [1]).map 0x1000 = _
    rw [mapLookup_addEntry_self]
    rfl
  have hdecode : (overwrittenInstalled 1).decode (kernelCodec .incompressible) ⟨.samePage, 1, 1⟩
      = some (Page.fill 1) := by
    have hobj : (overwrittenInstalled 1).pool.objs 1 = some [1] := rfl
    simp only [Kernel.decode, hobj, List.take_succ_cons, List.take_zero,
      kernelCodec_decompress_fill]
  obtain ⟨hvm, hstock⟩ := fault_of_entry rfl rfl rfl hlookup hdecode
  refine ⟨CodecEnv.incompressible_roundTrips, .cons replaceStep_snapshot trivial
    (.cons hcompress hsafe (.cons (replaceStep_write _) trivial
    (.cons (replaceStep_store 1) trivial (.cons (replaceStep_install 1) trivial (.nil _))))),
    ?_, ?_, ?_⟩
  · rw [hvm]
    exact pageAt_faulted _ overwrittenFault _ _
  · rw [hstock]
    exact pageAt_faulted _ overwrittenFault _ _
  · rw [Ne, Page.fill_inj]
    decide

end MiniMem
