import Mathlib
import CodeIndex.Proofs.Store.Snapshot
import CodeIndex.Proofs.Text.ByteOrder

/-!
# What a comparison says, exactly

A file is compared with its snapshot by name. On the side of the file the first declaration of a name
counts, on the side of the snapshot there is one entry to a name, and a signature is compared by the
digest of its words. What may be said of a name is `Happened`, and a comparison says all of it and
nothing else (§2): what the snapshot has lost or has otherwise, in the order of the names, then what is
new, in the order of the names. Names are in the order of their bytes.

So the changes lead from the old digests to the new ones (§3), and a file whose signatures are only laid
out differently has none (§4).

Main result: `computeDiff_exact`.
-/

namespace CodeIndex

/-! ## §1. Names. -/

/-- The declaration of a name that counts. -/
def firstDeclaration? (symbols : List Symbol) (name : String) : Option Symbol :=
  symbols.find? (·.name == name)

/-- Names in the order of their bytes, and none of them twice. -/
def InByteOrder (names : List String) : Prop :=
  names.Pairwise fun a b => Text.encode a.toList < Text.encode b.toList

theorem inByteOrder_iff {names : List String} : InByteOrder names ↔ names.Pairwise (· < ·) := by
  unfold InByteOrder
  simp only [← lt_iff_encode_lt]

theorem lookup_firstDeclarations (symbols : List Symbol) (name : String) :
    (firstDeclarations symbols).lookup name = firstDeclaration? symbols name := by
  unfold firstDeclaration?
  induction symbols with
  | nil => rfl
  | cons symbol rest ih =>
    unfold firstDeclarations at ih ⊢
    rw [List.foldr_cons, List.find?_cons]
    -- a later declaration makes room for an earlier one
    by_cases hname : symbol.name = name
    · subst hname
      rw [lookup_insertSorted_self, beq_self_eq_true]
    · rw [lookup_insertSorted_of_ne (Ne.symm hname), ih, beq_false_of_ne hname]

theorem name_of_firstDeclaration? {symbols : List Symbol} {name : String} {symbol : Symbol}
    (h : firstDeclaration? symbols name = some symbol) : symbol.name = name := by
  simpa using List.find?_some h

/-- What counts of a list of symbols is the first declaration of each name. -/
theorem mem_firstDeclarations {symbols : List Symbol} {symbol : Symbol} :
    symbol ∈ (firstDeclarations symbols).map (·.2) ↔
      firstDeclaration? symbols symbol.name = some symbol := by
  rw [← lookup_firstDeclarations, ← find?_firstDeclarations]
  constructor
  · intro h
    exact find?_key_of_mem (nodup_firstDeclarations symbols) h
  · exact List.mem_of_find?_eq_some

theorem snapshotOf_eq (symbols : List Symbol) :
    snapshotOf symbols = ((firstDeclarations symbols).map (·.2)).map .ofSymbol := by
  rw [List.map_map]
  rfl

/-! ## §2. What is said of each name. -/

/-- What may be said of a name, between a snapshot and the symbols of a file. -/
inductive Happened (previous : List SnapshotEntry) (symbols : List Symbol) : SymbolChange → Prop where
  | removed {old : SnapshotEntry} (there : old ∈ previous)
      (gone : firstDeclaration? symbols old.name = none) :
      Happened previous symbols (.of .removed old.name old.kind (some old.signature) none)
  | sigChanged {old : SnapshotEntry} {new : Symbol} (there : old ∈ previous)
      (declared : firstDeclaration? symbols old.name = some new)
      (differs : Digest.ofSignature new.signature ≠ old.sigHash) :
      Happened previous symbols
        (.of .sigChanged old.name new.kind (some old.signature) (some new.signature))
  | added {new : Symbol} (declared : firstDeclaration? symbols new.name = some new)
      (fresh : ∀ old ∈ previous, old.name ≠ new.name) :
      Happened previous symbols (.of .added new.name new.kind none (some new.signature))

/-- A report says what happened and all of it, first what the snapshot has lost or has otherwise and
then what is new. -/
structure SaysAll (previous : List SnapshotEntry) (symbols : List Symbol)
    (lost gained : List SymbolChange) : Prop where
  exact : ∀ c, c ∈ lost ++ gained ↔ Happened previous symbols c
  lostKinds : ∀ c ∈ lost, c.kind = .removed ∨ c.kind = .sigChanged
  gainedKinds : ∀ c ∈ gained, c.kind = .added
  lostOrder : InByteOrder (lost.map (·.symbol))
  gainedOrder : InByteOrder (gained.map (·.symbol))
  once : ((lost ++ gained).map (·.symbol)).Nodup

theorem changeOf?_eq_some {previous : List SnapshotEntry} {symbols : List Symbol} {old : SnapshotEntry}
    (hold : old ∈ previous) {c : SymbolChange} (h : changeOf? (firstDeclarations symbols) old = some c) :
    Happened previous symbols c ∧ (c.kind = .removed ∨ c.kind = .sigChanged) := by
  unfold changeOf? at h
  rw [lookup_firstDeclarations] at h
  split at h
  next hgone =>
    rw [← Option.some.inj h]
    exact ⟨.removed hold hgone, .inl rfl⟩
  next new hdeclared =>
    split at h
    · exact absurd h (by simp)
    next hdiffers =>
      rw [← Option.some.inj h]
      exact ⟨.sigChanged hold hdeclared hdiffers, .inr rfl⟩

theorem additionOf?_eq_some {previous : List SnapshotEntry} {symbols : List Symbol} {new : Symbol}
    (hnew : firstDeclaration? symbols new.name = some new) {c : SymbolChange}
    (h : additionOf? previous new = some c) :
    Happened previous symbols c ∧ c.kind = .added ∧ ∀ old ∈ previous, old.name ≠ c.symbol := by
  unfold additionOf? at h
  split at h
  · exact absurd h (by simp)
  next hfresh =>
    have hnone : ∀ old ∈ previous, old.name ≠ new.name := by simpa using hfresh
    rw [← Option.some.inj h]
    exact ⟨.added hnew hnone, rfl, hnone⟩

/-- What is said of some rows stands in the order of the rows. -/
theorem sublist_filterMap_key {α β κ : Type} {rows : List α} {key : α → κ} {keyOf : β → κ}
    {f : α → Option β} (hkey : ∀ row result, f row = some result → keyOf result = key row) :
    ((rows.filterMap f).map keyOf).Sublist (rows.map key) := by
  induction rows with
  | nil => exact List.Sublist.slnil
  | cons row rest ih =>
    cases hresult : f row with
    | none =>
      rw [List.filterMap_cons_none hresult, List.map_cons]
      exact ih.cons _
    | some result =>
      rw [List.filterMap_cons_some hresult, List.map_cons, List.map_cons, hkey row result hresult]
      exact ih.cons_cons _

/-- **A comparison says all that happened.** -/
theorem changesBetween_saysAll {previous : List SnapshotEntry}
    (hprevious : (previous.map (·.name)).Pairwise (· < ·)) (symbols : List Symbol) :
    ∃ lost gained, changesBetween previous (firstDeclarations symbols) = lost ++ gained
      ∧ SaysAll previous symbols lost gained := by
  have hlost : ∀ c ∈ previous.filterMap (changeOf? (firstDeclarations symbols)),
      ∃ old ∈ previous, c.symbol = old.name ∧ Happened previous symbols c
        ∧ (c.kind = .removed ∨ c.kind = .sigChanged) := by
    intro c hc
    obtain ⟨old, hold, hchange⟩ := List.mem_filterMap.mp hc
    exact ⟨old, hold, symbol_of_changeOf? hchange, changeOf?_eq_some hold hchange⟩
  have hgained : ∀ c ∈ ((firstDeclarations symbols).map (·.2)).filterMap (additionOf? previous),
      Happened previous symbols c ∧ c.kind = .added ∧ ∀ old ∈ previous, old.name ≠ c.symbol := by
    intro c hc
    obtain ⟨new, hnew, haddition⟩ := List.mem_filterMap.mp hc
    exact additionOf?_eq_some (mem_firstDeclarations.mp hnew) haddition
  -- both parts keep the order in which the names are gone through
  have hlostOrder : ((previous.filterMap (changeOf? (firstDeclarations symbols))).map
      (·.symbol)).Pairwise (· < ·) :=
    hprevious.sublist (sublist_filterMap_key fun _ _ => symbol_of_changeOf?)
  have hgainedOrder : ((((firstDeclarations symbols).map (·.2)).filterMap (additionOf? previous)).map
      (·.symbol)).Pairwise (· < ·) := by
    refine List.Pairwise.sublist (sublist_filterMap_key fun _ _ => symbol_of_additionOf?) ?_
    rw [List.map_map, List.map_congr_left (g := (·.1)) name_of_mem_firstDeclarations]
    exact sortedKeys_firstDeclarations symbols
  refine ⟨_, _, rfl, ?_, fun c hc => ?_, fun c hc => (hgained c hc).2.1, inByteOrder_iff.mpr hlostOrder,
    inByteOrder_iff.mpr hgainedOrder, ?_⟩
  · intro c
    constructor
    · intro hc
      rcases List.mem_append.mp hc with hc | hc
      · obtain ⟨old, -, -, happened, -⟩ := hlost c hc
        exact happened
      · exact (hgained c hc).1
    · rintro (⟨there, gone⟩ | ⟨there, declared, differs⟩ | ⟨declared, fresh⟩)
      · refine List.mem_append_left _ (List.mem_filterMap.mpr ⟨_, there, ?_⟩)
        rw [changeOf?, lookup_firstDeclarations, gone]
      · refine List.mem_append_left _ (List.mem_filterMap.mpr ⟨_, there, ?_⟩)
        rw [changeOf?, lookup_firstDeclarations, declared]
        exact if_neg differs
      · refine List.mem_append_right _
          (List.mem_filterMap.mpr ⟨_, mem_firstDeclarations.mpr declared, ?_⟩)
        rw [additionOf?, if_neg (by simpa using fresh)]
  · obtain ⟨old, -, -, -, hkind⟩ := hlost c hc
    exact hkind
  · rw [List.map_append, List.nodup_append']
    refine ⟨hlostOrder.imp ne_of_lt, hgainedOrder.imp ne_of_lt, ?_⟩
    -- what is new has a name that the snapshot does not have
    intro name hname hname'
    obtain ⟨c, hc, rfl⟩ := List.mem_map.mp hname
    obtain ⟨c', hc', hsame⟩ := List.mem_map.mp hname'
    obtain ⟨old, hold, hsymbol, -⟩ := hlost c hc
    exact (hgained c' hc').2.2 old hold (hsymbol.symm.trans hsame.symm)

/-! ## §3. From the old digests to the new ones. -/

/-- The digest that a snapshot has of each name. -/
def digests (entries : List SnapshotEntry) (name : String) : Option String :=
  (entries.find? (·.name == name)).map (·.sigHash)

/-- The digests after a change: the name has that of its new signature, or it is gone. -/
def SymbolChange.applyTo (digests : String → Option String) (c : SymbolChange) : String → Option String :=
  Function.update digests c.symbol (c.newSignature.map Digest.ofSignature)

/-- A name has the digest that the changes of that name leave. -/
theorem foldl_applyTo (changes : List SymbolChange) (name : String) :
    ∀ before : String → Option String, changes.foldl SymbolChange.applyTo before name
      = (changes.filter (·.symbol == name)).foldl
          (fun _ c => c.newSignature.map Digest.ofSignature) (before name) := by
  induction changes with
  | nil => intro before; rfl
  | cons c rest ih =>
    intro before
    rw [List.foldl_cons, ih]
    by_cases hname : c.symbol = name
    · rw [List.filter_cons_of_pos (by simp [hname]), List.foldl_cons, SymbolChange.applyTo, hname,
        Function.update_self]
    · rw [List.filter_cons_of_neg (by simp [hname]), SymbolChange.applyTo,
        Function.update_of_ne (Ne.symm hname)]

theorem digests_snapshotOf (symbols : List Symbol) (name : String) :
    digests (snapshotOf symbols) name
      = (firstDeclaration? symbols name).map fun symbol => Digest.ofSignature symbol.signature := by
  have hfind : (snapshotOf symbols).find? (·.name == name)
      = (((firstDeclarations symbols).map (·.2)).find? (·.name == name)).map .ofSymbol := by
    rw [snapshotOf_eq, List.find?_map]
    rfl
  unfold digests
  rw [hfind, find?_firstDeclarations, lookup_firstDeclarations, Option.map_map]
  rfl

/-- **The changes lead from the old digests to the new ones.** -/
theorem foldl_changesBetween {previous : List SnapshotEntry}
    (hprevious : (previous.map (·.name)).Nodup) (symbols : List Symbol) :
    (changesBetween previous (firstDeclarations symbols)).foldl SymbolChange.applyTo (digests previous)
      = digests (snapshotOf symbols) := by
  funext name
  rw [foldl_applyTo, filter_changesBetween hprevious, lookup_firstDeclarations, digests_snapshotOf, digests]
  cases previous.find? (·.name == name) with
  | none => cases firstDeclaration? symbols name <;> rfl
  | some old =>
    cases firstDeclaration? symbols name with
    | none => rfl
    | some new =>
      rw [saidOf]
      split
      next hsame => exact congrArg some hsame.symm
      next => rfl

/-! ## §4. Comparisons. -/

theorem mem_snapshotOf {symbols : List Symbol} {e : SnapshotEntry} :
    e ∈ snapshotOf symbols ↔
      ∃ symbol, firstDeclaration? symbols symbol.name = some symbol ∧ e = .ofSymbol symbol := by
  rw [snapshotOf_eq, List.mem_map]
  constructor
  · rintro ⟨symbol, hsymbol, rfl⟩
    exact ⟨symbol, mem_firstDeclarations.mp hsymbol, rfl⟩
  · rintro ⟨symbol, hdeclared, rfl⟩
    exact ⟨symbol, mem_firstDeclarations.mpr hdeclared, rfl⟩

theorem sorted_snapshotOf (symbols : List Symbol) :
    ((snapshotOf symbols).map (·.name)).Pairwise (· < ·) := by
  rw [snapshotOf_names]
  exact sortedKeys_firstDeclarations symbols

/-- Symbols of the same names in the same order, with signatures of the same words: they differ in the
blanks between the words at most, and perhaps in their kinds and places. -/
def SameWords (symbols others : List Symbol) : Prop :=
  List.Forall₂ (fun a b => a.name = b.name
    ∧ Text.words a.signature.toList = Text.words b.signature.toList) symbols others

theorem SameWords.refl (symbols : List Symbol) : SameWords symbols symbols :=
  List.forall₂_same.mpr fun _ _ => ⟨rfl, rfl⟩

/-- The declarations that count have the same digests. -/
theorem SameWords.digests {symbols others : List Symbol} (h : SameWords symbols others) (name : String) :
    (firstDeclaration? symbols name).map (fun symbol => Digest.ofSignature symbol.signature)
      = (firstDeclaration? others name).map fun symbol => Digest.ofSignature symbol.signature := by
  unfold firstDeclaration?
  induction h with
  | nil => rfl
  | @cons a b rest rest' hab _ ih =>
    obtain ⟨hname, hwords⟩ := hab
    rw [List.find?_cons, List.find?_cons, hname]
    have hdigest : Digest.ofSignature a.signature = Digest.ofSignature b.signature := by
      simp only [Digest.ofSignature, Digest.normalSignature, Text.collapse, hwords]
    cases b.name == name with
    | true => exact congrArg some hdigest
    | false => exact ih

/-- A file is as its snapshot says if its signatures have the same words. -/
theorem SameWords.changesBetween {symbols others : List Symbol} (h : SameWords symbols others) :
    changesBetween (snapshotOf symbols) (firstDeclarations others) = [] := by
  obtain ⟨lost, gained, hchanges, hall⟩ := changesBetween_saysAll (sorted_snapshotOf symbols) others
  rw [hchanges, List.eq_nil_iff_forall_not_mem]
  intro c hc
  have hsame := h.digests
  cases (hall.exact c).mp hc with
  | @removed old there gone =>
    obtain ⟨symbol, hdeclared, rfl⟩ := mem_snapshotOf.mp there
    have hname := hsame symbol.name
    rw [hdeclared, show firstDeclaration? others symbol.name = none from gone] at hname
    exact absurd hname (by simp)
  | @sigChanged old new there declared differs =>
    obtain ⟨symbol, hdeclared, rfl⟩ := mem_snapshotOf.mp there
    have hname := hsame symbol.name
    rw [hdeclared, show firstDeclaration? others symbol.name = some new from declared] at hname
    exact differs (Option.some.inj hname).symm
  | @added new declared fresh =>
    have hname := hsame new.name
    rw [declared] at hname
    obtain ⟨symbol, hdeclared, -⟩ := Option.map_eq_some_iff.mp hname
    have hsymbol := name_of_firstDeclaration? hdeclared
    exact fresh (.ofSymbol symbol)
      (mem_snapshotOf.mpr ⟨symbol, by rw [hsymbol]; exact hdeclared, rfl⟩) hsymbol

/-- What a comparison of a file with its snapshot comes to. -/
structure ComparesExactly (s : Store) (path : String) (symbols : List Symbol) : Prop where
  /-- A file without a snapshot has nothing to be compared with. -/
  first : s.snapshot? path = none → (s.computeDiff path symbols).2 = ⟨path, true, []⟩
  /-- Any other has all the changes since then, and no others. -/
  changes : ∀ previous, s.snapshot? path = some previous → ∃ lost gained,
    (s.computeDiff path symbols).2 = ⟨path, false, lost ++ gained⟩
      ∧ SaysAll previous symbols lost gained
  /-- The new snapshot has the first declarations, in the order of their names. -/
  taken : ∃ entries, (s.computeDiff path symbols).1.snapshot? path = some entries
    ∧ InByteOrder (entries.map (·.name))
    ∧ ∀ e, e ∈ entries ↔
      ∃ symbol, firstDeclaration? symbols symbol.name = some symbol ∧ e = .ofSymbol symbol
  others : ∀ other, other ≠ path →
    (s.computeDiff path symbols).1.snapshot? other = s.snapshot? other
  tables : (s.computeDiff path symbols).1
    = { s with
        snapshotFiles := (s.computeDiff path symbols).1.snapshotFiles
        snapshots := (s.computeDiff path symbols).1.snapshots }
  /-- The changes lead from the digests of the old snapshot to those of the new one. -/
  replayed : ∀ previous entries, s.snapshot? path = some previous →
    (s.computeDiff path symbols).1.snapshot? path = some entries →
    (s.computeDiff path symbols).2.changes.foldl SymbolChange.applyTo (digests previous)
      = digests entries
  /-- A second comparison finds no change. -/
  again : ((s.computeDiff path symbols).1.computeDiff path symbols).2 = ⟨path, false, []⟩
  /-- Nor does one with the same signatures, laid out differently. -/
  relaid : ∀ others, SameWords symbols others →
    ((s.computeDiff path symbols).1.computeDiff path others).2 = ⟨path, false, []⟩

/-- **A comparison is sound, complete and ordered**, whatever the snapshot and the symbols of the file. -/
theorem computeDiff_exact (s : Store) (hs : s.Intact) (path : String) (symbols : List Symbol) :
    ComparesExactly s path symbols := by
  have hself := s.computeDiff_snapshot?_self path symbols
  have hsnd := s.computeDiff_snd path symbols
  have hrelaid : ∀ others, SameWords symbols others →
      ((s.computeDiff path symbols).1.computeDiff path others).2 = ⟨path, false, []⟩ := by
    intro others hothers
    rw [Store.computeDiff_snd, hself, comparison, hothers.changesBetween]
  refine ⟨?_, ?_, ?_, ?_, s.computeDiff_frame path symbols, ?_, hrelaid _ (.refl symbols), hrelaid⟩
  · intro hnone
    rw [hsnd, hnone]
    rfl
  · intro previous hprevious
    obtain ⟨lost, gained, hchanges, hall⟩ :=
      changesBetween_saysAll (hs.snapshot?_sorted hprevious) symbols
    exact ⟨lost, gained, by rw [hsnd, hprevious, comparison, hchanges], hall⟩
  · exact ⟨_, hself, inByteOrder_iff.mpr (sorted_snapshotOf symbols), fun _ => mem_snapshotOf⟩
  · exact fun other hne => s.computeDiff_snapshot?_of_ne hne symbols
  · intro previous entries hprevious hentries
    rw [hself, Option.some.injEq] at hentries
    rw [hsnd, hprevious, ← hentries]
    exact foldl_changesBetween (hs.snapshot?_names hprevious) symbols

/-- A file whose snapshot was given two entries of one name; the last of them was kept. -/
def comparedStore : Store :=
  Store.empty.replaceSnapshot "a.py" [⟨"zeta", .function, "def zeta()", "0"⟩,
    ⟨"alpha", .function, "def alpha()", "1"⟩, ⟨"zeta", .method, "def zeta(self)", "2"⟩]

/-- What the file declares now, one name of it twice. -/
def comparedSymbols : List Symbol :=
  [⟨"beta", .function, "def  beta( )", 1, 2, true⟩, ⟨"alpha", .function, "def alpha(x)", 3, 4, true⟩,
    ⟨"beta", .classLike, "class beta", 5, 6, true⟩, ⟨"Able", .function, "def Able()", 7, 8, true⟩]

theorem computeDiff_exact_of_repeated_names :
    comparedStore.Intact ∧ ComparesExactly comparedStore "a.py" comparedSymbols
      ∧ (comparedStore.computeDiff "a.py" comparedSymbols).2.changes.map
          (fun c => (c.kind, c.symbol, c.symbolKind))
        = [(.sigChanged, "alpha", .function), (.removed, "zeta", .method), (.added, "Able", .function),
            (.added, "beta", .function)] := by
  have hintact : comparedStore.Intact := Store.intact_empty.replaceSnapshot _ _
  -- the entry that was put in last stands in the order of the names already
  have hbefore : comparedStore.snapshot? "a.py" = some [⟨"alpha", .function, "def alpha()", "1"⟩,
      ⟨"zeta", .method, "def zeta(self)", "2"⟩] :=
    congrArg some (List.mergeSort_of_pairwise (by decide +kernel))
  refine ⟨hintact, computeDiff_exact comparedStore hintact "a.py" comparedSymbols, ?_⟩
  rw [Store.computeDiff_snd, hbefore]
  decide +kernel

end CodeIndex
