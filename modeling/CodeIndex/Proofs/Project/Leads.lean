import Mathlib
import CodeIndex.Proofs.Project.Incremental

/-!
# Where imports lead

A file with imports leads to other files: each import to the first of its candidates that is known and
there. What is to be stored of a file follows from where its imports lead, and resolving imports stores
just that, for every file that can be read. Other files keep what they have.

Main results:
  * `resolvePaths_holds` — what is stored of a file, once its imports are resolved, is where they lead;
  * `resolvePaths_others` — what is stored of the other files stays.
-/

namespace CodeIndex

open Resolve (Surroundings)

/-! ## §1. Where imports lead. -/

/-- The imports of a file, each with the file that it leads to. -/
abbrev Leads := List (Import × Option String)

namespace Leads

variable {leads : Leads} {source : String} {e : Edge}

/-- What is to be stored of a file whose imports lead there. -/
def edges (leads : Leads) (source : String) : List Edge :=
  leads.flatMap fun (i, target) => target.toList.flatMap fun target =>
    (Surroundings.edgesTo target i).map fun planned =>
      ⟨source, target, Store.Intact.shownSymbol (planned.symbol.getD "")⟩

/-- The imports with those targets that are left. -/
def keep (leads : Leads) (left : String → Bool) : Leads :=
  leads.map fun (i, target) => (i, target.filter left)

theorem mem_edges : e ∈ leads.edges source ↔
    e.source = source ∧ ∃ i, (i, some e.target) ∈ leads
      ∧ ∃ planned ∈ Surroundings.edgesTo e.target i,
        e.symbol = Store.Intact.shownSymbol (planned.symbol.getD "") := by
  unfold edges
  constructor
  · intro h
    obtain ⟨⟨i, target⟩, hlead, h⟩ := List.mem_flatMap.mp h
    obtain ⟨target, htarget, h⟩ := List.mem_flatMap.mp h
    obtain ⟨planned, hplanned, rfl⟩ := List.mem_map.mp h
    obtain rfl := Option.mem_toList.mp htarget
    exact ⟨rfl, i, hlead, planned, hplanned, rfl⟩
  · obtain ⟨source', target, symbol⟩ := e
    rintro ⟨rfl, i, hlead, planned, hplanned, rfl⟩
    exact List.mem_flatMap.mpr ⟨_, hlead, List.mem_flatMap.mpr
      ⟨target, by simp, List.mem_map.mpr ⟨planned, hplanned, rfl⟩⟩⟩

theorem mem_edges_keep {left : String → Bool} :
    e ∈ (leads.keep left).edges source ↔ e ∈ leads.edges source ∧ left e.target = true := by
  rw [mem_edges, mem_edges]
  constructor
  · rintro ⟨hsource, i, hlead, hplanned⟩
    obtain ⟨⟨i', target⟩, hlead', heq⟩ := List.mem_map.mp hlead
    obtain ⟨rfl, hkept⟩ := Prod.mk.inj heq
    obtain ⟨rfl, hleft⟩ := Option.filter_eq_some_iff.mp hkept
    exact ⟨⟨hsource, i', hlead', hplanned⟩, hleft⟩
  · rintro ⟨⟨hsource, i, hlead, hplanned⟩, hleft⟩
    exact ⟨hsource, i, List.mem_map.mpr ⟨(i, some e.target), hlead, by simp [Option.filter, hleft]⟩,
      hplanned⟩

/-- Whether imports that can be read make other edges than was held of them. -/
def outdated (path : String) : Option Leads → Option Leads → Bool
  | none, _ => false
  | some _, none => true
  | some now, some before => (now.edges path).toFinset ≠ (before.edges path).toFinset

theorem outdated_self (path : String) (led : Option Leads) : outdated path led led = false := by
  cases led with
  | none => rfl
  | some leads => simp [outdated]

/-- What goes on both sides makes no difference. -/
theorem outdated_keep {path : String} {now before : Option Leads} (left : String → Bool)
    (h : outdated path now before = false) :
    outdated path (now.map (·.keep left)) (before.map (·.keep left)) = false := by
  match now, before with
  | none, _ => rfl
  | some _, none => exact absurd h (by simp [outdated])
  | some now, some before =>
    have hsame : (now.edges path).toFinset = (before.edges path).toFinset := by simpa [outdated] using h
    have hkept : ((now.keep left).edges path).toFinset = ((before.keep left).edges path).toFinset := by
      ext e
      rw [List.mem_toFinset, List.mem_toFinset, mem_edges_keep, mem_edges_keep, ← List.mem_toFinset, hsame,
        List.mem_toFinset]
    simpa [outdated] using hkept

end Leads

theorem target_of_mem_edgesTo {target : String} {i : Import} {planned : Resolve.PlannedEdge}
    (h : planned ∈ Surroundings.edgesTo target i) : planned.target = target := by
  unfold Surroundings.edgesTo at h
  split at h
  · rw [List.mem_singleton.mp h]
  · obtain ⟨name, -, rfl⟩ := List.mem_map.mp h
    rfl

namespace Project

/-- A project as it is seen when imports are resolved. -/
def around (p : Project) (d : Disk) : Surroundings := ⟨p.root, d, p.codePaths⟩

/-- Where the imports of a file lead; `none` if they cannot be read. -/
def leads (p : Project) (d : Disk) (path : String) : Option Leads :=
  ((p.around d).importsOf path).toOption.map fun imports =>
    imports.map fun i => (i, (p.around d).target? path i.source)

/-- Whether there is a row of a path. -/
def hasRow (p : Project) (path : String) : Bool := (p.store.file? path).isSome

variable {p p' : Project} {d : Disk} {path : String}

theorem mem_codePaths_iff (hs : p.store.Intact) :
    path ∈ p.codePaths ↔ ∃ row, p.store.file? path = some row ∧ row.fileClass = .code := by
  rw [mem_codePaths]
  constructor
  · rintro ⟨row, hrow, rfl, hclass⟩
    exact ⟨row, Store.file?_of_mem hs.paths hrow, hclass⟩
  · rintro ⟨row, hrow, hclass⟩
    obtain ⟨hmem, hpath⟩ := Store.file?_eq_some hrow
    exact ⟨row, hmem, hpath, hclass⟩

theorem codePaths_eq {paths : List String} (hsorted : paths.Pairwise (· ≤ ·))
    (hperm : ((p.store.files.filter (·.fileClass == .code)).map (·.path)).Perm paths) :
    p.codePaths = paths := by
  have hlisted : p.codePaths.Pairwise (· ≤ ·) := by
    unfold codePaths
    rw [List.pairwise_map]
    exact p.store.listFiles_pairwise (some .code)
  have hperm' : p.codePaths.Perm paths := ((List.mergeSort_perm _ _).map _).trans hperm
  exact hperm'.eq_of_pairwise (fun a b _ _ => le_antisymm) hlisted hsorted

/-- An import leads to a file that has a row. -/
theorem hasRow_of_target {importer specifier target : String}
    (h : (p.around d).target? importer specifier = some target) : p.hasRow target = true := by
  have haccepts := List.find?_some h
  simp only [Surroundings.accepts, around, Bool.and_eq_true, List.contains_iff_mem] at haccepts
  obtain ⟨row, hrow, hpath, -⟩ := mem_codePaths.mp haccepts.1.2
  unfold hasRow Store.file?
  rw [List.find?_isSome]
  exact ⟨row, hrow, by simpa using hpath⟩

/-- The imports that a plan makes of some files. -/
theorem plan_makes (d : Disk) (paths : List String) {e : Edge} (hsource : p.hasRow e.source = true) :
    ((p.around d).plan paths).Makes p.store e ↔
      e.source ∈ paths ∧ ∃ leads, p.leads d e.source = some leads ∧ e ∈ leads.edges e.source := by
  constructor
  · rintro ⟨f, hf, hpath, -, -, planned, hplanned, htarget, hsymbol⟩
    obtain ⟨plan, hplan, hfile⟩ := List.mem_flatMap.mp hf
    obtain ⟨path, hmem, rfl⟩ := List.mem_map.mp hplan
    unfold Surroundings.planFile at hfile
    cases himports : (p.around d).importsOf path with
    | error failure => simp [himports] at hfile
    | ok imports =>
      rw [himports] at hfile
      obtain rfl := List.mem_singleton.mp hfile
      obtain rfl : path = e.source := hpath
      refine ⟨hmem, _, by rw [leads, himports]; rfl, ?_⟩
      obtain ⟨i, hi, hedge⟩ := List.mem_flatMap.mp hplanned
      unfold Surroundings.edgesOf at hedge
      split at hedge
      next target htarget' =>
        rw [target_of_mem_edgesTo hedge] at htarget
        subst htarget
        exact Leads.mem_edges.mpr
          ⟨rfl, i, List.mem_map.mpr ⟨i, hi, by rw [htarget']⟩, planned, hedge, hsymbol⟩
      next => exact absurd hedge (by simp)
  · rintro ⟨hmem, leads, hleads, he⟩
    obtain ⟨-, i, hlead, planned, hplanned, hsymbol⟩ := Leads.mem_edges.mp he
    obtain ⟨imports, himports, rfl⟩ := Option.map_eq_some_iff.mp hleads
    obtain ⟨i', hi, heq⟩ := List.mem_map.mp hlead
    obtain ⟨rfl, htarget'⟩ := Prod.mk.inj heq
    have hok : (p.around d).importsOf e.source = .ok imports := by
      cases h : (p.around d).importsOf e.source with
      | error failure => simp [h, Except.toOption] at himports
      | ok found => simpa [h, Except.toOption] using himports
    refine ⟨⟨e.source, imports.flatMap ((p.around d).edgesOf e.source)⟩, ?_, rfl, hsource, ?_,
      planned, List.mem_flatMap.mpr ⟨i', hi, ?_⟩, target_of_mem_edgesTo hplanned, hsymbol⟩
    · refine List.mem_flatMap.mpr ⟨_, List.mem_map_of_mem hmem, ?_⟩
      unfold Surroundings.planFile
      rw [hok]
      exact List.mem_singleton_self _
    · exact hasRow_of_target htarget'
    · unfold Surroundings.edgesOf
      rw [htarget']
      exact hplanned

/-- The files that a plan is about are those whose imports can be read. -/
theorem mem_plan_iff {paths : List String} :
    path ∈ ((p.around d).plan paths).files.map (·.path) ↔
      path ∈ paths ∧ (p.leads d path).isSome = true := by
  constructor
  · intro h
    refine ⟨(Surroundings.plan_paths _ paths).subset h, ?_⟩
    obtain ⟨f, hf, rfl⟩ := List.mem_map.mp h
    obtain ⟨plan, hplan, hfile⟩ := List.mem_flatMap.mp hf
    obtain ⟨path, -, rfl⟩ := List.mem_map.mp hplan
    unfold Surroundings.planFile at hfile
    cases himports : (p.around d).importsOf path with
    | error failure => simp [himports] at hfile
    | ok imports =>
      rw [himports] at hfile
      obtain rfl := List.mem_singleton.mp hfile
      simp [leads, himports, Except.toOption]
  · rintro ⟨hmem, hleads⟩
    cases himports : (p.around d).importsOf path with
    | error failure => simp [leads, himports, Except.toOption] at hleads
    | ok imports => exact Surroundings.mem_plan_paths _ hmem himports

theorem ask_map {α β : Type} (p : Project) (question : Store → α) (f : α → β) :
    (p.ask question).map f = p.ask fun s => f (question s) := by
  unfold ask
  split <;> rfl

/-- A project that broke answers no questions. -/
theorem ask_congr {α : Type} {question : Store → α} (hstill : p'.isSound = p.isSound)
    (h : p.isSound = true → question p.store = question p'.store) :
    p.ask question = p'.ask question := by
  unfold ask
  rw [hstill]
  split
  next hsound => exact congrArg Except.ok (h hsound)
  next => rfl

/-! ## §2. What is stored. -/

/-- What is stored of the imports of a source file is where they led. -/
def Holds (p : Project) (path : String) (led : Option Leads) : Prop :=
  path ∈ p.codePaths → ∀ leads, led = some leads →
    ∀ e : Edge, e.source = path → (e ∈ p.store.allEdges ↔ e ∈ leads.edges path)

theorem hasRow_of_codePath (hs : p.store.Intact) (h : path ∈ p.codePaths) : p.hasRow path = true := by
  obtain ⟨row, hrow, -⟩ := (mem_codePaths_iff hs).mp h
  unfold hasRow
  rw [hrow]
  rfl

section Resolve

variable (hs : p.store.Intact) (d : Disk) (paths : List String)

include hs

theorem resolvePaths_edgesOnly : Store.EdgesOnly p.store (p.resolvePaths d paths).1.store := by
  cases hsound : p.isSound with
  | false => rw [resolvePaths_broken d hsound]; exact .refl _
  | true =>
    obtain ⟨s, report, hresolve, -, honly, -⟩ := resolvePaths_sound d hs hsound paths
    rw [hresolve]
    exact honly

theorem resolvePaths_codePaths : (p.resolvePaths d paths).1.codePaths = p.codePaths := by
  unfold codePaths Store.listFiles
  rw [resolvePaths_edgesOnly hs]

/-- Where imports lead does not depend on what is stored of them. -/
theorem resolvePaths_leads (d' : Disk) (path : String) :
    (p.resolvePaths d paths).1.leads d' path = p.leads d' path := by
  unfold leads around root
  rw [resolvePaths_codePaths hs, resolvePaths_indexer]

variable {d paths} (hnodup : paths.Nodup)

include hnodup

/-- Of files whose imports have just been resolved, what is stored is where they lead. -/
theorem resolvePaths_holds (hsound : p.isSound = true) (hpath : path ∈ paths) :
    (p.resolvePaths d paths).1.Holds path (p.leads d path) := by
  rintro hcode leads hleads e rfl
  rw [resolvePaths_codePaths hs] at hcode
  obtain ⟨s, report, hresolve, -, -, hedges⟩ := resolvePaths_sound d hs hsound paths
  have hplanned : e.source ∈ ((p.around d).plan paths).files.map (·.path) :=
    mem_plan_iff.mpr ⟨hpath, by rw [hleads]; rfl⟩
  have hmakes := plan_makes d paths (hasRow_of_codePath hs hcode)
  have hall := hedges (hnodup.sublist (Surroundings.plan_paths _ paths)) e
  rw [hresolve]
  constructor
  · intro he
    rcases hall.mp he with ⟨-, hnot⟩ | hmade
    · exact absurd hplanned hnot
    · obtain ⟨-, leads', hleads', hmem⟩ := hmakes.mp hmade
      rw [hleads, Option.some.injEq] at hleads'
      exact hleads' ▸ hmem
  · intro hmem
    exact hall.mpr (.inr (hmakes.mpr ⟨hpath, leads, hleads, hmem⟩))

/-- Resolving imports leaves those of other files alone, and those of files that cannot be read. -/
theorem resolvePaths_others {e : Edge} (hsource : e.source ∈ paths → p.leads d e.source = none) :
    e ∈ (p.resolvePaths d paths).1.store.allEdges ↔ e ∈ p.store.allEdges := by
  cases hsound : p.isSound with
  | false => rw [resolvePaths_broken d hsound]
  | true =>
    obtain ⟨s, report, hresolve, -, -, hedges⟩ := resolvePaths_sound d hs hsound paths
    have hnot : e.source ∉ ((p.around d).plan paths).files.map (·.path) := by
      intro hplanned
      obtain ⟨hmem, hleads⟩ := mem_plan_iff.mp hplanned
      rw [hsource hmem] at hleads
      exact absurd hleads (by simp)
    have hall := hedges (hnodup.sublist (Surroundings.plan_paths _ paths)) e
    rw [hresolve]
    constructor
    · intro he
      rcases hall.mp he with ⟨hold, -⟩ | ⟨f, hf, hpath, -⟩
      · exact hold
      · exact absurd (hpath ▸ List.mem_map_of_mem hf) hnot
    · intro he
      exact hall.mpr (.inl ⟨he, hnot⟩)

end Resolve

theorem resolve_holds (hs : p.store.Intact) (hsound : p.isSound = true) (d : Disk) (path : String) :
    (p.resolve d).1.Holds path (p.leads d path) := by
  intro hcode
  have hpath : path ∈ p.codePaths := by
    rw [← resolvePaths_codePaths hs d p.codePaths]
    exact hcode
  exact resolvePaths_holds hs (codePaths_nodup hs) hsound hpath hcode

end Project

end CodeIndex
