import Mathlib.Data.List.Perm.Basic
import Trampoline.Proofs.Library.FileNames
import Trampoline.Proofs.Library.Removal

/-! Loading a folder.

In a folder all of which can be read, the files of function texts are found once each and in order,
whatever order the folders list them in (`mem_functionFiles`, `functionFiles_sorted`). Each is
compiled under the id its names spell; a file that does not compile leaves a fault that ends with
its path, and nothing else (`loadFiles_eq`). So what stands under an id afterwards is what the last
of its files that compile made, and what stood there before if there is none
(`loadFolder_readable`). -/
namespace Trampoline

open Command (standard)

/-! ### What a folder holds -/

namespace Tree

/-- Names that lead from a place in a tree to another one. -/
inductive Leads : Tree → List String → Tree → Prop where
  | here (t : Tree) : Leads t [] t
  | inside {entries : List (String × Tree)} {name : String} {inner t : Tree} {names : List String}
      (hmem : (name, inner) ∈ entries) (h : Leads inner names t) :
      Leads (.folder entries) (name :: names) t

/-- A tree found at a path in which no folder has two entries of one name, and no path is too long
to be followed. -/
inductive Readable : String → Tree → Prop where
  | file {path : String} (bytes : ByteArray) : Readable path (.file bytes)
  | folder {path : String} {entries : List (String × Tree)}
      (hnames : entries.Pairwise fun a b => a.1 ≠ b.1)
      (hshort : ∀ entry ∈ entries, (Path.join path entry.1).utf8ByteSize ≤ longestPath)
      (hinner : ∀ entry ∈ entries, Readable (Path.join path entry.1) entry.2) :
      Readable path (.folder entries)

variable {path : String} {t : Tree} {entries : List (String × Tree)}

theorem leads_file_iff {bytes : ByteArray} {names : List String} :
    (Tree.file bytes).Leads names t ↔ names = [] ∧ t = .file bytes := by
  constructor
  · intro h
    cases h
    exact ⟨rfl, rfl⟩
  · rintro ⟨rfl, rfl⟩
    exact .here _

theorem leavesOf_eq (h : ∀ entry ∈ entries, (Path.join path entry.1).utf8ByteSize ≤ longestPath) :
    leavesOf path entries = entries.flatMap fun entry =>
      (entry.2.leaves (Path.join path entry.1)).map fun found => (entry.1 :: found.1, found.2) := by
  induction entries with
  | nil => simp [leavesOf]
  | cons entry rest ih =>
    rw [List.forall_mem_cons] at h
    rw [leavesOf, List.flatMap_cons, ih h.2]
    simp [Nat.not_lt.mpr h.1]

/-- Every file below is found, and nothing else. -/
theorem mem_leaves (h : Readable path t) (names : List String) (leaf : Except Obstacle ByteArray) :
    (names, leaf) ∈ t.leaves path ↔ ∃ bytes, leaf = .ok bytes ∧ t.Leads names (.file bytes) := by
  induction h generalizing names with
  | file bytes =>
    rw [leaves, List.mem_singleton, Prod.mk.injEq]
    constructor
    · rintro ⟨rfl, rfl⟩
      exact ⟨bytes, rfl, .here _⟩
    · rintro ⟨bytes', rfl, hleads⟩
      obtain ⟨hnames, hfile⟩ := leads_file_iff.mp hleads
      exact ⟨hnames, by rw [Tree.file.inj hfile]⟩
  | folder hnames hshort hinner ih =>
    rw [leaves, leavesOf_eq hshort, List.mem_flatMap]
    constructor
    · rintro ⟨entry, hentry, hfound⟩
      obtain ⟨⟨inner, leaf'⟩, hinside, heq⟩ := List.mem_map.mp hfound
      cases heq
      obtain ⟨bytes, hleaf, hleads⟩ := (ih entry hentry inner).mp hinside
      exact ⟨bytes, hleaf, .inside hentry hleads⟩
    · rintro ⟨bytes, rfl, hleads⟩
      cases hleads with
      | inside hmem hleads =>
        have hinside := (ih _ hmem _).mpr ⟨bytes, rfl, hleads⟩
        exact ⟨_, hmem, List.mem_map.mpr ⟨_, hinside, rfl⟩⟩

/-- No file is found twice. -/
theorem leaves_distinct (h : Readable path t) : (t.leaves path).Pairwise fun a b => a.1 ≠ b.1 := by
  induction h with
  | file bytes => simp [leaves]
  | folder hnames hshort hinner ih =>
    rw [leaves, leavesOf_eq hshort, List.pairwise_flatMap]
    refine ⟨fun entry hentry => ?_, hnames.imp fun hne x hx y hy heq => ?_⟩
    · rw [List.pairwise_map]
      exact (ih entry hentry).imp fun hne heq => hne (List.cons.inj heq).2
    · obtain ⟨_, -, rfl⟩ := List.mem_map.mp hx
      obtain ⟨_, -, rfl⟩ := List.mem_map.mp hy
      exact hne (List.cons.inj heq).1

end Tree

namespace Library

variable {path : String} {folder : Tree} {l : Library}

/-! ### The files of a folder -/

theorem mem_functionFiles (h : folder.Readable path) (names : List String)
    (leaf : Except Tree.Obstacle ByteArray) :
    (names, leaf) ∈ functionFiles path folder ↔
      isFunctionFile names = true ∧ ∃ bytes, leaf = .ok bytes ∧ folder.Leads names (.file bytes) := by
  rw [functionFiles, List.mem_mergeSort, List.mem_filter, Tree.mem_leaves h, and_comm]

/-- They come in order, each once. -/
theorem functionFiles_sorted (h : folder.Readable path) :
    (functionFiles path folder).Pairwise fun a b => List.Lex (fun x y => x < y) a.1 b.1 := by
  have hsorted : (functionFiles path folder).Pairwise fun a b => inOrder a.1 b.1 = true :=
    List.pairwise_mergeSort (fun a b c => inOrder_trans a.1 b.1 c.1)
      (fun a b => inOrder_total a.1 b.1) _
  have hdistinct : (functionFiles path folder).Pairwise fun a b => a.1 ≠ b.1 :=
    ((Tree.leaves_distinct h).filter _).perm (List.mergeSort_perm ..).symm fun hne => Ne.symm hne
  exact (hsorted.and hdistinct).imp fun hboth =>
    ((inOrder_iff _ _).mp hboth.1).resolve_left hboth.2

/-! ### Loading files -/

/-- The function of a file with its text. -/
def compileFile (file : List String × String) : Except Fault (Function standard) :=
  Function.compile Command.parse (idOfNames file.1) Source.compiler.permission
    (Text.splitLines file.2)

/-- What the files make that compile, by their ids. -/
def functionsOf (texts : List (List String × String)) : List (String × Function standard) :=
  texts.filterMap fun file => (compileFile file).toOption.map fun f => (idOfNames file.1, f)

/-- A fault with the path of its file at the end of its places. -/
def faultIn (root : String) (names : List String) (f : Fault) : Fault :=
  { f with context := some ((f.context.getD {}).through (Path.join root ("/".intercalate names))) }

/-- The faults of the files that do not compile. -/
def faultsOf (root : String) (texts : List (List String × String)) : List Fault :=
  texts.filterMap fun file =>
    match compileFile file with
    | .ok _ => none
    | .error f => some (faultIn root file.1 f)

/-- The texts of the files that have one. -/
def textsOf (found : List (List String × Except Tree.Obstacle ByteArray)) :
    List (List String × String) :=
  found.filterMap fun file => (file.2.bind Tree.decode).toOption.map fun text => (file.1, text)

theorem mem_textsOf {found : List (List String × Except Tree.Obstacle ByteArray)} {names : List String}
    {text : String} :
    (names, text) ∈ textsOf found ↔
      ∃ leaf, (names, leaf) ∈ found ∧ leaf.bind Tree.decode = .ok text := by
  rw [textsOf, List.mem_filterMap]
  constructor
  · rintro ⟨⟨names', leaf⟩, hfile, hsome⟩
    obtain ⟨text', htext, heq⟩ := Option.map_eq_some_iff.mp hsome
    cases heq
    refine ⟨leaf, hfile, ?_⟩
    cases hleaf : leaf.bind Tree.decode with
    | ok decoded => simpa [hleaf, Except.toOption] using htext
    | error o => simp [hleaf, Except.toOption] at htext
  · rintro ⟨leaf, hfile, hleaf⟩
    exact ⟨_, hfile, by simp [hleaf, Except.toOption]⟩

/-- Texts come in the order of their files. -/
theorem textsOf_sorted {found : List (List String × Except Tree.Obstacle ByteArray)}
    {R : List String → List String → Prop} (h : found.Pairwise fun a b => R a.1 b.1) :
    (textsOf found).Pairwise fun a b => R a.1 b.1 := by
  rw [textsOf, List.pairwise_filterMap]
  refine h.imp fun hab a ha b hb => ?_
  obtain ⟨_, -, rfl⟩ := Option.map_eq_some_iff.mp ha
  obtain ⟨_, -, rfl⟩ := Option.map_eq_some_iff.mp hb
  exact hab

theorem hasNamespace_idOfNames (names : List String) : HasNamespace (idOfNames names) := by
  rw [idOfNames]
  split <;> simp [HasNamespace]

theorem loadText_idOfNames (l : Library) (file : List String × String) :
    l.loadText (idOfNames file.1) file.2 =
      (compileFile file).map fun f => (idOfNames file.1, NameMap.insert l (idOfNames file.1) f) := by
  rw [loadText, loadLines, normalizeId_of_hasNamespace (hasNamespace_idOfNames file.1), compileFile]
  cases hcompile : Function.compile Command.parse (idOfNames file.1) Source.compiler.permission
      (Text.splitLines file.2) with
  | error f => rfl
  | ok f =>
    have hid : f.id = idOfNames file.1 := Function.id_compile hcompile
    rw [← hid]
    rfl

/-- A file that compiles puts its function into the library; one that does not leaves a fault, and
the library as it was. -/
theorem loadFiles_eq (root : String) (report : LoadReport) (l : Library)
    {found : List (List String × Except Tree.Obstacle ByteArray)}
    (h : ∀ file ∈ found, ∃ text, file.2.bind Tree.decode = .ok text) :
    loadFiles root report l found =
      (.ok ⟨report.loaded ++ (functionsOf (textsOf found)).map Prod.fst,
          report.faults ++ faultsOf root (textsOf found)⟩,
        (functionsOf (textsOf found)).foldl (fun l entry => NameMap.insert l entry.1 entry.2) l) := by
  induction found generalizing report l with
  | nil => simp [loadFiles, textsOf, functionsOf, faultsOf]
  | cons file rest ih =>
    obtain ⟨names, leaf⟩ := file
    rw [List.forall_mem_cons] at h
    obtain ⟨text, htext⟩ := h.1
    have htexts : textsOf ((names, leaf) :: rest) = (names, text) :: textsOf rest := by
      simp [textsOf, htext, Except.toOption]
    have hload := loadText_idOfNames l (names, text)
    rw [loadFiles, htexts]
    simp only [htext, hload]
    cases hcompile : compileFile (names, text) with
    | ok f =>
      have hfunctions : functionsOf ((names, text) :: textsOf rest) =
          (idOfNames names, f) :: functionsOf (textsOf rest) := by
        simp [functionsOf, hcompile, Except.toOption]
      have hfaults : faultsOf root ((names, text) :: textsOf rest) = faultsOf root (textsOf rest) := by
        simp [faultsOf, hcompile]
      rw [hfunctions, hfaults]
      simp [Except.map, ih _ _ h.2]
    | error f =>
      have hfunctions : functionsOf ((names, text) :: textsOf rest) = functionsOf (textsOf rest) := by
        simp [functionsOf, hcompile, Except.toOption]
      have hfaults : faultsOf root ((names, text) :: textsOf rest) =
          faultIn root names f :: faultsOf root (textsOf rest) := by
        simp [faultsOf, hcompile]
      rw [hfunctions, hfaults]
      simp [Except.map, ih _ _ h.2, faultIn]

theorem length_functionsOf_add (root : String) (texts : List (List String × String)) :
    (functionsOf texts).length + (faultsOf root texts).length = texts.length := by
  induction texts with
  | nil => rfl
  | cons file rest ih =>
    rw [functionsOf, faultsOf, List.filterMap_cons, List.filterMap_cons, ← functionsOf, ← faultsOf]
    cases compileFile file with
    | ok f => simp [Except.toOption]; omega
    | error f => simp [Except.toOption]; omega

/-! ### Loading the folder -/

/-- **Loading a folder.** In a folder that can be read, in which every file of function texts is text,
each of these files is compiled once, in order, under the id its names spell. Those that compile are
reported as loaded and the others by a fault with their path, in that order; and under an id stands
what the last of its files that compile made, or else what stood there before. -/
theorem loadFolder_readable (l : Library) (files : Files) {path : String}
    {entries : List (String × Tree)} (hfind : files.find path = .ok (.folder entries))
    (hreadable : (Tree.folder entries).Readable path)
    (htext : ∀ names bytes, (Tree.folder entries).Leads names (.file bytes) →
      isFunctionFile names = true → ∃ text, Tree.decode bytes = .ok text) :
    ∃ texts : List (List String × String),
      (∀ names text, (names, text) ∈ texts ↔
        ∃ folders stem bytes, stem ≠ "" ∧ names = folders ++ [stem ++ "." ++ functionExtension] ∧
          (Tree.folder entries).Leads names (.file bytes) ∧ Tree.decode bytes = .ok text) ∧
      texts.Pairwise (fun a b => List.Lex (fun x y => x < y) a.1 b.1) ∧
      (l.loadFolder files path).1 = .ok ⟨(functionsOf texts).map Prod.fst, faultsOf path texts⟩ ∧
      (functionsOf texts).length + (faultsOf path texts).length = texts.length ∧
      ∀ id, NameMap.get? (l.loadFolder files path).2 id =
        ((functionsOf texts).reverse.lookup id).or (l.get? id) := by
  have hdecodes : ∀ file ∈ functionFiles path (.folder entries),
      ∃ text, file.2.bind Tree.decode = .ok text := by
    rintro ⟨names, leaf⟩ hfile
    obtain ⟨hfunction, bytes, rfl, hleads⟩ := (mem_functionFiles hreadable names leaf).mp hfile
    exact htext names bytes hleads hfunction
  have hload : l.loadFolder files path =
      loadFiles path {} l (functionFiles path (.folder entries)) := by
    rw [loadFolder, hfind]
  refine ⟨textsOf (functionFiles path (.folder entries)), fun names text => ?_, ?_, ?_,
    length_functionsOf_add path _, fun id => ?_⟩
  · rw [mem_textsOf]
    constructor
    · rintro ⟨leaf, hfile, hleaf⟩
      obtain ⟨hfunction, bytes, rfl, hleads⟩ := (mem_functionFiles hreadable names leaf).mp hfile
      obtain ⟨folders, stem, hstem, hnames⟩ := (isFunctionFile_iff names).mp hfunction
      exact ⟨folders, stem, bytes, hstem, hnames, hleads, hleaf⟩
    · rintro ⟨folders, stem, bytes, hstem, hnames, hleads, hdecode⟩
      have hfunction := (isFunctionFile_iff names).mpr ⟨folders, stem, hstem, hnames⟩
      exact ⟨.ok bytes, (mem_functionFiles hreadable names _).mpr ⟨hfunction, bytes, rfl, hleads⟩,
        hdecode⟩
  · exact textsOf_sorted (functionFiles_sorted hreadable)
  · rw [hload, loadFiles_eq path {} l hdecodes]
    rfl
  · rw [hload, loadFiles_eq path {} l hdecodes]
    exact NameMap.get?_foldl _ l id

end Library

end Trampoline
