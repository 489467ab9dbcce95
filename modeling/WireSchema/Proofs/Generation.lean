import WireSchema.Proofs.OutputName
import WireSchema.Proofs.Settlement
import WireSchema.Proofs.Writing

/-!
Runs of the generator as a whole: what a run leaves in the file tree, what it reports, and how the
two policies about failures compare.
-/

namespace WireSchema

open Files Tree

namespace Generator

def schemaIn? (g : Generator) (directory : Place) : Place × Entry → Option String
  | (place, .file _) => ((nameIn? directory place).map Name.text).filter g.takes
  | (_, .directory) => none

/-- The schemas found in a directory are those that its view shows. -/
theorem select_children (g : Generator) (t : Tree) (path : String) (place : Place) :
    g.select path (t.children place) =
      (((t.entries.filterMap (g.schemaIn? place)).mergeSort fun a b => decide (a ≤ b)).map
        (join path)).filter fun p => !isLongPath p := by
  unfold select children
  rw [List.filterMap_filterMap]
  dsimp only
  congr 4
  funext ⟨p, entry⟩
  cases hn : nameIn? place p with
  | none => cases entry <;> simp [schemaIn?, hn]
  | some name => cases entry <;> simp [schemaIn?, hn, Option.filter]

theorem collect_cons_eq_ok {g : Generator} {t : Tree} {directory : String}
    {rest paths : List String} :
    g.collect t (directory :: rest) = .ok paths ↔ ∃ entries others,
      t.list directory = .ok entries ∧ g.collect t rest = .ok others ∧
      paths = g.select directory entries ++ others := by
  simp only [collect, bind_eq_ok, mapError_eq_ok, pure_eq_ok, Except.ok.injEq]
  constructor
  · rintro ⟨entries, he, others, ho, rfl⟩
    exact ⟨entries, others, he, ho, rfl⟩
  · rintro ⟨entries, others, he, ho, rfl⟩
    exact ⟨entries, he, others, ho, rfl⟩

/-- Going through directories stops at one that cannot be listed, and names it. -/
theorem collect_eq_error {g : Generator} {t : Tree} {inputs : List String} {e : GeneratorError}
    (h : g.collect t inputs = .error e) :
    ∃ directory ∈ inputs, ∃ cause, t.list directory = .error cause ∧
      e = .access directory cause := by
  induction inputs with
  | nil => cases h
  | cons directory rest ih =>
    rcases bind_eq_error.mp h with hlist | ⟨entries, _, h⟩
    · obtain ⟨cause, hc, he⟩ := mapError_eq_error.mp hlist
      exact ⟨directory, List.mem_cons_self, cause, hc, he⟩
    · rcases bind_eq_error.mp h with hrest | ⟨_, _, he⟩
      · obtain ⟨other, ho, cause, hc⟩ := ih hrest
        exact ⟨other, List.mem_cons_of_mem _ ho, cause, hc⟩
      · cases he

theorem list_of_collect {g : Generator} {t : Tree} {inputs paths : List String}
    (h : g.collect t inputs = .ok paths) :
    ∀ directory ∈ inputs, ∃ entries, t.list directory = .ok entries := by
  induction inputs generalizing paths with
  | nil => simp
  | cons directory rest ih =>
    obtain ⟨entries, others, hlist, hrest, _⟩ := collect_cons_eq_ok.mp h
    exact List.forall_mem_cons.mpr ⟨⟨entries, hlist⟩, ih hrest⟩

theorem mem_collect {g : Generator} {t : Tree} {inputs paths : List String}
    (h : g.collect t inputs = .ok paths) {path : String} (hp : path ∈ paths) :
    ∃ directory ∈ inputs, ∃ entries, t.list directory = .ok entries ∧
      path ∈ g.select directory entries := by
  induction inputs generalizing paths with
  | nil =>
    cases h
    cases hp
  | cons directory rest ih =>
    obtain ⟨entries, others, hlist, hrest, rfl⟩ := collect_cons_eq_ok.mp h
    rcases List.mem_append.mp hp with hp | hp
    · exact ⟨directory, List.mem_cons_self, entries, hlist, hp⟩
    · obtain ⟨other, ho, hfound⟩ := ih hrest hp
      exact ⟨other, List.mem_cons_of_mem _ ho, hfound⟩

/-- Compiling a schema fails for its file, for its text or for its message. -/
theorem compileFile_eq_error {g : Generator} {t : Tree} {path : String} {e : GeneratorError}
    (h : g.compileFile t path = .error e) :
    (∃ cause, (t.read path).bind decodeText = .error cause ∧ e = .access path cause) ∨
      (∃ cause, e = .load path cause) ∨ ∃ cause, e = .compile path cause := by
  rcases bind_eq_error.mp h with hread | ⟨text, _, h⟩
  · exact .inl (mapError_eq_error.mp hread)
  · rcases bind_eq_error.mp h with hload | ⟨message, _, h⟩
    · obtain ⟨cause, _, he⟩ := mapError_eq_error.mp hload
      exact .inr (.inl ⟨cause, he⟩)
    · obtain ⟨cause, _, he⟩ := mapError_eq_error.mp h
      exact .inr (.inr ⟨cause, he⟩)

theorem compileFile_eq_ok {g : Generator} {t : Tree} {path : String} {u : CompiledUnit}
    (h : g.compileFile t path = .ok u) :
    (∃ text, (t.read path).bind decodeText = .ok text) ∧ IsSourceName u.fileName := by
  obtain ⟨text, htext, h⟩ := bind_eq_ok.mp h
  obtain ⟨message, _, h⟩ := bind_eq_ok.mp h
  exact ⟨⟨text, mapError_eq_ok.mp htext⟩, compile_isSourceName (mapError_eq_ok.mp h)⟩

theorem getElem?_results {g : Generator} {t : Tree} {paths : List String} {i : Nat} {path : String}
    {result : Except GeneratorError CompiledUnit} :
    (g.results t paths)[i]? = some (path, result) ↔
      paths[i]? = some path ∧ g.compileFile t path = result := by
  simp only [results, List.getElem?_map, Option.map_eq_some_iff, Prod.mk.injEq]
  constructor
  · rintro ⟨_, hp, rfl, hr⟩
    exact ⟨hp, hr⟩
  · rintro ⟨hp, hr⟩
    exact ⟨path, hp, rfl, hr⟩

theorem unit_isSourceName {g : Generator} {t : Tree} {paths : List String} {kept left : List Nat}
    {units : List CompiledUnit} {failures : List UnitFailure}
    (h : Account (g.results t paths) kept left units failures) :
    ∀ u ∈ units, IsSourceName u.fileName := by
  intro u hu
  obtain ⟨i, _, path, hpath, _⟩ := exists_of_mem_right h.units hu
  exact (compileFile_eq_ok (getElem?_results.mp hpath).2).2

/-- A run that ends well: its schemas are found, accounted for, and committed. -/
theorem generate_eq_ok {g : Generator} {t t' : Tree} {inputs : List String} {output : String}
    {report : Report} (h : g.generate t inputs output = (.ok report, t')) :
    ∃ paths units failures kept left, g.collect t inputs = .ok paths ∧
      settle g.policy [] (g.results t paths) = .ok (units, failures) ∧
      Account (g.results t paths) kept left units failures ∧
      commit t output units failures = (.ok report, t') := by
  unfold generate at h
  split at h
  · cases h
  · rename_i units failures hp
    obtain ⟨paths, hc, hs⟩ := bind_eq_ok.mp hp
    obtain ⟨kept, left, ha⟩ := exists_account hs
    exact ⟨paths, units, failures, kept, left, hc, hs, ha, h⟩

/-- The schemas found do not depend on the policy. -/
theorem collect_policy (g : Generator) (policy : FailurePolicy) (t : Tree) (inputs : List String) :
    ({ g with policy := policy } : Generator).collect t inputs = g.collect t inputs := by
  induction inputs with
  | nil => rfl
  | cons directory rest ih =>
    rw [collect, ih]
    rfl

section

variable {g : Generator} {t : Tree} {inputs paths : List String} {policy : FailurePolicy}
  (h : g.collect t inputs = .ok paths)

include h

theorem prepare_of_collect : ({ g with policy := policy } : Generator).prepare t inputs =
    settle policy [] (g.results t paths) := by
  unfold prepare
  rw [collect_policy, h]
  rfl

/-- A run that is not stopped by a schema writes all units that it has. -/
theorem generate_of_settled {units : List CompiledUnit} {failures : List UnitFailure}
    (hs : settle policy [] (g.results t paths) = .ok (units, failures)) (output : String) :
    ({ g with policy := policy } : Generator).generate t inputs output =
      commit t output units failures := by
  simp only [generate, prepare_of_collect h, hs]

/-- A run that is stopped by a schema writes nothing. -/
theorem generate_of_stopped {e : GeneratorError}
    (hs : settle policy [] (g.results t paths) = .error e) (output : String) :
    ({ g with policy := policy } : Generator).generate t inputs output = (.error e, t) := by
  simp only [generate, prepare_of_collect h, hs]

end

/-- A run that cannot list its directories writes nothing, whatever its policy. -/
theorem generate_of_collect_error {g : Generator} {t : Tree} {inputs : List String}
    {e : GeneratorError} (h : g.collect t inputs = .error e) (policy : FailurePolicy)
    (output : String) :
    ({ g with policy := policy } : Generator).generate t inputs output = (.error e, t) := by
  simp only [generate, prepare, collect_policy, h, error_bind]

/-- An error of the inputs of a run: a directory cannot be listed, a schema cannot be read, or what
is read gives no unit of its own. -/
def OnInput (g : Generator) (t : Tree) (inputs : List String) : GeneratorError → Prop
  | .access path cause =>
    (path ∈ inputs ∧ t.list path = .error cause) ∨
      ∃ paths, g.collect t inputs = .ok paths ∧ path ∈ paths ∧
        (t.read path).bind decodeText = .error cause
  | .load _ _ => True
  | .compile _ _ => True
  | .duplicateOutput _ _ _ => True

/-- A schema fails for what is in the inputs, never for the output directory. -/
theorem FailsAt.onInput {g : Generator} {t : Tree} {inputs paths : List String}
    (hc : g.collect t inputs = .ok paths) {i : Nat} {f : UnitFailure}
    (h : FailsAt (g.results t paths) i f) : OnInput g t inputs f.error := by
  cases h with
  | duplicate _ _ _ he =>
    rw [he]
    trivial
  | broken found =>
    obtain ⟨hp, hr⟩ := getElem?_results.mp found
    rcases compileFile_eq_error hr with ⟨cause, hread, he⟩ | ⟨cause, he⟩ | ⟨cause, he⟩
    · rw [he]
      exact .inr ⟨paths, hc, List.mem_of_getElem? hp, hread⟩
    · rw [he]
      trivial
    · rw [he]
      trivial

/-- Once all schemas are found and compiled, no error is one of the inputs. -/
theorem not_onInput_access {g : Generator} {t : Tree} {inputs paths : List String}
    (hc : g.collect t inputs = .ok paths) {kept left : List Nat} {units : List CompiledUnit}
    (ha : Account (g.results t paths) kept left units []) (path : String) (cause : AccessError) :
    ¬ OnInput g t inputs (.access path cause) := by
  rintro (⟨hm, hlist⟩ | ⟨paths', hc', hm, hread⟩)
  · obtain ⟨entries, he⟩ := list_of_collect hc path hm
    rw [hlist] at he
    cases he
  · rw [hc] at hc'
    cases hc'
    obtain ⟨i, hi, hp⟩ := List.getElem_of_mem hm
    have hleft : left = [] := by simpa using ha.failures.length_eq
    subst hleft
    have hkept : i ∈ kept := by
      have hlt : i < (g.results t paths).length := by simpa [results] using hi
      simpa using ha.mem_iff.mpr hlt
    obtain ⟨u, _, path', hu, _⟩ := ha.keptAt hkept
    obtain ⟨hp', hu⟩ := getElem?_results.mp hu
    have hsame : path = path' := by
      rw [List.getElem?_eq_getElem hi, hp] at hp'
      exact Option.some.inj hp'
    subst hsame
    obtain ⟨⟨text, htext⟩, _⟩ := compileFile_eq_ok hu
    rw [hread] at htext
    cases htext

/-- Both policies on the same inputs. An error of the inputs stops a run before it changes the tree,
and every other error names the output directory or a file in it. Where no schema is left out the
policies agree; where some are, stopping gives the error of the first that fails. -/
theorem policies_agree (g : Generator) (t : Tree) (inputs : List String) (output : String) :
    let stopping := ({ g with policy := .failFast } : Generator).generate t inputs output
    let leaving := ({ g with policy := .keepGoing } : Generator).generate t inputs output
    (∀ e, stopping.1 = .error e →
      (OnInput g t inputs e → stopping.2 = t) ∧
      (OnInput g t inputs e ∨ ∃ target cause, e = .access target cause ∧
        (target = output ∨ ∃ name, IsSourceName name ∧ target = join output name))) ∧
    ∀ report, leaving.1 = .ok report →
      (report.failures = [] → stopping = leaving) ∧
      ∀ f rest, report.failures = f :: rest → stopping = (.error f.error, t) ∧
        ∃ paths i, g.collect t inputs = .ok paths ∧ FailsAt (g.results t paths) i f ∧
          ∀ j < i, ∀ f', ¬ FailsAt (g.results t paths) j f' := by
  intro stopping leaving
  cases hc : g.collect t inputs with
  | error e =>
    have hstopping : stopping = (.error e, t) := generate_of_collect_error hc .failFast output
    have hleaving : leaving = (.error e, t) := generate_of_collect_error hc .keepGoing output
    rw [hstopping, hleaving]
    constructor
    · intro e' he
      cases he
      obtain ⟨directory, hm, cause, hlist, rfl⟩ := collect_eq_error hc
      exact ⟨fun _ => rfl, .inl (.inl ⟨hm, hlist⟩)⟩
    · intro report hr
      cases hr
  | ok paths =>
    obtain ⟨units, failures, hkeep, hfast⟩ := settle_policies [] (g.results t paths)
    obtain ⟨kept, left, ha⟩ := exists_account hkeep
    have hleaving : leaving = commit t output units failures := generate_of_settled hc hkeep output
    cases failures with
    | nil =>
      have hstopping : stopping = commit t output units [] := generate_of_settled hc hfast output
      rw [hstopping, hleaving]
      constructor
      · intro e he
        obtain ⟨target, cause, rfl, htarget⟩ := commit_eq_error he
        have hnot := not_onInput_access hc ha target cause
        refine ⟨fun h => absurd h hnot, .inr ⟨target, cause, rfl, ?_⟩⟩
        rcases htarget with hout | ⟨u, hu, htarget⟩
        · exact .inl hout
        · exact .inr ⟨u.fileName, unit_isSourceName ha u hu, htarget⟩
      · intro report hr
        refine ⟨fun _ => rfl, ?_⟩
        intro f rest hf
        rw [commit_failures hr] at hf
        cases hf
    | cons f others =>
      have hstopping : stopping = (.error f.error, t) := generate_of_stopped hc hfast output
      obtain ⟨i, hfails, hfirst⟩ := ha.first
      rw [hstopping, hleaving]
      constructor
      · intro e he
        cases he
        exact ⟨fun _ => rfl, .inl (hfails.onInput hc)⟩
      · intro report hr
        rw [commit_failures hr]
        refine ⟨fun h => absurd h (by simp), ?_⟩
        intro f' rest hf
        cases hf
        exact ⟨rfl, paths, i, rfl, hfails, hfirst⟩

end Generator

namespace Samples

def schemaFile (message : String) : Entry :=
  .file (Text.encode ("\x7b\"name\": \"" ++ message ++ "\"\x7d").toList)

def placeOf (names : List String) : Place := names.filterMap Name.ofString?

def treeOf (rows : List (List String × Entry)) : Tree :=
  rows.foldl (fun t row => t.set (placeOf row.1) row.2) .empty

/-- A directory with two schemas for one file, one that is cut off, and one for another file. -/
def inbox : Tree :=
  treeOf
    [(["in"], .directory),
     (["in", "a.json"], schemaFile "Foo"),
     (["in", "b.json"], schemaFile "Foo"),
     (["in", "c.json"], .file (Text.encode ['['])),
     (["in", "d.json"], schemaFile "BarBaz")]

def lenient : Generator where
  options := {}
  policy := .keepGoing

def inboxReport : Report where
  written := ["in/new/../foo.rs", "in/new/../bar_baz.rs"]
  failures :=
    [⟨"in/b.json", .duplicateOutput "foo.rs" "in/a.json" "in/b.json"⟩,
     ⟨"in/c.json", .load "in/c.json" (.json ⟨.incomplete, 2⟩)⟩]

theorem collect_inbox : lenient.collect inbox ["in"] =
    .ok ["in/a.json", "in/b.json", "in/c.json", "in/d.json"] := by
  have hsorted : ["a.json", "b.json", "c.json", "d.json"].mergeSort (fun a b => decide (a ≤ b)) =
      ["a.json", "b.json", "c.json", "d.json"] := List.mergeSort_of_pairwise (by decide)
  have hnames : inbox.entries.filterMap (lenient.schemaIn? (placeOf ["in"])) =
      ["a.json", "b.json", "c.json", "d.json"] := by decide +kernel
  refine Generator.collect_cons_eq_ok.mpr
    ⟨inbox.children (placeOf ["in"]), [], by decide +kernel, rfl, ?_⟩
  rw [Generator.select_children, hnames, hsorted]
  decide +kernel

/-- The tree behind a run whose output directory is its input directory, by way of one that is
made. -/
def inboxAfter : Tree := (lenient.generate inbox ["in"] "in/new/..").2

theorem generate_inbox :
    lenient.generate inbox ["in"] "in/new/.." = (.ok inboxReport, inboxAfter) := by
  refine Prod.ext ?_ rfl
  unfold Generator.generate Generator.prepare
  rw [collect_inbox]
  decide +kernel

end Samples

namespace Generator

/-- Two schemas for one file: one policy leaves out the second, and the other stops there. -/
theorem policies_agree_inbox :
    Samples.lenient.generate Samples.inbox ["in"] "in/new/.." =
        (.ok Samples.inboxReport, Samples.inboxAfter) ∧
      ({ Samples.lenient with policy := .failFast } : Generator).generate Samples.inbox ["in"]
          "in/new/.." =
        (.error (.duplicateOutput "foo.rs" "in/a.json" "in/b.json"), Samples.inbox) := by
  obtain ⟨_, hleaving⟩ := policies_agree Samples.lenient Samples.inbox ["in"] "in/new/.."
  have hreport := hleaving Samples.inboxReport (congrArg Prod.fst Samples.generate_inbox)
  exact ⟨Samples.generate_inbox, (hreport.2 _ _ rfl).1⟩

def WrittenFrom (g : Generator) (t t' : Tree) (output : String) (paths : List String) (i : Nat)
    (target : String) : Prop :=
  ∃ path u, paths[i]? = some path ∧ g.compileFile t path = .ok u ∧
    target = join output u.fileName ∧ t'.read target = .ok (Text.encode u.source.toList)

/-- An account of a run from `t` to `t'`: the schemas at `kept` are written and those at `left` are
left out, both in the order of the inputs. -/
structure RunAccount (g : Generator) (t t' : Tree) (output : String) (paths : List String)
    (report : Report) (kept left : List Nat) : Prop where
  keptSorted : kept.Pairwise (· < ·)
  leftSorted : left.Pairwise (· < ·)
  all : (kept ++ left).Perm (List.range paths.length)
  written : List.Forall₂ (WrittenFrom g t t' output paths) kept report.written
  failures : List.Forall₂ (FailsAt (g.results t paths)) left report.failures
  failurePaths : List.Forall₂ (fun i f => paths[i]? = some f.path) left report.failures
  distinct : report.written.Nodup
  /-- A schema that compiles is left out just if one before it gives the same file. -/
  duplicate : ∀ i path u, paths[i]? = some path → g.compileFile t path = .ok u →
    (i ∈ left ↔ ∃ j < i, ∃ other, GivesAt (g.results t paths) u.fileName j other)
  /-- Its error names the first schema that gives the file, and itself. -/
  duplicateError : ∀ i path u f, paths[i]? = some path → g.compileFile t path = .ok u →
    FailsAt (g.results t paths) i f → ∃ j first, j < i ∧
      FirstAt (g.results t paths) u.fileName j first ∧
      f.error = .duplicateOutput u.fileName first path

theorem FailsAt.path {g : Generator} {t : Tree} {paths : List String} {i : Nat} {f : UnitFailure}
    (h : FailsAt (g.results t paths) i f) : paths[i]? = some f.path := by
  cases h with
  | broken found => exact (getElem?_results.mp found).1
  | duplicate found => exact (getElem?_results.mp found).1

/-- A run that ends well, under either policy, loses no schema and writes no file twice: each is
written or left out, and what is written is the schema's own source. -/
theorem generate_accounts {g : Generator} {t t' : Tree} {inputs : List String} {output : String}
    {report : Report} (h : g.generate t inputs output = (.ok report, t')) :
    ∃ paths kept left, g.collect t inputs = .ok paths ∧
      RunAccount g t t' output paths report kept left := by
  obtain ⟨paths, units, failures, kept, left, hc, _, ha, hcommit⟩ := generate_eq_ok h
  have hnames : ∀ u ∈ units, IsName u.fileName := fun u hu => (unit_isSourceName ha u hu).isName
  obtain ⟨place, made, hcommits, rfl, rfl⟩ := (commit_eq_ok hnames).mp hcommit
  have hcompiled {i : Nat} {path : String} {u : CompiledUnit} (hp : paths[i]? = some path)
      (hu : g.compileFile t path = .ok u) : (g.results t paths)[i]? = some (path, .ok u) :=
    getElem?_results.mpr ⟨hp, hu⟩
  refine ⟨paths, kept, left, hc, {
    keptSorted := ha.keptSorted
    leftSorted := ha.leftSorted
    all := by simpa [results] using ha.all
    written := ?_
    failures := ha.failures
    failurePaths := ha.failures.imp fun _ _ hf => hf.path
    distinct := ?_
    duplicate := fun i path u hp hu => ha.mem_left_iff_givesAt (hcompiled hp hu)
    duplicateError := fun i path u f hp hu hf =>
      ((failsAt_of_compiled (hcompiled hp hu)).mp hf).2 }⟩
  · apply List.forall₂_map_right_iff.mpr
    refine List.forall₂_iff_zip.mpr ⟨ha.units.length_eq, ?_⟩
    intro i u hm
    obtain ⟨path, hpath, _⟩ := List.forall₂_zip ha.units hm
    obtain ⟨hp, hu⟩ := getElem?_results.mp hpath
    have hmem := (List.of_mem_zip hm).2
    have hread := hcommits.read_after ha.fileNames_nodup hmem
    exact ⟨path, u, hp, hu, rfl, hread⟩
  · have hdistinct := ha.fileNames_nodup.map (fun _ _ => join_injective output)
    simpa [Function.comp_def] using hdistinct

theorem generate_accounts_inbox :
    Samples.lenient.generate Samples.inbox ["in"] "in/new/.." =
        (.ok Samples.inboxReport, Samples.inboxAfter) ∧
      ∃ paths kept left, Samples.lenient.collect Samples.inbox ["in"] = .ok paths ∧
        RunAccount Samples.lenient Samples.inbox Samples.inboxAfter "in/new/.." paths
          Samples.inboxReport kept left :=
  ⟨Samples.generate_inbox, generate_accounts Samples.generate_inbox⟩

end Generator

end WireSchema
