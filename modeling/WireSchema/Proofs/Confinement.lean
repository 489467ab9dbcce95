import WireSchema.Proofs.Generation

/-!
What a run of the generator touches. A run that ends well writes sources right into the output
directory and makes the directories on the way to it; all else stays. As long as sources are no
schemas by their names, the next run finds the schemas that this one found, and so repeats it.
-/

namespace WireSchema

open Files Tree

namespace Generator

/-- A selected path is that of a file in the directory whose name is that of a schema. -/
theorem mem_select {g : Generator} {directory path : String} {entries : List (Name × Entry)}
    (h : path ∈ g.select directory entries) :
    ∃ name entry, (name, entry) ∈ entries ∧ g.takes name.text = true ∧
      path = join directory name.text := by
  unfold select at h
  obtain ⟨text, htext, rfl⟩ := List.mem_map.mp (List.mem_filter.mp h).1
  obtain ⟨⟨name, entry⟩, hm, he⟩ := List.mem_filterMap.mp (List.mem_mergeSort.mp htext)
  cases entry with
  | directory => cases he
  | file content =>
    obtain ⟨ht, rfl⟩ : g.takes name.text = true ∧ name.text = text := by simpa using he
    exact ⟨name, .file content, hm, ht, rfl⟩

structure SameSchemas (g : Generator) (t t' : Tree) : Prop where
  keeps : Keeps t t'
  found : ∀ place,
    t'.entries.filterMap (g.schemaIn? place) = t.entries.filterMap (g.schemaIn? place)
  content : ∀ place name entry, t.get? (place ++ [name]) = some entry → g.takes name.text = true →
    t'.get? (place ++ [name]) = some entry

section

variable {g : Generator} {t t' : Tree} (h : SameSchemas g t t')

include h

theorem SameSchemas.collect {inputs paths : List String} (hc : g.collect t inputs = .ok paths) :
    g.collect t' inputs = .ok paths := by
  induction inputs generalizing paths with
  | nil => exact hc
  | cons directory rest ih =>
    obtain ⟨entries, others, hlist, hrest, rfl⟩ := collect_cons_eq_ok.mp hc
    obtain ⟨place, hresolve, hdir, rfl⟩ := list_eq_ok.mp hlist
    obtain ⟨hpath, hne, hwalk⟩ := resolve_eq_ok.mp hresolve
    have hresolve' : t'.resolve directory = .ok place :=
      resolve_eq_ok.mpr ⟨hpath, hne, h.keeps.walk hwalk⟩
    refine collect_cons_eq_ok.mpr ⟨t'.children place, others, ?_, ih hrest, ?_⟩
    · exact list_eq_ok.mpr ⟨place, hresolve', h.keeps place hdir, rfl⟩
    · rw [select_children, select_children, h.found]

/-- A schema found in one tree is read the same in the other. -/
theorem SameSchemas.compileFile {inputs paths : List String}
    (hc : g.collect t inputs = .ok paths) {path : String} (hp : path ∈ paths) :
    g.compileFile t' path = g.compileFile t path := by
  obtain ⟨directory, _, entries, hlist, hselect⟩ := mem_collect hc hp
  obtain ⟨place, hresolve, hdir, rfl⟩ := list_eq_ok.mp hlist
  obtain ⟨_, _, hwalk⟩ := resolve_eq_ok.mp hresolve
  obtain ⟨name, entry, hm, ht, rfl⟩ := mem_select hselect
  have hentry := get?_of_child.mp hm
  unfold Generator.compileFile
  rw [read_join hwalk hdir, read_join (h.keeps.walk hwalk) (h.keeps place hdir), hentry,
    h.content place name entry hentry ht]

theorem SameSchemas.results {inputs paths : List String} (hc : g.collect t inputs = .ok paths) :
    g.results t' paths = g.results t paths :=
  List.map_congr_left fun _ hp => by rw [h.compileFile hc hp]

end

/-- Sources that are no schemas by their names leave the schemas as they were. -/
theorem Commits.sameSchemas {g : Generator} {t made : Tree} {output : String}
    {units : List CompiledUnit} {place : Place} (h : Commits t output units place made)
    (hskips : ∀ u ∈ units, g.takes u.fileName = false) :
    SameSchemas g t (putAll place made units) := by
  refine ⟨h.adds.keeps.trans h.keeps, ?_, ?_⟩
  · intro directory
    rw [filterMap_putAll, h.adds.view _ _ fun _ => rfl]
    intro u hu name htext entry
    cases entry with
    | directory => rfl
    | file content =>
      apply Option.filter_eq_none_iff.mpr
      intro text hfound
      obtain ⟨found, hname, rfl⟩ := Option.map_eq_some_iff.mp hfound
      obtain ⟨_, hlast⟩ := List.append_inj' (nameIn?_eq_some.mp hname) rfl
      rw [← (List.cons.inj hlast).1, htext, hskips u hu]
      exact Bool.false_ne_true
  · intro directory name entry hfound ht
    have hother : ∀ u ∈ units, ∀ other : Name, other.text = u.fileName →
        directory ++ [name] ≠ place ++ [other] := by
      intro u hu other htext he
      obtain ⟨_, hname⟩ := List.append_inj' he rfl
      cases hname
      rw [htext, hskips u hu] at ht
      cases ht
    rw [get?_putAll_of_ne hother, h.adds.kept _ _ hfound]

theorem sameIgnoringCase_comm (a b : String) : sameIgnoringCase a b = sameIgnoringCase b a :=
  BEq.comm

/-- Generated files are schemas only to a generator that looks for the extension that they have. -/
theorem takes_source {g : Generator} {wanted name : String} (hg : g.extension = some wanted)
    (hn : IsSourceName name) : g.takes name = sameIgnoringCase wanted "rs" := by
  simp [takes, hg, hn.extension, sameIgnoringCase_comm]

/-- From `t` to `t'`, sources were written right into the directory at `place`, to which the path
`output` leads, and nothing else was done than to make the directories on that way. -/
structure Confined (t t' : Tree) (output : String) (written : List String) (place : Place) :
    Prop where
  leads : t'.walk [] (components output) = .ok place
  directory : t'.get? place = some .directory
  sources : ∀ target ∈ written, ∃ name : Name, IsSourceName name.text ∧
    target = join output name.text ∧ t'.resolve target = .ok (place ++ [name])
  frame : ∀ q, t'.get? q = t.get? q ∨
    (∃ (name : Name) (content : Bytes), join output name.text ∈ written ∧ q = place ++ [name] ∧
      t.get? q ≠ some .directory ∧ t'.get? q = some (.file content)) ∨
    (t.get? q = none ∧ t'.get? q = some .directory ∧
      ∃ names ∈ wayTo output, t'.walk [] names = .ok q)

/-- Writing units leaves all else as it was, and what lies in the output directory too unless a
unit has its name. -/
theorem Commits.confined {t made : Tree} {output : String} {units : List CompiledUnit}
    {place : Place} (h : Commits t output units place made)
    (hsources : ∀ u ∈ units, IsSourceName u.fileName)
    (hfiles : (units.map CompiledUnit.fileName).Nodup) :
    Confined t (putAll place made units) output (units.map fun u => join output u.fileName)
      place := by
  refine ⟨h.walk_after, h.directory_after, ?_, ?_⟩
  · intro target htarget
    obtain ⟨u, hu, rfl⟩ := List.mem_map.mp htarget
    obtain ⟨hpath, name, htext, _⟩ := h.writable u hu
    rw [← htext] at hpath ⊢
    refine ⟨name, htext ▸ hsources u hu, rfl, ?_⟩
    rw [resolve_join h.walk_after h.directory_after name.isName, hpath, follow_name]
    rfl
  · intro q
    by_cases hq : ∃ u ∈ units, ∃ name : Name, name.text = u.fileName ∧ q = place ++ [name]
    · obtain ⟨u, hu, name, htext, rfl⟩ := hq
      refine .inr (.inl ⟨name, _, List.mem_map.mpr ⟨u, hu, by rw [htext]⟩, rfl, ?_,
        get?_putAll_of_mem hfiles hu htext place made⟩)
      intro hold
      obtain ⟨_, other, hother, hfree⟩ := h.writable u hu
      rw [Name.ext (hother.trans htext.symm)] at hfree
      exact hfree (h.adds.keeps _ hold)
    · have hother : ∀ u ∈ units, ∀ name : Name, name.text = u.fileName → q ≠ place ++ [name] :=
        fun u hu name htext he => hq ⟨u, hu, name, htext, he⟩
      rw [get?_putAll_of_ne hother]
      cases hold : t.get? q with
      | some entry => exact .inl (h.adds.kept q entry hold)
      | none =>
        cases hnew : made.get? q with
        | none => exact .inl rfl
        | some entry =>
          rcases h.adds.new q entry hnew with hsame | ⟨rfl, names, hm, hnames⟩
          · rw [hold] at hsame
            cases hsame
          · exact .inr (.inr ⟨rfl, rfl, names, hm, h.keeps.walk hnames⟩)

/-- A run that ends well is confined to the output directory, and if sources are no schemas by their
names, the same run once more gives the same report and changes nothing. -/
theorem generate_confined {g : Generator} {t t' : Tree} {inputs : List String} {output : String}
    {report : Report} (h : g.generate t inputs output = (.ok report, t')) :
    (∃ place, Confined t t' output report.written place) ∧
    ∀ wanted, g.extension = some wanted → sameIgnoringCase wanted "rs" = false →
      g.generate t' inputs output = (.ok report, t') := by
  obtain ⟨paths, units, failures, kept, left, hc, hs, ha, hcommit⟩ := generate_eq_ok h
  have hsources := unit_isSourceName ha
  have hnames : ∀ u ∈ units, IsName u.fileName := fun u hu => (hsources u hu).isName
  have hagain := commit_again hnames ha.fileNames_nodup hcommit
  obtain ⟨place, made, hcommits, rfl, rfl⟩ := (commit_eq_ok hnames).mp hcommit
  refine ⟨⟨place, hcommits.confined hsources ha.fileNames_nodup⟩, ?_⟩
  intro wanted hg hother
  have hsame : SameSchemas g t (putAll place made units) :=
    hcommits.sameSchemas fun u hu => (takes_source hg (hsources u hu)).trans hother
  rw [← hsame.results hc] at hs
  exact (generate_of_settled (hsame.collect hc) hs output).trans hagain

/-- The sources come to lie among the schemas, and are passed over by the next run. -/
theorem generate_confined_inbox :
    sameIgnoringCase "json" "rs" = false ∧
      Samples.lenient.generate Samples.inbox ["in"] "in/new/.." =
        (.ok Samples.inboxReport, Samples.inboxAfter) ∧
      (∃ place, Confined Samples.inbox Samples.inboxAfter "in/new/.." Samples.inboxReport.written
        place) ∧
      Samples.lenient.generate Samples.inboxAfter ["in"] "in/new/.." =
        (.ok Samples.inboxReport, Samples.inboxAfter) := by
  have hother : sameIgnoringCase "json" "rs" = false := by decide
  obtain ⟨hconfined, hagain⟩ := generate_confined Samples.generate_inbox
  exact ⟨hother, Samples.generate_inbox, hconfined, hagain "json" rfl hother⟩

end Generator

end WireSchema
