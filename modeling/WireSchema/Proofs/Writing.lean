import WireSchema.Generate
import WireSchema.Proofs.FileTree

/-!
What writing the units of a run does to a file tree: the output directory is there, and each unit's
file in it holds the unit's source. Nothing else is touched, so that writing the same units once
more changes nothing.
-/

namespace WireSchema.Generator

open Files Tree

def put (place : Place) (t : Tree) (u : CompiledUnit) : Tree :=
  match Name.ofString? u.fileName with
  | some name => t.set (place ++ [name]) (.file (Text.encode u.source.toList))
  | none => t

def putAll (place : Place) (t : Tree) (units : List CompiledUnit) : Tree :=
  units.foldl (put place) t

structure Writable (output : String) (place : Place) (t : Tree) (u : CompiledUnit) : Prop where
  path : requirePath (join output u.fileName) = .ok ()
  free : ∃ name : Name, name.text = u.fileName ∧ t.get? (place ++ [name]) ≠ some .directory

section

variable {place : Place} {t : Tree} {u : CompiledUnit} {name : Name}

theorem put_eq (htext : name.text = u.fileName) :
    put place t u = t.set (place ++ [name]) (.file (Text.encode u.source.toList)) := by
  rw [put, Name.ofString?_eq_some.mpr htext]

theorem get?_put (htext : name.text = u.fileName) (q : Place) :
    (put place t u).get? q =
      if q = place ++ [name] then some (.file (Text.encode u.source.toList)) else t.get? q := by
  rw [put_eq htext]
  exact get?_set t (by simp) _ q

theorem get?_put_of_ne {q : Place}
    (h : ∀ name : Name, name.text = u.fileName → q ≠ place ++ [name]) :
    (put place t u).get? q = t.get? q := by
  cases hname : Name.ofString? u.fileName with
  | none => rw [put, hname]
  | some name =>
    have htext := Name.ofString?_eq_some.mp hname
    rw [get?_put htext, if_neg (h name htext)]

/-- A file that is put leaves all directories, and makes none. -/
theorem get?_put_eq_directory (htext : name.text = u.fileName)
    (h : t.get? (place ++ [name]) ≠ some .directory) (q : Place) :
    (put place t u).get? q = some .directory ↔ t.get? q = some .directory := by
  rw [get?_put htext]
  by_cases hq : q = place ++ [name]
  · rw [if_pos hq, hq]
    exact iff_of_false (by simp) h
  · rw [if_neg hq]

theorem Writable.keeps {output : String} (h : Writable output place t u) (q : Place) :
    (put place t u).get? q = some .directory ↔ t.get? q = some .directory := by
  obtain ⟨name, htext, hfree⟩ := h.free
  exact get?_put_eq_directory htext hfree q

end

/-- A unit that was written does not stand in the way of another. -/
theorem writable_put {output : String} {place : Place} {t : Tree} {u v : CompiledUnit}
    (h : Writable output place t u) :
    Writable output place (put place t u) v ↔ Writable output place t v := by
  constructor
  · rintro ⟨hp, name, htext, hfree⟩
    exact ⟨hp, name, htext, mt (h.keeps _).mpr hfree⟩
  · rintro ⟨hp, name, htext, hfree⟩
    exact ⟨hp, name, htext, mt (h.keeps _).mp hfree⟩

theorem putAll_keeps {output : String} {place : Place} {t : Tree} {units : List CompiledUnit}
    (h : ∀ u ∈ units, Writable output place t u) : Keeps t (putAll place t units) := by
  induction units generalizing t with
  | nil => exact fun _ hq => hq
  | cons u rest ih =>
    have hu := h u List.mem_cons_self
    have hrest := ih fun v hv => (writable_put hu).mpr (h v (List.mem_cons_of_mem _ hv))
    exact fun q hq => hrest q ((hu.keeps q).mpr hq)

theorem get?_putAll_of_ne {place q : Place} {units : List CompiledUnit}
    (h : ∀ u ∈ units, ∀ name : Name, name.text = u.fileName → q ≠ place ++ [name]) (t : Tree) :
    (putAll place t units).get? q = t.get? q := by
  induction units generalizing t with
  | nil => rfl
  | cons u rest ih =>
    have hrest := ih (fun v hv => h v (List.mem_cons_of_mem _ hv)) (put place t u)
    exact hrest.trans (get?_put_of_ne (h u List.mem_cons_self))

/-- Of units with files of their own, each file holds the source of its unit. -/
theorem get?_putAll_of_mem {units : List CompiledUnit}
    (hn : (units.map CompiledUnit.fileName).Nodup) {u : CompiledUnit} (hu : u ∈ units) {name : Name}
    (htext : name.text = u.fileName) (place : Place) (t : Tree) :
    (putAll place t units).get? (place ++ [name]) =
      some (.file (Text.encode u.source.toList)) := by
  induction units generalizing t with
  | nil => cases hu
  | cons v rest ih =>
    obtain ⟨hnew, hn⟩ := List.nodup_cons.mp hn
    rcases List.mem_cons.mp hu with rfl | hu
    · have hne : ∀ w ∈ rest, ∀ other : Name, other.text = w.fileName →
          place ++ [name] ≠ place ++ [other] := by
        intro w hw other hother he
        have hname : name = other := by simpa using he
        rw [← hname, htext] at hother
        exact hnew (hother ▸ List.mem_map_of_mem hw)
      exact (get?_putAll_of_ne hne _).trans ((get?_put htext _).trans (if_pos rfl))
    · exact ih hn hu (put place t v)

/-- A view of the entries that leaves out the files put does not see them. -/
theorem filterMap_putAll {α : Type} {view : Place × Entry → Option α} {place : Place}
    {units : List CompiledUnit}
    (hv : ∀ u ∈ units, ∀ name : Name, name.text = u.fileName →
      ∀ entry, view (place ++ [name], entry) = none) (t : Tree) :
    (putAll place t units).entries.filterMap view = t.entries.filterMap view := by
  induction units generalizing t with
  | nil => rfl
  | cons u rest ih =>
    have hrest := ih (fun v hm => hv v (List.mem_cons_of_mem _ hm)) (put place t u)
    refine hrest.trans ?_
    cases hname : Name.ofString? u.fileName with
    | none => rw [put, hname]
    | some name =>
      have htext := Name.ofString?_eq_some.mp hname
      rw [put_eq htext]
      exact filterMap_setIn (hv u List.mem_cons_self name htext) _ _

/-- Putting what is there changes nothing. -/
theorem putAll_of_get? {place : Place} {t : Tree} {units : List CompiledUnit}
    (h : ∀ u ∈ units, ∀ name : Name, name.text = u.fileName →
      t.get? (place ++ [name]) = some (.file (Text.encode u.source.toList))) :
    putAll place t units = t := by
  induction units with
  | nil => rfl
  | cons u rest ih =>
    have hsame : put place t u = t := by
      cases hname : Name.ofString? u.fileName with
      | none => rw [put, hname]
      | some name =>
        have htext := Name.ofString?_eq_some.mp hname
        rw [put_eq htext]
        exact set_of_get? (by simp) (h u List.mem_cons_self name htext)
    rw [putAll, List.foldl_cons, hsame]
    exact ih fun v hv => h v (List.mem_cons_of_mem _ hv)

theorem writeUnits_cons_eq_ok {t t' : Tree} {output : String} {u : CompiledUnit}
    {rest : List CompiledUnit} {written : List String} :
    writeUnits t output (u :: rest) = (.ok written, t') ↔ ∃ made others,
      t.write (join output u.fileName) (Text.encode u.source.toList) = .ok made ∧
      writeUnits made output rest = (.ok others, t') ∧
      written = join output u.fileName :: others := by
  constructor
  · intro h
    unfold writeUnits at h
    dsimp only at h
    split at h
    · cases h
    · rename_i made hw
      split at h
      · rename_i others last hr
        cases h
        exact ⟨made, others, hw, hr, rfl⟩
      · cases h
  · rintro ⟨made, others, hw, hr, rfl⟩
    unfold writeUnits
    simp only [hw, hr]

/-- Writing units one after the other puts all of them, if each can be written. -/
theorem writeUnits_eq_ok {t t' : Tree} {output : String} {place : Place}
    {units : List CompiledUnit} {written : List String} (hn : ∀ u ∈ units, IsName u.fileName)
    (hw : t.walk [] (components output) = .ok place) (hd : t.get? place = some .directory) :
    writeUnits t output units = (.ok written, t') ↔
      (∀ u ∈ units, Writable output place t u) ∧
      written = units.map (fun u => join output u.fileName) ∧ t' = putAll place t units := by
  induction units generalizing t written with
  | nil =>
    constructor
    · intro h
      cases h
      exact ⟨by simp, rfl, rfl⟩
    · rintro ⟨_, rfl, rfl⟩
      rfl
  | cons u rest ih =>
    have hnames : ∀ v ∈ rest, IsName v.fileName := fun v hv => hn v (List.mem_cons_of_mem _ hv)
    have hkeeps (hu : Writable output place t u) : Keeps t (put place t u) :=
      fun q => (hu.keeps q).mpr
    simp only [writeUnits_cons_eq_ok, write_join_eq_ok hw hd (hn u List.mem_cons_self),
      List.forall_mem_cons]
    constructor
    · rintro ⟨_, others, ⟨hp, name, htext, hfree, rfl⟩, hrest, rfl⟩
      have hu : Writable output place t u := ⟨hp, name, htext, hfree⟩
      rw [← put_eq htext] at hrest
      obtain ⟨hall, rfl, rfl⟩ := (ih hnames ((hkeeps hu).walk hw) (hkeeps hu place hd)).mp hrest
      exact ⟨⟨hu, fun v hv => (writable_put hu).mp (hall v hv)⟩, rfl, rfl⟩
    · rintro ⟨⟨hu, hall⟩, rfl, rfl⟩
      obtain ⟨name, htext, hfree⟩ := hu.free
      refine ⟨put place t u, _, ⟨hu.path, name, htext, hfree, put_eq htext⟩, ?_, rfl⟩
      refine (ih hnames ((hkeeps hu).walk hw) (hkeeps hu place hd)).mpr ⟨?_, rfl, rfl⟩
      exact fun v hv => (writable_put hu).mpr (hall v hv)

/-- The error of writing names the file that could not be written. -/
theorem writeUnits_eq_error {t : Tree} {output : String} {units : List CompiledUnit}
    {e : GeneratorError} (h : (writeUnits t output units).1 = .error e) :
    ∃ u ∈ units, ∃ cause, e = .access (join output u.fileName) cause := by
  induction units generalizing t with
  | nil => cases h
  | cons u rest ih =>
    unfold writeUnits at h
    dsimp only at h
    split at h
    · rename_i cause _
      cases h
      exact ⟨u, List.mem_cons_self, cause, rfl⟩
    · split at h
      · cases h
      · rename_i hr
        cases h
        obtain ⟨v, hv, cause, he⟩ := ih (congrArg Prod.fst hr)
        exact ⟨v, List.mem_cons_of_mem _ hv, cause, he⟩

/-- What a run that ends well has done: made the output directory, and put all units there. -/
structure Commits (t : Tree) (output : String) (units : List CompiledUnit)
    (place : Place) (made : Tree) : Prop where
  makes : t.makeDirectories output = (.ok (), made)
  walk : made.walk [] (components output) = .ok place
  directory : made.get? place = some .directory
  writable : ∀ u ∈ units, Writable output place made u

namespace Commits

variable {t made : Tree} {output : String} {units : List CompiledUnit} {place : Place}
  (h : Commits t output units place made)

include h

theorem adds : Adds (wayTo output) t made := (makeDirectories_adds h.makes).1

theorem keeps : Keeps made (putAll place made units) := putAll_keeps h.writable

theorem walk_after : (putAll place made units).walk [] (components output) = .ok place :=
  h.keeps.walk h.walk

theorem directory_after : (putAll place made units).get? place = some .directory :=
  h.keeps place h.directory

/-- Units with files of their own can be read back where they were put. -/
theorem read_after (hfiles : (units.map CompiledUnit.fileName).Nodup) {u : CompiledUnit}
    (hu : u ∈ units) :
    (putAll place made units).read (join output u.fileName) =
      .ok (Text.encode u.source.toList) := by
  obtain ⟨hpath, name, htext, _⟩ := h.writable u hu
  rw [← htext] at hpath ⊢
  rw [read_join h.walk_after h.directory_after, hpath, get?_putAll_of_mem hfiles hu htext]
  rfl

end Commits

section

variable {t t' : Tree} {output : String} {units : List CompiledUnit} {failures : List UnitFailure}
  {report : Report} (hn : ∀ u ∈ units, IsName u.fileName)

include hn

/-- A run ends well just if the directory can be made and all units written, and the report names
them. -/
theorem commit_eq_ok : commit t output units failures = (.ok report, t') ↔
    ∃ place made, Commits t output units place made ∧
      report = ⟨units.map (fun u => join output u.fileName), failures⟩ ∧
      t' = putAll place made units := by
  unfold commit
  constructor
  · intro h
    split at h
    · cases h
    · rename_i made hmakes
      obtain ⟨place, hw, hd⟩ := isDirectory_iff.mp (makeDirectories_adds hmakes).2
      split at h
      · cases h
      · rename_i written last hr
        cases h
        obtain ⟨hall, rfl, rfl⟩ := (writeUnits_eq_ok hn hw hd).mp hr
        exact ⟨place, made, ⟨hmakes, hw, hd, hall⟩, rfl, rfl⟩
  · rintro ⟨place, made, ⟨hmakes, hw, hd, hall⟩, rfl, rfl⟩
    simp only [hmakes, (writeUnits_eq_ok hn hw hd).mpr ⟨hall, rfl, rfl⟩]

/-- Committing the same units once more changes nothing. -/
theorem commit_again (hfiles : (units.map CompiledUnit.fileName).Nodup)
    (h : commit t output units failures = (.ok report, t')) :
    commit t' output units failures = (.ok report, t') := by
  obtain ⟨place, made, hc, rfl, rfl⟩ := (commit_eq_ok hn).mp h
  have hput (u : CompiledUnit) (hu : u ∈ units) (name : Name) (htext : name.text = u.fileName) :=
    get?_putAll_of_mem hfiles hu htext place made
  have hwalk := hc.walk_after
  have hdir := hc.directory_after
  refine (commit_eq_ok hn).mpr ⟨place, putAll place made units, ⟨?_, hwalk, hdir, ?_⟩, rfl, ?_⟩
  · exact makeDirectories_again hc.makes (isDirectory_iff.mpr ⟨place, hwalk, hdir⟩)
  · intro u hu
    obtain ⟨hpath, name, htext, _⟩ := hc.writable u hu
    exact ⟨hpath, name, htext, by simp [hput u hu name htext]⟩
  · exact (putAll_of_get? hput).symm

end

/-- A run fails over the output directory, or over a file in it. -/
theorem commit_eq_error {t : Tree} {output : String} {units : List CompiledUnit}
    {failures : List UnitFailure} {e : GeneratorError}
    (h : (commit t output units failures).1 = .error e) :
    ∃ target cause, e = .access target cause ∧
      (target = output ∨ ∃ u ∈ units, target = join output u.fileName) := by
  unfold commit at h
  split at h
  · rename_i cause _ _
    cases h
    exact ⟨output, cause, rfl, .inl rfl⟩
  · split at h
    · rename_i hr
      cases h
      obtain ⟨u, hu, cause, he⟩ := writeUnits_eq_error (congrArg Prod.fst hr)
      exact ⟨_, cause, he, .inr ⟨u, hu, rfl⟩⟩
    · cases h

theorem commit_failures {t : Tree} {output : String} {units : List CompiledUnit}
    {failures : List UnitFailure} {report : Report}
    (h : (commit t output units failures).1 = .ok report) : report.failures = failures := by
  unfold commit at h
  split at h
  · cases h
  · split at h
    · cases h
    · cases h
      rfl

end WireSchema.Generator
