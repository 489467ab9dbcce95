import Mathlib.Data.List.Infix
import WireSchema.Files.Tree
import WireSchema.Proofs.Declared

/-!
The laws of paths and file trees. A tree is known by what lies at each place; setting a place
changes that place alone. A path that leads somewhere leads to the same place as long as directories
stay, and writing needs no more than that.
-/

namespace WireSchema.Files

theorem Name.ofString?_eq_some {text : String} {name : Name} :
    Name.ofString? text = some name ↔ name.text = text := by
  unfold Name.ofString?
  split
  · exact ⟨fun h => by cases h; rfl, fun h => by subst h; rfl⟩
  · rename_i hnot
    refine ⟨nofun, ?_⟩
    rintro rfl
    exact absurd ⟨name.isName, name.short, name.noNull⟩ hnot

theorem Name.ext {a b : Name} (h : a.text = b.text) : a = b :=
  Option.some.inj ((ofString?_eq_some.mpr rfl).symm.trans (ofString?_eq_some.mpr h.symm))

theorem exists_splitSlash (s : List Char) : ∃ part parts, splitSlash s = part :: parts := by
  induction s with
  | nil => exact ⟨[], [], rfl⟩
  | cons c s ih =>
    obtain ⟨part, parts, h⟩ := ih
    by_cases hc : c = '/'
    · exact ⟨[], part :: parts, by simp [splitSlash, h, hc]⟩
    · exact ⟨c :: part, parts, by simp [splitSlash, h, hc]⟩

theorem splitSlash_append (a b : List Char) :
    splitSlash (a ++ '/' :: b) = splitSlash a ++ splitSlash b := by
  induction a with
  | nil =>
    obtain ⟨part, parts, h⟩ := exists_splitSlash b
    simp [splitSlash, h]
  | cons c a ih =>
    obtain ⟨part, parts, h⟩ := exists_splitSlash a
    simp only [List.cons_append, splitSlash, ih, h]
    split <;> rfl

theorem splitSlash_of_not_mem {s : List Char} (h : '/' ∉ s) : splitSlash s = [s] := by
  induction s with
  | nil => rfl
  | cons c s ih =>
    have hc : c ≠ '/' := fun he => h (by simp [he])
    have hs : '/' ∉ s := fun hm => h (List.mem_cons_of_mem _ hm)
    simp [splitSlash, ih hs, hc]

/-- The text of a directory's path, a slash behind it included if it needs one, and the name. -/
theorem join_toList (directory name : String) :
    (directory = "" ∧ (join directory name).toList = name.toList) ∨
    ∃ before, (directory.toList = before ∨ directory.toList = before ++ ['/']) ∧
      (join directory name).toList = before ++ '/' :: name.toList := by
  unfold join
  split
  · rename_i h
    exact .inl ⟨by simpa using h, rfl⟩
  · rename_i h
    obtain ⟨before, hb⟩ := List.getLast?_eq_some_iff.mp h
    exact .inr ⟨before, .inr hb, by simp [hb]⟩
  · exact .inr ⟨directory.toList, .inl rfl, by simp⟩

theorem components_eq_of_splitSlash {path : String} {parts : List (List Char)}
    (h : splitSlash path.toList = parts) :
    components path = (parts.filter fun part => !part.isEmpty).map String.ofList := by
  rw [components, h]

/-- The names of a path in a directory are those of the directory and its own. -/
theorem components_join {name : String} (hn : IsName name) (directory : String) :
    components (join directory name) = components directory ++ [name] := by
  have hname : splitSlash name.toList = [name.toList] := splitSlash_of_not_mem hn.noSlash
  have hfull : name.toList ≠ [] := by simpa using hn.nonempty
  rcases join_toList directory name with ⟨rfl, hj⟩ | ⟨before, hd, hj⟩
  · simp [components, hj, hname, hfull, splitSlash]
  · have hjoin : splitSlash (join directory name).toList = splitSlash before ++ [name.toList] := by
      rw [hj, splitSlash_append, hname]
    have hdirectory : components directory =
        ((splitSlash before).filter fun part => !part.isEmpty).map String.ofList := by
      rcases hd with hd | hd
      · rw [components, hd]
      · rw [components, hd, splitSlash_append]
        simp [splitSlash]
    simp [components_eq_of_splitSlash hjoin, hdirectory, hfull]

/-- A path that ends in the name of a file can lead to a file. -/
theorem leadsToDirectory_join {name : String} (hn : IsName name) (directory : String) :
    leadsToDirectory (join directory name) = false := by
  have hname : splitSlash name.toList = [name.toList] := splitSlash_of_not_mem hn.noSlash
  have hlast : (splitSlash (join directory name).toList).getLast? = some name.toList := by
    rcases join_toList directory name with ⟨_, hj⟩ | ⟨before, _, hj⟩
    · rw [hj, hname]
      rfl
    · rw [hj, splitSlash_append, hname]
      simp
  have hofList {chars : List Char} (he : name.toList = chars) : name = String.ofList chars := by
    rw [← he, String.ofList_toList]
  unfold leadsToDirectory
  rw [hlast]
  split
  · rename_i he
    exact absurd (hofList (Option.some.inj he)) hn.nonempty
  · rename_i he
    exact absurd (hofList (Option.some.inj he)) hn.notHere
  · rename_i he
    exact absurd (hofList (Option.some.inj he)) hn.notOuter
  · rfl

theorem join_injective (directory : String) {a b : String}
    (h : join directory a = join directory b) : a = b := by
  unfold join at h
  split at h
  · exact h
  · exact (String.append_right_inj directory).mp h
  · exact (String.append_right_inj (directory ++ "/")).mp h

theorem join_isEmpty {name : String} (hn : IsName name) (directory : String) :
    (join directory name).isEmpty = false := by
  have hc := components_join hn directory
  cases he : (join directory name).isEmpty with
  | false => rfl
  | true =>
    rw [String.isEmpty_iff.mp he] at hc
    simp [components, splitSlash] at hc

namespace Tree

theorem get?_root (t : Tree) : t.get? [] = some .directory := by simp [get?]

theorem ne_root {t : Tree} {place : Place} (h : t.get? place ≠ some .directory) : place ≠ [] := by
  intro he
  exact h (he ▸ t.get?_root)

theorem lookup_cons_of_ne {q place : Place} (h : q ≠ place) (entry : Entry)
    (rest : List (Place × Entry)) : ((place, entry) :: rest).lookup q = rest.lookup q := by
  simp [List.lookup_cons, beq_false_of_ne h]

theorem lookup_setIn (place q : Place) (entry : Entry) (entries : List (Place × Entry)) :
    (setIn place entry entries).lookup q =
      if q = place then some entry else entries.lookup q := by
  induction entries with
  | nil =>
    by_cases hq : q = place
    · simp [setIn, hq]
    · simp [setIn, hq, lookup_cons_of_ne]
  | cons head rest ih =>
    obtain ⟨p, e⟩ := head
    by_cases hp : p = place
    · subst hp
      by_cases hq : q = p
      · simp [setIn, hq]
      · simp [setIn, hq, lookup_cons_of_ne]
    · by_cases hq : q = p
      · subst hq
        simp [setIn, hp]
      · simp [setIn, hp, hq, ih, lookup_cons_of_ne]

/-- Setting a place changes what lies there, and nothing else. -/
theorem get?_set (t : Tree) {place : Place} (hp : place ≠ []) (entry : Entry) (q : Place) :
    (t.set place entry).get? q = if q = place then some entry else t.get? q := by
  unfold get? set
  by_cases hq : q = []
  · simp [hq, Ne.symm hp]
  · simp [hq, lookup_setIn]

theorem setIn_of_lookup {place : Place} {entry : Entry} {entries : List (Place × Entry)}
    (h : entries.lookup place = some entry) : setIn place entry entries = entries := by
  induction entries with
  | nil => cases h
  | cons head rest ih =>
    obtain ⟨p, e⟩ := head
    by_cases hp : p = place
    · subst hp
      rw [List.lookup_cons_self, Option.some.injEq] at h
      simp [setIn, h]
    · rw [lookup_cons_of_ne (Ne.symm hp)] at h
      simp [setIn, hp, ih h]

/-- Setting a place to what lies there changes nothing. -/
theorem set_of_get? {t : Tree} {place : Place} {entry : Entry} (hp : place ≠ [])
    (h : t.get? place = some entry) : t.set place entry = t := by
  simp only [get?, hp, if_false] at h
  simp [set, setIn_of_lookup h]

/-- A view of the entries that leaves out a place does not see it set. -/
theorem filterMap_setIn {α : Type} {view : Place × Entry → Option α} {place : Place}
    (hv : ∀ entry, view (place, entry) = none) (entry : Entry) (entries : List (Place × Entry)) :
    (setIn place entry entries).filterMap view = entries.filterMap view := by
  induction entries with
  | nil => simp [setIn, hv]
  | cons head rest ih =>
    obtain ⟨p, e⟩ := head
    by_cases hp : p = place
    · subst hp
      simp [setIn, hv]
    · simp only [setIn, hp, if_false, List.filterMap_cons, ih]

theorem setIn_of_lookup_none {place : Place} {entries : List (Place × Entry)}
    (h : entries.lookup place = none) (entry : Entry) :
    setIn place entry entries = entries ++ [(place, entry)] := by
  induction entries with
  | nil => rfl
  | cons head rest ih =>
    obtain ⟨p, e⟩ := head
    by_cases hp : p = place
    · simp [hp] at h
    · rw [lookup_cons_of_ne (Ne.symm hp)] at h
      simp [setIn, hp, ih h]

theorem requireDirectory_eq_ok {t : Tree} {place : Place} :
    t.requireDirectory place = .ok () ↔ t.get? place = some .directory := by
  unfold requireDirectory
  split <;> simp_all

theorem requireName_eq_ok {text : String} {name : Name} :
    requireName text = .ok name ↔ name.text = text := by
  unfold requireName
  cases hl : isLongName text with
  | true =>
    refine ⟨nofun, ?_⟩
    rintro rfl
    rw [name.short] at hl
    cases hl
  | false =>
    rw [← Name.ofString?_eq_some]
    cases Name.ofString? text <;> simp

def follow (here : Place) (name : String) : Except AccessError Place :=
  if name = "." then .ok here
  else if name = ".." then .ok here.dropLast
  else do
    let name ← requireName name
    return here ++ [name]

/-- A name that is not one of the two for ways leads to an entry of the directory. -/
theorem follow_eq_ok {text : String} (hn : IsName text) {here there : Place} :
    follow here text = .ok there ↔ ∃ name : Name, name.text = text ∧ there = here ++ [name] := by
  rw [follow, if_neg hn.notHere, if_neg hn.notOuter, bind_eq_ok]
  simp only [requireName_eq_ok, pure_eq_ok, Except.ok.injEq, @eq_comm _ there]

theorem follow_name (name : Name) (here : Place) : follow here name.text = .ok (here ++ [name]) :=
  (follow_eq_ok name.isName).mpr ⟨name, rfl, rfl⟩

theorem walk_cons (t : Tree) (here : Place) (name : String) (rest : List String) :
    t.walk here (name :: rest) = (do
      t.requireDirectory here
      let there ← follow here name
      t.walk there rest) := by
  simp only [walk, follow]
  split
  · rfl
  · split
    · rfl
    · simp only [bind_assoc, pure_bind]

theorem walk_append (t : Tree) (here : Place) (names more : List String) :
    t.walk here (names ++ more) = (do
      let there ← t.walk here names
      t.walk there more) := by
  induction names generalizing here with
  | nil => rfl
  | cons name rest ih =>
    simp only [List.cons_append, walk_cons, ih, bind_assoc]

def Keeps (t t' : Tree) : Prop :=
  ∀ place, t.get? place = some .directory → t'.get? place = some .directory

theorem Keeps.trans {t t' t'' : Tree} (h : Keeps t t') (h' : Keeps t' t'') : Keeps t t'' :=
  fun place hp => h' place (h place hp)

/-- As long as directories stay, names lead where they led. -/
theorem Keeps.walk {t t' : Tree} (h : Keeps t t') {here place : Place} {names : List String}
    (hw : t.walk here names = .ok place) : t'.walk here names = .ok place := by
  induction names generalizing here with
  | nil => exact hw
  | cons name rest ih =>
    rw [walk_cons] at hw ⊢
    obtain ⟨_, hdir, hw⟩ := bind_eq_ok.mp hw
    obtain ⟨there, hthere, hw⟩ := bind_eq_ok.mp hw
    have hdir' := requireDirectory_eq_ok.mpr (h here (requireDirectory_eq_ok.mp hdir))
    exact bind_eq_ok.mpr ⟨(), hdir', bind_eq_ok.mpr ⟨there, hthere, ih hw⟩⟩

/-- A set that puts nothing in the place of a directory keeps directories. -/
theorem keeps_set {t : Tree} {place : Place} (h : t.get? place ≠ some .directory) (entry : Entry) :
    Keeps t (t.set place entry) := by
  intro q hq
  have hne : q ≠ place := fun he => h (he ▸ hq)
  rw [get?_set t (ne_root h), if_neg hne]
  exact hq

theorem requirePath_eq_ok {path : String} :
    requirePath path = .ok () ↔ hasNull path = false ∧ isLongPath path = false := by
  unfold requirePath
  cases hasNull path <;> cases isLongPath path <;> simp

/-- A path leads to a place if the system takes it and its names can be followed from the root. -/
theorem resolve_eq_ok {t : Tree} {path : String} {place : Place} :
    t.resolve path = .ok place ↔
      requirePath path = .ok () ∧ path.isEmpty = false ∧
        t.walk [] (components path) = .ok place := by
  unfold resolve
  rw [bind_eq_ok]
  constructor
  · rintro ⟨⟨⟩, hpath, h⟩
    split at h
    · cases h
    · rename_i he
      exact ⟨hpath, by simpa using he, h⟩
  · rintro ⟨hpath, he, hw⟩
    exact ⟨(), hpath, by simpa [he] using hw⟩

theorem lookup_eq_directory {t : Tree} {path : String} :
    t.lookup path = .ok .directory ↔
      ∃ place, t.resolve path = .ok place ∧ t.get? place = some .directory := by
  unfold lookup
  cases t.resolve path with
  | error e => simp
  | ok place =>
    simp only [ok_bind, Except.ok.injEq, exists_eq_left']
    cases t.get? place with
    | none => simp
    | some entry =>
      cases entry with
      | directory => simp
      | file content => cases leadsToDirectory path <;> simp

/-- Listing succeeds on directories. -/
theorem list_eq_ok {t : Tree} {path : String} {entries : List (Name × Entry)} :
    t.list path = .ok entries ↔ ∃ place, t.resolve path = .ok place ∧
      t.get? place = some .directory ∧ entries = t.children place := by
  unfold list
  rw [bind_eq_ok]
  constructor
  · rintro ⟨entry, hl, h⟩
    cases entry with
    | file content => cases h
    | directory =>
      obtain ⟨place, hr, hd⟩ := lookup_eq_directory.mp hl
      rw [hr] at h
      cases h
      exact ⟨place, hr, hd, rfl⟩
  · rintro ⟨place, hr, hd, rfl⟩
    refine ⟨.directory, lookup_eq_directory.mpr ⟨place, hr, hd⟩, ?_⟩
    rw [hr]
    rfl

/-- A file can be written wherever there is no directory, over another file too. -/
theorem writeAt_eq_ok {t t' : Tree} {place : Place} {content : Bytes} :
    t.writeAt place content = .ok t' ↔
      t.get? place ≠ some .directory ∧ t' = t.set place (.file content) := by
  unfold writeAt
  split
  · simp_all
  · simp_all [eq_comm]

section

variable {t : Tree} {directory : String} {place : Place}
  (hw : t.walk [] (components directory) = .ok place) (hd : t.get? place = some .directory)

include hw hd

/-- The path of a name in a directory leads where the name leads from that directory. -/
theorem resolve_join {text : String} (hn : IsName text) : t.resolve (join directory text) = (do
    requirePath (join directory text)
    follow place text) := by
  have hwalk : t.walk [] (components (join directory text)) = follow place text := by
    rw [components_join hn, walk_append, hw, ok_bind, walk_cons, requireDirectory_eq_ok.mpr hd,
      ok_bind]
    cases follow place text <;> rfl
  simp [resolve, join_isEmpty hn, hwalk]

/-- Reading a name in a directory needs what lies there, and nothing else of the tree. -/
theorem read_join (name : Name) : t.read (join directory name.text) = (do
    requirePath (join directory name.text)
    match t.get? (place ++ [name]) with
    | none => .error .notFound
    | some .directory => .error .isDirectory
    | some (.file content) => .ok content) := by
  unfold read lookup
  rw [resolve_join hw hd name.isName, follow_name, leadsToDirectory_join name.isName]
  cases requirePath (join directory name.text) with
  | error e => rfl
  | ok _ =>
    simp only [ok_bind, Bool.false_eq_true, if_false]
    cases t.get? (place ++ [name]) with
    | none => rfl
    | some entry => cases entry <;> rfl

/-- Writing a name in a directory sets its place, unless a directory is there. -/
theorem write_join_eq_ok {text : String} (hn : IsName text) {content : Bytes} {t' : Tree} :
    t.write (join directory text) content = .ok t' ↔
      requirePath (join directory text) = .ok () ∧ ∃ name : Name, name.text = text ∧
        t.get? (place ++ [name]) ≠ some .directory ∧
        t' = t.set (place ++ [name]) (.file content) := by
  have hparent : t.walk [] (components (join directory text)).dropLast = .ok place := by
    rw [components_join hn, List.dropLast_concat, hw]
  unfold write requireParent
  rw [resolve_join hw hd hn, join_isEmpty hn, hparent, leadsToDirectory_join hn]
  cases requirePath (join directory text) with
  | error e => simp
  | ok _ =>
    simp only [ok_bind, requireDirectory_eq_ok.mpr hd, Bool.false_eq_true, if_false, true_and]
    rw [bind_eq_ok]
    constructor
    · rintro ⟨_, hfollow, hset⟩
      obtain ⟨name, htext, rfl⟩ := (follow_eq_ok hn).mp hfollow
      exact ⟨name, htext, writeAt_eq_ok.mp hset⟩
    · rintro ⟨name, htext, hset⟩
      exact ⟨_, (follow_eq_ok hn).mpr ⟨name, htext, rfl⟩, writeAt_eq_ok.mpr hset⟩

end

theorem nameIn?_eq_some {directory place : Place} {name : Name} :
    nameIn? directory place = some name ↔ place = directory ++ [name] := by
  induction place generalizing directory with
  | nil => simp [nameIn?]
  | cons top rest ih =>
    cases rest with
    | nil => cases directory <;> simp [nameIn?]
    | cons next rest =>
      cases directory with
      | nil => simp [nameIn?]
      | cons d below =>
        by_cases hd : d = top
        · simp [nameIn?, hd, ih]
        · simp [nameIn?, hd, Ne.symm hd]

theorem mem_children {t : Tree} {directory : Place} {name : Name} {entry : Entry} :
    (name, entry) ∈ t.children directory ↔ (directory ++ [name], entry) ∈ t.entries := by
  simp [children, nameIn?_eq_some]

/-- No place has two entries, so that an entry of the tree is what lies at its place. -/
theorem lookup_eq_some_iff (t : Tree) {place : Place} {entry : Entry} :
    t.entries.lookup place = some entry ↔ (place, entry) ∈ t.entries := by
  have hd := t.distinct
  generalize t.entries = entries at hd
  induction entries with
  | nil => simp
  | cons head rest ih =>
    obtain ⟨p, e⟩ := head
    obtain ⟨hnew, hrest⟩ := List.nodup_cons.mp hd
    by_cases hp : place = p
    · subst hp
      have hnot : (place, entry) ∉ rest := fun hm => hnew (List.mem_map.mpr ⟨_, hm, rfl⟩)
      simp [hnot, eq_comm]
    · rw [lookup_cons_of_ne hp]
      simpa [hp] using ih hrest

/-- Below the root, what is found at a place is the one entry that the tree has for it. -/
theorem get?_eq_some_iff (t : Tree) {place : Place} {entry : Entry} (hp : place ≠ []) :
    t.get? place = some entry ↔ (place, entry) ∈ t.entries := by
  rw [get?, if_neg hp, lookup_eq_some_iff]

theorem get?_of_child {t : Tree} {directory : Place} {name : Name} {entry : Entry} :
    (name, entry) ∈ t.children directory ↔ t.get? (directory ++ [name]) = some entry := by
  rw [mem_children, get?_eq_some_iff t (by simp)]

/-- `t'` is `t` with directories added, at places that some of the given lists of names lead to. -/
structure Adds (paths : List (List String)) (t t' : Tree) : Prop where
  kept : ∀ place entry, t.get? place = some entry → t'.get? place = some entry
  new : ∀ place entry, t'.get? place = some entry → t.get? place = some entry ∨
    entry = .directory ∧ ∃ names ∈ paths, t'.walk [] names = .ok place
  /-- Views that leave out directories see no change. -/
  view : ∀ (α : Type) (view : Place × Entry → Option α),
    (∀ place, view (place, .directory) = none) →
      t'.entries.filterMap view = t.entries.filterMap view

theorem Adds.keeps {paths : List (List String)} {t t' : Tree} (h : Adds paths t t') : Keeps t t' :=
  fun place hp => h.kept place .directory hp

theorem Adds.refl (paths : List (List String)) (t : Tree) : Adds paths t t :=
  ⟨fun _ _ h => h, fun _ _ h => .inl h, fun _ _ _ => rfl⟩

theorem Adds.trans {paths : List (List String)} {t t' t'' : Tree} (h : Adds paths t t')
    (h' : Adds paths t' t'') : Adds paths t t'' := by
  refine ⟨fun place entry he => h'.kept place entry (h.kept place entry he), ?_, ?_⟩
  · intro place entry he
    rcases h'.new place entry he with he | hnew
    · rcases h.new place entry he with he | ⟨rfl, names, hm, hw⟩
      · exact .inl he
      · exact .inr ⟨rfl, names, hm, h'.keeps.walk hw⟩
    · exact .inr hnew
  · intro α view hv
    rw [h'.view α view hv, h.view α view hv]

theorem Adds.mono {paths more : List (List String)} {t t' : Tree} (h : Adds paths t t')
    (hs : paths ⊆ more) : Adds more t t' := by
  refine ⟨h.kept, ?_, h.view⟩
  intro place entry he
  rcases h.new place entry he with he | ⟨rfl, names, hm, hw⟩
  · exact .inl he
  · exact .inr ⟨rfl, names, hs hm, hw⟩

theorem isDirectory_iff {t : Tree} {names : List String} :
    t.isDirectory names = true ↔
      ∃ place, t.walk [] names = .ok place ∧ t.get? place = some .directory := by
  unfold isDirectory
  cases t.walk [] names <;> simp

/-- Making a directory adds it alone, and afterwards it is there. -/
theorem makeDirectory_adds {t t' : Tree} {names : List String}
    (h : t.makeDirectory names = .ok t') : Adds [names] t t' ∧ t'.isDirectory names = true := by
  obtain ⟨place, hw, h⟩ := bind_eq_ok.mp h
  cases hg : t.get? place with
  | some entry => simp [hg] at h
  | none =>
    simp only [hg, pure_eq_ok, Except.ok.injEq] at h
    subst h
    have hfree : t.get? place ≠ some .directory := by simp [hg]
    have hroot := ne_root hfree
    have hget := t.get?_set hroot .directory
    have hwalk := (keeps_set hfree .directory).walk hw
    refine ⟨⟨?_, ?_, ?_⟩, isDirectory_iff.mpr ⟨place, hwalk, by simp [hget]⟩⟩
    · intro q entry he
      have hne : q ≠ place := by
        rintro rfl
        rw [hg] at he
        cases he
      rw [hget, if_neg hne, he]
    · intro q entry he
      by_cases hq : q = place
      · subst hq
        rw [hget, if_pos rfl] at he
        cases he
        exact .inr ⟨rfl, names, List.mem_singleton_self _, hwalk⟩
      · rw [hget, if_neg hq] at he
        exact .inl he
    · intro α view hv
      simp only [get?, hroot, if_false] at hg
      simp [set, setIn_of_lookup_none hg, hv]

/-- The directory is there when making it, where it may have been before, has succeeded. -/
theorem settleDirectory_adds {t t' : Tree} {names : List String}
    (h : t.settleDirectory names (t.makeDirectory names) = (.ok (), t')) :
    Adds [names] t t' ∧ t'.isDirectory names = true := by
  cases hm : t.makeDirectory names with
  | ok made =>
    simp only [hm, settleDirectory, Prod.mk.injEq, true_and] at h
    subst h
    exact makeDirectory_adds hm
  | error e =>
    simp only [hm, settleDirectory, Prod.mk.injEq] at h
    obtain ⟨hok, rfl⟩ := h
    split at hok
    · rename_i hd
      exact ⟨.refl _ _, hd⟩
    · cases hok

/-- Those that are missing are made. -/
theorem makeChain_adds {t t' : Tree} {chain : List (List String)}
    (h : t.makeChain chain = (.ok (), t')) :
    Adds chain t t' ∧ ∀ names ∈ chain.head?, t'.isDirectory names = true := by
  induction chain generalizing t t' with
  | nil =>
    cases h
    exact ⟨.refl _ _, by simp⟩
  | cons names outer ih =>
    have hfirst {s : Tree} (hs : s.settleDirectory names (s.makeDirectory names) = (.ok (), t')) :
        Adds (names :: outer) s t' ∧ ∀ n ∈ (names :: outer).head?, t'.isDirectory n = true := by
      obtain ⟨hadds, hdir⟩ := settleDirectory_adds hs
      exact ⟨hadds.mono (by simp), by simpa using hdir⟩
    unfold makeChain at h
    split at h
    · split at h
      · cases h
      · rename_i s hs
        obtain ⟨hadds, hdir⟩ := hfirst h
        exact ⟨((ih hs).1.mono (List.subset_cons_self _ _)).trans hadds, hdir⟩
    · exact hfirst h

/-- Only directories on the way are made. -/
theorem prefix_of_mem_outerPaths {names outer : List String} (h : outer ∈ outerPaths names) :
    outer <+: names := by
  induction names generalizing outer with
  | nil => cases h
  | cons name rest ih =>
    cases rest with
    | nil => cases h
    | cons next rest =>
      rcases List.mem_append.mp h with hm | hm
      · obtain ⟨inner, hi, rfl⟩ := List.mem_map.mp hm
        exact List.prefix_cons_inj name |>.mpr (ih hi)
      · rw [List.mem_singleton.mp hm]
        simp

/-- Names that lead somewhere lead there without those that stay in place. -/
theorem walk_filter {t : Tree} {here place : Place} {names : List String}
    (h : t.walk here names = .ok place) :
    t.walk here (names.filter fun name => name != ".") = .ok place := by
  induction names generalizing here with
  | nil => exact h
  | cons name rest ih =>
    rw [walk_cons] at h
    obtain ⟨_, hdir, h⟩ := bind_eq_ok.mp h
    obtain ⟨there, hthere, h⟩ := bind_eq_ok.mp h
    by_cases hn : name = "."
    · have hstay : here = there := by simpa [follow, hn] using hthere
      subst hstay
      simpa [hn] using ih h
    · have hfilter : (name :: rest).filter (fun n => n != ".") =
          name :: rest.filter fun n => n != "." := by simp [hn]
      rw [hfilter, walk_cons]
      exact bind_eq_ok.mpr ⟨(), hdir, bind_eq_ok.mpr ⟨there, hthere, ih h⟩⟩

def wayTo (path : String) : List (List String) :=
  ((components path).filter fun name => name != ".").inits

/-- Making a directory adds directories on the way to it, and then it is there. -/
theorem makeDirectories_adds {t t' : Tree} {path : String}
    (h : t.makeDirectories path = (.ok (), t')) :
    Adds (wayTo path) t t' ∧ t'.isDirectory (components path) = true := by
  unfold makeDirectories at h
  split at h
  · rename_i hc
    cases h
    exact ⟨.refl _ _, isDirectory_iff.mpr ⟨[], by rw [hc]; rfl, get?_root _⟩⟩
  · cases h
  · obtain ⟨hadds, hdir⟩ := makeChain_adds h
    refine ⟨⟨hadds.kept, ?_, hadds.view⟩, hdir _ rfl⟩
    intro place entry he
    rcases hadds.new place entry he with he | ⟨rfl, names, hm, hw⟩
    · exact .inl he
    · rcases List.mem_cons.mp hm with rfl | hm
      · exact .inr ⟨rfl, _, (List.mem_inits _ _).mpr List.prefix_rfl, walk_filter hw⟩
      · exact .inr ⟨rfl, names, (List.mem_inits _ _).mpr (prefix_of_mem_outerPaths hm), hw⟩

/-- A directory that could be made in one tree is left alone in another where it is there. -/
theorem makeDirectories_again {t t' s : Tree} {path : String}
    (h : t.makeDirectories path = (.ok (), t')) (hs : s.isDirectory (components path) = true) :
    s.makeDirectories path = (.ok (), s) := by
  obtain ⟨place, hw, hd⟩ := isDirectory_iff.mp hs
  have hmake : s.makeDirectory (components path) = .error .alreadyExists := by
    simp [makeDirectory, hw, hd]
  unfold makeDirectories at h ⊢
  split at h
  · rfl
  · cases h
  · simp [makeChain, hmake, settleDirectory, hs]

end Tree

end WireSchema.Files
