import Mathlib.Data.List.Lex
import WireSchema.Proofs.Encoding
import WireSchema.Proofs.Generation
import WireSchema.Proofs.TreeOrder

/-!
How the generator finds its schemas. A file system lists a directory in whatever order it likes, and
may take another order each time. The schemas found are the same for all of these orders: in each
directory the files with the extension that is wanted, by the bytes of their names. So a run is the
same for all of them as well.
-/

namespace WireSchema

open Files Tree

namespace Text

def BytesBefore (a b : String) : Prop := List.Lex (· < ·) (encode a.toList) (encode b.toList)

theorem lex_of_lt {a b : Nat} (hb : b < 256) (h : a < b) (rest rest' : Bytes) :
    List.Lex (· < ·) (UInt8.ofNat a :: rest) (UInt8.ofNat b :: rest') := by
  apply List.Lex.rel
  rw [UInt8.lt_iff_toNat_lt, Wire.toNat_byte hb, Wire.toNat_byte (by omega)]
  exact h

theorem lex_of_le {a b : Nat} (hb : b < 256) (hle : a ≤ b) {rest rest' : Bytes}
    (h : a = b → List.Lex (· < ·) rest rest') :
    List.Lex (· < ·) (UInt8.ofNat a :: rest) (UInt8.ofNat b :: rest') := by
  by_cases he : a = b
  · subst he
    exact .cons (h rfl)
  · exact lex_of_lt hb (by omega) rest rest'

/-- Of two characters the smaller has the smaller bytes, whatever stands behind them. -/
theorem utf8EncodeChar_lex {c d : Char} (h : c < d) (rest rest' : Bytes) :
    List.Lex (· < ·) (String.utf8EncodeChar c ++ rest) (String.utf8EncodeChar d ++ rest') := by
  have hlt : c.val.toNat < d.val.toNat := UInt32.lt_iff_toNat_lt.mp h
  have hmax : d.val.toNat < 0xD800 ∨ 0xDFFF < d.val.toNat ∧ d.val.toNat < 0x110000 := d.valid
  unfold String.utf8EncodeChar
  generalize c.val.toNat = n at hlt
  generalize d.val.toNat = m at hlt hmax
  dsimp only
  -- The first byte of a character with more bytes is greater than that of one with fewer.
  split
  · split
    · exact lex_of_lt (by omega) (by omega) _ _
    split
    · exact lex_of_lt (by omega) (by omega) _ _
    split
    · exact lex_of_lt (by omega) (by omega) _ _
    · exact lex_of_lt (by omega) (by omega) _ _
  rw [if_neg (show ¬ m ≤ 127 by omega)]
  split
  · split
    · exact lex_of_le (by omega) (by omega) fun _ =>
        lex_of_lt (by omega) (by omega) _ _
    split
    · exact lex_of_lt (by omega) (by omega) _ _
    · exact lex_of_lt (by omega) (by omega) _ _
  rw [if_neg (show ¬ m ≤ 2047 by omega)]
  split
  · split
    · exact lex_of_le (by omega) (by omega) fun _ =>
        lex_of_le (by omega) (by omega) fun _ =>
          lex_of_lt (by omega) (by omega) _ _
    · exact lex_of_lt (by omega) (by omega) _ _
  rw [if_neg (show ¬ m ≤ 65535 by omega)]
  exact lex_of_le (by omega) (by omega) fun _ =>
    lex_of_le (by omega) (by omega) fun _ =>
      lex_of_le (by omega) (by omega) fun _ =>
        lex_of_lt (by omega) (by omega) _ _

/-- Texts in the order of their characters are in the order of their bytes. -/
theorem bytesBefore_of_lt {a b : String} (h : a < b) : BytesBefore a b := by
  have hlex : List.Lex (· < ·) a.toList b.toList := List.lex_lt.mpr (String.lt_iff.mp h)
  unfold BytesBefore
  generalize a.toList = x at hlex
  generalize b.toList = y at hlex
  induction hlex with
  | @nil c rest =>
    obtain ⟨b, bytes, hb⟩ := List.exists_cons_of_ne_nil (String.utf8EncodeChar_ne_nil (c := c))
    simp only [encode, List.flatMap_nil, List.flatMap_cons, hb]
    exact .nil
  | rel hlt => exact utf8EncodeChar_lex hlt _ _
  | cons _ ih => exact ih.append_left _ _

theorem BytesBefore.asymm {a b : String} (h : BytesBefore a b) : ¬ BytesBefore b a :=
  List.lex_asymm (fun hlt => by rw [UInt8.lt_iff_toNat_lt] at hlt ⊢; omega) h

end Text

namespace Files

/-- The extension of a name follows its last dot, as long as that dot does not stand first. -/
theorem extension?_eq_some_iff {name found : String} :
    extension? name = some found ↔ ∃ stem, stem ≠ [] ∧
      name.toList = stem ++ '.' :: found.toList ∧ '.' ∉ found.toList := by
  let p : Char → Bool := fun c => c != '.'
  unfold extension?
  constructor
  · intro h
    have hsplit : name.toList.reverse.takeWhile p ++ name.toList.reverse.dropWhile p =
        name.toList.reverse := List.takeWhile_append_dropWhile
    have hhead := List.head?_dropWhile_not p name.toList.reverse
    dsimp only at h
    split at h
    · cases h
    · cases h
    · rename_i dot last before hd
      change name.toList.reverse.dropWhile p = _ at hd
      rw [hd] at hsplit hhead
      obtain rfl : dot = '.' := by simpa [p] using hhead
      have hfound : found.toList = (name.toList.reverse.takeWhile p).reverse := by
        rw [← Option.some.inj h, String.toList_ofList]
      refine ⟨(last :: before).reverse, by simp, ?_, ?_⟩
      · simpa [hfound] using (congrArg List.reverse hsplit).symm
      · rw [hfound, List.mem_reverse]
        intro hm
        simpa [p] using List.all_eq_true.mp List.all_takeWhile _ hm
  · rintro ⟨stem, hstem, hname, hdot⟩
    have hreverse : name.toList.reverse = found.toList.reverse ++ '.' :: stem.reverse := by
      simp [hname]
    have hall : ∀ c ∈ found.toList.reverse, p c = true := by
      intro c hc
      exact bne_iff_ne.mpr fun he => hdot (he ▸ List.mem_reverse.mp hc)
    obtain ⟨last, before, hbefore⟩ := List.exists_cons_of_ne_nil (List.reverse_ne_nil_iff.mpr hstem)
    have hdrop : name.toList.reverse.dropWhile p = '.' :: last :: before := by
      rw [hreverse, List.dropWhile_append_of_pos hall, hbefore]
      rfl
    have htake : name.toList.reverse.takeWhile p = found.toList.reverse := by
      rw [hreverse, List.takeWhile_append_of_pos hall]
      simp [p]
    simp only [p] at hdrop htake
    simp only [hdrop, htake, List.reverse_reverse, String.ofList_toList]

/-- A path is as long as the directory and the name together, up to a slash. -/
theorem utf8ByteSize_join (directory name : String) :
    directory.utf8ByteSize + name.utf8ByteSize ≤ (join directory name).utf8ByteSize ∧
      (join directory name).utf8ByteSize ≤
        directory.utf8ByteSize + name.utf8ByteSize + 1 := by
  have hslash : "/".utf8ByteSize = 1 := rfl
  unfold join
  split
  · rename_i he
    have hempty : directory = "" := by simpa using he
    simp [hempty]
  · rw [String.utf8ByteSize_append]
    omega
  · rw [String.utf8ByteSize_append, String.utf8ByteSize_append]
    omega

/-- In a directory whose path leaves room for any name, all files are within reach. -/
theorem isLongPath_join {directory : String} (h : directory.utf8ByteSize ≤ 3839) (name : Name) :
    isLongPath (join directory name.text) = false := by
  have hname : ¬ 255 < name.text.utf8ByteSize := of_decide_eq_false name.short
  have hjoin := (utf8ByteSize_join directory name.text).2
  apply decide_eq_false
  omega

end Files

namespace Generator

def Wants (g : Generator) (name : String) : Prop :=
  ∀ wanted ∈ g.extension, ∃ stem found, stem ≠ [] ∧ name.toList = stem ++ '.' :: found ∧
    '.' ∉ found ∧ found.map Char.toLower = wanted.toList.map Char.toLower

theorem takes_iff {g : Generator} {name : String} : g.takes name = true ↔ g.Wants name := by
  unfold takes Wants
  cases g.extension with
  | none => simp
  | some wanted =>
    simp only [Option.any_eq_true, extension?_eq_some_iff, sameIgnoringCase, beq_iff_eq,
      Option.mem_def, Option.some.injEq, forall_eq']
    constructor
    · rintro ⟨found, ⟨stem, hs, hn, hd⟩, hc⟩
      exact ⟨stem, found.toList, hs, hn, hd, hc⟩
    · rintro ⟨stem, found, hs, hn, hd, hc⟩
      exact ⟨String.ofList found, ⟨stem, hs, by simpa using hn, by simpa using hd⟩,
        by simpa using hc⟩

def NamesFile (entries : List (Name × Entry)) (text : String) : Prop :=
  ∃ (name : Name) (content : Bytes), name.text = text ∧ (name, .file content) ∈ entries

/-- The names of the schemas among the entries of a directory, each once, in the order of their
bytes: the regular files with the extension that is wanted. The system does not take all paths, so
that a file with too long a path is missing. -/
structure SchemasIn (g : Generator) (directory : String) (entries : List (Name × Entry))
    (names : List String) : Prop where
  sorted : names.Pairwise Text.BytesBefore
  mem : ∀ text, text ∈ names ↔
    NamesFile entries text ∧ g.Wants text ∧ isLongPath (join directory text) = false

/-- What going through directories may find: each is listed in some order of its entries. -/
inductive Finds (g : Generator) (t : Tree) :
    List String → Except GeneratorError (List String) → Prop where
  | done : Finds g t [] (.ok [])
  | unlisted {directory : String} {rest : List String} {cause : AccessError}
      (refused : t.list directory = .error cause) :
      Finds g t (directory :: rest) (.error (.access directory cause))
  | stopped {directory : String} {rest : List String} {entries : List (Name × Entry)}
      {e : GeneratorError} (listed : t.list directory = .ok entries)
      (later : Finds g t rest (.error e)) : Finds g t (directory :: rest) (.error e)
  | found {directory : String} {rest : List String} {entries order : List (Name × Entry)}
      {others : List String} (listed : t.list directory = .ok entries)
      (enumerated : order.Perm entries) (later : Finds g t rest (.ok others)) :
      Finds g t (directory :: rest) (.ok (g.select directory order ++ others))

theorem pairwise_sortNames (names : List String) :
    (names.mergeSort fun a b => decide (a ≤ b)).Pairwise (· ≤ ·) := by
  have h : (names.mergeSort fun a b => decide (a ≤ b)).Pairwise
      fun a b => decide (a ≤ b) = true := by
    apply List.pairwise_mergeSort
    · intro a b c hab hbc
      simpa using String.le_trans (of_decide_eq_true hab) (of_decide_eq_true hbc)
    · intro a b
      simpa using String.le_total a b
  exact h.imp of_decide_eq_true

/-- Sorting gives one result for all orders of the same names. -/
theorem sortNames_perm {names names' : List String} (h : names.Perm names') :
    (names.mergeSort fun a b => decide (a ≤ b)) = names'.mergeSort fun a b => decide (a ≤ b) := by
  refine List.Perm.eq_of_pairwise (fun _ _ _ _ => String.le_antisymm) (pairwise_sortNames names)
    (pairwise_sortNames names') ?_
  exact (List.mergeSort_perm _ _).trans (h.trans (List.mergeSort_perm _ _).symm)

/-- The order of a listing is not seen in what is selected from it. -/
theorem select_perm (g : Generator) (directory : String) {entries order : List (Name × Entry)}
    (h : order.Perm entries) : g.select directory order = g.select directory entries := by
  unfold select
  dsimp only
  rw [sortNames_perm (h.filterMap _)]

theorem collect_cons_of_error {g : Generator} {t : Tree} {directory : String} {rest : List String}
    {cause : AccessError} (h : t.list directory = .error cause) :
    g.collect t (directory :: rest) = .error (.access directory cause) := by
  rw [collect, h]
  rfl

theorem collect_cons_of_ok {g : Generator} {t : Tree} {directory : String} {rest : List String}
    {entries : List (Name × Entry)} (h : t.list directory = .ok entries) :
    g.collect t (directory :: rest) =
      (g.collect t rest).map fun others => g.select directory entries ++ others := by
  rw [collect, h]
  cases g.collect t rest <;> rfl

/-- Whatever the orders, what is found is what going through the entries as they come finds. -/
theorem finds_iff {g : Generator} {t : Tree} {inputs : List String}
    {found : Except GeneratorError (List String)} :
    Finds g t inputs found ↔ found = g.collect t inputs := by
  constructor
  · intro h
    induction h with
    | done => rfl
    | unlisted refused => rw [collect_cons_of_error refused]
    | stopped listed _ ih =>
      rw [collect_cons_of_ok listed, ← ih]
      rfl
    | found listed enumerated _ ih =>
      rw [collect_cons_of_ok listed, ← ih, select_perm g _ enumerated]
      rfl
  · rintro rfl
    induction inputs with
    | nil => exact .done
    | cons directory rest ih =>
      cases hl : t.list directory with
      | error cause =>
        rw [collect_cons_of_error hl]
        exact .unlisted hl
      | ok entries =>
        rw [collect_cons_of_ok hl]
        cases hc : g.collect t rest with
        | error e => exact .stopped hl (hc ▸ ih)
        | ok others => exact .found hl (.refl _) (hc ▸ ih)

def generateFound (g : Generator) (t : Tree) (output : String)
    (found : Except GeneratorError (List String)) : Except GeneratorError Report × Tree :=
  match found.bind fun paths => settle g.policy [] (g.results t paths) with
  | .error e => (.error e, t)
  | .ok (units, failures) => commit t output units failures

/-- What a run may come to, each directory being listed in some order of its entries. -/
def Runs (g : Generator) (t : Tree) (inputs : List String) (output : String)
    (outcome : Except GeneratorError Report × Tree) : Prop :=
  ∃ found, Finds g t inputs found ∧ outcome = g.generateFound t output found

/-- A run in two parts: finding the schemas, and what follows once they are found. -/
theorem generate_eq_generateFound (g : Generator) (t : Tree) (inputs : List String)
    (output : String) :
    g.generate t inputs output = g.generateFound t output (g.collect t inputs) := rfl

/-- The order in which directories list their entries makes no difference to a run. -/
theorem runs_iff {g : Generator} {t : Tree} {inputs : List String} {output : String}
    {outcome : Except GeneratorError Report × Tree} :
    Runs g t inputs output outcome ↔ outcome = g.generate t inputs output := by
  rw [generate_eq_generateFound]
  constructor
  · rintro ⟨found, hf, rfl⟩
    rw [finds_iff.mp hf]
  · intro h
    exact ⟨_, finds_iff.mpr rfl, h⟩

section

variable {t t' : Tree} (h : Reordered t t')

include h

theorem finds_reordered (g : Generator) (inputs : List String) :
    Finds g t inputs (g.collect t' inputs) := by
  induction inputs with
  | nil => exact .done
  | cons directory rest ih =>
    rcases h.list directory with ⟨cause, hl, hl'⟩ | ⟨entries, entries', hl, hl', hp⟩
    · rw [collect_cons_of_error hl']
      exact .unlisted hl
    · rw [collect_cons_of_ok hl']
      cases hc : g.collect t' rest with
      | error e => exact .stopped hl (hc ▸ ih)
      | ok others => exact .found hl hp.symm (hc ▸ ih)

theorem writeUnits_reordered (output : String) (units : List CompiledUnit) :
    EndAlike (writeUnits t output units) (writeUnits t' output units) := by
  induction units generalizing t t' with
  | nil => exact ⟨rfl, h⟩
  | cons u rest ih =>
    have hwrite := h.write (join output u.fileName) (Text.encode u.source.toList)
    unfold writeUnits
    dsimp only
    generalize t.write _ _ = r at hwrite
    generalize t'.write _ _ = r' at hwrite
    cases hwrite with
    | error e => exact ⟨rfl, h⟩
    | ok hs =>
      obtain ⟨result, s, s', hw, hw', hrest⟩ := (ih hs).exists_same
      simp only [hw, hw']
      cases result with
      | error e => exact ⟨rfl, hrest⟩
      | ok written => exact ⟨rfl, hrest⟩

theorem commit_reordered (output : String) (units : List CompiledUnit)
    (failures : List UnitFailure) :
    EndAlike (commit t output units failures) (commit t' output units failures) := by
  obtain ⟨result, s, s', hm, hm', hs⟩ := (h.makeDirectories output).exists_same
  unfold commit
  rw [hm, hm']
  cases result with
  | error e => exact ⟨rfl, hs⟩
  | ok _ =>
    obtain ⟨written, after, after', hw, hw', hafter⟩ :=
      (writeUnits_reordered hs output units).exists_same
    simp only [hw, hw']
    cases written with
    | error e => exact ⟨rfl, hafter⟩
    | ok paths => exact ⟨rfl, hafter⟩

/-- Runs from trees that differ in their order alone end alike. -/
theorem generate_reordered (g : Generator) (inputs : List String) (output : String) :
    EndAlike (g.generate t inputs output) (g.generate t' inputs output) := by
  have hresults (paths : List String) : g.results t' paths = g.results t paths := by
    simp only [results, compileFile, h.read]
  rw [generate_eq_generateFound, generate_eq_generateFound,
    finds_iff.mp (finds_reordered h g inputs)]
  unfold generateFound
  simp only [hresults]
  split
  · exact ⟨rfl, h⟩
  · exact commit_reordered h output _ _

end

theorem schemaIn?_eq_some {g : Generator} {directory place : Place} {entry : Entry}
    {text : String} :
    g.schemaIn? directory (place, entry) = some text ↔ ∃ (name : Name) (content : Bytes),
      entry = .file content ∧ place = directory ++ [name] ∧ name.text = text ∧
        g.takes text = true := by
  cases entry with
  | directory => simp [schemaIn?]
  | file content =>
    simp only [schemaIn?, Option.filter_eq_some_iff, Option.map_eq_some_iff, nameIn?_eq_some]
    constructor
    · rintro ⟨⟨name, hp, ht⟩, htakes⟩
      exact ⟨name, content, rfl, hp, ht, htakes⟩
    · rintro ⟨name, _, _, hp, ht, htakes⟩
      exact ⟨⟨name, hp, ht⟩, htakes⟩

/-- The names found in a directory are those of its files that have the wanted extension. -/
theorem mem_schemas {g : Generator} {t : Tree} {place : Place} {text : String} :
    text ∈ t.entries.filterMap (g.schemaIn? place) ↔
      NamesFile (t.children place) text ∧ g.Wants text := by
  rw [List.mem_filterMap, ← takes_iff]
  constructor
  · rintro ⟨⟨p, entry⟩, hm, hs⟩
    obtain ⟨name, content, rfl, rfl, ht, htakes⟩ := schemaIn?_eq_some.mp hs
    exact ⟨⟨name, content, ht, mem_children.mpr hm⟩, htakes⟩
  · rintro ⟨⟨name, content, ht, hm⟩, htakes⟩
    exact ⟨_, mem_children.mp hm, schemaIn?_eq_some.mpr ⟨name, content, rfl, rfl, ht, htakes⟩⟩

/-- No place has two entries, so that no schema is found twice. -/
theorem nodup_schemas (t : Tree) (g : Generator) (place : Place) :
    (t.entries.filterMap (g.schemaIn? place)).Nodup := by
  refine (List.pairwise_map.mp t.distinct).filterMap _ ?_
  rintro ⟨p, entry⟩ ⟨p', entry'⟩ hne text hs text' hs' rfl
  obtain ⟨name, _, _, hp, ht, _⟩ := schemaIn?_eq_some.mp hs
  obtain ⟨name', _, _, hp', ht', _⟩ := schemaIn?_eq_some.mp hs'
  have hname : name = name' := Name.ext (ht.trans ht'.symm)
  exact hne (by rw [hp, hp', hname])

/-- What is selected from a directory are its schemas. -/
theorem exists_schemasIn (g : Generator) (t : Tree) (directory : String) (place : Place) :
    ∃ names, g.SchemasIn directory (t.children place) names ∧
      g.select directory (t.children place) = names.map (join directory) := by
  let sorted := (t.entries.filterMap (g.schemaIn? place)).mergeSort fun a b => decide (a ≤ b)
  have hnodup : sorted.Nodup :=
    (List.mergeSort_perm _ _).nodup_iff.mpr (nodup_schemas t g place)
  have hsorted : sorted.Pairwise Text.BytesBefore := by
    refine (pairwise_sortNames _).imp₂ (fun a b hle hne => ?_) hnodup
    exact Text.bytesBefore_of_lt (String.not_le.mp fun hge => hne (String.le_antisymm hle hge))
  refine ⟨sorted.filter fun name => !isLongPath (join directory name), ⟨?_, ?_⟩, ?_⟩
  · exact hsorted.filter _
  · intro text
    rw [List.mem_filter, List.mem_mergeSort, mem_schemas, Bool.not_eq_true', and_assoc]
  · rw [select_children, List.filter_map]
    rfl

/-- A directory has one list of schemas. -/
theorem SchemasIn.unique {g : Generator} {directory : String} {entries : List (Name × Entry)}
    {names names' : List String} (h : g.SchemasIn directory entries names)
    (h' : g.SchemasIn directory entries names') : names = names' := by
  have hne {a b : String} (hab : Text.BytesBefore a b) : a ≠ b := by
    rintro rfl
    exact hab.asymm hab
  have hp : names.Perm names' := by
    rw [List.perm_ext_iff_of_nodup (h.sorted.imp hne) (h'.sorted.imp hne)]
    intro name
    rw [h.mem, h'.mem]
  exact hp.eq_of_pairwise (fun a b _ _ hab hba => absurd hba hab.asymm) h.sorted h'.sorted

def FoundIn (g : Generator) (t : Tree) (directory : String) (paths : List String) : Prop :=
  ∃ entries names, t.list directory = .ok entries ∧ g.SchemasIn directory entries names ∧
    paths = names.map (join directory)

/-- What the specification finds in a directory is what is selected from its listing. -/
theorem foundIn_iff {g : Generator} {t : Tree} {directory : String} {paths : List String} :
    FoundIn g t directory paths ↔
      ∃ entries, t.list directory = .ok entries ∧ paths = g.select directory entries := by
  constructor
  · rintro ⟨entries, names, hlist, hnames, rfl⟩
    obtain ⟨place, _, _, rfl⟩ := list_eq_ok.mp hlist
    obtain ⟨names', hnames', hselect⟩ := exists_schemasIn g t directory place
    exact ⟨_, hlist, by rw [hselect, hnames.unique hnames']⟩
  · rintro ⟨entries, hlist, rfl⟩
    obtain ⟨place, _, _, rfl⟩ := list_eq_ok.mp hlist
    obtain ⟨names, hnames, hselect⟩ := exists_schemasIn g t directory place
    exact ⟨_, names, hlist, hnames, hselect⟩

/-- What is found in directories, one after the other. -/
theorem collect_eq_ok_iff (g : Generator) (t : Tree) {inputs paths : List String} :
    g.collect t inputs = .ok paths ↔
      ∃ parts, List.Forall₂ (g.FoundIn t) inputs parts ∧ paths = parts.flatten := by
  induction inputs generalizing paths with
  | nil => simp [collect, eq_comm]
  | cons directory rest ih =>
    rw [collect_cons_eq_ok]
    constructor
    · rintro ⟨entries, others, hlist, hrest, rfl⟩
      obtain ⟨parts, hparts, rfl⟩ := ih.mp hrest
      exact ⟨_, .cons (foundIn_iff.mpr ⟨entries, hlist, rfl⟩) hparts, by simp⟩
    · rintro ⟨_, hparts, rfl⟩
      cases hparts with
      | cons hpart hparts =>
        obtain ⟨entries, hlist, rfl⟩ := foundIn_iff.mp hpart
        exact ⟨entries, _, hlist, ih.mpr ⟨_, hparts, rfl⟩, by simp⟩

/-- In whatever order directories are listed, the same schemas are found and a run is the same; nor
does it matter in which order a tree holds its entries. For each directory, in the order given, the
schemas are the regular files with the extension that is wanted, by the bytes of their names, as far
as the system takes their paths. A directory whose path leaves room for any name has no file that is
out of reach. -/
theorem collect_free_of_order (g : Generator) (t : Tree) (inputs : List String) :
    (∀ found, Finds g t inputs found ↔ found = g.collect t inputs) ∧
    (∀ output outcome,
      Runs g t inputs output outcome ↔ outcome = g.generate t inputs output) ∧
    (∀ t' : Tree, t.entries.Perm t'.entries → g.collect t' inputs = g.collect t inputs ∧
      ∀ output, EndAlike (g.generate t inputs output) (g.generate t' inputs output)) ∧
    (∀ paths, g.collect t inputs = .ok paths ↔
      ∃ parts, List.Forall₂ (g.FoundIn t) inputs parts ∧ paths = parts.flatten) ∧
    ∀ (directory : String) (name : Name), directory.utf8ByteSize ≤ 3839 →
      isLongPath (join directory name.text) = false := by
  refine ⟨fun _ => finds_iff, fun _ _ => runs_iff, ?_, fun _ => collect_eq_ok_iff g t,
    fun _ name hd => isLongPath_join hd name⟩
  intro t' hp
  have h : Reordered t t' := ⟨hp⟩
  exact ⟨finds_iff.mp (finds_reordered h g inputs), generate_reordered h g inputs⟩

end Generator

namespace Samples

/-- A directory with two schemas, a file without an extension, and a directory that is named like a
schema. -/
def shelf : Tree :=
  treeOf
    [(["in"], .directory),
     (["in", ".json"], schemaFile "Foo"),
     (["in", "B.v2.JSON"], schemaFile "Foo"),
     (["in", "a.json"], schemaFile "Foo"),
     (["in", "c.json"], .directory),
     (["in", "c.json", "d.json"], schemaFile "Foo")]

def shelfReversed : Tree :=
  ⟨shelf.entries.reverse, by
    rw [List.map_reverse, List.nodup_reverse]
    exact shelf.distinct⟩

theorem select_shelf (path : String) :
    lenient.select path (shelf.children (placeOf ["in"])) =
      [join path "B.v2.JSON", join path "a.json"].filter fun p => !isLongPath p := by
  have hsorted : ["B.v2.JSON", "a.json"].mergeSort (fun a b => decide (a ≤ b)) =
      ["B.v2.JSON", "a.json"] := List.mergeSort_of_pairwise (by decide)
  have hnames : shelf.entries.filterMap (lenient.schemaIn? (placeOf ["in"])) =
      ["B.v2.JSON", "a.json"] := by decide +kernel
  rw [Generator.select_children, hnames, hsorted]
  rfl

theorem collect_shelf :
    lenient.collect shelf ["in"] = .ok ["in/B.v2.JSON", "in/a.json"] := by
  refine Generator.collect_cons_eq_ok.mpr
    ⟨shelf.children (placeOf ["in"]), [], by decide +kernel, rfl, ?_⟩
  rw [select_shelf]
  decide +kernel

def longWay : Nat → String
  | 0 => "in"
  | n + 1 => longWay n ++ "/."

theorem utf8ByteSize_longWay (n : Nat) : (longWay n).utf8ByteSize = 2 * n + 2 := by
  have hstay : "/.".utf8ByteSize = 2 := rfl
  induction n with
  | zero => rfl
  | succ n ih =>
    rw [longWay, String.utf8ByteSize_append, ih, hstay]
    omega

theorem hasNull_longWay (n : Nat) : hasNull (longWay n) = false := by
  induction n with
  | zero => decide
  | succ n ih => simpa [hasNull, longWay] using ih

/-- However often the way goes through the directory itself, it leads to the same place. -/
theorem walk_longWay (n : Nat) :
    shelf.walk [] (components (longWay n)) = .ok (placeOf ["in"]) := by
  have hd : shelf.get? (placeOf ["in"]) = some .directory := by decide +kernel
  induction n with
  | zero => decide +kernel
  | succ n ih =>
    have hcomponents : components (longWay (n + 1)) = components (longWay n) ++ ["."] := by
      have hsplit : splitSlash (longWay (n + 1)).toList =
          splitSlash (longWay n).toList ++ [['.']] := by
        rw [longWay, String.toList_append]
        exact splitSlash_append _ ['.']
      simp [components, hsplit]
    rw [hcomponents, walk_append, ih, ok_bind, walk_cons, requireDirectory_eq_ok.mpr hd]
    rfl

theorem list_longWay {n : Nat} (hn : n ≤ 2046) :
    shelf.list (longWay n) = .ok (shelf.children (placeOf ["in"])) := by
  have hsize := utf8ByteSize_longWay n
  have hshort : isLongPath (longWay n) = false := by
    rw [isLongPath, hsize]
    exact decide_eq_false (by omega)
  have hsome : (longWay n).isEmpty = false := by
    cases he : (longWay n).isEmpty with
    | false => rfl
    | true =>
      rw [String.isEmpty_iff.mp he] at hsize
      simp at hsize
  have hpath := requirePath_eq_ok.mpr ⟨hasNull_longWay n, hshort⟩
  exact list_eq_ok.mpr
    ⟨_, resolve_eq_ok.mpr ⟨hpath, hsome, walk_longWay n⟩, by decide +kernel, rfl⟩

end Samples

namespace Generator

/-- Two schemas for one file: in whatever order they are listed, the same is the first of them. -/
theorem collect_free_of_order_shelf :
    (∀ found, Finds Samples.lenient Samples.shelf ["in"] found →
        found = .ok ["in/B.v2.JSON", "in/a.json"]) ∧
      Samples.lenient.collect Samples.shelfReversed ["in"] =
        .ok ["in/B.v2.JSON", "in/a.json"] ∧
      "in".utf8ByteSize ≤ 3839 ∧
      ∀ name : Name, isLongPath (join "in" name.text) = false := by
  obtain ⟨hfinds, _, hreordered, _, hreach⟩ :=
    collect_free_of_order Samples.lenient Samples.shelf ["in"]
  refine ⟨?_, ?_, by decide, fun name => hreach "in" name (by decide)⟩
  · intro found hf
    rw [(hfinds found).mp hf, Samples.collect_shelf]
  · rw [(hreordered Samples.shelfReversed (List.reverse_perm _).symm).1, Samples.collect_shelf]

/-- The directory can be listed and has two schemas, but by a path that leaves no room for their
names nothing is found. -/
theorem collect_out_of_reach :
    Samples.shelf.list (Samples.longWay 2044) =
        .ok (Samples.shelf.children (Samples.placeOf ["in"])) ∧
      NamesFile (Samples.shelf.children (Samples.placeOf ["in"])) "a.json" ∧
      Samples.lenient.Wants "a.json" ∧
      Samples.lenient.collect Samples.shelf [Samples.longWay 2044] = .ok [] := by
  have hlist := Samples.list_longWay (n := 2044) (by decide)
  have hlong {text : String} (ht : 6 ≤ text.utf8ByteSize) :
      isLongPath (join (Samples.longWay 2044) text) = true := by
    have hjoin := (utf8ByteSize_join (Samples.longWay 2044) text).1
    rw [Samples.utf8ByteSize_longWay] at hjoin
    exact decide_eq_true (by omega)
  have hfile : "a.json" ∈ Samples.shelf.entries.filterMap
      (Samples.lenient.schemaIn? (Samples.placeOf ["in"])) := by decide +kernel
  obtain ⟨hnames, hwants⟩ := mem_schemas.mp hfile
  refine ⟨hlist, hnames, hwants, collect_cons_eq_ok.mpr ⟨_, [], hlist, rfl, ?_⟩⟩
  rw [Samples.select_shelf, List.filter_cons, hlong (by decide), List.filter_cons,
    hlong (by decide)]
  rfl

end Generator

end WireSchema
