import WireSchema.Generate
import WireSchema.Proofs.SoundPlan

/-!
Which schemas of a run are written and which are left out. A schema fails by itself, or because one
before it gives the same file. Going through the results keeps an account of all of them, and both
policies stand on that account: one leaves out what fails, and the other stops at the first of it.
-/

namespace WireSchema.Generator

abbrev Result := String × Except GeneratorError CompiledUnit

def results (g : Generator) (t : Files.Tree) (paths : List String) : List Result :=
  paths.map fun path => (path, g.compileFile t path)

def GivesAt (results : List Result) (name : String) (i : Nat) (path : String) : Prop :=
  ∃ u, results[i]? = some (path, .ok u) ∧ u.fileName = name

def FirstAt (results : List Result) (name : String) (i : Nat) (path : String) : Prop :=
  GivesAt results name i path ∧ ∀ j < i, ∀ other, ¬ GivesAt results name j other

/-- The schema at a position compiles to `u`, and is the first that gives this file. -/
def KeptAt (results : List Result) (i : Nat) (u : CompiledUnit) : Prop :=
  ∃ path, results[i]? = some (path, .ok u) ∧ FirstAt results u.fileName i path

/-- The schema at a position fails: it does not compile, or one before it gives the same file. -/
inductive FailsAt (results : List Result) (i : Nat) (f : UnitFailure) : Prop
  | broken (found : results[i]? = some (f.path, .error f.error))
  | duplicate {u : CompiledUnit} {j : Nat} {first : String}
      (found : results[i]? = some (f.path, .ok u)) (before : j < i)
      (firstAt : FirstAt results u.fileName j first)
      (error : f.error = .duplicateOutput u.fileName first f.path)

/-- An account of results: each position is kept or left out, in order. -/
structure Account (results : List Result) (kept left : List Nat) (units : List CompiledUnit)
    (failures : List UnitFailure) : Prop where
  keptSorted : kept.Pairwise (· < ·)
  leftSorted : left.Pairwise (· < ·)
  all : (kept ++ left).Perm (List.range results.length)
  units : List.Forall₂ (KeptAt results) kept units
  failures : List.Forall₂ (FailsAt results) left failures

section

variable {before : List Result} {name path : String} {i : Nat}

theorem GivesAt.lt (h : GivesAt before name i path) : i < before.length := by
  obtain ⟨u, hu, _⟩ := h
  exact (List.getElem?_eq_some_iff.mp hu).1

/-- More results behind do not change what a position gives. -/
theorem givesAt_append (hi : i < before.length) (rest : List Result) :
    GivesAt (before ++ rest) name i path ↔ GivesAt before name i path := by
  unfold GivesAt
  rw [List.getElem?_append_left hi]

theorem FirstAt.append (h : FirstAt before name i path) (rest : List Result) :
    FirstAt (before ++ rest) name i path := by
  refine ⟨(givesAt_append h.1.lt rest).mpr h.1, ?_⟩
  intro j hj other hgives
  exact h.2 j hj other ((givesAt_append (Nat.lt_trans hj h.1.lt) rest).mp hgives)

theorem FirstAt.of_append {rest : List Result} (hi : i < before.length)
    (h : FirstAt (before ++ rest) name i path) : FirstAt before name i path := by
  refine ⟨(givesAt_append hi rest).mp h.1, ?_⟩
  intro j hj other hgives
  exact h.2 j hj other ((givesAt_append (Nat.lt_trans hj hi) rest).mpr hgives)

/-- Where a file is given, there is a first schema that gives it. -/
theorem exists_firstAt (h : GivesAt before name i path) :
    ∃ j first, j ≤ i ∧ FirstAt before name j first := by
  induction i using Nat.strongRecOn generalizing path with
  | ind i ih =>
    by_cases hearlier : ∃ j < i, ∃ other, GivesAt before name j other
    · obtain ⟨j, hj, other, hgives⟩ := hearlier
      obtain ⟨k, first, hk, hfirst⟩ := ih j hj hgives
      exact ⟨k, first, by omega, hfirst⟩
    · refine ⟨i, path, Nat.le_refl i, h, ?_⟩
      intro j hj other hgives
      exact hearlier ⟨j, hj, other, hgives⟩

theorem FirstAt.unique {j : Nat} {other : String} (h : FirstAt before name i path)
    (h' : FirstAt before name j other) : i = j ∧ path = other := by
  have hij : i = j := by
    apply Nat.le_antisymm
    · exact Nat.le_of_not_lt fun hlt => h.2 j hlt other h'.1
    · exact Nat.le_of_not_lt fun hlt => h'.2 i hlt path h.1
  subst hij
  obtain ⟨u, hu, _⟩ := h.1
  obtain ⟨u', hu', _⟩ := h'.1
  rw [hu] at hu'
  cases hu'
  exact ⟨rfl, rfl⟩

end

/-- The claimed names are those of the results so far, each with the first schema that gives it. -/
def Claimed (claimed : List (String × String)) (before : List Result) : Prop :=
  ∀ name path, claimed.lookup name = some path ↔ ∃ i, FirstAt before name i path

theorem claimed_nil : Claimed [] [] := by
  intro name path
  simp only [List.lookup_nil, reduceCtorEq, false_iff, not_exists]
  intro i h
  exact absurd h.1.lt (by simp)

/-- A file is not claimed just if no schema so far gives it. -/
theorem Claimed.none_iff {claimed : List (String × String)} {before : List Result}
    (h : Claimed claimed before) {name : String} :
    claimed.lookup name = none ↔ ∀ i path, ¬ GivesAt before name i path := by
  constructor
  · intro hnone i path hgives
    obtain ⟨j, first, _, hfirst⟩ := exists_firstAt hgives
    have hsome := (h name first).mpr ⟨j, hfirst⟩
    rw [hnone] at hsome
    cases hsome
  · intro hfree
    cases hl : claimed.lookup name with
    | none => rfl
    | some path =>
      obtain ⟨i, hfirst⟩ := (h name path).mp hl
      exact absurd hfirst.1 (hfree i path)

/-- One more result comes first for its file if nothing before it gives that file. -/
theorem firstAt_concat {before : List Result} {r : Result} {name path : String} {i : Nat} :
    FirstAt (before ++ [r]) name i path ↔ FirstAt before name i path ∨
      i = before.length ∧ (∃ u, r = (path, .ok u) ∧ u.fileName = name) ∧
        ∀ j other, ¬ GivesAt before name j other := by
  constructor
  · intro h
    by_cases hi : i < before.length
    · exact .inl (h.of_append hi)
    · have hlt := h.1.lt
      rw [List.length_append, List.length_singleton] at hlt
      have hlast : i = before.length := by omega
      subst hlast
      obtain ⟨u, hu, hname⟩ := h.1
      rw [List.getElem?_concat_length, Option.some.injEq] at hu
      refine .inr ⟨rfl, ⟨u, hu, hname⟩, ?_⟩
      intro j other hgives
      exact h.2 j hgives.lt other ((givesAt_append hgives.lt [r]).mpr hgives)
  · rintro (h | ⟨rfl, ⟨u, rfl, hname⟩, hfree⟩)
    · exact h.append [r]
    · refine ⟨⟨u, List.getElem?_concat_length, hname⟩, ?_⟩
      intro j hj other hgives
      exact hfree j other ((givesAt_append hj _).mp hgives)

theorem checked_eq_ok {claimed : List (String × String)} {path : String}
    {result : Except GeneratorError CompiledUnit} {u : CompiledUnit} :
    result.bind (claim claimed path) = .ok u ↔
      result = .ok u ∧ claimed.lookup u.fileName = none := by
  cases result with
  | error e => simp [Except.bind]
  | ok v =>
    simp only [Except.bind, claim, Except.ok.injEq]
    constructor
    · intro h
      split at h
      · cases h
      · rename_i hl
        cases h
        exact ⟨rfl, hl⟩
    · rintro ⟨rfl, hl⟩
      simp [hl]

/-- A schema fails by itself, or because its file is claimed. -/
theorem checked_eq_error {claimed : List (String × String)} {path : String}
    {result : Except GeneratorError CompiledUnit} {e : GeneratorError} :
    result.bind (claim claimed path) = .error e ↔ result = .error e ∨
      ∃ u first, result = .ok u ∧ claimed.lookup u.fileName = some first ∧
        e = .duplicateOutput u.fileName first path := by
  cases result with
  | error e' => simp [Except.bind]
  | ok v =>
    simp only [Except.bind, claim, reduceCtorEq, false_or, Except.ok.injEq, exists_and_left,
      exists_eq_left']
    cases claimed.lookup v.fileName <;> simp [eq_comm]

section

variable {claimed : List (String × String)} {before : List Result} {path : String}
  {result : Except GeneratorError CompiledUnit} (hc : Claimed claimed before)

include hc

theorem Claimed.keep {u : CompiledUnit} (h : result.bind (claim claimed path) = .ok u) :
    Claimed ((u.fileName, path) :: claimed) (before ++ [(path, result)]) := by
  obtain ⟨rfl, hnone⟩ := checked_eq_ok.mp h
  have hfree := hc.none_iff.mp hnone
  intro name p
  by_cases hn : name = u.fileName
  · subst hn
    rw [List.lookup_cons_self, Option.some.injEq]
    constructor
    · rintro rfl
      exact ⟨before.length, firstAt_concat.mpr (.inr ⟨rfl, ⟨u, rfl, rfl⟩, hfree⟩)⟩
    · rintro ⟨i, hfirst⟩
      rcases firstAt_concat.mp hfirst with hfirst | ⟨_, ⟨v, he, _⟩, _⟩
      · exact absurd hfirst.1 (hfree i p)
      · exact (Prod.ext_iff.mp he).1
  · have hlookup : ((u.fileName, path) :: claimed).lookup name = claimed.lookup name := by
      simp [List.lookup_cons, beq_false_of_ne hn]
    rw [hlookup, hc name p]
    refine exists_congr fun i => ?_
    rw [firstAt_concat]
    constructor
    · exact .inl
    · rintro (hfirst | ⟨_, ⟨v, he, hname⟩, _⟩)
      · exact hfirst
      · cases he
        exact absurd hname.symm hn

/-- A schema that is left out claims nothing: its file, if it has one, is claimed already. -/
theorem Claimed.leave {e : GeneratorError} (h : result.bind (claim claimed path) = .error e) :
    Claimed claimed (before ++ [(path, result)]) := by
  intro name p
  rw [hc name p]
  refine exists_congr fun i => ?_
  rw [firstAt_concat]
  constructor
  · exact .inl
  · rintro (hfirst | ⟨_, ⟨v, he, rfl⟩, hfree⟩)
    · exact hfirst
    · cases he
      rcases checked_eq_error.mp h with he | ⟨u, first, he, hsome, _⟩
      · cases he
      · cases he
        rw [hc.none_iff.mpr hfree] at hsome
        cases hsome

theorem Claimed.keptAt {u : CompiledUnit} (h : result.bind (claim claimed path) = .ok u) :
    KeptAt (before ++ [(path, result)]) before.length u := by
  obtain ⟨rfl, hnone⟩ := checked_eq_ok.mp h
  refine ⟨path, List.getElem?_concat_length, firstAt_concat.mpr (.inr ⟨rfl, ⟨u, rfl, rfl⟩, ?_⟩)⟩
  exact hc.none_iff.mp hnone

theorem Claimed.failsAt {e : GeneratorError} (h : result.bind (claim claimed path) = .error e) :
    FailsAt (before ++ [(path, result)]) before.length ⟨path, e⟩ := by
  rcases checked_eq_error.mp h with rfl | ⟨u, first, rfl, hsome, rfl⟩
  · exact .broken List.getElem?_concat_length
  · obtain ⟨j, hfirst⟩ := (hc u.fileName first).mp hsome
    exact .duplicate List.getElem?_concat_length hfirst.1.lt (hfirst.append _) rfl

end

theorem KeptAt.append {before : List Result} {i : Nat} {u : CompiledUnit}
    (h : KeptAt before i u) (rest : List Result) : KeptAt (before ++ rest) i u := by
  obtain ⟨path, hu, hfirst⟩ := h
  refine ⟨path, ?_, hfirst.append rest⟩
  rw [List.getElem?_append_left hfirst.1.lt, hu]

theorem FailsAt.append {before : List Result} {i : Nat} {f : UnitFailure}
    (h : FailsAt before i f) (rest : List Result) : FailsAt (before ++ rest) i f := by
  have hstays {r : Result} (hr : before[i]? = some r) : (before ++ rest)[i]? = some r := by
    rw [List.getElem?_append_left (List.getElem?_eq_some_iff.mp hr).1, hr]
  cases h with
  | broken found => exact .broken (hstays found)
  | duplicate found hlt hfirst he => exact .duplicate (hstays found) hlt (hfirst.append rest) he

theorem account_nil : Account [] [] [] [] [] :=
  ⟨.nil, .nil, .nil, .nil, .nil⟩

section

variable {before : List Result} {kept left : List Nat} {units : List CompiledUnit}
  {failures : List UnitFailure} (h : Account before kept left units failures)

include h

/-- Each position is accounted for. -/
theorem Account.mem_iff {i : Nat} : i ∈ kept ∨ i ∈ left ↔ i < before.length := by
  rw [← List.mem_append, h.all.mem_iff, List.mem_range]

theorem Account.keep {r : Result} {u : CompiledUnit}
    (hu : KeptAt (before ++ [r]) before.length u) :
    Account (before ++ [r]) (kept ++ [before.length]) left (units ++ [u]) failures := by
  refine ⟨?_, h.leftSorted, ?_, ?_, h.failures.imp fun _ _ hf => hf.append [r]⟩
  · refine List.pairwise_append.mpr ⟨h.keptSorted, List.pairwise_singleton _ _, ?_⟩
    intro i hi j hj
    rw [List.mem_singleton.mp hj]
    exact h.mem_iff.mp (.inl hi)
  · rw [List.length_append, List.length_singleton, List.range_succ]
    have hlast : ([before.length] ++ left).Perm (left ++ [before.length]) := List.perm_append_comm
    have hswap : (kept ++ [before.length] ++ left).Perm (kept ++ left ++ [before.length]) := by
      simpa using hlast.append_left kept
    exact hswap.trans (h.all.append_right _)
  · exact List.rel_append (h.units.imp fun _ _ hk => hk.append [r]) (.cons hu .nil)

theorem Account.leave {r : Result} {f : UnitFailure}
    (hf : FailsAt (before ++ [r]) before.length f) :
    Account (before ++ [r]) kept (left ++ [before.length]) units (failures ++ [f]) := by
  refine ⟨h.keptSorted, ?_, ?_, h.units.imp fun _ _ hk => hk.append [r], ?_⟩
  · refine List.pairwise_append.mpr ⟨h.leftSorted, List.pairwise_singleton _ _, ?_⟩
    intro i hi j hj
    rw [List.mem_singleton.mp hj]
    exact h.mem_iff.mp (.inr hi)
  · rw [List.length_append, List.length_singleton, List.range_succ, ← List.append_assoc]
    exact h.all.append_right _
  · exact List.rel_append (h.failures.imp fun _ _ hl => hl.append [r]) (.cons hf .nil)

end

/-- Those gone through are accounted for, with the names that they claim. -/
theorem settle_account {claimed : List (String × String)} {before rest : List Result}
    {kept left : List Nat} {units more : List CompiledUnit} {failures others : List UnitFailure}
    (hc : Claimed claimed before) (ha : Account before kept left units failures)
    (h : settle .keepGoing claimed rest = .ok (more, others)) :
    ∃ kept left, Account (before ++ rest) kept left (units ++ more) (failures ++ others) := by
  induction rest generalizing claimed before kept left units failures more others with
  | nil =>
    cases h
    exact ⟨kept, left, by simpa using ha⟩
  | cons r rest ih =>
    obtain ⟨path, result⟩ := r
    unfold settle at h
    split at h
    · rename_i u hu
      obtain ⟨⟨more, others⟩, hrest, he⟩ := bind_eq_ok.mp h
      cases he
      simpa using ih (hc.keep hu) (ha.keep (hc.keptAt hu)) hrest
    · rename_i hp
      cases hp
    · rename_i e he _
      obtain ⟨⟨more, others⟩, hrest, heq⟩ := bind_eq_ok.mp h
      cases heq
      simpa using ih (hc.leave he) (ha.leave (hc.failsAt he)) hrest

/-- What is left of an account for those who stop at the first failure. -/
def stopAt (units : List CompiledUnit) :
    List UnitFailure → Except GeneratorError (List CompiledUnit × List UnitFailure)
  | [] => .ok (units, [])
  | f :: _ => .error f.error

/-- Leaving out what fails always comes to an end, and stopping gives the first of what is left
out. -/
theorem settle_policies (claimed : List (String × String)) (rs : List Result) :
    ∃ units failures, settle .keepGoing claimed rs = .ok (units, failures) ∧
      settle .failFast claimed rs = stopAt units failures := by
  induction rs generalizing claimed with
  | nil => exact ⟨[], [], rfl, rfl⟩
  | cons r rest ih =>
    obtain ⟨path, result⟩ := r
    cases hr : result.bind (claim claimed path) with
    | ok u =>
      obtain ⟨units, failures, hkeep, hfast⟩ := ih ((u.fileName, path) :: claimed)
      refine ⟨u :: units, failures, by simp [settle, hr, hkeep], ?_⟩
      cases failures <;> simp [settle, hr, hfast, stopAt]
    | error e =>
      obtain ⟨units, failures, hkeep, _⟩ := ih claimed
      refine ⟨units, ⟨path, e⟩ :: failures, ?_, ?_⟩
      · simp [settle, hr, hkeep]
      · simp [settle, hr, stopAt]

/-- Under either policy, results that come to an end are accounted for. -/
theorem exists_account {policy : FailurePolicy} {rs : List Result} {units : List CompiledUnit}
    {failures : List UnitFailure} (h : settle policy [] rs = .ok (units, failures)) :
    ∃ kept left, Account rs kept left units failures := by
  have hkeep : settle .keepGoing [] rs = .ok (units, failures) := by
    cases policy with
    | keepGoing => exact h
    | failFast =>
      obtain ⟨us, fs, hkeep, hfast⟩ := settle_policies [] rs
      rw [hfast] at h
      cases fs with
      | nil =>
        cases h
        exact hkeep
      | cons f rest => cases h
  simpa using settle_account claimed_nil account_nil hkeep

/-- No schema is both kept and left out. -/
theorem KeptAt.not_failsAt {rs : List Result} {i : Nat} {u : CompiledUnit} (h : KeptAt rs i u)
    (f : UnitFailure) : ¬ FailsAt rs i f := by
  obtain ⟨path, hu, hfirst⟩ := h
  intro hf
  cases hf with
  | broken found =>
    rw [hu] at found
    cases found
  | duplicate found hlt hfirst' he =>
    rw [hu] at found
    cases found
    exact hfirst.2 _ hlt _ hfirst'.1

/-- A schema that compiles can only fail as a duplicate. -/
theorem failsAt_of_compiled {rs : List Result} {i : Nat} {path : String} {u : CompiledUnit}
    (h : rs[i]? = some (path, .ok u)) {f : UnitFailure} :
    FailsAt rs i f ↔ f.path = path ∧ ∃ j first, j < i ∧ FirstAt rs u.fileName j first ∧
      f.error = .duplicateOutput u.fileName first path := by
  constructor
  · intro hf
    cases hf with
    | broken found =>
      rw [h] at found
      cases found
    | duplicate found hlt hfirst he =>
      rw [h] at found
      cases found
      exact ⟨rfl, _, _, hlt, hfirst, he⟩
  · rintro ⟨rfl, j, first, hlt, hfirst, he⟩
    exact .duplicate h hlt hfirst he

section

variable {rs : List Result} {kept left : List Nat} {units : List CompiledUnit}
  {failures : List UnitFailure} (h : Account rs kept left units failures)

include h

theorem Account.keptAt {i : Nat} (hi : i ∈ kept) : ∃ u ∈ units, KeptAt rs i u :=
  exists_of_mem_left h.units hi

theorem Account.failsAt {i : Nat} (hi : i ∈ left) : ∃ f ∈ failures, FailsAt rs i f :=
  exists_of_mem_left h.failures hi

/-- A position is left out just if it fails. -/
theorem Account.mem_left_iff {i : Nat} : i ∈ left ↔ ∃ f, FailsAt rs i f := by
  constructor
  · intro hi
    obtain ⟨f, _, hf⟩ := h.failsAt hi
    exact ⟨f, hf⟩
  · rintro ⟨f, hf⟩
    have hlt : i < rs.length := by
      cases hf with
      | broken found => exact (List.getElem?_eq_some_iff.mp found).1
      | duplicate found => exact (List.getElem?_eq_some_iff.mp found).1
    rcases h.mem_iff.mpr hlt with hk | hl
    · obtain ⟨u, _, hu⟩ := h.keptAt hk
      exact absurd hf (hu.not_failsAt f)
    · exact hl

/-- A schema that compiles is left out just if one before it gives the same file. -/
theorem Account.mem_left_iff_givesAt {i : Nat} {path : String} {u : CompiledUnit}
    (hu : rs[i]? = some (path, .ok u)) :
    i ∈ left ↔ ∃ j < i, ∃ other, GivesAt rs u.fileName j other := by
  rw [h.mem_left_iff]
  constructor
  · rintro ⟨f, hf⟩
    obtain ⟨_, j, first, hlt, hfirst, _⟩ := (failsAt_of_compiled hu).mp hf
    exact ⟨j, hlt, first, hfirst.1⟩
  · rintro ⟨j, hlt, other, hgives⟩
    obtain ⟨k, first, hk, hfirst⟩ := exists_firstAt hgives
    refine ⟨⟨path, .duplicateOutput u.fileName first path⟩, ?_⟩
    exact (failsAt_of_compiled hu).mpr ⟨rfl, k, first, by omega, hfirst, rfl⟩

/-- Files kept are different: each is kept at the first position that gives it. -/
theorem Account.fileNames_nodup : (units.map CompiledUnit.fileName).Nodup := by
  have hsorted := h.keptSorted
  have hunits := h.units
  clear h
  induction hunits with
  | nil => exact List.nodup_nil
  | @cons i u kept units hu hrest ih =>
    obtain ⟨hfirst, hsorted⟩ := List.pairwise_cons.mp hsorted
    refine List.nodup_cons.mpr ⟨?_, ih hsorted⟩
    intro hm
    obtain ⟨v, hv, he⟩ := List.mem_map.mp hm
    obtain ⟨j, hj, hvat⟩ := exists_of_mem_right hrest hv
    obtain ⟨_, _, huFirst⟩ := hu
    obtain ⟨_, _, hvFirst⟩ := hvat
    rw [he] at hvFirst
    have hij := (huFirst.unique hvFirst).1
    exact absurd (hfirst j hj) (by omega)

end

/-- The first failure of an account is that of the first position that fails. -/
theorem Account.first {rs : List Result} {kept left : List Nat} {units : List CompiledUnit}
    {f : UnitFailure} {rest : List UnitFailure} (h : Account rs kept left units (f :: rest)) :
    ∃ i, FailsAt rs i f ∧ ∀ j < i, ∀ f', ¬ FailsAt rs j f' := by
  have hfailures := h.failures
  have hsorted := h.leftSorted
  cases left with
  | nil => cases hfailures
  | cons i left =>
    cases hfailures with
    | cons hf _ =>
      refine ⟨i, hf, ?_⟩
      intro j hj f' hf'
      have hm := h.mem_left_iff.mpr ⟨f', hf'⟩
      rcases List.mem_cons.mp hm with rfl | hm
      · omega
      · have hlt := (List.pairwise_cons.mp hsorted).1 j hm
        omega

end WireSchema.Generator
