import Mathlib.Data.List.Nodup
import Mathlib.Data.List.Perm.Subperm
import Mathlib.Logic.Relation
import WireSchema.Plan.Cycle

/-!
Which records a record leads to. The search for a cycle finds a field exactly when the root leads
back to itself.
-/

namespace WireSchema

/-- In a list without equal keys, looking for the key of a member finds it. -/
theorem find_of_mem {α : Type} {key : α → String} {xs : List α} (hn : (xs.map key).Nodup) {x : α}
    (hx : x ∈ xs) : xs.find? (fun y => key y == key x) = some x := by
  induction xs with
  | nil => cases hx
  | cons y rest ih =>
    simp only [List.map_cons, List.nodup_cons] at hn
    rcases List.mem_cons.mp hx with rfl | hm
    · simp
    · have hne : key y ≠ key x := by
        intro he
        exact hn.1 (he ▸ List.mem_map_of_mem hm)
      simpa [hne] using ih hn.2 hm

/-- In a list without equal keys, a member is the only one with its key. -/
theorem filter_of_mem {α : Type} {key : α → String} {xs : List α} (hn : (xs.map key).Nodup) {x : α}
    (hx : x ∈ xs) : xs.filter (fun y => key y == key x) = [x] := by
  induction xs with
  | nil => cases hx
  | cons y rest ih =>
    simp only [List.map_cons, List.nodup_cons] at hn
    rcases List.mem_cons.mp hx with rfl | hm
    · have hrest : ∀ z ∈ rest, key z ≠ key x := by
        intro z hz he
        exact hn.1 (he ▸ List.mem_map_of_mem hz)
      simpa using hrest
    · have hne : key y ≠ key x := by
        intro he
        exact hn.1 (he ▸ List.mem_map_of_mem hm)
      simpa [hne] using ih hn.2 hm

namespace Cycle

open Relation

def Refers (records : List RecordPlan) (throughArrays : Bool) (a b : String) : Prop :=
  ∃ r ∈ records, r.name = a ∧ ∃ f ∈ r.fields, reference? throughArrays f = some b

section

variable {records : List RecordPlan} {root : String} {throughArrays : Bool}

theorem mem_of_find {a : String} {r : RecordPlan}
    (h : records.find? (fun s => s.name == a) = some r) : r ∈ records ∧ r.name = a :=
  ⟨List.mem_of_find?_eq_some h, by simpa using List.find?_some h⟩

/-- With names of their own, a name refers through the one record that lookup finds. -/
theorem refers_of_find (hn : (records.map RecordPlan.name).Nodup) {a b : String} {r : RecordPlan}
    (hf : records.find? (fun s => s.name == a) = some r) (h : Refers records throughArrays a b) :
    ∃ f ∈ r.fields, reference? throughArrays f = some b := by
  obtain ⟨s, hs, rfl, hb⟩ := h
  have he := find_of_mem hn hs
  rw [hf] at he
  cases he
  exact hb

theorem not_refers_of_find_none {a b : String}
    (hf : records.find? (fun s => s.name == a) = none) : ¬ Refers records throughArrays a b := by
  intro hyp
  obtain ⟨s, hs, rfl, _⟩ := hyp
  simpa using List.find?_eq_none.mp hf s hs

/-- A scan that stops does so at a field that refers to the root. -/
theorem scan_found {fields : List FieldPlan} {pending visited : List String} {f : FieldPlan}
    (h : scan root throughArrays fields pending visited = .found f) :
    f ∈ fields ∧ reference? throughArrays f = some root := by
  fun_induction scan root throughArrays fields pending visited with
  | case1 => cases h
  | case2 _ _ _ _ _ ih =>
    obtain ⟨hm, hr⟩ := ih h
    exact ⟨List.mem_cons_of_mem _ hm, hr⟩
  | case3 g rest pending visited target hg he =>
    cases h
    exact ⟨List.mem_cons_self, by rw [hg, beq_iff_eq.mp he]⟩
  | case4 _ _ _ _ _ _ _ _ ih =>
    obtain ⟨hm, hr⟩ := ih h
    exact ⟨List.mem_cons_of_mem _ hm, hr⟩
  | case5 _ _ _ _ _ _ _ _ ih =>
    obtain ⟨hm, hr⟩ := ih h
    exact ⟨List.mem_cons_of_mem _ hm, hr⟩

/-- A scan that runs to the end notes each reference it meets, the new ones once. -/
structure Scanned (root : String) (throughArrays : Bool) (fields : List FieldPlan)
    (pending visited pending' visited' : List String) : Prop where
  extends_both : ∃ new, pending' = new ++ pending ∧ visited' = new ++ visited
  nodup : visited.Nodup → visited'.Nodup
  fresh : root ∉ visited → root ∉ visited'
  noted : ∀ f ∈ fields, ∀ b, reference? throughArrays f = some b → b ∈ visited'
  referred : ∀ b ∈ visited', b ∈ visited ∨ ∃ f ∈ fields, reference? throughArrays f = some b

/-- Each reference is noted when it is met, unless it was noted before. -/
theorem scan_unfinished {fields : List FieldPlan} {pending visited pending' visited' : List String}
    (h : scan root throughArrays fields pending visited = .unfinished pending' visited') :
    Scanned root throughArrays fields pending visited pending' visited' := by
  fun_induction scan root throughArrays fields pending visited with
  | case1 pending visited =>
    cases h
    exact ⟨⟨[], rfl, rfl⟩, id, id, by simp, fun b hb => .inl hb⟩
  | case2 g rest pending visited hg ih =>
    obtain ⟨he, hn, hf, hno, hr⟩ := ih h
    refine ⟨he, hn, hf, ?_, ?_⟩
    · intro f hm b hb
      rcases List.mem_cons.mp hm with rfl | hm
      · rw [hg] at hb
        cases hb
      · exact hno f hm b hb
    · intro b hb
      rcases hr b hb with hv | ⟨f, hm, hfb⟩
      · exact .inl hv
      · exact .inr ⟨f, List.mem_cons_of_mem _ hm, hfb⟩
  | case3 => cases h
  | case4 g rest pending visited target hg hne hseen ih =>
    obtain ⟨he, hn, hf, hno, hr⟩ := ih h
    refine ⟨he, hn, hf, ?_, ?_⟩
    · intro f hm b hb
      rcases List.mem_cons.mp hm with rfl | hm
      · rw [hg] at hb
        cases hb
        obtain ⟨new, _, hv⟩ := he
        rw [hv]
        exact List.mem_append_right _ (List.contains_iff_mem.mp hseen)
      · exact hno f hm b hb
    · intro b hb
      rcases hr b hb with hv | ⟨f, hm, hfb⟩
      · exact .inl hv
      · exact .inr ⟨f, List.mem_cons_of_mem _ hm, hfb⟩
  | case5 g rest pending visited target hg hne hseen ih =>
    obtain ⟨⟨new, hp, hv⟩, hn, hf, hno, hr⟩ := ih h
    have hunseen : target ∉ visited := fun hm => hseen (List.contains_iff_mem.mpr hm)
    have htr : root ≠ target := fun he => hne (beq_iff_eq.mpr he.symm)
    refine ⟨⟨new ++ [target], by simp [hp], by simp [hv]⟩, ?_, ?_, ?_, ?_⟩
    · intro hd
      exact hn (List.nodup_cons.mpr ⟨hunseen, hd⟩)
    · intro hroot
      exact hf (by simp [htr, hroot])
    · intro f hm b hb
      rcases List.mem_cons.mp hm with rfl | hm
      · rw [hg] at hb
        cases hb
        simp [hv]
      · exact hno f hm b hb
    · intro b hb
      rcases hr b hb with hb | ⟨f, hm, hfb⟩
      · rcases List.mem_cons.mp hb with rfl | hb
        · exact .inr ⟨g, List.mem_cons_self, hg⟩
        · exact .inl hb
      · exact .inr ⟨f, List.mem_cons_of_mem _ hm, hfb⟩

/-- What holds between two steps of the search. A record that was found and is no longer pending
has had all its references noted. -/
structure Searching (records : List RecordPlan) (root : String) (throughArrays : Bool)
    (pending visited : List String) : Prop where
  nodup : visited.Nodup
  fresh : root ∉ visited
  known : ∀ a ∈ pending, a = root ∨ a ∈ visited
  reached : ∀ a ∈ visited, TransGen (Refers records throughArrays) root a
  closed : ∀ a, a = root ∨ a ∈ visited → a ∉ pending →
    ∀ b, Refers records throughArrays a b → b ∈ visited

theorem Searching.start : Searching records root throughArrays [root] [] := by
  refine ⟨List.nodup_nil, by simp, ?_, by simp, ?_⟩
  · intro a ha
    exact .inl (List.mem_singleton.mp ha)
  · intro a ha hp
    rcases ha with rfl | ha
    · simp at hp
    · simp at ha

/-- All that is pending can be reached from the root. -/
theorem Searching.reaches {pending visited : List String} {current : String}
    (h : Searching records root throughArrays (current :: pending) visited) :
    ReflTransGen (Refers records throughArrays) root current := by
  rcases h.known current List.mem_cons_self with rfl | hv
  · exact .refl
  · exact (h.reached current hv).to_reflTransGen

/-- A pending name without a record refers to nothing. -/
theorem Searching.skip {pending visited : List String} {current : String}
    (h : Searching records root throughArrays (current :: pending) visited)
    (hf : records.find? (fun r => r.name == current) = none) :
    Searching records root throughArrays pending visited := by
  refine ⟨h.nodup, h.fresh, fun a ha => h.known a (List.mem_cons_of_mem _ ha), h.reached, ?_⟩
  intro a ha hp b hb
  by_cases he : a = current
  · subst he
    exact absurd hb (not_refers_of_find_none hf)
  · exact h.closed a ha (by simp [he, hp]) b hb

/-- One step of the search: the record taken off the pending ones has been scanned. -/
theorem Searching.step (hn : (records.map RecordPlan.name).Nodup)
    {pending visited pending' visited' : List String} {current : String} {r : RecordPlan}
    (h : Searching records root throughArrays (current :: pending) visited)
    (hf : records.find? (fun r => r.name == current) = some r)
    (hs : Scanned root throughArrays r.fields pending visited pending' visited') :
    Searching records root throughArrays pending' visited' := by
  obtain ⟨new, rfl, rfl⟩ := hs.extends_both
  refine ⟨hs.nodup h.nodup, hs.fresh h.fresh, ?_, ?_, ?_⟩
  · intro a ha
    rcases List.mem_append.mp ha with hm | hm
    · exact .inr (List.mem_append_left _ hm)
    · exact (h.known a (List.mem_cons_of_mem _ hm)).imp_right (List.mem_append_right _)
  · intro a ha
    rcases hs.referred a ha with hv | hfield
    · exact h.reached a hv
    · obtain ⟨hmem, hname⟩ := mem_of_find hf
      exact TransGen.tail' h.reaches ⟨r, hmem, hname, hfield⟩
  · intro a ha hp b hb
    have hnew : a ∉ new := fun hm => hp (List.mem_append_left _ hm)
    by_cases he : a = current
    · subst he
      obtain ⟨f, hm, hfb⟩ := refers_of_find hn hf hb
      exact hs.noted f hm b hfb
    · have hold : a = root ∨ a ∈ visited :=
        ha.imp_right fun hv => (List.mem_append.mp hv).resolve_left hnew
      have hrest : a ∉ current :: pending := by
        intro hm
        rcases List.mem_cons.mp hm with hc | hm
        · exact he hc
        · exact hp (List.mem_append_right _ hm)
      exact List.mem_append_right _ (h.closed a hold hrest b hb)

/-- The search never holds more names than there are fields. -/
theorem Searching.visited_length {pending visited : List String}
    (h : Searching records root throughArrays pending visited) :
    visited.length ≤ (records.flatMap RecordPlan.fields).length := by
  have hsub : visited ⊆
      (records.flatMap RecordPlan.fields).filterMap (reference? throughArrays) := by
    intro a ha
    obtain ⟨c, _, r, hr, _, f, hf, he⟩ := TransGen.tail'_iff.mp (h.reached a ha)
    exact List.mem_filterMap.mpr ⟨f, List.mem_flatMap.mpr ⟨r, hr, hf⟩, he⟩
  calc visited.length
      ≤ ((records.flatMap RecordPlan.fields).filterMap (reference? throughArrays)).length :=
        (h.nodup.subperm hsub).length_le
    _ ≤ (records.flatMap RecordPlan.fields).length := List.length_filterMap_le _ _

/-- The search as a loop without a bound on its steps. It ends when nothing is pending any more, or
at a field that refers to the root. -/
inductive Ends (records : List RecordPlan) (root : String) (throughArrays : Bool) :
    (pending visited : List String) → Option FieldPlan → Prop
  | exhausted {visited : List String} : Ends records root throughArrays [] visited none
  | unknown {current : String} {pending visited : List String} {answer : Option FieldPlan}
      (missing : records.find? (fun r => r.name == current) = none)
      (rest : Ends records root throughArrays pending visited answer) :
      Ends records root throughArrays (current :: pending) visited answer
  | found {current : String} {pending visited : List String} {r : RecordPlan} {f : FieldPlan}
      (record : records.find? (fun r => r.name == current) = some r)
      (back : scan root throughArrays r.fields pending visited = .found f) :
      Ends records root throughArrays (current :: pending) visited (some f)
  | scanned {current : String} {pending visited pending' visited' : List String} {r : RecordPlan}
      {answer : Option FieldPlan}
      (record : records.find? (fun r => r.name == current) = some r)
      (more : scan root throughArrays r.fields pending visited = .unfinished pending' visited')
      (rest : Ends records root throughArrays pending' visited' answer) :
      Ends records root throughArrays (current :: pending) visited answer

/-- The loop ends in one way only. -/
theorem Ends.unique {pending visited : List String} {answer answer' : Option FieldPlan}
    (h : Ends records root throughArrays pending visited answer)
    (h' : Ends records root throughArrays pending visited answer') : answer = answer' := by
  induction h with
  | exhausted => cases h' with
    | exhausted => rfl
  | unknown missing _ ih => cases h' with
    | unknown _ rest => exact ih rest
    | found record => cases missing.symm.trans record
    | scanned record => cases missing.symm.trans record
  | found record back => cases h' with
    | unknown missing => cases missing.symm.trans record
    | found record' back' =>
      cases record.symm.trans record'
      cases back.symm.trans back'
      rfl
    | scanned record' more =>
      cases record.symm.trans record'
      cases back.symm.trans more
  | scanned record more _ ih => cases h' with
    | unknown missing => cases missing.symm.trans record
    | found record' back =>
      cases record.symm.trans record'
      cases back.symm.trans more
    | scanned record' more' rest =>
      cases record.symm.trans record'
      cases more.symm.trans more'
      exact ih rest

/-- The loop ends, within the steps allowed: each takes a pending name, and a name becomes pending
once. -/
theorem search_ends (hn : (records.map RecordPlan.name).Nodup) {steps : Nat}
    {pending visited : List String} (h : Searching records root throughArrays pending visited)
    (hsteps : pending.length + (records.flatMap RecordPlan.fields).length ≤
      steps + visited.length) :
    Ends records root throughArrays pending visited
      (search records root throughArrays steps pending visited) := by
  induction steps generalizing pending visited with
  | zero =>
    have := h.visited_length
    have he : pending = [] := List.length_eq_zero_iff.mp (by omega)
    subst he
    exact .exhausted
  | succ steps ih =>
    cases pending with
    | nil => exact .exhausted
    | cons current pending =>
      simp only [List.length_cons] at hsteps
      cases hf : records.find? (fun r => r.name == current) with
      | none =>
        simp only [search, hf]
        exact .unknown hf (ih (h.skip hf) (by omega))
      | some r =>
        simp only [search, hf]
        cases hs : scan root throughArrays r.fields pending visited with
        | found f => exact .found hf hs
        | unfinished pending' visited' =>
          have hscan := scan_unfinished hs
          obtain ⟨new, hp, hv⟩ := hscan.extends_both
          refine .scanned hf hs (ih (h.step hn hf hscan) ?_)
          simp only [hp, hv, List.length_append]
          omega

/-- The bound on the steps is never met: each step takes a name that was pending, and none is
pending twice. -/
theorem selfReference_ends (hn : (records.map RecordPlan.name).Nodup) :
    Ends records root throughArrays [root] [] (selfReference? records root throughArrays) :=
  search_ends hn .start (by simp [searchSteps]; omega)

/-- A loop that ends without a field has had all references of the names found noted. -/
theorem Ends.closed (hn : (records.map RecordPlan.name).Nodup) {pending visited : List String}
    (h : Searching records root throughArrays pending visited)
    (he : Ends records root throughArrays pending visited none) :
    ∃ visited, Searching records root throughArrays [] visited := by
  generalize hanswer : (none : Option FieldPlan) = answer at he
  induction he with
  | exhausted => exact ⟨_, h⟩
  | unknown missing _ ih => exact ih (h.skip missing) hanswer
  | found => cases hanswer
  | scanned record more _ ih => exact ih (h.step hn record (scan_unfinished more)) hanswer

/-- What the loop ends with is a field of a record that the root leads to. -/
theorem Ends.reached (hn : (records.map RecordPlan.name).Nodup) {pending visited : List String}
    {f : FieldPlan} (h : Searching records root throughArrays pending visited)
    (he : Ends records root throughArrays pending visited (some f)) :
    ∃ r ∈ records, ReflTransGen (Refers records throughArrays) root r.name ∧ f ∈ r.fields ∧
      reference? throughArrays f = some root := by
  generalize hanswer : some f = answer at he
  induction he with
  | exhausted => cases hanswer
  | unknown missing _ ih => exact ih (h.skip missing) hanswer
  | found record back =>
    cases hanswer
    obtain ⟨hm, hg⟩ := scan_found back
    obtain ⟨hr, rfl⟩ := mem_of_find record
    exact ⟨_, hr, h.reaches, hm, hg⟩
  | scanned record more _ ih => exact ih (h.step hn record (scan_unfinished more)) hanswer

/-- A field that is found refers to the root, from a record that the root leads to. -/
theorem selfReference_some (hn : (records.map RecordPlan.name).Nodup) {f : FieldPlan}
    (h : selfReference? records root throughArrays = some f) :
    ∃ r ∈ records, ReflTransGen (Refers records throughArrays) root r.name ∧ f ∈ r.fields ∧
      reference? throughArrays f = some root :=
  Ends.reached hn .start (h ▸ selfReference_ends hn)

/-- The search decides whether the root leads back to itself. -/
theorem selfReference_isSome_iff (hn : (records.map RecordPlan.name).Nodup) :
    (selfReference? records root throughArrays).isSome ↔
      TransGen (Refers records throughArrays) root root := by
  constructor
  · intro h
    obtain ⟨f, hf⟩ := Option.isSome_iff_exists.mp h
    obtain ⟨r, hr, hreach, hm, he⟩ := selfReference_some hn hf
    exact TransGen.tail' hreach ⟨r, hr, rfl, f, hm, he⟩
  · intro h
    by_contra hno
    have hnone : selfReference? records root throughArrays = none := by simpa using hno
    obtain ⟨visited, hend⟩ := Ends.closed hn .start (hnone ▸ selfReference_ends hn)
    -- With nothing pending, the names found are closed, so the root would be one of them.
    have hall : ∀ a, TransGen (Refers records throughArrays) root a → a ∈ visited := by
      intro a ha
      induction ha with
      | single hb => exact hend.closed root (.inl rfl) (by simp) _ hb
      | tail _ hb ih => exact hend.closed _ (.inr ih) (by simp) _ hb
    exact hend.fresh (hall root h)

/-- Where records refer to each other alike, the search answers alike. -/
theorem selfReference_isSome_congr {records' : List RecordPlan}
    (hn : (records.map RecordPlan.name).Nodup) (hn' : (records'.map RecordPlan.name).Nodup)
    (h : Refers records throughArrays = Refers records' throughArrays) (root : String) :
    (selfReference? records root throughArrays).isSome =
      (selfReference? records' root throughArrays).isSome := by
  rw [Bool.eq_iff_iff, selfReference_isSome_iff hn, selfReference_isSome_iff hn', h]

end

end Cycle

end WireSchema
