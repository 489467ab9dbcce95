import Mathlib.Data.List.Perm.Basic
import WireSchema.Proofs.FileTree

/-!
Trees that hold the same entries in another order. Paths lead to the same entries in both, listings
differ in their order alone, and what is made or written in both leaves them the same but for the
order.
-/

namespace WireSchema.Files.Tree

/-- Setting a place puts an entry beside those of all other places. -/
theorem set_perm (t : Tree) (place : Place) (entry : Entry) :
    (t.set place entry).entries.Perm
      ((place, entry) :: t.entries.filter fun e => e.1 != place) := by
  have hd := t.distinct
  change (setIn place entry t.entries).Perm _
  generalize t.entries = entries at hd
  induction entries with
  | nil => exact .refl _
  | cons head rest ih =>
    obtain ⟨p, e⟩ := head
    obtain ⟨hp, hrest⟩ := List.nodup_cons.mp hd
    by_cases he : p = place
    · subst he
      have hothers : rest.filter (fun e => e.1 != p) = rest := by
        apply List.filter_eq_self.mpr
        intro other hm
        exact bne_iff_ne.mpr fun ho => hp (List.mem_map.mpr ⟨other, hm, ho⟩)
      simp [setIn, hothers]
    · have hkept : ((p, e) :: rest).filter (fun e => e.1 != place) =
          (p, e) :: rest.filter fun e => e.1 != place := by simp [he]
      simp only [setIn, he, if_false, hkept]
      exact ((ih hrest).cons _).trans (.swap _ _ _)

structure Reordered (t t' : Tree) : Prop where
  entries : t.entries.Perm t'.entries

/-- Both fail alike, or both give trees that are the same but for the order of their entries. -/
inductive Alike : Except AccessError Tree → Except AccessError Tree → Prop where
  | error (e : AccessError) : Alike (.error e) (.error e)
  | ok {t t' : Tree} (h : Reordered t t') : Alike (.ok t) (.ok t')

/-- The results are the same, and so are the trees but for the order of their entries. -/
structure EndAlike {α : Type} (r r' : α × Tree) : Prop where
  result : r'.1 = r.1
  tree : Reordered r.2 r'.2

/-- Results that are alike are one result, with trees that differ in order alone. -/
theorem EndAlike.exists_same {α : Type} {r r' : α × Tree} (h : EndAlike r r') :
    ∃ result s s', r = (result, s) ∧ r' = (result, s') ∧ Reordered s s' :=
  ⟨r.1, r.2, r'.2, rfl, Prod.ext h.result rfl, h.tree⟩

namespace Reordered

variable {t t' : Tree} (h : Reordered t t')

include h

theorem get? (place : Place) : t'.get? place = t.get? place := by
  unfold Tree.get?
  split
  · rfl
  · apply Option.ext
    intro entry
    rw [lookup_eq_some_iff, lookup_eq_some_iff, h.entries.mem_iff]

theorem set (place : Place) (entry : Entry) :
    Reordered (t.set place entry) (t'.set place entry) := by
  have hothers := (h.entries.filter fun e => e.1 != place).cons (place, entry)
  exact ⟨(t.set_perm place entry).trans (hothers.trans (t'.set_perm place entry).symm)⟩

theorem requireDirectory (place : Place) :
    t'.requireDirectory place = t.requireDirectory place := by
  simp only [Tree.requireDirectory, h.get?]

/-- Following names looks at what is at a place, and never at the order of entries. -/
theorem walk (here : Place) (names : List String) : t'.walk here names = t.walk here names := by
  induction names generalizing here with
  | nil => rfl
  | cons name rest ih => simp only [walk_cons, h.requireDirectory, ih]

theorem resolve (path : String) : t'.resolve path = t.resolve path := by
  simp only [Tree.resolve, h.walk]

theorem lookup (path : String) : t'.lookup path = t.lookup path := by
  simp only [Tree.lookup, h.resolve, h.get?]

theorem read (path : String) : t'.read path = t.read path := by
  simp only [Tree.read, h.lookup]

theorem isDirectory (names : List String) : t'.isDirectory names = t.isDirectory names := by
  simp only [Tree.isDirectory, h.walk, h.get?]

/-- The one operation that shows the order of entries. -/
theorem children (directory : Place) : (t.children directory).Perm (t'.children directory) :=
  h.entries.filterMap _

/-- Listings differ in their order alone. -/
theorem list (path : String) :
    (∃ e, t.list path = .error e ∧ t'.list path = .error e) ∨
      ∃ entries entries', t.list path = .ok entries ∧ t'.list path = .ok entries' ∧
        entries.Perm entries' := by
  unfold Tree.list
  rw [h.lookup, h.resolve]
  cases t.lookup path with
  | error e => exact .inl ⟨e, rfl, rfl⟩
  | ok entry =>
    cases entry with
    | file content => exact .inl ⟨.notDirectory, rfl, rfl⟩
    | directory =>
      cases t.resolve path with
      | error e => exact .inl ⟨e, rfl, rfl⟩
      | ok place => exact .inr ⟨_, _, rfl, rfl, h.children place⟩

theorem makeDirectory (names : List String) :
    Alike (t.makeDirectory names) (t'.makeDirectory names) := by
  unfold Tree.makeDirectory
  rw [h.walk]
  cases t.walk [] names with
  | error e => exact .error e
  | ok place =>
    simp only [ok_bind, h.get?]
    cases t.get? place with
    | none => exact .ok (h.set place .directory)
    | some entry => exact .error .alreadyExists

theorem settleDirectory {r r' : Except AccessError Tree} (hr : Alike r r') (names : List String) :
    EndAlike (t.settleDirectory names r) (t'.settleDirectory names r') := by
  cases hr with
  | error e => exact ⟨by simp only [Tree.settleDirectory, h.isDirectory], h⟩
  | ok hmade => exact ⟨rfl, hmade⟩

/-- By induction on the directories around the first one. -/
theorem makeChain (chain : List (List String)) :
    EndAlike (t.makeChain chain) (t'.makeChain chain) := by
  induction chain with
  | nil => exact ⟨rfl, h⟩
  | cons names outer ih =>
    have hmade := h.makeDirectory names
    have hsettled := h.settleDirectory hmade names
    unfold Tree.makeChain
    generalize t.makeDirectory names = r at hmade hsettled
    generalize t'.makeDirectory names = r' at hmade hsettled
    cases hmade with
    | ok _ => exact hsettled
    | error e =>
      cases e with
      | notFound =>
        obtain ⟨result, s, s', ho, ho', hs⟩ := ih.exists_same
        rw [ho, ho']
        cases result with
        | error e => exact ⟨rfl, hs⟩
        | ok _ => exact hs.settleDirectory (hs.makeDirectory names) names
      | _ => exact hsettled

theorem makeDirectories (path : String) :
    EndAlike (t.makeDirectories path) (t'.makeDirectories path) := by
  unfold Tree.makeDirectories
  split
  · exact ⟨rfl, h⟩
  · exact ⟨rfl, h⟩
  · exact h.makeChain _

theorem requireParent (path : String) : t'.requireParent path = t.requireParent path := by
  simp only [Tree.requireParent, h.walk, h.requireDirectory]

theorem writeAt (place : Place) (content : Bytes) :
    Alike (t.writeAt place content) (t'.writeAt place content) := by
  unfold Tree.writeAt
  rw [h.get?]
  split
  · exact .error .isDirectory
  · exact .ok (h.set place (.file content))

/-- Writing sets one entry, at the same place in both trees. -/
theorem write (path : String) (content : Bytes) :
    Alike (t.write path content) (t'.write path content) := by
  unfold Tree.write
  rw [h.requireParent, h.resolve]
  cases t.requireParent path with
  | error e => exact .error e
  | ok _ =>
    simp only [ok_bind]
    split
    · exact .error .isDirectory
    · cases t.resolve path with
      | error e => exact .error e
      | ok place => exact h.writeAt place content

end Reordered

end WireSchema.Files.Tree
