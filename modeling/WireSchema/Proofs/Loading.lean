import WireSchema.Proofs.SoundPlan
import WireSchema.Schema.Load

/-!
From documents to messages. The fields of a document are listed in pre-order, and the first of them
whose default stands for nothing is the one that a load is refused for. Where there is none, the
message has the fields of the document, tree for tree.
-/

namespace WireSchema

open Json

/-! ## What a document describes -/

/-- The literal that a default of a document stands for. -/
inductive DefaultLiteral.WrittenAs : DefaultLiteral → Option Json.Value → Prop
  | missing : WrittenAs .absent none
  | null : WrittenAs .absent (some .null)
  | string (text : String) : WrittenAs (.string text) (some (.string text))
  | int {v : Int} (least : -9223372036854775808 ≤ v) (greatest : v ≤ 9223372036854775807) :
      WrittenAs (.int v) (some (.number (.whole v)))

def FieldDoc.Supported (d : FieldDoc) : Prop :=
  ∃ literal : DefaultLiteral, literal.WrittenAs d.default

/-- A field has all that its document says, the fields inside it included. -/
inductive FieldDoc.Describes : FieldDoc → Field → Prop
  | intro {d : FieldDoc} {f : Field} (name : f.name = d.name) (typeText : f.typeText = d.typeText)
      (versions : f.versions = d.versions) (about : f.about = d.about)
      (default : f.default.WrittenAs d.default) (ignorable : f.ignorable = d.ignorable)
      (fields : List.Forall₂ FieldDoc.Describes d.fields f.fields) : Describes d f

structure CommonDoc.Describes (d : CommonDoc) (c : CommonRecord) : Prop where
  name : c.name = d.name
  versions : c.versions = d.versions
  fields : List.Forall₂ FieldDoc.Describes d.fields c.fields

structure MessageDoc.Describes (d : MessageDoc) (m : Message) : Prop where
  category : m.category = d.category
  name : m.name = d.name
  validVersions : m.validVersions = d.validVersions
  flexibleVersions : m.flexibleVersions = d.flexibleVersions
  fields : List.Forall₂ FieldDoc.Describes d.fields m.fields
  commonRecords : List.Forall₂ CommonDoc.Describes d.commonRecords m.commonRecords

mutual

/-- A field of a document, then the fields nested in it, at any depth. -/
def FieldDoc.withNested : FieldDoc → List FieldDoc
  | ⟨name, typeText, versions, about, default, ignorable, fields⟩ =>
    ⟨name, typeText, versions, about, default, ignorable, fields⟩ :: FieldDoc.allNested fields

def FieldDoc.allNested : List FieldDoc → List FieldDoc
  | [] => []
  | d :: rest => d.withNested ++ FieldDoc.allNested rest

end

/-- All fields of a document in pre-order, those of its common records last. -/
def MessageDoc.allFields (d : MessageDoc) : List FieldDoc :=
  FieldDoc.allNested d.fields ++ d.commonRecords.flatMap fun c => FieldDoc.allNested c.fields

/-- The refusal of a document for the first field whose default stands for nothing. -/
def MessageDoc.FirstUnsupported (d : MessageDoc) (e : LoadError) : Prop :=
  ∃ before f after value, d.allFields = before ++ f :: after ∧ (∀ g ∈ before, g.Supported) ∧
    ¬ f.Supported ∧ f.default = some value ∧ e = .unsupportedDefault f.name value.render

namespace FieldDoc

theorem allNested_cons (d : FieldDoc) (rest : List FieldDoc) :
    allNested (d :: rest) = d :: (allNested d.fields ++ allNested rest) := by
  obtain ⟨name, typeText, versions, about, default, ignorable, fields⟩ := d
  rfl

/-- Induction on the fields of a document: what holds of the fields inside the first and of those
behind it holds of all together. -/
theorem docs_induction {motive : List FieldDoc → Prop} (nil : motive [])
    (cons : ∀ d rest, motive d.fields → motive rest → motive (d :: rest)) (docs : List FieldDoc) :
    motive docs := by
  match docs with
  | [] => exact nil
  | ⟨_, _, _, _, _, _, inner⟩ :: rest =>
    exact cons _ rest (docs_induction nil cons inner) (docs_induction nil cons rest)
termination_by sizeOf docs

def ownLiteral (d : FieldDoc) : Except LoadError DefaultLiteral := literal d.name d.default

/-- The order in which a field and those around it are looked at: its own default, those nested in
it, and then its neighbours. -/
theorem toFields_cons (d : FieldDoc) (rest : List FieldDoc) :
    toFields (d :: rest) = (do
      let default ← d.ownLiteral
      let nested ← toFields d.fields
      let fields ← toFields rest
      let field := ⟨d.name, d.typeText, d.versions, d.about, default, d.ignorable, nested⟩
      return field :: fields) := by
  obtain ⟨name, typeText, versions, about, default, ignorable, fields⟩ := d
  simp only [toFields, toField, ownLiteral, bind_assoc, pure_bind]

/-- No default is null, at any depth: in a document that was read, null is the same as nothing. -/
def AllNullFree (docs : List FieldDoc) : Prop := ∀ d ∈ allNested docs, d.default ≠ some .null

def NullFree (d : FieldDoc) : Prop := d.default ≠ some .null ∧ AllNullFree d.fields

theorem allNullFree_iff {docs : List FieldDoc} : AllNullFree docs ↔ ∀ d ∈ docs, d.NullFree := by
  induction docs with
  | nil => simp [AllNullFree, allNested]
  | cons d rest ih =>
    rw [List.forall_mem_cons, ← ih]
    simp only [AllNullFree, NullFree, allNested_cons, List.forall_mem_cons, List.forall_mem_append,
      and_assoc]

end FieldDoc

/-! ## Defaults -/

theorem holds_w64_iff {v : Int} : IntWidth.w64.holds v = true ↔
    -9223372036854775808 ≤ v ∧ v ≤ 9223372036854775807 := by
  simp only [IntWidth.holds, Bool.and_eq_true, decide_eq_true_eq]
  rfl

/-- A default is read just as the value that writes it. -/
theorem ofValue?_eq_some {value : Option Json.Value} (hv : value ≠ some .null)
    {literal : DefaultLiteral} :
    DefaultLiteral.ofValue? value = some literal ↔ literal.WrittenAs value := by
  constructor
  · intro h
    unfold DefaultLiteral.ofValue? at h
    split at h
    · cases h
      exact .missing
    · cases h
      exact .string _
    · rename_i v
      split at h
      · rename_i hholds
        cases h
        obtain ⟨least, greatest⟩ := holds_w64_iff.mp hholds
        exact .int least greatest
      · cases h
    · cases h
  · intro h
    cases h with
    | missing => rfl
    | null => exact absurd rfl hv
    | string text => rfl
    | int least greatest => exact if_pos (holds_w64_iff.mpr ⟨least, greatest⟩)

namespace FieldDoc

theorem ownLiteral_eq_ok {d : FieldDoc} (hd : d.default ≠ some .null) {literal : DefaultLiteral} :
    d.ownLiteral = .ok literal ↔ literal.WrittenAs d.default := by
  rw [← ofValue?_eq_some hd]
  unfold ownLiteral FieldDoc.literal
  cases DefaultLiteral.ofValue? d.default <;> simp

theorem ownLiteral_isOk_iff {d : FieldDoc} (hd : d.default ≠ some .null) :
    (∃ literal, d.ownLiteral = .ok literal) ↔ d.Supported := by
  simp only [ownLiteral_eq_ok hd, Supported]

/-- A field is refused just if its default stands for nothing, and the error shows the default. -/
theorem ownLiteral_eq_error {d : FieldDoc} (hd : d.default ≠ some .null) {e : LoadError} :
    d.ownLiteral = .error e ↔
      ¬ d.Supported ∧ ∃ value, d.default = some value ∧
        e = .unsupportedDefault d.name value.render := by
  rw [← ownLiteral_isOk_iff hd]
  unfold ownLiteral FieldDoc.literal
  cases hvalue : d.default with
  | none => simp [DefaultLiteral.ofValue?]
  | some value =>
    cases DefaultLiteral.ofValue? (some value) with
    | some literal => simp
    | none => simp [eq_comm]

end FieldDoc

/-! ## Failing alike -/

def FailAlike {ε α β : Type} (x : Except ε α) (y : Except ε β) : Prop :=
  ∀ e, x = .error e ↔ y = .error e

theorem failAlike_ok {ε α β : Type} (a : α) (b : β) :
    FailAlike (.ok a : Except ε α) (.ok b : Except ε β) := by
  intro e
  simp

theorem FailAlike.bind {ε α β γ δ : Type} {x : Except ε α} {y : Except ε β} {f : α → Except ε γ}
    {g : β → Except ε δ} (h : FailAlike x y) (hf : ∀ a b, FailAlike (f a) (g b)) :
    FailAlike (x >>= f) (y >>= g) := by
  intro e
  cases x with
  | error cause => simp [(h cause).mp rfl]
  | ok a =>
    cases y with
    | error cause => cases (h cause).mpr rfl
    | ok b => exact hf a b e

theorem FailAlike.isOk_iff {ε α β : Type} {x : Except ε α} {y : Except ε β} (h : FailAlike x y) :
    (∃ a, x = .ok a) ↔ ∃ b, y = .ok b := by
  cases x with
  | error cause => simp [(h cause).mp rfl]
  | ok a =>
    cases y with
    | error cause => cases (h cause).mpr rfl
    | ok b => simp

namespace FieldDoc

/-- A field's own default is looked at before the fields inside it, and these before the fields
behind it: the fields fail as their list in pre-order does. -/
theorem toFields_failAlike (docs : List FieldDoc) :
    FailAlike (toFields docs) ((allNested docs).mapM ownLiteral) := by
  induction docs using docs_induction with
  | nil => exact failAlike_ok [] []
  | cons d rest inner ih =>
    rw [toFields_cons, allNested_cons, List.mapM_cons, List.mapM_append]
    simp only [bind_assoc, pure_bind]
    refine FailAlike.bind (fun e => Iff.rfl) fun default _ => ?_
    refine inner.bind fun nested _ => ?_
    exact ih.bind fun fields _ => failAlike_ok _ _

/-- The fields that a list of documents gives are those that it describes. -/
theorem toFields_eq_ok {docs : List FieldDoc} (hdocs : AllNullFree docs) {fields : List Field} :
    toFields docs = .ok fields ↔ List.Forall₂ Describes docs fields := by
  induction docs using docs_induction generalizing fields with
  | nil => simp [toFields, eq_comm]
  | cons d rest inner ih =>
    obtain ⟨⟨hd, hinner⟩, hrest⟩ := List.forall_mem_cons.mp (allNullFree_iff.mp hdocs)
    have hrest : AllNullFree rest := allNullFree_iff.mpr hrest
    simp only [toFields_cons, bind_eq_ok, ownLiteral_eq_ok hd, inner hinner, ih hrest, pure_eq_ok,
      Except.ok.injEq]
    constructor
    · rintro ⟨default, hdefault, nested, hnested, others, hothers, rfl⟩
      exact .cons (.intro rfl rfl rfl rfl hdefault rfl hnested) hothers
    · intro h
      cases h with
      | @cons _ f _ others hd hothers =>
        obtain ⟨name, typeText, versions, about, default, ignorable, nested⟩ := f
        obtain ⟨rfl, rfl, rfl, rfl, hdefault, rfl, hnested⟩ := hd
        exact ⟨default, hdefault, nested, hnested, others, hothers, rfl⟩

end FieldDoc

namespace CommonDoc

theorem toCommon_failAlike (c : CommonDoc) :
    FailAlike c.toCommon ((FieldDoc.allNested c.fields).mapM FieldDoc.ownLiteral) := by
  have h := (FieldDoc.toFields_failAlike c.fields).bind
    (f := fun fields => pure (⟨c.name, c.versions, fields⟩ : CommonRecord)) (g := pure)
    fun fields literals => failAlike_ok _ literals
  rwa [bind_pure] at h

theorem mapM_toCommon_failAlike (commons : List CommonDoc) :
    FailAlike (commons.mapM toCommon)
      ((commons.flatMap fun c => FieldDoc.allNested c.fields).mapM FieldDoc.ownLiteral) := by
  induction commons with
  | nil => exact failAlike_ok [] []
  | cons c rest ih =>
    rw [List.mapM_cons, List.flatMap_cons, List.mapM_append]
    exact c.toCommon_failAlike.bind fun _ _ => ih.bind fun _ _ => failAlike_ok _ _

theorem toCommon_eq_ok {c : CommonDoc} (hc : FieldDoc.AllNullFree c.fields) {r : CommonRecord} :
    c.toCommon = .ok r ↔ c.Describes r := by
  simp only [toCommon, bind_eq_ok, FieldDoc.toFields_eq_ok hc, pure_eq_ok, Except.ok.injEq]
  constructor
  · rintro ⟨fields, hfields, rfl⟩
    exact ⟨rfl, rfl, hfields⟩
  · rintro ⟨hn, hv, hfields⟩
    exact ⟨r.fields, hfields, by rw [← hn, ← hv]⟩

end CommonDoc

namespace MessageDoc

/-- A message fails as the row of all its defaults does, so that its first error is that of the
first default. -/
theorem toMessage_failAlike (d : MessageDoc) :
    FailAlike d.toMessage (d.allFields.mapM FieldDoc.ownLiteral) := by
  unfold toMessage allFields
  rw [List.mapM_append]
  refine (FieldDoc.toFields_failAlike d.fields).bind fun _ _ => ?_
  exact (CommonDoc.mapM_toCommon_failAlike d.commonRecords).bind fun _ _ => failAlike_ok _ _

/-- A message is loaded just if it says all that the document says. -/
theorem toMessage_eq_ok {d : MessageDoc} (hd : ∀ f ∈ d.allFields, f.default ≠ some .null)
    {m : Message} : d.toMessage = .ok m ↔ d.Describes m := by
  obtain ⟨hfields, hcommons⟩ := List.forall_mem_append.mp hd
  have hcommon {c : CommonDoc} (hc : c ∈ d.commonRecords) : FieldDoc.AllNullFree c.fields :=
    fun f hf => hcommons f (List.mem_flatMap.mpr ⟨c, hc, hf⟩)
  have hrecords {records : List CommonRecord} :
      List.Forall₂ (fun c r => CommonDoc.toCommon c = .ok r) d.commonRecords records ↔
        List.Forall₂ CommonDoc.Describes d.commonRecords records := by
    rw [List.forall₂_iff_zip, List.forall₂_iff_zip]
    refine and_congr_right fun _ => forall₂_congr fun c r => ?_
    refine forall_congr' fun hzip => ?_
    exact CommonDoc.toCommon_eq_ok (hcommon (List.of_mem_zip hzip).1)
  simp only [toMessage, bind_eq_ok, FieldDoc.toFields_eq_ok hfields, mapM_eq_ok, hrecords,
    pure_eq_ok, Except.ok.injEq]
  constructor
  · rintro ⟨fields, hf, records, hr, rfl⟩
    exact ⟨rfl, rfl, rfl, rfl, hf, hr⟩
  · rintro ⟨hc, hn, hv, hx, hf, hr⟩
    exact ⟨m.fields, hf, m.commonRecords, hr, by rw [← hc, ← hn, ← hv, ← hx]⟩

theorem toMessage_isOk_iff {d : MessageDoc} (hd : ∀ f ∈ d.allFields, f.default ≠ some .null) :
    (∃ m, d.toMessage = .ok m) ↔ ∀ f ∈ d.allFields, f.Supported := by
  rw [d.toMessage_failAlike.isOk_iff]
  simp only [mapM_eq_ok, exists_forall₂]
  exact forall₂_congr fun f hf => FieldDoc.ownLiteral_isOk_iff (hd f hf)

/-- A message is refused just for the first default that stands for nothing. -/
theorem toMessage_eq_error {d : MessageDoc} (hd : ∀ f ∈ d.allFields, f.default ≠ some .null)
    {e : LoadError} : d.toMessage = .error e ↔ d.FirstUnsupported e := by
  rw [d.toMessage_failAlike e, mapM_eq_error]
  constructor
  · rintro ⟨before, f, after, hsplit, hbefore, hf⟩
    obtain ⟨hfront, hrest⟩ := List.forall_mem_append.mp (hsplit ▸ hd)
    obtain ⟨hno, value, hvalue, he⟩ :=
      (FieldDoc.ownLiteral_eq_error (hrest f List.mem_cons_self)).mp hf
    refine ⟨before, f, after, value, hsplit, ?_, hno, hvalue, he⟩
    exact fun g hg => (FieldDoc.ownLiteral_isOk_iff (hfront g hg)).mp (hbefore g hg)
  · rintro ⟨before, f, after, value, hsplit, hbefore, hno, hvalue, he⟩
    obtain ⟨hfront, hrest⟩ := List.forall_mem_append.mp (hsplit ▸ hd)
    refine ⟨before, f, after, hsplit, ?_, ?_⟩
    · exact fun g hg => (FieldDoc.ownLiteral_isOk_iff (hfront g hg)).mpr (hbefore g hg)
    · exact (FieldDoc.ownLiteral_eq_error (hrest f List.mem_cons_self)).mpr
        ⟨hno, value, hvalue, he⟩

end MessageDoc

/-! ## Reading documents -/

namespace Doc

section

variable {α : Type} {P : α → Prop}

/-- Whatever the value of a member, setting it keeps a property of the record. -/
def Member.Keeps (P : α → Prop) (m : Member α) : Prop :=
  ∀ n set, m.read n = .ok set → ∀ a, P a → P (set a)

theorem member_keeps {β : Type} {key : String} {read : NodeReader β} {set : α → β → α}
    (h : ∀ n b, read n = .ok b → ∀ a, P a → P (set a b)) : (member key read set).Keeps P := by
  intro n update hread a ha
  simp only [member] at hread
  cases hb : read n with
  | error f => simp [hb, Except.map] at hread
  | ok b =>
    simp only [hb, Except.map, Except.ok.injEq] at hread
    subst hread
    exact h n b hb a ha

/-- A property that every member keeps holds of what is read, unknown keys aside. -/
theorem readMembers_keeps {shape : List (Member α)} (hs : ∀ m ∈ shape, m.Keeps P)
    {seen : List String} {a b : α} {members : List (Key × Node)}
    (h : readMembers shape seen a members = .ok b) (ha : P a) : P b := by
  induction members generalizing seen a with
  | nil =>
    cases h
    exact ha
  | cons entry rest ih =>
    obtain ⟨name, _, h⟩ := bind_eq_ok.mp h
    split at h
    · split at h
      · cases h
      · exact ih h ha
    · rename_i m hm
      split at h
      · cases h
      · obtain ⟨set, hset, h⟩ := bind_eq_ok.mp h
        exact ih h (hs m (List.mem_of_find?_eq_some hm) _ set hset a ha)

theorem readPositional_keeps {shape : List (Member α)} (hs : ∀ m ∈ shape, m.Keeps P) {a b : α}
    {items : List Node} (h : readPositional a shape items = .ok b) (ha : P a) : P b := by
  induction items generalizing shape a with
  | nil =>
    cases shape <;> cases h <;> exact ha
  | cons n rest ih =>
    cases shape with
    | nil => cases h
    | cons m ms =>
      obtain ⟨set, hset, h⟩ := bind_eq_ok.mp h
      exact ih (fun m hm => hs m (List.mem_cons_of_mem _ hm)) h
        (hs m List.mem_cons_self n set hset a ha)

/-- What holds of the empty record and is kept by all members holds of a record that was read. -/
theorem readRecord_keeps {shape : List (Member α)} (hs : ∀ m ∈ shape, m.Keeps P) {depth : Nat}
    {empty a : α} {n : Node} (h : readRecord depth shape empty n = .ok a) (he : P empty) : P a := by
  cases n with
  | scalar line v => cases h
  | unreadable line b => cases h
  | array line items stop =>
    simp only [readRecord] at h
    split at h
    · cases h
    · obtain ⟨b, hb, h⟩ := bind_eq_ok.mp h
      obtain ⟨_, _, h⟩ := bind_eq_ok.mp h
      cases h
      exact readPositional_keeps hs hb he
  | object line members stop =>
    simp only [readRecord] at h
    split at h
    · cases h
    · obtain ⟨b, hb, h⟩ := bind_eq_ok.mp h
      obtain ⟨_, _, h⟩ := bind_eq_ok.mp h
      cases h
      exact readMembers_keeps hs hb he

/-- Each item of an array that was read was read from a node. -/
theorem exists_of_mem_readArray {depth : Nat} {read : NodeReader α} {n : Node} {xs : List α}
    (h : readArray depth read n = .ok xs) {x : α} (hx : x ∈ xs) : ∃ item, read item = .ok x := by
  cases n with
  | scalar line v => cases h
  | unreadable line b => cases h
  | object line members stop => cases h
  | array line items stop =>
    simp only [readArray] at h
    split at h
    · cases h
    · obtain ⟨values, hvalues, h⟩ := bind_eq_ok.mp h
      obtain ⟨_, _, h⟩ := bind_eq_ok.mp h
      cases h
      obtain ⟨item, _, hitem⟩ := exists_of_mem_right (mapM_eq_ok.mp hvalues) hx
      exact ⟨item, hitem⟩

end

theorem map_eq_ok {ε α β : Type} {x : Except ε α} {f : α → β} {b : β} :
    x.map f = .ok b ↔ ∃ a, x = .ok a ∧ f a = b := by
  cases x <;> simp [Except.map]

/-- Null is read from null alone, which an optional value takes for nothing. -/
theorem readValue_eq_null {depth : Nat} {n : Node} (h : readValue depth n = .ok .null) :
    ∃ line, n = .scalar line .null := by
  unfold readValue at h
  split at h
  · exact ⟨_, rfl⟩
  · cases h
  · cases h
  · cases h
  · obtain ⟨_, _, hvalue⟩ := map_eq_ok.mp h
    cases hvalue
  · cases h
  · obtain ⟨_, _, hvalue⟩ := map_eq_ok.mp h
    cases hvalue
  · obtain ⟨_, _, h⟩ := bind_eq_ok.mp h
    obtain ⟨_, _, hvalue⟩ := bind_eq_ok.mp h
    cases hvalue
  · cases h

/-- A default that is null is read as none at all. -/
theorem readOptional_ne_null {depth : Nat} {n : Node} {value : Option Json.Value}
    (h : readOptional (readValue depth) n = .ok value) : value ≠ some .null := by
  unfold readOptional at h
  split at h
  · cases h
    nofun
  · rename_i hother
    obtain ⟨v, hv, rfl⟩ := map_eq_ok.mp h
    intro he
    obtain ⟨line, rfl⟩ := readValue_eq_null (Option.some.inj he ▸ hv)
    exact hother line rfl

open FieldDoc (AllNullFree allNullFree_iff)

/-- The members of a field leave no null behind, if its nested fields have none. -/
theorem fieldShape_nullFree {depth : Nat} {nested : NodeReader (List FieldDoc)}
    (h : ∀ n docs, nested n = .ok docs → AllNullFree docs) :
    ∀ m ∈ fieldShape depth nested, m.Keeps FieldDoc.NullFree := by
  simp only [fieldShape, List.forall_mem_cons]
  refine ⟨?_, ?_, ?_, ?_, ?_, ?_, ?_, by simp⟩
  · exact member_keeps fun _ _ _ d hd => hd
  · exact member_keeps fun _ _ _ d hd => hd
  · exact member_keeps fun _ _ _ d hd => hd
  · exact member_keeps fun _ _ _ d hd => hd
  · exact member_keeps fun n value hvalue d hd => ⟨readOptional_ne_null hvalue, hd.2⟩
  · exact member_keeps fun _ _ _ d hd => hd
  · exact member_keeps fun n docs hdocs d hd => ⟨hd.1, h n docs hdocs⟩

theorem allNullFree_nil : AllNullFree [] := allNullFree_iff.mpr (by simp)

theorem readArray_nullFree (depth : Nat) {read : NodeReader FieldDoc}
    (h : ∀ n d, read n = .ok d → d.NullFree) (n : Node) (docs : List FieldDoc)
    (hdocs : readArray depth read n = .ok docs) : AllNullFree docs := by
  refine allNullFree_iff.mpr fun d hd => ?_
  obtain ⟨item, hitem⟩ := exists_of_mem_readArray hdocs hd
  exact h item d hitem

/-- No default of a field that was read is null, nor of a field nested in it. -/
theorem readField_nullFree (depth : Nat) (n : Node) (d : FieldDoc)
    (h : readField depth n = .ok d) : d.NullFree := by
  have hempty : FieldDoc.NullFree {} := ⟨nofun, allNullFree_nil⟩
  have hnone (n : Node) (docs : List FieldDoc)
      (hdocs : (.error n.mismatch : Except Fault (List FieldDoc)) = .ok docs) :
      AllNullFree docs := by cases hdocs
  -- nested fields are read two levels down
  induction depth using Nat.strongRecOn generalizing n d with
  | ind depth ih =>
    match depth with
    | 0 | 1 => exact readRecord_keeps (fieldShape_nullFree hnone) h hempty
    | depth + 2 =>
      have hnested := readArray_nullFree (depth + 1) (ih depth (by omega))
      exact readRecord_keeps (fieldShape_nullFree hnested) h hempty

theorem readFields_nullFree (depth : Nat) (n : Node) (docs : List FieldDoc)
    (h : readFields depth n = .ok docs) : AllNullFree docs :=
  readArray_nullFree depth (readField_nullFree (depth - 1)) n docs h

theorem readCommon_nullFree {depth : Nat} {n : Node} {c : CommonDoc}
    (h : readCommon depth n = .ok c) : AllNullFree c.fields := by
  have hshape : ∀ m ∈ commonShape (depth - 1),
      m.Keeps fun c : CommonDoc => AllNullFree c.fields := by
    simp only [commonShape, List.forall_mem_cons]
    refine ⟨?_, ?_, ?_, by simp⟩
    · exact member_keeps fun _ _ _ c hc => hc
    · exact member_keeps fun _ _ _ c hc => hc
    · exact member_keeps fun n docs hdocs c _ => readFields_nullFree _ n docs hdocs
  exact readRecord_keeps hshape h allNullFree_nil

/-- No field of a document that was read has null as its default. -/
theorem readMessage_nullFree {n : Node} {d : MessageDoc} (h : readMessage n = .ok d) :
    ∀ f ∈ d.allFields, f.default ≠ some .null := by
  have hshape : ∀ m ∈ messageShape (depthLimit - 1), m.Keeps fun d : MessageDoc =>
      AllNullFree d.fields ∧ ∀ c ∈ d.commonRecords, AllNullFree c.fields := by
    simp only [messageShape, List.forall_mem_cons]
    refine ⟨?_, ?_, ?_, ?_, ?_, ?_, by simp⟩
    · exact member_keeps fun _ _ _ d hd => hd
    · exact member_keeps fun _ _ _ d hd => hd
    · exact member_keeps fun _ _ _ d hd => hd
    · exact member_keeps fun _ _ _ d hd => hd
    · exact member_keeps fun n docs hdocs d hd => ⟨readFields_nullFree _ n docs hdocs, hd.2⟩
    · refine member_keeps fun n commons hcommons d hd => ⟨hd.1, fun c hc => ?_⟩
      obtain ⟨item, hitem⟩ := exists_of_mem_readArray hcommons hc
      exact readCommon_nullFree hitem
  obtain ⟨hfields, hcommons⟩ := readRecord_keeps hshape h ⟨allNullFree_nil, by simp⟩
  refine List.forall_mem_append.mpr ⟨hfields, fun f hf => ?_⟩
  obtain ⟨c, hc, hf⟩ := List.mem_flatMap.mp hf
  exact hcommons c hc f hf

end Doc

namespace MessageDoc

/-- A document gives a message just if the default of every field in it, at any depth, is missing,
null, a string or an integer of 64 bits. The message is then the one that the document describes:
the same trees of fields, with all that is said of each of them. If not, the document is refused for
the first field in pre-order whose default is something else. -/
theorem toMessage_describes {s : List Char} {d : MessageDoc} (h : parse s = .ok d) :
    ((∃ m, d.toMessage = .ok m) ↔ ∀ f ∈ d.allFields, f.Supported) ∧
      (∀ m, d.toMessage = .ok m ↔ d.Describes m) ∧
      ∀ e, d.toMessage = .error e ↔ d.FirstUnsupported e := by
  have hnull : ∀ f ∈ d.allFields, f.default ≠ some .null := by
    obtain ⟨message, hmessage, h⟩ := bind_eq_ok.mp h
    split at h
    · cases h
    · cases h
      exact Doc.readMessage_nullFree hmessage
  exact ⟨toMessage_isOk_iff hnull, fun m => toMessage_eq_ok hnull,
    fun e => toMessage_eq_error hnull⟩

end MessageDoc

namespace Samples

/-- A document with three fields, the second inside the first. The default of the first is null,
and those of the others are no defaults. -/
def nestText : List Char :=
  "\x7b\"name\": \"Nest\", \"fields\": [".toList ++
    "\x7b\"name\": \"outer\", \"default\": null, \"fields\": [".toList ++
      "\x7b\"name\": \"inner\", \"default\": true\x7d]\x7d, ".toList ++
    "\x7b\"name\": \"last\", \"default\": 1.5\x7d]\x7d".toList

def refusal? : Except Fault MessageDoc → Option LoadError
  | .error _ => none
  | .ok d => match d.toMessage with
    | .error e => some e
    | .ok _ => none

theorem refusal_nest :
    refusal? (MessageDoc.parse nestText) = some (.unsupportedDefault "inner" "true") := by
  decide +kernel

end Samples

namespace MessageDoc

theorem toMessage_describes_nest :
    ∃ d, parse Samples.nestText = .ok d ∧
      d.toMessage = .error (.unsupportedDefault "inner" "true") ∧
      d.FirstUnsupported (.unsupportedDefault "inner" "true") ∧
      ¬ ∀ f ∈ d.allFields, f.Supported := by
  have hrefusal := Samples.refusal_nest
  cases hparse : parse Samples.nestText with
  | error f => simp [hparse, Samples.refusal?] at hrefusal
  | ok d =>
    obtain ⟨hok, _, herror⟩ := toMessage_describes hparse
    cases hmessage : d.toMessage with
    | ok m => simp [hparse, hmessage, Samples.refusal?] at hrefusal
    | error e =>
      simp only [hparse, hmessage, Samples.refusal?, Option.some.injEq] at hrefusal
      subst hrefusal
      refine ⟨d, rfl, hmessage, (herror _).mp hmessage, ?_⟩
      rw [← hok]
      simp [hmessage]

end MessageDoc

end WireSchema
