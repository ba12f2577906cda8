/-
Bitemporal/Proofs/Restoration.lean

A compilation loses no declaration.

What a model declared can be read back from what a compilation has made of it.
Dropping the dates and putting in place of every edge point the first recorded
property that its name is made from (`Property.original?`) gives back the
properties in their order; dropping the generated accessors, and erasing what
dating has added to the others, gives back the qualified properties.

For the lists of one element this is a matter of milestoning alone
(`mapM_original?_milestoned`, `filter_qualified_milestoned`).  The record of a
class is also filled by associations, each time its views are renewed; what the
class has recorded itself stays in front of all that
(`Class.prefix_renewedAll_replaced`), where it is found first.

Main result: `Model.restores_of_compile`.
-/
import Bitemporal.Proofs.Conformity
import Bitemporal.Proofs.Erasure

namespace Bitemporal

/-! ### Reading declarations back -/

/-- A qualified property without what dating adds to its body. -/
def QualifiedProperty.erased (q : QualifiedProperty) : QualifiedProperty :=
  { q with body := Expression.erasedAll q.body }

/-- The property that a property stands for: an edge point for the first replaced one that its name is
made from, and any other for itself. -/
def Property.original? (replaced : List Property) (p : Property) : Option Property :=
  if p.isEdgePoint then
    (Naming.ofEdgePoint? p.name).bind fun name => replaced.find? fun p₀ => p₀.name == name
  else some p

namespace Members

/-- The properties that members were made of, in their order. -/
def declared? (ms : Members) : Option (List Property) :=
  (ms.properties.filter fun p => !p.isGeneratedDate).mapM (Property.original? ms.replaced)

/-- The qualified properties that members were made of, in their order, without what dating adds. -/
def declaredQualified (ms : Members) : List QualifiedProperty :=
  (ms.qualified.filter fun q => !q.isGenerated).map QualifiedProperty.erased

/-- Members as they are written: none was generated or replaced, and the names of the properties are
distinct and not empty. -/
structure Original (ms : Members) : Prop where
  pristine : ms.Pristine
  nodup : (ms.properties.map Property.name).Nodup
  named : ∀ p ∈ ms.properties, p.name ≠ ""

instance : DecidablePred Original := fun ms =>
  decidable_of_iff (ms.Pristine ∧ (ms.properties.map Property.name).Nodup ∧
    ∀ p ∈ ms.properties, p.name ≠ "")
    ⟨fun ⟨hp, hn, he⟩ => ⟨hp, hn, he⟩, fun ⟨hp, hn, he⟩ => ⟨hp, hn, he⟩⟩

end Members

/-- A model as it is written, whose classes own the properties they declare. -/
structure Model.Original (m : Model) : Prop where
  classes : ∀ c ∈ m.classes.entries, c.toMembers.Original
  owners : ∀ c ∈ m.classes.entries, ∀ p ∈ c.properties, p.owner = .ofClass c.path
  associations : ∀ a ∈ m.associations.entries, a.toMembers.Original

instance : DecidablePred Model.Original := fun m =>
  decidable_of_iff ((∀ c ∈ m.classes.entries, c.toMembers.Original) ∧
    (∀ c ∈ m.classes.entries, ∀ p ∈ c.properties, p.owner = .ofClass c.path) ∧
      ∀ a ∈ m.associations.entries, a.toMembers.Original)
    ⟨fun ⟨hc, ho, ha⟩ => ⟨hc, ho, ha⟩, fun ⟨hc, ho, ha⟩ => ⟨hc, ho, ha⟩⟩

/-- The declarations of the class `c` can be read back from `c'`. -/
structure Class.Restores (c c' : Class) : Prop where
  path : c'.path = c.path
  annotations : c'.toAnnotations = c.toAnnotations
  span : c'.span = c.span
  properties : c'.declared? = some c.properties
  qualified : c'.declaredQualified = c.qualified.map QualifiedProperty.erased

/-- The declarations of the association `a` can be read back from `a'`. -/
structure Association.Restores (a a' : Association) : Prop where
  path : a'.path = a.path
  span : a'.span = a.span
  properties : a'.declared? = some a.properties
  qualified : a'.declaredQualified = a.qualified.map QualifiedProperty.erased

/-! ### Milestoned lists -/

theorem Naming.ofEdgePoint?_edgePoint {name : String} (h : name ≠ "") :
    ofEdgePoint? (edgePoint name) = some name := by
  have hname : name.isEmpty = false := by simpa using h
  rw [ofEdgePoint?, edgePoint, Text.dropEnding?_append, Option.filter_some, hname]
  rfl

namespace Model

variable {m : Model} {filter : RangeFilter} {sourceOf : Property → Option String} {ms : Members}

/-- A property of some members, as milestoning leaves it, stands for itself. -/
theorem original?_milestoned (h : ms.Original) {R : List Property}
    (hR : (m.milestonedMembers filter sourceOf ms).replaced <+: R) {p : Property}
    (hp : p ∈ ms.properties) :
    Property.original? R (if (m.edge? sourceOf p).isSome then Edge.edgePoint p .generated else p) =
      some p := by
  rw [replaced_eq_of_nodup h.pristine.replaced h.nodup, map_property_edgesOf] at hR
  split
  · rename_i hedge
    -- the property is recorded, and no other of its name is
    have hnodup := (List.filter_sublist (p := fun p => (m.edge? sourceOf p).isSome)
      |>.map Property.name).nodup h.nodup
    have hone := congrArg List.head?
      (filter_eq_singleton hnodup (List.mem_filter.2 ⟨hp, hedge⟩))
    rw [List.head?_filter] at hone
    obtain ⟨rest, rfl⟩ := hR
    rw [Property.original?, if_pos (Edge.isEdgePoint_edgePoint p), Edge.edgePoint_name,
      Naming.ofEdgePoint?_edgePoint (h.named p hp), Option.bind_some, List.find?_append, hone]
    rfl
  · have hplain := (Bool.or_eq_false_iff.1 (h.pristine.properties p hp)).1
    rw [Property.original?, if_neg (by rw [hplain]; exact Bool.false_ne_true)]

/-- Milestoning can be undone, with any record that begins with its own. -/
theorem mapM_original?_milestoned (h : ms.Original) {R : List Property}
    (hR : (m.milestonedMembers filter sourceOf ms).replaced <+: R) :
    (m.milestonedMembers filter sourceOf ms).properties.mapM (Property.original? R) =
      some ms.properties :=
  mapM_map_eq_some fun _ hp => original?_milestoned h hR hp

/-- Milestoning makes no date. -/
theorem filter_properties_milestoned (hpristine : ms.Pristine) :
    ((m.milestonedMembers filter sourceOf ms).properties.filter fun p => !p.isGeneratedDate) =
      (m.milestonedMembers filter sourceOf ms).properties := by
  rw [List.filter_eq_self]
  intro p hp
  rw [(of_mem_milestonedMembers_properties hpristine hp).1]
  rfl

/-- Without the generated accessors the qualified properties are as they were. -/
theorem filter_qualified_milestoned (hpristine : ms.Pristine) :
    ((m.milestonedMembers filter sourceOf ms).qualified.filter fun q => !q.isGenerated) =
      ms.qualified := by
  have hdeclared : (ms.qualified.filter fun q => !q.isGenerated) = ms.qualified := by
    rw [List.filter_eq_self]
    intro q hq
    rw [hpristine.qualified q hq]
    rfl
  have hadded : ((news QualifiedProperty.key (ms.qualified.map QualifiedProperty.key)
      ((m.edgesOf sourceOf ms).flatMap (m.accessorsOf filter))).filter
        fun q => !q.isGenerated) = [] := by
    rw [List.filter_eq_nil_iff]
    intro q hq
    obtain ⟨e, -, hq⟩ := List.mem_flatMap.1 (mem_of_mem_news hq).1
    rw [(of_mem_accessorsOf hq).1]
    exact Bool.false_ne_true
  rw [milestonedMembers_qualified, List.filter_append, hdeclared, hadded, List.append_nil]

/-! ### Dated bodies -/

theorem erased_of_dateBody {q q' : QualifiedProperty} (h : m.dateBody .builtin q = .ok q') :
    q'.erased = q.erased := by
  rcases hgenerated : q.isGenerated with - | -
  · obtain ⟨after, hbody⟩ := QualifiedProperty.body_of_dateBody h hgenerated
    have hheader : q'.header = q.header := header_dateBody h
    exact eq_of_header_of_body (show q'.erased.header = q.erased.header from hheader)
      (Expression.erasedAll_datedAll hbody)
  · rw [dateBody_of_isGenerated hgenerated] at h
    obtain rfl := Except.ok.inj h
    rfl

/-- What dating makes of a list of qualified properties erases to the same. -/
theorem Dates.declaredQualified {qs qs' : List QualifiedProperty} (h : m.Dates qs qs') :
    ((qs'.filter fun q => !q.isGenerated).map QualifiedProperty.erased) =
      (qs.filter fun q => !q.isGenerated).map QualifiedProperty.erased := by
  have hsame : qs'.map QualifiedProperty.erased = qs.map QualifiedProperty.erased :=
    map_eq_of_forall₂ h erased_of_dateBody
  have hfilter : ∀ l : List QualifiedProperty,
      (l.filter fun q => !q.isGenerated).map QualifiedProperty.erased =
        (l.map QualifiedProperty.erased).filter fun q => !q.isGenerated := by
    intro l
    rw [List.filter_map]
    rfl
  rw [hfilter, hfilter, hsame]

end Model

/-! ### Classes -/

namespace Class

variable {m : Model} {filter : RangeFilter} {c c' : Class} {as : List Association}

/-- Without dates an equipped class has its milestoned properties. -/
theorem filter_equipped_properties (hpristine : c.toMembers.Pristine) :
    ((c.equipped m filter).properties.filter fun p => !p.isGeneratedDate) =
      (c.milestoned m filter).properties := by
  have hmilestoned : ((c.milestoned m filter).properties.filter fun p => !p.isGeneratedDate) =
      (c.milestoned m filter).properties := Model.filter_properties_milestoned hpristine
  rcases hshape : c.shape? with - | shape
  · rw [equipped, withDates_of_none hshape]
    exact hmilestoned
  · show ((c.withDates.properties.map fun p => if (m.edge? (fun _ => some c.withDates.path) p).isSome
      then Edge.edgePoint p .generated else p).filter fun p => !p.isGeneratedDate) = _
    rw [c.withDates_path, withDates_of_shape hshape, Property.addNamed_eq, foldl_putNew,
      List.map_append, List.filter_append]
    -- what was added are dates, which milestoning leaves
    have hadded : ∀ dates ⊆ c.datePropertiesOf shape, ((dates.map fun p =>
        if (m.edge? (fun _ => some c.path) p).isSome then Edge.edgePoint p .generated else p).filter
          fun p => !p.isGeneratedDate) = [] := by
      intro dates hdates
      rw [List.filter_eq_nil_iff]
      intro p' hp'
      obtain ⟨p, hp, rfl⟩ := List.mem_map.1 hp'
      rw [edge?_of_mem_dates (hdates hp), Option.isSome_none, if_neg Bool.false_ne_true,
        isGeneratedDate_of_mem (hdates hp)]
      exact Bool.false_ne_true
    rw [hadded _ fun p hp => (mem_of_mem_news hp).1, List.append_nil]
    exact hmilestoned

/-- What a class has recorded itself stays in front of what associations add. -/
theorem prefix_renewedAll_replaced {R : List Property} (howner : ∀ p ∈ R, p.owner = .ofClass c.path)
    (h : R <+: c.replaced) : R <+: (renewedAll m as c).replaced := by
  induction as generalizing c with
  | nil => exact h
  | cons a as ih =>
    apply ih
    · exact howner
    · obtain ⟨rest, hrest⟩ := h
      have hkept : (R.filter fun p => !c.drops m a p.owner) = R := by
        rw [List.filter_eq_self]
        intro p hp
        rw [howner p hp, drops, Owner.isAssociation]
        exact congrArg not (Bool.and_false _)
      show R <+: (a.replacedOn m c.path).foldl Property.addNamed
        (c.replaced.filter fun p => !c.drops m a p.owner)
      rw [Property.addNamed_eq, foldl_putNew, ← hrest, List.filter_append, hkept, List.append_assoc]
      exact List.prefix_append _ _

/-- **What a compilation makes of a class** can be read back. -/
theorem Compiled.restores (h : c.Compiled m filter as c') (horiginal : c.toMembers.Original)
    (howner : ∀ p ∈ c.properties, p.owner = .ofClass c.path) : c.Restores c' := by
  have hprefix : (c.milestoned m filter).replaced <+: c'.replaced := by
    rw [h.replaced]
    apply prefix_renewedAll_replaced
    · intro p hp
      have hmem := Model.mem_milestonedMembers_replaced hp
      rw [horiginal.pristine.replaced] at hmem
      obtain ⟨e, he, rfl⟩ := hmem.resolve_left List.not_mem_nil
      rw [equipped_path]
      exact howner _ (Model.mem_properties_of_mem_edgesOf he)
    · exact Model.equipped_replaced_eq m filter c ▸ List.prefix_refl _
  refine ⟨h.path, congrArg Prod.snd h.frame, ?_, ?_, ?_⟩
  · rw [h.eq_renewed]
    exact (renewedAll_span m as _).trans c.withDates_span
  · rw [Members.declared?, h.properties, filter_equipped_properties horiginal.pristine]
    exact Model.mapM_original?_milestoned horiginal hprefix
  · have hqualified := h.dates.declaredQualified
    rw [Model.equipped_qualified_eq] at hqualified
    rw [Members.declaredQualified, hqualified]
    exact congrArg _ (Model.filter_qualified_milestoned horiginal.pristine)

end Class

/-- **What a compilation makes of an association** can be read back. -/
theorem Association.Compiled.restores {m : Model} {filter : RangeFilter} {as : List Association}
    {a a' : Association} (h : a.Compiled m filter as a') (horiginal : a.toMembers.Original) :
    a.Restores a' := by
  obtain ⟨n, -, hdates⟩ := h.dates
  have hplain : ((a.milestoned m filter).properties.filter fun p => !p.isGeneratedDate) =
      (a.milestoned m filter).properties := Model.filter_properties_milestoned horiginal.pristine
  refine ⟨h.path, ?_, ?_, ?_⟩
  · rw [h.eq_milestoned]
    rfl
  · rw [Members.declared?, h.properties, hplain, h.replaced]
    exact Model.mapM_original?_milestoned horiginal (List.prefix_refl _)
  · rw [Members.declaredQualified, hdates.declaredQualified]
    exact congrArg _ (Model.filter_qualified_milestoned horiginal.pristine)

namespace Model

variable {m m' : Model} {settings : Settings} {report : Report}

/-- **A compilation loses no declaration**: of every class and association, in their order, the
declarations can be read back from what the compilation has made of it. -/
theorem restores_of_compile (hcompile : m.compile .builtin settings = .ok (report, m'))
    (horiginal : m.Original) :
    List.Forall₂ Class.Restores m.classes.entries m'.classes.entries ∧
      List.Forall₂ Association.Restores m.associations.entries m'.associations.entries := by
  have h := compiles_of_compile hcompile
  constructor
  · refine ((List.forall₂_and_left _ _).2 ⟨fun _ hc => hc, h.forall₂_classes⟩).imp ?_
    rintro c c' ⟨hc, hcompiled⟩
    exact hcompiled.restores (horiginal.classes c hc) (horiginal.owners c hc)
  · refine ((List.forall₂_and_left _ _).2 ⟨fun _ ha => ha, h.forall₂_associations⟩).imp ?_
    rintro a a' ⟨ha, hcompiled⟩
    exact hcompiled.restores (horiginal.associations a ha)

/-- Accounts with a holder, and persons who may sign for them. -/
def ledger : Model :=
  let this (path : String) : Variable := { name := "this", type := .ofClass path, multiplicity := .one }
  let person : Typing := ⟨.ofClass "m::Person", .zeroOne⟩
  ofDocument {
    classes := [
      { path := "m::Account"
        stereotypes := [.resolved temporalProfile Shape.business.name]
        properties := [{ person with name := "holder", owner := .ofClass "m::Account" }]
        qualified := [
          { person with
            name := "responsible", owner := .ofClass "m::Account"
            signature := { parameters := [this "m::Account"], result := person }
            body := [
              (Navigation.plain "m::Account" "holder" (this "m::Account").reference []).toExpression
                person] }] },
      { path := "m::Person", stereotypes := [.resolved temporalProfile Shape.business.name] }]
    associations := [
      { path := "m::Signing"
        properties := [
          { name := "accounts", type := .ofClass "m::Account", multiplicity := .zeroMany
            owner := .ofAssociation "m::Signing" },
          { name := "signatories", type := .ofClass "m::Person", multiplicity := .zeroMany
            owner := .ofAssociation "m::Signing" }] }] }

/-- A model of which nothing is as it was after a compilation, and everything can be read back. -/
theorem ledger_restored : (ledger.compile .builtin {}).toBool = true ∧ ∀ report m',
    ledger.compile .builtin {} = .ok (report, m') →
      (∀ c ∈ ledger.classes.entries, c ∉ m'.classes.entries) ∧
        (∀ a ∈ ledger.associations.entries, a ∉ m'.associations.entries) ∧
          List.Forall₂ Class.Restores ledger.classes.entries m'.classes.entries ∧
            List.Forall₂ Association.Restores ledger.associations.entries m'.associations.entries := by
  refine ⟨by decide +kernel, fun report m' hcompile => ?_⟩
  have hchanged : ((ledger.compile .builtin {}).toOption.all fun result =>
      decide ((∀ c ∈ ledger.classes.entries, c ∉ result.2.classes.entries) ∧
        ∀ a ∈ ledger.associations.entries, a ∉ result.2.associations.entries)) = true := by
    decide +kernel
  rw [hcompile] at hchanged
  obtain ⟨hclasses, hassociations⟩ := of_decide_eq_true hchanged
  exact ⟨hclasses, hassociations, restores_of_compile hcompile (by decide +kernel)⟩

end Model

end Bitemporal
