/-
Bitemporal/Proofs/JsonForms.lean

What is written is read.

A record is written as an object with all of its fields.  Their names are
different, so that each is found under its name (`Json.fields?_object`), and
the record is read if each of its values is.  A variant is written with its
name, which leads its reader to the same variant.  Hence every type is read
from its form, parts before wholes, up to whole documents
(`Document.toJson_lossless`).

Expressions are the one type that contains itself.  They are read to a bounded
depth, where each level of a tree takes one step down.  The bound is the height
of the form, which falls by more than one with each level, so that it suffices
to the leaves (`Expression.ofJsonWithin?_toJson`).
-/
import Bitemporal.Json.Document
import Bitemporal.Proofs.Table

namespace Bitemporal

/-! ### Parts of forms -/

namespace Json

variable {α : Type}

/-- Written with all of its fields, a record is read with all of them. -/
theorem fields?_object {fields : List (String × Json)} {names : List String}
    (hnames : fields.map Prod.fst = names) (hnodup : names.Nodup) :
    (object fields).fields? names = some (fields.map fun f => some f.2) := by
  subst hnames
  rw [fields?, List.mapM_map]
  refine mapM_eq_pure fun f hf => ?_
  rw [Function.comp_apply, filter_eq_singleton hnodup hf]
  rfl

@[simp] theorem required_some (value? : Json → Option α) (j : Json) :
    required value? (some j) = value? j := rfl

@[simp] theorem defaulted_some (default : α) (value? : Json → Option α) (j : Json) :
    defaulted default value? (some j) = value? j := rfl

@[simp] theorem string?_string (s : String) : (string s).string? = some s := rfl

@[simp] theorem bool?_bool (b : Bool) : (bool b).bool? = some b := rfl

@[simp] theorem uint32?_ofNat (u : UInt32) : (ofNat u.toNat).uint32? = some u := by
  have hrange : (0 : Int) ≤ u.toNat ∧ (u.toNat : Int) ≤ 4294967295 := by
    have := u.toNat_lt
    omega
  rw [uint32?, ofNat, integer?, if_pos hrange, Option.map_some, Int.toNat_natCast,
    UInt32.ofNat_toNat]

@[simp] theorem uint64?_ofNat (u : UInt64) : (ofNat u.toNat).uint64? = some u := by
  have hrange : (0 : Int) ≤ u.toNat ∧ (u.toNat : Int) ≤ 18446744073709551615 := by
    have := u.toNat_lt
    omega
  rw [uint64?, ofNat, integer?, if_pos hrange, Option.map_some, Int.toNat_natCast,
    UInt64.ofNat_toNat]

@[simp] theorem int64?_integer (n : Int64) : (integer n.toInt).int64? = some n := by
  have hrange : -9223372036854775808 ≤ n.toInt ∧ n.toInt ≤ 9223372036854775807 := by
    have hle := n.le_toInt
    have hlt := n.toInt_lt
    omega
  rw [int64?, integer?, if_pos hrange, Option.map_some, Int64.ofInt_toInt]

/-- A list is read if its items are. -/
theorem list?_ofList {toJson : α → Json} {ofJson? : Json → Option α}
    (h : ∀ a, ofJson? (toJson a) = some a) (as : List α) :
    list? ofJson? (ofList toJson as) = some as :=
  mapM_map_eq_some fun a _ => h a

@[simp] theorem list?_ofStrings (ss : List String) : list? string? (ofStrings ss) = some ss :=
  list?_ofList string?_string ss

/-- What is written as null is nothing; all else is read as a value. -/
theorem nullable?_of_ne_null {value? : Json → Option α} {j : Json} (h : j ≠ null) :
    nullable? value? j = (value? j).map some := by
  cases j with
  | null => exact absurd rfl h
  | _ => rfl

/-- An optional value is read if the value is, and if that is not written as null. -/
theorem nullable?_ofOption {toJson : α → Json} {ofJson? : Json → Option α}
    (h : ∀ a, ofJson? (toJson a) = some a) (hnull : ∀ a, toJson a ≠ null) (a? : Option α) :
    nullable? ofJson? (ofOption toJson a?) = some a? := by
  cases a? with
  | none => rfl
  | some a =>
    rw [ofOption, nullable?_of_ne_null (hnull a), h]
    rfl

end Json

open Json

/-! ### Types -/

@[simp] theorem Span.ofJson?_toJson (s : Span) : ofJson? s.toJson = some s := by
  rw [toJson, ofJson?, fields?_object]
  · simp
  · rfl
  · decide

@[simp] theorem Multiplicity.ofJson?_toJson (m : Multiplicity) : ofJson? m.toJson = some m := by
  have hupper := nullable?_ofOption uint32?_ofNat (fun _ => nofun) m.upper
  rw [toJson, ofJson?, fields?_object]
  · simp [hupper]
  · rfl
  · decide
  · exact fun _ => nofun

@[simp] theorem Primitive.ofJson?_toJson (p : Primitive) : ofJson? p.toJson = some p :=
  p.ofName?_name

@[simp] theorem TypeRef.ofJson?_toJson (t : TypeRef) : ofJson? t.toJson = some t := by
  cases t with
  | primitive p => simp [toJson, ofJson?, variant, variant?]
  | ofClass path => rfl
  | abbreviated path => rfl

@[simp] theorem Variable.ofJson?_toJson (v : Variable) : ofJson? v.toJson = some v := by
  rw [toJson, ofJson?, fields?_object]
  · simp
  · rfl
  · decide

@[simp] theorem Signature.ofJson?_toJson (s : Signature) : ofJson? s.toJson = some s := by
  rw [toJson, ofJson?, fields?_object]
  · simp [list?_ofList Variable.ofJson?_toJson]
  · rfl
  · decide

/-! ### Leaves of expressions -/

@[simp] theorem FunctionRef.ofJson?_toJson (f : FunctionRef) : ofJson? f.toJson = some f := by
  rw [toJson, ofJson?, fields?_object]
  · simp
  · rfl
  · decide

@[simp] theorem Literal.ofJson?_toJson (v : Literal) : ofJson? v.toJson = some v := by
  cases v with
  | date text => rfl
  | string text => rfl
  | integer n => simp [toJson, ofJson?, variant, variant?]
  | boolean b => rfl

@[simp] theorem Comparison.ofJson?_toJson (o : Comparison) : ofJson? o.toJson = some o := by
  cases o with
  | lessThan => rfl
  | lessThanEqual => rfl

@[simp] theorem Access.ofJson?_toJson (a : Access) : ofJson? a.toJson = some a := by
  cases a with
  | property => rfl
  | qualified n =>
    simp only [toJson, ofJson?, variant, variant?, bare?]
    rw [fields?_object]
    · simp
    · rfl
    · decide

/-! ### Expressions -/

namespace Json

/-- The value of a field is lower than the object. -/
theorem height_lt_of_mem {name : String} {j : Json} {fields : List (String × Json)}
    (h : (name, j) ∈ fields) : j.height < (object fields).height := by
  rw [height, Nat.lt_succ_iff]
  induction fields with
  | nil => cases h
  | cons f fields ih =>
    rw [heightFields]
    rcases List.mem_cons.1 h with rfl | h
    · exact Nat.le_max_left _ _
    · exact Nat.le_trans (ih h) (Nat.le_max_right _ _)

section Variants

variable {tag : String} {fields : List (String × Json)} {depth : Nat}

/-- A depth that suffices for a variant suffices for the fields of its content. -/
theorem height_le_of_variant (h : (variant tag (object fields)).height ≤ depth) {j : Json}
    (name : String) (hj : (name, j) ∈ fields) : j.height ≤ depth := by
  have hcontent : (object fields).height < (variant tag (object fields)).height :=
    height_lt_of_mem List.mem_cons_self
  have := height_lt_of_mem hj
  omega

/-- It suffices for the items of such a field. -/
theorem heightItems_le_of_variant (h : (variant tag (object fields)).height ≤ depth)
    {items : List Json} (name : String) (hitems : (name, array items) ∈ fields) :
    heightItems items ≤ depth :=
  Nat.le_of_succ_le (height_le_of_variant h name hitems)

end Variants

end Json

namespace Expression

/-- The body of a lambda is lower than the lambda. -/
theorem height_lt_lambdaToJson (b : Binder) (body : Json) :
    body.height < (lambdaToJson b body).height :=
  height_lt_of_mem (show ("body", body) ∈ _ by simp)

variable {depth : Nat} {read : Json → Option Expression}

/-- The form of a node is read if that of its kind is, one step further down. -/
theorem ofJsonWithin?_nodeToJson {kind : Json} {t : Typing} {e : Expression}
    (h : (nodeToJson kind t).height ≤ depth)
    (hread : ∀ depth, kind.height ≤ depth → kindOfJson? (ofJsonWithin? depth) t kind = some e) :
    ofJsonWithin? depth (nodeToJson kind t) = some e := by
  have hkind : kind.height < (nodeToJson kind t).height := height_lt_of_mem List.mem_cons_self
  obtain ⟨depth, rfl⟩ := Nat.exists_eq_add_one_of_ne_zero (Nat.ne_zero_of_lt (Nat.lt_of_lt_of_le hkind h))
  have hread := hread depth (by omega)
  rw [ofJsonWithin?, nodeToJson, fields?_object]
  · simp [hread]
  · rfl
  · decide

/-- The record of a navigation is read if its arguments are. -/
theorem navigationOfJson?_siteToJson {site : Site} {arguments written : Json}
    {as : List Expression} {w : Option (List Expression)} (ha : list? read arguments = some as)
    (hw : nullable? (list? read) written = some w) :
    navigationOfJson? read (siteToJson site arguments written) =
      some { toSite := site, arguments := as, written := w } := by
  have hspan := nullable?_ofOption Span.ofJson?_toJson (fun _ => nofun) site.span
  rw [navigationOfJson?, siteToJson, fields?_object]
  · simp [ha, hw, hspan]
  · rfl
  · decide

mutual

/-- **Expressions are read from their forms**, to any depth that the form does not exceed. -/
theorem ofJsonWithin?_toJson (e : Expression) {depth : Nat} (h : (toJson e).height ≤ depth) :
    ofJsonWithin? depth (toJson e) = some e := by
  match e with
  | reference name t => exact ofJsonWithin?_nodeToJson h fun _ _ => rfl
  | literal v t =>
    refine ofJsonWithin?_nodeToJson h fun _ _ => ?_
    simp [kindOfJson?, variant, variant?]
  | equal f l r t =>
    refine ofJsonWithin?_nodeToJson h fun depth hkind => ?_
    have hl := ofJsonWithin?_toJson l (height_le_of_variant hkind "left" (by simp))
    have hr := ofJsonWithin?_toJson r (height_le_of_variant hkind "right" (by simp))
    simp only [kindOfJson?, variant, variant?]
    rw [fields?_object]
    · simp [hl, hr]
    · rfl
    · decide
  | compare f o l r t =>
    refine ofJsonWithin?_nodeToJson h fun depth hkind => ?_
    have hl := ofJsonWithin?_toJson l (height_le_of_variant hkind "left" (by simp))
    have hr := ofJsonWithin?_toJson r (height_le_of_variant hkind "right" (by simp))
    simp only [kindOfJson?, variant, variant?]
    rw [fields?_object]
    · simp [hl, hr]
    · rfl
    · decide
  | conjunction f os t =>
    refine ofJsonWithin?_nodeToJson h fun depth hkind => ?_
    have hos := list?_toJsons os (heightItems_le_of_variant hkind "operands" (by simp))
    simp only [kindOfJson?, variant, variant?]
    rw [fields?_object]
    · simp [hos]
    · rfl
    · decide
  | filter f s b e t =>
    refine ofJsonWithin?_nodeToJson h fun depth hkind => ?_
    have hs := ofJsonWithin?_toJson s (height_le_of_variant hkind "source" (by simp))
    have hlambda : (lambdaToJson b (toJson e)).height ≤ depth :=
      height_le_of_variant hkind "predicate" (by simp)
    have he := ofJsonWithin?_toJson e
      (Nat.le_trans (Nat.le_of_lt (height_lt_lambdaToJson b _)) hlambda)
    simp only [kindOfJson?, variant, variant?]
    rw [fields?_object]
    · simp only [List.map_cons, List.map_nil, Option.bind_eq_bind, Option.bind_some, required_some,
        FunctionRef.ofJson?_toJson, hs]
      rw [lambdaToJson, fields?_object]
      · simp [he]
      · rfl
      · decide
    · rfl
    · decide
  | navigate site as w t =>
    refine ofJsonWithin?_nodeToJson h fun depth hkind => ?_
    have has := list?_toJsons as (heightItems_le_of_variant hkind "arguments" (by simp))
    have hw : nullable? (list? (ofJsonWithin? depth)) (writtenToJson w) = some w := by
      match w with
      | none => rfl
      | some ws =>
        have hws := list?_toJsons ws
          (heightItems_le_of_variant hkind "original_arguments" (by simp [writtenToJson]))
        rw [writtenToJson, nullable?_of_ne_null, hws]
        · rfl
        · nofun
    simp only [kindOfJson?, variant, variant?]
    rw [navigationOfJson?_siteToJson has hw]
    rfl

theorem list?_toJsons (es : List Expression) {depth : Nat}
    (h : heightItems (toJsons es) ≤ depth) :
    list? (ofJsonWithin? depth) (array (toJsons es)) = some es := by
  match es with
  | [] => rfl
  | e :: es =>
    rw [toJsons, heightItems] at h
    have he : ofJsonWithin? depth (toJson e) = some e := ofJsonWithin?_toJson e (by omega)
    have hes : list? (ofJsonWithin? depth) (array (toJsons es)) = some es :=
      list?_toJsons es (by omega)
    rw [list?] at hes
    rw [toJsons, list?, List.mapM_cons, he, hes]
    rfl

end

@[simp] theorem ofJson?_toJson (e : Expression) : ofJson? (toJson e) = some e :=
  ofJsonWithin?_toJson e (Nat.le_refl _)

end Expression

/-! ### Annotations and members -/

@[simp] theorem Stereotype.ofJson?_toJson (s : Stereotype) : ofJson? s.toJson = some s := by
  cases s with
  | resolved profile value =>
    simp only [toJson, ofJson?, variant, variant?]
    rw [fields?_object]
    · simp
    · rfl
    · decide
  | abbreviated written => rfl

@[simp] theorem TaggedValue.ofJson?_toJson (t : TaggedValue) : ofJson? t.toJson = some t := by
  rw [toJson, ofJson?, fields?_object]
  · simp
  · rfl
  · decide

@[simp] theorem Annotations.ofFields?_ofList (a : Annotations) :
    ofFields? (some (ofList Stereotype.toJson a.stereotypes))
      (some (ofList TaggedValue.toJson a.taggedValues)) = some a := by
  simp [ofFields?, list?_ofList Stereotype.ofJson?_toJson, list?_ofList TaggedValue.ofJson?_toJson]

@[simp] theorem Owner.ofJson?_toJson (o : Owner) : ofJson? o.toJson = some o := by
  cases o with
  | ofClass path => rfl
  | ofAssociation path => rfl

@[simp] theorem spanOfField?_ofOption (s : Option Span) :
    spanOfField? (some (ofOption Span.toJson s)) = some s :=
  nullable?_ofOption Span.ofJson?_toJson (fun _ => nofun) s

@[simp] theorem Property.ofJson?_toJson (p : Property) : ofJson? p.toJson = some p := by
  rw [toJson, ofJson?, fields?_object]
  · simp [Annotations.toFields, spanField]
  · rfl
  · decide

@[simp] theorem QualifiedProperty.ofJson?_toJson (q : QualifiedProperty) :
    ofJson? q.toJson = some q := by
  rw [toJson, ofJson?, fields?_object]
  · simp [Annotations.toFields, list?_ofList Expression.ofJson?_toJson]
  · rfl
  · decide

/-! ### Elements and documents -/

@[simp] theorem propertiesOfField?_ofList (ps : List Property) :
    propertiesOfField? (some (ofList Property.toJson ps)) = some ps :=
  list?_ofList Property.ofJson?_toJson ps

@[simp] theorem qualifiedOfField?_ofList (qs : List QualifiedProperty) :
    qualifiedOfField? (some (ofList QualifiedProperty.toJson qs)) = some qs :=
  list?_ofList QualifiedProperty.ofJson?_toJson qs

@[simp] theorem Class.ofJson?_toJson (c : Class) : ofJson? c.toJson = some c := by
  rw [toJson, ofJson?, fields?_object]
  · simp [Annotations.toFields, spanField]
  · rfl
  · decide

@[simp] theorem Association.ofJson?_toJson (a : Association) : ofJson? a.toJson = some a := by
  rw [toJson, ofJson?, fields?_object]
  · simp [spanField, list?_ofList Property.ofJson?_toJson]
  · rfl
  · decide

/-- **A document is read from its form**, whatever it consists of and however deep its expressions are
nested. -/
theorem Document.toJson_lossless (d : Document) : ofJson? d.toJson = some d := by
  rw [toJson, ofJson?, fields?_object]
  · simp [list?_ofList Class.ofJson?_toJson, list?_ofList Association.ofJson?_toJson]
  · rfl
  · decide

end Bitemporal
