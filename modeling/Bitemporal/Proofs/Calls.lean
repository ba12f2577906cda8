/-
Bitemporal/Proofs/Calls.lean

What dating asks of a model.

`Navigation.settle` looks at a model through three questions only: which shape
the accessor of a name leads to (`callShape?`), whether an accessor of a name
and arity is there (`takes`), and which shape a class has.  Models that answer
them alike (`SameCalls`) date every expression alike (`dated_congr`), so that
moving views about and rewriting bodies does not disturb what is dated later.

`Navigation.settle_from` says in one equation how a single call is settled, and
`dated_navigate_eq_ok` and its like what a run that succeeds comes from: the
runs for the parts of the expression, from left to right.
-/
import Bitemporal.Proofs.Renewal

namespace Bitemporal

/-! ### Runs from the dates in force -/

namespace Dating

variable {α β : Type}

theorem ext_from {x y : Dating α} (h : ∀ ambient, x.from ambient = y.from ambient) : x = y :=
  funext h

theorem from_pure (v : α) (ambient : Ambient) :
    (pure v : Dating α).from ambient = (.ok v, ambient) := rfl

theorem from_bind (x : Dating α) (f : α → Dating β) (ambient : Ambient) :
    (x >>= f).from ambient =
      match x.from ambient with
      | (.ok v, ambient) => (f v).from ambient
      | (.error fault, ambient) => (.error fault, ambient) := by
  show ExceptT.bindCont f (x ambient).1 (x ambient).2 = _
  rcases h : x.from ambient with ⟨fault | v, after⟩
  · have hx : x ambient = (.error fault, after) := h
    rw [hx]
    rfl
  · have hx : x ambient = (.ok v, after) := h
    rw [hx]
    rfl

theorem from_modify_bind (g : Ambient → Ambient) (f : Unit → Dating β) (ambient : Ambient) :
    ((modify g : Dating PUnit) >>= f).from ambient = (f ()).from (g ambient) := rfl

theorem from_get_bind (f : Ambient → Dating β) (ambient : Ambient) :
    ((get : Dating Ambient) >>= f).from ambient = (f ambient).from ambient := rfl

theorem from_lift (x : Except Fault α) (ambient : Ambient) :
    (liftM x : Dating α).from ambient = (x, ambient) := by
  rcases x with fault | v <;> rfl

/-- A run of two computations succeeds if both do. -/
theorem from_bind_eq_ok {x : Dating α} {f : α → Dating β} {ambient after : Ambient} {b : β} :
    (x >>= f).from ambient = (.ok b, after) ↔
      ∃ a between, x.from ambient = (.ok a, between) ∧ (f a).from between = (.ok b, after) := by
  rw [from_bind]
  rcases x.from ambient with ⟨fault | a, between⟩
  · simp
  · constructor
    · intro h
      exact ⟨a, between, rfl, h⟩
    · rintro ⟨a', between', h, hf⟩
      obtain ⟨ha, rfl⟩ := Prod.mk.inj h
      obtain rfl := Except.ok.inj ha
      exact hf

/-- It fails if the first does, or the second after it. -/
theorem from_bind_eq_error {x : Dating α} {f : α → Dating β} {ambient after : Ambient}
    {fault : Fault} :
    (x >>= f).from ambient = (.error fault, after) ↔ x.from ambient = (.error fault, after) ∨
      ∃ a between, x.from ambient = (.ok a, between) ∧ (f a).from between = (.error fault, after) := by
  rw [from_bind]
  rcases x.from ambient with ⟨fault' | a, between⟩
  · simp
  · simp

theorem from_pure_eq_ok {v w : α} {ambient after : Ambient} :
    (pure v : Dating α).from ambient = (.ok w, after) ↔ v = w ∧ ambient = after := by
  rw [from_pure, Prod.mk.injEq, Except.ok.injEq]

theorem from_map_eq_ok {x : Dating α} {g : α → β} {ambient after : Ambient} {b : β} :
    (x >>= fun a => pure (g a)).from ambient = (.ok b, after) ↔
      ∃ a, x.from ambient = (.ok a, after) ∧ b = g a := by
  rw [from_bind_eq_ok]
  constructor
  · rintro ⟨a, between, hx, h⟩
    obtain ⟨rfl, rfl⟩ := from_pure_eq_ok.1 h
    exact ⟨a, hx, rfl⟩
  · rintro ⟨a, hx, rfl⟩
    exact ⟨a, after, hx, rfl⟩

/-- Two computations, the second of which may look at the first, and what is made of both. -/
theorem from_map₂_eq_ok {γ : Type} {x : Dating α} {y : α → Dating β} {g : α → β → γ}
    {ambient after : Ambient} {c : γ} :
    (x >>= fun a => y a >>= fun b => pure (g a b)).from ambient = (.ok c, after) ↔
      ∃ a b between, x.from ambient = (.ok a, between) ∧ (y a).from between = (.ok b, after) ∧
        c = g a b := by
  rw [from_bind_eq_ok]
  constructor
  · rintro ⟨a, between, hx, h⟩
    obtain ⟨b, hy, rfl⟩ := from_map_eq_ok.1 h
    exact ⟨a, b, between, hx, hy, rfl⟩
  · rintro ⟨a, b, between, hx, hy, rfl⟩
    exact ⟨a, between, hx, from_map_eq_ok.2 ⟨b, hy, rfl⟩⟩

theorem from_map_eq_error {x : Dating α} {g : α → β} {ambient after : Ambient} {fault : Fault} :
    (x >>= fun a => pure (g a)).from ambient = (.error fault, after) ↔
      x.from ambient = (.error fault, after) := by
  rw [from_bind_eq_error, or_iff_left]
  rintro ⟨a, between, -, h⟩
  cases (Prod.mk.inj h).1

theorem from_map₂_eq_error {γ : Type} {x : Dating α} {y : α → Dating β} {g : α → β → γ}
    {ambient after : Ambient} {fault : Fault} :
    (x >>= fun a => y a >>= fun b => pure (g a b)).from ambient = (.error fault, after) ↔
      x.from ambient = (.error fault, after) ∨ ∃ a between, x.from ambient = (.ok a, between) ∧
        (y a).from between = (.error fault, after) := by
  rw [from_bind_eq_error]
  refine or_congr_right (exists₂_congr fun a between => and_congr_right fun _ => ?_)
  exact from_map_eq_error

end Dating

/-! ### The questions that dating asks -/

namespace Model

/-- The shape that calls of this name on the class of this path are dated for: the one that the
class's date accessor leads to. -/
def callShape? (m : Model) (owner property : String) : Option Shape :=
  ((m.class? owner).bind (·.dateAccessor? property)).bind fun q => m.shapeOf? q.type

/-- Whether the class of this path has a generated accessor of this name and arity. -/
def takes (m : Model) (owner property : String) (arity : Nat) : Bool :=
  (m.class? owner).any (·.hasAccessor property arity)

/-- Models between which dating cannot tell. -/
structure SameCalls (m' m : Model) : Prop where
  frame : m'.frame = m.frame
  callShape? : ∀ owner property, m'.callShape? owner property = m.callShape? owner property
  takes : ∀ owner property arity, m'.takes owner property arity = m.takes owner property arity

theorem SameCalls.refl (m : Model) : SameCalls m m :=
  ⟨rfl, fun _ _ => rfl, fun _ _ _ => rfl⟩

theorem SameCalls.trans {m₁ m₂ m₃ : Model} (h : SameCalls m₁ m₂) (h' : SameCalls m₂ m₃) :
    SameCalls m₁ m₃ where
  frame := h.frame.trans h'.frame
  callShape? owner property := (h.callShape? owner property).trans (h'.callShape? owner property)
  takes owner property arity := (h.takes owner property arity).trans (h'.takes owner property arity)

theorem SameCalls.symm {m m' : Model} (h : SameCalls m' m) : SameCalls m m' where
  frame := h.frame.symm
  callShape? owner property := (h.callShape? owner property).symm
  takes owner property arity := (h.takes owner property arity).symm

end Model

/-! ### Settling one call -/

namespace Navigation

/-- The navigation as a call of the accessor that takes its arguments. -/
def retargeted (n : Navigation) : Navigation :=
  { n with access := .qualified (UInt64.ofNat n.arguments.length) }

/-- The navigation as such a call, if its owner has that accessor. -/
def called (m : Model) (n : Navigation) : Except Fault Navigation :=
  if m.takes n.owner n.property n.arguments.length then .ok n.retargeted
  else .error (.accessorNotFound n.property n.owner n.arguments.length n.span)

/-- What settling a navigation comes to, and the dates in force after it. -/
def settledFrom (m : Model) (n : Navigation) (ambient : Ambient) : Except Fault Navigation × Ambient :=
  match m.callShape? n.owner n.property with
  | none => (.ok n, ambient)
  | some target =>
    if target.axes.length ≤ n.explicit.length then
      (if n.explicit.length = target.axes.length then n.called m else .ok n,
        ambient.recordSupplied target n.explicit)
    else
      let ambient := announce ambient (m.shapeAt? n.owner) target n.explicit
      match (fillSlots (n.receiverDates m) ambient (m.shapeAt? n.owner) target
          n.explicit).mapM id with
      | none => (.error (.missingDate n.property target.axes n.span), ambient)
      | some dates => ((n.supply dates).called m, ambient.enter target dates)

theorem retarget_eq {m : Model} {n : Navigation} {owner : Class} (h : m.class? n.owner = some owner) :
    n.retarget owner = n.called m := by
  obtain ⟨-, hpath⟩ := Model.class?_eq_some_iff.1 h
  have htakes : m.takes n.owner n.property n.arguments.length =
      owner.hasAccessor n.property n.arguments.length := by
    rw [Model.takes, h]
    rfl
  rw [retarget, called, htakes, hpath]
  rfl

theorem supplyOf_eq_everything {explicit : Nat} {target : Shape} :
    Supply.of explicit target = .everything ↔ target.axes.length ≤ explicit := by
  rw [Supply.of]
  constructor
  · intro h
    by_contra hlt
    rw [if_neg hlt] at h
    split at h <;> cases h
  · intro h
    rw [if_pos h]

/-- **Settling a navigation, in one equation.** -/
theorem settle_from (m : Model) (n : Navigation) (ambient : Ambient) :
    (n.settle m).from ambient = n.settledFrom m ambient := by
  rw [settle, settledFrom, Model.callShape?]
  rcases howner : m.class? n.owner with - | owner
  · rfl
  dsimp only [Option.bind_some]
  rcases haccessor : owner.dateAccessor? n.property with - | accessor
  · rfl
  dsimp only [Option.bind_some]
  rcases hshape : m.shapeOf? accessor.type with - | target
  · rfl
  have hsource : owner.shape? = m.shapeAt? n.owner := by
    rw [Model.shapeAt?, howner]
    rfl
  dsimp only
  rw [hsource]
  split
  · -- all dates are written
    rename_i hsupply
    rw [if_pos (supplyOf_eq_everything.1 hsupply), Dating.from_modify_bind]
    split
    · rw [Dating.from_lift, retarget_eq howner]
    · rfl
  · -- some are filled in
    rename_i hsupply
    rw [if_neg (fun h => hsupply (supplyOf_eq_everything.2 h)), Dating.from_modify_bind,
      Dating.from_get_bind]
    rcases (fillSlots (n.receiverDates m) (announce ambient (m.shapeAt? n.owner) target n.explicit)
        (m.shapeAt? n.owner) target n.explicit).mapM id with - | dates
    · rfl
    · have howner' : m.class? (n.supply dates).owner = some owner := howner
      rw [Dating.from_modify_bind, Dating.from_lift, retarget_eq howner']

/-- What a receiver binds is asked of its calls. -/
theorem boundDates_eq (m : Model) (r : Navigation) :
    r.boundDates m =
      match r.access, m.callShape? r.owner r.property with
      | .qualified _, some shape =>
        if r.explicit.length = shape.axes.length then shape.axes.zip r.explicit else []
      | _, _ => [] := by
  rw [boundDates, Model.callShape?]
  rcases r.access with - | count
  · rfl
  · dsimp only
    split <;> rename_i h
    · rw [h]
    · rw [h]

theorem receiverDates_congr {m m' : Model} (h : Model.SameCalls m' m) (n : Navigation) :
    n.receiverDates m' = n.receiverDates m := by
  rw [receiverDates, receiverDates]
  split
  · rw [boundDates_eq, boundDates_eq, h.callShape?]
  · rfl

theorem settle_congr {m m' : Model} (h : Model.SameCalls m' m) (n : Navigation) :
    n.settle m' = n.settle m := by
  apply Dating.ext_from
  intro ambient
  have hcalled : ∀ n : Navigation, n.called m' = n.called m := by
    intro n
    rw [called, called, h.takes]
  rw [settle_from, settle_from, settledFrom, settledFrom, h.callShape?, hcalled,
    receiverDates_congr h, Model.shapeAt?_frame h.frame]
  simp only [hcalled]

end Navigation

/-! ### Dating expressions -/

namespace Expression

mutual

/-- **Models with the same calls date alike.** -/
theorem dated_congr {m m' : Model} (h : Model.SameCalls m' m) (e : Expression) :
    dated m' e = dated m e := by
  match e with
  | reference n t => rfl
  | literal v t => rfl
  | equal f l r t => rw [dated, dated, dated_congr h l, dated_congr h r]
  | compare f o l r t => rw [dated, dated, dated_congr h l, dated_congr h r]
  | conjunction f os t => rw [dated, dated, datedAll_congr h os]
  | filter f s b e t => rw [dated, dated, dated_congr h s, dated_congr h e]
  | navigate site as w t =>
    rw [dated, dated, datedAll_congr h as]
    simp only [Navigation.settle_congr h]

theorem datedAll_congr {m m' : Model} (h : Model.SameCalls m' m) (es : List Expression) :
    datedAll m' es = datedAll m es := by
  match es with
  | [] => rfl
  | e :: es => rw [datedAll, datedAll, dated_congr h e, datedAll_congr h es]

end

/-! What a run that succeeds says of the runs for the parts, one lemma for each constructor. -/

section Runs

variable {m : Model} {ambient after : Ambient} {d : Expression} {t : Typing}

theorem dated_equal_eq_ok {f : FunctionRef} {l r : Expression} :
    (dated m (equal f l r t)).from ambient = (.ok d, after) ↔
      ∃ l' r' between, (dated m l).from ambient = (.ok l', between) ∧
        (dated m r).from between = (.ok r', after) ∧ d = equal f l' r' t :=
  Dating.from_map₂_eq_ok

theorem dated_compare_eq_ok {f : FunctionRef} {o : Comparison} {l r : Expression} :
    (dated m (compare f o l r t)).from ambient = (.ok d, after) ↔
      ∃ l' r' between, (dated m l).from ambient = (.ok l', between) ∧
        (dated m r).from between = (.ok r', after) ∧ d = compare f o l' r' t :=
  Dating.from_map₂_eq_ok

theorem dated_conjunction_eq_ok {f : FunctionRef} {os : List Expression} :
    (dated m (conjunction f os t)).from ambient = (.ok d, after) ↔
      ∃ os', (datedAll m os).from ambient = (.ok os', after) ∧ d = conjunction f os' t :=
  Dating.from_map_eq_ok

theorem dated_filter_eq_ok {f : FunctionRef} {s e : Expression} {b : Binder} :
    (dated m (filter f s b e t)).from ambient = (.ok d, after) ↔
      ∃ s' e' between, (dated m s).from ambient = (.ok s', between) ∧
        (dated m e).from between = (.ok e', after) ∧ d = filter f s' b e' t :=
  Dating.from_map₂_eq_ok

/-- The arguments are dated before the call is settled. -/
theorem dated_navigate_eq_ok {site : Site} {as : List Expression} {w : Option (List Expression)} :
    (dated m (navigate site as w t)).from ambient = (.ok d, after) ↔
      ∃ as' n between, (datedAll m as).from ambient = (.ok as', between) ∧
        (Navigation.settle m { toSite := site, arguments := as', written := w }).from between =
          (.ok n, after) ∧ d = n.toExpression t :=
  Dating.from_map₂_eq_ok

theorem datedAll_cons_eq_ok {e : Expression} {es ds : List Expression} :
    (datedAll m (e :: es)).from ambient = (.ok ds, after) ↔
      ∃ e' es' between, (dated m e).from ambient = (.ok e', between) ∧
        (datedAll m es).from between = (.ok es', after) ∧ ds = e' :: es' :=
  Dating.from_map₂_eq_ok

end Runs

end Expression

/-! ### Bodies -/

namespace Model

/-- The dates in force at the start of a body: those of its receiver, if that has a shape. -/
def openingDates (m : Model) (q : QualifiedProperty) : Ambient :=
  match q.signature.parameters.head? with
  | none => {}
  | some this =>
    match (m.resolve? this.type).bind fun c => c.shape?.map fun shape => (c.path, shape) with
    | none => {}
    | some (path, shape) =>
      Ambient.enter {} shape <| shape.axes.map fun axis =>
        (Navigation.plain path axis.name this.reference []).toExpression .date

theorem receiverAmbient_builtin (m : Model) (q : QualifiedProperty) :
    m.receiverAmbient .builtin q = .ok (m.openingDates q) := by
  rw [receiverAmbient, openingDates]
  rcases q.signature.parameters.head? with - | this
  · rfl
  · dsimp only
    rcases m.resolve? this.type with - | c
    · rfl
    · dsimp only [Option.bind_some]
      rcases c.shape? with - | shape <;> rfl

theorem openingDates_frame {m m' : Model} (h : m'.frame = m.frame) (q : QualifiedProperty) :
    m'.openingDates q = m.openingDates q := by
  have hs : ∀ (n : Model) (t : TypeRef),
      ((n.resolve? t).bind fun c => c.shape?.map fun shape => (c.path, shape)) =
        ((n.resolve? t).map Class.frame).bind fun f => f.2.shape?.map fun shape => (f.1, shape) := by
    intro n t
    rcases n.resolve? t with - | c <;> rfl
  rw [openingDates, openingDates]
  rcases q.signature.parameters.head? with - | this
  · rfl
  · dsimp only
    rw [hs, hs, resolve?_frame h]

/-- Dating a body, without the requests. -/
theorem dateBody_builtin (m : Model) (q : QualifiedProperty) :
    m.dateBody .builtin q =
      if q.isGenerated then .ok q
      else ((Expression.datedAll m q.body).from (m.openingDates q)).1.map
        fun body => { q with body } := by
  rw [dateBody, receiverAmbient_builtin]
  split
  · rfl
  · show (((Expression.datedAll m q.body).from (m.openingDates q)).1 >>= fun body =>
      pure { q with body }) = _
    rcases ((Expression.datedAll m q.body).from (m.openingDates q)).1 with fault | body <;> rfl

theorem dateBody_congr {m m' : Model} (h : SameCalls m' m) (q : QualifiedProperty) :
    m'.dateBody .builtin q = m.dateBody .builtin q := by
  rw [dateBody_builtin, dateBody_builtin, Expression.datedAll_congr h, openingDates_frame h.frame]

end Model

/-! ### Headers -/

/-- A qualified property without its body. -/
def QualifiedProperty.header (q : QualifiedProperty) : QualifiedProperty :=
  { q with body := [] }

theorem Model.header_dateBody {m : Model} {q q' : QualifiedProperty}
    (h : m.dateBody .builtin q = .ok q') : q'.header = q.header := by
  rw [dateBody_builtin] at h
  split at h
  · obtain rfl := Except.ok.inj h
    rfl
  · rcases hb : ((Expression.datedAll m q.body).from (m.openingDates q)).1 with fault | body
    · rw [hb] at h
      cases h
    · rw [hb] at h
      obtain rfl := Except.ok.inj h
      rfl

namespace Class

/-- The headers of the qualified properties that a class shows. -/
def headers (c : Class) : List QualifiedProperty :=
  c.allQualified.map QualifiedProperty.header

/-- The accessor that a navigation asks for its dates has the name it asked for, is generated and is
no range accessor. -/
theorem of_dateAccessor? {c : Class} {property : String} {q : QualifiedProperty}
    (h : c.dateAccessor? property = some q) :
    q ∈ c.allQualified ∧ q.name = property ∧ q.isGenerated = true ∧ q.isRange = false := by
  have hfound := List.find?_some h
  simp only [Bool.and_eq_true, beq_iff_eq, Bool.not_eq_true', and_assoc] at hfound
  exact ⟨List.mem_of_find?_eq_some h, hfound⟩

theorem map_header_dateAccessor? (c : Class) (property : String) :
    (c.dateAccessor? property).map QualifiedProperty.header =
      c.headers.find? fun q => q.name == property && q.isGenerated && !q.isRange := by
  rw [headers, List.find?_map]
  rfl

theorem hasAccessor_eq_headers (c : Class) (property : String) (arity : Nat) :
    c.hasAccessor property arity =
      c.headers.any fun q => q.name == property && q.arity == arity && q.isGenerated := by
  rw [headers, List.any_map]
  rfl

end Class

namespace Model

/-- Calls are read off the headers. -/
theorem callShape?_eq_headers (m : Model) (owner property : String) :
    m.callShape? owner property =
      (((m.class? owner).map Class.headers).bind fun hs => (hs.find? fun q =>
        q.name == property && q.isGenerated && !q.isRange).map (·.type)).bind m.shapeOf? := by
  rw [callShape?]
  rcases m.class? owner with - | c
  · rfl
  · show (c.dateAccessor? property).bind _ = ((c.headers.find? _).map _).bind _
    rw [← Class.map_header_dateAccessor?]
    rcases c.dateAccessor? property with - | q <;> rfl

theorem takes_eq_headers (m : Model) (owner property : String) (arity : Nat) :
    m.takes owner property arity = ((m.class? owner).map Class.headers).any fun hs =>
      hs.any fun q => q.name == property && q.arity == arity && q.isGenerated := by
  rw [takes]
  rcases m.class? owner with - | c
  · rfl
  · exact c.hasAccessor_eq_headers property arity

/-- Models whose classes have the same headers answer calls alike. -/
theorem SameCalls.of_headers {m m' : Model} (hf : m'.frame = m.frame)
    (h : ∀ path, (m'.class? path).map Class.headers = (m.class? path).map Class.headers) :
    SameCalls m' m where
  frame := hf
  callShape? owner property := by
    have hs : m'.shapeOf? = m.shapeOf? := funext (shapeOf?_frame hf)
    rw [callShape?_eq_headers, callShape?_eq_headers, h, hs]
  takes owner property arity := by
    rw [takes_eq_headers, takes_eq_headers, h]

end Model

end Bitemporal
