/-
Bitemporal/Proofs/Chains.lean

Chains of calls whose head is dated.

In a chain each call is the receiver of the next.  If the first one is given
the dates of its target, the others can leave all of theirs out, as long as no
call leads to an axis that its receiver's target lacks.  A chain may narrow,
from a bitemporal class to one with a single axis, but never widen.

The invariant along the chain: the expression dated so far is a call that binds
the dates of the head on the axes of its own target (`Expression.Bound`), and
the same dates are in force.  Hence the next call finds them at its receiver,
and putting them in force changes nothing (`Ambient.enter_eq_self`).  That is
why the dates in force before do not matter at all: the main statement,
`Expression.dated_chain`, gives one dated chain for all of them.
-/
import Bitemporal.Proofs.Propagation
import Bitemporal.Expression.Text

namespace Bitemporal

/-! ### One date for each axis -/

/-- As many dates as a shape has axes are one for each. -/
theorem Shape.exists_map_axes {target : Shape} {dates : List Expression}
    (h : dates.length = target.axes.length) : ∃ date : Axis → Expression, target.axes.map date = dates := by
  cases target with
  | business =>
    obtain ⟨d, rfl⟩ := List.length_eq_one_iff.1 h
    exact ⟨fun _ => d, rfl⟩
  | processing =>
    obtain ⟨d, rfl⟩ := List.length_eq_one_iff.1 h
    exact ⟨fun _ => d, rfl⟩
  | bitemporal =>
    obtain ⟨p, b, rfl⟩ := List.length_eq_two.1 h
    exact ⟨fun axis => if axis = .processing then p else b, rfl⟩

variable {date : Axis → Expression} {target next : Shape}

theorem mem_zip_map_axes {axis : Axis} (h : axis ∈ target.axes) :
    (axis, date axis) ∈ target.axes.zip (target.axes.map date) := by
  have hzip : target.axes.zip (target.axes.map date) = target.axes.map fun axis => (axis, date axis) := by
    have := List.zip_map' (f := id) (g := date) (l := target.axes)
    rwa [List.map_id] at this
  rw [hzip]
  exact List.mem_map_of_mem h

namespace Ambient

variable {a after : Ambient}

theorem Entered.date?_eq (h : a.Entered target (target.axes.map date) after) {axis : Axis}
    (haxis : axis ∈ target.axes) : after.date? axis = some (date axis) :=
  h.held axis _ (mem_zip_map_axes haxis)

/-- Putting in force what is in force changes nothing. -/
theorem enter_eq_self (h : ∀ axis ∈ target.axes, a.date? axis = some (date axis)) :
    a.enter target (target.axes.map date) = a := by
  have hentered : a.Entered target (target.axes.map date) (a.enter target (target.axes.map date)) :=
    entered_enter (Nat.le_of_eq (List.length_map date).symm)
  apply ext_date?
  intro axis
  -- on its own axes a target puts the same dates in force again
  by_cases haxis : axis ∈ target.axes
  · rw [hentered.date?_eq haxis, h axis haxis]
  · exact hentered.kept axis haxis

end Ambient

/-- The axes of the next shape are among those of one that does not widen to it. -/
theorem axes_subset (h : target = .bitemporal ∨ target = next) : next.axes ⊆ target.axes := by
  rcases h with rfl | rfl
  · cases next <;> decide
  · exact List.Subset.refl _

/-- With all dates of its source available, a call that does not widen can leave its own out. -/
theorem fills_of_available {available : Axis → Expression → Prop}
    (h : target = .bitemporal ∨ target = next)
    (havailable : ∀ axis ∈ target.axes, available axis (date axis)) :
    Fills available next (some target) [] (next.axes.map date) := by
  have hnext := fun axis (haxis : axis ∈ next.axes) => havailable axis (axes_subset h haxis)
  cases next with
  | business => exact .one nofun (by simpa using h) (hnext _ (.head _))
  | processing => exact .one nofun (by simpa using h) (hnext _ (.head _))
  | bitemporal =>
    obtain rfl : target = .bitemporal := h.elim id id
    exact .both (hnext _ (.head _)) (hnext _ (.tail _ (.head _)))

namespace Expression

/-! ### Chains -/

/-- A call in a chain: what is called, and what it is given besides the receiver. -/
structure Link extends Site where
  explicit : List Expression
  written : Option (List Expression) := none
  typing : Typing

/-- The call with its receiver. -/
def Link.on (receiver : Expression) (link : Link) : Expression :=
  .navigate link.toSite (receiver :: link.explicit) link.written link.typing

/-- Calls one after another, each on the one before it. -/
def chain (receiver : Expression) (links : List Link) : Expression :=
  links.foldl Link.on receiver

/-- A variable or a literal. -/
def IsAtom : Expression → Prop
  | reference _ _ => True
  | literal _ _ => True
  | _ => False

variable {m : Model}

/-- The name of a call leads to a shape, and its owner has the accessor that takes all of its dates. -/
def Link.LeadsTo (m : Model) (link : Link) (target : Shape) : Prop :=
  m.callShape? link.owner link.property = some target ∧
    m.takes link.owner link.property (1 + target.axes.length) = true

instance (link : Link) (target : Shape) : Decidable (link.LeadsTo m target) :=
  inferInstanceAs (Decidable (_ ∧ _))

/-- Calls that can follow one with a target of the given shape: each stands on a class of the shape
that the call before it leads to, leads to no other axis, and is given no date. -/
inductive Linked (m : Model) : Shape → List Link → Prop
  | nil {target : Shape} : Linked m target []
  | cons {target next : Shape} {link : Link} {links : List Link}
      (hsource : m.shapeAt? link.owner = some target) (hleads : link.LeadsTo m next)
      (hnarrows : target = .bitemporal ∨ target = next) (hnone : link.explicit = [])
      (rest : Linked m next links) : Linked m target (link :: links)

/-- A call as it is dated: it calls the accessor with all dates and is given, in the order of its
parameters, the dates on the axes that it leads to. -/
def Link.DatedBy (m : Model) (date : Axis → Expression) (link link' : Link) : Prop :=
  ∃ target, m.callShape? link.owner link.property = some target ∧
    link'.toSite = { link.toSite with
      access := .qualified (UInt64.ofNat (1 + target.axes.length)) } ∧
    link'.explicit = target.axes.map date ∧ link'.typing = link.typing

/-- An expression is a call that binds these dates on the axes of its target. -/
def Bound (m : Model) (date : Axis → Expression) (target : Shape) (e : Expression) : Prop :=
  ∃ r, e.navigation? = some r ∧ ∀ axis ∈ target.axes, r.Binds m axis (date axis)

/-! ### One call -/

/-- An expression is dated as its navigation is settled, once the arguments are dated. -/
theorem dated_navigate_from {site : Site} {as as' : List Expression} {w : Option (List Expression)}
    {t : Typing} {n : Navigation} {before ambient after : Ambient}
    (hargs : (datedAll m as).from before = (.ok as', ambient))
    (hsettle : Navigation.settledFrom m { toSite := site, arguments := as', written := w } ambient =
      (.ok n, after)) :
    (dated m (navigate site as w t)).from before = (.ok (n.toExpression t), after) := by
  rw [dated, Dating.from_bind, hargs]
  dsimp only
  rw [Dating.from_bind, Navigation.settle_from, hsettle]
  rfl

theorem dated_of_isAtom {e : Expression} (h : e.IsAtom) (ambient : Ambient) :
    (dated m e).from ambient = (.ok e, ambient) := by
  cases e with
  | reference n t => rfl
  | literal v t => rfl
  | _ => cases h

theorem datedAll_of_isAtom {es : List Expression} (h : ∀ e ∈ es, e.IsAtom) (ambient : Ambient) :
    (datedAll m es).from ambient = (.ok es, ambient) := by
  induction es with
  | nil => rfl
  | cons e es ih =>
    rw [datedAll, Dating.from_bind, dated_of_isAtom (h e List.mem_cons_self)]
    dsimp only
    rw [Dating.from_bind, ih fun d hd => h d (List.mem_cons_of_mem _ hd)]
    rfl

/-- The call as it is dated for a target: it calls the accessor with all dates. -/
def Link.called (link : Link) (target : Shape) (dates : List Expression)
    (written : Option (List Expression)) : Link :=
  { link with
    access := .qualified (UInt64.ofNat (1 + target.axes.length))
    explicit := dates
    written }

/-- Called with these dates, a link binds them. -/
theorem bound_called {link : Link} (hleads : link.LeadsTo m target) (written : Option (List Expression))
    (receiver : Expression) :
    Bound m date target ((link.called target (target.axes.map date) written).on receiver) := by
  obtain ⟨hcall, htakes⟩ := hleads
  refine ⟨_, rfl, fun axis haxis => ?_⟩
  refine ⟨target, hcall, nofun, ?_, List.length_map date, mem_zip_map_axes haxis⟩
  show m.takes link.owner link.property (receiver :: target.axes.map date).length = true
  rw [List.length_cons, List.length_map, Nat.add_comm]
  exact htakes

theorem datedBy_called {link : Link} (hleads : link.LeadsTo m target)
    (written : Option (List Expression)) :
    link.DatedBy m date (link.called target (target.axes.map date) written) :=
  ⟨target, hleads.1, rfl, rfl, rfl⟩

/-- A navigation that is given these dates calls the accessor that takes them. -/
theorem called_on {link : Link} (hleads : link.LeadsTo m target) (written : Option (List Expression))
    (receiver : Expression) {n : Navigation} (hn : n.toSite = link.toSite)
    (hargs : n.arguments = receiver :: target.axes.map date) (hwritten : n.written = written) :
    n.called m = .ok n.retargeted ∧ n.retargeted.toExpression link.typing =
      (link.called target (target.axes.map date) written).on receiver := by
  obtain ⟨site, as, w⟩ := n
  obtain rfl : site = link.toSite := hn
  obtain rfl : as = _ := hargs
  obtain rfl : w = written := hwritten
  have hlength : (receiver :: target.axes.map date).length = 1 + target.axes.length := by
    rw [List.length_cons, List.length_map, Nat.add_comm]
  constructor
  · apply Navigation.called_of_takes
    dsimp only
    rw [hlength]
    exact hleads.2
  · show navigate _ _ _ _ = navigate _ _ _ _
    dsimp only [Navigation.retargeted, Link.called]
    rw [hlength]

/-- **The head of a chain** is called with its dates, and they are in force after it. -/
theorem dated_head {receiver : Expression} {link : Link} (hreceiver : receiver.IsAtom)
    (hdates : ∀ d ∈ link.explicit, d.IsAtom) (hleads : link.LeadsTo m target)
    (hall : link.explicit = target.axes.map date) (ambient : Ambient) :
    (dated m (link.on receiver)).from ambient =
      (.ok ((link.called target (target.axes.map date) link.written).on receiver),
        ambient.enter target (target.axes.map date)) := by
  let n : Navigation :=
    { toSite := link.toSite, arguments := receiver :: link.explicit, written := link.written }
  have hlength : n.explicit.length = target.axes.length := by
    show link.explicit.length = _
    rw [hall, List.length_map]
  obtain ⟨hcalled, hon⟩ := called_on hleads link.written receiver (n := n) rfl
    (congrArg (receiver :: ·) hall) rfl
  have hsettle : n.settledFrom m ambient =
      (.ok n.retargeted, ambient.enter target (target.axes.map date)) := by
    rw [n.settledFrom_of_le hleads.1 (Nat.le_of_eq hlength.symm), if_pos hlength, hcalled, ← hall]
    rfl
  rw [← hon]
  refine dated_navigate_from (datedAll_of_isAtom ?_ ambient) hsettle
  intro e he
  rcases List.mem_cons.1 he with rfl | he
  · exact hreceiver
  · exact hdates e he

/-- **The next call of a chain** gets the dates of the one before it, and leaves those in force as they
are. -/
theorem dated_link {e e' : Expression} {link : Link} {before ambient : Ambient}
    (hdated : (dated m e).from before = (.ok e', ambient)) (hbound : e'.Bound m date target)
    (hforce : ∀ axis ∈ target.axes, ambient.date? axis = some (date axis))
    (hsource : m.shapeAt? link.owner = some target) (hleads : link.LeadsTo m next)
    (hnarrows : target = .bitemporal ∨ target = next) (hnone : link.explicit = []) :
    (dated m (link.on e)).from before =
      (.ok ((link.called next (next.axes.map date) (link.written <|> some [e'])).on e'), ambient) := by
  let n : Navigation := { toSite := link.toSite, arguments := e' :: link.explicit, written := link.written }
  have hexplicit : n.explicit = [] := hnone
  have hsupply : (n.supply (next.axes.map date)).arguments = e' :: next.axes.map date := rfl
  have hwritten : (n.supply (next.axes.map date)).written = (link.written <|> some [e']) := by
    show (link.written <|> some (e' :: link.explicit)) = _
    rw [hnone]
  obtain ⟨hcalled, hon⟩ := called_on hleads (link.written <|> some [e']) e'
    (n := n.supply (next.axes.map date)) rfl hsupply hwritten
  have hargs : (datedAll m (e :: link.explicit)).from before = (.ok (e' :: link.explicit), ambient) := by
    rw [hnone, datedAll, Dating.from_bind, hdated]
    rfl
  -- the receiver binds every date that is left out
  have hfills : Fills (Available m e' ambient) next (m.shapeAt? n.owner) n.explicit
      (next.axes.map date) := by
    rw [show m.shapeAt? n.owner = some target from hsource, hexplicit]
    obtain ⟨r, hr, hbinds⟩ := hbound
    exact fills_of_available hnarrows fun axis haxis => .inl ⟨r, hr, hbinds axis haxis⟩
  have hlt : n.explicit.length < next.axes.length := by
    rw [hexplicit]
    cases next <;> decide
  -- and what the call puts in force is in force already
  have hsettle : n.settledFrom m ambient = (.ok (n.supply (next.axes.map date)).retargeted, ambient) := by
    rw [n.settledFrom_of_fills rfl hdated hleads.1 hlt hfills, hcalled, hexplicit, announce_nil,
      Ambient.enter_eq_self fun axis haxis => hforce axis (axes_subset hnarrows haxis)]
  rw [← hon]
  exact dated_navigate_from hargs hsettle

/-! ### A chain -/

/-- **A chain on a call that binds its dates** is dated with them throughout. -/
theorem dated_links {links : List Link} (hlinked : Linked m target links) {e e' : Expression}
    (hbound : e'.Bound m date target) :
    ∃ links', List.Forall₂ (Link.DatedBy m date) links links' ∧
      ∀ before ambient, (dated m e).from before = (.ok e', ambient) →
        (∀ axis ∈ target.axes, ambient.date? axis = some (date axis)) →
          (dated m (chain e links)).from before = (.ok (chain e' links'), ambient) := by
  induction hlinked generalizing e e' with
  | nil => exact ⟨[], .nil, fun _ _ hdated _ => hdated⟩
  | @cons target next link links hsource hleads hnarrows hnone rest ih =>
    -- the rest of the chain stands on what this call becomes, which binds dates again
    obtain ⟨links', hlinks', hrun⟩ := ih (e := link.on e)
      (bound_called hleads (link.written <|> some [e']) e')
    refine ⟨_ :: links', .cons (datedBy_called hleads (link.written <|> some [e'])) hlinks', ?_⟩
    intro before ambient hdated hforce
    apply hrun
    · exact dated_link hdated hbound hforce hsource hleads hnarrows hnone
    · exact fun axis haxis => hforce axis (axes_subset hnarrows haxis)

/-- **A dated head dates a whole chain**, whatever the dates in force are: each call is given the dates of
the head on the axes that it leads to, and the dates of the head are in force after it. -/
theorem dated_chain {receiver : Expression} {head : Link} {links : List Link}
    (hreceiver : receiver.IsAtom) (hdates : ∀ d ∈ head.explicit, d.IsAtom)
    (hleads : head.LeadsTo m target) (hall : head.explicit.length = target.axes.length)
    (hlinked : Linked m target links) :
    ∃ date : Axis → Expression, target.axes.map date = head.explicit ∧
      ∃ links', List.Forall₂ (Link.DatedBy m date) (head :: links) links' ∧
        ∀ ambient, ∃ after, ambient.Entered target head.explicit after ∧
          (dated m (chain receiver (head :: links))).from ambient =
            (.ok (chain receiver links'), after) := by
  obtain ⟨date, hdate⟩ := Shape.exists_map_axes hall
  refine ⟨date, hdate, ?_⟩
  have hbound : Bound m date target _ := bound_called hleads head.written receiver
  obtain ⟨links', hlinks', hrun⟩ := dated_links hlinked (e := head.on receiver) hbound
  refine ⟨_ :: links', .cons (datedBy_called hleads head.written) hlinks', ?_⟩
  intro ambient
  have hentered : ambient.Entered target (target.axes.map date)
      (ambient.enter target (target.axes.map date)) :=
    Ambient.entered_enter (Nat.le_of_eq (List.length_map date).symm)
  rw [← hdate]
  refine ⟨_, hentered, ?_⟩
  apply hrun
  · exact dated_head hreceiver hdates hleads hdate.symm ambient
  · exact fun axis haxis => hentered.date?_eq haxis

/-- A call in a chain of contracts and sites, as it is written. -/
def Link.plain (owner property type : String) (explicit : List Expression) : Link :=
  { owner, property, access := .property, span := none, explicit, typing := ⟨.ofClass type, .zeroOne⟩ }

/-- A part of the site of a contract, found by two amendments of which the first is dated. -/
theorem site_dated :
    let receiver := reference "this" ⟨.ofClass "m::Contract", .one⟩
    let head := Link.plain "m::Contract" "amends" "m::Contract" [.date "2020-01-01", .date "2021-06-30"]
    let links := [Link.plain "m::Contract" "amends" "m::Contract" [],
      Link.plain "m::Contract" "site" "m::Site" [], Link.plain "m::Site" "part" "m::Site" []]
    ∃ links', (chain receiver links').text = "$this.amends(%2020-01-01, %2021-06-30)" ++
        ".amends(%2020-01-01, %2021-06-30).site(%2021-06-30).part(%2021-06-30)" ∧
      ∀ ambient, ∃ after, after.date? .processing = some (.date "2020-01-01") ∧
        after.date? .business = some (.date "2021-06-30") ∧
        (dated Navigation.contracts (chain receiver (head :: links))).from ambient =
          (.ok (chain receiver links'), after) := by
  intro receiver head links
  have hcontract : Navigation.contracts.shapeAt? "m::Contract" = some .bitemporal := by decide +kernel
  have hsite : Navigation.contracts.shapeAt? "m::Site" = some .business := by decide +kernel
  have hamends : Navigation.contracts.callShape? "m::Contract" "amends" = some .bitemporal ∧
      Navigation.contracts.takes "m::Contract" "amends" 3 = true := by decide +kernel
  have hdates : ∀ d ∈ head.explicit, d.IsAtom :=
    List.forall_mem_cons.2 ⟨trivial, List.forall_mem_singleton.2 trivial⟩
  have hlinked : Linked Navigation.contracts .bitemporal links :=
    .cons hcontract hamends (.inl rfl) rfl <|
    .cons hcontract (show Link.LeadsTo _ _ .business by decide +kernel) (.inl rfl) rfl <|
    .cons hsite (show Link.LeadsTo _ _ .business by decide +kernel) (.inr rfl) rfl .nil
  have htext : ((dated Navigation.contracts (chain receiver (head :: links))).from {}).1.toOption.map
      text = some ("$this.amends(%2020-01-01, %2021-06-30)" ++
        ".amends(%2020-01-01, %2021-06-30).site(%2021-06-30).part(%2021-06-30)") := by
    decide +kernel
  obtain ⟨_, -, links', -, hrun⟩ :=
    dated_chain (show receiver.IsAtom from trivial) hdates hamends rfl hlinked
  refine ⟨links', ?_, fun ambient => ?_⟩
  · obtain ⟨after, -, hempty⟩ := hrun {}
    rw [hempty] at htext
    exact Option.some.inj htext
  · obtain ⟨after, hentered, hafter⟩ := hrun ambient
    exact ⟨after, hentered.held _ _ (.head _), hentered.held _ _ (.tail _ (.head _)), hafter⟩

end Expression

end Bitemporal
