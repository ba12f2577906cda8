/-
Bitemporal/Proofs/MissingDates.lean

Asking whether a call leaves out dates.

Whether a call needs dates from elsewhere is decided twice.  The resolution of a
call counts its explicit arguments and goes looking for dates if there are fewer
than its target has axes; else the call keeps its arguments (`dated_retains_iff`).
The query `Model.lacksDates` counts all parameters, the receiver among them, and
says that dates are missing if there are not exactly one more than axes
(`lacksDates_iff`).

The two agree on every call that has no more arguments than its target has
axes, and on no other: with surplus arguments the query says that dates are
missing while the call keeps its arguments (`lacksDates_agrees_iff`).
-/
import Bitemporal.Proofs.Propagation

namespace Bitemporal

/-! ### Calls that keep their arguments -/

namespace Navigation

variable {m : Model} {n : Navigation} {ambient between : Ambient} {target : Shape}

/-- A navigation keeps its arguments in what becomes of it: it comes back with them, or there is no
accessor that takes as many. -/
def Retains (n : Navigation) : Except Fault Navigation → Prop
  | .ok n' => n'.arguments = n.arguments
  | .error fault => fault = .accessorNotFound n.property n.owner n.arguments.length n.span

theorem retains_called (m : Model) (n : Navigation) : n.Retains (n.called m) := by
  rw [called]
  split
  · rfl
  · rfl

/-- Dates for all axes of the target are more than what a call is given that leaves some out. -/
theorem length_arguments_supply_ne {dates : List Expression} (h : n.explicit.length < dates.length) :
    (n.supply dates).arguments.length ≠ n.arguments.length := by
  rw [explicit, List.length_tail] at h
  show (n.arguments.take 1 ++ dates).length ≠ n.arguments.length
  rw [List.length_append, List.length_take]
  omega

/-- A call that is given dates does not keep its arguments, whether or not it is answered. -/
theorem not_retains_called_supply {dates : List Expression} (h : n.explicit.length < dates.length) :
    ¬ n.Retains ((n.supply dates).called m) := by
  have hlength := length_arguments_supply_ne h
  intro hretains
  rw [called] at hretains
  split at hretains
  · exact hlength (congrArg List.length hretains)
  · injection hretains with _ _ harity _
    exact hlength harity

theorem settledFrom_retains_iff (hcall : m.callShape? n.owner n.property = some target) :
    n.Retains (n.settledFrom m ambient).1 ↔ target.axes.length ≤ n.explicit.length := by
  by_cases hle : target.axes.length ≤ n.explicit.length
  · rw [settledFrom_of_le hcall hle, iff_true_right hle]
    show n.Retains (if _ then _ else _)
    split
    · exact retains_called m n
    · exact rfl
  · rw [iff_false_right hle, settledFrom, hcall]
    dsimp only
    rw [if_neg hle]
    rcases hslots : (fillSlots (n.receiverDates m) (announce ambient (m.shapeAt? n.owner) target
        n.explicit) (m.shapeAt? n.owner) target n.explicit).mapM id with - | dates
    · -- a date is missing
      intro hretains
      cases hretains
    · have hlength : dates.length = target.axes.length := (fillSlots_eq_some_iff.1 hslots).length_eq
      exact not_retains_called_supply (hlength ▸ Nat.not_le.1 hle)

/-- A call whose arguments are settled keeps them exactly if it supplies every date. -/
theorem dated_retains_iff (hcall : m.callShape? n.owner n.property = some target)
    (hsettled : (Expression.datedAll m n.arguments).from ambient = (.ok n.arguments, between)) :
    n.Retains ((n.dated m).from ambient).1 ↔ Supply.of n.explicit.length target = .everything := by
  rw [dated_from hsettled, supplyOf_eq_everything]
  exact settledFrom_retains_iff hcall

end Navigation

/-! ### The query -/

namespace Model

variable {m : Model} {c : Class} {q : QualifiedProperty} {target : Shape}

/-- Of an accessor that is no range accessor, the query asks for exactly as many parameters as a call
with all dates has. -/
theorem lacksDates_iff (hgenerated : q.isGenerated = true) (hrange : q.isRange = false)
    (hshape : m.shapeOf? q.type = some target) (count : Nat) :
    m.lacksDates q count = true ↔ count ≠ 1 + target.axes.length := by
  simp [lacksDates, requiredParameterCount, hgenerated, hrange, hshape]

/-- **Asking whether a call leaves out dates.**  Let a name lead a class to a date accessor, the first
that it exposes, and that to a shape.  The query for a call with so many explicit arguments agrees
with whether the dates that it supplies fall short exactly if there are no more of them than axes.
And whether they do is what the resolution of such a call goes by: if its arguments are settled, it
keeps them exactly if they do not fall short. -/
theorem lacksDates_agrees_iff (hc : c ∈ m.classes.entries) (hq : c.dateAccessor? q.name = some q)
    (hshape : m.shapeOf? q.type = some target) (k : Nat) :
    ((m.lacksDates q (1 + k) = true ↔ Supply.of k target ≠ .everything) ↔
        k ≤ target.axes.length) ∧
      ∀ (n : Navigation) (ambient between : Ambient), n.owner = c.path → n.property = q.name →
        n.explicit.length = k →
          (Expression.datedAll m n.arguments).from ambient = (.ok n.arguments, between) →
            (n.Retains ((n.dated m).from ambient).1 ↔ Supply.of k target = .everything) := by
  constructor
  · obtain ⟨-, -, hgenerated, hrange⟩ := Class.of_dateAccessor? hq
    rw [lacksDates_iff hgenerated hrange hshape, Ne, Ne, Navigation.supplyOf_eq_everything]
    omega
  · rintro n ambient between howner hproperty rfl hsettled
    refine n.dated_retains_iff ?_ hsettled
    rw [callShape?, howner, class?_path hc, hproperty, Option.bind_some, hq, Option.bind_some, hshape]

/-- A call of the contract that a contract amends, with dates from a list behind the receiver. -/
def amendment (dates : List String) : Navigation :=
  .amends .property (.reference "this" ⟨.ofClass "m::Contract", .one⟩ :: dates.map .date)

/-- With one date out of two, dates are missing for the query and the call is given another one.  With
three, they are missing for the query while the call keeps all of them. -/
theorem amendment_agrees : ∃ c q, c ∈ Navigation.contracts.classes.entries ∧
    c.dateAccessor? q.name = some q ∧
    Navigation.contracts.shapeOf? q.type = some .bitemporal ∧
    Navigation.contracts.lacksDates q (1 + 1) = true ∧
    (∀ ambient, ¬ (amendment ["2020-01-01"]).Retains
      (((amendment ["2020-01-01"]).dated Navigation.contracts).from ambient).1) ∧
    ¬ (Navigation.contracts.lacksDates q (1 + 3) = true ↔
      Supply.of 3 .bitemporal ≠ .everything) ∧
    ∀ ambient, (amendment ["2020-01-01", "2020-06-30", "2020-12-31"]).Retains
      (((amendment ["2020-01-01", "2020-06-30", "2020-12-31"]).dated Navigation.contracts).from
        ambient).1 := by
  have hclass : (Navigation.contracts.class? "m::Contract").isSome = true := by decide +kernel
  obtain ⟨c, hclass⟩ := Option.isSome_iff_exists.1 hclass
  obtain ⟨hc, hpath⟩ := class?_eq_some_iff.1 hclass
  have hcall : Navigation.contracts.callShape? "m::Contract" "amends" = some .bitemporal := by
    decide +kernel
  rw [callShape?, hclass, Option.bind_some] at hcall
  obtain ⟨q, hq, hshape⟩ := Option.bind_eq_some_iff.1 hcall
  obtain ⟨-, hname, -, -⟩ := Class.of_dateAccessor? hq
  rw [← hname] at hq
  obtain ⟨hone, hretainsOne⟩ := lacksDates_agrees_iff hc hq hshape 1
  obtain ⟨hthree, hretainsThree⟩ := lacksDates_agrees_iff hc hq hshape 3
  refine ⟨c, q, hc, hq, hshape, (hone.2 (by decide)).2 (by decide), fun ambient hretains => ?_,
    fun hagrees => ?_, fun ambient => ?_⟩
  · have hsupply := (hretainsOne _ ambient ambient hpath.symm hname.symm rfl rfl).1 hretains
    exact absurd hsupply (by decide)
  · exact absurd (hthree.1 hagrees) (by decide)
  · exact (hretainsThree _ ambient ambient hpath.symm hname.symm rfl rfl).2 rfl

end Model

end Bitemporal
