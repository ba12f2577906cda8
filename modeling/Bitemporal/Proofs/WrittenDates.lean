/-
Bitemporal/Proofs/WrittenDates.lean

Dates that are filled in might as well have been written.

A call that leaves dates out is settled with the dates that its receiver and
the dates in force make available.  Written behind the receiver in the first
place, the same dates are dated once more themselves, as arguments, and from
where the receiver has left the dates in force.  Provided that they are settled
this changes nothing (`Expression.datedAll_written`), and the call then takes
the other branch, that of a call which supplies its dates, to the same
arguments and the same accessor (`Navigation.dated_written`).

They are settled if the dates in force at the start are, and if every
navigation in the arguments has a receiver.  A navigation without one takes the
date that it is given for its receiver, and wants another when it is dated again
(`Navigation.unreceived_rewritten`).
-/
import Bitemporal.Proofs.Chains
import Bitemporal.Proofs.Settled

namespace Bitemporal

variable {m : Model} {ambient after : Ambient} {target : Shape}

/-! ### One call -/

namespace Navigation

variable {n n' : Navigation} {dates : List Expression}

/-- A call that leaves dates out is settled by supplying them. -/
theorem Settles.supplied_of_lt (h : Settles m n ambient n' after)
    (hcall : m.callShape? n.owner n.property = some target)
    (hless : n.explicit.length < target.axes.length) :
    ∃ dates, dates.length = target.axes.length ∧ n' = (n.supply dates).retargeted ∧
      m.takes n.owner n.property (n.supply dates).arguments.length = true ∧
        ∃ between, after = Ambient.enter between target dates := by
  cases h with
  | plain hnone =>
    rw [hcall] at hnone
    cases hnone
  | overfull hcall' hmore =>
    obtain rfl := Option.some.inj (hcall.symm.trans hcall')
    omega
  | exact hcall' hexact =>
    obtain rfl := Option.some.inj (hcall.symm.trans hcall')
    omega
  | filled hcall' _ hlength _ _ htakes =>
    obtain rfl := Option.some.inj (hcall.symm.trans hcall')
    exact ⟨_, hlength, rfl, htakes, _, rfl⟩

/-- A call that supplies its dates is settled with them, whatever dates are in force. -/
theorem settledFrom_of_eq (hcall : m.callShape? n.owner n.property = some target)
    (hexact : n.explicit.length = target.axes.length)
    (htakes : m.takes n.owner n.property n.arguments.length = true) (ambient : Ambient) :
    n.settledFrom m ambient = (.ok n.retargeted, ambient.enter target n.explicit) := by
  rw [settledFrom_of_le hcall (Nat.le_of_eq hexact.symm), if_pos hexact, called, if_pos htakes]

end Navigation

/-! ### The arguments -/

namespace Expression

/-- Behind a receiver, settled dates are given back. -/
theorem datedAll_written {receiver receiver' : Expression} {dates : List Expression}
    {between : Ambient} (hreceiver : (dated m receiver).from ambient = (.ok receiver', between))
    (hdates : EverywhereAll (Navigation.Settled m) dates) :
    ∃ after, (datedAll m (receiver :: dates)).from ambient = (.ok (receiver' :: dates), after) := by
  obtain ⟨after, hrest⟩ := datedAll_of_settled hdates between
  exact ⟨after, datedAll_cons_eq_ok.2 ⟨receiver', dates, between, hreceiver, hrest, rfl⟩⟩

end Expression

/-! ### The whole navigation -/

namespace Navigation

variable {n n' : Navigation}

/-- **Dates that are filled in might as well have been written.**  Let a navigation with a receiver
leave out dates of its target, and let every navigation in its arguments have a receiver.  If it is
dated, from settled dates in force, then so is the same navigation with the dates it was given
written behind the receiver, from the same dates in force: with the same arguments and the same
accessor, and with the same dates in force on the axes of the target after it. -/
theorem dated_written (m : Model) (ambient after : Ambient) (n n' : Navigation) (target : Shape)
    (hn : n.HasReceiver) (hnested : Expression.EverywhereAll HasReceiver n.arguments)
    (ha : ambient.All (Expression.Settled m))
    (hcall : m.callShape? n.owner n.property = some target)
    (hless : n.explicit.length < target.axes.length)
    (h : (n.dated m).from ambient = (.ok n', after)) :
    ∃ after', ({ n with arguments := n.arguments.take 1 ++ n'.explicit }.dated m).from ambient =
        (.ok { n' with written := n.written }, after') ∧
      ∀ axis ∈ target.axes, after'.date? axis = after.date? axis := by
  obtain ⟨site, arguments, written⟩ := n
  rcases arguments with - | ⟨receiver, rest⟩
  · exact (hn rfl).elim
  obtain ⟨arguments, before, hargs, hsettle⟩ := Dating.from_bind_eq_ok.1 h
  -- what the call is given was settled before
  obtain ⟨hsettled, hbefore⟩ := Expression.settledAll_datedAll hnested ha hargs
  obtain ⟨hsettled, -⟩ := (settles_of_settle hsettle).everywhere hsettled hbefore
  obtain ⟨receiver', first, hreceiver, hargs⟩ := Dating.from_bind_eq_ok.1 hargs
  obtain ⟨rest', second, hrest, hargs⟩ := Dating.from_bind_eq_ok.1 hargs
  obtain ⟨rfl, rfl⟩ := Dating.from_pure_eq_ok.1 hargs
  have hless' : rest'.length < target.axes.length := by
    rw [Expression.length_datedAll hrest]
    exact hless
  obtain ⟨dates, hlength, rfl, htakes, between, rfl⟩ :=
    (settles_of_settle hsettle).supplied_of_lt hcall hless'
  have hdates : Expression.EverywhereAll (Settled m) dates := hsettled.2
  obtain ⟨after, hwritten⟩ := Expression.datedAll_written hreceiver hdates
  let n₁ : Navigation := { toSite := site, arguments := receiver' :: dates, written := written }
  have hcalled : n₁.settledFrom m after = (.ok n₁.retargeted, after.enter target dates) :=
    settledFrom_of_eq (n := n₁) hcall hlength htakes after
  refine ⟨after.enter target dates, (dated_from hwritten).trans hcalled, ?_⟩
  intro axis haxis
  obtain ⟨date, rfl⟩ := Shape.exists_map_axes hlength
  have hentered : ∀ a : Ambient, (a.enter target (target.axes.map date)).date? axis = some (date axis) :=
    fun a => (Ambient.entered_enter (Nat.le_of_eq hlength.symm)).date?_eq haxis
  rw [hentered, hentered]

/-- A call that is given the date of signature of another contract: the date it takes from its
receiver can be written as well, and the other is dated once more. -/
theorem revision_written : ∃ n' after after',
    ((amends .property (revision .property)).dated contracts).from {} = (.ok n', after) ∧
      n'.explicit = .date "2015-01-01" :: (revision (.qualified 3)).tail ∧
        ((amends .property ((revision .property).take 1 ++ n'.explicit)).dated contracts).from {} =
            (.ok { n' with written := none }, after') ∧
          after'.date? .processing = some (.date "2015-01-01") := by
  let n' : Navigation := { amends (.qualified 3) ((revision (.qualified 3)).take 1 ++
    .date "2015-01-01" :: (revision (.qualified 3)).tail) with written := some (revision (.qualified 3)) }
  have hrun : ∃ after, ((amends .property (revision .property)).dated contracts).from {} =
      (.ok n', after) ∧ after.date? .processing = some (.date "2015-01-01") :=
    ⟨⟨some (.date "2015-01-01"), (revision (.qualified 3)).tail.head?⟩, by decide +kernel, rfl⟩
  obtain ⟨after, hrun, hprocessing⟩ := hrun
  have hcall : contracts.callShape? "m::Contract" "amends" = some .bitemporal := by decide +kernel
  obtain ⟨after', hwritten, hsame⟩ := dated_written contracts {} after
    (amends .property (revision .property)) n' .bitemporal (by decide) (by decide +kernel)
    Ambient.all_empty hcall (by decide) hrun
  exact ⟨n', after, after', hrun, rfl, hwritten, (hsame .processing (.head _)).trans hprocessing⟩

/-- A call with a receiver, which binds a date that is itself a call without a receiver. -/
def unreceived : Navigation :=
  let next (arguments : List Expression) : Expression :=
    Navigation.toExpression
      { owner := "m::K", property := "next", access := .property, span := none, arguments }
      ⟨.ofClass "m::K", .zeroOne⟩
  plain "m::K" "next" (next [.reference "this" ⟨.ofClass "m::K", .one⟩, next []]) []

/-- The call without a receiver is given the date in force.  Written as a date, it takes this for its
receiver and is given another. -/
theorem unreceived_rewritten :
    let m := Expression.succession
    let ambient : Ambient := { business := some (.date "2020-01-01") }
    unreceived.HasReceiver ∧ ambient.All (Expression.Settled m) ∧
      m.callShape? unreceived.owner unreceived.property = some .business ∧
        unreceived.explicit.length < Shape.business.axes.length ∧
          ∃ n' after n'' after', (unreceived.dated m).from ambient = (.ok n', after) ∧
            ({ unreceived with arguments := unreceived.arguments.take 1 ++ n'.explicit }.dated m).from
                ambient = (.ok n'', after') ∧
              n''.arguments ≠ n'.arguments := by
  intro m ambient
  have hsettled : (Ambient.set {} .business (.date "2020-01-01")).All (Expression.Settled m) :=
    Ambient.all_empty.set trivial
  refine ⟨by decide, hsettled, by decide +kernel, by decide, ?_⟩
  let again (n' : Navigation) : Navigation :=
    { unreceived with arguments := unreceived.arguments.take 1 ++ n'.explicit }
  have hdiffer : (((unreceived.dated m).from ambient).1.toOption.any fun n' =>
      (((again n').dated m).from ambient).1.toOption.any fun n'' =>
        decide (n''.arguments ≠ n'.arguments)) = true := by
    decide +kernel
  rcases hrun : (unreceived.dated m).from ambient with ⟨fault | n', after⟩
  · rw [hrun] at hdiffer
    cases hdiffer
  · rw [hrun] at hdiffer
    change ((((again n').dated m).from ambient).1.toOption.any fun n'' =>
      decide (n''.arguments ≠ n'.arguments)) = true at hdiffer
    rcases hrun' : ((again n').dated m).from ambient with ⟨fault | n'', after'⟩
    · rw [hrun'] at hdiffer
      cases hdiffer
    · rw [hrun'] at hdiffer
      exact ⟨n', after, n'', after', rfl, hrun', of_decide_eq_true hdiffer⟩

end Navigation

end Bitemporal
