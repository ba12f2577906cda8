import Bitemporal.Main
import Bitemporal.Json.Settings
import Bitemporal.Proofs.Table
import Bitemporal.Proofs.Frame
import Bitemporal.Proofs.Builtin
import Bitemporal.Proofs.Renewal
import Bitemporal.Proofs.Calls
import Bitemporal.Proofs.Stages
import Bitemporal.Proofs.Bodies
import Bitemporal.Proofs.Origins
import Bitemporal.Proofs.Settled
import Bitemporal.Proofs.Variables
import Bitemporal.Proofs.Fresh
import Bitemporal.Proofs.Members
import Bitemporal.Proofs.Recompilation
import Bitemporal.Proofs.Presented
import Bitemporal.Proofs.Arrangement
import Bitemporal.Proofs.SteadyCalls
import Bitemporal.Proofs.Idempotence
import Bitemporal.Proofs.EdgeAccessors
import Bitemporal.Proofs.Conformity
import Bitemporal.Proofs.Navigations
import Bitemporal.Proofs.Scope
import Bitemporal.Proofs.References
import Bitemporal.Proofs.Erasure
import Bitemporal.Proofs.Restoration
import Bitemporal.Proofs.Propagation
import Bitemporal.Proofs.Chains
import Bitemporal.Proofs.Agreement
import Bitemporal.Proofs.DocumentOrder
import Bitemporal.Proofs.DateArguments
import Bitemporal.Proofs.Closures
import Bitemporal.Proofs.WrittenDates
import Bitemporal.Proofs.Omission
import Bitemporal.Proofs.Faults
import Bitemporal.Proofs.Overloads
import Bitemporal.Proofs.Selection
import Bitemporal.Proofs.Counts
import Bitemporal.Proofs.Unchanged
import Bitemporal.Proofs.RangeFilters
import Bitemporal.Proofs.Strictness
import Bitemporal.Proofs.Exposure
import Bitemporal.Proofs.Requests
import Bitemporal.Proofs.Independence
import Bitemporal.Proofs.JsonForms
import Bitemporal.Proofs.MoreDates
import Bitemporal.Proofs.Reloading
import Bitemporal.Proofs.Footprint
import Bitemporal.Proofs.Repetition
import Bitemporal.Proofs.ClassOrder
import Bitemporal.Proofs.Replacement
import Bitemporal.Proofs.FreeNames
import Bitemporal.Proofs.Acceptance
import Bitemporal.Proofs.MissingDates
import Bitemporal.Proofs.Classification
