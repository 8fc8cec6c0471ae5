/-
The order in which requests are made does not matter.

What comes of a request depends on the dispatcher and on the request, not on what was
dispatched before: a run of requests gives each its own result (`serve_requests`). The
counters are sums of what each request adds, and so they are the same for every
order of the run (`metrics_serve_perm`). `served_in_any_order` says both of a run and
of its rearrangements.
-/
import Mathlib.Data.List.FinRange
import PacketWire.Proofs.Dispatch.Session

namespace PacketWire

open Telemetry

namespace Dispatcher

variable {τ : Type}

/-- In a run of requests each has the result that is its own. -/
theorem serve_requests (d : Dispatcher τ) (t : Telemetry τ) (requests : List Request) :
    (d.serve t (requests.map .request)).1 = requests.map fun r => ⟨d, r, (d.fate r).result⟩ := by
  induction requests generalizing t with
  | nil => rfl
  | cons r requests ih => rw [List.map_cons, List.map_cons, serve, ih, d.outcome_handle]

theorem metrics_serve_perm {requests reordered : List Request} (h : reordered.Perm requests)
    (d : Dispatcher τ) (t : Telemetry τ) :
    (d.serve t (reordered.map .request)).2.metrics = (d.serve t (requests.map .request)).2.metrics := by
  refine Metrics.eq_of_value fun c => ?_
  rw [value_serve, value_serve, serve_requests, serve_requests]
  have hgains := ((h.map fun r => (⟨d, r, (d.fate r).result⟩ : Exchange τ)).map (·.gain c)).sum_nat
  rw [hgains]

end Dispatcher

/-- Whatever the configuration and the handlers, which are functions of the message
alone, the telemetry so far and the requests, with no registration in between: in
every order that they are made in, each has the result that it has when it is made
first, and the counters end the same. -/
theorem served_in_any_order {τ : Type} (d : Dispatcher τ) (t : Telemetry τ) {n : Nat}
    (requests : Fin n → Request) (order : Equiv.Perm (Fin n)) :
    let result := fun i => outcome (d.handle (requests i) t)
    let inTurn := d.serve t ((List.ofFn requests).map .request)
    let reordered := d.serve t ((List.ofFn (requests ∘ order)).map .request)
    inTurn.1.map (·.result) = List.ofFn result ∧
    reordered.1.map (·.result) = List.ofFn (result ∘ order) ∧
    reordered.2.metrics = inTurn.2.metrics := by
  intro result inTurn reordered
  have hresults : ∀ calls : Fin n → Request,
      (d.serve t ((List.ofFn calls).map .request)).1.map (·.result) =
        List.ofFn fun i => outcome (d.handle (calls i) t) := by
    intro calls
    rw [d.serve_requests, List.map_map, List.map_ofFn]
    refine congrArg List.ofFn (funext fun i => ?_)
    exact (d.outcome_handle (calls i) t).symm
  refine ⟨hresults requests, hresults (requests ∘ order), ?_⟩
  exact Dispatcher.metrics_serve_perm (order.ofFn_comp_perm requests) d t

end PacketWire
