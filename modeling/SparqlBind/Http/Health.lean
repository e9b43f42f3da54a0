import SparqlBind.Endpoint
import SparqlBind.Text.Json

/-!
# The health document

A short report on a running server, with its members in a fixed order.
-/

namespace SparqlBind

structure Health where
  uptimeSeconds : Nat
  tripleCount : Nat
  extensionFunctions : Nat
deriving DecidableEq, Inhabited

namespace Health

def version : String := "0.1.0"

def ofEndpoint (e : QueryEndpoint) (uptimeSeconds : Nat) : Health :=
  ⟨uptimeSeconds, e.store.size, e.registry.size⟩

def toJson (h : Health) : Json :=
  .object [("status", .string "healthy"), ("version", .string version),
    ("uptime_seconds", .ofNat h.uptimeSeconds), ("triple_count", .ofNat h.tripleCount),
    ("extension_functions", .ofNat h.extensionFunctions)]

end Health

end SparqlBind
