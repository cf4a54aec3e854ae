import TagWatch.Client.Web
import TagWatch.Config.Settings
import TagWatch.Run.Check

/-!
# Runs under a configuration

A configuration says how clients are made, which rates hold and what counts for every fetch. The
rest of a run over the web is the network that it takes place on.
-/

namespace TagWatch.Config

variable {σ : Type}

/-- How clients are made. -/
def factory (c : Config) : Web.Factory := ⟨c.maxTagPages, .empty⟩

/-- The report on containers that are checked over a network, and the state of the network after
it. There is no report when the configuration asks for more slots than a pool can have. -/
def check (c : Config) (factory : Web.Factory) (network : Http.Network σ)
    (containers : List Container) (state : σ) : Option Report × σ :=
  let (report, world) := checkContainers (Web.service factory network) c.fetchSettings containers
    (.fresh c.limiter ⟨[], state⟩)
  (if world.limiter.feasible then some report else none, world.service.network)

end TagWatch.Config
