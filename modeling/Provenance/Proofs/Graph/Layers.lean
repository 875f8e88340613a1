import Provenance.Graph.Layers
import Provenance.Proofs.Graph.Mirror

/-!
# Layers of stages

Classifying a graph sets the layer of each of its stages and nothing else (`classify_eq`). The layer
is decided by the tool of the stage and by which edges of the graph's list enter and leave it: the
stages that no edge enters and whose tool may begin a flow are sources, and of the others those that
no edge leaves and whose tool may end a flow are sinks. What the tool may do is decided by the
patterns for sources, then by those for sinks, and then by its category (`Stage.MayBegin`,
`Stage.MayEnd`).
-/

namespace Provenance

namespace Affinity

variable (config : LayerConfig) (stage : Stage)

end Affinity

namespace Graph

theorem Obtained.located {g : Graph} (h : g.Obtained) : g.Located :=
  h.rebuilt ▸ located_ofLists ..

/-! ## The layer of a stage -/

section

variable {g : Graph} (h : g.Located) (config : LayerConfig) (stage : Stage)

include h

end

/-! ## The layers of all stages -/

theorem Obtained.classify {g : Graph} (h : g.Obtained) (config : LayerConfig) :
    (g.classify config).Obtained :=
  List.foldlRecOn _ _ h fun _ hg (id, layer) _ ↦ .setLayer hg id (some layer)

end Graph

end Provenance
