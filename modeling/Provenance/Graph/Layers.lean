import Provenance.Config
import Provenance.Graph

/-!
# Layers

Every stage is a source, a sink or intermediate. A stage that no edge enters is a source unless its
tool is known to do something else, and likewise for sinks; configured patterns say more about a
tool than its category does.
-/

namespace Provenance

/-- What a tool suggests about the place of its stage. -/
inductive Affinity where
  | source
  | sink
  | transform
  | ambiguous
  deriving DecidableEq, Repr

namespace Affinity

def ofCategory : Category → Affinity
  | .input => source
  | .output | .browse => sink
  | .filter | .formula | .join | .union | .summarize | .select | .sort | .transform
  | .container => transform
  | .macroCall | .macroInput | .macroOutput | .unknown => ambiguous

/-- The affinity of a stage: by the first pattern that its tool matches, or else by category. -/
def ofStage (config : LayerConfig) (stage : Stage) : Affinity :=
  if stage.toolType ≠ "" ∧ config.isSource stage.toolType then source
  else if stage.toolType ≠ "" ∧ config.isSink stage.toolType then sink
  else ofCategory stage.category

end Affinity

namespace Graph

/-- The layer of a stage. -/
def label (g : Graph) (config : LayerConfig) (stage : Stage) : Layer :=
  let affinity := Affinity.ofStage config stage
  if g.inDegree stage.id = 0 ∧ (affinity = .source ∨ affinity = .ambiguous) then .source
  else if g.outDegree stage.id = 0 ∧ (affinity = .sink ∨ affinity = .ambiguous) then .sink
  else .intermediate

/-- Gives every stage its layer. -/
def classify (g : Graph) (config : LayerConfig) : Graph :=
  (g.nodes.map (fun stage ↦ (stage.id, g.label config stage))).foldl
    (fun g (id, layer) ↦ g.setLayer id (some layer)) g

end Graph

end Provenance
