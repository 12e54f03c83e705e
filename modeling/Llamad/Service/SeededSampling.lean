import Llamad.Engine.Drawing
import Llamad.Service.Wire

/-!
# Sampling with a seed

A request that sets a seed is to be reproducible: two generations with its parameters
choose the same tokens from the same logits. The chain draws with the seed as its last
stage, and one of the seeds stands for "none was given" there.
-/

namespace Llamad

open Logical Semantics Program

end Llamad
