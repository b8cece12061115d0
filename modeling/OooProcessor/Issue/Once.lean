/-
# Every instruction once

Issue fills empty slots only, and empties the slot it sends; so what it sends is an
instruction as it was enqueued, and none a second time.  Two registers towards EXE
are not what they should be: `ALUSrc_exe` is never assigned, and a cycle without an
instruction leaves `RegWr_flag_exe` as it is, where it clears the others
(`once_iff`).  A flushed cycle leaves all of them.
-/

import OooProcessor.Issue.Held

namespace OooProcessor
namespace Issue

open Lib

variable (multReady : Fin 16 → Bool) (env : ℕ → State → Inputs) (n : ℕ)

section Proof

variable {multReady env n}

end Proof

end Issue
end OooProcessor
