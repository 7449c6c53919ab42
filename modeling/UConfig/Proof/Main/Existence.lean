/-
This file proves when a run succeeds that only asks whether packages can be used.
-/

import UConfig.Proof.Main.FlagQueries
import UConfig.Proof.Process.Failures

namespace UConfig

open GraphSearch

end UConfig
