import Entitlement.Proofs.Ascending
import Entitlement.Proofs.Settings
import Entitlement.Proofs.Site.Convergence
import Entitlement.Proofs.Site.Stopping
import Entitlement.Service.Startup

/-! # Starting with a license

A service that requires a license starts with a verified one or not at all. A service that does not
require one always starts, be it with Community. Whether the configured key holds at the start makes
no difference to the task that checks it: there is one if there is a key.
-/

namespace Entitlement.Service

open Calendar Custody Grant Schedule Signature

variable {verdict : Verdict} {settings : Settings} {key : Option String} {site started : Site}
  {notes : List Note} {e : StartupError}

section Start

variable {scheme : Scheme} {trusted : Key.TrustSet} {surroundings : Surroundings}

end Start

/-! ## Waiting -/

end Entitlement.Service
