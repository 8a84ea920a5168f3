import Triage.Proofs.Quarantine.Calls
import Triage.Proofs.Quarantine.Candidates
import Triage.Proofs.Quarantine.Steady

/-!
The first free id.

A claim that runs alone passes over the ids that are taken, and settles on the first one that is
free below both roots. It stops before that only at an id whose place in quarantine is refused: one
where a link stands, or whose path is too long.
-/

namespace Triage

open FileSystem (maxPath absoluteText)

namespace Quarantine

variable {p : Places} {q : Quarantine} {fs fs' : FileSystem} {id base : Text} {left k : Nat}
variable {outcome : Except QuarantineError (Text × Text)}

/-! ## Ids -/

/-- The paths by which a claim looks for its candidates below the approved root are not too long. -/
def HasRoom (q : Quarantine) (base : Text) : Prop :=
  ∀ k, 1 ≤ k → k ≤ maxCandidates → (Path.join q.approvedRoot (candidate base k)).length ≤ maxPath

/-! ## One candidate -/

section

variable (h : p.Steady q fs) (hid : ItemId.isValid (candidate base k))
variable (hroom : (Path.join q.approvedRoot (candidate base k)).length ≤ maxPath)

include h hid hroom

end

section

variable (h : p.Steady q fs) (hbase : IsBase base) (hroom : q.HasRoom base)

include h hbase hroom

end

end Quarantine

end Triage
