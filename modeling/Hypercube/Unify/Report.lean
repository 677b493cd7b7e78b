import Hypercube.Ty.Render
import Hypercube.Unify.Attempt

/-!
# Text of notes

What unification reports about a member and a tuple that lose their structure.
-/

set_option autoImplicit false

namespace Hypercube

/-- Text of a note. -/
def Note.render (c : Catalog) : Note → String
  | asScalars m t =>
    "joining " ++ Metadata.render c ⟨.member, m⟩ ++ " with " ++ renderTuple c t ++ " as scalars"
  | structureLost m t =>
    "set elements " ++ Metadata.render c ⟨.member, m⟩ ++ " and " ++ renderTuple c t
      ++ " lose their structure"

end Hypercube
