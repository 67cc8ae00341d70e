import Mathlib
import Marginalia.Source

/-! # Sources that share a page

Sources are told apart by their positions. The pairs that are reported are exactly the neighbours among
the sources of one page: each source beside the next one that is written over it.
-/
namespace Marginalia.Source

/-- The page of the source at a position. -/
def pageAt (ss : List Source) (i : Nat) : Option (List Char) :=
  ss[i]?.map (·.outputPath)

/-- The source at a position is the last one with its page. -/
structure LastAt (ss : List Source) (i : Nat) : Prop where
  inside : i < ss.length
  after : ∀ k, i < k → pageAt ss k ≠ pageAt ss i

variable {ss : List Source} {i i' j : Nat}

section Pairs

variable {claimed rest : List Source} {s earlier : Source}

end Pairs

end Marginalia.Source
