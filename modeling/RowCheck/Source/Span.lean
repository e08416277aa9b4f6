/-!
Positions in source text.
-/
namespace RowCheck

/-- A range of byte offsets in a source file. -/
structure Span where
  file : Nat
  start : Nat
  stop : Nat
  deriving DecidableEq, Repr, Inhabited

namespace Span

/-- The number of the file that stands for code no source file holds. -/
def syntheticFile : Nat := 4294967295

/-- The span of nodes that no source text stands for. -/
def synthetic : Span := ⟨syntheticFile, 0, 0⟩

def isSynthetic (s : Span) : Bool :=
  s.file == syntheticFile

/-- The smallest span that covers two spans of one file. -/
def merge (s t : Span) : Span :=
  ⟨s.file, min s.start t.start, max s.stop t.stop⟩

@[simp] theorem isSynthetic_synthetic : synthetic.isSynthetic = true := rfl

theorem merge_self (s : Span) : s.merge s = s := by
  cases s
  simp [merge]

end Span

/-- A name and where it is written. -/
structure Name where
  span : Span
  text : String
  deriving DecidableEq, Repr, Inhabited

end RowCheck
