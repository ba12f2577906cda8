/-
Bitemporal/Span.lean

Where an element or a call stands in its source text.
-/

namespace Bitemporal

/-- A stretch of a source text; lines and columns count from one, and both ends belong to it. -/
structure Span where
  source : String
  startLine : UInt32
  startColumn : UInt32
  endLine : UInt32
  endColumn : UInt32
  deriving DecidableEq

namespace Span

/-- The text of a span: source, start and end. -/
def text (s : Span) : String :=
  s.source ++ ":" ++ s.startLine.toNat.repr ++ ":" ++ s.startColumn.toNat.repr ++ "-" ++
    s.endLine.toNat.repr ++ ":" ++ s.endColumn.toNat.repr

end Span

end Bitemporal
