/-!
# Positions

A token of the source text starts at a `SourcePos`.  A syntax node carries a `Position`: the
single-line span of the token it was derived from.  Columns count the bytes of the token's UTF-8
text, and the end column stops at the largest 32-bit value instead of wrapping around.
-/
namespace ScriptAst

/-- Where a token starts: the byte offset from the start of the text, the line and the column. -/
structure SourcePos where
  index : UInt32
  line : UInt32
  column : UInt32
  deriving DecidableEq

/-- A span on one line, from `columnStart` up to but not including `columnEnd`. -/
structure Position where
  line : UInt32
  columnStart : UInt32
  columnEnd : UInt32
  deriving DecidableEq

namespace Position

/-- The span of a node below which there is no token. -/
def unknown : Position := ⟨0, 0, 0⟩

instance : Inhabited Position := ⟨unknown⟩

/-- Whether this is the span of a node without a token. -/
def isUnknown (pos : Position) : Bool := pos = unknown

/-- The column `bytes` places after `column`, or the last column if there are not as many. -/
def advance (column : UInt32) (bytes : Nat) : UInt32 :=
  UInt32.ofNat (min (column.toNat + bytes) 4294967295)

/-- The span of a token of `bytes` bytes that starts at `pos`. -/
def ofToken (pos : SourcePos) (bytes : Nat) : Position :=
  ⟨pos.line, pos.column, advance pos.column bytes⟩

/-- The place a reader looks for: line and first column. -/
def place (pos : Position) : String :=
  if pos.isUnknown then "<unknown>" else toString pos.line ++ ":" ++ toString pos.columnStart

/-- The whole span, as it stands behind the name of a printed node. -/
def span (pos : Position) : String :=
  toString pos.line ++ ":" ++ toString pos.columnStart ++ ".." ++ toString pos.columnEnd

@[simp] theorem isUnknown_iff (pos : Position) : pos.isUnknown = true ↔ pos = unknown := by
  simp [isUnknown]

/-- The end column is the exact sum, cut off at the largest column. -/
theorem toNat_advance (column : UInt32) (bytes : Nat) :
    (advance column bytes).toNat = min (column.toNat + bytes) 4294967295 := by
  simp only [advance, UInt32.toNat_ofNat']
  omega

/-- A token's span never ends before it starts. -/
theorem le_advance (column : UInt32) (bytes : Nat) : column ≤ advance column bytes := by
  have h := column.toNat_lt
  rw [UInt32.le_iff_toNat_le, toNat_advance]
  omega

end Position
end ScriptAst
