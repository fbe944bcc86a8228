import EofVerifier.Instruction

/-! # Listings

A listing shows a code section with one line for each instruction: its index, the offset of
its first byte, and the instruction.  Indices are aligned on the right, so the first column
is equally wide on all lines.  Targets and called sections are written as indices, so the
last column is assembler text for the same code. -/

namespace EofVerifier.Listing

/-- The line of the instruction `i` with this index and offset. -/
def line (width index offset : Nat) (i : Instruction) : List Char :=
  List.leftpad width ' ' (Text.Decimal.digits index)
    ++ ' ' :: '0' :: 'x' :: Text.Hex.padded 4 offset
    ++ ' ' :: ' ' :: [' '].intercalate i.words

/-- The lines of the instructions that follow, where the first has this index and offset. -/
def linesFrom (width index offset : Nat) : List Instruction → List (List Char)
  | [] => []
  | i :: rest => line width index offset i :: linesFrom width (index + 1) (offset + i.size) rest

/-- The lines of a listing. -/
def lines (code : Code) : List (List Char) :=
  linesFrom (Text.Decimal.digits (code.size - 1)).length 0 0 code.toList

/-- The listing of a code section, each line ended by a line feed. -/
def render (code : Code) : String :=
  String.ofList ((lines code).flatMap (· ++ ['\n']))

end EofVerifier.Listing
