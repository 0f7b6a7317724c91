/-!
This module contains the options of the tokenizer.
-/

namespace Offside

structure Options where
  /-- The file that the spans of tokens refer to. -/
  fileId : UInt32 := 0
  /-- Whether a token of its own follows the tokens of a source that has no error. -/
  markEnd : Bool := false
  /-- Whether it is an error to open a block more than one level above the block around it. -/
  singleStep : Bool := false
deriving DecidableEq, Repr

end Offside
