import Arbiter.Hex
import Arbiter.Message.Opcode

/-!
What can be wrong with a message, read or about to be written.
-/

namespace Arbiter

inductive Fault where
  | tooShort (size : Nat)
  | tooLarge (size : Nat)
  | lengthMismatch (declared : UInt32) (actual : Nat)
  | badChecksum
  | unknownOpcode (code : UInt32)
  | badLength (op : Opcode) (expected actual : Nat)
  | outOfBounds (op : Opcode) (region : String)
  | unterminated (op : Opcode) (region : String)
  | badRecord (op : Opcode) (index : Nat)
  | negativeVerdict (op : Opcode) (code : Int32)
  | regionTooLarge (region : String)
deriving DecidableEq, Repr

namespace Fault

/-- The name of the cause without its particulars. -/
def label : Fault → String
  | tooShort _ => "TooShort"
  | tooLarge _ => "TooLarge"
  | lengthMismatch _ _ => "LengthMismatch"
  | badChecksum => "BadChecksum"
  | unknownOpcode _ => "UnknownOpcode"
  | badLength _ _ _ => "BadLength"
  | outOfBounds _ _ => "OutOfBounds"
  | unterminated _ _ => "Unterminated"
  | badRecord _ _ => "BadRecord"
  | negativeVerdict _ _ => "NegativeVerdict"
  | regionTooLarge _ => "RegionTooLarge"

def text : Fault → String
  | tooShort size => s!"message too short: {size} bytes"
  | tooLarge size => s!"message too large: {size} bytes"
  | lengthMismatch declared actual =>
    s!"declared length {declared} does not match buffer length {actual}"
  | badChecksum => "checksum mismatch"
  | unknownOpcode code => "unknown opcode " ++ Hex.number 4 code.toNat
  | badLength op expected actual => s!"{op.name} must be {expected} bytes, got {actual}"
  | outOfBounds op region => op.name ++ " region \x60" ++ region ++ "\x60 out of bounds"
  | unterminated op region => op.name ++ " string \x60" ++ region ++ "\x60 is not NUL-terminated"
  | badRecord op index => s!"{op.name} record {index} is malformed"
  | negativeVerdict op code => s!"{op.name} carries negative verdict {code.toInt}"
  | regionTooLarge region => "region \x60" ++ region ++ "\x60 too large to encode"

end Fault

end Arbiter
