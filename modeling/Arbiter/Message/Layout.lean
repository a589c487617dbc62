import Arbiter.Message.Buffer

/-!
Where each kind of message keeps its fields. All but the greeting carry a token in the eight bytes
after the header. A kind without regions has a fixed end of its body; the others have a payload that
starts where the fields end and holds the regions whose lengths the fields declare.
-/

namespace Arbiter.Layout

def token : Field := ⟨8, 8⟩

namespace Hello

def version : Field := ⟨8, 4⟩

def minVersion : Field := ⟨12, 4⟩

def bodyEnd : Nat := 16

end Hello

namespace Versel

def version : Field := ⟨16, 4⟩

def bodyEnd : Nat := 20

end Versel

namespace Auth

def authType : Field := ⟨16, 4⟩

def bodyEnd : Nat := 20

end Auth

namespace AuthChallenge

def authType : Field := ⟨16, 4⟩

def challengeSize : Field := ⟨20, 4⟩

def keyIdSize : Field := ⟨24, 4⟩

def payload : Nat := 28

end AuthChallenge

namespace Reply

def opcode : Field := ⟨16, 4⟩

def error : Field := ⟨20, 4⟩

def bodyEnd : Nat := 24

end Reply

namespace Close

def bodyEnd : Nat := 16

end Close

namespace Registration

def uid : Field := ⟨16, 4⟩

def ruleId : Field := ⟨20, 4⟩

def subsystem : Field := ⟨24, 4⟩

def labelSize : Field := ⟨28, 4⟩

def payload : Nat := 32

end Registration

namespace Event

def pid : Field := ⟨16, 4⟩

def uid : Field := ⟨20, 4⟩

def ruleId : Field := ⟨24, 4⟩

def subsystem : Field := ⟨28, 4⟩

def priority : Field := ⟨32, 4⟩

def checksumStart : Field := ⟨36, 4⟩

def checksumSize : Field := ⟨40, 4⟩

def pathStart : Field := ⟨44, 4⟩

def pathSize : Field := ⟨48, 4⟩

def detailStart : Field := ⟨52, 4⟩

def detailSize : Field := ⟨56, 4⟩

def payload : Nat := 60

end Event

namespace Answer

def verdict : Field := ⟨16, 4⟩

def delegate : Field := ⟨20, 4⟩

def bodyEnd : Nat := 24

end Answer

namespace Outcome

def uid : Field := ⟨16, 4⟩

def verdict : Field := ⟨20, 4⟩

def bodyEnd : Nat := 24

end Outcome

namespace Status

def key : Field := ⟨16, 4⟩

def value : Field := ⟨20, 4⟩

def bodyEnd : Nat := 24

end Status

namespace CsumRequest

def operation : Field := ⟨16, 4⟩

def uid : Field := ⟨20, 4⟩

def keyIdSize : Field := ⟨24, 4⟩

def pathSize : Field := ⟨28, 4⟩

def payload : Nat := 32

end CsumRequest

namespace StringList

def flags : Field := ⟨16, 4⟩

def payload : Nat := 20

end StringList

namespace CsumMultiRequest

def operation : Field := ⟨16, 4⟩

def uid : Field := ⟨20, 4⟩

def keyIdSize : Field := ⟨24, 4⟩

def count : Field := ⟨28, 4⟩

def payload : Nat := 32

end CsumMultiRequest

/-! Fields of a request record, relative to its start. -/
namespace RequestRecord

def size : Field := ⟨0, 4⟩

def index : Field := ⟨4, 4⟩

def checksumSize : Field := ⟨8, 4⟩

def pathSize : Field := ⟨12, 4⟩

def payload : Nat := 16

end RequestRecord

namespace CsumMultiReply

def operation : Field := ⟨16, 4⟩

def error : Field := ⟨20, 4⟩

def count : Field := ⟨24, 4⟩

def payload : Nat := 28

end CsumMultiReply

/-! Fields of a reply record, relative to its start. -/
namespace ReplyRecord

def size : Field := ⟨0, 4⟩

def index : Field := ⟨4, 4⟩

def error : Field := ⟨8, 4⟩

def checksumSize : Field := ⟨12, 4⟩

def payload : Nat := 16

end ReplyRecord

end Arbiter.Layout
