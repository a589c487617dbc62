/-!
Result codes of replies: zero for success, a negative number for each kind of refusal.
-/

namespace Arbiter.Errno

def ok : Int32 := 0

def notPermitted : Int32 := -1

def noEntry : Int32 := -2

def outOfMemory : Int32 := -12

def busy : Int32 := -16

def alreadyExists : Int32 := -17

def invalidArgument : Int32 := -22

def brokenPipe : Int32 := -32

def protocolError : Int32 := -71

end Arbiter.Errno
