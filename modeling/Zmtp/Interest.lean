namespace Zmtp

/-- Which events of a stream its owner waits for. -/
structure Interest where
  registered : Bool := false
  readable : Bool := false
  writable : Bool := false
  deriving DecidableEq

namespace Interest

def empty : Interest := {}

def register (i : Interest) : Interest := { i with registered := true }

/-- Waits for nothing any more. -/
def deregister (_ : Interest) : Interest := empty

def setIn (i : Interest) : Interest := { i with readable := true }

def resetIn (i : Interest) : Interest := { i with readable := false }

def setOut (i : Interest) : Interest := { i with writable := true }

def resetOut (i : Interest) : Interest := { i with writable := false }

def wantsRead (i : Interest) : Bool := i.registered && i.readable

def wantsWrite (i : Interest) : Bool := i.registered && i.writable

end Interest

end Zmtp
