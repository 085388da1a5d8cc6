namespace Zmtp

/-- What the owner of a connection can observe of its life. -/
inductive Event where
  | established (endpoint : String) (revision : Nat)
  | disconnected (endpoint : String) (reason : String)
  deriving DecidableEq

namespace Event

def describe : Event → String
  | established endpoint revision =>
    "Handshake succeeded with " ++ endpoint ++ " (revision " ++ toString revision ++ ")"
  | disconnected endpoint reason => "Disconnected from " ++ endpoint ++ ": " ++ reason

end Event

end Zmtp
