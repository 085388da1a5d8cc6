namespace Zmtp

/-- What kind of socket speaks. -/
inductive Role where
  | pair
  | pub
  | sub
  | req
  | rep
  | dealer
  | router
  | pull
  | push
  | xpub
  | xsub
  deriving DecidableEq

namespace Role

def all : List Role := [pair, pub, sub, req, rep, dealer, router, pull, push, xpub, xsub]

def name : Role → String
  | pair => "PAIR"
  | pub => "PUB"
  | sub => "SUB"
  | req => "REQ"
  | rep => "REP"
  | dealer => "DEALER"
  | router => "ROUTER"
  | pull => "PULL"
  | push => "PUSH"
  | xpub => "XPUB"
  | xsub => "XSUB"

/-- The byte that announces the role at the end of a greeting. -/
def byte : Role → UInt8
  | pair => 0
  | pub => 1
  | sub => 2
  | req => 3
  | rep => 4
  | dealer => 5
  | router => 6
  | pull => 7
  | push => 8
  | xpub => 9
  | xsub => 10

def ofByte? (b : UInt8) : Option Role := all.find? fun r => r.byte == b

/-- Publishers need a subscription made up for peers that do not send theirs. -/
def isPublisher : Role → Bool
  | pub | xpub => true
  | _ => false

/-- Whether two roles can talk to each other. -/
def isCompatible : Role → Role → Bool
  | pair, pair => true
  | pub, sub | pub, xsub | xpub, sub | xpub, xsub => true
  | sub, pub | sub, xpub | xsub, pub | xsub, xpub => true
  | req, rep | rep, req => true
  | req, router | router, req => true
  | dealer, rep | rep, dealer => true
  | dealer, router | router, dealer => true
  | dealer, dealer => true
  | router, router => true
  | push, pull | pull, push => true
  | _, _ => false

end Role

end Zmtp
