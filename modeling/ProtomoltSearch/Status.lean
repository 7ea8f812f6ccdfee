import Mathlib

/-!
# Refusals

The status a call is refused with: a gRPC code and a message. Messages quote names the way the
source's debug format does.
-/

namespace ProtomoltSearch

/-- The gRPC codes the modelled calls answer with. -/
inductive Code where
  | invalidArgument
  | failedPrecondition
  | internal
  | dataLoss
  | resourceExhausted
  | unavailable
  | notFound
  | alreadyExists
  | permissionDenied
  | aborted
  | outOfRange
  | unauthenticated
  deriving DecidableEq, Repr

/-- A refusal. -/
structure Status where
  code : Code
  message : String
  deriving DecidableEq, Repr

namespace Status

variable (message : String)

def invalidArgument : Status := ⟨.invalidArgument, message⟩

def failedPrecondition : Status := ⟨.failedPrecondition, message⟩

def internal : Status := ⟨.internal, message⟩

def dataLoss : Status := ⟨.dataLoss, message⟩

def resourceExhausted : Status := ⟨.resourceExhausted, message⟩

def notFound : Status := ⟨.notFound, message⟩

def alreadyExists : Status := ⟨.alreadyExists, message⟩

def permissionDenied : Status := ⟨.permissionDenied, message⟩

def aborted : Status := ⟨.aborted, message⟩

def outOfRange : Status := ⟨.outOfRange, message⟩

def unavailable : Status := ⟨.unavailable, message⟩

def unauthenticated : Status := ⟨.unauthenticated, message⟩

end Status

/-- The escape of a character in the debug format of a string. Of those that are not printable only
the controls of ASCII are told apart. -/
def debugChar : Char → String
  | '\x00' => "\\0"
  | '"' => "\\\""
  | '\\' => "\\\\"
  | '\n' => "\\n"
  | '\r' => "\\r"
  | '\t' => "\\t"
  | c =>
    if c.toNat < 32 ∨ c.toNat = 127 then
      "\\u\x7b" ++ String.ofList (Nat.toDigits 16 c.toNat) ++ "\x7d"
    else c.toString

def debug (s : String) : String := "\"" ++ String.join (s.toList.map debugChar) ++ "\""

end ProtomoltSearch
