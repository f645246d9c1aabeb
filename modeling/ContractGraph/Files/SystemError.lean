import ContractGraph.Text.Quoted

/-!
# System errors

A failure of a file operation has the number and the description that the operating system gives
it. Those that are named here are the ones that the program tells apart or meets of its own; a
failure that is given from outside may be any other.
-/

namespace ContractGraph

set_option autoImplicit false

structure SystemError where
  number : Nat
  description : String
  deriving DecidableEq

namespace SystemError

def notFound : SystemError := ⟨2, "No such file or directory"⟩

def accessDenied : SystemError := ⟨13, "Permission denied"⟩

def alreadyThere : SystemError := ⟨17, "File exists"⟩

def notFolder : SystemError := ⟨20, "Not a directory"⟩

def isFolder : SystemError := ⟨21, "Is a directory"⟩

def noSpace : SystemError := ⟨28, "No space left on device"⟩

def nameTooLong : SystemError := ⟨36, "File name too long"⟩

/-- The message about a path. -/
def message (e : SystemError) (path : String) : String :=
  s!"[Errno {e.number}] {e.description}: {Text.quoted path}"

end SystemError

end ContractGraph
