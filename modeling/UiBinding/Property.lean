import UiBinding.Native.Display
import UiBinding.Settings

namespace UiBinding

/-- A stored value, or a binding of type `β` that produces one on each read. A binding
hides the stored value and does not discard it. -/
structure Property (β : Type) where
  stored : Native
  binding : Option β
  animation : Option Animation

namespace Property

variable {β : Type}

def start (n : Native) : Property β := ⟨n, none, none⟩

def isBound (p : Property β) : Bool := p.binding.isSome

def set (_ : Property β) (n : Native) (animation : Option Animation) : Property β :=
  ⟨n, none, animation⟩

def bind (p : Property β) (b : β) (animation : Option Animation) : Property β :=
  ⟨p.stored, some b, animation⟩

def get {m : Type → Type} [Monad m] (run : β → m Native) (p : Property β) : m Native :=
  match p.binding with
  | some b => run b
  | none => pure p.stored

def display (p : Property β) : String :=
  if p.isBound then "Property(<binding>)" else "Property(" ++ p.stored.display ++ ")"

end Property

structure Signal (η : Type) where
  handlers : List η

namespace Signal

variable {η : Type}

def start : Signal η := ⟨[]⟩

def connect (s : Signal η) (h : η) : Signal η := ⟨s.handlers ++ [h]⟩

/-- Runs the handlers that are connected now. What they connect waits for the next emission. -/
def emit {m : Type → Type} [Monad m] (run : η → m Unit) (s : Signal η) : m Unit :=
  s.handlers.forM run

def display (s : Signal η) : String :=
  "Signal(" ++ toString s.handlers.length ++ " handler(s))"

end Signal

inductive Slot (β η : Type)
  | unset
  | property (p : Property β)
  | signal (s : Signal η)

namespace Slot

variable {β η : Type}

def typeName : Slot β η → String
  | unset => "NoneType"
  | property _ => "Property"
  | signal _ => "Signal"

end Slot

end UiBinding
