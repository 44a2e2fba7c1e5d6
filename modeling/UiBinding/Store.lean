import UiBinding.Context

namespace UiBinding

/-- Where an expression is evaluated. -/
structure Scope where
  maxDepth : Nat
  description : Nat
  context : Context
  deriving DecidableEq

/-- What a binding produces its value from. An expression brings the hop limit and the
component of where it was bound; it is evaluated in the context of the reader. -/
inductive BindingSource
  | constant (v : Value)
  | expression (body : Expr) (maxDepth description : Nat)

structure Binding where
  source : BindingSource
  conversion : Option ItemProperty

structure Handler where
  scope : Scope
  body : Expr

abbrev Cell := Slot Binding Handler

/-- Everything that evaluation can change: the slots of all instances and the log. The
count of contexts made so far numbers the next one. -/
structure State where
  instances : List (List Cell)
  contexts : Nat
  log : List Event

namespace State

def empty : State := ⟨[], 0, []⟩

def position? (count : Nat) (index : Int) : Option Nat :=
  if 0 ≤ index then (if index < count then some index.toNat else none)
  else if 0 ≤ count + index then some (count + index).toNat else none

def slots (s : State) (number : Nat) : List Cell := s.instances[number]?.getD []

def cell? (s : State) (number : Nat) (index : Int) : Option Cell :=
  (position? (s.slots number).length index).bind fun p => (s.slots number)[p]?

def setCell (s : State) (number : Nat) (index : Int) (c : Cell) : State :=
  match position? (s.slots number).length index with
  | none => s
  | some p => { s with instances := s.instances.set number ((s.slots number).set p c) }

end State

inductive Stop
  | error (e : Error)
  | exhausted

/-- Computations over the state. What was written or logged before a stop remains. -/
abbrev Run := ExceptT Stop (StateM State)

namespace Run

variable {α : Type}

def fault (f : Fault) : Run α := throw (.error (.fault f))

def fail (e : Error) : Run α := throw (.error e)

def ofExcept : Except Error α → Run α
  | .ok a => pure a
  | .error e => fail e

def ofFault : Except Fault α → Run α
  | .ok a => pure a
  | .error f => fault f

def log (events : List Event) : Run Unit := modify fun s => { s with log := s.log ++ events }

def cell (number : Nat) (index : Int) : Run Cell := do
  match (← get).cell? number index with
  | some c => pure c
  | none => fail .noSlot

def setCell (number : Nat) (index : Int) (c : Cell) : Run Unit :=
  modify fun s => s.setCell number index c

def newInstance (types : Catalog) (description : Nat) : Run Instance := do
  let slots ← ofExcept (types.find description).allocate
  let s ← get
  set { s with instances := s.instances ++ [slots] }
  return ⟨s.instances.length, description⟩

def newContext (self : Instance) (parent : Option Context) : Run Context := do
  let s ← get
  set { s with contexts := s.contexts + 1 }
  return Context.make s.contexts self parent

def resolve (types : Catalog) (limit : Int) (element : Int) (blame : Option Expr) (c : Context) :
    Run Context := do
  let (events, found) := c.resolve types limit element blame
  log events
  ofFault found

end Run

end UiBinding
