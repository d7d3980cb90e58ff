/-!
The phases of compiling and calling.

Each phase is announced before it begins and after it ends. A recorder that is
told these events knows which phases were completed: an end counts only if the
phase had begun.
-/

namespace ArrayScript

/-- The phases, in the order in which they follow each other. -/
inductive Phase where
  /-- from a program to a module -/
  | compilation
  /-- arguments go into the memory of a fresh instance -/
  | importing
  /-- the function runs -/
  | execution
  /-- output arguments come back -/
  | exporting
  deriving DecidableEq, Inhabited, Repr

/-- All phases in order. -/
def Phase.all : List Phase := [compilation, importing, execution, exporting]

/-- The name of a phase. -/
def Phase.name : Phase → String
  | compilation => "compilation"
  | importing => "import"
  | execution => "execution"
  | exporting => "export"

/-- What is announced about a phase. -/
inductive PhaseEvent where
  | before (phase : Phase)
  | after (phase : Phase)
  deriving DecidableEq, Inhabited, Repr

namespace PhaseEvent

/-- The name of an event. -/
def name : PhaseEvent → String
  | before phase => "before_" ++ phase.name
  | after phase => "after_" ++ phase.name

/-- All events. -/
def all : List PhaseEvent :=
  Phase.all.map before ++ Phase.all.map after

/-- The event of a name. -/
def ofName? (name : String) : Option PhaseEvent :=
  all.find? (·.name = name)

/-- The events around a completed phase. -/
def around (phase : Phase) : List PhaseEvent :=
  [before phase, after phase]

end PhaseEvent

/-- What a recorder knows: the phases that have begun and not ended, and those that
were completed. -/
structure PhaseRecorder where
  begun : Phase → Bool
  completed : Phase → Bool

namespace PhaseRecorder

/-- A recorder that knows of no phase. -/
def fresh : PhaseRecorder := ⟨fun _ => false, fun _ => false⟩

/-- The recorder after an event. -/
def observe (r : PhaseRecorder) : PhaseEvent → PhaseRecorder
  | .before phase => { r with begun := fun p => p = phase || r.begun p }
  | .after phase =>
    { begun := fun p => p ≠ phase && r.begun p
      completed := fun p => (p = phase && r.begun p) || r.completed p }

/-- The recorder after events in order. -/
def observeAll (r : PhaseRecorder) (events : List PhaseEvent) : PhaseRecorder :=
  events.foldl observe r

/-- The completed phases in order. -/
def phases (r : PhaseRecorder) : List Phase :=
  Phase.all.filter r.completed

end PhaseRecorder

end ArrayScript
