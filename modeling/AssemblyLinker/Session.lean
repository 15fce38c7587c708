import AssemblyLinker.Assembly.Declaration
import AssemblyLinker.LoadContext
import AssemblyLinker.Registry
import AssemblyLinker.Uid

/-! # Linking sessions

    A session holds the assemblies created so far, the registry, the context, and the
    number of uids drawn. A load changes it by events alone, and the session remembers
    them: its history, replayed on the session at the start, gives the session at the end,
    and each part of the history gives a state that the load has passed through.
-/

namespace AssemblyLinker

/-- Where the text of a reference has been found. -/
inductive TextSource where
  | bootstrap
  | bundle
  | library (path : String)
  deriving DecidableEq, Repr

/-- A change of a session, or a call whose count matters. -/
inductive Event where
  /-- The next uid of the stream has been drawn. -/
  | uidDrawn
  /-- An assembly has been created and registered. -/
  | created (assembly : Assembly)
  | payloadBundled (name text : String)
  | bundleCleared
  | referenceAdded (h : Handle) (name : String)
  /-- The text of a reference has been found. -/
  | textLocated (h : Handle) (name : String) (source : TextSource) (text : String)
  | dependencyAdded (h dependency : Handle)
  /-- The declaring pass has been called on a module; these are the modules afterwards. -/
  | declareCalled (h : Handle) (modules : List ModuleInfo)
  /-- The defining pass has been called on a module; these are the modules afterwards. -/
  | defineCalled (h : Handle) (modules : List ModuleInfo)
  /-- An assembly has been linked. -/
  | completed (h : Handle)
  /-- An assembly could not be linked and leaves the registry. -/
  | abandoned (h : Handle)
  deriving DecidableEq, Repr

/-- The state of a series of loads. -/
structure Session where
  store : Store := []
  registry : Registry := {}
  context : LoadContext := {}
  uidsDrawn : Nat := 0
  /-- The events so far, the latest first. -/
  history : List Event := []
  deriving DecidableEq, Repr

namespace Session

/-- The session with the assembly of a handle changed. -/
def update (s : Session) (h : Handle) (f : Assembly → Assembly) : Session :=
  { s with store := s.store.update h f }

/-- What an event does to a session. -/
def apply (s : Session) : Event → Session
  | .uidDrawn => { s with uidsDrawn := s.uidsDrawn + 1 }
  | .created a =>
    { s with store := s.store.add a, registry := s.registry.register a.name a.uid s.store.length }
  | .payloadBundled name text => { s with context := s.context.bundle name text }
  | .bundleCleared => { s with context := s.context.clearBundle }
  | .referenceAdded h name => s.update h (·.addReference name)
  | .textLocated .. => s
  | .dependencyAdded h dependency => s.update h (·.addDependency dependency)
  | .declareCalled h modules => s.update h ({ · with modules })
  | .defineCalled h modules => s.update h ({ · with modules })
  | .completed h => s.update h ({ · with state := .linked })
  | .abandoned h =>
    match s.store.get? h with
    | some a => { s with registry := s.registry.unregister a.name a.uid }
    | none => s

/-- The session after an event, which it remembers. -/
def record (s : Session) (e : Event) : Session :=
  { s.apply e with history := e :: s.history }

/-- The session after a list of events, the earliest first. -/
def replay (s : Session) (events : List Event) : Session := events.foldl record s

/-! ## Views -/

/-- Is the assembly of a handle still being linked? -/
def isLinking (s : Session) (h : Handle) : Bool :=
  (s.store.get? h).any (·.state = .linking)

/-- Is an event a call of the declaring pass? -/
def isDeclareCall : Event → Bool
  | .declareCalled .. => true
  | _ => false

/-- Is an event a call of the defining pass? -/
def isDefineCall : Event → Bool
  | .defineCalled .. => true
  | _ => false

/-- The number of calls of the declaring pass. -/
def declareCalls (s : Session) : Nat := s.history.countP isDeclareCall

/-- The number of calls of the defining pass. -/
def defineCalls (s : Session) : Nat := s.history.countP isDefineCall

/-- The registered assemblies, in order. -/
def registered (s : Session) : List Assembly := s.registry.handles.filterMap s.store.get?

/-! ## Declaring and defining in a session -/

/-- Declares a module in the assembly of a handle. -/
def declare (s : Session) (h : Handle) (j : Json) : Except LinkError Unit × Session :=
  match s.store.get? h with
  | none => (.ok (), s)
  | some a =>
    match ModuleDocument.declare j a with
    | .ok declared => (.ok (), s.record (.declareCalled h declared.modules))
    | .error r => (.error (r.toError a.name), s.record (.declareCalled h a.modules))

/-- Defines a module of the assembly of a handle. -/
def define (s : Session) (h : Handle) (j : Json) : Except LinkError Unit × Session :=
  match s.store.get? h with
  | none => (.ok (), s)
  | some a =>
    let (defined, result) := ModuleDocument.define s.store j a
    (result.mapError (·.toError a.name), s.record (.defineCalled h defined.modules))

end Session

end AssemblyLinker
