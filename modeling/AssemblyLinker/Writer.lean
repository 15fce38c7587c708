import AssemblyLinker.Assembly.ModuleDocument
import AssemblyLinker.Assembly.Basic
import AssemblyLinker.Document
import AssemblyLinker.FileSystem.Basic

/-! # Writing assemblies

    An assembly is written as a document in canonical form, so equal assemblies give equal
    texts. The mode is the writer's. The flag of an executable and the payloads are never
    written: an executable is made by bundling, and what is written here loads again as a
    library.
-/

namespace AssemblyLinker

namespace Assembly

/-- The document of an assembly. -/
def toDocument (mode : BytecodeMode) (a : Assembly) : Document :=
  { name := a.name, version := a.version, uid := a.uid, loomConfig := a.loomConfig,
    jit := mode.isJit, debugBuild := some a.debugBuild, executable := false,
    references := a.references.map fun name => { name },
    modules := a.modules.map ModuleInfo.toJson }

/-- The text of an assembly. -/
def render (mode : BytecodeMode) (a : Assembly) : String := (a.toDocument mode).render

end Assembly

/-! ## Destinations -/

/-- A destination that takes a number of bytes and may fail to keep them. -/
structure Sink where
  /-- The number of bytes that it takes, if there is a limit. -/
  room : Option Nat := none
  flushFails : Bool := false
  deriving DecidableEq, Repr

/-- Does a destination keep a number of bytes? -/
def Sink.keeps (sink : Sink) (bytes : Nat) : Bool :=
  sink.room.all (bytes ≤ ·) && ¬ sink.flushFails

/-- Writes an assembly to a destination; yields the number of bytes written. -/
def writeTo (mode : BytecodeMode) (a : Assembly) (sink : Sink) (destination : String) :
    Except LinkError Nat :=
  let bytes := (a.render mode).utf8ByteSize
  if sink.keeps bytes then .ok bytes else .error (.write destination .noSpace)

/-- Writes an assembly to a file. -/
def writeToFile (mode : BytecodeMode) (a : Assembly) (files : FileSystem) (path : String) :
    Except LinkError FileSystem :=
  (files.write path (Utf8.encode (a.render mode))).mapError (.write path)

end AssemblyLinker
