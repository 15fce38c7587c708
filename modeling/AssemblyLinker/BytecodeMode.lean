/-! # Bytecode modes

    The execution strategy that a piece of bytecode was made for. A document states it by
    its `jit` flag.
-/

namespace AssemblyLinker

/-- The execution strategy of a piece of bytecode. -/
inductive BytecodeMode where
  | jit
  | interpreted
  deriving DecidableEq, Repr

namespace BytecodeMode

/-- The mode of this build. -/
def native : BytecodeMode := .interpreted

/-- The mode stated by a `jit` flag. -/
def ofJitFlag (jit : Bool) : BytecodeMode := if jit then .jit else .interpreted

/-- The `jit` flag of a mode. -/
def isJit : BytecodeMode → Bool
  | .jit => true
  | .interpreted => false

/-- The mode as it is called in messages. -/
def label : BytecodeMode → String
  | .jit => "JIT"
  | .interpreted => "interprété"

/-- The mode as it is called in data. -/
def word : BytecodeMode → String
  | .jit => "jit"
  | .interpreted => "interpreted"

@[simp] theorem ofJitFlag_isJit (m : BytecodeMode) : ofJitFlag m.isJit = m := by
  cases m <;> rfl

@[simp] theorem isJit_ofJitFlag (jit : Bool) : (ofJitFlag jit).isJit = jit := by
  cases jit <;> rfl

end BytecodeMode

end AssemblyLinker
