import InterpreterCore.Value.Basic

namespace InterpreterCore

/-- The fields of each instance, by its number alone, so that handles to one instance share them. -/
structure Heap where
  instances : Array (List (String × Value)) := #[]
deriving DecidableEq

namespace Heap

/-- A new instance of a class, without fields. -/
def allocate (heap : Heap) (className : String) : Instance × Heap :=
  (⟨heap.instances.size, className⟩, ⟨heap.instances.push []⟩)

/-- The value stored under a field name. -/
def field? (heap : Heap) (o : Instance) (name : String) : Option Value :=
  heap.instances[o.id]?.bind (List.lookup name)

/-- Store a value under a field name. An earlier value of the field is gone. -/
def setField (heap : Heap) (o : Instance) (name : String) (value : Value) : Heap :=
  ⟨heap.instances.modify o.id fun fields =>
    (name, value) :: fields.filter fun field => field.1 != name⟩

end Heap

end InterpreterCore
