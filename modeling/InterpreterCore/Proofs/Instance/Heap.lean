import InterpreterCore.Activation.Storage
import InterpreterCore.Instance.Heap

namespace InterpreterCore.Heap

theorem size_allocate (heap : Heap) (className : String) :
    (heap.allocate className).2.instances.size = heap.instances.size + 1 :=
  Array.size_push _

theorem size_setField (heap : Heap) (o : Instance) (name : String) (value : Value) :
    (heap.setField o name value).instances.size = heap.instances.size :=
  Array.size_modify ..

/-- A new instance is made without fields, and all others keep theirs. -/
theorem field?_allocate (heap : Heap) (className : String) (o : Instance) (name : String) :
    (heap.allocate className).2.field? o name = heap.field? o name := by
  simp only [field?, allocate, Array.getElem?_push]
  split
  · rename_i hnew
    rw [hnew, Array.getElem?_eq_none (Nat.le_refl _)]
    rfl
  · rfl

/-- What is stored in a field of an instance is there under every handle to it. All other fields, of
    this and of other instances, are as before. -/
theorem field?_setField (heap : Heap) {o : Instance} (ho : o.id < heap.instances.size)
    (name : String) (value : Value) (other : Instance) (field : String) :
    (heap.setField o name value).field? other field =
      if o.same other = true ∧ name = field then some value else heap.field? other field := by
  simp only [field?, setField, Array.getElem?_modify, Instance.same, beq_iff_eq]
  by_cases hsame : o.id = other.id
  · rw [if_pos hsame, ← hsame, Array.getElem?_eq_getElem ho]
    simp only [Option.map_some, Option.bind_some, List.lookup_cons, true_and]
    by_cases hname : name = field
    · rw [if_pos hname, beq_iff_eq.mpr hname.symm]
    · rw [if_neg hname, beq_false_of_ne (Ne.symm hname), Activation.lookup_filter_ne,
        if_neg (Ne.symm hname)]
  · rw [if_neg hsame, if_neg fun hstored => hsame hstored.1]

end InterpreterCore.Heap
