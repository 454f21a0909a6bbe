import SqlSelect.Dialect
import SqlSelect.Value

/-!
# Bound parameters

The values bound so far, in the order in which their placeholders were given
out. The number in a placeholder is the count of values once its own is bound.
-/

namespace SqlSelect

structure Params where
  placeholder : Placeholder := default
  values : Array Value := #[]
deriving DecidableEq, Repr

namespace Params

def empty (placeholder : Placeholder) : Params where
  placeholder := placeholder

instance : Inhabited Params := ⟨empty default⟩

def size (params : Params) : Nat :=
  params.values.size

def isEmpty (params : Params) : Bool :=
  params.values.isEmpty

def push (params : Params) (value : Value) : Params :=
  { params with values := params.values.push value.normalize }

/-- Binds a value; the result is the placeholder that stands for it. -/
def bind (params : Params) (value : Value) : String × Params :=
  let bound := params.push value
  (bound.placeholder.token bound.size, bound)

@[simp] theorem placeholder_push (params : Params) (value : Value) :
    (params.push value).placeholder = params.placeholder :=
  rfl

@[simp] theorem values_push (params : Params) (value : Value) :
    (params.push value).values = params.values.push value.normalize :=
  rfl

@[simp] theorem size_push (params : Params) (value : Value) :
    (params.push value).size = params.size + 1 := by
  simp [size]

@[simp] theorem bind_fst (params : Params) (value : Value) :
    (params.bind value).1 = params.placeholder.token (params.size + 1) := by
  simp [bind]

@[simp] theorem bind_snd (params : Params) (value : Value) :
    (params.bind value).2 = params.push value :=
  rfl

end Params

end SqlSelect
