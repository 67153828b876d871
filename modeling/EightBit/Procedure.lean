/-
# EightBit.Procedure -- work on a state in place

A procedure works on a state in place and gives a value, unless a fault stops it.  A fault undoes
nothing: the state stays as the procedure had left it by then.  So whether a procedure that faults
leaves its state alone is a matter of the order in which it checks and changes things.

A procedure on a part of a state is one on the whole (`Procedure.within`).
-/
import EightBit.Fault

namespace EightBit

set_option autoImplicit false

/-- Work on a state of type `S` that gives an `α`. -/
abbrev Procedure (S α : Type) : Type := EStateM Fault S α

namespace Procedure

variable {S T α β : Type}

/-- A value found without a look at the state, or the fault of not finding it. -/
def orFault : Except Fault α → Procedure S α
  | .ok a => pure a
  | .error fault => throw fault

/-- Work on the part of the state that `view` shows and `put` puts back. -/
def within (view : S → T) (put : T → S → S) (proc : Procedure T α) : Procedure S α := fun s =>
  match proc (view s) with
  | .ok a t => .ok a (put t s)
  | .error fault t => .error fault (put t s)

/-! ## How procedures go on -/

@[simp] theorem pure_apply (a : α) (s : S) : (pure a : Procedure S α) s = .ok a s := rfl

@[simp] theorem throw_apply (fault : Fault) (s : S) :
    (throw fault : Procedure S α) s = .error fault s := rfl

@[simp] theorem get_apply (s : S) : (get : Procedure S S) s = .ok s s := rfl

@[simp] theorem modify_apply (f : S → S) (s : S) :
    (modify f : Procedure S PUnit) s = .ok ⟨⟩ (f s) := rfl

@[simp] theorem orFault_ok (a : α) (s : S) : (orFault (.ok a) : Procedure S α) s = .ok a s := rfl

@[simp] theorem orFault_error (fault : Fault) (s : S) :
    (orFault (.error fault) : Procedure S α) s = .error fault s := rfl

@[simp] theorem bind_apply (proc : Procedure S α) (next : α → Procedure S β) (s : S) :
    (proc >>= next) s = match proc s with
      | .ok a s => next a s
      | .error fault s => .error fault s := by
  cases h : proc s <;> simp only [bind, EStateM.bind, h]

@[simp] theorem map_apply (f : α → β) (proc : Procedure S α) (s : S) :
    (f <$> proc) s = match proc s with
      | .ok a s => .ok (f a) s
      | .error fault s => .error fault s := by
  cases h : proc s <;> simp only [Functor.map, EStateM.map, h]

end Procedure

end EightBit
