/-!
# Scopes

A scope binds names to things. Binding a name again replaces what it was bound to.
-/

namespace Sexpr

/-- Things by name; no name is bound twice. -/
structure Scope (α : Type) where
  bindings : List (String × α)

namespace Scope

variable {α : Type}

/-- The scope without bindings. -/
def empty : Scope α := ⟨[]⟩

/-- What a name is bound to. -/
def find? (scope : Scope α) (name : String) : Option α := scope.bindings.lookup name

/-- The scope without a name. -/
def erase (scope : Scope α) (name : String) : Scope α :=
  ⟨scope.bindings.filter fun binding => binding.1 != name⟩

/-- The scope with a name bound to `a`. -/
def put (scope : Scope α) (name : String) (a : α) : Scope α :=
  ⟨(name, a) :: (scope.erase name).bindings⟩

/-- All things that are bound. -/
def values (scope : Scope α) : List α := scope.bindings.map Prod.snd

end Scope

end Sexpr
