import Btos.Lib.Word

/-!
# Kernel atoms

`kernel/atoms.cpp`: an atom is one 64-bit value behind a lock, so each of `Modify`, `Read` and
`CompareExchange` is one atomic step.  **`CompareExchange` returns the value after the attempt**,
whether or not it exchanged; a caller cannot tell from it alone who stored that value.

`Wait` is the check that the scheduler makes; handles to wait on are left out.
-/

namespace Btos.Kernel.Atoms

open Lib.Word

structure Atom where
  value : ℕ
  value_lt : value < 2 ^ 64

def newAtom (v : ℕ) : Atom := ⟨v % 2 ^ 64, Nat.mod_lt _ (by decide)⟩

/-- `bt_atom_modify`. -/
inductive AtomModify where
  | set | add | subtract | or | and
  deriving DecidableEq, Repr

/-- `bt_atom_compare`. -/
inductive AtomCompare where
  | equal | notEqual | lessThan | greaterThan
  deriving DecidableEq, Repr

/-- `Atom::Modify`: the new atom; its value is what is returned. -/
def Atom.modify (a : Atom) (mod : AtomModify) (v : ℕ) : Atom :=
  match mod with
  | .set => newAtom v
  | .add => newAtom (add64 a.value v)
  | .subtract => newAtom (sub64 a.value v)
  | .or => newAtom (a.value ||| v)
  | .and => newAtom (a.value &&& v)

/-- `Atom::CompareExchange`: the new atom; its value is what is returned. -/
def Atom.compareExchange (a : Atom) (cmp xchg : ℕ) : Atom :=
  if a.value = cmp then newAtom xchg else a

/-- The test on which `Atom::Wait` blocks. -/
def Atom.waitBlockCheck (a : Atom) (cmp : AtomCompare) (v : ℕ) : Bool :=
  match cmp with
  | .equal => a.value == v
  | .notEqual => a.value != v
  | .lessThan => a.value < v
  | .greaterThan => v < a.value

theorem newAtom_value (h : v < 2 ^ 64) : (newAtom v).value = v := Nat.mod_eq_of_lt h

theorem modify_add_value (a : Atom) (v : ℕ) : (a.modify .add v).value = add64 a.value v :=
  newAtom_value (add64_lt _ _)

theorem modify_subtract_value (a : Atom) (v : ℕ) : (a.modify .subtract v).value = sub64 a.value v :=
  newAtom_value (sub64_lt _ _)

theorem compareExchange_hit {a : Atom} {cmp xchg : ℕ} (h : a.value = cmp) (hx : xchg < 2 ^ 64) :
    (a.compareExchange cmp xchg).value = xchg := by
  rw [Atom.compareExchange, if_pos h, newAtom_value hx]

theorem compareExchange_miss {a : Atom} {cmp xchg : ℕ} (h : a.value ≠ cmp) :
    a.compareExchange cmp xchg = a := by
  rw [Atom.compareExchange, if_neg h]

end Btos.Kernel.Atoms
