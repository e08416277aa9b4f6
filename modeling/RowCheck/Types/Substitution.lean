import RowCheck.Types.Ty

/-!
Substitutions. Variables are numbered from zero in the order in which they are made, and each is
unbound or bound to a type or a row that may mention further variables. Following a chain of
variables shortens it, which changes how a substitution is stored and not what it stands for.
-/
namespace RowCheck

structure Substitution where
  types : Array (Option Ty)
  rows : Array (Option Row)
  deriving DecidableEq, Repr, Inhabited

namespace Substitution

def empty : Substitution := ⟨#[], #[]⟩

/-- What a type variable is bound to. -/
def type? (s : Substitution) (v : TyVar) : Option Ty := (s.types[v]?).join

/-- What a row variable is bound to. -/
def row? (s : Substitution) (v : RowVar) : Option Row := (s.rows[v]?).join

/-- A new type variable: the one with the least number not used yet. -/
def freshType (s : Substitution) : TyVar × Substitution :=
  (s.types.size, { s with types := s.types.push none })

def freshRow (s : Substitution) : RowVar × Substitution :=
  (s.rows.size, { s with rows := s.rows.push none })

/-- An array with place for index `i`, where new places are empty. -/
def reach {α : Type} (a : Array (Option α)) (i : Nat) : Array (Option α) :=
  a ++ Array.replicate (i + 1 - a.size) none

theorem lt_size_reach {α : Type} (a : Array (Option α)) (i : Nat) : i < (reach a i).size := by
  simp only [reach, Array.size_append, Array.size_replicate]
  omega

def bindType (s : Substitution) (v : TyVar) (t : Ty) : Substitution :=
  { s with types := (reach s.types v).set v (some t) (lt_size_reach _ _) }

def bindRow (s : Substitution) (v : RowVar) (r : Row) : Substitution :=
  { s with rows := (reach s.rows v).set v (some r) (lt_size_reach _ _) }

/-- Follow a chain of variables: the bound variables on it, and what the chain ends in. A chain
without a cycle is no longer than there are variables. -/
def chain (s : Substitution) : Nat → TyVar → List TyVar × Ty
  | 0, v => ([], .var v)
  | n + 1, v =>
    match s.type? v with
    | none => ([], .var v)
    | some (.var w) =>
      let (vs, t) := chain s n w
      (v :: vs, t)
    | some t => ([v], t)

/-- The head of a type: an unbound variable, or a type that is no variable. All variables of the
chain to it are bound to it afterwards. -/
def find (s : Substitution) (t : Ty) : Ty × Substitution :=
  match t with
  | .var v =>
    let (vs, u) := s.chain (s.types.size + 1) v
    (u, vs.foldl (fun s w => s.bindType w u) s)
  | t => (t, s)

/-- The labels a row gathers along its tail, and the unbound variable it ends in, if any. -/
def gather (s : Substitution) : Nat → Row → Row
  | 0, r => r
  | n + 1, r =>
    match r.tail with
    | none => r
    | some v =>
      match s.row? v with
      | none => r
      | some bound => gather s n ⟨r.labels.union bound.labels, bound.tail⟩

def findRow (s : Substitution) (r : Row) : Row :=
  s.gather (s.rows.size + 1) r

/-- What a variable stands for when at most `n` variables are replaced one within the other. -/
def resolve (s : Substitution) : Nat → TyVar → Ty
  | 0, v => .var v
  | n + 1, v =>
    match s.type? v with
    | none => .var v
    | some t => t.mapVars (resolve s n) s.findRow

/-- Replace all bound variables of a type. Without cycles, no variable lies within itself, so their
number bounds the depth. -/
def apply (s : Substitution) (t : Ty) : Ty :=
  t.mapVars (s.resolve (s.types.size + 1)) s.findRow

end Substitution

end RowCheck
