import StreamSql.Expr

namespace StreamSql.Expr

/-- The value of a constant, a captured variable, or a chain of members and subscripts on one. -/
def value? : Expr → Option Value
  | .constant v => some v
  | .captured _ v => some v
  | .member target name _ => target.value?.bind (·.field? name)
  | .binary .index base at' => base.value?.bind fun b => at'.value?.bind fun i => b.at? i
  | _ => none

theorem isSourceIndependent_of_value? {e : Expr} {v : Value} (h : e.value? = some v) :
    e.isSourceIndependent = true := by
  fun_induction value? e generalizing v with
  | case1 | case2 => rfl
  | case3 target name rename ih =>
    obtain ⟨u, hu, _⟩ := Option.bind_eq_some_iff.1 h
    exact ih hu
  | case4 base at' ihb iha =>
    obtain ⟨b, hb, h⟩ := Option.bind_eq_some_iff.1 h
    obtain ⟨i, hi, _⟩ := Option.bind_eq_some_iff.1 h
    simp [isSourceIndependent, ihb hb, iha hi]
  | case5 => simp at h

def constantOr (folded e : Expr) : Expr :=
  match e.value? with
  | some v => .constant v
  | none => folded

mutual
def fold : Expr → Expr
  | .constant v => .constant v
  | .captured _ v => .constant v
  | .parameter p => .parameter p
  | .member target name rename =>
    constantOr (.member target.fold name rename) (.member target name rename)
  | .binary op left right => constantOr (.binary op left.fold right.fold) (.binary op left right)
  | .unary op operand => .unary op operand.fold
  | .call target method args => .call (foldTarget target) method (foldItems args)
  | .new typeName members => .new typeName (foldMembers members)
  | .array items => .array (foldItems items)
  | .map entries => .map (foldEntries entries)
  | .lambda params body => .lambda params body.fold
termination_by structural e => e
def foldTarget : Option Expr → Option Expr
  | none => none
  | some e => some e.fold
termination_by structural e => e
def foldItems : List Expr → List Expr
  | [] => []
  | e :: es => e.fold :: foldItems es
termination_by structural es => es
def foldMembers : List (String × Expr) → List (String × Expr)
  | [] => []
  | (n, e) :: ms => (n, e.fold) :: foldMembers ms
termination_by structural ms => ms
def foldEntries : List (Expr × Expr) → List (Expr × Expr)
  | [] => []
  | (k, v) :: es => (k.fold, v.fold) :: foldEntries es
termination_by structural es => es
end

end StreamSql.Expr
