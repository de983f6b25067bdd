import StreamSql.Expr

namespace StreamSql.Expr

def children : Expr → List Expr
  | .constant _ | .captured _ _ | .parameter _ => []
  | .member target _ _ => [target]
  | .binary _ left right => [left, right]
  | .unary _ operand => [operand]
  | .call target _ args => target.toList ++ args
  | .new _ members => members.map Prod.snd
  | .array items => items
  | .map entries => entries.flatMap fun e => [e.1, e.2]
  | .lambda _ body => [body]

theorem sizeOf_children {e d : Expr} (h : d ∈ e.children) : sizeOf d < sizeOf e := by
  cases e with
  | constant | captured | parameter => cases h
  | member target name rename =>
    obtain rfl := List.mem_singleton.1 h
    simp only [member.sizeOf_spec]
    omega
  | binary op left right =>
    obtain rfl | rfl : d = left ∨ d = right := by simpa [children] using h
    all_goals
      simp only [binary.sizeOf_spec]
      omega
  | unary op operand =>
    obtain rfl := List.mem_singleton.1 h
    simp only [unary.sizeOf_spec]
    omega
  | call target method args =>
    simp only [call.sizeOf_spec]
    rcases List.mem_append.1 h with mem | mem
    · obtain rfl := Option.mem_toList.1 mem
      simp only [Option.some.sizeOf_spec]
      omega
    · have arg := List.sizeOf_lt_of_mem mem
      omega
  | new typeName members =>
    obtain ⟨⟨name, e⟩, mem, rfl⟩ := List.mem_map.1 h
    have less := List.sizeOf_lt_of_mem mem
    simp only [Prod.mk.sizeOf_spec] at less
    simp only [new.sizeOf_spec]
    omega
  | array items =>
    have less : sizeOf d < sizeOf items := List.sizeOf_lt_of_mem h
    simp only [array.sizeOf_spec]
    omega
  | map entries =>
    obtain ⟨⟨key, value⟩, mem, h⟩ := List.mem_flatMap.1 h
    have less := List.sizeOf_lt_of_mem mem
    simp only [Prod.mk.sizeOf_spec] at less
    obtain rfl | rfl : d = key ∨ d = value := by simpa using h
    all_goals
      simp only [map.sizeOf_spec]
      omega
  | lambda params body =>
    obtain rfl := List.mem_singleton.1 h
    simp only [lambda.sizeOf_spec]
    omega

@[elab_as_elim]
theorem ind_children {P : Expr → Prop} (below : ∀ e, (∀ d ∈ e.children, P d) → P e) (e : Expr) : P e :=
  below e fun d _ => ind_children below d
termination_by sizeOf e
decreasing_by exact sizeOf_children ‹_›

@[elab_as_elim]
theorem ind {P : Expr → Prop}
    (constant : ∀ v, P (.constant v))
    (parameter : ∀ p, P (.parameter p))
    (captured : ∀ name v, P (.captured name v))
    (member : ∀ target name rename, P target → P (.member target name rename))
    (binary : ∀ op left right, P left → P right → P (.binary op left right))
    (unary : ∀ op operand, P operand → P (.unary op operand))
    (call : ∀ target method args, (∀ e ∈ target, P e) → (∀ e ∈ args, P e) →
      P (.call target method args))
    (new : ∀ typeName members, (∀ m ∈ members, P m.2) → P (.new typeName members))
    (array : ∀ items, (∀ e ∈ items, P e) → P (.array items))
    (map : ∀ entries, (∀ m ∈ entries, P m.1 ∧ P m.2) → P (.map entries))
    (lambda : ∀ params body, P body → P (.lambda params body)) (e : Expr) : P e := by
  induction e using ind_children with
  | below e ih =>
    cases e with
    | constant v => exact constant v
    | parameter p => exact parameter p
    | captured name v => exact captured name v
    | member target name rename => exact member target name rename (ih target List.mem_cons_self)
    | binary op left right =>
      exact binary op left right (ih left List.mem_cons_self) (ih right (by simp [children]))
    | unary op operand => exact unary op operand (ih operand List.mem_cons_self)
    | call target method args =>
      refine call target method args (fun e mem => ih e ?_) fun e mem => ih e ?_
      · exact List.mem_append_left _ (Option.mem_toList.2 mem)
      · exact List.mem_append_right _ mem
    | new typeName members =>
      exact new typeName members fun m mem => ih m.2 (List.mem_map_of_mem mem)
    | array items => exact array items fun e mem => ih e mem
    | map entries =>
      refine map entries fun m mem => ⟨ih m.1 ?_, ih m.2 ?_⟩
      · exact List.mem_flatMap.2 ⟨m, mem, by simp⟩
      · exact List.mem_flatMap.2 ⟨m, mem, by simp⟩
    | lambda params body => exact lambda params body (ih body List.mem_cons_self)

end StreamSql.Expr
