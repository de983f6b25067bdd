import Mathlib.Logic.Relation
import StreamSql.Expr.Fold
import StreamSql.Proofs.Expr.Induction

namespace StreamSql.Expr

variable {e d : Expr} {v : Value}

theorem value?_constantOr {folded e : Expr} (h : folded.value? = e.value?) :
    (constantOr folded e).value? = e.value? := by
  cases hv : e.value? with
  | some v => simp [constantOr, hv, value?]
  | none => simp [constantOr, hv, h]

theorem value?_member_congr {target target' : Expr} (h : target'.value? = target.value?)
    (name : String) (rename : Option String) :
    (member target' name rename).value? = (member target name rename).value? := by
  simp only [value?, h]

theorem value?_binary_congr {left left' right right' : Expr} (op : BinaryOp)
    (hl : left'.value? = left.value?) (hr : right'.value? = right.value?) :
    (binary op left' right').value? = (binary op left right).value? := by
  cases op with
  | index => simp only [value?, hl, hr]
  | _ => rfl

@[simp] theorem value?_fold (e : Expr) : e.fold.value? = e.value? := by
  induction e using ind with
  | member target name rename ih => exact value?_constantOr (value?_member_congr ih name rename)
  | binary op left right ihl ihr => exact value?_constantOr (value?_binary_congr op ihl ihr)
  | _ => rfl

theorem constantOr_of_value? {folded e : Expr} (h : e.value? = some v) :
    constantOr folded e = .constant v := by
  simp [constantOr, h]

theorem constantOr_of_value?_eq_none {folded e : Expr} (h : e.value? = none) :
    constantOr folded e = folded := by
  simp [constantOr, h]

theorem constantOr_congr {folded e d : Expr} (h : e.value? = d.value?) :
    constantOr folded e = constantOr folded d := by
  simp only [constantOr, h]

theorem eq_of_constantOr {folded e d : Expr} (h : constantOr folded e = d)
    (other : ∀ v, d ≠ .constant v) : folded = d := by
  cases value : e.value? with
  | some v => exact (other v (h.symm.trans (constantOr_of_value? value))).elim
  | none => rwa [constantOr_of_value?_eq_none value] at h

theorem fold_of_value? {e : Expr} {v : Value} (h : e.value? = some v) : e.fold = .constant v := by
  cases e with
  | constant | captured => exact congrArg constant (Option.some.inj h)
  | member | binary => exact constantOr_of_value? h
  | _ => cases h

theorem eq_parameter_of_fold {p : String} (h : e.fold = .parameter p) : e = .parameter p := by
  cases e with
  | parameter => exact h
  | member | binary => cases eq_of_constantOr h nofun
  | _ => cases h

theorem eq_member_of_fold {target : Expr} {name : String} {rename : Option String}
    (h : e.fold = .member target name rename) :
    ∃ target', e = .member target' name rename ∧ target'.fold = target := by
  cases e with
  | member target' =>
    cases eq_of_constantOr h nofun
    exact ⟨target', rfl, rfl⟩
  | binary => cases eq_of_constantOr h nofun
  | _ => cases h

theorem fold_eq_member_iff {p name : String} {rename : Option String} :
    e.fold = .member (.parameter p) name rename ↔ e = .member (.parameter p) name rename := by
  constructor
  · intro h
    obtain ⟨target, rfl, parameter⟩ := eq_member_of_fold h
    rw [eq_parameter_of_fold parameter]
  · rintro rfl
    rfl

theorem fold_eq_member_member_iff {p name name' : String} {rename rename' : Option String} :
    e.fold = .member (.member (.parameter p) name rename) name' rename' ↔
      e = .member (.member (.parameter p) name rename) name' rename' := by
  constructor
  · intro h
    obtain ⟨target, rfl, member⟩ := eq_member_of_fold h
    rw [fold_eq_member_iff.1 member]
  · rintro rfl
    rfl

theorem eq_call_of_fold {target : Option Expr} {method : Method} {args : List Expr}
    (h : e.fold = .call target method args) : ∃ target' args', e = .call target' method args' := by
  cases e with
  | call target' method' args' =>
    cases h
    exact ⟨target', args', rfl⟩
  | member | binary => cases eq_of_constantOr h nofun
  | _ => cases h

theorem eq_call_or (e : Expr) : (∃ target method args, e = .call target method args) ∨
    ∀ target method args, e ≠ .call target method args := by
  cases e <;> simp

theorem eq_lambda_or (e : Expr) :
    (∃ params body, e = .lambda params body) ∨ ∀ params body, e ≠ .lambda params body := by
  cases e <;> simp

theorem eq_new_or (e : Expr) : (∃ typeName members, e = .new typeName members) ∨
    ∀ typeName members, e ≠ .new typeName members := by
  cases e <;> simp

theorem fold_ne_lambda (h : ∀ params body, e ≠ .lambda params body) (params : List String)
    (body : Expr) : e.fold ≠ .lambda params body := by
  intro same
  cases e with
  | lambda params' body' => exact h params' body' rfl
  | member | binary => cases eq_of_constantOr same nofun
  | _ => cases same

theorem fold_ne_new (h : ∀ typeName members, e ≠ .new typeName members) (typeName : Option String)
    (members : List (String × Expr)) : e.fold ≠ .new typeName members := by
  intro same
  cases e with
  | new typeName' members' => exact h typeName' members' rfl
  | member | binary => cases eq_of_constantOr same nofun
  | _ => cases same

theorem foldTarget_eq_map (e : Option Expr) : foldTarget e = e.map fold := by cases e <;> rfl

theorem foldItems_eq_map (es : List Expr) : foldItems es = es.map fold := by
  induction es with
  | nil => rfl
  | cons e es ih => simp [foldItems, ih]

theorem foldMembers_eq_map (ms : List (String × Expr)) :
    foldMembers ms = ms.map fun m => (m.1, m.2.fold) := by
  induction ms with
  | nil => rfl
  | cons m ms ih => simp [foldMembers, ih]

theorem foldEntries_eq_map (es : List (Expr × Expr)) :
    foldEntries es = es.map fun m => (m.1.fold, m.2.fold) := by
  induction es with
  | nil => rfl
  | cons m es ih => simp [foldEntries, ih]

theorem children_fold (h : e.value? = none) : e.fold.children = e.children.map fold := by
  cases e with
  | constant | captured => cases h
  | parameter => rfl
  | member | binary => exact congrArg children (constantOr_of_value?_eq_none h)
  | unary | lambda => rfl
  | call target method args =>
    cases target <;> simp [fold, foldTarget, foldItems_eq_map, children]
  | new typeName members => simp [fold, foldMembers_eq_map, children]
  | array items => simp [fold, foldItems_eq_map, children]
  | map entries => simp [fold, foldEntries_eq_map, children, List.map_flatMap, List.flatMap_map]

theorem fold_eq_self_of_children (h : e.value? = none) (all : ∀ d ∈ e.children, d.fold = d) :
    e.fold = e := by
  cases e with
  | constant | captured => cases h
  | parameter => rfl
  | member | binary => simp_all [fold, constantOr_of_value?_eq_none h, children]
  | unary | lambda => simp_all [fold, children]
  | call target method args =>
    obtain ⟨receiver, items⟩ := List.forall_mem_append.1 all
    rw [fold, foldItems_eq_map, List.map_congr_left items, List.map_id']
    congr 1
    cases target with
    | none => rfl
    | some e => simp [foldTarget, receiver e (by simp)]
  | new typeName members =>
    have same : ∀ m ∈ members, (m.1, m.2.fold) = m := fun m mem =>
      Prod.ext rfl (all m.2 (List.mem_map_of_mem mem))
    rw [fold, foldMembers_eq_map, List.map_congr_left same, List.map_id']
  | array items =>
    have same : ∀ e ∈ items, e.fold = e := all
    rw [fold, foldItems_eq_map, List.map_congr_left same, List.map_id']
  | map entries =>
    have same : ∀ m ∈ entries, (m.1.fold, m.2.fold) = m := fun m mem =>
      Prod.ext (all m.1 (List.mem_flatMap.2 ⟨m, mem, by simp⟩))
        (all m.2 (List.mem_flatMap.2 ⟨m, mem, by simp⟩))
    rw [fold, foldEntries_eq_map, List.map_congr_left same, List.map_id']

def HasNode : Expr → Expr → Prop := Relation.ReflTransGen fun e d => d ∈ e.children

/-- What folding takes away: captured variables, and members and items with a constant value. -/
inductive IsFoldable : Expr → Prop
  | captured {name v} : IsFoldable (.captured name v)
  | member {target name rename v} (value : value? (.member target name rename) = some v) :
    IsFoldable (.member target name rename)
  | index {base at' v} (value : value? (.binary .index base at') = some v) :
    IsFoldable (.binary .index base at')

def IsFolded (e : Expr) : Prop := ∀ d, e.HasNode d → ¬ d.IsFoldable

theorem isFolded_iff : e.IsFolded ↔ ¬ e.IsFoldable ∧ ∀ d ∈ e.children, d.IsFolded := by
  constructor
  · exact fun h => ⟨h e .refl, fun d below c node => h c (.head below node)⟩
  · rintro ⟨root, below⟩ d node
    obtain rfl | ⟨c, mem, node⟩ := node.cases_head
    · exact root
    · exact below c mem d node

theorem IsFoldable.exists_value? (h : e.IsFoldable) : ∃ v, e.value? = some v := by
  cases h with
  | captured => exact ⟨_, rfl⟩
  | member value | index value => exact ⟨_, value⟩

theorem eq_constant_of_not_isFoldable (root : ¬ e.IsFoldable) (h : e.value? = some v) :
    e = .constant v := by
  cases e with
  | constant => exact congrArg constant (Option.some.inj h)
  | captured => exact absurd .captured root
  | member => exact absurd (.member h) root
  | binary op =>
    cases op with
    | index => exact absurd (.index h) root
    | _ => cases h
  | _ => cases h

theorem isFolded_fold (e : Expr) : e.fold.IsFolded := by
  induction e using ind_children with
  | below e ih =>
    cases h : e.value? with
    | some v =>
      rw [fold_of_value? h]
      exact isFolded_iff.2 ⟨nofun, nofun⟩
    | none =>
      refine isFolded_iff.2 ⟨fun root => ?_, fun d mem => ?_⟩
      · obtain ⟨v, value⟩ := root.exists_value?
        rw [value?_fold, h] at value
        cases value
      · rw [children_fold h] at mem
        obtain ⟨c, below, rfl⟩ := List.mem_map.1 mem
        exact ih c below

theorem fold_eq_self_iff : e.fold = e ↔ e.IsFolded := by
  constructor
  · exact fun same => same ▸ isFolded_fold e
  · intro h
    induction e using ind_children with
    | below e ih =>
      obtain ⟨root, below⟩ := isFolded_iff.1 h
      cases value : e.value? with
      | some v => rw [fold_of_value? value, eq_constant_of_not_isFoldable root value]
      | none => exact fold_eq_self_of_children value fun d mem => ih d mem (below d mem)

@[simp] theorem fold_fold (e : Expr) : e.fold.fold = e.fold := fold_eq_self_iff.2 (isFolded_fold e)

theorem areItemsIndependent_iff {es : List Expr} :
    areItemsIndependent es = true ↔ ∀ e ∈ es, e.isSourceIndependent = true := by
  induction es with
  | nil => simp [areItemsIndependent]
  | cons e es ih => simp [areItemsIndependent, ih]

theorem areMembersIndependent_iff {ms : List (String × Expr)} :
    areMembersIndependent ms = true ↔ ∀ m ∈ ms, m.2.isSourceIndependent = true := by
  induction ms with
  | nil => simp [areMembersIndependent]
  | cons m ms ih => rw [areMembersIndependent, Bool.and_eq_true, ih, List.forall_mem_cons]

theorem areEntriesIndependent_iff {es : List (Expr × Expr)} :
    areEntriesIndependent es = true ↔
      ∀ m ∈ es, m.1.isSourceIndependent = true ∧ m.2.isSourceIndependent = true := by
  induction es with
  | nil => simp [areEntriesIndependent]
  | cons m es ih =>
    rw [areEntriesIndependent, Bool.and_eq_true, Bool.and_eq_true, ih, List.forall_mem_cons]

theorem isSourceIndependent_of_mem_children (h : e.isSourceIndependent = true)
    (mem : d ∈ e.children) : d.isSourceIndependent = true := by
  cases e with
  | constant | captured => cases mem
  | parameter | call | lambda => cases h
  | member | unary =>
    obtain rfl := List.mem_singleton.1 mem
    exact h
  | binary op left right =>
    obtain ⟨hl, hr⟩ := Bool.and_eq_true_iff.1 h
    obtain rfl | rfl : d = left ∨ d = right := by simpa [children] using mem
    · exact hl
    · exact hr
  | new typeName members =>
    obtain ⟨m, inside, rfl⟩ := List.mem_map.1 mem
    exact areMembersIndependent_iff.1 h m inside
  | array items => exact areItemsIndependent_iff.1 h d mem
  | map entries =>
    obtain ⟨m, inside, mem⟩ := List.mem_flatMap.1 mem
    obtain ⟨hk, hv⟩ := areEntriesIndependent_iff.1 h m inside
    obtain rfl | rfl : d = m.1 ∨ d = m.2 := by simpa using mem
    · exact hk
    · exact hv

theorem isSourceIndependent_constantOr {folded : Expr}
    (h : folded.isSourceIndependent = e.isSourceIndependent) :
    (constantOr folded e).isSourceIndependent = e.isSourceIndependent := by
  cases value : e.value? with
  | some v => rw [constantOr, value, isSourceIndependent_of_value? value, isSourceIndependent]
  | none => rw [constantOr_of_value?_eq_none value, h]

theorem isSourceIndependent_fold (e : Expr) : e.fold.isSourceIndependent = e.isSourceIndependent := by
  induction e using ind with
  | constant | parameter | captured | call | lambda => rfl
  | member target name rename ih => exact isSourceIndependent_constantOr ih
  | binary op left right ihl ihr =>
    exact isSourceIndependent_constantOr (congrArg₂ and ihl ihr)
  | unary op operand ih => exact ih
  | new typeName members ih =>
    rw [fold, isSourceIndependent, isSourceIndependent, foldMembers_eq_map, Bool.eq_iff_iff,
      areMembersIndependent_iff, areMembersIndependent_iff, List.forall_mem_map]
    exact forall₂_congr fun m mem => by rw [ih m mem]
  | array items ih =>
    rw [fold, isSourceIndependent, isSourceIndependent, foldItems_eq_map, Bool.eq_iff_iff,
      areItemsIndependent_iff, areItemsIndependent_iff, List.forall_mem_map]
    exact forall₂_congr fun e mem => by rw [ih e mem]
  | map entries ih =>
    rw [fold, isSourceIndependent, isSourceIndependent, foldEntries_eq_map, Bool.eq_iff_iff,
      areEntriesIndependent_iff, areEntriesIndependent_iff, List.forall_mem_map]
    exact forall₂_congr fun m mem => by rw [(ih m mem).1, (ih m mem).2]

/-- Folding reaches a normal form: folded again it stays, nothing in it is left to fold, and it is as
constant as the expression was. -/
theorem fold_normalForm (e : Expr) :
    e.fold.fold = e.fold ∧ (∀ d, e.fold.HasNode d → ¬ d.IsFoldable) ∧
      e.fold.isSourceIndependent = e.isSourceIndependent ∧ e.fold.value? = e.value? :=
  ⟨fold_fold e, isFolded_fold e, isSourceIndependent_fold e, value?_fold e⟩

end StreamSql.Expr
