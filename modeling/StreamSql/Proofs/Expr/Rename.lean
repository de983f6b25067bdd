import StreamSql.Proofs.Expr.Descent
import StreamSql.Proofs.Expr.Fold

namespace StreamSql

/-- Where a place in an expression lies, seen from the lambda: inside, with the names that are the
lambda's own there, at the lambda itself, or on the way to it or aside. -/
inductive Site
  | within (ds : List String)
  | here
  | toward (path : List Nat)

namespace Site

def child : Site → Nat → Site
  | .within ds, _ => .within ds
  | .toward (i :: path), j => if i = j then .toward path else .within []
  | _, _ => .within []

def argument (method : Method) (site : Site) : Site :=
  match method, site with
  | .higherOrder _, .toward [] => .here
  | _, site => site

def body (params : List String) : Site → Site
  | .within ds => .within (ds.filter (· ∉ params))
  | .here => .within params
  | site => site.child 0

def params (ρ : String → String) (params : List String) : Site → List String
  | .here => params.map ρ
  | _ => params

def name (ρ : String → String) (p : String) : Site → String
  | .within ds => if p ∈ ds then ρ p else p
  | _ => p

variable (ρ : String → String) (p : String) (site : Site)

@[simp] theorem name_child (i : Nat) : (site.child i).name ρ p = site.name ρ p := by
  cases site with
  | within => rfl
  | here => rfl
  | toward path =>
    cases path with
    | nil => rfl
    | cons j path =>
      simp only [child]
      split <;> rfl

@[simp] theorem name_argument (method : Method) : (site.argument method).name ρ p = site.name ρ p := by
  unfold argument
  split <;> rfl

theorem argument_eq {method : Method} (other : ∀ f, method ≠ .higherOrder f) :
    site.argument method = site := by
  unfold argument
  split
  · exact absurd rfl (other _)
  · rfl

@[simp] theorem name_id : site.name id p = p := by
  cases site <;> simp [name]

@[simp] theorem params_id (ps : List String) : site.params id ps = ps := by
  cases site <;> simp [params]

def placed {α : Type} (f : Site → Site) (site : Site) : List α → List (α × Site)
  | [] => []
  | a :: as => (a, f (site.child 0)) :: placed f (site.child 1) as

variable {α : Type} {f : Site → Site} {site}

@[simp] theorem map_fst_placed (as : List α) : (site.placed f as).map Prod.fst = as := by
  induction as generalizing site with
  | nil => rfl
  | cons a as ih => simp [placed, ih]

@[simp] theorem length_placed (as : List α) : (site.placed f as).length = as.length := by
  induction as generalizing site with
  | nil => rfl
  | cons a as ih => simp [placed, ih]

theorem mem_of_placed {as : List α} {d : α × Site} (mem : d ∈ site.placed f as) : d.1 ∈ as := by
  have inside := List.mem_map_of_mem (f := Prod.fst) mem
  rwa [map_fst_placed] at inside

theorem placed_map {β : Type} (g : α → β) (as : List α) :
    site.placed f (as.map g) = (site.placed f as).map fun d => (g d.1, d.2) := by
  induction as generalizing site with
  | nil => rfl
  | cons a as ih => simp [placed, ih]

theorem map_placed {β : Type} {g : α × Site → β} {h : α → β} {as : List α}
    (same : ∀ a ∈ as, ∀ site, g (a, site) = h a) : (site.placed f as).map g = as.map h := by
  induction as generalizing site with
  | nil => rfl
  | cons a as ih =>
    rw [placed, List.map_cons, List.map_cons, same a List.mem_cons_self,
      ih fun b mem => same b (List.mem_cons_of_mem a mem)]

theorem name_placed (h : ∀ site, (f site).name ρ p = site.name ρ p) {as : List α} {d : α × Site}
    (mem : d ∈ site.placed f as) : d.2.name ρ p = site.name ρ p := by
  induction as generalizing site with
  | nil => cases mem
  | cons a as ih =>
    rcases List.mem_cons.1 mem with rfl | mem
    · simp [h]
    · simpa using ih mem

end Site

namespace Expr

mutual
def rename (ρ : String → String) (site : Site) : Expr → Expr
  | .constant v => .constant v
  | .parameter p => .parameter (site.name ρ p)
  | .captured name v => .captured name v
  | .member target name rename' => .member (target.rename ρ (site.child 0)) name rename'
  | .binary op left right =>
    .binary op (left.rename ρ (site.child 0)) (right.rename ρ (site.child 1))
  | .unary op operand => .unary op (operand.rename ρ (site.child 0))
  | .call target method args =>
    .call (renameTarget ρ (site.child 0) target) method
      (renameItems ρ (.argument method) (site.child 1) args)
  | .new typeName members => .new typeName (renameMembers ρ site members)
  | .array items => .array (renameItems ρ id site items)
  | .map entries => .map (renameEntries ρ site entries)
  | .lambda params body => .lambda (site.params ρ params) (body.rename ρ (site.body params))
termination_by structural e => e
def renameTarget (ρ : String → String) (site : Site) : Option Expr → Option Expr
  | none => none
  | some e => some (e.rename ρ site)
termination_by structural e => e
def renameItems (ρ : String → String) (f : Site → Site) (site : Site) : List Expr → List Expr
  | [] => []
  | e :: es => e.rename ρ (f (site.child 0)) :: renameItems ρ f (site.child 1) es
termination_by structural es => es
def renameMembers (ρ : String → String) (site : Site) :
    List (String × Expr) → List (String × Expr)
  | [] => []
  | (n, e) :: ms => (n, e.rename ρ (site.child 0)) :: renameMembers ρ (site.child 1) ms
termination_by structural ms => ms
def renameEntries (ρ : String → String) (site : Site) : List (Expr × Expr) → List (Expr × Expr)
  | [] => []
  | (k, v) :: es =>
    (k.rename ρ ((site.child 0).child 0), v.rename ρ ((site.child 0).child 1)) ::
      renameEntries ρ (site.child 1) es
termination_by structural es => es
end

mutual
def names : Expr → List String
  | .constant _ | .captured _ _ => []
  | .parameter p => [p]
  | .member target _ _ => target.names
  | .binary _ left right => left.names ++ right.names
  | .unary _ operand => operand.names
  | .call target _ args => targetNames target ++ itemNames args
  | .new _ members => memberNames members
  | .array items => itemNames items
  | .map entries => entryNames entries
  | .lambda params body => params ++ body.names
termination_by structural e => e
def targetNames : Option Expr → List String
  | none => []
  | some e => e.names
termination_by structural e => e
def itemNames : List Expr → List String
  | [] => []
  | e :: es => e.names ++ itemNames es
termination_by structural es => es
def memberNames : List (String × Expr) → List String
  | [] => []
  | (_, e) :: ms => e.names ++ memberNames ms
termination_by structural ms => ms
def entryNames : List (Expr × Expr) → List String
  | [] => []
  | (k, v) :: es => k.names ++ v.names ++ entryNames es
termination_by structural es => es
end

theorem targetNames_eq_flatMap (target : Option Expr) :
    targetNames target = target.toList.flatMap names := by
  cases target <;> simp [targetNames]

theorem itemNames_eq_flatMap (es : List Expr) : itemNames es = es.flatMap names := by
  induction es with
  | nil => rfl
  | cons e es ih => simp [itemNames, ih]

theorem memberNames_eq_flatMap (ms : List (String × Expr)) :
    memberNames ms = ms.flatMap fun m => m.2.names := by
  induction ms with
  | nil => rfl
  | cons m ms ih => simp [memberNames, ih]

theorem entryNames_eq_flatMap (es : List (Expr × Expr)) :
    entryNames es = es.flatMap fun m => m.1.names ++ m.2.names := by
  induction es with
  | nil => rfl
  | cons m es ih => simp [entryNames, ih]

theorem names_children {e d : Expr} (below : d ∈ e.children) : d.names ⊆ e.names := by
  intro p mem
  cases e with
  | constant | captured | parameter => cases below
  | member | unary => exact List.mem_singleton.1 below ▸ mem
  | binary op left right =>
    obtain rfl | rfl : d = left ∨ d = right := by simpa [children] using below
    · exact List.mem_append_left _ mem
    · exact List.mem_append_right _ mem
  | call target method args =>
    rw [names, targetNames_eq_flatMap, itemNames_eq_flatMap, ← List.flatMap_append]
    exact List.mem_flatMap.2 ⟨d, below, mem⟩
  | new typeName members =>
    obtain ⟨m, inside, rfl⟩ := List.mem_map.1 below
    rw [names, memberNames_eq_flatMap]
    exact List.mem_flatMap.2 ⟨m, inside, mem⟩
  | array items =>
    rw [names, itemNames_eq_flatMap]
    exact List.mem_flatMap.2 ⟨d, below, mem⟩
  | map entries =>
    obtain ⟨m, inside, part⟩ := List.mem_flatMap.1 below
    rw [names, entryNames_eq_flatMap]
    refine List.mem_flatMap.2 ⟨m, inside, ?_⟩
    obtain rfl | rfl : d = m.1 ∨ d = m.2 := by simpa using part
    · exact List.mem_append_left _ mem
    · exact List.mem_append_right _ mem
  | lambda params body => exact List.mem_append_right _ (List.mem_singleton.1 below ▸ mem)

theorem names_constantOr {folded e : Expr} (h : folded.names ⊆ e.names) :
    (constantOr folded e).names ⊆ e.names := by
  unfold constantOr
  split
  · exact List.nil_subset _
  · exact h

theorem names_fold (e : Expr) : e.fold.names ⊆ e.names := by
  induction e using ind with
  | constant | captured => exact List.nil_subset _
  | parameter => exact List.Subset.refl _
  | member target name rename ih => exact names_constantOr ih
  | binary op left right ihl ihr =>
    exact names_constantOr (List.append_subset.2 ⟨List.subset_append_of_subset_left _ ihl,
      List.subset_append_of_subset_right _ ihr⟩)
  | unary op operand ih => exact ih
  | call target method args iht iha =>
    intro p
    simp only [fold, names, foldTarget_eq_map, foldItems_eq_map, targetNames_eq_flatMap,
      itemNames_eq_flatMap, List.mem_append, List.mem_flatMap, List.mem_map, Option.mem_toList,
      Option.map_eq_some_iff]
    rintro (⟨_, ⟨e, mem, rfl⟩, inside⟩ | ⟨_, ⟨e, mem, rfl⟩, inside⟩)
    · exact .inl ⟨e, mem, iht e mem inside⟩
    · exact .inr ⟨e, mem, iha e mem inside⟩
  | new typeName members ih =>
    intro p
    simp only [fold, names, foldMembers_eq_map, memberNames_eq_flatMap, List.mem_flatMap, List.mem_map]
    rintro ⟨_, ⟨m, mem, rfl⟩, inside⟩
    exact ⟨m, mem, ih m mem inside⟩
  | array items ih =>
    intro p
    simp only [fold, names, foldItems_eq_map, itemNames_eq_flatMap, List.mem_flatMap, List.mem_map]
    rintro ⟨_, ⟨e, mem, rfl⟩, inside⟩
    exact ⟨e, mem, ih e mem inside⟩
  | map entries ih =>
    intro p
    simp only [fold, names, foldEntries_eq_map, entryNames_eq_flatMap, List.mem_flatMap, List.mem_map,
      List.mem_append]
    rintro ⟨_, ⟨m, mem, rfl⟩, inside⟩
    exact ⟨m, mem, inside.imp (fun h => (ih m mem).1 h) fun h => (ih m mem).2 h⟩
  | lambda params body ih =>
    exact List.append_subset.2 ⟨List.subset_append_left _ _, List.subset_append_of_subset_right _ ih⟩

variable (ρ : String → String) {site : Site}

theorem renameTarget_eq_map (target : Option Expr) :
    renameTarget ρ site target = target.map (rename ρ site) := by
  cases target <;> rfl

theorem renameItems_eq_map (f : Site → Site) (es : List Expr) :
    renameItems ρ f site es = (site.placed f es).map fun d => d.1.rename ρ d.2 := by
  induction es generalizing site with
  | nil => rfl
  | cons e es ih => simp [renameItems, Site.placed, ih]

theorem renameMembers_eq_map (ms : List (String × Expr)) :
    renameMembers ρ site ms = (site.placed id ms).map fun d => (d.1.1, d.1.2.rename ρ d.2) := by
  induction ms generalizing site with
  | nil => rfl
  | cons m ms ih => simp [renameMembers, Site.placed, ih]

theorem renameEntries_eq_map (es : List (Expr × Expr)) :
    renameEntries ρ site es = (site.placed id es).map fun d =>
      (d.1.1.rename ρ (d.2.child 0), d.1.2.rename ρ (d.2.child 1)) := by
  induction es generalizing site with
  | nil => rfl
  | cons m es ih => simp [renameEntries, Site.placed, ih]

@[simp] theorem rename_id (e : Expr) (site : Site) : e.rename id site = e := by
  induction e using ind generalizing site with
  | constant | captured => rfl
  | parameter p => simp [rename]
  | member target name rename' ih => simp [rename, ih]
  | binary op left right ihl ihr => simp [rename, ihl, ihr]
  | unary op operand ih => simp [rename, ih]
  | call target method args iht iha =>
    rw [rename, renameTarget_eq_map, renameItems_eq_map, Site.map_placed fun e mem site => iha e mem site,
      List.map_id']
    congr 1
    exact (Option.map_congr fun e mem => iht e mem _).trans Option.map_id'
  | new typeName members ih =>
    rw [rename, renameMembers_eq_map, Site.map_placed (h := id) fun m mem site => Prod.ext rfl (ih m mem site),
      List.map_id]
  | array items ih =>
    rw [rename, renameItems_eq_map, Site.map_placed fun e mem site => ih e mem site, List.map_id']
  | map entries ih =>
    rw [rename, renameEntries_eq_map, Site.map_placed (h := id) fun m mem site =>
      Prod.ext ((ih m mem).1 _) ((ih m mem).2 _), List.map_id]
  | lambda params body ih => simp [rename, ih]

@[simp] theorem renameTarget_id (target : Option Expr) : renameTarget id site target = target := by
  cases target <;> simp [renameTarget]

@[simp] theorem value?_rename (e : Expr) (site : Site) : (e.rename ρ site).value? = e.value? := by
  induction e using ind generalizing site with
  | member target name rename' ih => exact value?_member_congr (ih _) name rename'
  | binary op left right ihl ihr => exact value?_binary_congr op (ihl _) (ihr _)
  | _ => rfl

theorem rename_constantOr (folded e : Expr) (site : Site) :
    (constantOr folded e).rename ρ site = constantOr (folded.rename ρ site) (e.rename ρ site) := by
  rw [constantOr, constantOr, value?_rename]
  cases e.value? <;> rfl

theorem fold_rename (e : Expr) (site : Site) : (e.rename ρ site).fold = e.fold.rename ρ site := by
  induction e using ind generalizing site with
  | constant | captured | parameter => rfl
  | member target name rename' ih => simp only [rename, fold, rename_constantOr, ih]
  | binary op left right ihl ihr => simp only [rename, fold, rename_constantOr, ihl, ihr]
  | unary op operand ih => simp only [rename, fold, ih]
  | call target method args iht iha =>
    simp only [rename, fold, foldTarget_eq_map, foldItems_eq_map, renameTarget_eq_map,
      renameItems_eq_map, Site.placed_map, Option.map_map, List.map_map]
    congr 1
    · exact Option.map_congr fun e mem => iht e mem _
    · exact List.map_congr_left fun d mem => iha d.1 (Site.mem_of_placed mem) _
  | new typeName members ih =>
    simp only [rename, fold, foldMembers_eq_map, renameMembers_eq_map, Site.placed_map, List.map_map]
    congr 1
    exact List.map_congr_left fun d mem =>
      Prod.ext rfl (ih d.1 (Site.mem_of_placed mem) _)
  | array items ih =>
    simp only [rename, fold, foldItems_eq_map, renameItems_eq_map, Site.placed_map, List.map_map]
    congr 1
    exact List.map_congr_left fun d mem => ih d.1 (Site.mem_of_placed mem) _
  | map entries ih =>
    simp only [rename, fold, foldEntries_eq_map, renameEntries_eq_map, Site.placed_map, List.map_map]
    congr 1
    exact List.map_congr_left fun d mem =>
      Prod.ext ((ih d.1 (Site.mem_of_placed mem)).1 _) ((ih d.1 (Site.mem_of_placed mem)).2 _)
  | lambda params body ih => simp only [rename, fold, ih]

variable (e d : Expr) (site' : Site)

@[simp] theorem isNull_rename : (e.rename ρ site).isNull = e.isNull := by
  cases e <;> rfl

@[simp] theorem nullTest?_rename (op : BinaryOp) :
    op.nullTest? (e.rename ρ site) (d.rename ρ site') = op.nullTest? e d := by
  simp [BinaryOp.nullTest?]

@[simp] theorem needsParens_rename (op : BinaryOp) (right : Bool) :
    op.needsParens right (e.rename ρ site) = op.needsParens right e := by
  cases e <;> rfl

@[simp] theorem isLambda_rename (key : KeyText) :
    ((e.rename ρ site).part key).isLambda = (e.part key).isLambda := by
  cases e <;> rfl

@[simp] theorem int?_rename (key : KeyText) :
    ((e.rename ρ site).part key).int? = (e.part key).int? := by
  cases e <;> rfl

@[simp] theorem string?_rename (key : KeyText) :
    ((e.rename ρ site).part key).string? = (e.part key).string? := by
  cases e <;> rfl

@[simp] theorem listLength?_rename (key : KeyText) :
    ((e.rename ρ site).part key).listLength? = (e.part key).listLength? := by
  cases e with
  | array items => simp [rename, part, Part.listLength?, renameItems_eq_map]
  | _ => rfl

theorem needsParens_rename_unary (site : Site) (op : UnaryOp) {t u : String}
    (same : t.toList.head? = some '-' ↔ u.toList.head? = some '-') :
    op.needsParens (e.rename ρ site) t = op.needsParens e u := by
  cases e with
  | binary => rfl
  | unary => rfl
  | _ => simp [rename, UnaryOp.needsParens, same]

end Expr
end StreamSql
