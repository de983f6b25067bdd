import StreamSql.Expr.Form
import StreamSql.Proofs.Expr.Induction
import StreamSql.Proofs.Value.Form

namespace StreamSql

open Json (Fields)

theorem ScalarFn.choice?_tag (f : ScalarFn) : Json.choice? all tag (.string f.tag) = some f :=
  Json.choice?_tag (by decide) (by cases f <;> decide)

theorem AggregateFn.choice?_tag (f : AggregateFn) : Json.choice? all tag (.string f.tag) = some f :=
  Json.choice?_tag (by decide) (by cases f <;> decide)

theorem HigherOrderFn.choice?_tag (f : HigherOrderFn) :
    Json.choice? all tag (.string f.tag) = some f :=
  Json.choice?_tag (by decide) (by cases f <;> decide)

theorem CastType.choice?_tag (t : CastType) : Json.choice? all tag (.string t.tag) = some t :=
  Json.choice?_tag (by decide) (by cases t <;> decide)

theorem BinaryOp.choice?_tag (op : BinaryOp) : Json.choice? all tag (.string op.tag) = some op :=
  Json.choice?_tag (by decide) (by cases op <;> decide)

theorem UnaryOp.choice?_tag (op : UnaryOp) : Json.choice? all tag (.string op.tag) = some op :=
  Json.choice?_tag (by decide) (by cases op <;> decide)

namespace Method

theorem readsBack_toJson (m : Method) : m.toJson.ReadsBack := by
  cases m with
  | udf => exact ⟨⟨trivial, Json.readsBack_ofOption fun _ _ => trivial, trivial⟩, trivial⟩
  | contains | startsWith | endsWith | between | notBetween => trivial
  | _ => exact ⟨trivial, trivial⟩

theorem ofJson?_toJson (o : Json.Origin) (m : Method) : Method.ofJson? o m.toJson = some m := by
  cases m with
  | udf name external =>
    simp [Method.ofJson?, toJson, Json.tagged, Json.case?, Json.caseFields?_object,
      Fields.required_cons, Fields.nullable_cons, Json.string?, Json.nullable?_ofOption]
  | scalar f =>
    simp [Method.ofJson?, toJson, Json.tagged, Json.case?, ScalarFn.choice?_tag]
  | aggregate f =>
    simp [Method.ofJson?, toJson, Json.tagged, Json.case?, AggregateFn.choice?_tag]
  | higherOrder f =>
    simp [Method.ofJson?, toJson, Json.tagged, Json.case?, HigherOrderFn.choice?_tag]
  | cast type =>
    simp [Method.ofJson?, toJson, Json.tagged, Json.case?, CastType.choice?_tag]
  | contains | startsWith | endsWith | between | notBetween | other => rfl

end Method

namespace Expr

mutual
def ReadsBack : Expr → Prop
  | .constant v | .captured _ v => v.ReadsBack
  | .parameter _ => True
  | .member target _ _ => target.ReadsBack
  | .binary _ left right => left.ReadsBack ∧ right.ReadsBack
  | .unary _ operand => operand.ReadsBack
  | .call target _ args => TargetReadsBack target ∧ ItemsReadBack args
  | .new _ members => MembersReadBack members
  | .array items => ItemsReadBack items
  | .map entries => EntriesReadBack entries
  | .lambda _ body => body.ReadsBack
termination_by structural e => e
def TargetReadsBack : Option Expr → Prop
  | none => True
  | some e => e.ReadsBack
termination_by structural e => e
def ItemsReadBack : List Expr → Prop
  | [] => True
  | e :: es => e.ReadsBack ∧ ItemsReadBack es
termination_by structural es => es
def MembersReadBack : List (String × Expr) → Prop
  | [] => True
  | (_, e) :: ms => e.ReadsBack ∧ MembersReadBack ms
termination_by structural ms => ms
def EntriesReadBack : List (Expr × Expr) → Prop
  | [] => True
  | (k, v) :: es => (k.ReadsBack ∧ v.ReadsBack) ∧ EntriesReadBack es
termination_by structural es => es
end

mutual
theorem readsBack_toJson : ∀ e : Expr, e.ReadsBack → e.toJson.ReadsBack
  | .constant v, h => ⟨v.readsBack_toJson h, trivial⟩
  | .parameter _, _ => ⟨trivial, trivial⟩
  | .captured _ v, h => ⟨⟨trivial, v.readsBack_toJson h, trivial⟩, trivial⟩
  | .member target _ _, h =>
    ⟨⟨readsBack_toJson target h, trivial, Json.readsBack_ofOption fun _ _ => trivial, trivial⟩,
      trivial⟩
  | .binary _ left right, h =>
    ⟨⟨trivial, readsBack_toJson left h.1, readsBack_toJson right h.2, trivial⟩, trivial⟩
  | .unary _ operand, h => ⟨⟨trivial, readsBack_toJson operand h, trivial⟩, trivial⟩
  | .call target method args, h =>
    ⟨⟨readsBack_targetToJson target h.1, method.readsBack_toJson, readsBack_itemsToJson args h.2,
      trivial⟩, trivial⟩
  | .new _ members, h =>
    ⟨⟨Json.readsBack_ofOption fun _ _ => trivial, readsBack_membersToJson members h, trivial⟩,
      trivial⟩
  | .array items, h => ⟨readsBack_itemsToJson items h, trivial⟩
  | .map entries, h => ⟨readsBack_entriesToJson entries h, trivial⟩
  | .lambda _ body, h =>
    ⟨⟨Json.itemsReadBack_map fun _ _ => trivial, readsBack_toJson body h, trivial⟩, trivial⟩
termination_by structural e => e
theorem readsBack_targetToJson : ∀ e, TargetReadsBack e → (targetToJson e).ReadsBack
  | none, _ => trivial
  | some e, h => readsBack_toJson e h
termination_by structural e => e
theorem readsBack_itemsToJson : ∀ es, ItemsReadBack es → Json.ItemsReadBack (itemsToJson es)
  | [], _ => trivial
  | e :: es, h => ⟨readsBack_toJson e h.1, readsBack_itemsToJson es h.2⟩
termination_by structural es => es
theorem readsBack_membersToJson :
    ∀ ms, MembersReadBack ms → Json.ItemsReadBack (membersToJson ms)
  | [], _ => trivial
  | (_, e) :: ms, h => ⟨⟨trivial, readsBack_toJson e h.1, trivial⟩, readsBack_membersToJson ms h.2⟩
termination_by structural ms => ms
theorem readsBack_entriesToJson :
    ∀ es, EntriesReadBack es → Json.ItemsReadBack (entriesToJson es)
  | [], _ => trivial
  | (k, v) :: es, h =>
    ⟨⟨readsBack_toJson k h.1.1, readsBack_toJson v h.1.2, trivial⟩, readsBack_entriesToJson es h.2⟩
termination_by structural es => es
end

theorem toJson_ne_null (e : Expr) : e.toJson ≠ .null := by
  cases e <;> simp [toJson, Json.tagged]

section

open Json (depth depthItems depthMembers tagged)

variable (o : Json.Origin)

mutual
theorem ofJsonWithin?_toJson : ∀ (e : Expr) (n : Nat), e.ReadsBack → e.toJson.depth < n →
    ofJsonWithin? o n e.toJson = some e
  | _, 0, _, h => absurd h (Nat.not_lt_zero _)
  | .constant v, n + 1, h, _ => by
    simp [toJson, tagged, ofJsonWithin?, Json.case?, v.ofJson?_toJson h]
  | .parameter _, n + 1, _, _ => rfl
  | .captured name v, n + 1, h, _ => by
    simp [toJson, tagged, ofJsonWithin?, Json.case?, Json.caseFields?_object, Fields.required_cons,
      Json.string?, v.ofJson?_toJson h]
  | .member target name rename, n + 1, h, hd => by
    simp only [toJson, tagged, depth, depthMembers] at hd
    simp [toJson, tagged, ofJsonWithin?, Json.case?, Json.caseFields?_object, Fields.required_cons,
      Fields.nullable_cons, Json.string?, Json.nullable?_ofOption,
      ofJsonWithin?_toJson target n h (by omega)]
  | .binary op left right, n + 1, h, hd => by
    simp only [toJson, tagged, depth, depthMembers] at hd
    simp [toJson, tagged, ofJsonWithin?, Json.case?, Json.caseFields?_object, Fields.required_cons,
      BinaryOp.choice?_tag, ofJsonWithin?_toJson left n h.1 (by omega),
      ofJsonWithin?_toJson right n h.2 (by omega)]
  | .unary op operand, n + 1, h, hd => by
    simp only [toJson, tagged, depth, depthMembers] at hd
    simp [toJson, tagged, ofJsonWithin?, Json.case?, Json.caseFields?_object, Fields.required_cons,
      UnaryOp.choice?_tag, ofJsonWithin?_toJson operand n h (by omega)]
  | .call target method args, n + 1, h, hd => by
    simp only [toJson, tagged, depth, depthMembers] at hd
    simp [toJson, tagged, ofJsonWithin?, Json.case?, Json.caseFields?_object, Fields.required_cons,
      Fields.nullable_cons, method.ofJson?_toJson, Json.list?,
      nullable?_targetToJson target n h.1 (by omega), mapM_itemsToJson args n h.2 (by omega)]
  | .new typeName members, n + 1, h, hd => by
    simp only [toJson, tagged, depth, depthMembers] at hd
    simp [toJson, tagged, ofJsonWithin?, Json.case?, Json.caseFields?_object, Fields.required_cons,
      Fields.nullable_cons, Json.string?, Json.nullable?_ofOption, Json.list?,
      mapM_membersToJson members n h (by omega)]
  | .array items, n + 1, h, hd => by
    simp only [toJson, tagged, depth, depthMembers] at hd
    simp [toJson, tagged, ofJsonWithin?, Json.case?, Json.list?,
      mapM_itemsToJson items n h (by omega)]
  | .map entries, n + 1, h, hd => by
    simp only [toJson, tagged, depth, depthMembers] at hd
    simp [toJson, tagged, ofJsonWithin?, Json.case?, Json.list?,
      mapM_entriesToJson entries n h (by omega)]
  | .lambda params body, n + 1, h, hd => by
    simp only [toJson, tagged, depth, depthMembers] at hd
    have names : Json.list? Json.string? (Json.ofList .string params) = some params :=
      Json.list?_map fun _ _ => rfl
    simp [toJson, tagged, ofJsonWithin?, Json.case?, Json.caseFields?_object, Fields.required_cons,
      names, ofJsonWithin?_toJson body n h (by omega)]
termination_by structural e => e
theorem nullable?_targetToJson : ∀ (e : Option Expr) (n : Nat), TargetReadsBack e →
    (targetToJson e).depth < n → Json.nullable? (ofJsonWithin? o n) (targetToJson e) = some e
  | none, _, _, _ => rfl
  | some e, n, h, hd => by
    rw [targetToJson, Json.nullable?_of_ne_null e.toJson_ne_null, ofJsonWithin?_toJson e n h hd]
    rfl
termination_by structural e => e
theorem mapM_itemsToJson : ∀ (es : List Expr) (n : Nat), ItemsReadBack es →
    depthItems (itemsToJson es) < n → (itemsToJson es).mapM (ofJsonWithin? o n) = some es
  | [], _, _, _ => rfl
  | e :: es, n, h, hd => by
    simp only [itemsToJson, depthItems] at hd
    rw [itemsToJson, List.mapM_cons, ofJsonWithin?_toJson e n h.1 (by omega),
      mapM_itemsToJson es n h.2 (by omega)]
    rfl
termination_by structural es => es
theorem mapM_membersToJson : ∀ (ms : List (String × Expr)) (n : Nat), MembersReadBack ms →
    depthItems (membersToJson ms) < n →
    (membersToJson ms).mapM (Json.pair? Json.string? (ofJsonWithin? o n)) = some ms
  | [], _, _, _ => rfl
  | (k, e) :: ms, n, h, hd => by
    simp only [membersToJson, depth, depthItems] at hd
    rw [membersToJson, List.mapM_cons, mapM_membersToJson ms n h.2 (by omega), Json.pair?,
      ofJsonWithin?_toJson e n h.1 (by omega)]
    rfl
termination_by structural ms => ms
theorem mapM_entriesToJson : ∀ (es : List (Expr × Expr)) (n : Nat), EntriesReadBack es →
    depthItems (entriesToJson es) < n →
    (entriesToJson es).mapM (Json.pair? (ofJsonWithin? o n) (ofJsonWithin? o n)) = some es
  | [], _, _, _ => rfl
  | (k, v) :: es, n, h, hd => by
    simp only [entriesToJson, depth, depthItems] at hd
    rw [entriesToJson, List.mapM_cons, mapM_entriesToJson es n h.2 (by omega), Json.pair?,
      ofJsonWithin?_toJson k n h.1.1 (by omega), ofJsonWithin?_toJson v n h.1.2 (by omega)]
    rfl
termination_by structural es => es
end

end

theorem ofJson?_toJson (o : Json.Origin) {e : Expr} (h : e.ReadsBack) :
    Expr.ofJson? o e.toJson = some e :=
  ofJsonWithin?_toJson o e _ h (Nat.lt_succ_self _)

end Expr
end StreamSql
