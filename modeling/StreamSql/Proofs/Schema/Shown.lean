import StreamSql.Proofs.Schema.TypeText
import StreamSql.Proofs.Text.Boundary
import StreamSql.Proofs.Text.Sealed

namespace StreamSql

open Text (Begins Ends IsWord Leaves Shows append_inj_of_leaves join_inj toDigits_append_inj)

namespace TypeKind

mutual
/-- The kind with nothing said of its fields but their wire names and kinds. -/
def shown : TypeKind → TypeKind
  | .array element => .array element.shown
  | .map key value => .map key.shown value.shown
  | .struct fields => .struct (shownFields fields)
  | kind => kind
termination_by structural k => k
def shownFields : List Column → List Column
  | [] => []
  | ⟨name, rename, kind, _, _⟩ :: cs => .ofKind (rename.getD name) kind.shown :: shownFields cs
termination_by structural cs => cs
end

end TypeKind

namespace Column

def fieldText (c : Column) : String := c.wireName ++ " " ++ c.kind.text

def shown (c : Column) : Column := .ofKind c.wireName c.kind.shown

def IsNamed (c : Column) : Prop := IsWord c.wireName ∧ ∀ n ∈ c.kind.wireNames, IsWord n

end Column

namespace TypeKind

def IsNamed (k : TypeKind) : Prop := ∀ n ∈ k.wireNames, IsWord n

theorem fieldTexts_eq_map (cs : List Column) : fieldTexts cs = cs.map Column.fieldText := by
  induction cs with
  | nil => rfl
  | cons c cs ih =>
    obtain ⟨name, rename, kind, _, _⟩ := c
    rw [fieldTexts, ih]
    rfl

theorem shownFields_eq_map (cs : List Column) : shownFields cs = cs.map Column.shown := by
  induction cs with
  | nil => rfl
  | cons c cs ih =>
    obtain ⟨name, rename, kind, _, _⟩ := c
    rw [shownFields, ih]
    rfl

theorem isNamed_struct {fields : List Column} :
    (TypeKind.struct fields).IsNamed ↔ ∀ c ∈ fields, c.IsNamed := by
  rw [IsNamed, wireNames]
  induction fields with
  | nil => simp [fieldNames]
  | cons c cs ih =>
    obtain ⟨name, rename, kind, _, _⟩ := c
    rw [fieldNames, List.forall_mem_cons, List.forall_mem_append, ih, List.forall_mem_cons,
      ← and_assoc]
    rfl

mutual
theorem text_shown : ∀ k : TypeKind, k.shown.text = k.text
  | .array element => by rw [shown, text, text_shown element, text]
  | .map key value => by rw [shown, text, text_shown key, text_shown value, text]
  | .struct fields => by rw [shown, text, fieldTexts_shown fields, text]
  | .int | .bigInt | .double | .boolean | .string | .bytes | .date | .time | .timestamp
  | .decimal _ _ => rfl
termination_by structural k => k
theorem fieldTexts_shown : ∀ cs : List Column, fieldTexts (shownFields cs) = fieldTexts cs
  | [] => rfl
  | ⟨name, rename, kind, _, _⟩ :: cs => by
    rw [shownFields, Column.ofKind, fieldTexts, text_shown kind, fieldTexts_shown cs, fieldTexts]
    rfl
termination_by structural cs => cs
end

def keyword : TypeKind → String
  | .int => "INT"
  | .bigInt => "BIGINT"
  | .double => "DOUBLE"
  | .boolean => "BOOLEAN"
  | .string => "VARCHAR"
  | .bytes => "BYTES"
  | .date => "DATE"
  | .time => "TIME"
  | .timestamp => "TIMESTAMP"
  | .decimal _ _ => "DECIMAL"
  | .array _ => "ARRAY"
  | .map _ _ => "MAP"
  | .struct _ => "STRUCT"

def arguments : TypeKind → List Char
  | .decimal precision scale =>
    '(' :: (Nat.toDigits 10 precision.toNat ++ ',' :: ' ' :: (Nat.toDigits 10 scale.toNat ++ [')']))
  | .array element => '<' :: (element.text.toList ++ ['>'])
  | .map key value => '<' :: (key.text.toList ++ ',' :: ' ' :: (value.text.toList ++ ['>']))
  | .struct fields => '<' :: ((Text.join ", " (fields.map Column.fieldText)).toList ++ ['>'])
  | _ => []

variable {k l : TypeKind} {r s : List Char}

theorem toList_text (k : TypeKind) : k.text.toList = k.keyword.toList ++ k.arguments := by
  cases k <;> simp [text, keyword, arguments, fieldTexts_eq_map, Nat.repr_eq_ofList_toDigits]

theorem isUpper_keyword (k : TypeKind) : ∀ c ∈ k.keyword.toList, c.isUpper = true := by
  cases k <;> simp [keyword]

theorem leaves_arguments (k : TypeKind) (hr : Ends r) : Leaves Char.isUpper (k.arguments ++ r) := by
  refine .append ?_ (hr.leaves (by decide))
  cases k with
  | decimal | array | map | struct => exact .cons (by decide)
  | _ => exact .nil

theorem keyword_eq (hr : Ends r) (hs : Ends s) (same : k.text.toList ++ r = l.text.toList ++ s) :
    k.keyword = l.keyword ∧ k.arguments ++ r = l.arguments ++ s := by
  rw [toList_text, toList_text, List.append_assoc, List.append_assoc] at same
  obtain ⟨word, behind⟩ := append_inj_of_leaves (isUpper_keyword k) (isUpper_keyword l)
    (leaves_arguments k hr) (leaves_arguments l hs) same
  exact ⟨String.toList_inj.1 word, behind⟩

theorem eq_of_keyword (plain : k.arguments = []) (word : k.keyword = l.keyword) : k = l := by
  cases k with
  | decimal | array | map | struct => cases plain
  | _ => cases l <;> first | rfl | exact absurd word (by simp [keyword])

theorem shows_of_plain (plain : k.arguments = []) : Shows text shown IsNamed k := by
  intro l r s _ hr hs same
  obtain ⟨word, behind⟩ := keyword_eq hr hs same
  obtain rfl := eq_of_keyword plain word
  exact ⟨rfl, List.append_cancel_left behind⟩

theorem shows_field {c : Column} (h : Shows text shown IsNamed c.kind) (word : IsWord c.wireName) :
    Shows Column.fieldText Column.shown Column.IsNamed c := by
  intro d r s hd hr hs same
  have parts : c.wireName.toList ++ (' ' :: (c.kind.text.toList ++ r)) =
      d.wireName.toList ++ (' ' :: (d.kind.text.toList ++ s)) := by
    simpa [Column.fieldText] using same
  obtain ⟨names, behind⟩ := word.append_inj hd.1 parts
  obtain ⟨kinds, rest⟩ := h d.kind r s hd.2 hr hs behind
  exact ⟨by rw [Column.shown, Column.shown, names, kinds], rest⟩

theorem begins_field {c : Column} (word : IsWord c.wireName) : Begins c.fieldText := by
  rw [Column.fieldText, String.append_assoc]
  exact word.begins.append _

mutual
theorem shows_text : ∀ k : TypeKind, k.IsNamed → Shows text shown IsNamed k
  | .int, _ | .bigInt, _ | .double, _ | .boolean, _ | .string, _ | .bytes, _ | .date, _ | .time, _
  | .timestamp, _ => shows_of_plain rfl
  | .decimal precision scale, _ => by
    intro l r s _ hr hs same
    obtain ⟨word, behind⟩ := keyword_eq hr hs same
    cases l with
    | decimal precision' scale' =>
      have sizes : Nat.toDigits 10 precision.toNat ++
            ',' :: ' ' :: (Nat.toDigits 10 scale.toNat ++ ')' :: r) =
          Nat.toDigits 10 precision'.toNat ++
            ',' :: ' ' :: (Nat.toDigits 10 scale'.toNat ++ ')' :: s) := by
        simpa [arguments] using behind
      obtain ⟨first, rest⟩ := toDigits_append_inj (.cons rfl) (.cons rfl) sizes
      obtain ⟨second, rest⟩ := toDigits_append_inj (.cons rfl) (.cons rfl)
        (List.cons.inj (List.cons.inj rest).2).2
      exact ⟨by rw [UInt8.toNat_inj.1 first, UInt8.toNat_inj.1 second], (List.cons.inj rest).2⟩
    | _ => simp [keyword] at word
  | .array element, named => by
    intro l r s hl hr hs same
    obtain ⟨word, behind⟩ := keyword_eq hr hs same
    cases l with
    | array element' =>
      have parts : element.text.toList ++ '>' :: r = element'.text.toList ++ '>' :: s := by
        simpa [arguments] using behind
      obtain ⟨elements, rest⟩ :=
        shows_text element named element' _ _ hl (.cons (by decide)) (.cons (by decide)) parts
      exact ⟨by rw [shown, shown, elements], (List.cons.inj rest).2⟩
    | _ => simp [keyword] at word
  | .map key value, named => by
    intro l r s hl hr hs same
    obtain ⟨word, behind⟩ := keyword_eq hr hs same
    cases l with
    | map key' value' =>
      obtain ⟨namedKey, namedValue⟩ := List.forall_mem_append.1 named
      obtain ⟨namedKey', namedValue'⟩ := List.forall_mem_append.1 hl
      have parts : key.text.toList ++ ',' :: ' ' :: (value.text.toList ++ '>' :: r) =
          key'.text.toList ++ ',' :: ' ' :: (value'.text.toList ++ '>' :: s) := by
        simpa [arguments] using behind
      obtain ⟨keys, rest⟩ :=
        shows_text key namedKey key' _ _ namedKey' (.cons (by decide)) (.cons (by decide)) parts
      obtain ⟨values, rest⟩ := shows_text value namedValue value' _ _ namedValue'
        (.cons (by decide)) (.cons (by decide)) (List.cons.inj (List.cons.inj rest).2).2
      exact ⟨by rw [shown, shown, keys, values], (List.cons.inj rest).2⟩
    | _ => simp [keyword] at word
  | .struct fields, named => by
    intro l r s hl hr hs same
    obtain ⟨word, behind⟩ := keyword_eq hr hs same
    cases l with
    | struct fields' =>
      have words := isNamed_struct.1 named
      have words' := isNamed_struct.1 hl
      have parts : (Text.join ", " (fields.map Column.fieldText)).toList ++ '>' :: r =
          (Text.join ", " (fields'.map Column.fieldText)).toList ++ '>' :: s := by
        simpa [arguments] using behind
      obtain ⟨columns, rest⟩ := join_inj (by decide) (by decide) (shows_fields fields words) words'
        (fun c mem => begins_field ((List.mem_append.1 mem).elim (words c) (words' c)).1) parts
      exact ⟨by rw [shown, shown, shownFields_eq_map, shownFields_eq_map, columns], rest⟩
    | _ => simp [keyword] at word
termination_by structural k => k
theorem shows_fields : ∀ cs : List Column, (∀ c ∈ cs, c.IsNamed) →
    ∀ c ∈ cs, Shows Column.fieldText Column.shown Column.IsNamed c
  | [], _, _, mem => nomatch mem
  | ⟨_, _, kind, _, _⟩ :: cs, named, c, mem => by
    have first := named _ List.mem_cons_self
    rcases List.mem_cons.1 mem with rfl | mem
    · exact shows_field (shows_text kind first.2) first.1
    · exact shows_fields cs (fun c mem => named c (List.mem_cons_of_mem _ mem)) c mem
termination_by structural cs => cs
end

/-- Two kinds have the same text if and only if they are shown alike: nothing that the text says can be
read in two ways. -/
theorem text_eq_iff (hk : ∀ n ∈ k.wireNames, IsWord n) (hl : ∀ n ∈ l.wireNames, IsWord n) :
    k.text = l.text ↔ k.shown = l.shown := by
  constructor
  · exact (shows_text k hk).seen_eq hl
  · intro same
    rw [← text_shown k, same, text_shown]

private abbrev numbered : TypeKind :=
  .struct [⟨"Number", some "No", .array .int, true, .key⟩, .ofKind "Zip" (.decimal 9 2)]

private abbrev coded : TypeKind :=
  .struct [.ofKind "No" (.array .int), ⟨"Code", some "Zip", .decimal 9 2, false, .none⟩]

theorem text_eq_iff_numbered :
    (∀ n ∈ numbered.wireNames, IsWord n) ∧ (∀ n ∈ coded.wireNames, IsWord n) ∧
      numbered.text = coded.text := by
  have words : ∀ n ∈ numbered.wireNames, IsWord n := by decide
  have words' : ∀ n ∈ coded.wireNames, IsWord n := by decide
  exact ⟨words, words', (text_eq_iff words words').2 rfl⟩

end TypeKind
end StreamSql
