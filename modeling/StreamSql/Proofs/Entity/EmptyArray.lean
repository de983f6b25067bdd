import StreamSql.Proofs.Entity.Numbers

namespace StreamSql

open Text (Template)

inductive LiteralClass
  | number
  | bool
  | quoted
  | bytes
  | array
  | map
  | struct

namespace LiteralClass

/-- The text is a literal of the class. Any character may stand for the point of a number. -/
def Has : LiteralClass → String → Prop
  | number, t => ∃ u separator, IsNumber u ∧ t = withSeparator separator u
  | bool, t => t = "true" ∨ t = "false"
  | quoted, t => ∃ u, t = StreamSql.quoted u
  | bytes, t => ∃ u, t = "TO_BYTES(" ++ u ++ ")"
  | array, t => ∃ u, t = "ARRAY" ++ u
  | map, t => ∃ u, t = "MAP(" ++ u ++ ")"
  | struct, t => ∃ u, t = "STRUCT(" ++ u ++ ")"

variable {t : String}

theorem has_number (h : IsNumber t) : number.Has t := ⟨t, '.', h, (withSeparator_point t).symm⟩

theorem has_number_withSeparator (separator : Char) (h : IsNumber t) :
    number.Has (withSeparator separator t) :=
  ⟨t, separator, h, rfl⟩

theorem eq_number_of_has_zero : ∀ {c : LiteralClass}, c.Has "0" → c = number
  | number, _ => rfl
  | bool, h => by simp [Has] at h
  | quoted, ⟨u, same⟩ | bytes, ⟨u, same⟩ | array, ⟨u, same⟩ | map, ⟨u, same⟩ | struct, ⟨u, same⟩ => by
    simpa [StreamSql.quoted] using congrArg (fun t => t.toList.head?) same

end LiteralClass

def TypeKind.literalClass : TypeKind → LiteralClass
  | .int | .bigInt | .double | .decimal _ _ => .number
  | .boolean => .bool
  | .string | .date | .time | .timestamp => .quoted
  | .bytes => .bytes
  | .array _ => .array
  | .map _ _ => .map
  | .struct _ => .struct

theorem TypeKind.literalClass_eq_number {kind : TypeKind} :
    kind.literalClass = .number ↔ kind.isNumeric = true := by
  cases kind <;> simp [literalClass, isNumeric]

namespace Insert

variable {p : InsertProperties} {kind : TypeKind} {j : Json} {t : String}

theorem isNumber_of_isInt64 (h : isInt64 t = true) : IsNumber t := by
  have whole (sign : List Char) {ds : List Char} (text : t.toList = sign ++ ds) (hs : IsSign sign)
      (ne : ds ≠ []) (digits : ds.all Char.isDigit = true) : IsNumber t :=
    ⟨sign, ds, [], by simp [text], hs, .whole ne (List.all_eq_true.1 digits), .none⟩
  simp only [isInt64, Bool.and_eq_true, decide_eq_true_eq] at h
  split at h
  · next ds text => exact whole ['-'] text (.inr (.inl rfl)) h.1.1.1 h.1.1.2
  · next ds text => exact whole ['+'] text (.inr (.inr rfl)) h.1.1.1 h.1.1.2
  · exact whole [] rfl (.inl rfl) h.1.1.1 h.1.1.2

def HasNumber : TypeKind → Json → Prop
  | .decimal _ _, .string t => IsNumber t
  | _, _ => True

theorem has_scalar (written : scalar? p.style kind j = some t) (number : HasNumber kind j) :
    kind.literalClass.Has t := by
  cases kind with
  | int | bigInt =>
    cases j with
    | number n =>
      simp only [scalar?] at written
      split at written <;> obtain rfl := Option.some.inj written
      · exact LiteralClass.has_number (isNumber_toString _)
      · exact LiteralClass.has_number n.isNumber_text
    | string u =>
      simp only [scalar?] at written
      split at written
      · next integer =>
        exact Option.some.inj written ▸ LiteralClass.has_number (isNumber_of_isInt64 integer)
      · cases written
    | _ => cases written
  | double =>
    cases j with
    | number n =>
      obtain rfl := Option.some.inj written
      obtain ⟨cs, numeral, text⟩ := n.toDouble.text_eq_signedText
      exact LiteralClass.has_number_withSeparator _ (text ▸ isNumber_of_numeral numeral)
    | _ => cases written
  | decimal =>
    cases j with
    | number n =>
      exact Option.some.inj written ▸ LiteralClass.has_number_withSeparator _ n.isNumber_text
    | string u => exact Option.some.inj written ▸ LiteralClass.has_number_withSeparator _ number
    | _ => cases written
  | boolean =>
    cases j with
    | bool b =>
      obtain rfl := Option.some.inj written
      cases b
      · exact .inr rfl
      · exact .inl rfl
    | _ => cases written
  | string | date | time | timestamp =>
    cases j with
    | string u => exact ⟨u, (Option.some.inj written).symm⟩
    | _ => cases written
  | bytes | array | map | struct => cases j <;> cases written

theorem has_emptyArray (element : TypeKind) : LiteralClass.array.Has (emptyArray (some element)) := by
  cases element with
  | string => exact ⟨"_REMOVE(ARRAY[''], '')", rfl⟩
  | _ => exact ⟨"_REMOVE(ARRAY[0], 0)", rfl⟩

theorem has_literal (written : literal p.style kind j = .ok t) (value : j ≠ .null)
    (number : HasNumber kind j) : kind.literalClass.Has t := by
  unfold literal at written
  split at written
  · exact absurd rfl value
  · split at written
    · next bs _ =>
      obtain rfl := Except.ok.inj written
      exact ⟨"'" ++ .ofList (bs.flatMap hexPair) ++ "', 'hex'", String.toList_inj.1 (by
        simp [Value.literal, bytesLiteral])⟩
    · cases written
  · next element items =>
    split at written
    · obtain rfl := Except.ok.inj written
      exact has_emptyArray element
    · obtain ⟨ts, -, text⟩ := Compiled.bind_eq_ok.1 written
      obtain rfl := Except.ok.inj text
      exact ⟨"[" ++ Text.join ", " ts ++ "]", String.toList_inj.1 (by simp)⟩
  · obtain ⟨ts, -, text⟩ := Compiled.bind_eq_ok.1 written
    exact ⟨Text.join ", " ts, (Except.ok.inj text).symm⟩
  · obtain ⟨ts, -, text⟩ := Compiled.bind_eq_ok.1 written
    exact ⟨Text.join ", " ts, (Except.ok.inj text).symm⟩
  · split at written
    · next scalar => exact Except.ok.inj written ▸ has_scalar scalar number
    · cases written

def withoutItem (item : String) : String := "ARRAY_REMOVE(ARRAY[" ++ item ++ "], " ++ item ++ ")"

theorem eq_of_twice {a b c s t : String} (same : a ++ s ++ b ++ s ++ c = a ++ t ++ b ++ t ++ c) :
    s = t := by
  have chars := congrArg String.toList same
  have lengths := congrArg List.length chars
  simp only [String.toList_append, List.length_append] at lengths
  simp only [String.toList_append, List.append_assoc, List.append_cancel_left_eq] at chars
  exact String.toList_inj.1 (List.append_inj chars (by omega)).1

theorem withoutItem_inj {s t : String} (same : withoutItem s = withoutItem t) : s = t :=
  eq_of_twice same

def removed : TypeKind → String
  | .string => "''"
  | _ => "0"

theorem emptyArray_eq (element : TypeKind) :
    emptyArray (some element) = withoutItem (removed element) := by
  cases element <;> rfl

theorem has_removed_iff (element : TypeKind) :
    element.literalClass.Has (removed element) ↔ element = .string ∨ element.isNumeric = true := by
  by_cases string : element = .string
  · subst string
    exact ⟨fun _ => .inl rfl, fun _ => ⟨"", rfl⟩⟩
  · have zero : removed element = "0" := by cases element <;> first | rfl | exact absurd rfl string
    rw [zero, ← TypeKind.literalClass_eq_number, or_iff_right string]
    exact ⟨LiteralClass.eq_number_of_has_zero, fun number =>
      number ▸ LiteralClass.has_number (isNumber_toString 0)⟩

/-- A literal that is not NULL has the class of its kind. Within it, an array without items is written
with an item of the class of its elements exactly if these are strings or numbers. -/
theorem literal_emptyArrays (written : literal p.style kind j = .ok t) :
    (j ≠ .null → HasNumber kind j → kind.literalClass.Has t) ∧
      ∃ g : Leaf → String, t = (shape kind j).fill g ∧
        ∀ l, .inr l ∈ shape kind j → leafLiteral p.style l = .ok (g l) ∧
          ∀ element, l = (.array element, .array []) →
            ∃ item, g l = withoutItem item ∧
              (element.literalClass.Has item ↔ element = .string ∨ element.isNumeric = true) := by
  refine ⟨has_literal written, ?_⟩
  rw [literal_eq_fillM] at written
  obtain ⟨g, texts, rfl⟩ := Template.fillM_eq_ok_iff.1 written
  refine ⟨g, rfl, fun l place => ⟨texts l place, ?_⟩⟩
  rintro element rfl
  have empty : (.ok (emptyArray (some element)) : Compiled) = .ok (g _) := texts _ place
  exact ⟨removed element, by rw [← Except.ok.inj empty, emptyArray_eq], has_removed_iff element⟩

private abbrev checked : TypeKind :=
  .map .string (.struct [.ofKind "Flags" (.array .boolean), .ofKind "Counts" (.array (.array .int))])

private abbrev unchecked : Json :=
  .object [("a", .object [("Flags", .array []), ("Counts", .array [.array []])])]

private abbrev uncheckedText : String :=
  "MAP('a' := STRUCT(Flags := ARRAY_REMOVE(ARRAY[0], 0), Counts := ARRAY[ARRAY_REMOVE(ARRAY[0], 0)]))"

theorem literal_emptyArrays_checked :
    literal InsertProperties.standard.style checked unchecked = .ok uncheckedText ∧
      LiteralClass.map.Has uncheckedText ∧ ∃ g : Leaf → String,
        uncheckedText = (shape checked unchecked).fill g ∧
          (∃ item, g (.array .int, .array []) = withoutItem item ∧ LiteralClass.number.Has item) ∧
          ∃ item, g (.array .boolean, .array []) = withoutItem item ∧
            ¬ LiteralClass.bool.Has item := by
  have written : literal InsertProperties.standard.style checked unchecked = .ok uncheckedText := rfl
  obtain ⟨whole, g, text, places⟩ := literal_emptyArrays written
  have counts : .inr (.array .int, .array []) ∈ shape checked unchecked := by
    simp [shape, fieldShapes, Column.ofKind, valueOf?, Json.find?, Template.mem_enclosed]
  have flags : .inr (.array .boolean, .array []) ∈ shape checked unchecked := by
    simp [shape, fieldShapes, Column.ofKind, valueOf?, Json.find?, Template.mem_enclosed]
  obtain ⟨zero, count, number⟩ := (places _ counts).2 .int rfl
  obtain ⟨item, flag, bool⟩ := (places _ flags).2 .boolean rfl
  exact ⟨written, whole (by simp) trivial, g, text, ⟨zero, count, number.2 (.inr rfl)⟩, item, flag,
    fun has => by simpa [TypeKind.isNumeric] using bool.1 has⟩

theorem not_literal_emptyArrays :
    ¬ ∀ (element : TypeKind) (t : String),
      literal InsertProperties.standard.style (.array element) (.array []) = .ok t →
        ∃ item, t = withoutItem item ∧ element.literalClass.Has item := by
  intro items
  obtain ⟨item, text, bool⟩ := items .boolean (withoutItem "0") rfl
  obtain rfl := withoutItem_inj text
  rcases bool with same | same
  · exact absurd same (by decide)
  · exact absurd same (by decide)

end Insert
end StreamSql
