import StreamSql.Proofs.Expr.Segment
import StreamSql.Proofs.Reading.Token
import StreamSql.Proofs.Text.Like

namespace StreamSql

open Text (IsLiteral Like)

inductive StringTest
  | startsWith
  | endsWith
  | contains

namespace StringTest

def method : StringTest → Method
  | .startsWith => .startsWith
  | .endsWith => .endsWith
  | .contains => .contains

def Finds : StringTest → List Char → List Char → Prop
  | .startsWith, needle, t => needle <+: t
  | .endsWith, needle, t => needle <:+ t
  | .contains, needle, t => needle <:+: t

def pattern : StringTest → String → String
  | .startsWith, needle => needle ++ "%"
  | .endsWith, needle => "%" ++ needle
  | .contains, needle => "%" ++ needle ++ "%"

/-- `Contains` tests for a part of a string, unless its receiver is a list or known not to be one. -/
def Suits (test : StringTest) (s : Scope) (receiver : Expr) : Prop :=
  match test with
  | .contains => (receiver.part noKey).listLength? = none ∧
      (receiver.kind? s = none ∨ receiver.kind? s = some .string)
  | _ => True

variable (test : StringTest) {needle : String} {t u : List Char}

theorem like_pattern :
    Like (test.pattern needle).toList t ↔ ∃ u, Like needle.toList u ∧ test.Finds u t := by
  cases test with
  | startsWith => simpa [pattern, Finds] using Like.prefix_iff
  | endsWith => simpa [pattern, Finds] using Like.suffix_iff
  | contains => simpa [pattern, Finds] using Like.infix_iff

theorem finds_refl (t : List Char) : test.Finds t t := by
  cases test with
  | startsWith => exact List.prefix_refl t
  | endsWith => exact List.suffix_refl t
  | contains => exact List.infix_refl t

variable {test}

theorem Finds.eq_of_length (h : test.Finds u t) (same : u.length = t.length) : u = t := by
  cases test with
  | startsWith => exact List.IsPrefix.eq_of_length h same
  | endsWith => exact List.IsSuffix.eq_of_length h same
  | contains => exact List.IsInfix.eq_of_length h same

theorem like_pattern_iff_finds :
    (∀ t : String, Like (test.pattern needle).toList t.toList ↔ test.Finds needle.toList t.toList) ↔
      IsLiteral needle.toList := by
  constructor
  · intro means
    obtain ⟨t, like, length, literal⟩ := Like.exists_literal needle.toList
    have matched : Like (test.pattern needle).toList (String.ofList t).toList := by
      rw [String.toList_ofList, like_pattern]
      exact ⟨t, like, test.finds_refl t⟩
    have found := (means (.ofList t)).1 matched
    rw [String.toList_ofList] at found
    rwa [found.eq_of_length length.symm]
  · intro literal t
    rw [like_pattern]
    constructor
    · rintro ⟨u, like, finds⟩
      rwa [← (Like.literal_iff literal).1 like]
    · exact fun finds => ⟨_, (Like.literal_iff literal).2 rfl, finds⟩

theorem compile_method {key : KeyText} {s : Scope} {receiver : Expr} {r : String}
    {target : Option Expr} {args : List Expr}
    (split : target.toList ++ args = [receiver, .constant (.string needle)])
    (suits : test.Suits s receiver) (text : receiver.compile key s = .ok r) :
    (Expr.call target test.method args).compile key s =
      .ok (r ++ " LIKE " ++ quoted (test.pattern needle)) := by
  have like (pattern : String → String) :
      likeText s (receiver.part key) ((Expr.constant (.string needle)).part key) pattern =
        .ok (r ++ " LIKE " ++ quoted (pattern needle)) := by
    have text : (receiver.part key).text s = .ok r := text
    have string : ((Expr.constant (.string needle)).part key).string? = some needle := rfl
    simp only [likeText, string, text, Compiled.ok_bind]
  have one (f : Callee) : f.oneArgument (target.map (Expr.part key)) (args.map (Expr.part key)) =
      .ok (receiver.part key, (Expr.constant (.string needle)).part key) := by
    simp only [Callee.oneArgument, Visit.splitReceiver_eq f key split, Compiled.ok_bind, List.map_cons,
      List.map_nil]
  simp only [Expr.compile, Expr.targetPart_eq_map, Expr.parts_eq_map]
  cases test with
  | startsWith =>
    simp only [method, Method.text, one, Compiled.ok_bind]
    exact like _
  | endsWith =>
    simp only [method, Method.text, one, Compiled.ok_bind]
    exact like _
  | contains =>
    have list : (receiver.part key).listLength? = none := suits.1
    have substring :
        isSubstringTest s (receiver.part key) ((Expr.constant (.string needle)).part key) = true := by
      have kind : (receiver.part key).expr.kind? s = receiver.kind? s := rfl
      have string : ((Expr.constant (.string needle)).part key).string?.isSome = true := rfl
      rcases suits.2 with found | found <;> simp [isSubstringTest, kind, found, string]
    simp only [method, Method.text, one, Compiled.ok_bind, containsText, list, substring, if_true]
    exact like _

end StringTest

namespace Expr

variable {key : KeyText} {s : Scope} {receiver : Expr} {r needle : String} {target : Option Expr}
  {args : List Expr}

/-- A test finds whatever its needle matches as a pattern. This is the needle itself, exactly if the
needle has neither `%` nor `_`. -/
theorem compile_stringTest (test : StringTest)
    (split : target.toList ++ args = [receiver, .constant (.string needle)])
    (suits : test.Suits s receiver) (text : receiver.compile key s = .ok r)
    (free : '\x27' ∉ needle.toList) :
    ∃ p : String,
      (Expr.call target test.method args).compile key s = .ok (r ++ " LIKE " ++ quoted p) ∧
      Reading.tokens (quoted p) = some [.text p.toList] ∧
      (∀ t : String, Like p.toList t.toList ↔ ∃ u, Like needle.toList u ∧ test.Finds u t.toList) ∧
      ((∀ t : String, Like p.toList t.toList ↔ test.Finds needle.toList t.toList) ↔
        IsLiteral needle.toList) := by
  have inside : '\x27' ∉ (test.pattern needle).toList := by
    cases test <;> simp [StringTest.pattern, free]
  have quote : Reading.tokens (quoted (test.pattern needle)) =
      some [.text (test.pattern needle).toList] :=
    Reading.Lexes.tokens (by simpa [quoted] using Reading.Lexes.text inside)
  exact ⟨test.pattern needle, StringTest.compile_method split suits text, quote,
    fun t => test.like_pattern, StringTest.like_pattern_iff_finds⟩

private abbrev movies : Scope := ⟨[], [("m", .source 0)], [], false, '.'⟩

private abbrev title : Expr := .member (.parameter "m") "Title" none

theorem compile_stringTest_title :
    ∃ p : String,
      (Expr.call none .contains [title, .constant (.string "Alien")]).compile noKey movies =
        .ok ("Title" ++ " LIKE " ++ quoted p) ∧
      Reading.tokens (quoted p) = some [.text p.toList] ∧
      (∀ t : String, Like p.toList t.toList ↔
        ∃ u, Like "Alien".toList u ∧ StringTest.contains.Finds u t.toList) ∧
      ((∀ t : String, Like p.toList t.toList ↔ StringTest.contains.Finds "Alien".toList t.toList) ↔
        IsLiteral "Alien".toList) :=
  compile_stringTest .contains rfl ⟨rfl, .inl rfl⟩ rfl (by decide)

theorem not_compile_stringTest :
    ¬ ∀ (needle t p : String), '\x27' ∉ needle.toList →
      (Expr.call (some title) .startsWith [.constant (.string needle)]).compile noKey movies =
        .ok ("Title" ++ " LIKE " ++ quoted p) →
      (Like p.toList t.toList ↔ needle.toList <+: t.toList) := by
  intro means
  have like : Like "A_%".toList "AB".toList :=
    .same (by decide) (by decide) (.one 'B' (.percent []))
  have found := (means "A_" "AB" "A_%" (by decide) rfl).1 like
  exact absurd found (by decide)

end Expr
end StreamSql
