import Mathlib.Data.List.Forall2
import StreamSql.Json.Parser
import StreamSql.Proofs.Json.Number

namespace StreamSql.Json

def Closed (rest : List Char) : Prop :=
  ∀ c ∈ rest.head?, isNumeric c = false ∧ c.isLower = false

theorem Closed.nil : Closed [] := by simp [Closed]

theorem Closed.cons {c : Char} {cs : List Char} (h : isNumeric c = false ∧ c.isLower = false) :
    Closed (c :: cs) := by
  simpa [Closed] using h

theorem Closed.append {cs rest : List Char} (h : Closed cs) (hr : Closed rest) :
    Closed (cs ++ rest) := by
  cases cs with
  | nil => exact hr
  | cons c cs => simpa [Closed] using h

/-- The text has the given tokens wherever a word or a number may end behind it. -/
def Lexes (cs : List Char) (ts : List Token) : Prop :=
  ∀ done rest, Closed rest →
    tokensFrom? done .between (cs ++ rest) = tokensFrom? (ts.reverse ++ done) .between rest

theorem Lexes.tokens? {cs : List Char} {ts : List Token} (h : Lexes cs ts) :
    tokens? cs = some ts := by
  have := h [] [] .nil
  simpa [Json.tokens?, tokensFrom?, Mode.finish?] using this

theorem tokensFrom?_cons {done ts : List Token} {m m' : Mode} {c : Char} {cs : List Char}
    (h : m.step? c = some (ts, m')) :
    tokensFrom? done m (c :: cs) = tokensFrom? (ts.reverse ++ done) m' cs := by
  rw [tokensFrom?, h]

theorem tokensFrom?_end {done : List Token} {m : Mode} {t : Token} {rest : List Char}
    (finish : m.finish? = some [t])
    (step : ∀ c ∈ rest.head?, m.step? c = (Mode.begin? c).map fun p => (t :: p.1, p.2)) :
    tokensFrom? done m rest = tokensFrom? (t :: done) .between rest := by
  cases rest with
  | nil =>
    rw [tokensFrom?, tokensFrom?, finish]
    simp [Mode.finish?]
  | cons c cs =>
    rw [tokensFrom?, tokensFrom?, step c rfl, Mode.step?]
    cases Mode.begin? c <;> simp

namespace Lexes

theorem nil : Lexes [] [] := fun _ _ _ => rfl

theorem cons {c : Char} {cs : List Char} {t : Token} {ts : List Token}
    (h : Mode.begin? c = some ([t], .between)) (hcs : Lexes cs ts) :
    Lexes (c :: cs) (t :: ts) := by
  intro done rest closed
  rw [List.cons_append, tokensFrom?_cons (m := .between) h, hcs _ _ closed]
  simp

theorem append {cs ds : List Char} {ts us : List Token} (h : Lexes cs ts) (h' : Lexes ds us)
    (closed : Closed ds) : Lexes (cs ++ ds) (ts ++ us) := by
  intro done rest hr
  rw [List.append_assoc, h _ _ (closed.append hr), h' _ _ hr]
  simp

theorem word {c : Char} {cs : List Char} {t : Token} (first : Mode.begin? c = some ([], .word [c]))
    (lower : ∀ d ∈ cs, d.isLower = true) (h : word? (c :: cs) = some t) :
    Lexes (c :: cs) [t] := by
  intro done rest closed
  have run (seen : List Char) : tokensFrom? done (.word seen) (cs ++ rest) =
      tokensFrom? done (.word (cs.reverse ++ seen)) rest := by
    clear h
    induction cs generalizing seen with
    | nil => rfl
    | cons d ds ih =>
      have step : Mode.step? (.word seen) d = some ([], .word (d :: seen)) := by
        simp [Mode.step?, lower d (by simp)]
      rw [List.cons_append, tokensFrom?_cons step]
      simpa using ih (fun e he => lower e (by simp [he])) (d :: seen)
  have finish : Mode.finishWord? (cs.reverse ++ [c]) = some t := by
    simpa [Mode.finishWord?] using h
  rw [List.cons_append, tokensFrom?_cons (m := .between) first]
  refine (run [c]).trans (tokensFrom?_end (by simp [Mode.finish?, finish]) fun d hd => ?_)
  cases begun : Mode.begin? d <;> simp [Mode.step?, (closed d hd).2, finish, begun]

theorem numeral {c : Char} {cs : List Char} {t : Token}
    (first : Mode.begin? c = some ([], .number [c]))
    (numeric : ∀ d ∈ cs, isNumeric d = true)
    (h : Mode.finishNumber? (c :: cs).reverse = some t) : Lexes (c :: cs) [t] := by
  intro done rest closed
  have run (seen : List Char) : tokensFrom? done (.number seen) (cs ++ rest) =
      tokensFrom? done (.number (cs.reverse ++ seen)) rest := by
    clear h
    induction cs generalizing seen with
    | nil => rfl
    | cons d ds ih =>
      have step : Mode.step? (.number seen) d = some ([], .number (d :: seen)) := by
        simp [Mode.step?, numeric d (by simp)]
      rw [List.cons_append, tokensFrom?_cons step]
      simpa using ih (fun e he => numeric e (by simp [he])) (d :: seen)
  have finish : Mode.finishNumber? (cs.reverse ++ [c]) = some t := by simpa using h
  rw [List.cons_append, tokensFrom?_cons (m := .between) first]
  refine (run [c]).trans (tokensFrom?_end (by simp [Mode.finish?, finish]) fun d hd => ?_)
  cases begun : Mode.begin? d <;> simp [Mode.step?, (closed d hd).1, finish, begun]

theorem begin?_of_number {c : Char} (h : (c.isDigit || c = '-') = true) :
    Mode.begin? c = some ([], .number [c]) := by
  simp only [Bool.or_eq_true, decide_eq_true_eq] at h
  rcases h with digit | rfl
  · have range : 48 ≤ c.toNat ∧ c.toNat ≤ 57 := Char.isDigit_iff_toNat.1 digit
    have ne (d : Char) (hd : d.toNat < 48 ∨ 57 < d.toNat) : c ≠ d := by
      rintro rfl
      omega
    simp [Mode.begin?, isSpace, digit, ne]
  · rfl

theorem number {n : Number} (h : n.ReadsBack) : Lexes n.text.toList [.number (some n)] := by
  obtain ⟨l, read, value⟩ := Option.bind_eq_some_iff.1 h
  obtain ⟨c, cs, split, begins⟩ := Number.begins_of_read? read
  have numeric := Number.numeric_of_read? read
  rw [split] at read numeric ⊢
  have first : Mode.begin? c = some ([], .number [c]) := begin?_of_number begins
  have finish : Mode.finishNumber? (c :: cs).reverse = some (.number (some n)) := by
    simp [Mode.finishNumber?, read, value]
  exact numeral first (fun d hd => numeric d (by simp [hd])) finish

end Lexes

theorem hexValue?_hexDigit : ∀ d < 16, hexValue? (hexDigit d) = some d := by decide

theorem tokensFrom?_control (done : List Token) (seen : List Char) {c : Char} (low : c.toNat < 0x20)
    (rest : List Char) :
    tokensFrom? done (.text (some seen))
        ('\\' :: 'u' :: '0' :: '0' :: hexDigit (c.toNat / 16) :: hexDigit (c.toNat % 16) :: rest) =
      tokensFrom? done (.text (some (c :: seen))) rest := by
  have unit : Mode.ofUnit (some seen) none (16 * (c.toNat / 16) + c.toNat % 16) =
      .text (some (c :: seen)) := by
    rw [Nat.div_add_mod]
    have range : ¬ 0xD800 ≤ c.toNat ∧ ¬ 0xDC00 ≤ c.toNat := by omega
    simp [Mode.ofUnit, range, Seen.push, Char.ofNat_toNat]
  have third : Mode.step? (.hex (some seen) none 0 2) (hexDigit (c.toNat / 16)) =
      some ([], .hex (some seen) none (c.toNat / 16) 1) := by
    simp [Mode.step?, hexValue?_hexDigit (c.toNat / 16) (by omega)]
  have last : Mode.step? (.hex (some seen) none (c.toNat / 16) 1) (hexDigit (c.toNat % 16)) =
      some ([], .text (some (c :: seen))) := by
    simp [Mode.step?, hexValue?_hexDigit (c.toNat % 16) (by omega), unit]
  calc _ = tokensFrom? done (.hex (some seen) none 0 2)
          (hexDigit (c.toNat / 16) :: hexDigit (c.toNat % 16) :: rest) := rfl
    _ = tokensFrom? done (.hex (some seen) none (c.toNat / 16) 1)
          (hexDigit (c.toNat % 16) :: rest) := tokensFrom?_cons third
    _ = tokensFrom? done (.text (some (c :: seen))) rest := tokensFrom?_cons last

theorem tokensFrom?_escape (done : List Token) (seen : List Char) (c : Char) (rest : List Char) :
    tokensFrom? done (.text (some seen)) (escape c ++ rest) =
      tokensFrom? done (.text (some (c :: seen))) rest := by
  unfold escape
  split
  · subst c; rfl
  split
  · subst c; rfl
  split
  · subst c; rfl
  split
  · subst c; rfl
  split
  · subst c; rfl
  split
  · subst c; rfl
  split
  · subst c; rfl
  split
  · rename_i low
    exact tokensFrom?_control done seen low rest
  · rename_i quote backslash _ _ _ _ _ low
    have step : Mode.step? (.text (some seen)) c = some ([], .text (some (c :: seen))) := by
      simp [Mode.step?, Mode.stepText?, quote, backslash, low, Seen.push]
    exact tokensFrom?_cons step

theorem tokensFrom?_body (done : List Token) (seen cs rest : List Char) :
    tokensFrom? done (.text (some seen)) (cs.flatMap escape ++ rest) =
      tokensFrom? done (.text (some (cs.reverse ++ seen))) rest := by
  induction cs generalizing seen with
  | nil => rfl
  | cons c cs ih =>
    rw [List.flatMap_cons, List.append_assoc, tokensFrom?_escape, ih]
    simp

theorem Lexes.quote (s : String) : Lexes (quote s).toList [.string (some s)] := by
  intro done rest _
  have first : Mode.between.step? '"' = some ([], .text (some [])) := rfl
  have last (seen : List Char) : Mode.step? (.text (some seen)) '"' =
      some ([.string (some (.ofList seen.reverse))], .between) := by
    simp [Mode.step?, Mode.stepText?]
  simp only [Json.quote, String.toList_ofList, List.cons_append, List.append_assoc, List.nil_append]
  rw [tokensFrom?_cons first, tokensFrom?_body, tokensFrom?_cons (last _)]
  simp

def more (parts : List (List Token)) : List Token := parts.flatMap (.comma :: ·)

def separated : List (List Token) → List Token
  | [] => []
  | ts :: parts => ts ++ more parts

mutual
def toTokens : Json → List Token
  | .null | .outOfRange => [.null]
  | .bool b => [.bool b]
  | .number n => [.number (some n)]
  | .string s => [.string (some s)]
  | .array items => .openArray :: separated (itemTokens items) ++ [.closeArray]
  | .object ms => .openObject :: separated (memberTokens ms) ++ [.closeObject]
termination_by structural j => j
def itemTokens : List Json → List (List Token)
  | [] => []
  | j :: js => j.toTokens :: itemTokens js
termination_by structural js => js
def memberTokens : List (String × Json) → List (List Token)
  | [] => []
  | (k, j) :: ms => (.string (some k) :: .colon :: j.toTokens) :: memberTokens ms
termination_by structural ms => ms
end

mutual
def ReadsBack : Json → Prop
  | .number n => n.ReadsBack
  | .array items => ItemsReadBack items
  | .object ms => MembersReadBack ms
  | .outOfRange => False
  | _ => True
termination_by structural j => j
def ItemsReadBack : List Json → Prop
  | [] => True
  | j :: js => j.ReadsBack ∧ ItemsReadBack js
termination_by structural js => js
def MembersReadBack : List (String × Json) → Prop
  | [] => True
  | (_, j) :: ms => j.ReadsBack ∧ MembersReadBack ms
termination_by structural ms => ms
end

theorem Lexes.join {texts : List String} {tokens : List (List Token)}
    (h : List.Forall₂ (fun t ts => Lexes t.toList ts) texts tokens) :
    Lexes (Text.join "," texts).toList (separated tokens) := by
  induction h with
  | nil => exact .nil
  | @cons t ts texts tokens first rest ih =>
    cases rest with
    | nil => simpa [Text.join, separated, more] using first
    | cons second rest =>
      have comma : Mode.begin? ',' = some ([.comma], .between) := rfl
      have := first.append (.cons comma ih) (.cons (by decide))
      simpa [Text.join, separated, more] using this

mutual
theorem lexes_compact : ∀ j : Json, j.ReadsBack → Lexes j.compact.toList j.toTokens
  | .null, _ => .word (c := 'n') rfl (List.all_eq_true.1 rfl) rfl
  | .bool true, _ => .word (c := 't') rfl (List.all_eq_true.1 rfl) rfl
  | .bool false, _ => .word (c := 'f') rfl (List.all_eq_true.1 rfl) rfl
  | .number n, h => .number h
  | .string s, _ => .quote s
  | .array items, h => by
    have body := Lexes.join (lexes_compactItems items h)
    have := Lexes.cons (c := '[') rfl (body.append (.cons (c := ']') rfl .nil) (.cons (by decide)))
    simpa [compact, toTokens] using this
  | .object ms, h => by
    have body := Lexes.join (lexes_compactMembers ms h)
    have := Lexes.cons (c := '\x7b') rfl
      (body.append (.cons (c := '\x7d') rfl .nil) (.cons (by decide)))
    simpa [compact, toTokens] using this
  | .outOfRange, h => h.elim
termination_by structural j => j
theorem lexes_compactItems : ∀ js : List Json, ItemsReadBack js →
    List.Forall₂ (fun t ts => Lexes t.toList ts) (compactItems js) (itemTokens js)
  | [], _ => .nil
  | j :: js, h => .cons (lexes_compact j h.1) (lexes_compactItems js h.2)
termination_by structural js => js
theorem lexes_compactMembers : ∀ ms : List (String × Json), MembersReadBack ms →
    List.Forall₂ (fun t ts => Lexes t.toList ts) (compactMembers ms) (memberTokens ms)
  | [], _ => .nil
  | (k, j) :: ms, h => by
    refine .cons ?_ (lexes_compactMembers ms h.2)
    have value := Lexes.cons (c := ':') rfl (lexes_compact j h.1)
    simpa using (Lexes.quote k).append value (.cons (by decide))
termination_by structural ms => ms
end

theorem run?_cons {s : State} (s' : State) {t : Token} {ts : List Token}
    (h : s.step? t = some s') : s.run? (t :: ts) = s'.run? ts := by
  rw [State.run?, h, Option.bind_some]

theorem step?_closeArray {fs : List Frame} {e : Expect} {items : List Json}
    (h : e.allowsClose = true) (shallow : fs.length < maxDepth) :
    State.step? (.reading (.array items :: fs) e) .closeArray =
      State.put? fs (.array items.reverse) := by
  simp [State.step?, h, State.close?, shallow]

abbrev named (ms : List (String × Json)) : List (Option String × Json) :=
  ms.map fun m => (some m.1, m.2)

theorem objectOf_named (ms : List (String × Json)) : objectOf (named ms) = .object ms.reverse := by
  have unmark (ms : List (String × Json)) :
      (named ms).mapM (fun m => m.1.map (·, m.2)) = some ms := by
    induction ms with
    | nil => rfl
    | cons m ms ih =>
      rw [named, List.map_cons, List.mapM_cons, ih]
      rfl
  rw [objectOf, named, ← List.map_reverse, unmark]

theorem step?_closeObject {fs : List Frame} {e : Expect} (ms : List (String × Json))
    (h : e.allowsClose = true) (shallow : fs.length < maxDepth) :
    State.step? (.reading (.object (named ms) none :: fs) e) .closeObject =
      State.put? fs (.object ms.reverse) := by
  simp only [State.step?, h, if_true, State.close?, shallow, objectOf_named]

mutual
theorem run?_value : ∀ (j : Json) (fs : List Frame) (e : Expect) (ts : List Token), j.ReadsBack →
    e.allowsValue = true → fs.length + j.depth ≤ maxDepth →
    State.run? (.reading fs e) (j.toTokens ++ ts) = (State.put? fs j).bind (·.run? ts)
  | .null, _, _, _, _, he, _ => by simp [toTokens, State.run?, State.step?, he]
  | .bool _, _, _, _, _, he, _ => by simp [toTokens, State.run?, State.step?, he]
  | .number _, _, _, _, _, he, _ => by simp [toTokens, State.run?, State.step?, he]
  | .string _, _, _, _, _, he, _ => by simp [toTokens, State.run?, State.step?, he]
  | .array [], fs, e, ts, _, he, hd => by
    have shallow : fs.length < maxDepth := by simp only [depth] at hd; omega
    have opened : State.step? (.reading fs e) .openArray =
      some (.reading (.array [] :: fs) .itemOrClose) := by simp [State.step?, he]
    simp only [toTokens, itemTokens, separated, List.cons_append, List.nil_append]
    rw [run?_cons _ opened, State.run?, step?_closeArray rfl shallow]
    rfl
  | .array (j :: js), fs, e, ts, h, he, hd => by
    simp only [depth, depthItems] at hd
    have opened : State.step? (.reading fs e) .openArray =
      some (.reading (.array [] :: fs) .itemOrClose) := by simp [State.step?, he]
    simp only [toTokens, itemTokens, separated, List.cons_append, List.append_assoc,
      List.nil_append]
    rw [run?_cons _ opened, run?_value j _ _ _ h.1 rfl (by simp only [List.length_cons]; omega)]
    exact run?_moreItems js fs [j] ts h.2 (by omega)
  | .object [], fs, e, ts, _, he, hd => by
    have shallow : fs.length < maxDepth := by simp only [depth] at hd; omega
    have opened : State.step? (.reading fs e) .openObject =
      some (.reading (.object [] none :: fs) .nameOrClose) := by simp [State.step?, he]
    simp only [toTokens, memberTokens, separated, List.cons_append, List.nil_append]
    have closed := step?_closeObject (e := .nameOrClose) [] rfl shallow
    rw [named, List.map_nil] at closed
    rw [run?_cons _ opened, State.run?, closed]
    rfl
  | .object ((k, j) :: ms), fs, e, ts, h, he, hd => by
    simp only [depth, depthMembers] at hd
    have opened : State.step? (.reading fs e) .openObject =
      some (.reading (.object [] none :: fs) .nameOrClose) := by simp [State.step?, he]
    simp only [toTokens, memberTokens, separated, List.cons_append, List.append_assoc,
      List.nil_append]
    rw [run?_cons _ opened, run?_cons (.reading (.object [] (some (some k)) :: fs) .colon) rfl,
      run?_cons (.reading (.object [] (some (some k)) :: fs) .value) rfl,
      run?_value j _ _ _ h.1 rfl (by simp only [List.length_cons]; omega)]
    exact run?_moreMembers ms fs [(k, j)] ts h.2 (by omega)
  | .outOfRange, _, _, _, h, _, _ => h.elim
termination_by structural j => j
theorem run?_moreItems : ∀ (js : List Json) (fs : List Frame) (done : List Json) (ts : List Token),
    ItemsReadBack js → fs.length + 1 + depthItems js ≤ maxDepth →
    State.run? (.reading (.array done :: fs) .next) (more (itemTokens js) ++ .closeArray :: ts) =
      (State.put? fs (.array (done.reverse ++ js))).bind (·.run? ts)
  | [], fs, done, ts, _, hd => by
    simp only [itemTokens, more, List.flatMap_nil, List.nil_append, List.append_nil]
    rw [State.run?, step?_closeArray rfl (by omega)]
  | j :: js, fs, done, ts, h, hd => by
    simp only [depthItems] at hd
    simp only [itemTokens, more, List.flatMap_cons, List.cons_append, List.append_assoc]
    rw [run?_cons (.reading (.array done :: fs) .value) rfl,
      run?_value j _ _ _ h.1 rfl (by simp only [List.length_cons]; omega)]
    have rest := run?_moreItems js fs (j :: done) ts h.2 (by omega)
    simpa [State.put?, more] using rest
termination_by structural js => js
theorem run?_moreMembers : ∀ (ms : List (String × Json)) (fs : List Frame)
    (done : List (String × Json)) (ts : List Token),
    MembersReadBack ms → fs.length + 1 + depthMembers ms ≤ maxDepth →
    State.run? (.reading (.object (named done) none :: fs) .next)
        (more (memberTokens ms) ++ .closeObject :: ts) =
      (State.put? fs (.object (done.reverse ++ ms))).bind (·.run? ts)
  | [], fs, done, ts, _, hd => by
    simp only [memberTokens, more, List.flatMap_nil, List.nil_append, List.append_nil]
    rw [State.run?, step?_closeObject _ rfl (by omega)]
  | (k, j) :: ms, fs, done, ts, h, hd => by
    simp only [depthMembers] at hd
    simp only [memberTokens, more, List.flatMap_cons, List.cons_append, List.append_assoc]
    rw [run?_cons (.reading (.object (named done) none :: fs) .name) rfl,
      run?_cons (.reading (.object (named done) (some (some k)) :: fs) .colon) rfl,
      run?_cons (.reading (.object (named done) (some (some k)) :: fs) .value) rfl,
      run?_value j _ _ _ h.1 rfl (by simp only [List.length_cons]; omega)]
    have rest := run?_moreMembers ms fs ((k, j) :: done) ts h.2 (by omega)
    simpa [State.put?, more] using rest
termination_by structural ms => ms
end

theorem parse?_compact {j : Json} (h : j.ReadsBack) (hd : j.depth ≤ maxDepth) :
    parse? j.compact = some j := by
  have run := run?_value j [] .value [] h rfl (by simpa using hd)
  rw [List.append_nil] at run
  rw [parse?, (lexes_compact j h).tokens?, Option.bind_eq_bind, Option.bind_some, run]
  rfl

end StreamSql.Json
