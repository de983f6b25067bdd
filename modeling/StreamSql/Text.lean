
namespace StreamSql.Text

def join (sep : String) : List String → String
  | [] => ""
  | [t] => t
  | t :: ts => t ++ sep ++ join sep ts

theorem join_cons_cons (sep t u : String) (ts : List String) :
    join sep (t :: u :: ts) = t ++ sep ++ join sep (u :: ts) := rfl

theorem map_join_induction {ι α : Type} {P : (ι → String) → Prop} {sep : String} {xs : List α}
    {t : α → ι → String} (nil : P fun _ => "")
    (append : ∀ {u v : ι → String}, P u → P v → P fun i => u i ++ sep ++ v i)
    (h : ∀ x ∈ xs, P (t x)) : P fun i => join sep (xs.map fun x => t x i) := by
  induction xs with
  | nil => exact nil
  | cons x xs ih =>
    cases xs with
    | nil => exact h x List.mem_cons_self
    | cons y ys =>
      exact append (h x List.mem_cons_self) (ih fun z mem => h z (List.mem_cons_of_mem x mem))

theorem join_induction {P : String → Prop} {sep : String} {ts : List String} (nil : P "")
    (append : ∀ {t u : String}, P t → P u → P (t ++ sep ++ u)) (h : ∀ t ∈ ts, P t) :
    P (join sep ts) := by
  have joined : P (join sep (ts.map fun t => t)) :=
    map_join_induction (ι := Unit) (P := fun t => P (t ())) (t := fun t _ => t) nil append h
  rwa [List.map_id'] at joined

theorem exists_join_eq (sep : String) {t : String} {ts : List String} (mem : t ∈ ts) :
    ∃ before behind, join sep ts = before ++ t ++ behind := by
  induction ts with
  | nil => cases mem
  | cons u us ih =>
    cases us with
    | nil =>
      obtain rfl := List.mem_singleton.1 mem
      exact ⟨"", "", by simp [join]⟩
    | cons u' us =>
      rcases List.mem_cons.1 mem with rfl | mem
      · exact ⟨"", sep ++ join sep (u' :: us), by simp [join_cons_cons, String.append_assoc]⟩
      · obtain ⟨before, behind, eq⟩ := ih mem
        exact ⟨u ++ sep ++ before, behind, by simp only [join_cons_cons, eq, String.append_assoc]⟩

/-- The characters with the Unicode property White_Space. -/
def isBlank (c : Char) : Bool :=
  let n := c.toNat
  (9 ≤ n && n ≤ 13) || n = 0x20 || n = 0x85 || n = 0xA0 || n = 0x1680 ||
    (0x2000 ≤ n && n ≤ 0x200A) || n = 0x2028 || n = 0x2029 || n = 0x202F || n = 0x205F || n = 0x3000

theorem isBlank_of_isWhitespace {c : Char} (h : c.isWhitespace = true) : isBlank c = true := by
  simp only [Char.isWhitespace, Bool.or_eq_true, decide_eq_true_eq] at h
  rcases h with ((h | h) | h) | h <;> subst h <;> decide

def trimStart (cs : List Char) : List Char := cs.dropWhile isBlank

def trimEnd (cs : List Char) : List Char := (cs.reverse.dropWhile isBlank).reverse

def trim (cs : List Char) : List Char := trimEnd (trimStart cs)

def afterFirst? (c : Char) : List Char → Option (List Char)
  | d :: cs => if d = c then some cs else none
  | [] => none

def beforeLast? (c : Char) (cs : List Char) : Option (List Char) :=
  (afterFirst? c cs.reverse).map List.reverse

def cutAt? (c : Char) (cs : List Char) : Option (List Char × List Char) :=
  match cs.dropWhile (· ≠ c) with
  | _ :: rest => some (cs.takeWhile (· ≠ c), rest)
  | [] => none

def contains (part : List Char) : List Char → Bool
  | [] => part.isEmpty
  | c :: cs => part.isPrefixOf (c :: cs) || contains part cs

def replaceChar (old new : Char) (s : String) : String :=
  .ofList (s.toList.map fun c => if c = old then new else c)

def padRight (width : Nat) (s : String) : String :=
  s ++ .ofList (List.replicate (width - s.length) ' ')

def padNat (width n : Nat) : String :=
  let ds := Nat.toDigits 10 n
  .ofList (List.replicate (width - ds.length) '0' ++ ds)

def digitValue (c : Char) : Nat := c.toNat - '0'.toNat

def ofDigits (ds : List Char) : Nat := ds.foldl (fun n c => 10 * n + digitValue c) 0

end StreamSql.Text
