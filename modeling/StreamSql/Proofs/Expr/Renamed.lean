import StreamSql.Proofs.Expr.Rename
import StreamSql.Proofs.Expr.WireName
import StreamSql.Proofs.Text.Renaming

namespace StreamSql

open Text (Renaming)

variable {names : List String}

namespace Site

variable {site : Site} {ps : List String} {p q : String}

theorem child_ne_here (site : Site) (i : Nat) : site.child i ≠ .here := by
  unfold child
  split
  · nofun
  · split <;> nofun
  · nofun

theorem placed_ne_here {α : Type} {method : Method} (other : ∀ f, method ≠ .higherOrder f)
    {as : List α} {d : α × Site} (mem : d ∈ site.placed (.argument method) as) : d.2 ≠ .here := by
  induction as generalizing site with
  | nil => cases mem
  | cons a as ih =>
    rcases List.mem_cons.1 mem with rfl | mem
    · rw [argument_eq _ other]
      exact child_ne_here site 0
    · exact ih mem

theorem params_eq (ne : site ≠ .here) (ρ : String → String) : site.params ρ ps = ps := by
  cases site with
  | here => exact absurd rfl ne
  | _ => rfl

theorem name_body_of_mem (ne : site ≠ .here) (ρ : String → String) (mem : p ∈ ps) :
    (site.body ps).name ρ p = p := by
  cases site with
  | here => exact absurd rfl ne
  | within ds => simp [body, name, mem]
  | toward path => exact name_child ρ p (.toward path) 0

theorem name_body_of_not_mem (ρ : String → String) (mem : p ∉ ps) :
    (site.body ps).name ρ p = site.name ρ p := by
  cases site with
  | here => simp [body, name, mem]
  | within ds => simp [body, name, mem]
  | toward path => exact name_child ρ p (.toward path) 0

theorem name_eq_or (site : Site) (ρ : String → String) (p : String) :
    site.name ρ p = p ∨ site.name ρ p = ρ p := by
  cases site with
  | within ds =>
    simp only [name]
    split <;> simp
  | _ => exact .inl rfl

theorem params_eq_map (site : Site) (ρ : String → String) (ps : List String) :
    site.params ρ ps = ps.map ((site.body ps).name ρ) := by
  by_cases here : site = .here
  · subst here
    exact List.map_congr_left fun p mem => by simp [body, name, mem]
  · rw [params_eq here]
    conv_lhs => rw [← List.map_id' ps]
    exact List.map_congr_left fun p mem => (name_body_of_mem here ρ mem).symm

theorem getLast?_params {ρ : String → String} :
    (site.params ρ ps).getLast? = some q ↔
      ∃ p, ps.getLast? = some p ∧ (site.body ps).name ρ p = q := by
  rw [params_eq_map, List.getLast?_map, Option.map_eq_some_iff]

variable (ρ : Renaming names) (hp : p ∈ names) (hq : q ∈ names)

include hp hq

theorem name_inj (same : site.name ρ.map p = site.name ρ.map q) : p = q := by
  rcases site.name_eq_or ρ.map p with keeps | new <;> rcases site.name_eq_or ρ.map q with keeps' | new'
  · rw [← keeps, same, keeps']
  · rw [keeps, new'] at same
    exact (ρ.eq_of_map_eq hq hp same.symm).symm
  · rw [new, keeps'] at same
    exact ρ.eq_of_map_eq hp hq same
  · rw [new, new'] at same
    exact ρ.inj p hp q hq same

theorem eq_of_name_eq (same : site.name ρ.map p = q) : p = q := by
  rcases site.name_eq_or ρ.map p with keeps | new
  · rw [← keeps, same]
  · exact ρ.eq_of_map_eq hp hq (new ▸ same)

theorem eq_of_name_eq_map (same : site.name ρ.map p = ρ.map q) : p = q := by
  rcases site.name_eq_or ρ.map p with keeps | new
  · exact (ρ.eq_of_map_eq hq hp (same.symm.trans keeps)).symm
  · exact ρ.inj p hp q hq (new.symm.trans same)

end Site

namespace Scope

variable {s : Scope} {ps : List String} {kind : Option TypeKind} {p : String}

theorem itemKind?_items (s : Scope) (ps : List String) (kind : Option TypeKind) (p : String) :
    (s.items ps kind).itemKind? p =
      if ps.getLast? = some p then kind.or (s.itemKind? p) else s.itemKind? p := by
  unfold items
  cases last : ps.getLast? with
  | none => rfl
  | some q =>
    cases kind with
    | none => simp [withItemKind, itemKind?, bind]
    | some k =>
      by_cases same : p = q
      · simp [withItemKind, itemKind?, bind, same]
      · simp [withItemKind, itemKind?, bind, List.lookup_cons, beq_eq_false_iff_ne.2 same, Ne.symm same]

def Apart (s : Scope) (ps : List String) (kind : Option TypeKind) : Prop :=
  ∀ p ∈ ps, (ps.getLast? = some p ∧ kind.isSome) ∨ s.itemKind? p = none

/-- Scopes that are alike under all renamings, but for names. A name that no kind is known of has none
by its new name either. -/
structure Steady (sources : List ScopeSource) (S : Renaming names → Scope) : Prop where
  sources : ∀ ρ, (S ρ).sources = sources
  style : ∀ ρ, (S ρ).style = (S (.refl names)).style
  quiet : ∀ ρ, ∀ p ∈ names, (S (.refl names)).itemKind? p = none →
    (S ρ).itemKind? p = none ∧ (S ρ).itemKind? (ρ.map p) = none

structure Renamed (s : Scope) (S : Renaming names → Scope) (site : Site) : Prop
    extends Steady s.sources S where
  lookup : ∀ ρ, ∀ p ∈ names, ∀ b, s.lookup? p = some b → (S ρ).lookup? (site.name ρ.map p) = some b
  kind : ∀ ρ, ∀ p ∈ names, s.lookup? p = some .item →
    (S ρ).itemKind? (site.name ρ.map p) = s.itemKind? p

namespace Steady

variable {sources : List ScopeSource} {S : Renaming names → Scope}

theorem quiet_name (h : Steady sources S) {site : Site} {ρ : Renaming names} (mem : p ∈ names)
    (none : (S (.refl names)).itemKind? p = none) :
    (S ρ).itemKind? (site.name ρ.map p) = .none := by
  have quiet := h.quiet ρ p mem none
  rcases site.name_eq_or ρ.map p with keeps | new
  · rw [keeps]
    exact quiet.1
  · rw [new]
    exact quiet.2

theorem bind (h : Steady sources S) (bs : List (String × Binding)) :
    Steady sources fun ρ => (S ρ).bind bs where
  sources := h.sources
  style := h.style
  quiet := h.quiet

theorem items (h : Steady sources S) (site : Site) (known : ps ⊆ names) :
    Steady sources fun ρ => (S ρ).items (site.params ρ.map ps) kind where
  sources ρ := sources_items.trans (h.sources ρ)
  style ρ := by
    have style (s : Scope) (ps : List String) : (s.items ps kind).style = s.style := by
      cases last : ps.getLast? <;> cases kind <;> simp [Scope.items, Scope.bind, withItemKind, last, Scope.style]
    rw [style, style, h.style]
  quiet ρ p mem none := by
    rw [Renaming.refl_map, Site.params_id, itemKind?_items] at none
    have old : (S (.refl names)).itemKind? p = .none := by
      split at none
      · exact (Option.or_eq_none_iff.1 none).2
      · exact none
    obtain ⟨keeps, new⟩ := h.quiet ρ p mem old
    -- Only the last parameter could have got a kind.
    have last {q : String} (same : ∀ p', (site.body ps).name ρ.map p' = q → p' ∈ names → p' = p)
        (found : (site.params ρ.map ps).getLast? = some q) : kind = .none := by
      obtain ⟨p', last, rfl⟩ := Site.getLast?_params.1 found
      obtain rfl := same p' rfl (known (List.mem_of_getLast? last))
      rw [if_pos last] at none
      exact (Option.or_eq_none_iff.1 none).1
    rw [itemKind?_items, itemKind?_items, keeps, new]
    constructor
    · split
      · next found =>
        rw [last (fun p' same hp => Site.eq_of_name_eq ρ hp mem same) found]
        rfl
      · rfl
    · split
      · next found =>
        rw [last (fun p' same hp => Site.eq_of_name_eq_map ρ hp mem same) found]
        rfl
      · rfl

end Steady

namespace Renamed

variable {S : Renaming names → Scope} {site : Site}

theorem of_name (h : s.Renamed S site) {site' : Site}
    (same : ∀ ρ p, site'.name ρ p = site.name ρ p) : s.Renamed S site' where
  toSteady := h.toSteady
  lookup ρ p mem b found := same ρ.map p ▸ h.lookup ρ p mem b found
  kind ρ p mem found := same ρ.map p ▸ h.kind ρ p mem found

theorem lookup?_bind_or (s : Scope) (bs : List (String × Binding)) (p : String) :
    (s.bind bs).lookup? p = (bs.reverse.lookup p).or (s.lookup? p) := by
  simp [lookup?, Scope.bind, List.lookup_append]

theorem lookup_zip_of_not_mem {bs : List Binding} (h : p ∉ ps) :
    (ps.zip bs).reverse.lookup p = none := by
  rw [List.lookup_eq_none_iff]
  intro b mem
  have bound : b.1 ∈ ps := List.of_mem_zip (List.mem_reverse.1 mem) |>.1
  simpa using fun same : p = b.1 => h (same ▸ bound)

theorem mem_of_lookup_zip {bs : List Binding} {b : Binding}
    (bound : (ps.zip bs).reverse.lookup p = some b) : b ∈ bs := by
  obtain ⟨l, r, zip, -⟩ := List.lookup_eq_some_iff.1 bound
  have inside : (p, b) ∈ ps.zip bs := List.mem_reverse.1 (by simp [zip])
  exact (List.of_mem_zip inside).2

theorem lookup_zip_of_mem {bs : List Binding} (enough : ps.length ≤ bs.length) (mem : p ∈ ps) :
    ∃ b, (ps.zip bs).reverse.lookup p = some b := by
  refine Option.ne_none_iff_exists'.1 fun none => ?_
  rw [List.lookup_eq_none_iff] at none
  rw [← List.map_fst_zip enough] at mem
  obtain ⟨b, inside, rfl⟩ := List.mem_map.1 mem
  exact absurd (none b (List.mem_reverse.2 inside)) (by simp)

theorem name_not_mem_params (known : ps ⊆ names) (ρ : Renaming names) (hp : p ∈ names) (mem : p ∉ ps) :
    site.name ρ.map p ∉ site.params ρ.map ps := by
  rw [Site.params_eq_map, List.mem_map]
  rintro ⟨q, hq, same⟩
  have outer : (site.body ps).name ρ.map p = site.name ρ.map p := Site.name_body_of_not_mem ρ.map mem
  rw [← outer] at same
  exact mem (Site.name_inj ρ (known hq) hp same ▸ hq)

theorem lookup?_bind_ne_item {bs : List Binding}
    (enough : ps.length ≤ bs.length ∨ ∀ p, s.lookup? p = none) (rows : ∀ b ∈ bs, b ≠ .item)
    (mem : p ∈ ps) : (s.bind (ps.zip bs)).lookup? p ≠ some .item := by
  intro found
  rw [lookup?_bind_or, Option.or_eq_some_iff] at found
  rcases found with bound | ⟨free, found⟩
  · exact rows _ (mem_of_lookup_zip bound) rfl
  · rcases enough with enough | unbound
    · obtain ⟨b, bound⟩ := lookup_zip_of_mem enough mem
      exact absurd (bound.symm.trans free) nofun
    · exact absurd ((unbound p).symm.trans found) nofun

theorem bind (h : s.Renamed S site) (ne : site ≠ .here) {bs : List Binding} (known : ps ⊆ names)
    (enough : ps.length ≤ bs.length ∨ ∀ p, s.lookup? p = none) (rows : ∀ b ∈ bs, b ≠ .item) :
    (s.bind (ps.zip bs)).Renamed (fun ρ => (S ρ).bind (ps.zip bs)) (site.body ps) where
  toSteady := h.toSteady.bind _
  lookup ρ p hp b found := by
    rw [lookup?_bind_or] at found ⊢
    by_cases mem : p ∈ ps
    · rw [Site.name_body_of_mem ne ρ.map mem]
      rcases enough with enough | unbound
      · obtain ⟨b', bound⟩ := lookup_zip_of_mem enough mem
        rw [bound] at found ⊢
        exact found
      · rw [unbound p, Option.or_none] at found
        rw [found, Option.some_or]
    · have new : site.name ρ.map p ∉ site.params ρ.map ps := name_not_mem_params known ρ hp mem
      rw [Site.params_eq ne] at new
      rw [lookup_zip_of_not_mem mem] at found
      rw [Site.name_body_of_not_mem ρ.map mem, lookup_zip_of_not_mem new]
      exact h.lookup ρ p hp b found
  kind ρ p hp found := by
    by_cases mem : p ∈ ps
    · exact absurd found (lookup?_bind_ne_item enough rows mem)
    · rw [lookup?_bind_or, lookup_zip_of_not_mem mem] at found
      rw [Site.name_body_of_not_mem ρ.map mem]
      exact h.kind ρ p hp found

theorem items (h : s.Renamed S site) (known : ps ⊆ names) (apart : s.Apart ps kind)
    (apart' : (S (.refl names)).Apart ps kind) :
    (s.items ps kind).Renamed (fun ρ => (S ρ).items (site.params ρ.map ps) kind) (site.body ps) where
  toSteady := by
    rw [sources_items]
    exact h.toSteady.items site known
  lookup ρ p hp b found := by
    rw [lookup?_items] at found ⊢
    by_cases mem : p ∈ ps
    · have bound : (site.body ps).name ρ.map p ∈ site.params ρ.map ps := by
        rw [Site.params_eq_map]
        exact List.mem_map_of_mem mem
      rw [if_pos mem] at found
      rw [if_pos bound, found]
    · have free : site.name ρ.map p ∉ site.params ρ.map ps := name_not_mem_params known ρ hp mem
      rw [if_neg mem] at found
      rw [Site.name_body_of_not_mem ρ.map mem, if_neg free]
      exact h.lookup ρ p hp b found
  kind ρ p hp found := by
    have last : (site.params ρ.map ps).getLast? = some ((site.body ps).name ρ.map p) ↔
        ps.getLast? = some p := by
      rw [Site.getLast?_params]
      constructor
      · rintro ⟨q, last, same⟩
        exact Site.name_inj ρ (known (List.mem_of_getLast? last)) hp same ▸ last
      · exact fun last => ⟨p, last, rfl⟩
    rw [itemKind?_items, itemKind?_items]
    simp only [last]
    by_cases mem : p ∈ ps
    · have unknown (none : (S (.refl names)).itemKind? p = none) :
          (S ρ).itemKind? ((site.body ps).name ρ.map p) = .none := h.quiet_name hp none
      rcases apart p mem with ⟨last, some⟩ | none
      · obtain ⟨k, rfl⟩ := Option.isSome_iff_exists.1 some
        simp [last]
      · rcases apart' p mem with ⟨last, some⟩ | none'
        · obtain ⟨k, rfl⟩ := Option.isSome_iff_exists.1 some
          simp [last]
        · rw [none, unknown none']
    · rw [lookup?_items, if_neg mem] at found
      have other : ps.getLast? ≠ some p := fun last => mem (List.mem_of_getLast? last)
      rw [if_neg other, if_neg other, Site.name_body_of_not_mem ρ.map mem]
      exact h.kind ρ p hp found

end Renamed
end Scope
end StreamSql
