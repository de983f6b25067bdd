import StreamSql.Json.Record
import StreamSql.Proofs.Json.Text

namespace StreamSql.Json

theorem filter_eq_singleton {all : List (String × Json)} {m : String × Json}
    (nodup : (all.map Prod.fst).Nodup) (mem : m ∈ all) :
    all.filter (fun n => decide (n.1 = m.1)) = [m] := by
  induction all with
  | nil => cases mem
  | cons n ns ih =>
    obtain ⟨fresh, nodup⟩ := List.nodup_cons.1 nodup
    rcases List.mem_cons.1 mem with rfl | mem
    · have others : ns.filter (fun n => decide (n.1 = m.1)) = [] := by
        refine List.filter_eq_nil_iff.2 fun l hl => ?_
        simpa using fun same : l.1 = m.1 => fresh (List.mem_map.2 ⟨l, hl, same⟩)
      simp [others]
    · have ne : n.1 ≠ m.1 := fun same => fresh (List.mem_map.2 ⟨m, mem, same.symm⟩)
      simp [ne, ih nodup mem]

theorem byName_map {all ms : List (String × Json)} (nodup : (all.map Prod.fst).Nodup)
    (sub : ∀ m ∈ ms, m ∈ all) :
    byName all (ms.map Prod.fst) = some (ms.map fun m => (m.1, .given m.2)) := by
  induction ms with
  | nil => rfl
  | cons m ms ih =>
    have slot : slot? all m.1 = some (.given m.2) := by
      rw [slot?, filter_eq_singleton nodup (sub m (by simp))]
    rw [List.map_cons, byName, slot, ih fun m mem => sub m (by simp [mem])]
    rfl

theorem fields?_object {ms : List (String × Json)} {names : List String}
    (hn : ms.map Prod.fst = names) (nodup : names.Nodup) :
    (object ms).fields? names = some (ms.map fun m => (m.1, .given m.2)) := by
  subst hn
  exact byName_map nodup fun _ => id

theorem caseFields?_object (o : Origin) {ms : List (String × Json)} {names : List String}
    (hn : ms.map Prod.fst = names) (nodup : names.Nodup) :
    (object ms).caseFields? o names = some (ms.map fun m => (m.1, .given m.2)) :=
  fields?_object hn nodup

namespace Fields

variable {α : Type} (n : String) (j : Json) (fs : Fields) (name : String) (read : Json → Option α)

theorem get_cons (s : Slot) : get ((n, s) :: fs) name = if name = n then s else fs.get name := by
  unfold get
  rw [List.lookup_cons]
  split <;> simp_all

theorem required_cons : required ((n, .given j) :: fs) name read =
    if name = n then read j else fs.required name read := by
  by_cases same : name = n <;> simp [required, get_cons, same]

theorem orElse_cons (a : α) : orElse ((n, .given j) :: fs) name read a =
    if name = n then read j else fs.orElse name read a := by
  by_cases same : name = n <;> simp [orElse, get_cons, same]

theorem optional_cons : optional ((n, .given j) :: fs) name read =
    if name = n then nullable? read j else fs.optional name read :=
  orElse_cons n j fs name (nullable? read) none

theorem nullable_cons : nullable ((n, .given j) :: fs) name read =
    if name = n then nullable? read j else fs.nullable name read := by
  by_cases same : name = n <;> simp [nullable, get_cons, same]

end Fields

/-- A step of a reader, as a rewriting rule. `Option.bind_some` holds by computation, in the course
of which the kernel may compute the readers of numbers of 64 bits. -/
theorem some_bind {α β : Type} (a : α) (f : α → Option β) : (some a).bind f = f a := by
  rw [Option.bind_some]

section

variable {α : Type} {write : α → Json} {read : Json → Option α}

theorem nullable?_of_ne_null {j : Json} (h : j ≠ .null) : nullable? read j = (read j).map some := by
  cases j <;> first | rfl | exact absurd rfl h

theorem nullable?_ofOption {a : Option α}
    (h : ∀ x ∈ a, write x ≠ .null ∧ read (write x) = some x) :
    nullable? read (ofOption write a) = some a := by
  cases a with
  | none => rfl
  | some x =>
    obtain ⟨ne, back⟩ := h x rfl
    rw [ofOption, nullable?_of_ne_null ne, back]
    rfl

theorem readsBack_ofOption {a : Option α} (h : ∀ x ∈ a, (write x).ReadsBack) :
    (ofOption write a).ReadsBack := by
  cases a with
  | none => trivial
  | some x => exact h x rfl

theorem itemsReadBack_map {xs : List α} (h : ∀ x ∈ xs, (write x).ReadsBack) :
    ItemsReadBack (xs.map write) := by
  induction xs with
  | nil => trivial
  | cons x xs ih => exact ⟨h x (by simp), ih fun y mem => h y (by simp [mem])⟩

theorem mapM_map {xs : List α} (h : ∀ x ∈ xs, read (write x) = some x) :
    (xs.map write).mapM read = some xs := by
  induction xs with
  | nil => rfl
  | cons x xs ih =>
    rw [List.map_cons, List.mapM_cons, h x (by simp), ih fun y mem => h y (by simp [mem])]
    rfl

theorem list?_map {xs : List α} (h : ∀ x ∈ xs, read (write x) = some x) :
    list? read (.array (xs.map write)) = some xs :=
  mapM_map h

theorem choice?_tag {all : List α} {tag : α → String} (nodup : (all.map tag).Nodup) {a : α}
    (mem : a ∈ all) : choice? all tag (.string (tag a)) = some a := by
  change all.find? (fun b => decide (tag b = tag a)) = some a
  induction all with
  | nil => cases mem
  | cons b bs ih =>
    obtain ⟨fresh, nodup⟩ := List.nodup_cons.1 nodup
    rcases List.mem_cons.1 mem with rfl | mem
    · simp
    · have ne : tag b ≠ tag a := fun same => fresh (List.mem_map.2 ⟨a, mem, same.symm⟩)
      simpa [ne] using ih nodup mem

end

theorem toNat?_whole {bound n : Nat} (h : n < bound)
    (fits : -0x8000000000000000 ≤ (n : Int) ∧ (n : Int) < 0x10000000000000000) :
    (Number.whole n fits).toNat? bound = some n := by
  simp [Number.toNat?, Number.toInt?, h]

theorem int64?_ofInt64 (n : Int64) : int64? (ofInt64 n) = some n := by
  have lt : n.toInt < 0x8000000000000000 := Int64.toInt_lt n
  simp only [int64?, ofInt64, number?, Option.bind_some, Number.ofInt64, Number.toInt64?,
    Number.toInt?, Option.bind_eq_bind, lt, if_true, Int64.ofInt_toInt]

theorem uint64?_ofUInt64 (n : UInt64) : uint64? (ofUInt64 n) = some n := by
  have lt : n.toNat < 0x10000000000000000 := by
    have := n.toNat_lt
    omega
  have value : (Number.ofUInt64 n).toNat? 0x10000000000000000 = some n.toNat := toNat?_whole lt _
  rw [uint64?, ofUInt64, number?, Option.bind_eq_bind, Option.bind_some, value]
  exact congrArg some UInt64.ofNat_toNat

theorem uint32?_ofUInt32 (n : UInt32) : uint32? (ofUInt32 n) = some n := by
  have lt : n.toNat < 0x100000000 := by
    have := n.toNat_lt
    omega
  have value : (Number.ofUInt32 n).toNat? 0x100000000 = some n.toNat := toNat?_whole lt _
  rw [uint32?, ofUInt32, number?, Option.bind_eq_bind, Option.bind_some, value]
  exact congrArg some UInt32.ofNat_toNat

theorem uint8?_ofUInt8 (n : UInt8) : uint8? (ofUInt8 n) = some n := by
  have lt : n.toNat < 0x100 := by
    have := n.toNat_lt
    omega
  have value : (Number.ofUInt8 n).toNat? 0x100 = some n.toNat := toNat?_whole lt _
  rw [uint8?, ofUInt8, number?, Option.bind_eq_bind, Option.bind_some, value]
  exact congrArg some UInt8.ofNat_toNat

end StreamSql.Json
