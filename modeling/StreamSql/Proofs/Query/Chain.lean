import Mathlib.Data.List.Induction
import StreamSql.Proofs.Query.Conditions

namespace StreamSql

namespace QueryNode

def source? : QueryNode → Option Source
  | .source s => some s
  | _ => none

def select? : QueryNode → Option Expr
  | .select e => some e
  | _ => none

def windowedBy? : QueryNode → Option Window
  | .windowedBy w => some w
  | _ => none

def partitionBy? : QueryNode → Option Expr
  | .partitionBy e => some e
  | _ => none

def take? : QueryNode → Option UInt64
  | .take n => some n
  | _ => none

theorem partitionBy?_eq_some (n : QueryNode) (e : Expr) :
    n.partitionBy? = some e ↔ n = .partitionBy e := by
  cases n <;> simp [partitionBy?]

theorem rows_eq_some (n : QueryNode) (e : Expr) :
    ConditionClause.rows.condition? n = some e ↔ n = .filter e := by
  cases n <;> simp [ConditionClause.condition?]

theorem groups_eq_some (n : QueryNode) (e : Expr) :
    ConditionClause.groups.condition? n = some e ↔ n = .having e := by
  cases n <;> simp [ConditionClause.condition?]

theorem select?_eq_some (n : QueryNode) (e : Expr) : n.select? = some e ↔ n = .select e := by
  cases n <;> simp [select?]

theorem join?_eq_some (n : QueryNode) (j : Join) : n.join? = some j ↔ n = .join j := by
  cases n <;> simp [join?]

theorem groupBy?_eq_some (n : QueryNode) (e : Expr) : n.groupBy? = some e ↔ n = .groupBy e := by
  cases n <;> simp [groupBy?]

theorem take?_eq_some (n : QueryNode) (m : UInt64) : n.take? = some m ↔ n = .take m := by
  cases n <;> simp [take?]

section

variable {α : Type} {f : QueryNode → Option α} {k : α → QueryNode} {ns : List QueryNode}
  (hf : ∀ n a, f n = some a ↔ n = k a)

include hf

theorem mem_filterMap_iff {a : α} : a ∈ ns.filterMap f ↔ k a ∈ ns := by
  simp [List.mem_filterMap, hf]

theorem head?_of_mem {a : α} (one : (ns.filterMap f).length ≤ 1) (mem : k a ∈ ns) :
    (ns.filterMap f).head? = some a := by
  have inside := (mem_filterMap_iff hf).2 mem
  match ns.filterMap f, one, inside with
  | [b], _, inside => rw [List.mem_singleton.1 inside, List.head?_cons]

theorem isSome_head?_iff : (ns.filterMap f).head?.isSome ↔ ∃ a, k a ∈ ns := by
  rw [List.head?_filterMap, List.findSome?_isSome_iff]
  simp only [Option.isSome_iff_exists, hf]
  constructor
  · rintro ⟨_, mem, a, rfl⟩
    exact ⟨a, mem⟩
  · rintro ⟨a, mem⟩
    exact ⟨_, mem, a, rfl⟩

end

/-- No source comes late, and there is one node at most of each kind that sets its clause. -/
structure Fit (ns : List QueryNode) : Prop where
  source : ns.filterMap source? = []
  select : (ns.filterMap select?).length ≤ 1
  groupBy : (ns.filterMap groupBy?).length ≤ 1
  windowedBy : (ns.filterMap windowedBy?).length ≤ 1
  partitionBy : (ns.filterMap partitionBy?).length ≤ 1

theorem fit_iff {ns : List QueryNode} :
    Fit ns ↔ ns.filterMap source? = [] ∧ (ns.filterMap select?).length ≤ 1 ∧
      (ns.filterMap groupBy?).length ≤ 1 ∧ (ns.filterMap windowedBy?).length ≤ 1 ∧
      (ns.filterMap partitionBy?).length ≤ 1 :=
  ⟨fun h => ⟨h.source, h.select, h.groupBy, h.windowedBy, h.partitionBy⟩,
    fun ⟨h, k, l, m, n⟩ => ⟨h, k, l, m, n⟩⟩

end QueryNode

namespace Clauses

open QueryNode

def ofChain (ns : List QueryNode) : Clauses where
  select := (ns.filterMap select?).head?
  filters := ns.filterMap ConditionClause.rows.condition?
  joins := ns.filterMap join?
  groupBy := (ns.filterMap groupBy?).head?
  having := ns.filterMap ConditionClause.groups.condition?
  window := (ns.filterMap windowedBy?).head?
  partitionBy := (ns.filterMap partitionBy?).head?
  limit := (ns.filterMap take?).min?

theorem ofNodes_append (c : Clauses) (ns : List QueryNode) (n : QueryNode) :
    c.ofNodes (ns ++ [n]) = c.ofNodes ns >>= fun d => d.add n := by
  induction ns generalizing c with
  | nil =>
    simp only [List.nil_append, ofNodes, Compiled.ok_bind]
    cases c.add n <;> rfl
  | cons m ns ih => simp only [List.cons_append, ofNodes, bind_assoc, ih]

theorem setOnce_head? {α : Type} (k : Clause) {as : List α} (a : α) (x : Option α) :
    setOnce k as.head? a = .ok x ↔ (as ++ [a]).length ≤ 1 ∧ (as ++ [a]).head? = x := by
  cases as with
  | nil => simp [setOnce]
  | cons b as => simp [setOnce, unsupported]

theorem min?_concat (ns : List UInt64) (n : UInt64) :
    (ns ++ [n]).min? = some (ns.min?.elim n (min · n)) := by
  cases ns with
  | nil => rfl
  | cons m ns =>
    rw [List.cons_append, List.min?_cons', List.min?_cons', List.foldl_append]
    rfl

theorem filterMap_concat {α : Type} (f : QueryNode → Option α) (ns : List QueryNode)
    (n : QueryNode) : (ns ++ [n]).filterMap f = ns.filterMap f ++ (f n).toList := by
  rw [List.filterMap_append, List.filterMap_cons]
  cases f n <;> rfl

theorem add_ofChain {ns : List QueryNode} (fit : Fit ns) (n : QueryNode) (d : Clauses) :
    (ofChain ns).add n = .ok d ↔ Fit (ns ++ [n]) ∧ ofChain (ns ++ [n]) = d := by
  obtain ⟨source, select, groupBy, windowedBy, partitionBy⟩ := fit
  rw [fit_iff]
  cases n with
  | source s => simp [add, invalid, source?]
  | select =>
    simp only [add, Compiled.bind_eq_ok, ofChain, filterMap_concat, setOnce_head?]
    simp [source?, select?, join?, groupBy?, windowedBy?, partitionBy?, take?,
      ConditionClause.condition?, source, groupBy, windowedBy, partitionBy]
  | groupBy =>
    simp only [add, Compiled.bind_eq_ok, ofChain, filterMap_concat, setOnce_head?]
    simp [source?, select?, join?, groupBy?, windowedBy?, partitionBy?, take?,
      ConditionClause.condition?, source, select, windowedBy, partitionBy]
  | windowedBy =>
    simp only [add, Compiled.bind_eq_ok, ofChain, filterMap_concat, setOnce_head?]
    simp [source?, select?, join?, groupBy?, windowedBy?, partitionBy?, take?,
      ConditionClause.condition?, source, select, groupBy, partitionBy]
  | partitionBy =>
    simp only [add, Compiled.bind_eq_ok, ofChain, filterMap_concat, setOnce_head?]
    simp [source?, select?, join?, groupBy?, windowedBy?, partitionBy?, take?,
      ConditionClause.condition?, source, select, groupBy, windowedBy]
  | filter | join | having =>
    simp only [add, ofChain, filterMap_concat]
    simp [source?, select?, join?, groupBy?, windowedBy?, partitionBy?, take?,
      ConditionClause.condition?, source, select, groupBy, windowedBy, partitionBy]
  | take n =>
    simp only [add, ofChain, filterMap_concat]
    simp [min?_concat, source?, select?, join?, groupBy?, windowedBy?, partitionBy?, take?,
      ConditionClause.condition?, source, select, groupBy, windowedBy, partitionBy]

theorem fit_of_concat {ns : List QueryNode} {n : QueryNode} (h : Fit (ns ++ [n])) : Fit ns := by
  have le {α : Type} {f : QueryNode → Option α} (one : ((ns ++ [n]).filterMap f).length ≤ 1) :
      (ns.filterMap f).length ≤ 1 := by
    rw [filterMap_concat, List.length_append] at one
    omega
  refine ⟨?_, le h.select, le h.groupBy, le h.windowedBy, le h.partitionBy⟩
  have source := h.source
  rw [filterMap_concat] at source
  exact (List.append_eq_nil_iff.1 source).1

theorem ofNodes_eq_ok_iff {ns : List QueryNode} {c : Clauses} :
    empty.ofNodes ns = .ok c ↔ Fit ns ∧ ofChain ns = c := by
  -- A node is added to what the nodes before it give, so the last one comes off first.
  induction ns using List.reverseRecOn generalizing c with
  | nil =>
    have fit : Fit [] := by constructor <;> simp
    simp only [ofNodes, Except.ok.injEq, fit, true_and]
    rfl
  | append_singleton ns n ih =>
    rw [ofNodes_append, Compiled.bind_eq_ok]
    constructor
    · rintro ⟨d, first, last⟩
      obtain ⟨fit, rfl⟩ := ih.1 first
      exact (add_ofChain fit n c).1 last
    · rintro ⟨fit, rfl⟩
      have before := fit_of_concat fit
      exact ⟨_, ih.2 ⟨before, rfl⟩, (add_ofChain before n _).2 ⟨fit, rfl⟩⟩

end Clauses

namespace QueryNode

variable {ns ms : List QueryNode}

structure InOrder (ns ms : List QueryNode) : Prop where
  filters : ns.filterMap ConditionClause.rows.condition? = ms.filterMap ConditionClause.rows.condition?
  joins : ns.filterMap join? = ms.filterMap join?
  having : ns.filterMap ConditionClause.groups.condition? =
    ms.filterMap ConditionClause.groups.condition?

structure Rearranged (ns ms : List QueryNode) : Prop extends InOrder ns ms where
  perm : ns.Perm ms

structure Alike (ns ms : List QueryNode) : Prop extends InOrder ns ms where
  others : (ns.filter (·.take?.isNone)).Perm (ms.filter (·.take?.isNone))
  limit : (ns.filterMap take?).min? = (ms.filterMap take?).min?

theorem InOrder.symm (h : InOrder ns ms) : InOrder ms ns :=
  ⟨h.filters.symm, h.joins.symm, h.having.symm⟩

theorem Alike.symm (h : Alike ns ms) : Alike ms ns :=
  ⟨h.toInOrder.symm, h.others.symm, h.limit.symm⟩

theorem filterMap_others {α : Type} {f : QueryNode → Option α} (hf : ∀ n, f (.take n) = none)
    (ns : List QueryNode) : (ns.filter (·.take?.isNone)).filterMap f = ns.filterMap f := by
  rw [List.filterMap_filter]
  congr 1
  funext n
  cases n <;> simp [take?, hf]

theorem Alike.filterMap {α : Type} (h : Alike ns ms) (f : QueryNode → Option α)
    (hf : ∀ n, f (.take n) = none) : (ns.filterMap f).Perm (ms.filterMap f) := by
  rw [← filterMap_others hf ns, ← filterMap_others hf ms]
  exact h.others.filterMap f

theorem head?_eq_of_perm {α : Type} {as bs : List α} (one : as.length ≤ 1) (h : as.Perm bs) :
    as.head? = bs.head? := by
  match as, one with
  | [], _ => rw [h.nil_eq]
  | [a], _ => rw [List.perm_singleton.1 h.symm]

theorem min?_eq_of_perm {as bs : List UInt64} (h : as.Perm bs) : as.min? = bs.min? := by
  refine Option.ext fun a => ?_
  simp only [List.min?_eq_some_iff, h.mem_iff]

theorem Fit.alike (fit : Fit ns) (h : Alike ns ms) : Fit ms where
  source := by
    have perm := h.filterMap source? fun _ => rfl
    rw [fit.source] at perm
    exact perm.nil_eq.symm
  select := (h.filterMap select? fun _ => rfl).length_eq ▸ fit.select
  groupBy := (h.filterMap groupBy? fun _ => rfl).length_eq ▸ fit.groupBy
  windowedBy := (h.filterMap windowedBy? fun _ => rfl).length_eq ▸ fit.windowedBy
  partitionBy := (h.filterMap partitionBy? fun _ => rfl).length_eq ▸ fit.partitionBy

theorem Alike.ofChain_eq (h : Alike ns ms) (fit : Fit ns) :
    Clauses.ofChain ns = Clauses.ofChain ms := by
  rw [Clauses.ofChain, Clauses.ofChain, h.filters, h.joins, h.having, h.limit,
    head?_eq_of_perm fit.select (h.filterMap _ fun _ => rfl),
    head?_eq_of_perm fit.groupBy (h.filterMap _ fun _ => rfl),
    head?_eq_of_perm fit.windowedBy (h.filterMap _ fun _ => rfl),
    head?_eq_of_perm fit.partitionBy (h.filterMap _ fun _ => rfl)]

theorem Rearranged.alike (h : Rearranged ns ms) : Alike ns ms :=
  ⟨h.toInOrder, h.perm.filter _, min?_eq_of_perm (h.perm.filterMap take?)⟩

end QueryNode

namespace Query

open QueryNode

variable {o : CompileOptions} {first : Source} {pull : Bool} {ns ms ks : List QueryNode} {t : String}

theorem compile_source_eq_ok_iff :
    (Query.mk (.source first :: ns) pull).compile o = .ok t ↔
      Fit ns ∧ (let sources := StreamSql.scopeSources o first (Clauses.ofChain ns).joins
        ((Clauses.ofChain ns).text pull sources ⟨sources, [], [], false, o.decimalSeparator⟩).map
          (· ++ ";")) = .ok t := by
  simp only [compile_source, Compiled.bind_eq_ok, Clauses.ofNodes_eq_ok_iff, and_assoc,
    exists_and_left, exists_eq_left']

def clauses (q : Query) : Clauses := Clauses.ofChain (q.nodes.drop 1)

theorem compile_clauses {q : Query} (ok : q.compile o = .ok t) :
    ∃ first u, q.source? = some first ∧ q.outline.joins = q.clauses.joins ∧
      q.clauses.text q.pull (q.scopeSources o) (q.scope o) = .ok u ∧ t = u ++ ";" := by
  obtain ⟨first, ns, c, u, nodes, chain, joins, text, whole⟩ := compile_eq_ok ok
  have clauses : q.clauses = c := by
    rw [Query.clauses, nodes]
    exact (Clauses.ofNodes_eq_ok_iff.1 chain).2
  refine ⟨first, u, by rw [source?, nodes], ?_, ?_, whole⟩
  · rw [clauses, joins]
  · rw [clauses, text]

theorem compile_alike (h : Alike ns ms) :
    (Query.mk (.source first :: ns) pull).compile o = .ok t ↔
      (Query.mk (.source first :: ms) pull).compile o = .ok t := by
  have fit : Fit ns ↔ Fit ms := ⟨fun fit => fit.alike h, fun fit => fit.alike h.symm⟩
  simp only [compile_source_eq_ok_iff, fit]
  refine and_congr_right fun fit' => ?_
  rw [h.ofChain_eq (fit.2 fit')]

/-- Nodes of different kinds may stand in any order. Of several limits the least counts, wherever
they stand. -/
theorem compile_rearranged (h : Rearranged ns ms) :
    ((Query.mk (.source first :: ns) pull).compile o = .ok t ↔
      (Query.mk (.source first :: ms) pull).compile o = .ok t) ∧
    ∀ n, .take n ∈ ns → (∀ m, .take m ∈ ns → n ≤ m) →
      ∀ ks, ks.filterMap take? = [n] →
        ks.filter (·.take?.isNone) = ms.filter (·.take?.isNone) →
        ((Query.mk (.source first :: ns) pull).compile o = .ok t ↔
          (Query.mk (.source first :: ks) pull).compile o = .ok t) := by
  refine ⟨compile_alike h.alike, fun n mem least ks one others => compile_alike ?_⟩
  have gathered {α : Type} {f : QueryNode → Option α} (hf : ∀ n, f (.take n) = none) :
      ms.filterMap f = ks.filterMap f := by
    rw [← filterMap_others hf ms, ← filterMap_others hf ks, others]
  refine ⟨⟨?_, ?_, ?_⟩, others ▸ h.perm.filter _, ?_⟩
  · exact h.filters.trans (gathered fun _ => rfl)
  · exact h.joins.trans (gathered fun _ => rfl)
  · exact h.having.trans (gathered fun _ => rfl)
  · rw [one, List.min?_singleton, List.min?_eq_some_iff]
    refine ⟨(mem_filterMap_iff take?_eq_some).2 mem, fun m hm => ?_⟩
    exact least m ((mem_filterMap_iff take?_eq_some).1 hm)

private abbrev locations : Source := .named "Location"

private abbrev column : Expr := .lambda ["l"] (.member (.parameter "l") "A" none)

private abbrev always : Expr := .constant (.bool true)

private abbrev chain : List QueryNode :=
  [.take 5, .select column] ++ [.filter column, .take 3, .filter always]

private abbrev rearranged : List QueryNode :=
  [.filter column, .take 3, .filter always] ++ [.take 5, .select column]

private abbrev limited : List QueryNode :=
  [.filter column, .filter always, .take 3, .select column]

theorem compile_rearranged_limited :
    Rearranged chain rearranged ∧
    ∃ t, (Query.mk (.source locations :: chain) false).compile .standard = .ok t ∧
      (Query.mk (.source locations :: rearranged) false).compile .standard = .ok t ∧
      (Query.mk (.source locations :: limited) false).compile .standard = .ok t := by
  have h : Rearranged chain rearranged := ⟨⟨rfl, rfl, rfl⟩, List.perm_append_comm⟩
  obtain ⟨t, ok⟩ : ∃ t, (Query.mk (.source locations :: chain) false).compile .standard = .ok t :=
    ⟨_, rfl⟩
  obtain ⟨same, least⟩ := @compile_rearranged .standard locations false chain rearranged t h
  refine ⟨h, t, ok, same.1 ok, (least 3 (by simp) ?_ limited rfl rfl).1 ok⟩
  intro m mem
  have cases : m = 5 ∨ m = 3 := by simpa using mem
  rcases cases with rfl | rfl <;> decide

end Query
end StreamSql
