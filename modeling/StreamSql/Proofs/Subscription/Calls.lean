import StreamSql.Subscription

/-!
The calls that an observer gets, whatever the order in which the task and the holder act. A run tells
of the source from its start and in its order; once it has told how the source ends, or the holder has
shut the subscription, no call follows.
-/

namespace StreamSql

def Call.isFinal {α : Type} : Call α → Bool
  | .next _ => false
  | .error _ | .completed => true

namespace Subscription

variable {α : Type} {source : List (Item α)} {ended : Bool} {s : Subscription α}

def rowsOf : List (Item α) → List α
  | [] => []
  | .ok a :: items => a :: rowsOf items
  | .error _ :: _ => []

def errorOf? : List (Item α) → Option Error
  | [] => none
  | .ok _ :: items => errorOf? items
  | .error e :: _ => some e

def ending? (source : List (Item α)) (ended : Bool) : Option (Call α) :=
  match errorOf? source with
  | some e => some (.error e)
  | none => if ended then some .completed else none

def calls (source : List (Item α)) (ended : Bool) : List (Call α) :=
  (rowsOf source).map .next ++ (ending? source ended).toList

@[simp] theorem calls_ok (a : α) (items : List (Item α)) :
    calls (.ok a :: items) ended = .next a :: calls items ended := rfl

@[simp] theorem calls_error (e : Error) (items : List (Item α)) :
    calls (.error e :: items) ended = [.error e] := rfl

@[simp] theorem calls_nil_true : calls ([] : List (Item α)) true = [.completed] := rfl

theorem isFinal_of_ending? {c : Call α} (h : ending? source ended = some c) :
    c.isFinal = true := by
  unfold ending? at h
  split at h
  · cases h; rfl
  · split at h <;> cases h; rfl

theorem mem_calls_of_ending? {c : Call α} (h : ending? source ended = some c) :
    c ∈ calls source ended := by
  simp [calls, h]

theorem calls_of_ending? {c : Call α} (h : ending? source ended = some c) :
    calls source ended = (rowsOf source).map .next ++ [c] := by
  simp [calls, h]

theorem of_prefix_calls {log : List (Call α)} (h : log <+: calls source ended) :
    (∃ rows, rows <+: rowsOf source ∧ log = rows.map .next) ∨
      ∃ c, ending? source ended = some c ∧ log = (rowsOf source).map .next ++ [c] := by
  have rows (h : log <+: (rowsOf source).map .next) :
      ∃ rows, rows <+: rowsOf source ∧ log = rows.map .next := List.prefix_map_iff.1 h
  cases ending : ending? source ended with
  | none => exact .inl (rows (by simpa [calls, ending] using h))
  | some c =>
    rw [calls_of_ending? ending, List.prefix_concat_iff] at h
    rcases h with all | h
    · exact .inr ⟨c, rfl, all⟩
    · exact .inl (rows h)

def left (s : Subscription α) : List (Item α) :=
  match s.task with
  | .holding (some item) => item :: s.source
  | _ => s.source

/-- While calls are delivered, those made and those of the items left are all calls of the source. -/
structure Tells (source : List (Item α)) (ended : Bool) (s : Subscription α) : Prop where
  ended_eq : s.ended = ended
  log_prefix : s.log <+: calls source ended
  log_append : s.isOpen = true → s.log ++ calls s.left ended = calls source ended
  not_isFinal : s.isOpen = true → ∀ c ∈ s.log, c.isFinal = false
  source_eq_nil : s.task = .holding none → s.source = [] ∧ ended = true

theorem tells_start (source : List (Item α)) (ended : Bool) :
    Tells source ended (start source ended) where
  ended_eq := rfl
  log_prefix := List.nil_prefix
  log_append _ := rfl
  not_isFinal _ := by simp [start]
  source_eq_nil := by simp [start]

def callOf : Option (Item α) → Call α
  | some (.ok a) => .next a
  | some (.error e) => .error e
  | none => .completed

theorem handOver_eq (s : Subscription α) (next : Option (Item α)) :
    s.handOver next = { s with
      log := s.log ++ [callOf next]
      isOpen := s.isOpen && !(callOf next).isFinal
      task := if (callOf next).isFinal then .stopped else .waiting } := by
  rcases next with - | - | - <;> simp [handOver, callOf, Call.isFinal]

namespace Tells

theorem observe (h : Tells source ended s) : Tells source ended s.observe := by
  unfold Subscription.observe
  split
  · rename_i waiting
    split
    · exact { h with
        log_append := by simpa [left, waiting] using h.log_append
        source_eq_nil := by simp }
    · exact h
  · exact h

theorem pull (h : Tells source ended s) : Tells source ended s.pull := by
  unfold Subscription.pull
  split
  · rename_i item rest waiting items
    exact { h with
      log_append := by simpa [left, waiting, items] using h.log_append
      source_eq_nil := by simp }
  · rename_i waiting items
    split
    · rename_i isEnded
      exact { h with
        log_append := by simpa [left, waiting] using h.log_append
        source_eq_nil := fun _ => ⟨items, h.ended_eq ▸ isEnded⟩ }
    · exact h
  · exact h

theorem log_callOf (h : Tells source ended s) (isOpen : s.isOpen = true)
    {next : Option (Item α)} (holding : s.task = .holding next) :
    s.log ++ callOf next :: (if (callOf next).isFinal then [] else calls s.source ended) =
      calls source ended := by
  have all := h.log_append isOpen
  rcases next with - | e | a
  · obtain ⟨items, rfl⟩ := h.source_eq_nil holding
    simpa [left, holding, items, callOf, Call.isFinal] using all
  · simpa [left, holding, callOf, Call.isFinal] using all
  · simpa [left, holding, callOf, Call.isFinal] using all

theorem handOver (h : Tells source ended s) (isOpen : s.isOpen = true) {next : Option (Item α)}
    (holding : s.task = .holding next) : Tells source ended (s.handOver next) := by
  have all := h.log_callOf isOpen holding
  rw [handOver_eq]
  constructor
  · exact h.ended_eq
  · exact ⟨_, by simpa using all⟩
  · intro stillOpen
    have next : (callOf next).isFinal = false := by simpa [isOpen] using stillOpen
    simpa [next, left] using all
  · intro stillOpen c hc
    have next : (callOf next).isFinal = false := by simpa [isOpen] using stillOpen
    rcases List.mem_append.1 hc with hc | hc
    · exact h.not_isFinal isOpen c hc
    · rw [List.mem_singleton.1 hc, next]
  · intro task
    dsimp only at task
    split at task <;> cases task

theorem deliver (h : Tells source ended s) : Tells source ended s.deliver := by
  unfold Subscription.deliver
  split
  · rename_i next holding
    split
    · rename_i isOpen
      exact h.handOver isOpen holding
    · rename_i shut
      exact { h with
        log_append := fun isOpen => absurd isOpen shut
        source_eq_nil := by simp }
  · exact h

theorem shut (h : Tells source ended s) : Tells source ended s.shut :=
  { h with
    log_append := by simp [Subscription.shut]
    not_isFinal := by simp [Subscription.shut] }

theorem cancel (h : Tells source ended s) : Tells source ended s.cancel :=
  { h with }

theorem act (h : Tells source ended s) (a : Action) : Tells source ended (s.act a) := by
  cases a with
  | observe => exact h.observe
  | pull => exact h.pull
  | deliver => exact h.deliver
  | shut => exact h.shut
  | cancel => exact h.cancel

end Tells

theorem run_cons (a : Action) (as : List Action) : s.run (a :: as) = (s.act a).run as := rfl

theorem run_append (as bs : List Action) : s.run (as ++ bs) = (s.run as).run bs :=
  List.foldl_append

theorem Tells.run (h : Tells source ended s) (as : List Action) : Tells source ended (s.run as) := by
  induction as generalizing s with
  | nil => exact h
  | cons a as ih => exact ih (h.act a)

theorem observe_eq (s : Subscription α) : ∃ task, s.observe = { s with task := task } := by
  unfold observe
  split
  · split
    · exact ⟨_, rfl⟩
    · exact ⟨s.task, rfl⟩
  · exact ⟨s.task, rfl⟩

theorem pull_eq (s : Subscription α) :
    ∃ source task, s.pull = { s with source := source, task := task } := by
  unfold pull
  split
  · exact ⟨_, _, rfl⟩
  · split
    · exact ⟨s.source, _, rfl⟩
    · exact ⟨s.source, s.task, rfl⟩
  · exact ⟨s.source, s.task, rfl⟩

theorem deliver_of_shut (h : s.isOpen = false) : ∃ task, s.deliver = { s with task := task } := by
  unfold deliver
  split
  · rw [if_neg (by simp [h])]
    exact ⟨_, rfl⟩
  · exact ⟨s.task, rfl⟩

theorem deliver_cancelled (s : Subscription α) : s.deliver.cancelled = s.cancelled := by
  unfold deliver handOver
  split
  · split
    · split <;> rfl
    · rfl
  · rfl

theorem act_of_shut (h : s.isOpen = false) (a : Action) :
    (s.act a).isOpen = false ∧ (s.act a).log = s.log := by
  cases a with
  | observe =>
    obtain ⟨task, eq⟩ := s.observe_eq
    simp [act, eq, h]
  | pull =>
    obtain ⟨source, task, eq⟩ := s.pull_eq
    simp [act, eq, h]
  | deliver =>
    obtain ⟨task, eq⟩ := deliver_of_shut h
    simp [act, eq, h]
  | shut => simp [act, shut]
  | cancel => simp [act, cancel, h]

theorem act_of_cancelled (h : s.cancelled = true) (a : Action) : (s.act a).cancelled = true := by
  cases a with
  | observe =>
    obtain ⟨task, eq⟩ := s.observe_eq
    simp [act, eq, h]
  | pull =>
    obtain ⟨source, task, eq⟩ := s.pull_eq
    simp [act, eq, h]
  | deliver => exact s.deliver_cancelled.trans h
  | shut => exact h
  | cancel => rfl

theorem act_of_not_isActive (h : s.isActive = false) (a : Action) : (s.act a).isActive = false := by
  simp only [isActive, Bool.and_eq_false_iff, Bool.not_eq_false'] at h ⊢
  exact h.imp (fun shut => (act_of_shut shut a).1) (fun cancelled => act_of_cancelled cancelled a)

theorem run_of_shut (h : s.isOpen = false) (as : List Action) :
    (s.run as).isOpen = false ∧ (s.run as).log = s.log := by
  induction as generalizing s with
  | nil => exact ⟨h, rfl⟩
  | cons a as ih =>
    obtain ⟨shut, log⟩ := act_of_shut h a
    exact ⟨(ih shut).1, (ih shut).2.trans log⟩

theorem run_of_not_isActive (h : s.isActive = false) (as : List Action) :
    (s.run as).isActive = false := by
  induction as generalizing s with
  | nil => exact h
  | cons a as ih => exact ih (act_of_not_isActive h a)

theorem run_of_mem_shut {as : List Action} (h : .shut ∈ as) : (s.run as).isOpen = false := by
  obtain ⟨before, behind, rfl⟩ := List.append_of_mem h
  rw [run_append, run_cons]
  exact (run_of_shut rfl behind).1

theorem Tells.shut_of_isFinal (h : Tells source ended s) {c : Call α} (hc : c ∈ s.log)
    (final : c.isFinal = true) : s.isOpen = false := by
  cases isOpen : s.isOpen with
  | false => rfl
  | true => simp [h.not_isFinal isOpen c hc] at final

theorem ending?_of_isFinal {log : List (Call α)} {c : Call α} (h : log ++ [c] = calls source ended)
    (final : c.isFinal = true) : ending? source ended = some c := by
  cases ending : ending? source ended with
  | none =>
    have told : c ∈ (rowsOf source).map .next := by
      have mem : c ∈ log ++ [c] := by simp
      simpa [h, calls, ending] using mem
    obtain ⟨a, -, rfl⟩ := List.mem_map.1 told
    cases final
  | some d =>
    rw [calls_of_ending? ending] at h
    have same := (List.append_inj' h rfl).2
    rw [List.singleton_inj.1 same]

/-- What holds besides while nobody ends the subscription: the task stops with the last call. -/
structure Undisturbed (source : List (Item α)) (ended : Bool) (s : Subscription α) : Prop extends
    Tells source ended s where
  not_cancelled : s.cancelled = false
  isOpen_iff : s.isOpen = true ↔ s.task ≠ .stopped
  told_all : s.isOpen = false → ∃ c, ending? source ended = some c ∧ s.log = calls source ended

theorem undisturbed_start (source : List (Item α)) (ended : Bool) :
    Undisturbed source ended (start source ended) where
  toTells := tells_start source ended
  not_cancelled := rfl
  isOpen_iff := by simp [start]
  told_all := by simp [start]

namespace Undisturbed

theorem observe_eq_self (h : Undisturbed source ended s) : s.observe = s := by
  unfold Subscription.observe
  split
  · simp [h.not_cancelled]
  · rfl

theorem pull (h : Undisturbed source ended s) : Undisturbed source ended s.pull where
  toTells := h.toTells.pull
  not_cancelled := by
    obtain ⟨source, task, eq⟩ := s.pull_eq
    simp [eq, h.not_cancelled]
  isOpen_iff := by
    unfold Subscription.pull
    split
    · simpa [*] using h.isOpen_iff
    · split
      · simpa [*] using h.isOpen_iff
      · exact h.isOpen_iff
    · exact h.isOpen_iff
  told_all := by
    obtain ⟨source, task, eq⟩ := s.pull_eq
    simpa [eq] using h.told_all

theorem handOver (h : Undisturbed source ended s) (isOpen : s.isOpen = true)
    {next : Option (Item α)} (holding : s.task = .holding next) :
    Undisturbed source ended (s.handOver next) where
  toTells := h.toTells.handOver isOpen holding
  not_cancelled := by simp [handOver_eq, h.not_cancelled]
  isOpen_iff := by
    rw [handOver_eq]
    cases (callOf next).isFinal <;> simp [isOpen]
  told_all := by
    rw [handOver_eq]
    intro shut
    have final : (callOf next).isFinal = true := by simpa [isOpen] using shut
    have all := h.log_callOf isOpen holding
    rw [if_pos final] at all
    exact ⟨callOf next, ending?_of_isFinal all final, all⟩

theorem deliver (h : Undisturbed source ended s) : Undisturbed source ended s.deliver := by
  unfold Subscription.deliver
  split
  · rename_i next holding
    have isOpen : s.isOpen = true := h.isOpen_iff.2 (by simp [holding])
    rw [if_pos isOpen]
    exact h.handOver isOpen holding
  · exact h

theorem run (h : Undisturbed source ended s) {as : List Action} (alone : ∀ a ∈ as, a.isOfTask = true) :
    Undisturbed source ended (s.run as) := by
  induction as generalizing s with
  | nil => exact h
  | cons a as ih =>
    have rest : ∀ b ∈ as, b.isOfTask = true := fun b hb => alone b (List.mem_cons_of_mem a hb)
    have step : Undisturbed source ended (s.act a) := by
      cases a with
      | observe => simpa only [act, h.observe_eq_self] using h
      | pull => exact h.pull
      | deliver => exact h.deliver
      | shut => exact absurd (alone .shut List.mem_cons_self) (by decide)
      | cancel => exact absurd (alone .cancel List.mem_cons_self) (by decide)
    exact ih step rest

theorem ended_of_source_eq_nil (h : Undisturbed source ended s) (waiting : s.task = .waiting)
    (items : s.source = []) {c : Call α} (ending : ending? source ended = some c) :
    ended = true := by
  cases ended with
  | true => rfl
  | false =>
    have isOpen : s.isOpen = true := h.isOpen_iff.2 (by simp [waiting])
    have all : s.log = calls source false := by
      simpa [left, waiting, items, calls, rowsOf, ending?, errorOf?] using h.log_append isOpen
    have quiet := h.not_isFinal isOpen c (all ▸ mem_calls_of_ending? ending)
    simp [isFinal_of_ending? ending] at quiet

theorem exists_stop_of_waiting (h : Undisturbed source ended s) (waiting : s.task = .waiting)
    {c : Call α} (ending : ending? source ended = some c) :
    ∃ as, (∀ a ∈ as, a.isOfTask = true) ∧ (s.run as).task = .stopped := by
  induction items : s.source generalizing s with
  | nil =>
    have isEnded : s.ended = true :=
      h.ended_eq.trans (h.ended_of_source_eq_nil waiting items ending)
    have isOpen : s.isOpen = true := h.isOpen_iff.2 (by simp [waiting])
    refine ⟨[.pull, .deliver], by decide, ?_⟩
    simp [Subscription.run, act, Subscription.pull, Subscription.deliver, waiting, items, isEnded,
      isOpen, handOver_eq, callOf, Call.isFinal]
  | cons item rest ih =>
    have isOpen : s.isOpen = true := h.isOpen_iff.2 (by simp [waiting])
    have taken : s.run [.pull, .deliver] =
        { s with source := rest }.handOver (some item) := by
      simp [Subscription.run, act, Subscription.pull, Subscription.deliver, waiting, items, isOpen,
        Subscription.handOver]
    have next : Undisturbed source ended (s.run [.pull, .deliver]) := h.run (by decide)
    rw [taken, handOver_eq] at next
    cases final : (callOf (some item)).isFinal with
    | true =>
      refine ⟨[.pull, .deliver], by decide, ?_⟩
      rw [taken, handOver_eq]
      simp [final]
    | false =>
      obtain ⟨as, alone, stop⟩ := ih next (by simp [final]) rfl
      refine ⟨[.pull, .deliver] ++ as, ?_, ?_⟩
      · simpa [Action.isOfTask] using alone
      · rw [run_append, taken, handOver_eq]
        exact stop

theorem exists_stop (h : Undisturbed source ended s) {c : Call α}
    (ending : ending? source ended = some c) :
    ∃ as, (∀ a ∈ as, a.isOfTask = true) ∧ (s.run as).task = .stopped := by
  cases task : s.task with
  | stopped => exact ⟨[], by simp, task⟩
  | waiting => exact h.exists_stop_of_waiting task ending
  | holding next =>
    have isOpen : s.isOpen = true := h.isOpen_iff.2 (by simp [task])
    have taken : s.run [.deliver] = s.handOver next := by
      simp [Subscription.run, act, Subscription.deliver, task, isOpen]
    have step : Undisturbed source ended (s.run [.deliver]) := h.run (by decide)
    cases final : (callOf next).isFinal with
    | true =>
      refine ⟨[.deliver], by decide, ?_⟩
      rw [taken, handOver_eq]
      simp [final]
    | false =>
      have waiting : (s.run [.deliver]).task = .waiting := by
        rw [taken, handOver_eq]
        simp [final]
      obtain ⟨as, alone, stop⟩ := step.exists_stop_of_waiting waiting ending
      exact ⟨.deliver :: as, by simpa [Action.isOfTask] using alone, stop⟩

end Undisturbed

theorem isStopped_iff : s.isStopped = true ↔ s.task = .stopped := by
  cases task : s.task <;> simp [isStopped, task]

/-- A run makes the calls of the rows before the first error, in their order, and then at most the
one that tells how the source ends; no call follows that one, or the end of the subscription, and a
subscription that is not active stays so. While nobody ends it the task can go on to its own end,
and has made all calls there. -/
theorem run_calls (source : List (Item α)) (ended : Bool) (as : List Action) :
    ((∃ rows, rows <+: rowsOf source ∧ ((start source ended).run as).log = rows.map .next) ∨
      ∃ c, ending? source ended = some c ∧
        ((start source ended).run as).log = (rowsOf source).map .next ++ [c]) ∧
    (∀ bs, (.shut ∈ as ∨ ∃ c ∈ ((start source ended).run as).log, c.isFinal = true) →
      ((start source ended).run (as ++ bs)).log = ((start source ended).run as).log) ∧
    (∀ bs, ((start source ended).run as).isActive = false →
      ((start source ended).run (as ++ bs)).isActive = false) ∧
    ((∀ a ∈ as, a.isOfTask = true) →
      (((start source ended).run as).isStopped = true → ∃ c, ending? source ended = some c ∧
        ((start source ended).run as).log = (rowsOf source).map .next ++ [c]) ∧
      ((ending? source ended).isSome = true → ∃ bs, (∀ b ∈ bs, b.isOfTask = true) ∧
        ((start source ended).run (as ++ bs)).isStopped = true)) := by
  have tells := (tells_start source ended).run as
  refine ⟨of_prefix_calls tells.log_prefix, ?_, ?_, ?_⟩
  · intro bs last
    have shut : ((start source ended).run as).isOpen = false := by
      rcases last with shut | ⟨c, hc, final⟩
      · exact run_of_mem_shut shut
      · exact tells.shut_of_isFinal hc final
    rw [run_append]
    exact (run_of_shut shut bs).2
  · intro bs inactive
    rw [run_append]
    exact run_of_not_isActive inactive bs
  · intro alone
    have undisturbed := (undisturbed_start source ended).run alone
    constructor
    · intro stopped
      have shut : ((start source ended).run as).isOpen = false := by
        simpa [isStopped_iff.1 stopped] using undisturbed.isOpen_iff
      obtain ⟨c, ending, all⟩ := undisturbed.told_all shut
      exact ⟨c, ending, all.trans (calls_of_ending? ending)⟩
    · intro ends
      obtain ⟨c, ending⟩ := Option.isSome_iff_exists.1 ends
      obtain ⟨bs, task, stop⟩ := undisturbed.exists_stop ending
      exact ⟨bs, task, by rw [run_append, isStopped_iff, stop]⟩

private def reset : List (Item Bool) := [.ok true, .error (.io "reset"), .ok false]

theorem run_calls_reset :
    ((.shut ∈ [Action.pull, .deliver, .pull, .shut] ∧
      ((start reset true).run ([.pull, .deliver, .pull, .shut] ++ [.deliver, .cancel])).log =
        [.next true]) ∧
    ((start reset true).run [.pull, .shut, .cancel]).isActive = false ∧
      ((start reset true).run ([.pull, .shut, .cancel] ++ [.deliver])).isActive = false) ∧
    ((∀ a ∈ [Action.pull, .deliver, .pull, .deliver], a.isOfTask = true) ∧
      ((start reset true).run [.pull, .deliver, .pull, .deliver]).isStopped = true ∧
      ∃ c, ending? reset true = some c ∧
        ((start reset true).run [.pull, .deliver, .pull, .deliver]).log = [.next true] ++ [c]) ∧
    (ending? reset true).isSome = true ∧
      ∃ bs, (∀ b ∈ bs, b.isOfTask = true) ∧
        ((start reset true).run ([.pull] ++ bs)).isStopped = true := by
  have shut : .shut ∈ [Action.pull, .deliver, .pull, .shut] := by decide
  have alone : ∀ a ∈ [Action.pull, .deliver, .pull, .deliver], a.isOfTask = true := by decide
  obtain ⟨-, last, -, -⟩ := run_calls reset true [.pull, .deliver, .pull, .shut]
  obtain ⟨-, -, inactive, -⟩ := run_calls reset true [.pull, .shut, .cancel]
  obtain ⟨-, -, -, whole⟩ := run_calls reset true [.pull, .deliver, .pull, .deliver]
  obtain ⟨-, -, -, begun⟩ := run_calls reset true [.pull]
  exact ⟨⟨⟨shut, last _ (.inl shut)⟩, rfl, inactive _ rfl⟩, ⟨alone, rfl, (whole alone).1 rfl⟩, rfl,
    (begun (by decide)).2 rfl⟩

end Subscription
end StreamSql
