import EventSourcing.Proofs.View.Replay

/-!
# Views — what a batch comes to

A batch is checked as a whole before anything of it is applied.  It is refused for the first event that is
not beyond the last one of its stream, and then the view is left as it was.  Otherwise it is applied up to
the first event that cannot be read, and that event is applied too.

* `FirstPlace`: the first member of a list with a property that depends on what stands before it.
* `outOfOrder?_cases`: the check of a batch finds the first late event, if there is one.
* `applyEach_cases`: a batch is applied up to its first unreadable event, if there is one.
* `applyAll_comesTo`: **what a batch comes to**, for every view and every batch.
-/

namespace EventSourcing.View

/-! ### First places -/

section Places

variable {α : Type} {P : List α → α → Prop} {l before : List α} {a x : α}

/-- Some member has a property, which may depend on the members that stand before it. -/
def Somewhere (P : List α → α → Prop) (l : List α) : Prop :=
  ∃ before a after, l = before ++ a :: after ∧ P before a

/-- The first member that has the property, and what stands before it. -/
structure FirstPlace (P : List α → α → Prop) (l before : List α) (a : α) : Prop where
  place : ∃ after, l = before ++ a :: after
  holds : P before a
  first : ¬ Somewhere P before

theorem somewhere_nil : ¬ Somewhere P [] := by
  rintro ⟨before, a, after, h, -⟩
  cases before <;> cases h

/-- What stands in a list stands first or behind. -/
theorem somewhere_cons :
    Somewhere P (x :: l) ↔ P [] x ∨ Somewhere (fun before => P (x :: before)) l := by
  constructor
  · rintro ⟨before, a, after, h, ha⟩
    cases before with
    | nil => cases h; exact .inl ha
    | cons y before => cases h; exact .inr ⟨before, a, after, rfl, ha⟩
  · rintro (hx | ⟨before, a, after, rfl, ha⟩)
    · exact ⟨[], x, l, rfl, hx⟩
    · exact ⟨x :: before, a, after, rfl, ha⟩

namespace FirstPlace

theorem somewhere (h : FirstPlace P l before a) : Somewhere P l :=
  have ⟨after, hl⟩ := h.place
  ⟨before, a, after, hl, h.holds⟩

theorem head (h : P [] x) : FirstPlace P (x :: l) [] x :=
  ⟨⟨l, rfl⟩, h, somewhere_nil⟩

theorem tail (hx : ¬ P [] x) (h : FirstPlace (fun before => P (x :: before)) l before a) :
    FirstPlace P (x :: l) (x :: before) a := by
  obtain ⟨⟨after, rfl⟩, ha, hfirst⟩ := h
  exact ⟨⟨after, rfl⟩, ha, fun hsome => (somewhere_cons.mp hsome).elim hx hfirst⟩

end FirstPlace

end Places

/-! ### Late events -/

/-- What an event of a stream has to exceed after some events of a batch: the sequence of the last event
of the stream among them, or the last sequence before the batch. -/
def bound (last : Stream → Nat) (before : List Event) (s : Stream) : Nat :=
  ((before.filter (·.stream = s)).getLast?.map Event.sequence).getD (last s)

/-- The event is not beyond the last one of its stream. -/
def Late (last : Stream → Nat) (before : List Event) (e : Event) : Prop :=
  e.sequence ≤ bound last before e.stream

/-- An event takes the place of the last sequence of its stream. -/
theorem bound_cons (last : Stream → Nat) (e : Event) (before : List Event) :
    bound last (e :: before) = bound (fun s => if s = e.stream then e.sequence else last s) before := by
  funext s
  rw [bound, bound]
  by_cases hs : e.stream = s
  · rw [List.filter_cons_of_pos (by simpa using hs), List.getLast?_cons, if_pos hs.symm]
    cases (before.filter (·.stream = s)).getLast? <;> rfl
  · rw [List.filter_cons_of_neg (by simpa using hs), if_neg (Ne.symm hs)]

/-- Behind an event, its own sequence is the last of its stream. -/
theorem late_cons (last : Stream → Nat) (e : Event) :
    (fun before => Late last (e :: before)) =
      Late fun s => if s = e.stream then e.sequence else last s := by
  funext before x
  rw [Late, Late, bound_cons]

/-- The check of a batch finds its first late event. -/
theorem outOfOrder?_cases (es : List Event) :
    ∀ last : Stream → Nat,
      (¬ Somewhere (Late last) es ∧ outOfOrder? last es = none) ∨
      ∃ before e, FirstPlace (Late last) es before e ∧
        outOfOrder? last es = some (.outOfOrder (bound last before e.stream) e.sequence) := by
  induction es with
  | nil => exact fun last => .inl ⟨somewhere_nil, rfl⟩
  | cons x es ih =>
      intro last
      rw [outOfOrder?]
      by_cases hle : x.sequence ≤ last x.stream
      · rw [if_pos hle]
        exact .inr ⟨[], x, .head hle, rfl⟩
      · rw [if_neg hle, somewhere_cons, late_cons]
        rcases ih fun s => if s = x.stream then x.sequence else last s with
          ⟨hnone, h⟩ | ⟨before, e, hfirst, h⟩
        · exact .inl ⟨not_or.mpr ⟨hle, hnone⟩, h⟩
        · refine .inr ⟨x :: before, e, .tail hle ?_, ?_⟩
          · rwa [late_cons]
          · rw [h, bound_cons]

/-! ### Unreadable events -/

variable {ω π : Type} [View ω π] [OfPayload π]

/-- The view acts upon the event, once it has come to it, and the payload of the event does not decode. -/
def Unreadable (v : ω) (before : List Event) (e : Event) : Prop :=
  action (advance e (replay v before)) e.type ≠ .ignore ∧ ∃ d, e.decode π = .error d

/-- An event fails exactly if it is acted upon and its payload does not decode. -/
theorem fault?_eq_some_iff {v : ω} {e : Event} {d : DecodeError} :
    fault? v e = some d ↔ action (advance e v) e.type ≠ .ignore ∧ e.decode π = .error d := by
  rw [fault?]
  cases action (advance e v) e.type <;> cases e.decode π <;> simp

theorem fault?_eq_none_iff {v : ω} {e : Event} : fault? v e = none ↔ ¬ Unreadable v [] e := by
  have hsome : (∃ d, fault? v e = some d) ↔ Unreadable v [] e :=
    (exists_congr fun d => fault?_eq_some_iff).trans exists_and_left
  rw [← hsome, ← Option.ne_none_iff_exists', not_not]

theorem unreadable_cons (v : ω) (e : Event) :
    (fun before => Unreadable v (e :: before)) = Unreadable (apply e v).2 :=
  rfl

/-- A batch is applied up to its first unreadable event. -/
theorem applyEach_cases (es : List Event) :
    ∀ v : ω,
      (¬ Somewhere (Unreadable v) es ∧ applyEach v es = (.ok (), replay v es)) ∨
      ∃ before e d, FirstPlace (Unreadable v) es before e ∧ e.decode π = .error d ∧
        applyEach v es = (.error (.decode d), replay v (before ++ [e])) := by
  induction es with
  | nil => exact fun v => .inl ⟨somewhere_nil, rfl⟩
  | cons x es ih =>
      intro v
      have happly : apply x v = ((apply x v).1, (apply x v).2) := rfl
      rw [apply_fst] at happly
      rw [applyEach, happly]
      cases hfault : fault? v x with
      | some d =>
          obtain ⟨haction, hd⟩ := fault?_eq_some_iff.mp hfault
          exact .inr ⟨[], x, d, .head ⟨haction, d, hd⟩, hd, rfl⟩
      | none =>
          have hx : ¬ Unreadable v [] x := fault?_eq_none_iff.mp hfault
          rw [somewhere_cons, unreadable_cons]
          rcases ih (apply x v).2 with ⟨hnone, h⟩ | ⟨before, e, d, hfirst, hd, h⟩
          · exact .inl ⟨not_or.mpr ⟨hx, hnone⟩, h⟩
          · exact .inr ⟨x :: before, e, d, .tail hx hfirst, hd, h⟩

/-! ### Batches -/

/-- What a batch comes to. -/
structure ComesTo (v : ω) (es : List Event) (result : Except ViewError Unit × ω) : Prop where
  refused_iff : (∃ current sequence, result.1 = .error (.outOfOrder current sequence)) ↔
    Somewhere (Late (lastSequences v es)) es
  /-- A batch is refused for its first late event, and nothing of it is applied. -/
  refused : Somewhere (Late (lastSequences v es)) es →
    ∃ before e, FirstPlace (Late (lastSequences v es)) es before e ∧
      result = (.error (.outOfOrder (bound (lastSequences v es) before e.stream) e.sequence), v)
  /-- What is in order stops at its first unreadable event, behind that. -/
  stopped : ¬ Somewhere (Late (lastSequences v es)) es → Somewhere (Unreadable v) es →
    ∃ before e d, FirstPlace (Unreadable v) es before e ∧ e.decode π = .error d ∧
      result = (.error (.decode d), replay v (before ++ [e]))
  applied : ¬ Somewhere (Late (lastSequences v es)) es → ¬ Somewhere (Unreadable v) es →
    result = (.ok (), replay v es)

/-- **What a batch comes to.**  It is refused exactly if one of its events is not beyond the last event of
its stream before it, or for the first of its stream, the watermark if the batch begins with this stream
and `0` if not; the first such event is reported, and the view is as before.  Otherwise the first event that
the view acts upon and that does not decode is reported, and the view has applied all up to it.  If there is
none, all is applied. -/
theorem applyAll_comesTo (v : ω) (es : List Event) : ComesTo v es (applyAll es v) := by
  rw [applyAll]
  rcases outOfOrder?_cases es (lastSequences v es) with ⟨hlate, hcheck⟩ | ⟨before, e, hfirst, hcheck⟩
  · rw [hcheck]
    have hread := applyEach_cases es v
    refine ⟨?_, fun h => absurd h hlate, fun _ hsome => ?_, fun _ hnone => ?_⟩
    · -- applying events fails by their payloads only
      refine ⟨?_, fun h => absurd h hlate⟩
      rintro ⟨current, sequence, herror⟩
      rcases hread with ⟨-, happly⟩ | ⟨before, e, d, -, -, happly⟩
      all_goals cases (congrArg Prod.fst happly).symm.trans herror
    · exact hread.resolve_left fun h => h.1 hsome
    · rcases hread with ⟨-, happly⟩ | ⟨before, e, d, hfirst, -, -⟩
      · exact happly
      · exact absurd hfirst.somewhere hnone
  · rw [hcheck]
    have hlate := hfirst.somewhere
    exact ⟨⟨fun _ => hlate, fun _ => ⟨_, _, rfl⟩⟩, fun _ => ⟨before, e, hfirst, rfl⟩,
      fun h => absurd hlate h, fun h => absurd hlate h⟩

end EventSourcing.View
