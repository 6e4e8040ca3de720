import EventSourcing.Proofs.Ledger.Batches
import EventSourcing.Proofs.Memory.Decisions

/-!
# The store in memory — batches that are cut in two

A batch is numbered and dated from its first command to its last, and its expectations are held against the
heads before all of it.  A part at its end that expects nothing can as well be pushed on its own, right after
the rest and at the same time.

* `Ledger.commit_append`: to commit the whole is to commit one part after the other.
* `Memory.pushes_compose`: **two pushes come to the same as one**, be it accepted or not.
-/

namespace EventSourcing

/-- No command of the batch expects anything of its stream. -/
def Batch.Unexpecting (b : Batch) : Prop :=
  ∀ c ∈ b.toList, c.sequence = none

instance (b : Batch) : Decidable b.Unexpecting :=
  inferInstanceAs (Decidable (∀ c ∈ b.toList, c.sequence = none))

theorem Batch.toList_scoped_append (xs ys : Batch) (ctx : Context) :
    ((xs ++ ys).scoped ctx).toList = (xs.scoped ctx).toList ++ (ys.scoped ctx).toList := by
  rw [toList_scoped, toList_append, List.map_append]
  rfl

/-- A batch that expects nothing is never in conflict. -/
theorem Batch.Unexpecting.conflict?_eq_none {b : Batch} (hb : b.Unexpecting) (ctx : Context)
    (h : Heads) : h.conflict? (b.scoped ctx).toList = none := by
  rw [Heads.conflict?_eq_none_iff, Batch.toList_scoped, List.forall_mem_map]
  intro c hc n hn
  exact absurd ((hb c hc).symm.trans hn) (Option.some_ne_none n).symm

/-! ### Commits -/

namespace Ledger

variable {ctx : Context} {xs ys : Batch}

/-- A conflict leaves the ledger alone. -/
theorem commit_of_conflict {l : Ledger} {conflict : Conflict}
    (h : l.heads.conflict? (xs.scoped ctx).toList = some conflict) (now : Instant) :
    l.commit ctx xs now = (.error conflict, l) := by
  simp only [commit, h]

/-- Without a conflict the whole batch is appended. -/
theorem commit_of_none {l : Ledger} (h : l.heads.conflict? (xs.scoped ctx).toList = none)
    (now : Instant) :
    l.commit ctx xs now = (.ok (l.nextEvents (l.dateAt now) (xs.scoped ctx).toList),
      l.appendAll (l.dateAt now) (xs.scoped ctx).toList) := by
  simp only [commit, h]

/-- **To commit the whole is to commit one part after the other**, where the second part expects
nothing. -/
theorem commit_append (hys : ys.Unexpecting) (l : Ledger) (ctx : Context) (xs : Batch)
    (now : Instant) :
    (∃ conflict, l.commit ctx xs now = (.error conflict, l) ∧
      l.commit ctx (xs ++ ys) now = (.error conflict, l)) ∨
    ∃ events later, (l.commit ctx xs now).1 = .ok events ∧
      ((l.commit ctx xs now).2.commit ctx ys now).1 = .ok later ∧
      l.commit ctx (xs ++ ys) now =
        (.ok (events ++ later), ((l.commit ctx xs now).2.commit ctx ys now).2) := by
  have hconflict : l.heads.conflict? ((xs ++ ys).scoped ctx).toList =
      l.heads.conflict? (xs.scoped ctx).toList := by
    rw [Batch.toList_scoped_append, Heads.conflict?_append, hys.conflict?_eq_none, Option.or_none]
  cases hxs : l.heads.conflict? (xs.scoped ctx).toList with
  | some conflict =>
      exact .inl ⟨conflict, commit_of_conflict hxs now, commit_of_conflict (hconflict.trans hxs) now⟩
  | none =>
      -- the second part is dated like the first
      have hdate : (l.appendAll (l.dateAt now) (xs.scoped ctx).toList).dateAt now = l.dateAt now :=
        dateAt_appendAll (l.now_le_dateAt now) (Batch.toList_ne_nil _) l
      rw [commit_of_none hxs, commit_of_none (hys.conflict?_eq_none ctx _), hdate,
        commit_of_none (hconflict.trans hxs), Batch.toList_scoped_append, nextEvents_append,
        appendAll_append]
      exact .inr ⟨_, _, rfl, rfl, rfl⟩

end Ledger

/-! ### Pushes -/

namespace Memory

/-- To push two batches one after the other, while the clock says `t`, comes to the same as to push both as
one. -/
structure Composes (m : Memory) (t : Instant) (ctx : Context) (xs ys : Batch) : Prop where
  accepted_iff : (∃ events, (m.pushAt t ctx (xs ++ ys)).1 = .ok events) ↔
    ∃ events, (m.pushAt t ctx xs).1 = .ok events
  /-- The events are those of both, and log, heads, last position and last date are the same. -/
  accepted : ∀ events, (m.pushAt t ctx xs).1 = .ok events → ∃ later,
    ((m.pushAt t ctx xs).2.pushAt t ctx ys).1 = .ok later ∧
    (m.pushAt t ctx (xs ++ ys)).1 = .ok (events ++ later) ∧
    (m.pushAt t ctx (xs ++ ys)).2.ledger = ((m.pushAt t ctx xs).2.pushAt t ctx ys).2.ledger
  refused_iff : ∀ e, (m.pushAt t ctx (xs ++ ys)).1 = .error e ↔ (m.pushAt t ctx xs).1 = .error e
  unchanged : ∀ e, (m.pushAt t ctx (xs ++ ys)).1 = .error e →
    (m.pushAt t ctx (xs ++ ys)).2.ledger = m.ledger

/-- So it is where both fail alike. -/
theorem Composes.of_error {m : Memory} {t : Instant} {ctx : Context} {xs ys : Batch}
    {e : StoreError Empty} (hpart : (m.pushAt t ctx xs).1 = .error e)
    (hwhole : (m.pushAt t ctx (xs ++ ys)).1 = .error e)
    (hledger : (m.pushAt t ctx (xs ++ ys)).2.ledger = m.ledger) : m.Composes t ctx xs ys where
  accepted_iff := by rw [hpart, hwhole]
  accepted := by rw [hpart]; rintro _ ⟨⟩
  refused_iff _ := by rw [hpart, hwhole]
  unchanged _ _ := hledger

/-- **Two pushes come to the same as one.**  In every state, whatever the clock says, a batch that ends in
commands without expectations is accepted exactly if the rest of it is, and it then has the events of both
parts pushed one after the other and leaves what they leave.  It fails as its first part does, and changes
nothing then. -/
theorem pushes_compose {ys : Batch} (hys : ys.Unexpecting) (m : Memory) (t : Instant) (ctx : Context)
    (xs : Batch) : m.Composes t ctx xs ys := by
  cases hi : ctx.interruption? with
  | some i =>
      have hwhole := pushAt_interrupted hi t (xs ++ ys) m
      exact .of_error (pushAt_interrupted hi t xs m).1 hwhole.1 hwhole.2
  | none =>
      obtain ⟨hpart, hfirst⟩ := pushAt_commit hi t xs m
      obtain ⟨hrest, hsecond⟩ := pushAt_commit hi t ys (m.pushAt t ctx xs).2
      obtain ⟨hwhole, hledger⟩ := pushAt_commit hi t (xs ++ ys) m
      rw [hfirst] at hrest hsecond
      rcases m.ledger.commit_append hys ctx xs t with
        ⟨conflict, hxs, hall⟩ | ⟨events, later, hxs, hlater, hall⟩
      · rw [hxs] at hpart
        rw [hall] at hwhole hledger
        exact .of_error hpart hwhole hledger
      · rw [hxs] at hpart
        rw [hlater] at hrest
        rw [hall] at hwhole hledger
        refine ⟨⟨fun _ => ⟨_, hpart⟩, fun _ => ⟨_, hwhole⟩⟩, ?_, ?_, ?_⟩
        · rw [hpart]
          rintro _ ⟨⟩
          exact ⟨later, hrest, hwhole, hledger.trans hsecond.symm⟩
        · rw [hpart, hwhole]
          exact fun _ => ⟨by rintro ⟨⟩, by rintro ⟨⟩⟩
        · rw [hwhole]
          rintro _ ⟨⟩

/-! ### The same users on both sides of the cut -/

/-- One user is locked if nothing has happened to it since its first event, and another one is added. -/
def lockAndAdd : Batch :=
  ⟨(userCommand "u1" "user.locked").expecting 1, [userCommand "u2" "user.added"]⟩

/-- Both users are renamed. -/
def renameBoth : Batch :=
  ⟨userCommand "u1" "user.renamed", [userCommand "u2" "user.renamed"]⟩

/-- The clock has gone back since the first user was added. -/
theorem pushes_compose_sameUsers :
    renameBoth.Unexpecting ∧ ∃ events later,
      (oneUser.pushAt .zero (.forInstance "t1") lockAndAdd).1 = .ok events ∧
      ((oneUser.pushAt .zero (.forInstance "t1") lockAndAdd).2.pushAt .zero (.forInstance "t1")
        renameBoth).1 = .ok later ∧
      (oneUser.pushAt .zero (.forInstance "t1") (lockAndAdd ++ renameBoth)).1 =
        .ok (events ++ later) ∧
      (oneUser.pushAt .zero (.forInstance "t1") (lockAndAdd ++ renameBoth)).2.ledger =
        ((oneUser.pushAt .zero (.forInstance "t1") lockAndAdd).2.pushAt .zero (.forInstance "t1")
          renameBoth).2.ledger ∧
      (events ++ later).map Event.position = [2, 3, 4, 5] ∧
      (events ++ later).map Event.sequence = [2, 1, 3, 2] ∧
      ∀ e ∈ events ++ later, e.creationDate = .unixEpoch := by
  have hys : renameBoth.Unexpecting := by decide
  obtain ⟨events, hok⟩ :
      ∃ events, (oneUser.pushAt .zero (.forInstance "t1") lockAndAdd).1 = .ok events := ⟨_, rfl⟩
  obtain ⟨later, hlater, hwhole, hledger⟩ :=
    (pushes_compose hys oneUser .zero (.forInstance "t1") lockAndAdd).accepted events hok
  refine ⟨hys, events, later, hok, hlater, hwhole, hledger, ?_⟩
  cases hok
  cases hlater
  decide

end Memory

end EventSourcing
