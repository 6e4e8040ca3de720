import Mathlib.Data.List.DropRight
import Mathlib.Data.List.Infix
import EventSourcing.Proofs.WriteModel.Bookkeeping
import EventSourcing.Proofs.WriteModel.Books

/-!
# Write models — whole lives

Books are set up and then called, to append events to the buffer, some or none, or to reduce it.  What they
show can be read off these calls alone.  A reduction that finds the buffer empty changes nothing; the others
are the closings.

* `events_after`: **the buffer** holds what has been appended since the last reduction.
* `standing_after`: **the place in the stream** is that of the last event appended before the last closing.
* `state_after_replaying`, `state_after_uninitialized`, `state_after_current`: **the state** follows from
  both, and tells what has been appended and what of it has been reduced.
* `IdentityField.known_after`, `IdentityField.known_after_cases`: **the identity** is set up, or comes with a
  closing from the first event of the buffer, and stays.
* `kept_after`: all of this holds of **books throughout their life**.
-/

namespace EventSourcing.WriteModel

/-! ### Calls -/

/-- Books as they are set up. -/
inductive Built : WriteModel → Prop where
  | new (aggregateId : String) : Built { aggregateId }
  | ownedBy {m : WriteModel} (h : Built m) (resourceOwner : String) : Built (m.ownedBy resourceOwner)
  | inInstance {m : WriteModel} (h : Built m) (instanceId : String) : Built (m.inInstance instanceId)

/-- Models that have just been built have nothing to fold. -/
theorem Built.fresh {m : WriteModel} (h : m.Built) : m.Fresh := by
  induction h with
  | new => exact ⟨rfl, rfl, rfl⟩
  | ownedBy _ _ ih | inInstance _ _ ih => exact ih

/-- A call on books. -/
inductive Call where
  | append (events : List Event)
  | reduce
deriving DecidableEq

namespace Call

/-- The books after the call. -/
def apply : Call → WriteModel → WriteModel
  | append events, m => Reducer.append events m
  | reduce, m => (Reducer.reduce m).2

/-- The events that the call appends. -/
def events : Call → List Event
  | append events => events
  | reduce => []

end Call

/-- The books after calls, one after another. -/
def after (calls : List Call) (m : WriteModel) : WriteModel :=
  calls.foldl (fun m call => call.apply m) m

theorem after_append (calls later : List Call) (m : WriteModel) :
    after (calls ++ later) m = after later (after calls m) :=
  List.foldl_append

@[simp] theorem after_concat_append (calls : List Call) (events : List Event) (m : WriteModel) :
    after (calls ++ [.append events]) m = (after calls m).append events :=
  after_append calls [.append events] m

@[simp] theorem after_concat_reduce (calls : List Call) (m : WriteModel) :
    after (calls ++ [.reduce]) m = (after calls m).reduce :=
  after_append calls [.reduce] m

/-! ### What calls append -/

/-- Every event that calls append. -/
def appended (calls : List Call) : List Event :=
  calls.flatMap Call.events

/-- The events appended since the last reduction. -/
def unreduced (calls : List Call) : List Event :=
  appended (calls.rtakeWhile (· ≠ .reduce))

@[simp] theorem appended_nil : appended [] = [] := rfl

@[simp] theorem appended_concat (calls : List Call) (call : Call) :
    appended (calls ++ [call]) = appended calls ++ call.events := by
  simp [appended]

@[simp] theorem unreduced_concat_append (calls : List Call) (events : List Event) :
    unreduced (calls ++ [.append events]) = unreduced calls ++ events := by
  rw [unreduced, List.rtakeWhile_concat_pos _ _ _ (by simp), appended_concat]
  rfl

@[simp] theorem unreduced_concat_reduce (calls : List Call) : unreduced (calls ++ [.reduce]) = [] := by
  rw [unreduced, List.rtakeWhile_concat_neg _ _ _ (by simp), appended_nil]

/-- What has not been reduced was appended last. -/
theorem unreduced_suffix (calls : List Call) : unreduced calls <:+ appended calls :=
  List.IsSuffix.flatMap (List.rtakeWhile_suffix _ calls) Call.events

/-! ### Closings -/

/-- Right after `before`, the calls reduce a buffer that is not empty. -/
def Closing (calls before : List Call) : Prop :=
  before ++ [.reduce] <+: calls ∧ unreduced before ≠ []

/-- Right after `before`, the calls do so for the last time. -/
def LastClosing (calls before : List Call) : Prop :=
  Closing calls before ∧ ∀ later, Closing calls later → later.length ≤ before.length

theorem not_closing_nil (before : List Call) : ¬ Closing [] before := fun h =>
  absurd (List.prefix_nil.mp h.1) (by simp)

/-- The books stay closed, whatever is called later. -/
theorem Closing.concat {calls before : List Call} (h : Closing calls before) (call : Call) :
    Closing (calls ++ [call]) before :=
  ⟨h.1.trans (List.prefix_append calls [call]), h.2⟩

/-- A further call is a closing itself, or leaves those there were. -/
theorem closing_concat_iff {calls before : List Call} {call : Call} :
    Closing (calls ++ [call]) before ↔
      Closing calls before ∨ before = calls ∧ call = .reduce ∧ unreduced calls ≠ [] := by
  rw [Closing, List.prefix_concat_iff]
  constructor
  · rintro ⟨heq | hpre, hne⟩
    · obtain ⟨rfl, hcall⟩ := List.append_inj' heq rfl
      exact .inr ⟨rfl, (List.singleton_inj.mp hcall).symm, hne⟩
    · exact .inl ⟨hpre, hne⟩
  · rintro (⟨hpre, hne⟩ | ⟨rfl, rfl, hne⟩)
    · exact ⟨.inr hpre, hne⟩
    · exact ⟨.inl rfl, hne⟩

theorem closing_concat_append_iff {calls before : List Call} {events : List Event} :
    Closing (calls ++ [.append events]) before ↔ Closing calls before := by
  rw [closing_concat_iff, or_iff_left (by simp)]

theorem closing_concat_reduce_iff {calls before : List Call} (h : unreduced calls = []) :
    Closing (calls ++ [.reduce]) before ↔ Closing calls before := by
  rw [closing_concat_iff, or_iff_left (by simp [h])]

/-- A reduction is later than what it folds. -/
theorem Closing.length_lt {calls before : List Call} (h : Closing calls before) :
    before.length < calls.length := by
  have hle := h.1.length_le
  rw [List.length_append] at hle
  exact hle

/-- Only events close the books. -/
theorem Closing.appended_ne_nil {calls before : List Call} (h : Closing calls before) :
    appended calls ≠ [] := by
  intro hnil
  have hbefore : appended before <+: appended calls :=
    ((List.prefix_append before [.reduce]).trans h.1).flatMap Call.events
  rw [hnil, List.prefix_nil] at hbefore
  exact h.2 (List.suffix_nil.mp (hbefore ▸ unreduced_suffix before))

/-- A reduction that finds events is the last of the closings. -/
theorem lastClosing_concat_reduce {calls : List Call} (h : unreduced calls ≠ []) :
    LastClosing (calls ++ [.reduce]) calls := by
  refine ⟨closing_concat_iff.mpr (.inr ⟨rfl, rfl, h⟩), fun later hlater => ?_⟩
  rcases closing_concat_iff.mp hlater with hearlier | ⟨rfl, -, -⟩
  · exact hearlier.length_lt.le
  · exact le_rfl

/-- The last closing depends on the closings alone. -/
theorem LastClosing.congr {calls calls' before : List Call}
    (h : ∀ before, Closing calls' before ↔ Closing calls before) (hlast : LastClosing calls before) :
    LastClosing calls' before :=
  ⟨(h before).mpr hlast.1, fun later hlater => hlast.2 later ((h later).mp hlater)⟩

/-- Without a closing, nothing that was appended has been reduced. -/
theorem unreduced_eq_appended {calls : List Call} (h : ∀ before, ¬ Closing calls before) :
    unreduced calls = appended calls := by
  induction calls using List.reverseRecOn with
  | nil => rfl
  | append_singleton calls call ih =>
      have hcalls := ih fun before hbefore => h before (hbefore.concat call)
      cases call with
      | append events => rw [unreduced_concat_append, appended_concat, hcalls]; rfl
      | reduce =>
          -- the reduction is no closing, so it has found nothing
          have hnil : unreduced calls = [] := by
            by_contra hne
            exact h calls (lastClosing_concat_reduce hne).1
          rw [unreduced_concat_reduce, appended_concat, ← hcalls, hnil]
          rfl

/-! ### The buffer -/

/-- **The buffer** holds what has been appended since the last reduction. -/
theorem events_after {m : WriteModel} (hm : m.events = []) (calls : List Call) :
    (after calls m).events = unreduced calls := by
  induction calls using List.reverseRecOn with
  | nil => exact hm
  | append_singleton calls call ih =>
      cases call with
      | append events => rw [after_concat_append, unreduced_concat_append, ← ih]; rfl
      | reduce => rw [after_concat_reduce, unreduced_concat_reduce, events_reduce]

/-- A reduction that finds nothing changes nothing. -/
theorem after_concat_reduce_nil {m : WriteModel} (hm : m.events = []) {calls : List Call}
    (h : unreduced calls = []) : after (calls ++ [.reduce]) m = after calls m := by
  rw [after_concat_reduce, reduce_of_events_nil ((events_after hm calls).trans h)]

/-- A closing takes from the first event of the buffer, and from the last that has been appended. -/
theorem after_concat_reduce_closed {m : WriteModel} (hm : m.events = []) {calls : List Call}
    (h : unreduced calls ≠ []) :
    ∃ first last, (unreduced calls).head? = some first ∧ (appended calls).getLast? = some last ∧
      after (calls ++ [.reduce]) m = (after calls m).closed first last := by
  obtain ⟨earlier, hearlier⟩ := unreduced_suffix calls
  obtain ⟨first, hfirst⟩ := Option.ne_none_iff_exists'.mp (mt List.head?_eq_none_iff.mp h)
  obtain ⟨last, hlast⟩ := Option.ne_none_iff_exists'.mp (mt List.getLast?_eq_none_iff.mp h)
  refine ⟨first, last, hfirst, ?_, ?_⟩
  · rw [← hearlier, List.getLast?_append, hlast, Option.some_or]
  · rw [after_concat_reduce]
    rw [← events_after hm calls] at hfirst hlast
    exact reduce_eq_closed hfirst hlast

/-! ### The place in the stream -/

/-- Books stand at the last event that had been appended when they were last closed, and at the beginning if
they never were. -/
def Standing (calls : List Call) (m : WriteModel) : Prop :=
  ((∀ before, ¬ Closing calls before) ∧ m.processedSequence = 0 ∧ m.changeDate = none) ∨
  ∃ before last, LastClosing calls before ∧ (appended before).getLast? = some last ∧
    m.processedSequence = last.sequence ∧ m.changeDate = some last.creationDate

theorem Standing.congr {calls calls' : List Call} {m m' : WriteModel}
    (hcalls : ∀ before, Closing calls' before ↔ Closing calls before)
    (hseq : m'.processedSequence = m.processedSequence) (hdate : m'.changeDate = m.changeDate)
    (h : Standing calls m) : Standing calls' m' := by
  rw [Standing, hseq, hdate]
  rcases h with ⟨hnever, hstart⟩ | ⟨before, last, hclosing, hlast⟩
  · exact .inl ⟨fun before hbefore => hnever before ((hcalls before).mp hbefore), hstart⟩
  · exact .inr ⟨before, last, hclosing.congr hcalls, hlast⟩

/-- **The place in the stream** is that of the last event appended before the last closing. -/
theorem standing_after {m : WriteModel} (hm : m.Fresh) (calls : List Call) :
    Standing calls (after calls m) := by
  obtain ⟨hbuffer, hseq, hdate⟩ := hm
  induction calls using List.reverseRecOn with
  | nil => exact .inl ⟨not_closing_nil, hseq, hdate⟩
  | append_singleton calls call ih =>
      cases call with
      | append events =>
          rw [after_concat_append]
          exact ih.congr (fun _ => closing_concat_append_iff) rfl rfl
      | reduce =>
          by_cases hnil : unreduced calls = []
          · rw [after_concat_reduce_nil hbuffer hnil]
            exact ih.congr (fun _ => closing_concat_reduce_iff hnil) rfl rfl
          · obtain ⟨first, last, -, hlast, heq⟩ := after_concat_reduce_closed hbuffer hnil
            rw [heq]
            exact .inr ⟨calls, last, lastClosing_concat_reduce hnil, hlast, rfl, rfl⟩

/-! ### The state -/

/-- Books are replaying if events have been appended since the last reduction. -/
theorem state_after_replaying {m : WriteModel} (hm : m.Fresh) (calls : List Call) :
    (after calls m).state = .replaying ↔ unreduced calls ≠ [] := by
  rw [state, events_after hm.1]
  cases unreduced calls with
  | nil =>
      show (if _ then ReplayState.uninitialized else ReplayState.current) = .replaying ↔ _
      split <;> simp
  | cons e es => simp

/-- Books are uninitialized if nothing has ever been appended. -/
theorem state_after_uninitialized {m : WriteModel} (hm : m.Fresh) (calls : List Call) :
    (after calls m).state = .uninitialized ↔ appended calls = [] := by
  rw [state, events_after hm.1]
  rcases standing_after hm calls with ⟨hnever, hseq, hdate⟩ | ⟨before, last, hclosing, -, -, hdate⟩
  · rw [unreduced_eq_appended hnever, hseq, hdate]
    cases appended calls <;> simp
  · -- once closed, books have a date, whatever the sequence of the event
    rw [hdate]
    have hne := hclosing.1.appended_ne_nil
    cases unreduced calls <;> simp [hne]

/-- Books are current otherwise. -/
theorem state_after_current {m : WriteModel} (hm : m.Fresh) (calls : List Call) :
    (after calls m).state = .current ↔ unreduced calls = [] ∧ appended calls ≠ [] := by
  have hreduced : unreduced calls = [] ↔ (after calls m).state ≠ .replaying := by
    rw [Ne, state_after_replaying hm, not_ne_iff]
  rw [hreduced, ne_eq (appended calls), ← state_after_uninitialized hm]
  cases (after calls m).state <;> simp

/-! ### The identity -/

/-- What books know of whose events they hold. -/
inductive IdentityField where
  | aggregateId
  | resourceOwner
  | instanceId

namespace IdentityField

/-- What books know. -/
def known : IdentityField → WriteModel → String
  | aggregateId, m => m.aggregateId
  | resourceOwner, m => m.resourceOwner
  | instanceId, m => m.instanceId

/-- What an event tells. -/
def told : IdentityField → Event → String
  | aggregateId, e => e.aggregate.id
  | resourceOwner, e => e.aggregate.resourceOwner
  | instanceId, e => e.aggregate.instanceId

variable (field : IdentityField)

@[simp] theorem known_append (m : WriteModel) (events : List Event) :
    field.known (m.append events) = field.known m := by
  cases field <;> rfl

/-- Closing the books keeps what is known, and takes the rest from the first event. -/
@[simp] theorem known_closed (m : WriteModel) (first last : Event) :
    field.known (m.closed first last) = orElse (field.known m) (field.told first) := by
  cases field <;> rfl

/-- **What is known** stays, whatever calls follow. -/
theorem known_after {m : WriteModel} (hm : m.events = []) {calls : List Call} (later : List Call)
    (h : field.known (after calls m) ≠ "") :
    field.known (after (calls ++ later) m) = field.known (after calls m) := by
  induction later using List.reverseRecOn with
  | nil => rw [List.append_nil]
  | append_singleton later call ih =>
      rw [← List.append_assoc, ← ih]
      cases call with
      | append events => rw [after_concat_append, known_append]
      | reduce =>
          by_cases hnil : unreduced (calls ++ later) = []
          · rw [after_concat_reduce_nil hm hnil]
          · obtain ⟨first, last, -, -, heq⟩ := after_concat_reduce_closed hm hnil
            rw [heq, known_closed, orElse_of_ne (ih ▸ h)]

/-- With nothing known before, a closing took a value from the first event of the buffer. -/
def Taken (m : WriteModel) (calls : List Call) (value : String) : Prop :=
  ∃ before first, Closing calls before ∧ (unreduced before).head? = some first ∧
    field.known (after before m) = "" ∧ value = field.told first

variable {field}

theorem Taken.concat {m : WriteModel} {calls : List Call} {value : String}
    (h : field.Taken m calls value) (call : Call) : field.Taken m (calls ++ [call]) value :=
  let ⟨before, first, hclosing, hfirst⟩ := h
  ⟨before, first, hclosing.concat call, hfirst⟩

variable (field)

/-- **What is known** was set up, or has been taken. -/
theorem known_after_cases {m : WriteModel} (hm : m.events = []) (calls : List Call) :
    field.known (after calls m) = field.known m ∨ field.Taken m calls (field.known (after calls m)) := by
  induction calls using List.reverseRecOn with
  | nil => exact .inl rfl
  | append_singleton calls call ih =>
      have hkept := ih.imp_right (Taken.concat · call)
      cases call with
      | append events => rwa [after_concat_append, known_append]
      | reduce =>
          by_cases hnil : unreduced calls = []
          · rwa [after_concat_reduce_nil hm hnil]
          obtain ⟨first, last, hfirst, -, heq⟩ := after_concat_reduce_closed hm hnil
          rw [heq, known_closed]
          by_cases hknown : field.known (after calls m) = ""
          · rw [hknown, orElse_empty]
            exact .inr ⟨calls, first, (lastClosing_concat_reduce hnil).1, hfirst, hknown, rfl⟩
          · rwa [orElse_of_ne hknown]

end IdentityField

/-! ### Books throughout their life -/

/-- What books that were set up as `m` show after calls. -/
structure Kept (m : WriteModel) (calls : List Call) : Prop where
  buffer : (after calls m).events = unreduced calls
  replaying : (after calls m).state = .replaying ↔ unreduced calls ≠ []
  uninitialized : (after calls m).state = .uninitialized ↔ appended calls = []
  current : (after calls m).state = .current ↔ unreduced calls = [] ∧ appended calls ≠ []
  standing : Standing calls (after calls m)
  stays : ∀ (field : IdentityField) (earlier : List Call), earlier <+: calls →
    field.known (after earlier m) ≠ "" → field.known (after calls m) = field.known (after earlier m)
  origin : ∀ field : IdentityField, field.known (after calls m) = field.known m ∨
    field.Taken m calls (field.known (after calls m))

/-- **Books throughout their life**, from when they are set up. -/
theorem kept_after {m : WriteModel} (h : m.Built) (calls : List Call) : Kept m calls where
  buffer := events_after h.fresh.1 calls
  replaying := state_after_replaying h.fresh calls
  uninitialized := state_after_uninitialized h.fresh calls
  current := state_after_current h.fresh calls
  standing := standing_after h.fresh calls
  stays := by
    rintro field earlier ⟨later, rfl⟩ hknown
    exact field.known_after h.fresh.1 later hknown
  origin field := field.known_after_cases h.fresh.1 calls

/-- An event without number and without names. -/
def blankEvent : Event where
  aggregate := default
  type := ""
  sequence := 0
  position := 0
  creationDate := default
  editorUser := ""
  data := .null

/-- A life in which there is but once something to reduce. -/
def uneventful : List Call :=
  [.reduce, .append [], .append [blankEvent], .reduce, .append [], .reduce]

/-- Books on an organisation without an owner. -/
def orgBooks : WriteModel :=
  ({ aggregateId := "org-1" } : WriteModel).inInstance "i1"

/-- After it the books are current, although they still stand at zero and have no owner. -/
theorem kept_after_uneventful :
    orgBooks.Built ∧ Kept orgBooks uneventful ∧ (after uneventful orgBooks).state = .current ∧
      (after uneventful orgBooks).processedSequence = 0 ∧
      (after uneventful orgBooks).resourceOwner = "" := by
  have hbuilt : orgBooks.Built := .inInstance (.new "org-1") "i1"
  have h := kept_after hbuilt uneventful
  exact ⟨hbuilt, h, h.current.mpr (by decide), rfl, rfl⟩

end EventSourcing.WriteModel
